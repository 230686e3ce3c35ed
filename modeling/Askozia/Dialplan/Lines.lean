import Askozia.Dialplan.Steps

/-!
# Lines of contexts

Every line `extensions_conf_generate` writes is one that Asterisk reads as it is meant, and names
only contexts from a given set, apart from lines of a given kind (`Good`): lines typed into the
logic of an application, and messages of a generator that falls through its cases.
-/

namespace Askozia
namespace Dialplan

open Php Config Pbx Asterisk

/-! ## Good lines -/

/-- The name of a context. -/
def headerName (name : String) : Bool :=
  !name.toList.isEmpty && !name.toList.contains ']' && oneLine name

/-- A hint, after the name of the extension. -/
def isHint (rest : String) : Bool := "hint,".toList.isPrefixOf rest.toList

/-- The contexts whose headers are fixed texts. -/
def fixedHeaders : List String := ["globals", "macro-main", "macro-missedcallmail", "macro-checkcf"]

/-- The line is known, and opens no context but those with fixed texts. -/
def familiar : Entry → Bool
  | .unknown => false
  | .header name => fixedHeaders.contains name
  | _ => true

/-- The line is read as what it is meant to be. -/
def Line.proper : Line → Bool
  | exten name rest => named name && oneLine rest && (opens rest && closes rest || isHint rest)
  | context name => headerName name
  | other text => oneLine text && familiar (readLine text.toList)
  | unended _ => false

/-- The line is read as it is meant and names only contexts in `T`, or it is one of those in
`X`. -/
def Good (T : String → Prop) (X : Line → Prop) (line : Line) : Prop :=
  (line.proper = true ∧ ∀ t ∈ line.entry.targets, T t) ∨ X line

/-- All lines are good. -/
def AllGood (T : String → Prop) (X : Line → Prop) (lines : List Line) : Prop :=
  ∀ line ∈ lines, Good T X line

section Good

variable {T : String → Prop} {X : Line → Prop} {name rest : String} {a b : List Line}

/-- A proper line is tidy. -/
theorem Line.tidy_of_proper {line : Line} (h : line.proper = true) : line.tidy = true := by
  cases line with
  | exten name rest =>
    simp only [Line.proper, named, Bool.and_eq_true] at h
    simp [Line.tidy, h.1.1.2, h.1.2]
  | context name =>
    simp only [Line.proper, headerName, Bool.and_eq_true] at h
    exact h.2
  | other text =>
    simp only [Line.proper, Bool.and_eq_true] at h
    exact h.1
  | unended text => cases h

/-- A step opens no context. -/
theorem readStep_opened (exten rest : List Char) : (readStep exten rest).opened = none := by
  unfold readStep
  split
  · rfl
  · split_ifs
    · rfl
    · split
      · rfl
      · split_ifs
        · rfl
        · rfl

/-- The heading of a context is read as one. -/
theorem readLine_context (name : String) :
    readLine (Line.context name).body.toList = readHeader (name.toList ++ [']']) := by
  have hbody : (Line.context name).body.toList = '[' :: (name.toList ++ [']']) := by
    simp [Line.body]
  rw [hbody]
  rfl

/-- It has the name it was written with, if that is a name. -/
theorem entry_context (h : headerName name = true) : (Line.context name).entry = .header name := by
  simp only [headerName, Bool.and_eq_true, Bool.not_eq_true', List.isEmpty_eq_false_iff,
    List.contains_eq_mem, decide_eq_false_iff_not] at h
  rw [Line.entry, readLine_context, readHeader, cutAt_eq h.1.2]
  simp only [true_or, and_true]
  rw [if_pos h.1.1, String.ofList_toList]

/-- The contexts opened by lines that are read as they are meant. -/
theorem opened_of_proper {line : Line} (h : line.proper = true) {n : String}
    (hn : line.entry.opened = some n) : line = .context n ∨ n ∈ fixedHeaders := by
  cases line with
  | exten name rest =>
    simp only [Line.proper, Bool.and_eq_true] at h
    rw [entry_exten h.1.1, readStep_opened] at hn
    cases hn
  | context name =>
    rw [entry_context h] at hn
    exact .inl (congrArg Line.context (Option.some.inj hn))
  | other text =>
    simp only [Line.proper, Bool.and_eq_true] at h
    right
    cases hread : readLine text.toList with
    | header name =>
      rw [Line.entry, Line.body, hread] at hn
      rw [hread] at h
      obtain rfl := Option.some.inj hn
      simpa [familiar] using h.2
    | _ =>
      rw [Line.entry, Line.body, hread] at hn
      cases hn
  | unended text => cases h

/-- A step of an application that goes nowhere is good. -/
theorem good_quiet (hname : named name = true) (hopens : opens rest = true)
    (hquiet : quiet rest = true) (hcloses : closes rest = true) (hone : oneLine rest = true) :
    Good T X (.exten name rest) := by
  left
  constructor
  · rw [Line.proper, hname, hone, hopens, hcloses]
    rfl
  · rw [targets_exten hname, restTargets_of_quiet hquiet]
    intro t ht
    cases ht

/-- A step is good if its jumps are. -/
theorem good_of_isStep (hname : named name = true) (h : IsStep T rest) :
    Good T X (.exten name rest) := by
  left
  constructor
  · rw [Line.proper, hname, h.oneLine, h.opens, h.closes]
    rfl
  · rw [targets_exten hname]
    exact h.targets

theorem allGood_nil : AllGood T X [] := by
  intro line h
  cases h

/-- Lines are good one by one. -/
theorem allGood_cons {line : Line} : AllGood T X (line :: a) ↔ Good T X line ∧ AllGood T X a := by
  unfold AllGood
  rw [List.forall_mem_cons]

/-- Two blocks of good lines make one. -/
theorem AllGood.append (ha : AllGood T X a) (hb : AllGood T X b) : AllGood T X (a ++ b) := by
  intro line hl
  rcases List.mem_append.1 hl with hl | hl
  · exact ha line hl
  · exact hb line hl

/-- So does a block for each element. -/
theorem allGood_flatMap {α : Type} {f : α → List Line} {xs : List α}
    (h : ∀ x ∈ xs, AllGood T X (f x)) : AllGood T X (xs.flatMap f) := by
  intro line hl
  obtain ⟨x, hx, hl⟩ := List.mem_flatMap.1 hl
  exact h x hx line hl

/-- Lines that are written under a condition are good if they are when it holds. -/
theorem allGood_linesIf {c : Bool} (h : AllGood T X a) : AllGood T X (linesIf c a) := by
  unfold linesIf
  split_ifs
  · exact h
  · exact allGood_nil

/-- Steps are good lines. -/
theorem allGood_steps (hname : named name = true) (h : Steps T name a) : AllGood T X a := by
  intro line hl
  obtain ⟨rest, rfl, hstep⟩ := h line hl
  exact good_of_isStep hname hstep

/-- A comment is good. -/
theorem good_comment {text : String} (h : oneLine text = true) :
    Good T X (.other ("; " ++ text)) := by
  have hread : readLine ("; " ++ text).toList = .comment := by
    rw [String.toList_append]
    rfl
  left
  constructor
  · rw [Line.proper, oneLine_after _ rfl h, hread]
    rfl
  · rw [Line.entry, Line.body, hread]
    intro t ht
    cases ht

/-- The line opens a context, is a setting, or says nothing. -/
def isPlain : Entry → Bool
  | .blank => true
  | .comment => true
  | .header name => fixedHeaders.contains name
  | .setting _ _ => true
  | _ => false

/-- A line with a fixed text that names no context. -/
theorem good_plain (cs : List Char) (h : (!cs.contains '\n' && isPlain (readLine cs)) = true) :
    Good T X (.other (String.ofList cs)) := by
  simp only [Bool.and_eq_true, Bool.not_eq_true'] at h
  left
  constructor
  · rw [Line.proper, oneLine_ofList cs h.1, String.toList_ofList, Bool.true_and]
    cases hread : readLine cs with
    | header name =>
      rw [hread] at h
      exact h.2
    | unknown =>
      rw [hread] at h
      cases h.2
    | _ => rfl
  · rw [Line.entry, Line.body, String.toList_ofList]
    intro t ht
    cases hread : readLine cs with
    | includes c =>
      rw [hread] at h
      cases h.2
    | step =>
      rw [hread] at h
      cases h.2
    | _ =>
      rw [hread] at ht
      cases ht

/-- So is the heading of a context. -/
theorem good_context (h : headerName name = true) : Good T X (.context name) := by
  left
  constructor
  · exact h
  · rw [entry_context h]
    intro t ht
    cases ht

/-- A fixed text without commas is a name. -/
theorem named_ofList (ns : List Char)
    (h : (!ns.isEmpty && !ns.contains ',' && !ns.contains '\n') = true) :
    named (String.ofList ns) = true := by
  unfold named oneLine
  rw [String.toList_ofList]
  exact h

/-- A step with a fixed text that leaves its context alone. -/
theorem good_exten (ns cs : List Char)
    (hname : (!ns.isEmpty && !ns.contains ',' && !ns.contains '\n') = true)
    (h : (opensChars cs && quietChars cs && cs.getLast? == some ')' && !cs.contains '\n') = true) :
    Good T X (.exten (String.ofList ns) (String.ofList cs)) := by
  simp only [Bool.and_eq_true, beq_iff_eq, Bool.not_eq_true'] at h
  obtain ⟨⟨⟨hopens, hquiet⟩, hlast⟩, hone⟩ := h
  apply good_quiet _ (opens_ofList cs hopens) (quiet_ofList cs hquiet) (closes_ofList cs hlast)
    (oneLine_ofList cs hone)
  unfold named oneLine
  rw [String.toList_ofList]
  exact hname

/-- A step with a fixed text. -/
theorem good_fixed (ns cs : List Char)
    (hname : (!ns.isEmpty && !ns.contains ',' && !ns.contains '\n') = true)
    (h : (opensChars cs && cs.getLast? == some ')' && !cs.contains '\n') = true)
    (htargets : ∀ t ∈ (readStep [] cs).targets, T t) :
    Good T X (.exten (String.ofList ns) (String.ofList cs)) := by
  simp only [Bool.and_eq_true, beq_iff_eq, Bool.not_eq_true'] at h
  obtain ⟨⟨hopens, hlast⟩, hone⟩ := h
  have hname' := named_ofList ns hname
  left
  constructor
  · rw [Line.proper, hname', oneLine_ofList cs hone, opens_ofList cs hopens,
      closes_ofList cs hlast]
    rfl
  · rw [targets_exten hname', restTargets, String.toList_ofList]
    exact htargets

/-- The beginning of a step that leaves its context alone. -/
structure Opening (s : String) : Prop where
  opens : opens s = true
  quiet : quiet s = true
  oneLine : oneLine s = true

/-- A fixed text that opens an application that goes nowhere. -/
theorem opening_fixed (cs : List Char)
    (h : (opensChars cs && quietChars cs && !cs.contains '\n') = true) :
    Opening (String.ofList cs) := by
  simp only [Bool.and_eq_true, Bool.not_eq_true'] at h
  exact ⟨opens_ofList cs h.1.1, quiet_ofList cs h.1.2, oneLine_ofList cs h.2⟩

/-- More text in its arguments changes nothing. -/
theorem Opening.text {s t : String} (h : Opening s) (ht : Dialplan.oneLine t = true) :
    Opening (s ++ t) := by
  refine ⟨opens_append h.opens, quiet_append h.quiet, ?_⟩
  rw [oneLine_append, h.oneLine, ht]
  rfl

/-- Nor does more fixed text. -/
theorem Opening.fixed {s : String} (h : Opening s) (cs : List Char)
    (hcs : cs.contains '\n' = false) : Opening (s ++ String.ofList cs) :=
  h.text (oneLine_ofList cs hcs)

/-- A step with stored texts in it. -/
theorem good_step {s : String} (hname : named name = true) (h : Opening s) (cs : List Char)
    (hcs : (cs.getLast? == some ')' && !cs.contains '\n') = true) :
    Good T X (.exten name (s ++ String.ofList cs)) := by
  simp only [Bool.and_eq_true, beq_iff_eq, Bool.not_eq_true'] at hcs
  have hend := h.fixed cs hcs.2
  exact good_quiet hname hend.opens hend.quiet (closes_append (closes_ofList cs hcs.1)) hend.oneLine

end Good

/-! ## The macros -/

section Macros

variable {T : String → Prop} {X : Line → Prop} {env : Env} {g : Globals}

/-- The disk of a service is stored in the configuration. -/
theorem unbroken_storageServiceIsActive (hg : Unbroken g.config) (servicename : String) :
    Unbroken (storageServiceIsActive g servicename) := by
  unfold storageServiceIsActive
  cases hfind : (storageGetDisks g).find? fun disk => (disk.get servicename).isset with
  | none => simp [Unbroken, Val.chars]
  | some disk => exact (((hg.get _).get _).mem_vals (List.mem_of_find?_eq_some hfind))

/-- The macros read well: their jumps go back to the context for calls from inside. -/
theorem allGood_macros (hg : Unbroken g.config) (hname : oneLine env.productName = true)
    (hT : T "internal") : AllGood T X (macros env g) := by
  have haddress : oneLine (((g.config.get "notifications").get "email").get "address").toStr = true :=
    oneLine_get ((hg.get _).get _) _
  have hgreeting : oneLine (((storageServiceIsActive g "media").get "mountpoint").toStr ++
      "/askoziapbx/media/vmgreeting/vmgreeting_personal") = true := by
    rw [oneLine_append, oneLine_get (unbroken_storageServiceIsActive hg _),
      oneLine_ofList _ rfl]
    rfl
  have hstatus : "3,Goto(s-" ++ var "DIALSTATUS" ++ ",1)" = "3,Goto(s-$\x7bDIALSTATUS\x7d,1)" := by
    decide
  have hdial : "1,Dial(" ++ var "ARG1" ++ "," ++ var "ARG5" ++ "," ++ var "ARG4" ++ ")" =
      "1,Dial($\x7bARG1\x7d,$\x7bARG5\x7d,$\x7bARG4\x7d)" := by
    decide
  have hinternal : "n,Goto(internal," ++ var "extension" ++ ",1)" =
      "n,Goto(internal,$\x7bextension\x7d,1)" := by
    decide
  have hcons : AllGood T X [.exten "return" "n,Goto(internal,$\x7bextension\x7d,1)", .other ""] := by
    refine allGood_cons.2 ⟨good_fixed _ _ rfl rfl ?_, allGood_cons.2 ⟨good_plain _ rfl, allGood_nil⟩⟩
    intro t ht
    obtain rfl : t = "internal" := List.mem_singleton.1 ht
    exact hT
  unfold macros
  rw [hdial, hstatus, hinternal]
  -- each line is a fixed text, or one with variables and stored texts in it
  refine ((AllGood.append ?_ ?_).append ?_)
  · repeat' refine allGood_cons.2 ⟨?_, ?_⟩
    all_goals first
      | exact allGood_nil
      | (with_reducible refine good_plain _ ?_); rfl
      | (with_reducible refine good_exten _ _ ?_ ?_) <;> rfl
      | (with_reducible refine good_fixed _ _ ?_ ?_ ?_) <;> first | rfl | (intro t ht; cases ht)
      | (with_reducible refine good_step (named_ofList _ ?_) ?_ _ ?_)
    all_goals repeat' first
      | with_reducible refine oneLine_varOf ?_
      | with_reducible refine oneLine_ofList _ ?_
      | with_reducible refine oneLine_join ?_ ?_
      | with_reducible refine opening_fixed _ ?_
      | with_reducible refine Opening.fixed ?_ _ ?_
      | with_reducible refine Opening.text ?_ ?_
      | rfl
  · split_ifs
    all_goals repeat' refine allGood_cons.2 ⟨?_, ?_⟩
    all_goals repeat' first
      | exact allGood_nil
      | with_reducible exact hgreeting
      | with_reducible refine oneLine_varOf ?_
      | with_reducible refine oneLine_ofList _ ?_
      | with_reducible refine oneLine_join ?_ ?_
      | with_reducible refine good_step (named_ofList _ ?_) ?_ _ ?_
      | with_reducible refine opening_fixed _ ?_
      | with_reducible refine Opening.fixed ?_ _ ?_
      | with_reducible refine Opening.text ?_ ?_
      | rfl
  · repeat' first
      | exact hcons
      | refine allGood_cons.2 ⟨?_, ?_⟩
    all_goals first
      | (with_reducible refine good_plain _ ?_); rfl
      | (with_reducible refine good_exten _ _ ?_ ?_) <;> rfl
      | (with_reducible refine good_step (named_ofList _ ?_) ?_ _ ?_)
    all_goals repeat' first
      | with_reducible assumption
      | with_reducible refine oneLine_varOf ?_
      | with_reducible refine oneLine_ofList _ ?_
      | with_reducible refine oneLine_join ?_ ?_
      | with_reducible refine opening_fixed _ ?_
      | with_reducible refine Opening.fixed ?_ _ ?_
      | with_reducible refine Opening.text ?_ ?_
      | rfl

end Macros

/-! ## Applications and faxes -/

section Applications

variable {T : String → Prop} {X : Line → Prop} {env : Env} {g : Globals} {a f : Val}

/-- A plain id is the name of a context. -/
theorem headerName_of_plainId {u : String} (h : plainId u = true) : headerName u = true := by
  have hbracket := plainId_ne h (x := ']') (by decide)
  have hone := oneLine_plainId h
  simp only [plainId, Bool.and_eq_true] at h
  rw [headerName, h.1, hone]
  simpa using hbracket

/-- An identifier with a fixed ending. -/
theorem headerName_append {u : String} (h : plainId u = true) (cs : List Char)
    (hcs : (!cs.contains ']' && !cs.contains '\n') = true) :
    headerName (u ++ String.ofList cs) = true := by
  have hbracket := plainId_ne h (x := ']') (by decide)
  have hone := oneLine_plainId h
  simp only [plainId, Bool.and_eq_true, Bool.not_eq_true'] at h
  simp only [Bool.and_eq_true, Bool.not_eq_true'] at hcs
  unfold headerName
  rw [oneLine_append, hone, oneLine_ofList cs hcs.2, String.toList_append, String.toList_ofList]
  have hcs' : ']' ∉ cs := by simpa using hcs.1
  simp [hbracket, hcs', List.isEmpty_eq_false_iff.1 h.1]

/-- The lines of an application that are typed in. -/
def typedLines (a : Val) : List String := explode '\n' (base64Decode (a.get "applicationlogic").toStr)

/-- The application has logic that is typed in. -/
def isPlaintext (a : Val) : Bool := !is (a.get "type") "php" && is (a.get "type") "plaintext"

/-- The context of an application reads well if the lines that were typed do. -/
theorem allGood_generateApplicationContext2 (ha : Unbroken a)
    (hid : plainId (a.get "uniqid").toStr = true)
    (htyped : isPlaintext a = true → ∀ l ∈ typedLines a,
      if isInclude l then X (.other l) else Good T X (.exten anyExten l) ∧ Good T X (.exten "s" l)) :
    AllGood T X (generateApplicationContext2 a) := by
  have hname := oneLine_get ha "name"
  have huniqid := oneLine_plainId hid
  have hheader := headerName_of_plainId hid
  unfold generateApplicationContext2
  simp only
  -- a PHP application, one that is typed in, and a type that the source does not know
  split_ifs with hphp htext
  · have hagi : ∀ ns : List Char, (!ns.isEmpty && !ns.contains ',' && !ns.contains '\n') = true →
        Good T X (.exten (String.ofList ns) ("1,AGI(" ++ (a.get "uniqid").toStr ++ ".php)")) :=
      fun ns hns => good_step (named_ofList ns hns) ((opening_fixed _ rfl).text huniqid) _ rfl
    refine allGood_cons.2 ⟨good_comment hname, allGood_cons.2 ⟨good_context hheader, ?_⟩⟩
    exact allGood_cons.2 ⟨hagi _ rfl, allGood_cons.2 ⟨good_exten _ _ rfl rfl,
      allGood_cons.2 ⟨hagi _ rfl, allGood_cons.2 ⟨good_exten _ _ rfl rfl,
      allGood_cons.2 ⟨good_exten _ _ rfl rfl, allGood_nil⟩⟩⟩⟩⟩
  · have hlogic := htyped (by simp [isPlaintext, hphp, htext])
    have hincludes : AllGood T X (((typedLines a).filter isInclude).map .other) := by
      intro line hl
      obtain ⟨l, hmem, rfl⟩ := List.mem_map.1 hl
      rw [List.mem_filter] at hmem
      have h := hlogic l hmem.1
      rw [if_pos hmem.2] at h
      exact .inr h
    have hsteps : ∀ e, (e = anyExten ∨ e = "s") →
        AllGood T X (((typedLines a).filter (!isInclude ·)).map (.exten e)) := by
      intro e he line hl
      obtain ⟨l, hmem, rfl⟩ := List.mem_map.1 hl
      rw [List.mem_filter] at hmem
      have h := hlogic l hmem.1
      rw [if_neg (by simpa using hmem.2)] at h
      rcases he with rfl | rfl
      · exact h.1
      · exact h.2
    refine AllGood.append (AllGood.append (AllGood.append ?_ hincludes) (hsteps _ (.inl rfl)))
      (hsteps _ (.inr rfl))
    exact allGood_cons.2 ⟨good_comment hname, allGood_cons.2 ⟨good_context hheader, allGood_nil⟩⟩
  · exact allGood_nil

/-- A line of a mail is good. -/
theorem good_echoMail {text : String} (h : oneLine text = true) : Good T X (echoMail text) := by
  exact good_step (named_ofList _ rfl)
    ((((opening_fixed _ rfl).text h).fixed _ rfl).text (oneLine_varOf (oneLine_ofList _ rfl))) _ rfl

/-- The context of a virtual fax reads well: it receives the fax and mails it. -/
theorem allGood_generateVirtualFaxContext (hg : Unbroken g.config) (hf : Unbroken f)
    (hname : oneLine env.productName = true) (htext : oneLine (env.gettext "New Fax from") = true)
    (hid : plainId (f.get "uniqid").toStr = true) :
    AllGood T X (generateVirtualFaxContext env g f) := by
  have haddress : oneLine (((g.config.get "notifications").get "email").get "address").toStr = true :=
    oneLine_get ((hg.get _).get _) _
  have hmount := oneLine_get (unbroken_storageServiceIsActive hg "faxarchive") "mountpoint"
  have hextension := oneLine_get hf "extension"
  have hemail := oneLine_get hf "email"
  unfold generateVirtualFaxContext anyExten
  refine ((AllGood.append ?_ ?_).append ?_)
  · refine allGood_cons.2 ⟨good_comment (oneLine_get hf _),
      allGood_cons.2 ⟨good_context (headerName_of_plainId hid), ?_⟩⟩
    -- line by line: comments and fixed lines, and steps that begin with a fixed text
    repeat' refine allGood_cons.2 ⟨?_, ?_⟩
    all_goals first
      | exact allGood_nil
      | (with_reducible refine good_plain _ ?_); rfl
      | (with_reducible refine good_exten _ _ ?_ ?_) <;> rfl
      | with_reducible refine good_echoMail ?_
      | (with_reducible refine good_step (named_ofList _ ?_) ?_ _ ?_)
    all_goals repeat' first
      | with_reducible assumption
      | with_reducible refine oneLine_varOf ?_
      | with_reducible refine oneLine_ofList _ ?_
      | with_reducible refine oneLine_join ?_ ?_
      | with_reducible refine opening_fixed _ ?_
      | with_reducible refine Opening.fixed ?_ _ ?_
      | with_reducible refine Opening.text ?_ ?_
      | rfl
  · apply allGood_linesIf
    refine allGood_cons.2 ⟨good_step (named_ofList _ rfl) ?_ _ rfl, allGood_nil⟩
    exact (((opening_fixed _ rfl).text (oneLine_varOf (oneLine_ofList _ rfl))).fixed _ rfl).text
      hmount
  · repeat' refine allGood_cons.2 ⟨?_, ?_⟩
    all_goals first
      | exact allGood_nil
      | (with_reducible refine good_plain _ ?_); rfl
      | (with_reducible refine good_step (named_ofList _ ?_) ?_ _ ?_)
    all_goals repeat' first
      | with_reducible refine oneLine_varOf ?_
      | with_reducible refine oneLine_ofList _ ?_
      | with_reducible refine oneLine_join ?_ ?_
      | with_reducible refine opening_fixed _ ?_
      | with_reducible refine Opening.text ?_ ?_
      | rfl

end Applications

end Dialplan
end Askozia
