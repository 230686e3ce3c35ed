import Askozia.Asterisk.Dialplan
import Askozia.Dialplan.Conf

/-!
# What is read of the generated dialplan

A generated line is read as it is meant as long as the stored texts in it have no line breaks, and
the names of its extensions no commas. Most lines are a fixed text with stored texts in it, so that
what they are can be told from the beginning and the end of the fixed text.
-/

namespace Askozia
namespace Dialplan

open Php Config Pbx Asterisk

/-! ## Texts -/

/-- The priority, application and the rest of a step. -/
def stepHead (s : List Char) : Option (List Char × List Char × List Char) :=
  (cutAt ',' s).bind fun pb => (cutAt '(' pb.2).map fun ab => (pb.1, ab.1, ab.2)

/-- The text starts with a priority and an application. -/
def opensChars (s : List Char) : Bool :=
  (stepHead s).any fun h => isPriority h.1 && isApplication h.2.1

/-- The priority of the step is `n`. -/
def isNextChars (s : List Char) : Bool := (stepHead s).any fun h => h.1.head? == some 'n'

/-- The step is no `Goto`, and no `Dial` of a local channel. -/
def quietChars (s : List Char) : Bool :=
  (stepHead s).any fun h => h.2.1 != "Goto".toList &&
    (h.2.1 != "Dial".toList || h.2.2.head?.any (· != 'L'))

/-- The text has no line break. -/
def oneLine (s : String) : Bool := !s.toList.contains '\n'

/-- The text ends with a parenthesis. -/
def closes (s : String) : Bool := s.toList.getLast? == some ')'

/-- The text starts with a priority and an application. -/
def opens (s : String) : Bool := opensChars s.toList

/-- The priority of the step is `n`. -/
def isNext (s : String) : Bool := isNextChars s.toList

/-- The step is no `Goto`, and no `Dial` of a local channel. -/
def quiet (s : String) : Bool := quietChars s.toList

/-- A step after the first one, that leaves its context alone. -/
def calm (s : String) : Bool := isNext s && opens s && quiet s

section Texts

variable {a b : String}

/-- A text is one line if it has no end of line. -/
theorem oneLine_eq_true {s : String} : oneLine s = true ↔ '\n' ∉ s.toList := by
  simp [oneLine]

/-- Two texts are one line if each of them is. -/
@[simp] theorem oneLine_append : oneLine (a ++ b) = (oneLine a && oneLine b) := by
  simp [oneLine]

/-- Only the end of a text matters for whether it closes. -/
theorem closes_append (h : closes b = true) : closes (a ++ b) = true := by
  unfold closes at h ⊢
  rw [beq_iff_eq] at h ⊢
  rw [String.toList_append, List.getLast?_append, h]
  rfl

/-- Only its beginning matters for what it is a step of. -/
theorem stepHead_append {s u p ap t : List Char} (h : stepHead s = some (p, ap, t)) :
    stepHead (s ++ u) = some (p, ap, t ++ u) := by
  unfold stepHead at h ⊢
  rw [Option.bind_eq_some_iff] at h
  obtain ⟨⟨p', body⟩, hcut, h⟩ := h
  rw [Option.map_eq_some_iff] at h
  obtain ⟨⟨a', t'⟩, hcut', h⟩ := h
  simp only [Prod.mk.injEq] at h
  obtain ⟨rfl, rfl, rfl⟩ := h
  rw [cutAt_append hcut, Option.bind_some, cutAt_append hcut']
  rfl

/-- What the beginning of a step shows of it. -/
theorem any_stepHead_append {P : List Char × List Char × List Char → Bool}
    (hP : ∀ p ap t u, P (p, ap, t) = true → P (p, ap, t ++ u) = true)
    (h : (stepHead a.toList).any P = true) : (stepHead (a ++ b).toList).any P = true := by
  rw [String.toList_append]
  cases hhead : stepHead a.toList with
  | none =>
    rw [hhead] at h
    cases h
  | some x =>
    obtain ⟨p, ap, t⟩ := x
    rw [stepHead_append hhead]
    rw [hhead] at h
    exact hP p ap t _ h

/-- Only its beginning matters for whether it opens an application. -/
theorem opens_append (h : opens a = true) : opens (a ++ b) = true :=
  any_stepHead_append (fun _ _ _ _ h => h) h

/-- Only its beginning matters for whether its priority is `n`. -/
theorem isNext_append (h : isNext a = true) : isNext (a ++ b) = true :=
  any_stepHead_append (fun _ _ _ _ h => h) h

/-- Only its beginning matters for whether the application goes nowhere. -/
theorem quiet_append (h : quiet a = true) : quiet (a ++ b) = true := by
  refine any_stepHead_append ?_ h
  intro p ap t u htail
  cases t with
  | nil =>
    simp only [List.head?_nil, Option.any_none, Bool.or_false, Bool.and_eq_true] at htail
    rw [htail.1, htail.2, Bool.true_or, Bool.and_self]
  | cons c r => exact htail

theorem calm_append (h : calm a = true) : calm (a ++ b) = true := by
  simp only [calm, Bool.and_eq_true] at h ⊢
  exact ⟨⟨isNext_append h.1.1, opens_append h.1.2⟩, quiet_append h.2⟩

/-! Fixed texts are checked character by character. -/

/-- Of a fixed text all of this can be checked. -/
theorem oneLine_ofList (cs : List Char) (h : cs.contains '\n' = false) :
    oneLine (String.ofList cs) = true := by
  rw [oneLine, String.toList_ofList, h]
  rfl

theorem closes_ofList (cs : List Char) (h : cs.getLast? = some ')') :
    closes (String.ofList cs) = true := by
  rw [closes, String.toList_ofList, h]
  rfl

theorem opens_ofList (cs : List Char) (h : opensChars cs = true) :
    opens (String.ofList cs) = true := by
  rw [opens, String.toList_ofList, h]

theorem isNext_ofList (cs : List Char) (h : isNextChars cs = true) :
    isNext (String.ofList cs) = true := by
  rw [isNext, String.toList_ofList, h]

theorem quiet_ofList (cs : List Char) (h : quietChars cs = true) :
    quiet (String.ofList cs) = true := by
  rw [quiet, String.toList_ofList, h]

theorem calm_ofList (cs : List Char)
    (h : (isNextChars cs && opensChars cs && quietChars cs) = true) :
    calm (String.ofList cs) = true := by
  rw [calm, isNext, opens, quiet, String.toList_ofList, h]

/-- Two texts of one line each are one line. -/
theorem oneLine_join (ha : oneLine a = true) (hb : oneLine b = true) : oneLine (a ++ b) = true := by
  rw [oneLine_append, ha, hb]
  rfl

/-- A text between two fixed ones. -/
theorem oneLine_between (cs ds : List Char) {s : String} (hc : cs.contains '\n' = false)
    (hd : ds.contains '\n' = false) (hs : oneLine s = true) :
    oneLine (String.ofList cs ++ s ++ String.ofList ds) = true := by
  rw [oneLine_append, oneLine_append, oneLine_ofList cs hc, hs, oneLine_ofList ds hd]
  rfl

/-- A text after a fixed one. -/
theorem oneLine_after (cs : List Char) {s : String} (hc : cs.contains '\n' = false)
    (hs : oneLine s = true) : oneLine (String.ofList cs ++ s) = true := by
  rw [oneLine_append, oneLine_ofList cs hc, hs]
  rfl

end Texts

/-! ## Lines -/

/-- The text of a line, without its end. -/
def Line.body : Line → String
  | exten name rest => "exten => " ++ name ++ "," ++ rest
  | context name => "[" ++ name ++ "]"
  | other text => text
  | unended text => text

/-- What is read of a line. -/
def Line.entry (line : Line) : Entry := readLine line.body.toList

/-- The line is ended, and one line. -/
def Line.tidy : Line → Bool
  | exten name rest => oneLine name && oneLine rest
  | context name => oneLine name
  | other text => oneLine text
  | unended _ => false

/-- The name of an extension. -/
def named (name : String) : Bool :=
  !name.toList.isEmpty && !name.toList.contains ',' && oneLine name

section Lines

variable {line : Line} {lines : List Line}

/-- A tidy line is its body with an end. -/
theorem Line.render_eq (h : line.tidy = true) : line.render = line.body ++ "\n" := by
  cases line with
  | exten name rest => rfl
  | context name =>
    have hend : "]\n" = "]" ++ "\n" := rfl
    rw [Line.render, hend, ← String.append_assoc]
    rfl
  | other text => rfl
  | unended text => cases h

/-- Its body is one line. -/
theorem Line.newline_not_mem_body (h : line.tidy = true) : '\n' ∉ line.body.toList := by
  rw [← oneLine_eq_true]
  cases line with
  | exten name rest =>
    simp only [Line.tidy, Bool.and_eq_true] at h
    simp +decide [Line.body, h.1, h.2]
  | context name =>
    have hname : oneLine name = true := h
    simp +decide [Line.body, hname]
  | other text => exact h
  | unended text => cases h

/-- The lines of a text that is made of tidy lines. -/
theorem explodeChars_render (h : ∀ line ∈ lines, line.tidy = true) :
    explodeChars '\n' (render lines).toList = lines.map (fun line => line.body.toList) ++ [[]] := by
  unfold render
  induction lines with
  | nil => rfl
  | cons line r ih =>
    have hline := h line List.mem_cons_self
    have hnewline : "\n".toList = ['\n'] := rfl
    rw [List.map_cons, String.join_cons, Line.render_eq hline, String.toList_append,
      String.toList_append, hnewline, List.append_assoc, List.singleton_append,
      explodeChars_append, explodeChars_of_not_mem (Line.newline_not_mem_body hline),
      ih fun l hl => h l (List.mem_cons_of_mem _ hl)]
    rfl

/-- A dialplan of tidy lines is read line by line. -/
theorem entries_render (h : ∀ line ∈ lines, line.tidy = true) :
    entries (render lines) = lines.map Line.entry ++ [.blank] := by
  unfold entries
  rw [explodeChars_render h, List.map_append, List.map_map]
  rfl

/-- What is read of a line of an extension. -/
theorem entry_exten {name rest : String} (hname : named name = true) :
    (Line.exten name rest).entry = readStep name.toList rest.toList := by
  simp only [named, Bool.and_eq_true, Bool.not_eq_true', List.isEmpty_eq_false_iff] at hname
  obtain ⟨⟨hne, hcomma⟩, -⟩ := hname
  have hbody : (Line.exten name rest).body.toList =
      "exten => ".toList ++ (name.toList ++ ',' :: rest.toList) := by
    simp [Line.body]
  have hcut : cutAt ',' (name.toList ++ ',' :: rest.toList) = some (name.toList, rest.toList) := by
    apply cutAt_eq
    simpa using hcomma
  have hread : ∀ r, readLine ("exten => ".toList ++ r) = readExten r := by
    intro r
    simp +decide [readLine]
  rw [Line.entry, hbody, hread, readExten, hcut]
  simp only
  rw [if_neg hne]

/-- The contexts a step names. -/
def restTargets (rest : String) : List String := (readStep [] rest.toList).targets

/-- Where a line of an extension goes is decided by its application. -/
theorem targets_exten {name rest : String} (hname : named name = true) :
    (Line.exten name rest).entry.targets = restTargets rest := by
  rw [entry_exten hname, restTargets]
  unfold readStep
  cases cutAt ',' rest.toList with
  | none => rfl
  | some pb =>
    simp only
    split_ifs
    · rfl
    · cases cutAt '(' pb.2 with
      | none => rfl
      | some ab =>
        simp only
        split_ifs
        · rfl
        · rfl

/-- One that goes nowhere has no targets. -/
theorem restTargets_of_quiet {rest : String} (h : quiet rest = true) : restTargets rest = [] := by
  unfold quiet quietChars stepHead at h
  unfold restTargets readStep
  -- the reader goes as far as the application, and only two of them have targets
  cases hcut : cutAt ',' rest.toList with
  | none => rfl
  | some pb =>
    simp only [hcut, Option.bind_some] at h ⊢
    split_ifs with hhint
    · rfl
    · cases hcut' : cutAt '(' pb.2 with
      | none => rfl
      | some ab =>
        simp only [hcut', Option.map_some, Option.any_some, Bool.and_eq_true, bne_iff_ne] at h ⊢
        obtain ⟨hgoto, hdial⟩ := h
        split_ifs with hstep
        · have hne : String.ofList ab.1 ≠ "Goto" := by
            intro heq
            apply hgoto
            rw [← heq, String.toList_ofList]
          rw [Entry.targets, if_neg hne]
          split_ifs with hd
          · have happ : ab.1 = "Dial".toList := by rw [← hd, String.toList_ofList]
            rw [happ] at hdial
            simp only [bne_self_eq_false, Bool.false_or] at hdial
            rw [String.toList_ofList, localContext]
            cases htail : ab.2 with
            | nil => rfl
            | cons c r =>
              rw [htail] at hdial
              have hc : c ≠ 'L' := by simpa using hdial
              cases r with
              | nil => rfl
              | cons d r => simp [hc.symm]
          · rfl
        · rfl

/-- What a `Goto` names. -/
theorem restTargets_goto {rest : String} {prio : Char} {args : List Char}
    (hrest : rest.toList = prio :: ",Goto(".toList ++ args ++ [')'])
    (hprio : isPriority [prio] = true) (hcomma : prio ≠ ',') :
    restTargets rest = gotoContext args := by
  have hcut : cutAt ',' rest.toList = some ([prio], "Goto(".toList ++ args ++ [')']) := by
    rw [hrest]
    exact cutAt_eq (a := [prio]) (by simpa using hcomma.symm)
  have hcut' : cutAt '(' ("Goto(".toList ++ args ++ [')']) = some ("Goto".toList, args ++ [')']) :=
    rfl
  have hhint : [prio] ≠ "hint".toList := by
    intro h
    cases h
  have happ : isApplication "Goto".toList = true := by decide
  have hlast : (args ++ [')']).getLast? = some ')' := List.getLast?_concat
  rw [restTargets, readStep, hcut]
  simp only
  rw [if_neg hhint, hcut']
  simp only
  rw [hprio, happ, hlast, List.dropLast_concat]
  simp [Entry.targets]

/-- A jump with three arguments goes to the context named by the first. -/
theorem gotoContext_eq {context a b : List Char} (hc : ',' ∉ context) (ha : ',' ∉ a)
    (hb : ',' ∉ b) : gotoContext (context ++ ',' :: (a ++ ',' :: b)) = [String.ofList context] := by
  rw [gotoContext, explodeChars_append, explodeChars_append, explodeChars_of_not_mem hc,
    explodeChars_of_not_mem ha, explodeChars_of_not_mem hb]
  rfl

/-- What a `Dial` of a local channel names. -/
theorem restTargets_local {context : String} (h : ∀ c ∈ context.toList, c ≠ '/' ∧ c ≠ ',') :
    restTargets ("n,Dial(Local/" ++ var "EXTEN" ++ "@" ++ context ++ "/n)") = [context] := by
  have hrest : ("n,Dial(Local/" ++ var "EXTEN" ++ "@" ++ context ++ "/n)").toList =
      "n,Dial(Local/$\x7bEXTEN\x7d@".toList ++ (context.toList ++ "/n)".toList) := by
    have hvar : ("n,Dial(Local/" ++ var "EXTEN" ++ "@").toList =
        "n,Dial(Local/$\x7bEXTEN\x7d@".toList := by decide
    rw [String.toList_append, String.toList_append, hvar, List.append_assoc]
  -- the reader's scans stop inside the fixed text at the start, so they are evaluated on it
  have htail : ∀ t : List Char, t.getLast? = some ')' →
      (readStep [] ("n,Dial(Local/$\x7bEXTEN\x7d@".toList ++ t)).targets =
        localContext ("Local/$\x7bEXTEN\x7d@".toList ++ t.dropLast) := by
    intro t ht
    have hne : t ≠ [] := by
      rintro rfl
      cases ht
    have hcut : cutAt ',' ("n,Dial(Local/$\x7bEXTEN\x7d@".toList ++ t) =
      some (['n'], "Dial(Local/$\x7bEXTEN\x7d@".toList ++ t) := rfl
    have hcut' : cutAt '(' ("Dial(Local/$\x7bEXTEN\x7d@".toList ++ t) =
      some ("Dial".toList, "Local/$\x7bEXTEN\x7d@".toList ++ t) := rfl
    have hlast : ("Local/$\x7bEXTEN\x7d@".toList ++ t).getLast? = some ')' := by
      rw [List.getLast?_append, ht]
      rfl
    have hprio : isPriority ['n'] = true := by decide
    have happ : isApplication "Dial".toList = true := by decide
    have hhint : ['n'] ≠ "hint".toList := by decide
    rw [readStep, hcut]
    simp only
    rw [if_neg hhint, hcut']
    simp only
    rw [hprio, happ, hlast, List.dropLast_append_of_ne_nil hne]
    simp [Entry.targets]
  have hstop : (context.toList ++ "/n".toList).takeWhile (fun c => c != '/' && c != ',') =
      context.toList := by
    rw [List.takeWhile_append_of_pos]
    · simp
    · intro c hc
      simp [h c hc]
  have hlocal : localContext ("Local/$\x7bEXTEN\x7d@".toList ++ (context.toList ++ "/n".toList)) =
      [String.ofList ((context.toList ++ "/n".toList).takeWhile
        (fun c => c != '/' && c != ','))] := rfl
  have hdrop : (context.toList ++ "/n)".toList).dropLast = context.toList ++ "/n".toList := by
    rw [List.dropLast_append_of_ne_nil (by decide)]
    rfl
  have hlast : (context.toList ++ "/n)".toList).getLast? = some ')' := by
    rw [List.getLast?_append]
    rfl
  rw [restTargets, hrest, htail _ hlast, hdrop, hlocal, hstop, String.ofList_toList]

end Lines

end Dialplan
end Askozia
