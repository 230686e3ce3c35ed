import Askozia.Asterisk.Priorities
import Askozia.Dialplan.Applications
import Askozia.Dialplan.Jumps

/-!
# Steps in order

Every generator writes its lines for one extension, whose name it is given in one of several ways, and
all but the first have the priority `n`. Two places use another name for some of them: the mark for
pickups of a phone that has a public name, and the lines that wait for a fax tone in front of a pattern.

* `typedChecked_of_accepted`: lines typed into an application are in order if the form accepted them;
* `steps_in_order_iff`: these are the only ones.
-/

namespace Askozia
namespace Dialplan

open Php Config Pbx Asterisk

/-! ## Lines -/

/-- What the lines are in the order of steps. -/
def marks (lines : List Line) : List Mark := lines.map fun line => markOf line.body.toList

/-- A text starts with a priority. -/
structure Begins (p : Priority) (s : String) : Prop where
  priority : readPriority s.toList = p
  ends : ∃ c ∈ s.toList, c = ',' ∨ c = '('

section Lines

variable {last : Last} {name rest text : String} {p : Priority} {k : ℕ} {a b : List Line}

/-- The marks of two parts of the dialplan, one after the other. -/
theorem marks_append : marks (a ++ b) = marks a ++ marks b := List.map_append

/-- The marks of what is written element by element. -/
theorem marks_flatMap {α : Type} (xs : List α) (f : α → List Line) :
    marks (xs.flatMap f) = xs.flatMap fun x => marks (f x) := List.map_flatMap

/-- A fixed text that ends its priority begins with it, whatever follows. -/
theorem begins_fixed (cs : List Char) (h : readPriority cs = p) (hends : cs.any (fun c => c == ',' || c == '(')) :
    Begins p (String.ofList cs) := by
  refine ⟨by rwa [String.toList_ofList], ?_⟩
  obtain ⟨c, hc, hcut⟩ := List.any_eq_true.1 hends
  rw [String.toList_ofList]
  exact ⟨c, hc, by simpa using hcut⟩

/-- More text after the priority does not change it. -/
theorem Begins.append {t : String} (h : Begins p rest) : Begins p (rest ++ t) := by
  obtain ⟨c, hc, hcut⟩ := h.ends
  constructor
  · rw [String.toList_append, readPriority_append h.ends]
    exact h.priority
  · rw [String.toList_append]
    exact ⟨c, List.mem_append_left _ hc, hcut⟩

/-- A line for an extension. -/
theorem mark_exten (hname : named name = true) :
    markOf (Line.exten name rest).body.toList = .step name (readPriority rest.toList) := by
  have hopened : (readLine (Line.exten name rest).body.toList).opened = none := by
    have hentry : (Line.exten name rest).entry = _ := entry_exten hname
    unfold Line.entry at hentry
    rw [hentry, readStep_opened]
  have hbody : (Line.exten name rest).body.toList =
      "exten => ".toList ++ (name.toList ++ ',' :: rest.toList) := by
    simp [Line.body]
  have hcut : cutAt ',' (name.toList ++ ',' :: rest.toList) = some (name.toList, rest.toList) :=
    cutAt_eq (comma_not_mem_of_named hname)
  unfold markOf
  rw [hopened, hbody]
  have hdrop : ("exten => ".toList ++ (name.toList ++ ',' :: rest.toList)).drop 9 =
      name.toList ++ ',' :: rest.toList := rfl
  have hstart : "exten => ".toList.isPrefixOf ("exten => ".toList ++ (name.toList ++ ',' :: rest.toList)) =
      true := List.isPrefixOf_iff_prefix.2 (List.prefix_append _ _)
  rw [hdrop, hcut, hstart]
  simp

/-- A line of an extension is marked with its name and its priority. -/
theorem mark_begins (hname : named name = true) (hrest : Begins p rest) :
    markOf (Line.exten name rest).body.toList = .step name p := by
  rw [mark_exten hname, hrest.priority]

/-- A heading starts a context. -/
theorem mark_context (hname : headerName name = true) :
    markOf (Line.context name).body.toList = .opening := by
  have hentry := entry_context hname
  unfold Line.entry at hentry
  unfold markOf
  rw [hentry]
  rfl

/-- A comment is for no extension. -/
theorem mark_comment : markOf (Line.other ("; " ++ text)).body.toList = .neither := by
  have hbody : (Line.other ("; " ++ text)).body.toList = ';' :: ' ' :: text.toList := by
    simp [Line.body]
  rw [hbody]
  rfl

/-- A step of a generator has the priority `n`. -/
theorem readPriority_of_isStep {T : String → Prop} (h : IsStep T rest) : readPriority rest.toList = .next := by
  have hnext : (stepHead rest.toList).any (fun h => h.1.head? == some 'n') = true := h.next
  have hopens : (stepHead rest.toList).any (fun h => isPriority h.1 && isApplication h.2.1) = true := h.opens
  unfold stepHead at hnext hopens
  cases hcut : cutAt ',' rest.toList with
  | none =>
    rw [hcut] at hnext
    cases hnext
  | some pb =>
    obtain ⟨p, body⟩ := pb
    cases hcut' : cutAt '(' body with
    | none =>
      rw [hcut, Option.bind_some, hcut'] at hnext
      cases hnext
    | some ab =>
      rw [hcut, Option.bind_some, hcut', Option.map_some, Option.any_some] at hnext hopens
      rw [Bool.and_eq_true] at hopens
      obtain ⟨hrest, hcomma⟩ := cutAt_spec hcut
      rw [hrest]
      exact readPriority_next hcomma hopens.1 (by simpa using hnext)

/-- The lines go on with an extension, or are for none. -/
def Continues (name : String) (lines : List Line) : Prop :=
  ∀ line ∈ lines, markOf line.body.toList = .step name .next ∨ markOf line.body.toList = .neither

/-- The steps of an extension go on with it. -/
theorem continues_of_steps {T : String → Prop} (hname : named name = true) (h : Steps T name a) :
    Continues name a := by
  intro line hline
  obtain ⟨rest, rfl, hstep⟩ := h line hline
  rw [mark_exten hname, readPriority_of_isStep hstep]
  exact .inl rfl

theorem continues_nil : Continues name [] := fun _ h => absurd h List.not_mem_nil

/-- A line with the priority `n` goes on with the extension before it. -/
theorem continues_cons (hname : named name = true) (hrest : Begins .next rest) (h : Continues name a) :
    Continues name (.exten name rest :: a) :=
  List.forall_mem_cons.2 ⟨.inl (mark_begins hname hrest), h⟩

/-- Two parts of one extension make one. -/
theorem Continues.append (ha : Continues name a) (hb : Continues name b) : Continues name (a ++ b) :=
  List.forall_mem_append.2 ⟨ha, hb⟩

/-- Lines that are written under a condition go on if they do when it holds. -/
theorem continues_linesIf {c : Bool} (h : Continues name a) : Continues name (linesIf c a) := by
  unfold linesIf
  split_ifs
  · exact h
  · exact continues_nil

/-- The marks of lines that go on. -/
theorem Continues.marks (h : Continues name a) : ∀ m ∈ marks a, m = .step name .next ∨ m = .neither := by
  intro m hm
  obtain ⟨line, hline, rfl⟩ := List.mem_map.1 hm
  exact h line hline

/-! Lines one after the other. -/

/-- A line for no extension does not disturb the order. -/
theorem inOrder_other (h : markOf text.toList = .neither) (ha : InOrder last (marks a)) :
    InOrder last (marks (.other text :: a)) := by
  have hmarks : marks (.other text :: a) = .neither :: marks a := congrArg (· :: marks a) h
  rw [hmarks]
  exact ⟨trivial, ha⟩

/-- After a heading nothing has been counted yet. -/
theorem inOrder_header (h : markOf text.toList = .opening) (ha : InOrder none (marks a)) :
    InOrder last (marks (.other text :: a)) := by
  have hmarks : marks (.other text :: a) = .opening :: marks a := congrArg (· :: marks a) h
  rw [hmarks]
  exact ⟨trivial, ha⟩

/-- The same for the heading of a context. -/
theorem inOrder_context (hname : headerName name = true) (ha : InOrder none (marks a)) :
    InOrder last (marks (.context name :: a)) := by
  have hmarks : marks (.context name :: a) = .opening :: marks a :=
    congrArg (· :: marks a) (mark_context hname)
  rw [hmarks]
  exact ⟨trivial, ha⟩

/-- A line of an extension, with its mark. -/
theorem marks_exten (hname : named name = true) (hrest : Begins p rest) :
    marks (.exten name rest :: a) = .step name p :: marks a :=
  congrArg (· :: marks a) (mark_begins hname hrest)

/-- Counting starts at one, whatever came before. -/
theorem inOrder_one (hname : named name = true) (hrest : Begins (.number 1) rest)
    (ha : InOrder (some (name, some 1)) (marks a)) : InOrder last (marks (.exten name rest :: a)) := by
  rw [marks_exten hname hrest]
  exact inOrder_first.2 ha

/-- A number that is one more than the last goes on. -/
theorem inOrder_counted (hname : named name = true) (hrest : Begins (.number (k + 1)) rest)
    (ha : InOrder (some (name, some (k + 1))) (marks a)) :
    InOrder (some (name, some k)) (marks (.exten name rest :: a)) := by
  rw [marks_exten hname hrest]
  exact inOrder_number.2 ha

/-- `n` stands for one more than the last. -/
theorem inOrder_n (hname : named name = true) (hrest : Begins .next rest)
    (ha : InOrder (some (name, some (k + 1))) (marks a)) :
    InOrder (some (name, some k)) (marks (.exten name rest :: a)) := by
  rw [marks_exten hname hrest]
  exact inOrder_cons_next.2 ⟨rfl, ha⟩

/-- Lines that go on with an extension, and the ones after them. -/
theorem inOrder_of_continues (h : Continues name a) (hb : ∀ k, InOrder (some (name, some k)) (marks b)) (k : ℕ) :
    InOrder (some (name, some k)) (marks (a ++ b)) := by
  induction a generalizing k with
  | nil => exact hb k
  | cons line r ih =>
    have hr := ih fun l hl => h l (List.mem_cons_of_mem _ hl)
    have hmarks : marks (line :: r ++ b) = markOf line.body.toList :: marks (r ++ b) := rfl
    rw [hmarks]
    rcases h line List.mem_cons_self with hline | hline
    · rw [hline, inOrder_cons_next]
      exact ⟨rfl, hr (k + 1)⟩
    · rw [hline]
      exact ⟨trivial, hr k⟩

/-! ## Blocks -/

/-- The lines are in order, whatever is before them. -/
def Ordered (lines : List Line) : Prop := ∀ last, InOrder last (marks lines)

/-- Lines that are in order decide nothing about the dialplan. -/
theorem Ordered.decides (h : Ordered a) : Decides (marks a) True := fun last => iff_of_true (h last) trivial

/-- And those that decide nothing are in order. -/
theorem ordered_of_decides (h : Decides (marks a) True) : Ordered a := fun last => (h last).2 trivial

theorem ordered_nil : Ordered [] := fun _ => trivial

/-- Two blocks that start from anything can stand one after the other. -/
theorem Ordered.append (ha : Ordered a) (hb : Ordered b) : Ordered (a ++ b) := by
  intro last
  rw [marks_append]
  exact inOrder_append.2 ⟨ha last, hb _⟩

/-- So can one block for each element. -/
theorem ordered_flatMap {α : Type} {xs : List α} {f : α → List Line} (h : ∀ x ∈ xs, Ordered (f x)) :
    Ordered (xs.flatMap f) := by
  apply ordered_of_decides
  rw [marks_flatMap]
  apply (decides_flatMap (C := fun _ => True) fun x hx => (h x hx).decides).congr
  exact iff_of_true (fun _ _ => trivial) trivial

/-- A whole extension. -/
theorem ordered_whole (hname : named name = true) (hrest : Begins (.number 1) rest)
    (h : Continues name a) : Ordered (.exten name rest :: a) := by
  apply ordered_of_decides
  rw [marks_exten hname hrest]
  exact decides_extension h.marks

/-- A comment may stand above a block. -/
theorem Ordered.comment (cs : List Char) (h : Ordered a) :
    Ordered (.other (String.ofList (';' :: cs) ++ text) :: a) := by
  intro last
  apply inOrder_other _ (h last)
  rw [String.toList_append, String.toList_ofList]
  rfl

/-- So may any line that is for no extension. -/
theorem Ordered.other (cs : List Char) (hcs : markOf cs = .neither) (h : Ordered a) :
    Ordered (.other (String.ofList cs) :: a) := by
  intro last
  apply inOrder_other _ (h last)
  rw [String.toList_ofList]
  exact hcs

/-- So may a heading. -/
theorem Ordered.context (hname : headerName name = true) (h : Ordered a) : Ordered (.context name :: a) :=
  fun _ => inOrder_context hname (h none)

theorem ordered_blank : Ordered [.other ""] := ordered_nil.other [] rfl

end Lines

/-! ## Phones, groups and rooms -/

section Elements

variable {g : Globals} {x : Val}

/-- The extension of an internal phone goes on with the name it is called by. -/
theorem continues_internalPhone (hg : Unbroken g.config) (h : ElementSpelled "extension" x)
    (htech : HasTechnology x) (fromPublic : Bool) {extension : Option String}
    (hname : named (extension.getD (x.get "extension").toStr) = true) :
    Continues (extension.getD (x.get "extension").toStr)
      (generateInternalPhoneExtension g x fromPublic none extension) := by
  have hone : ∀ e ∈ extension, oneLine e = true := by
    intro e he
    rw [show extension = some e from he] at hname
    exact oneLine_of_named hname
  exact continues_of_steps (T := fun _ => True) hname
    (steps_generateInternalPhoneExtension hg h.unbroken (fun r hr => by cases hr) hone htech)

/-- The name a phone has outside is its number. -/
def NamedByNumber (p : Val) : Prop := ∀ name ∈ publicname p, name = (p.get "extension").toStr

/-- The mark for pickups is set under the number of a phone. -/
theorem decides_publicInternalPhone (hg : Unbroken g.config) (h : ElementSpelled "extension" x)
    (htech : HasTechnology x) : Decides (marks (publicInternalPhone g x)) (NamedByNumber x) := by
  have hnoop : Begins (.number 1) ("1,NoOp(public calling internal phone: " ++ phoneLabel x ++ ")") :=
    Begins.append (Begins.append (begins_fixed _ rfl rfl))
  have hmark : Begins .next ("n,Set(_PICKUPMARK=" ++ (x.get "extension").toStr ++ ")") :=
    Begins.append (Begins.append (begins_fixed _ rfl rfl))
  unfold publicInternalPhone NamedByNumber
  cases hname : Dialplan.publicname x with
  | none =>
    have hrest : Continues _ (generateInternalPhoneExtension g x true none none) :=
      continues_internalPhone hg h htech true h.extension
    have hwhole := ordered_whole h.extension hnoop (continues_cons h.extension hmark hrest)
    apply (hwhole.comment _).decides.congr
    exact iff_of_true trivial fun name hmem => by cases hmem
  | some name =>
    have hnamed := h.publicname name hname
    intro last
    -- with a public name the first line is named by it, the mark by the number
    by_cases hsame : name = (x.get "extension").toStr
    · have hmark' : Begins .next ("n,Set(_PICKUPMARK=" ++ name ++ ")") := hsame ▸ hmark
      have hrest : Continues name (generateInternalPhoneExtension g x true none (some name)) :=
        continues_internalPhone hg h htech true hnamed
      have hwhole := ordered_whole hnamed hnoop (continues_cons hnamed hmark' hrest)
      rw [← hsame]
      exact iff_of_true ((hwhole.comment _) last) fun _ hmem => (Option.some.inj hmem).symm
    · -- the line with the mark is for another extension
      refine iff_of_false ?_ fun hall => hsame (hall name rfl)
      intro horder
      have hstep : InOrder _ (marks (.exten name
          ("1,NoOp(public calling internal phone: " ++ phoneLabel x ++ ")") ::
          .exten (x.get "extension").toStr ("n,Set(_PICKUPMARK=" ++ (x.get "extension").toStr ++ ")") ::
          generateInternalPhoneExtension g x true none (some name))) := horder.2
      rw [marks_exten hnamed hnoop, marks_exten h.extension hmark, inOrder_first,
        inOrder_cons_next] at hstep
      exact hsame hstep.1

/-- The comment and the first step of an extension, and the rest of it. -/
theorem ordered_head (as cs : List Char) {exten comment label : String} {a : List Line}
    (hexten : named exten = true) (hcs : readPriority cs = .number 1)
    (hends : cs.any (fun c => c == ',' || c == '(')) (h : Continues exten a) :
    Ordered ([.other (String.ofList (';' :: as) ++ comment),
      .exten exten (String.ofList cs ++ label ++ ")")] ++ a) :=
  (ordered_whole hexten (Begins.append (Begins.append (begins_fixed cs hcs hends))) h).comment as

/-- The extension of an external phone that can be called from outside is in order. -/
theorem ordered_publicExternalPhone (hg : Unbroken g.config) (h : ElementSpelled "extension" x)
    (hdialled : Dialled x) : Ordered (publicExternalPhone g x) :=
  ordered_head _ _ h.getD rfl rfl (continues_of_steps (T := fun _ => True) h.getD
    (steps_generateExternalPhoneExtension hg h.unbroken (fun r hr => by cases hr) (oneLine_publicname h)
      hdialled))

theorem ordered_publicCallgroup (hg : Unbroken g.config) (h : ElementSpelled "extension" x) :
    Ordered (publicCallgroup g x) :=
  ordered_head _ _ h.getD rfl rfl (continues_of_steps (T := fun _ => True) h.getD
    (steps_generateCallgroupExtension hg h.unbroken fun r hr => by cases hr))

theorem ordered_publicConferenceRoom (h : ElementSpelled "number" x) : Ordered (publicConferenceRoom x) :=
  ordered_head _ _ h.getD rfl rfl (continues_of_steps (T := fun _ => True) h.getD
    (steps_generateConferenceRoomExtension h.unbroken))

theorem ordered_publicApplication (h : IdSpelled x) : Ordered (publicApplication x) := by
  have hexten : named ((Dialplan.publicname x).getD
      (extensionsPatternify (x.get "extension").toStr)) = true := by
    cases hpublic : Dialplan.publicname x with
    | none => exact named_patternify h.extension
    | some name => exact h.publicname name hpublic
  exact ordered_head _ _ hexten rfl rfl (continues_of_steps (T := fun _ => True) hexten
    (steps_generateApplicationExtension (wordId_of_plainId h.uniqid) trivial))

/-- An internal extension counts from the line it starts with. -/
theorem ordered_internalHead {comment exten what : String} {a : List Line} (hexten : named exten = true)
    (h : Continues exten a) : Ordered (internalHead comment exten what ++ a) :=
  ordered_head _ _ hexten rfl rfl h

/-- The extension by which an internal phone is called from inside is in order. -/
theorem ordered_internalInternalPhone (hg : Unbroken g.config) (h : ElementSpelled "extension" x)
    (htech : HasTechnology x) : Ordered (internalInternalPhone g x) :=
  ordered_internalHead h.extension (continues_internalPhone hg h htech false h.extension)

theorem ordered_internalExternalPhone (hg : Unbroken g.config) (h : ElementSpelled "extension" x)
    (hdialled : Dialled x) : Ordered (internalExternalPhone g x) :=
  ordered_internalHead h.extension (continues_of_steps (T := fun _ => True) h.extension
    (steps_generateExternalPhoneExtension hg h.unbroken (fun r hr => by cases hr)
      (fun e he => by cases he) hdialled))

theorem ordered_internalCallgroup (hg : Unbroken g.config) (h : ElementSpelled "extension" x) :
    Ordered (internalCallgroup g x) :=
  ordered_internalHead h.extension (continues_of_steps (T := fun _ => True) h.extension
    (steps_generateCallgroupExtension hg h.unbroken fun r hr => by cases hr))

theorem ordered_internalApplication (h : IdSpelled x) : Ordered (internalApplication x) :=
  ordered_internalHead (named_patternify h.extension) (continues_of_steps (T := fun _ => True)
    (named_patternify h.extension) (steps_generateApplicationExtension (wordId_of_plainId h.uniqid) trivial))

theorem ordered_internalConferenceRoom (h : ElementSpelled "number" x) :
    Ordered (internalConferenceRoom x) :=
  ordered_internalHead h.extension (continues_of_steps (T := fun _ => True) h.extension
    (steps_generateConferenceRoomExtension h.unbroken))

theorem ordered_internalVirtualFax (h : IdSpelled x) : Ordered (internalVirtualFax x) :=
  ordered_internalHead h.extension (continues_of_steps (T := fun _ => True) h.extension
    (steps_generateVirtualFaxExtension (wordId_of_plainId h.uniqid) trivial))

theorem ordered_internalAnalogFax (hg : Unbroken g.config) (h : ElementSpelled "extension" x) :
    Ordered (internalAnalogFax g x) :=
  ordered_internalHead h.extension (continues_of_steps (T := fun _ => True) h.extension
    (steps_generateAnalogFaxExtension hg))

end Elements

/-! ## Providers -/

section Providers

variable {g : Globals} {p : Val} {exten faxExten : String} {readbacknum : Option String} {d : Val}

/-- The lines that replace the caller id go on with the extension, or are an error message. -/
theorem continues_overrides {override overridestring : Val} (hname : named exten = true) :
    Continues exten (generateIncomingCalleridOverrides exten override overridestring) := by
  unfold generateIncomingCalleridOverrides
  split_ifs
  · exact continues_cons hname (Begins.append (Begins.append (begins_fixed _ rfl rfl))) continues_nil
  · exact continues_cons hname (Begins.append (Begins.append (begins_fixed _ rfl rfl))) continues_nil
  · refine continues_cons hname ?_ continues_nil
    exact Begins.append (Begins.append (Begins.append (Begins.append (begins_fixed _ rfl rfl))))
  · intro line hline
    rw [List.mem_singleton.1 hline]
    right
    have hbody : (Line.other ("ERROR: unmatched case (override = " ++ override.toStr ++
        ") in extensions_generate_incoming_callerid_overrides!")).body.toList =
        "ERROR: unmatched case (override = ".toList ++ (override.toStr ++
        ") in extensions_generate_incoming_callerid_overrides!").toList := by
      simp only [Line.body, String.toList_append, List.append_assoc]
    have hentry := entry_overrideError override
    unfold Line.entry overrideError at hentry
    unfold markOf
    rw [hentry, hbody]
    rfl
  · exact continues_nil

/-- The lines that wait for a fax tone have the name of the others. -/
def Waits (p : Val) (n : Entrance) : Prop := (p.get "defaultfax").truthy = true → n.faxExten = n.exten

/-- After a destination that no case is for, the first line of the next name is lost, so the next name must be
the same. -/
def NamesFollow (ns : List Entrance) : Prop :=
  ns.IsChain fun n next => destKind n.destination = none → n.exten = next.exten

/-- The lines for a name after the first, but for the message about the destination. -/
def Entrance.body (g : Globals) (p : Val) (n : Entrance) : List Line :=
  .exten n.exten "n,Set(CDR(UserField)=inbound)" ::
    (linesIf (p.get "defaultfax").truthy [.exten n.faxExten "n,Answer()", .exten n.faxExten "n,Wait(3)"] ++
      (generateIncomingCalleridOverrides n.exten (p.get "override") (p.get "overridestring") ++
        if destKind n.destination = none then []
        else generateExtensionFromUniqid g n.destination true n.readbacknum (some n.exten)))

/-- The first line for a name. -/
def Entrance.noop (p : Val) (n : Entrance) : Line :=
  .exten n.exten ("1,NoOp(incoming call from provider: " ++ (p.get "name").toStr ++ " to " ++
    var "EXTEN" ++ ")")

/-- An entrance is its first line, the others, and the message about a destination that no case is for.
-/
theorem entrance_lines_eq (g : Globals) (p : Val) (n : Entrance) : n.lines g p = n.noop p :: (n.body g p ++
    if destKind n.destination = none then [.unended unmatchedText] else []) := by
  unfold Entrance.lines incomingExtension Entrance.noop Entrance.body
  split_ifs with hnone
  · rw [generateExtensionFromUniqid_of_none hnone, List.append_nil]
    simp only [List.append_assoc, List.cons_append, List.nil_append]
  · rw [List.append_nil]
    simp only [List.append_assoc, List.cons_append, List.nil_append]

/-- Further steps leave the name of the last step as it is. -/
theorem after_continues {lines : List Line} {name : String} (h : Continues name lines) (k : ℕ) :
    ∃ m, (marks lines).foldl Mark.after (some (name, some k)) = some (name, some m) := by
  induction lines generalizing k with
  | nil => exact ⟨k, rfl⟩
  | cons line r ih =>
    have hrest := fun k => ih (fun l hl => h l (List.mem_cons_of_mem _ hl)) k
    have hmarks : marks (line :: r) = markOf line.body.toList :: marks r := rfl
    rw [hmarks, List.foldl_cons]
    rcases h line List.mem_cons_self with hline | hline
    · rw [hline]
      exact hrest (k + 1)
    · rw [hline]
      exact hrest k

/-- The lines of an entrance after the first go on with it, if the fax lines have its name. -/
theorem continues_body (hg : Unbroken g.config) {n : Entrance} (hn : n.Spelled g) (hwaits : Waits p n) :
    Continues n.exten (n.body g p) := by
  have hset : Begins .next "n,Set(CDR(UserField)=inbound)" := begins_fixed _ rfl rfl
  have hanswer : Begins .next "n,Answer()" := begins_fixed _ rfl rfl
  have hwait : Begins .next "n,Wait(3)" := begins_fixed _ rfl rfl
  unfold Entrance.body
  apply continues_cons hn.exten hset
  refine Continues.append ?_ ((continues_overrides hn.exten).append ?_)
  · unfold linesIf
    split_ifs with htruthy
    · rw [hwaits htruthy]
      exact continues_cons hn.exten hanswer (continues_cons hn.exten hwait continues_nil)
    · exact continues_nil
  · split_ifs with hnone
    · exact continues_nil
    · obtain ⟨hmatched, hplain⟩ := hn.matched hnone
      exact continues_of_steps (T := fun _ => True) hn.exten (steps_fromUniqid hg hn.destination
        hn.readbacknum (oneLine_of_named hn.exten) hmatched fun t ht => ⟨hplain t ht, trivial⟩)

/-- The lines for a name after the first go on with this name, and the lines for a fax tone have it. -/
theorem inOrder_body (hg : Unbroken g.config) {n : Entrance} (hn : n.Spelled g) {ms : List Mark} {M : Prop}
    (hms : ∀ k, InOrder (some (n.exten, some k)) ms ↔ M) (name : String) (k : ℕ) :
    InOrder (some (name, some k)) (marks (n.body g p) ++ ms) ↔ name = n.exten ∧ Waits p n ∧ M := by
  have hset : Begins .next "n,Set(CDR(UserField)=inbound)" := begins_fixed _ rfl rfl
  have hanswer : Begins .next "n,Answer()" := begins_fixed _ rfl rfl
  by_cases hname : name = n.exten
  · subst hname
    rw [and_iff_right rfl]
    by_cases hwaits : Waits p n
    · have hbody := continues_body hg hn hwaits
      obtain ⟨m, hafter⟩ := after_continues hbody k
      rw [inOrder_append, hafter, hms, and_iff_right hwaits]
      exact and_iff_right (inOrder_next hbody.marks)
    · -- the lines for a fax tone have another name
      refine iff_of_false ?_ fun h => hwaits h.1
      unfold Waits at hwaits
      rw [Classical.not_imp] at hwaits
      obtain ⟨htruthy, hne⟩ := hwaits
      intro horder
      unfold Entrance.body linesIf at horder
      rw [if_pos htruthy, List.cons_append, marks_exten hn.exten hset, marks_exten hn.faxExten hanswer,
        List.cons_append, inOrder_cons_next, List.cons_append, inOrder_cons_next] at horder
      exact hne horder.2.1.symm
  · refine iff_of_false ?_ fun h => hname h.1
    intro horder
    unfold Entrance.body at horder
    rw [marks_exten hn.exten hset, List.cons_append, inOrder_cons_next] at horder
    exact hname horder.1

/-- Names follow one another pair by pair. -/
theorem namesFollow_cons {n : Entrance} {ns : List Entrance} : NamesFollow (n :: ns) ↔
    (destKind n.destination = none → ∀ next ∈ ns.head?, n.exten = next.exten) ∧ NamesFollow ns := by
  unfold NamesFollow
  rw [List.isChain_cons]
  exact ⟨fun h => ⟨fun hnone next hnext => h.1 next hnext hnone, h.2⟩,
    fun h => ⟨fun next hnext hnone => h.1 hnone next hnext, h.2⟩⟩

/-- Behind the application of the factory configuration only the same name may follow. -/
example : ¬ NamesFollow (entrances (.arr [(.str "incomingextensionmap", .ofList [
    .arr [(.str "incomingpattern", .str "5551"),
      (.str "extension", .str "APPLICATION-MAPPING-17266106704d401be865273")],
    .arr [(.str "incomingpattern", .str "5552"), (.str "extension", .str "SIP-PHONE-1")]])])) := by
  unfold NamesFollow
  decide

/-- The line that the message runs into is lost. -/
theorem mark_unmatched (text : String) : markOf (Line.other (unmatchedText ++ text)).body.toList = .neither := by
  have hbody : (Line.other (unmatchedText ++ text)).body.toList = unmatchedText.toList ++ text.toList := by
    rw [Line.body, String.toList_append]
  rw [hbody]
  unfold markOf
  rw [readLine_unmatchedText]
  rfl

/-- No other line of an entrance is without an end. -/
theorem ended_body (hg : Unbroken g.config) {n : Entrance} (hn : n.Spelled g) :
    ∀ line ∈ n.body g p, line.unending = false := by
  unfold Entrance.body linesIf
  refine List.forall_mem_cons.2 ⟨rfl, List.forall_mem_append.2 ⟨?_, List.forall_mem_append.2
    ⟨ended_overrides _ _ _, ?_⟩⟩⟩
  · split_ifs
    · exact List.forall_mem_cons.2 ⟨rfl, List.forall_mem_singleton.2 rfl⟩
    · exact fun line hline => absurd hline List.not_mem_nil
  · split_ifs with hnone
    · exact fun line hline => absurd hline List.not_mem_nil
    · obtain ⟨hmatched, hplain⟩ := hn.matched hnone
      exact ended_of_steps (T := fun _ => True) (steps_fromUniqid hg hn.destination hn.readbacknum
        (oneLine_of_named hn.exten) hmatched fun t ht => ⟨hplain t ht, trivial⟩)

/-- The lines of an incoming context from a name on, and without the first of them. -/
theorem inOrder_entrances (hg : Unbroken g.config) {ns : List Entrance} (hns : ∀ n ∈ ns, n.Spelled g)
    {first : Line} {rest : List Line} (hended : ∀ line ∈ first :: rest, line.unending = false)
    (hfirst : Ordered (first :: rest)) (hrest : Ordered rest) :
    (∀ last, InOrder last (marks (joined (ns.flatMap (Entrance.lines g p) ++ first :: rest))) ↔
      (∀ n ∈ ns, Waits p n) ∧ NamesFollow ns) ∧
    ∃ line tail, line.unending = false ∧
      ns.flatMap (Entrance.lines g p) ++ first :: rest = line :: tail ∧
      ∀ name k, InOrder (some (name, some k)) (marks (joined tail)) ↔
        (∀ n ∈ ns.head?, name = n.exten) ∧ (∀ n ∈ ns, Waits p n) ∧ NamesFollow ns := by
  induction ns with
  | nil =>
    have hnone : (∀ n ∈ ([] : List Entrance), Waits p n) ∧ NamesFollow [] :=
      ⟨fun n hn => absurd hn List.not_mem_nil, List.isChain_nil⟩
    have htail : ∀ line ∈ rest, line.unending = false := fun l hl => hended l (List.mem_cons_of_mem _ hl)
    refine ⟨fun last => iff_of_true ?_ hnone, first, rest, hended first List.mem_cons_self, rfl, ?_⟩
    · rw [List.flatMap_nil, List.nil_append, joined_of_ended hended]
      exact hfirst last
    · intro name k
      rw [joined_of_ended htail]
      exact iff_of_true (hrest _) ⟨(fun n hn => by cases hn), hnone⟩
  | cons n r ih =>
    have hn := hns n List.mem_cons_self
    obtain ⟨ihall, line, tail, hline, heq, ihtail⟩ := ih fun n' hn' => hns n' (List.mem_cons_of_mem _ hn')
    -- what comes after the steps of this name: the message and the first line of the next one, or that line
    obtain ⟨after, hafter⟩ : ∃ after, after = (if destKind n.destination = none then
        [Line.unended unmatchedText] else []) ++ line :: tail := ⟨_, rfl⟩
    have hlines : (n :: r).flatMap (Entrance.lines g p) ++ first :: rest =
        n.noop p :: (n.body g p ++ after) := by
      rw [List.flatMap_cons, entrance_lines_eq, List.append_assoc, heq, hafter, List.cons_append, List.append_assoc]
    have hjoined : joined (n.body g p ++ after) = n.body g p ++ joined after :=
      joined_append (ended_body hg hn)
    have hmarks : ∀ k, InOrder (some (n.exten, some k)) (marks (joined after)) ↔
        (destKind n.destination = none → ∀ next ∈ r.head?, n.exten = next.exten) ∧
          (∀ n' ∈ r, Waits p n') ∧ NamesFollow r := by
      intro k
      by_cases hnone : destKind n.destination = none
      · have hmessage : marks (joined after) = .neither :: marks (joined tail) := by
          rw [hafter, if_pos hnone, List.cons_append, List.nil_append, joined_unended hline]
          exact congrArg (· :: marks (joined tail)) (mark_unmatched _)
        rw [hmessage, forall_prop_of_true hnone, ← ihtail]
        exact and_iff_right trivial
      · rw [hafter, if_neg hnone, List.nil_append, ← heq, ihall]
        exact (and_iff_right fun h => absurd h hnone).symm
    have hbody := inOrder_body (p := p) hg hn hmarks
    have htail : ∀ name k, InOrder (some (name, some k)) (marks (joined (n.body g p ++ after))) ↔
        name = n.exten ∧ (∀ n' ∈ n :: r, Waits p n') ∧ NamesFollow (n :: r) := by
      intro name k
      rw [hjoined, marks_append, hbody, List.forall_mem_cons, namesFollow_cons]
      exact and_congr_right fun _ => ⟨fun h => ⟨⟨h.1, h.2.2.1⟩, h.2.1, h.2.2.2⟩,
        fun h => ⟨h.1.1, h.2.1, h.1.2, h.2.2⟩⟩
    refine ⟨fun last => ?_, n.noop p, n.body g p ++ after, rfl, hlines, fun name k => ?_⟩
    · have hnoop : Begins (.number 1) ("1,NoOp(incoming call from provider: " ++ (p.get "name").toStr ++
          " to " ++ var "EXTEN" ++ ")") :=
        Begins.append (Begins.append (Begins.append (Begins.append (begins_fixed _ rfl rfl))))
      rw [hlines, joined_cons rfl, Entrance.noop, marks_exten hn.exten hnoop, inOrder_first, htail]
      exact and_iff_right rfl
    · rw [htail]
      exact and_congr_left fun _ => ⟨fun h n' hn' => h.trans (congrArg _ (Option.some.inj hn')),
        fun h => h n rfl⟩

/-- A number, or no pattern at all. -/
def NumberOrAll (k : Key) : Prop := is k.val "all" = true ∨ verifyIsNumericint k.toStr = true

/-- The lines that wait for a fax tone have the name of the others just if the pattern is a number or there is
none. -/
theorem waits_entrancesOf (e : Key × Val) : (∀ n ∈ entrancesOf p e, Waits p n) ↔
    ((p.get "defaultfax").truthy = true → NumberOrAll e.1) := by
  unfold entrancesOf Waits
  split_ifs with hall hnumeric
  · refine iff_of_true ?_ fun _ => .inl hall
    intro n hn _
    obtain ⟨c, -, rfl⟩ := List.mem_map.1 hn
    rfl
  · exact iff_of_true (List.forall_mem_singleton.2 fun _ => rfl) fun _ => .inr hnumeric
  · -- a name is never itself after an underscore
    have hne : e.1.toStr ≠ "_" ++ e.1.toStr := by
      intro heq
      have hlength := congrArg (fun s : String => s.toList.length) heq
      simp only [String.toList_append, List.length_append] at hlength
      have hone : "_".toList.length = 1 := rfl
      omega
    have hnot : ¬ NumberOrAll e.1 := by
      rintro (h | h)
      · exact hall h
      · exact hnumeric h
    rw [List.forall_mem_singleton]
    constructor
    · exact fun h hfax => absurd (h hfax) hne
    · exact fun h hfax => absurd (h hfax) hnot

/-- The fax lines have the names of the others just if every pattern is a number, or there is none. -/
theorem waits_entrances : (∀ n ∈ entrances p, Waits p n) ↔
    ((p.get "defaultfax").truthy = true → ∀ e ∈ (grouppedMapping p).entries, NumberOrAll e.1) := by
  unfold entrances
  rw [List.forall_mem_flatMap]
  constructor
  · exact fun h hfax e he => (waits_entrancesOf e).1 (h e he) hfax
  · exact fun h e he => (waits_entrancesOf e).2 fun hfax => h hfax e he

/-- The context of a provider for incoming calls. -/
theorem decides_incomingContext (hg : Unbroken g.config) (hp : ProviderSpelled g p) :
    Decides (marks (joined (generateProviderIncomingContext g p)))
      (((p.get "defaultfax").truthy = true → ∀ e ∈ (grouppedMapping p).entries, NumberOrAll e.1) ∧
        NamesFollow (entrances p)) := by
  have hheader : headerName ((p.get "uniqid").toStr ++ "-incoming") = true := headerName_append hp.uniqid _ rfl
  have hstart : Ordered [Line.context ((p.get "uniqid").toStr ++ "-incoming"),
      .other "include => public-direct-dial"] := (ordered_nil.other _ rfl).context hheader
  have hstartEnded : ∀ line ∈ [Line.context ((p.get "uniqid").toStr ++ "-incoming"),
      .other "include => public-direct-dial"], line.unending = false :=
    List.forall_mem_cons.2 ⟨rfl, List.forall_mem_singleton.2 rfl⟩
  have hfax : Ordered (faxLines g p) := by
    unfold faxLines
    split_ifs with htruthy
    · have hname : named "fax" = true := named_ofList _ rfl
      apply ordered_whole hname
      · exact Begins.append (Begins.append (Begins.append (Begins.append (begins_fixed _ rfl rfl))))
      · exact continues_of_steps hname (steps_defaultfax hg hp htruthy)
    · exact ordered_nil
  have hname : named "h" = true := named_ofList _ rfl
  have hhangup : Ordered [.exten "h" ("1,NoOp(Hanging up incoming call from provider: " ++
      (p.get "name").toStr ++ " to " ++ var "EXTEN" ++ ")"), .exten "h" "n,Macro(missedcallmail)",
      .other ""] := by
    intro last
    refine inOrder_one hname ?_ (inOrder_n hname (begins_fixed _ rfl rfl) (inOrder_other rfl trivial))
    exact Begins.append (Begins.append (Begins.append (Begins.append (begins_fixed _ rfl rfl))))
  have hend : Ordered [.other "; hangup logic",
      .exten "h" ("1,NoOp(Hanging up incoming call from provider: " ++ (p.get "name").toStr ++
        " to " ++ var "EXTEN" ++ ")"), .exten "h" "n,Macro(missedcallmail)", .other ""] :=
    hhangup.other _ rfl
  have hendEnded : ∀ line ∈ [Line.other "; hangup logic",
      .exten "h" ("1,NoOp(Hanging up incoming call from provider: " ++ (p.get "name").toStr ++
        " to " ++ var "EXTEN" ++ ")"), .exten "h" "n,Macro(missedcallmail)", .other ""],
      line.unending = false :=
    List.forall_mem_cons.2 ⟨rfl, List.forall_mem_cons.2 ⟨rfl, List.forall_mem_cons.2 ⟨rfl,
      List.forall_mem_singleton.2 rfl⟩⟩⟩
  have hns : ∀ n ∈ entrances p, n.Spelled g := by
    intro n hn
    obtain ⟨e, he, hn⟩ := List.mem_flatMap.1 hn
    exact spelled_entrances hp he n hn
  -- the entrances are in order exactly when no unended line takes the first step of the next
  have hnames := (inOrder_entrances (p := p) hg hns hendEnded hend hhangup).1
  rw [waits_entrances] at hnames
  rw [generateProviderIncomingContext_eq, joined_append (List.forall_mem_append.2 ⟨hstartEnded, ended_faxLines hg hp⟩),
    marks_append]
  apply ((hstart.append hfax).decides.append hnames).congr
  rw [true_and]

/-- An outgoing pattern is a name. -/
theorem named_dialpattern (hp : OutgoingSpelled g p) {pattern : Val}
    (hmem : pattern ∈ (p.get "dialpattern").vals) :
    named ("_" ++ (parsePattern pattern.toStr).pattern) = true := by
  have hpattern := oneLine_toStr ((hp.unbroken.get "dialpattern").mem_vals hmem)
  have hcomma : ',' ∉ (parsePattern pattern.toStr).pattern.toList := fun h =>
    hp.dialpattern pattern hmem (mem_of_mem_parsePattern h)
  exact named_underscore hcomma (oneLine_parsePattern hpattern)

/-- A step that is fixed up to its application. -/
theorem begins_two (cs : List Char) {s t : String} {q : Priority} (h : readPriority cs = q)
    (hends : cs.any (fun c => c == ',' || c == '(')) : Begins q (String.ofList cs ++ s ++ t) :=
  Begins.append (Begins.append (begins_fixed cs h hends))

/-- A line that is put together from a fixed text and four others begins with the priority of the first.
-/
theorem begins_four (cs : List Char) {s t u v : String} {q : Priority} (h : readPriority cs = q)
    (hends : cs.any (fun c => c == ',' || c == '(')) : Begins q (String.ofList cs ++ s ++ t ++ u ++ v) :=
  Begins.append (Begins.append (begins_two cs h hends))

/-- An outgoing pattern counts from one. -/
theorem ordered_outgoingPattern (hp : OutgoingSpelled g p) {pattern : Val}
    (hmem : pattern ∈ (p.get "dialpattern").vals) : Ordered (outgoingPattern g p pattern) := by
  have hexten := named_dialpattern hp hmem
  have hstatus : ∀ cs : List Char, (!cs.contains ',' && !cs.contains '\n') = true →
      named ((p.get "uniqid").toStr ++ String.ofList cs) = true := fun cs hcs =>
    named_append_fixed hp.uniqid cs hcs
  have hvia : ∀ s t : String, Begins (.number 1) ("1" ++ (",NoOp(Failover needed, now using : " ++ s ++ t)) := by
    intro s t
    have hjoined : "1" ++ ",NoOp(Failover needed, now using : " = "1,NoOp(Failover needed, now using : " := rfl
    rw [← String.append_assoc, ← String.append_assoc, hjoined]
    exact begins_two _ rfl rfl
  unfold outgoingPattern
  intro last
  rcases hp.technology with htech | htech | htech
  all_goals
    simp only [htech]
    refine inOrder_one hexten (begins_two _ rfl rfl) (inOrder_n hexten (begins_fixed _ rfl rfl)
      (inOrder_n hexten (begins_four _ rfl rfl) ?_))
    split_ifs
    · -- one extension for each status
      refine inOrder_n hexten (begins_two _ rfl rfl) (inOrder_n hexten (begins_four _ rfl rfl) ?_)
      refine inOrder_one (hstatus _ rfl) (begins_fixed _ rfl rfl) (inOrder_one (hstatus _ rfl)
        (begins_fixed _ rfl rfl) (inOrder_one (hstatus _ rfl) (begins_fixed _ rfl rfl) ?_))
      exact inOrder_one (hstatus _ rfl) (hvia _ _) (inOrder_n (hstatus _ rfl) (begins_four _ rfl rfl)
        (inOrder_one (hstatus _ rfl) (hvia _ _) (inOrder_n (hstatus _ rfl) (begins_four _ rfl rfl) trivial)))
    · exact inOrder_n hexten (begins_fixed _ rfl rfl) trivial

/-- So the context for a provider's outgoing calls is in order. -/
theorem ordered_outgoingContext (hp : OutgoingSpelled g p) :
    Ordered (generateProviderOutgoingContext g p) :=
  (ordered_flatMap fun _ hmem => ordered_outgoingPattern hp hmem).context (headerName_of_plainId hp.uniqid)

/-- A phone's pattern counts from one. -/
theorem ordered_phonePattern (hp : OutgoingSpelled g p) {cidoverride pattern : Val}
    (hmem : pattern ∈ (p.get "dialpattern").vals) : Ordered (phonePattern p cidoverride pattern) := by
  have hexten := named_dialpattern hp hmem
  unfold phonePattern
  intro last
  refine inOrder_one hexten (begins_two _ rfl rfl) (inOrder_n hexten (begins_two _ rfl rfl)
    (inOrder_n hexten (begins_two _ rfl rfl) ?_))
  split_ifs
  · exact inOrder_n hexten (begins_two _ rfl rfl) (inOrder_n hexten (begins_two _ rfl rfl)
      (inOrder_n hexten (begins_four _ rfl rfl) trivial))
  · exact inOrder_n hexten (begins_fixed _ rfl rfl) (inOrder_n hexten (begins_four _ rfl rfl) trivial)

/-- So what a phone may dial is in order, provider by provider. -/
theorem ordered_phoneProviders (phone : Val) {providers : List Val}
    (hp : ∀ provider ∈ enabled providers, OutgoingSpelled g provider) (cidoverride : Val) :
    Ordered (phoneProviders phone providers cidoverride) := by
  induction providers generalizing cidoverride with
  | nil => exact ordered_nil
  | cons provider r ih =>
    have hr : ∀ x ∈ enabled r, OutgoingSpelled g x := by
      intro x hx
      apply hp
      unfold enabled at hx ⊢
      rw [List.mem_filter] at hx ⊢
      exact ⟨List.mem_cons_of_mem _ hx.1, hx.2⟩
    rw [phoneProviders]
    split_ifs with huse
    · have hmem : provider ∈ enabled (provider :: r) := by
        unfold enabled
        rw [List.mem_filter]
        rw [Bool.and_eq_true] at huse
        exact ⟨List.mem_cons_self, huse.1⟩
      exact (ordered_flatMap fun _ hpattern => ordered_phonePattern (hp provider hmem) hpattern).append
        (ih hr _)
    · exact ih hr _

/-- An include is for no extension. -/
theorem ordered_include {context : String} {a : List Line} (h : Ordered a) :
    Ordered (.other ("include => " ++ context) :: a) := by
  intro last
  apply inOrder_other _ (h last)
  have htext : ("include => " ++ context).toList = "include => ".toList ++ context.toList :=
    String.toList_append
  rw [htext]
  have hopened : (readLine ("include => ".toList ++ context.toList)).opened = none := by
    have hstart : "include => ".toList.isPrefixOf ("include => ".toList ++ context.toList) = true :=
      List.isPrefixOf_iff_prefix.2 ⟨_, rfl⟩
    rw [readLine, if_neg (by simp), if_neg (by simp), if_neg (by simp), if_pos hstart]
    split_ifs <;> rfl
  unfold markOf
  rw [hopened]
  rfl

/-- The two contexts of a phone are in order. -/
theorem ordered_phoneContexts {phone : Val} (hid : plainId (phone.get "uniqid").toStr = true)
    {providers : List Val} (hp : ∀ provider ∈ enabled providers, OutgoingSpelled g provider)
    (includeUri : Bool) : Ordered (phoneContexts providers includeUri phone) := by
  have houtgoing : Ordered (generatePhoneOutgoingContext providers phone) :=
    (ordered_phoneProviders phone hp _).context (headerName_append hid _ rfl)
  have huri : Ordered (linesIf includeUri [.other "include => outgoing-uri"]) := by
    unfold linesIf
    split_ifs
    · exact ordered_nil.other _ rfl
    · exact ordered_nil
  have hstart : Ordered [Line.other ("; " ++ phoneLabel phone), .context (phone.get "uniqid").toStr,
      .other "include => internal",
      .other ("include => " ++ (phone.get "uniqid").toStr ++ "-outgoing")] := by
    have htext : "include => " ++ (phone.get "uniqid").toStr ++ "-outgoing" =
        "include => " ++ ((phone.get "uniqid").toStr ++ "-outgoing") := String.append_assoc
    rw [htext]
    apply Ordered.comment
    apply Ordered.context (headerName_of_plainId hid)
    apply Ordered.other _ rfl
    exact ordered_include ordered_nil
  exact ((((hstart.append huri).append ordered_blank).append houtgoing).append ordered_blank)

/-- The patterns of a provider's maps are the keys they are grouped under. -/
theorem mem_keys_grouppedMapping {k : Key} :
    (∃ e ∈ (grouppedMapping p).entries, e.1 = k) ↔
      ∃ m ∈ (p.get "incomingextensionmap").vals, mapKey m = k := by
  have hset : ∀ (v x : Val) (k' : Key),
      k ∈ (v.set k' x).entries.map Prod.fst ↔ k ∈ v.entries.map Prod.fst ∨ k' = k := by
    intro v x k'
    have hentries : (v.set k' x).entries = Val.setEntry k' x v.entries := rfl
    rw [hentries]
    by_cases hmem : k' ∈ v.entries.map Prod.fst
    · rw [Val.setEntry_keys_of_mem hmem]
      exact ⟨.inl, fun h => h.elim id fun heq => heq ▸ hmem⟩
    · rw [Val.setEntry_of_not_mem hmem, List.map_append, List.mem_append, List.map_singleton,
        List.mem_singleton, eq_comm (a := k)]
  have hfold : ∀ (maps : List Val) (v : Val), k ∈ (maps.foldl groupMap v).entries.map Prod.fst ↔
      k ∈ v.entries.map Prod.fst ∨ ∃ m ∈ maps, mapKey m = k := by
    intro maps
    induction maps with
    | nil => simp
    | cons m r ih =>
      intro v
      rw [List.foldl_cons, ih, groupMap, hset, or_assoc]
      simp
  have hkeys := hfold (p.get "incomingextensionmap").vals (.arr [])
  rw [List.mem_map] at hkeys
  rw [grouppedMapping, hkeys]
  simp [Val.entries]

/-- The patterns of the grouped maps are those of the maps. -/
theorem numberOrAll_grouppedMapping : (∀ e ∈ (grouppedMapping p).entries, NumberOrAll e.1) ↔
    ∀ m ∈ (p.get "incomingextensionmap").vals, NumberOrAll (mapKey m) := by
  constructor
  · intro h m hm
    obtain ⟨e, he, hkey⟩ := mem_keys_grouppedMapping.2 ⟨m, hm, rfl⟩
    rw [← hkey]
    exact h e he
  · intro h e he
    obtain ⟨m, hm, hkey⟩ := mem_keys_grouppedMapping.1 ⟨e, he, rfl⟩
    rw [← hkey]
    exact h m hm

/-- Without maps there are no names for incoming calls. -/
theorem entrances_of_not_isSome (h : ((p.get "incomingextensionmap").count != 0) = false) : entrances p = [] := by
  have hvals : (p.get "incomingextensionmap").vals = [] := by
    by_contra hne
    exact count_ne_zero hne (by simpa using h)
  unfold entrances grouppedMapping
  rw [hvals]
  rfl

/-- The contexts of a provider are in order just if its fax lines and its unmatched destinations do no
harm. -/
theorem decides_providerContexts (hg : Unbroken g.config) (hp : ProviderSpelled g p) :
    Decides (marks (joined (providerContexts g p))) (((p.get "defaultfax").truthy = true →
      ∀ m ∈ (p.get "incomingextensionmap").vals, NumberOrAll (mapKey m)) ∧ NamesFollow (entrances p)) := by
  -- the outgoing part is always in order, so the incoming one decides
  have hincoming : Decides (marks (joined (incomingPart g p))) (((p.get "defaultfax").truthy = true →
      ∀ m ∈ (p.get "incomingextensionmap").vals, NumberOrAll (mapKey m)) ∧ NamesFollow (entrances p)) := by
    unfold incomingPart
    split_ifs with hsome
    · have hmarks : marks (joined (.other ("; incoming provider : " ++ (p.get "name").toStr) ::
          generateProviderIncomingContext g p)) =
          .neither :: marks (joined (generateProviderIncomingContext g p)) := by
        have htext : "; incoming provider : " ++ (p.get "name").toStr =
            "; " ++ ("incoming provider : " ++ (p.get "name").toStr) := by
          rw [← String.append_assoc]
          rfl
        rw [joined_cons rfl, htext]
        exact congrArg (· :: marks (joined (generateProviderIncomingContext g p))) mark_comment
      rw [hmarks, ← numberOrAll_grouppedMapping]
      exact (decides_incomingContext hg hp).neither
    · rw [Bool.or_eq_true, not_or, Bool.not_eq_true, Bool.not_eq_true] at hsome
      apply decides_nil.congr
      rw [entrances_of_not_isSome hsome.2, hsome.1]
      exact iff_of_true trivial ⟨fun h => Bool.noConfusion h, List.isChain_nil⟩
  have houtgoing : Ordered (outgoingPart g p) := by
    unfold outgoingPart
    split_ifs
    · exact (ordered_outgoingContext hp.toOutgoingSpelled).comment _
    · exact ordered_nil
  rw [providerContexts_eq, (settled_incomingPart hg hp).joined_append,
    joined_append (ended_outgoingPart hg hp), marks_append, marks_append]
  apply (hincoming.append (houtgoing.decides.append ordered_blank.decides)).congr
  rw [and_true, and_true]

/-- The context for a host with several SIP accounts. -/
theorem ordered_multiContext {e : Key × Val}
    (hheader : headerName ("SIP-PROVIDER-" ++ e.1.toStr ++ "-incoming") = true)
    (haccounts : ∀ id ∈ e.2.vals,
      named ((getElement g (.provider .sip) id.toStr).get "username").toStr = true) :
    Ordered (multiContext g e) := by
  have hrest : Ordered (e.2.vals.map fun id =>
      Line.exten ((getElement g (.provider .sip) id.toStr).get "username").toStr
        ("1,Goto(" ++ ((getElement g (.provider .sip) id.toStr).get "uniqid").toStr ++
          "-incoming,s,1)")) := by
    rw [List.map_eq_flatMap]
    apply ordered_flatMap
    intro id hid
    exact ordered_whole (haccounts id hid) (begins_two _ rfl rfl) continues_nil
  unfold multiContext
  exact (hrest.context hheader).comment _

end Providers

/-! ## Applications and faxes -/

section Contexts

variable {env : Env} {g : Globals} {a f : Val}

/-- The pattern that any extension matches is a name. -/
theorem named_any : named anyExten = true := named_ofList _ rfl

/-- The context of an application in PHP counts from one. -/
theorem ordered_phpApplication (hid : plainId (a.get "uniqid").toStr = true)
    (hphp : is (a.get "type") "php" = true) : Ordered (generateApplicationContext2 a) := by
  have hs : named "s" = true := named_ofList _ rfl
  have hh : named "h" = true := named_ofList _ rfl
  intro last
  unfold generateApplicationContext2
  rw [if_pos hphp]
  apply (Ordered.comment _ _) last
  apply Ordered.context (headerName_of_plainId hid)
  intro last
  exact inOrder_one named_any (begins_two _ rfl rfl) (inOrder_counted named_any (begins_fixed _ rfl rfl)
    (inOrder_one hs (begins_two _ rfl rfl) (inOrder_counted hs (begins_fixed _ rfl rfl)
      (inOrder_one hh (begins_fixed _ rfl rfl) trivial))))

/-- So does that of a virtual fax. -/
theorem ordered_virtualFaxContext (hid : plainId (f.get "uniqid").toStr = true) :
    Ordered (generateVirtualFaxContext env g f) := by
  have hs : named "s" = true := named_ofList _ rfl
  have hh : named "h" = true := named_ofList _ rfl
  have hmail : ∀ (text : String) {lines : List Line}, Continues "h" lines →
      Continues "h" (echoMail text :: lines) := fun text lines hlines =>
    continues_cons hh (begins_four _ rfl rfl) hlines
  have hblank : ∀ {lines : List Line}, Continues "h" lines → Continues "h" (.other "" :: lines) :=
    fun hlines => List.forall_mem_cons.2 ⟨.inr rfl, hlines⟩
  unfold generateVirtualFaxContext
  apply Ordered.comment
  apply Ordered.context (headerName_of_plainId hid)
  intro last
  refine inOrder_one named_any ?_ (inOrder_n named_any ?_ (inOrder_n named_any ?_ (inOrder_n named_any ?_
    (inOrder_one hs ?_ (inOrder_n hs ?_ (inOrder_n hs ?_ (inOrder_n hs ?_
    (inOrder_one hh ?_ (inOrder_next (Continues.marks (show Continues "h" _ from ?_)))))))))))
  -- the mail is written line by line
  rotate_left 9
  · refine Continues.append (Continues.append ?_ (continues_linesIf
      (continues_cons hh (begins_four _ rfl rfl) continues_nil))) ?_
    · refine continues_cons hh ?_ (continues_cons hh ?_ (continues_cons hh ?_ (continues_cons hh ?_ ?_)))
      rotate_left 4
      · iterate 14 apply hmail
        apply hblank
        exact continues_cons hh (Begins.append (Begins.append (begins_four _ rfl rfl))) (hmail _ (continues_cons hh (begins_two _ rfl rfl) continues_nil))
      all_goals repeat' apply Begins.append
      all_goals exact begins_fixed _ rfl rfl
    · refine continues_cons hh (begins_two _ rfl rfl) (continues_cons hh (begins_two _ rfl rfl)
        (continues_cons hh (begins_two _ rfl rfl) (continues_cons hh (begins_two _ rfl rfl) (hblank continues_nil))))
  all_goals repeat' apply Begins.append
  all_goals exact begins_fixed _ rfl rfl

/-- The macros are in order. -/
theorem ordered_macros : Ordered (macros env g) := by
  have hs : named "s" = true := named_ofList _ rfl
  have hh : named "h" = true := named_ofList _ rfl
  have hvm : named "vm-noanswer" = true := named_ofList _ rfl
  have hbusy : named "busy" = true := named_ofList _ rfl
  have hnoanswer : named "noanswer" = true := named_ofList _ rfl
  have hforward : named "has-cf" = true := named_ofList _ rfl
  have hreturn : named "return" = true := named_ofList _ rfl
  have hgreeting : ∀ (c : Bool) (s : String), Continues "vm-noanswer" (if c then
      [.exten "vm-noanswer" ("n,Playback(" ++ s ++ ")"),
        .exten "vm-noanswer" ("n,VoiceMail(" ++ var "ARG2" ++ ",s," ++ var "ARG3" ++ ")")]
      else [.exten "vm-noanswer" ("n,VoiceMail(" ++ var "ARG2" ++ ",u," ++ var "ARG3" ++ ")")]) := by
    intro c s
    split_ifs
    · exact continues_cons hvm (begins_two _ rfl rfl) (continues_cons hvm (begins_four _ rfl rfl) continues_nil)
    · exact continues_cons hvm (begins_four _ rfl rfl) continues_nil
  unfold macros
  intro last
  rw [List.append_assoc]
  refine inOrder_other rfl (inOrder_header rfl (inOrder_other rfl (inOrder_other rfl (inOrder_header rfl ?_))))
  refine inOrder_one hs ?_ (inOrder_counted hs ?_ (inOrder_counted hs ?_ ?_))
  rotate_left 3
  · iterate 8 apply inOrder_other rfl
    refine inOrder_one (named_ofList _ rfl) (begins_fixed _ rfl rfl) (inOrder_counted (named_ofList _ rfl)
      (begins_fixed _ rfl rfl) (inOrder_one (named_ofList _ rfl) (begins_fixed _ rfl rfl)
      (inOrder_counted (named_ofList _ rfl) (begins_fixed _ rfl rfl) (inOrder_one (named_ofList _ rfl)
      (begins_fixed _ rfl rfl) (inOrder_other rfl (inOrder_other rfl ?_))))))
    refine inOrder_one hbusy (begins_fixed _ rfl rfl) (inOrder_counted hbusy (begins_fixed _ rfl rfl)
      (inOrder_other rfl (inOrder_other rfl ?_)))
    refine inOrder_one hnoanswer (begins_fixed _ rfl rfl) (inOrder_counted hnoanswer (begins_two _ rfl rfl)
      (inOrder_counted hnoanswer (begins_fixed _ rfl rfl) ?_))
    refine inOrder_one hvm (begins_fixed _ rfl rfl) (inOrder_counted hvm (begins_fixed _ rfl rfl) ?_)
    refine inOrder_of_continues (hgreeting _ _) (fun k => ?_) _
    refine inOrder_n hvm (begins_fixed _ rfl rfl) (inOrder_n hvm (begins_fixed _ rfl rfl)
      (inOrder_other rfl (inOrder_other rfl (inOrder_one hh (begins_fixed _ rfl rfl) ?_))))
    iterate 11 apply inOrder_other rfl
    -- missed calls
    refine inOrder_header rfl (inOrder_one hs (begins_fixed _ rfl rfl) ?_)
    iterate 18
      refine inOrder_n hs ?_ ?_
      rotate_left 1
    -- calls that are forwarded
    refine inOrder_other rfl (inOrder_header rfl (inOrder_one hs ?_ (inOrder_n hs ?_ (inOrder_n hs ?_
      (inOrder_n hs ?_ (inOrder_other rfl (inOrder_one hforward ?_ (inOrder_n hforward ?_
      (inOrder_n hforward ?_ (inOrder_n hforward ?_ (inOrder_other rfl (inOrder_one hreturn ?_
      (inOrder_n hreturn ?_ (inOrder_other rfl trivial))))))))))))))
    all_goals repeat' apply Begins.append
    all_goals exact begins_fixed _ rfl rfl
  all_goals repeat' apply Begins.append
  all_goals exact begins_fixed _ rfl rfl

/-- A position of the parking lot has one step, and a hint. -/
theorem ordered_generateParkinglot (hstart : named (parkStart g) = true) : Ordered (generateParkinglot g) := by
  unfold generateParkinglot
  refine Ordered.other _ rfl (ordered_flatMap ?_)
  intro i hi last
  have hname : named i = true := named_positions hstart i hi
  apply inOrder_one hname (begins_two _ rfl rfl)
  rw [marks_exten hname (begins_two _ (q := .none) rfl rfl)]
  exact (decides_none _).2 trivial

/-- Hints are no steps. -/
theorem ordered_generateHints {phones : List Val}
    (h : ∀ p ∈ enabled phones, named (p.get "extension").toStr = true) : Ordered (generateHints phones) := by
  unfold generateHints
  refine Ordered.append ?_ ordered_blank
  rw [List.map_eq_flatMap]
  apply ordered_flatMap
  intro p hp last
  rw [marks_exten (h p hp) (Begins.append (begins_fixed _ (p := .none) rfl rfl))]
  exact (decides_none _).2 trivial

/-- The context for calls to an address counts from one. -/
theorem ordered_outgoingUri : Ordered outgoingUri := by
  have hname : named "_[0-9a-zA-Z*#]." = true := named_ofList _ rfl
  have hheader : headerName "outgoing-uri" = true := by decide
  unfold outgoingUri
  apply Ordered.context hheader
  intro last
  exact inOrder_one hname (begins_two _ rfl rfl) (inOrder_n hname (begins_two _ rfl rfl)
    (inOrder_other rfl trivial))

end Contexts

/-! ## Logic that is typed in -/

/-- What the form of an application checked: nothing was typed in, or lines without errors. -/
structure TypedChecked (a : Val) : Prop where
  lines : typedLines a = [""] ∨ checkLines (typedLines a) = []
  short : (typedLines a).length ≤ 2 ^ 31

section Typed

variable {name : String} {a : Val} {last : Last}

/-- An application that the form accepted, once it is read back. -/
theorem typedChecked_of_accepted (phpparsecheck : String → Option String) {f : Form} {code : Bytes}
    {stored : String} (htype : f.post.get "type" = .str "plaintext")
    (hcode : f.post.get "code" = .str code.text) (hends : CrBeforeLf code.text.toList)
    (haccepted : (vApplicationlogic phpparsecheck f).errors = f.errors)
    (hstored : (vApplicationlogic phpparsecheck f).element.get "applicationlogic" = .str stored)
    (hlogic : a.get "applicationlogic" = .str (XmlParse.normText stored)) : TypedChecked a := by
  obtain ⟨hnone, hshort⟩ := checkLines_of_accepted phpparsecheck htype hcode hends haccepted
  have hsplit := explode_stored phpparsecheck htype hcode hends hstored
  have hlines : typedLines a = if cleanLines code.text = [] then [""] else cleanLines code.text := by
    rw [typedLines, hlogic]
    exact hsplit
  by_cases hempty : cleanLines code.text = []
  · rw [if_pos hempty] at hlines
    refine ⟨.inl hlines, ?_⟩
    rw [hlines]
    decide
  · rw [if_neg hempty] at hlines
    refine ⟨.inr ?_, ?_⟩
    · rw [hlines]
      exact hnone
    · rw [hlines]
      exact hshort

/-- The step before a line that is checked. -/
def lastChecked (name : String) (index : ℕ) : Last := if index = 0 then none else some (name, some index)

/-- The form numbers the steps as they are in order. -/
theorem inOrder_of_foldl {lines : List String} {index k : ℕ} {errors : List String}
    (hshort : index + lines.length ≤ 2 ^ 31)
    (h : ((lines.zipIdx k).foldl checkLine (errors, index)).1 = []) :
    InOrder (lastChecked name index) ((lines.filter (!isInclude ·)).map fun l =>
      .step name (readPriority l.toList)) := by
  -- the check carries the number of the last step, which is what a reader has before it
  induction lines generalizing index k errors with
  | nil => trivial
  | cons line r ih =>
    rw [List.zipIdx_cons, List.foldl_cons] at h
    rw [List.length_cons] at hshort
    unfold checkLine at h
    dsimp only at h
    by_cases hinclude : isInclude line = true
    · rw [if_pos hinclude] at h
      rw [List.filter_cons_of_neg (by simp [hinclude])]
      exact ih (by omega) h
    · rw [List.filter_cons_of_pos (by simpa using hinclude), List.map_cons]
      rw [if_neg hinclude] at h
      cases hrule : ruleOf line.toList with
      | none =>
        rw [hrule] at h
        exact absurd (priorities_of_foldl (by omega) h).1 (by simp)
      | some rule =>
        obtain ⟨priority, command⟩ := rule
        rw [hrule] at h
        have herrors := (priorities_of_foldl (by omega) h).1
        simp only [List.append_eq_nil_iff] at herrors
        obtain ⟨-, hnumbering⟩ := herrors
        have hrest := ih (by omega) h
        have hafter : lastChecked name (index + 1) = some (name, some (index + 1)) := if_neg (by omega)
        have htake := (takeWhile_of_ruleOf hrule).1
        rw [hafter] at hrest
        split_ifs at hnumbering with hn hfirst hequal
        · -- `n` is not the first step
          have hread : readPriority line.toList = .next := by
            unfold readPriority
            rw [htake, if_pos hn]
          have hlast : lastChecked name index = some (name, some index) := if_neg (by omega)
          rw [hread, hlast, inOrder_cons_next]
          exact ⟨rfl, hrest⟩
        · -- a number that is accepted is the next one
          have hnext := priorityAfter_of_accepted (by omega) hrule (.inr hequal)
          unfold priorityAfter at hnext
          have hread : readPriority line.toList = .number (index + 1) := by
            unfold readPriority
            rw [htake] at hnext ⊢
            dsimp only at hnext ⊢
            rw [if_neg hn] at hnext ⊢
            split_ifs at hnext ⊢
            rw [Option.some.inj hnext]
          rw [hread]
          by_cases hzero : index = 0
          · subst hzero
            exact inOrder_first.2 hrest
          · rw [lastChecked, if_neg hzero, inOrder_number]
            exact hrest

/-- The steps of an application, under any name. -/
theorem inOrder_typed {lines : List String} (hlines : lines = [""] ∨ checkLines lines = [])
    (hshort : lines.length ≤ 2 ^ 31) (hlast : ∀ k, last ≠ some (name, k)) :
    InOrder last ((lines.filter (!isInclude ·)).map fun l => .step name (readPriority l.toList)) := by
  rcases hlines with hempty | hchecked
  · have hinclude : isInclude "" = false := by decide
    have hread : readPriority "".toList = .none := rfl
    rw [hempty, List.filter_cons_of_pos (by rw [hinclude]; rfl), List.filter_nil, List.map_singleton, hread]
    exact (decides_none last).2 trivial
  · rw [← Nat.zero_add lines.length] at hshort
    have hsteps : InOrder (lastChecked name 0) _ := inOrder_of_foldl hshort hchecked
    have hmap : ∀ ls : List String, (ls.map fun l => Mark.step name (readPriority l.toList)) =
        (ls.map fun l => readPriority l.toList).map (.step name) := by
      intro ls
      rw [List.map_map]
      rfl
    rw [hmap] at hsteps ⊢
    exact (inOrder_of_ne hlast).2 hsteps

/-- No line of another extension is the last one of this. -/
theorem last_ne {name name' : String} (hne : name' ≠ name) {ps : List Priority}
    (hlast : ∀ k, last ≠ some (name, k)) :
    ∀ k, (ps.map (Mark.step name')).foldl Mark.after last ≠ some (name, k) := by
  induction ps generalizing last with
  | nil => exact hlast
  | cons p r ih =>
    apply ih
    intro k heq
    exact hne (congrArg Prod.fst (Option.some.inj heq))

/-- The includes that were typed are for no extension. -/
theorem marks_includes {lines : List String} : ∀ m ∈ marks ((lines.filter isInclude).map .other),
    m = .neither := by
  intro m hm
  obtain ⟨line, hline, rfl⟩ := List.mem_map.1 hm
  obtain ⟨s, hs, rfl⟩ := List.mem_map.1 hline
  have hinclude := (List.mem_filter.1 hs).2
  have hopened := (readLine_of_isInclude hinclude).1
  have hexten := exten_of_isInclude hinclude
  have hbody : (Line.other s).body = s := rfl
  unfold markOf
  rw [hbody, hopened, hexten]
  rfl

/-- The other lines that were typed are steps of one extension. -/
theorem marks_steps {lines : List String} (hname : named name = true) :
    marks (lines.map (.exten name)) = lines.map fun l => .step name (readPriority l.toList) := by
  unfold marks
  rw [List.map_map]
  apply List.map_congr_left
  intro s _
  exact mark_exten hname

/-- The lines after the header of an application. -/
theorem inOrder_typedLines {lines : List String} (hlines : lines = [""] ∨ checkLines lines = [])
    (hshort : lines.length ≤ 2 ^ 31) :
    InOrder none (marks ((lines.filter isInclude).map .other ++
      (lines.filter (!isInclude ·)).map (.exten anyExten) ++
      (lines.filter (!isInclude ·)).map (.exten "s") ++ [.other ""])) := by
  have hs : named "s" = true := named_ofList _ rfl
  have hnone : ∀ ms : List Mark, (∀ m ∈ ms, m = .neither) →
      InOrder none ms ∧ ms.foldl Mark.after none = none := by
    intro ms
    induction ms with
    | nil => exact fun _ => ⟨trivial, rfl⟩
    | cons m r ih =>
      intro h
      obtain ⟨hr, hlast⟩ := ih fun m hm => h m (List.mem_cons_of_mem _ hm)
      rw [h m List.mem_cons_self]
      exact ⟨⟨trivial, hr⟩, hlast⟩
  obtain ⟨hincludes, hlast⟩ := hnone (marks ((lines.filter isInclude).map .other)) marks_includes
  have hafter : ∀ k, (((lines.filter (!isInclude ·)).map fun l =>
      Mark.step anyExten (readPriority l.toList)).foldl Mark.after none) ≠ some ("s", k) := by
    have hmap : ((lines.filter (!isInclude ·)).map fun l => Mark.step anyExten (readPriority l.toList)) =
        ((lines.filter (!isInclude ·)).map fun l => readPriority l.toList).map (.step anyExten) := by
      rw [List.map_map]
      rfl
    rw [hmap]
    exact last_ne (by decide) fun k => nofun
  rw [marks_append, marks_append, marks_append, marks_steps named_any, marks_steps hs, inOrder_append,
    inOrder_append, inOrder_append, List.foldl_append, hlast]
  refine ⟨⟨⟨hincludes, inOrder_typed hlines hshort fun k => nofun⟩, inOrder_typed hlines hshort hafter⟩, ?_⟩
  exact ordered_blank _

/-- A context after a comment. -/
theorem ordered_opened {context text : String} {body : List Line} (hcontext : headerName context = true)
    (hbody : InOrder none (marks body)) : Ordered (.other ("; " ++ text) :: .context context :: body) :=
  Ordered.comment _ fun _ => inOrder_context hcontext hbody

-- the lines have a name here, so that nothing decodes what is typed in
/-- Lines that were checked when they were typed are in order: the check counts as the loader does. -/
theorem ordered_typed {lines : List String} (heq : typedLines a = lines)
    (hid : plainId (a.get "uniqid").toStr = true) (htext : isPlaintext a = true)
    (hlines : lines = [""] ∨ checkLines lines = []) (hshort : lines.length ≤ 2 ^ 31) :
    Ordered (generateApplicationContext2 a ++ [.other ""]) := by
  rw [generateApplicationContext2_typed htext, typedBody, heq]
  exact ordered_opened (headerName_of_plainId hid) (inOrder_typedLines hlines hshort)

/-- So the context of an application is in order, whether it was typed or generated. -/
theorem ordered_application (hid : plainId (a.get "uniqid").toStr = true)
    (h : isPlaintext a = true → TypedChecked a) :
    Ordered (generateApplicationContext2 a ++ [.other ""]) := by
  cases htext : isPlaintext a with
  | true =>
    exact ordered_typed rfl hid htext (h htext).lines (h htext).short
  | false =>
    refine Ordered.append ?_ ordered_blank
    cases hphp : is (a.get "type") "php" with
    | true => exact ordered_phpApplication hid hphp
    | false =>
      have hnot : is (a.get "type") "plaintext" = false := by
        rw [isPlaintext, hphp] at htext
        exact htext
      unfold generateApplicationContext2
      rw [hphp, hnot]
      exact ordered_nil

end Typed

/-! ## The whole dialplan -/

/-- A public phone is called by its number, a provider with a default fax has numbers for patterns, and in the
context of a provider only the same name follows a destination that no case is for. -/
structure NamesAgree (l : Lists) : Prop where
  phones : ∀ p ∈ publicOnes (enabled l.internalPhones), NamedByNumber p
  faxes : ∀ p ∈ enabled l.providers, (p.get "defaultfax").truthy = true →
    ∀ m ∈ (p.get "incomingextensionmap").vals, NumberOrAll (mapKey m)
  unmatched : ∀ p ∈ enabled l.providers, NamesFollow (entrances p)

section Whole

variable {env : Env} {l : Lists} {g : Globals}

/-- What can be called from outside is in order just if the phones are named by their numbers. -/
theorem decides_publicDirectDial (hs : Spelled env l g) :
    Decides (marks (publicDirectDial g l)) (∀ p ∈ publicOnes (enabled l.internalPhones), NamedByNumber p) := by
  have hheader : headerName "public-direct-dial" = true := by decide
  -- only the internal phones can be out of order
  have hphones : Decides (marks ((publicOnes (enabled l.internalPhones)).flatMap (publicInternalPhone g)))
      (∀ p ∈ publicOnes (enabled l.internalPhones), NamedByNumber p) := by
    rw [marks_flatMap]
    apply decides_flatMap
    intro p hp
    obtain ⟨hspelled, htech⟩ := hs.internalPhones p (mem_of_mem_publicOnes hp)
    exact decides_publicInternalPhone hs.config hspelled.toElementSpelled htech
  have hexternal : Ordered ((publicOnes (enabled l.externalPhones)).flatMap (publicExternalPhone g)) := by
    apply ordered_flatMap
    intro p hp
    obtain ⟨hspelled, hdialled⟩ := hs.externalPhones p (mem_of_mem_publicOnes hp)
    exact ordered_publicExternalPhone hs.config hspelled hdialled
  have hgroups : Ordered ((publicOnes (withExtension l.callgroups)).flatMap (publicCallgroup g)) := by
    apply ordered_flatMap
    intro cg hcg
    exact ordered_publicCallgroup hs.config (hs.callgroups cg (mem_of_mem_publicOnes hcg))
  have happlications : Ordered ((publicOnes (enabled l.applications)).flatMap publicApplication) := by
    apply ordered_flatMap
    intro a ha
    exact ordered_publicApplication (hs.applications a (mem_of_mem_publicOnes ha))
  have hrooms : Ordered ((publicOnes l.conferenceRooms).flatMap publicConferenceRoom) := by
    apply ordered_flatMap
    intro r hr
    exact ordered_publicConferenceRoom (hs.conferenceRooms r (mem_of_mem_publicOnes hr))
  have hstart : Ordered [Line.context "public-direct-dial"] := ordered_nil.context hheader
  unfold publicDirectDial
  simp only [marks_append]
  apply ((((((hstart.decides.append hphones).append hexternal.decides).append hgroups.decides).append
    happlications.decides).append hrooms.decides).append ordered_blank.decides).congr
  simp only [and_true, true_and]

/-- What can be called from inside is in order. -/
theorem ordered_internalContext (hs : Spelled env l g) : Ordered (internalContext g l) := by
  have hheader : headerName "internal" = true := by decide
  have hh : named "h" = true := named_ofList _ rfl
  have hend : Ordered [.other "", .other "; hangup logic",
      .exten "h" "1,NoOp(Entering the internal context hangup extension)",
      .exten "h" "n,Macro(missedcallmail)", .other ""] := fun last =>
    inOrder_other rfl (inOrder_other rfl (inOrder_one hh (begins_fixed _ rfl rfl)
      (inOrder_n hh (begins_fixed _ rfl rfl) (inOrder_other rfl trivial))))
  unfold internalContext
  -- one list after the other, as the source writes them
  refine (((((((((((Ordered.append (ordered_nil.context hheader) ?_).append ?_).append ?_).append ?_).append
    ?_).append ?_).append ?_).append (ordered_nil.other _ rfl)).append ?_).append
    (ordered_nil.other _ rfl)).append ?_).append hend
  · apply ordered_flatMap
    intro p hp
    obtain ⟨hspelled, htech⟩ := hs.internalPhones p hp
    exact ordered_internalInternalPhone hs.config hspelled.toElementSpelled htech
  · apply ordered_flatMap
    intro p hp
    obtain ⟨hspelled, hdialled⟩ := hs.externalPhones p hp
    exact ordered_internalExternalPhone hs.config hspelled hdialled
  · apply ordered_flatMap
    intro cg hcg
    exact ordered_internalCallgroup hs.config (hs.callgroups cg hcg)
  · apply ordered_flatMap
    intro a ha
    exact ordered_internalApplication (hs.applications a ha)
  · apply ordered_flatMap
    intro r hr
    exact ordered_internalConferenceRoom (hs.conferenceRooms r hr)
  · apply ordered_flatMap
    intro f hf
    exact ordered_internalVirtualFax (hs.virtualFaxes f hf)
  · apply ordered_flatMap
    intro f hf
    exact ordered_internalAnalogFax hs.config (hs.analogFaxes f hf).toElementSpelled
  · exact ordered_generateParkinglot hs.parking
  · exact ordered_generateHints hs.sipPhones

/-- Before the providers only the names of the phones outside can break the order. -/
theorem decides_linesBeforeProviders (hs : Spelled env l g)
    (htyped : ∀ a ∈ enabled l.applications, isPlaintext a = true → TypedChecked a) :
    Decides (marks (linesBeforeProviders env l g)) (∀ p ∈ publicOnes (enabled l.internalPhones), NamedByNumber p) := by
  have happlications : Ordered ((enabled l.applications).flatMap fun a =>
      generateApplicationContext2 a ++ [Line.other ""]) := by
    apply ordered_flatMap
    intro a ha
    exact ordered_application (hs.applications a ha).uniqid (htyped a ha)
  have hfaxes : Ordered ((enabled l.virtualFaxes).flatMap fun f =>
      generateVirtualFaxContext env g f ++ [Line.other ""]) := by
    apply ordered_flatMap
    intro f hf
    exact (ordered_virtualFaxContext (hs.virtualFaxes f hf).uniqid).append ordered_blank
  unfold linesBeforeProviders
  rw [marks_append, marks_append]
  have hstart := (((@ordered_macros env g).append happlications).append ordered_blank).append
    hfaxes
  apply (((hstart.append ordered_blank).decides.append (decides_publicDirectDial hs)).append
    (ordered_internalContext hs).decides).congr
  rw [true_and, and_true]

/-- After them nothing can. -/
theorem ordered_linesAfterProviders (hs : Spelled env l g) : Ordered (linesAfterProviders l g) := by
  have hhosts : Ordered ((sipGetHostsWithMultipleAccounts l.sipProviders).flatMap (multiContext g)) := by
    apply ordered_flatMap
    intro e he
    exact ordered_multiContext (hs.hosts e he) fun id hid => (hs.accounts e he id hid).1
  have hphones : Ordered ((enabled l.internalPhones).flatMap (phoneContexts l.providers true)) := by
    apply ordered_flatMap
    intro p hp
    exact ordered_phoneContexts (hs.internalPhones p hp).1.uniqid
      (fun provider hprovider => (hs.providers provider hprovider).toOutgoingSpelled) true
  have hanalog : Ordered ((enabled l.analogFaxes).flatMap (phoneContexts l.providers false)) := by
    apply ordered_flatMap
    intro f hf
    exact ordered_phoneContexts (hs.analogFaxes f hf).uniqid
      (fun provider hprovider => (hs.providers provider hprovider).toOutgoingSpelled) false
  unfold linesAfterProviders
  exact (((hhosts.append ordered_blank).append hphones).append hanalog).append ordered_outgoingUri

/-- The whole dialplan, with the lines joined that lost their ends. -/
theorem decides_confLines (hs : Spelled env l g)
    (htyped : ∀ a ∈ enabled l.applications, isPlaintext a = true → TypedChecked a) :
    Decides (marks (joined (confLines env l g))) (NamesAgree l) := by
  have hproviders : Decides (marks ((enabled l.providers).flatMap fun p => joined (providerContexts g p)))
      (∀ p ∈ enabled l.providers, ((p.get "defaultfax").truthy = true →
        ∀ m ∈ (p.get "incomingextensionmap").vals, NumberOrAll (mapKey m)) ∧ NamesFollow (entrances p)) := by
    rw [marks_flatMap]
    apply decides_flatMap
    intro p hp
    exact decides_providerContexts hs.config (hs.providers p hp)
  rw [joined_confLines hs, marks_append, marks_append]
  apply ((decides_linesBeforeProviders hs htyped).append
    (hproviders.append (ordered_linesAfterProviders hs).decides)).congr
  rw [and_true]
  exact ⟨fun h => ⟨h.1, fun p hp => (h.2 p hp).1, fun p hp => (h.2 p hp).2⟩,
    fun h => ⟨h.phones, fun p hp => ⟨h.faxes p hp, h.unmatched p hp⟩⟩⟩

/-- The same of the text that is written. -/
theorem stepsInOrder_render_iff (hs : Spelled env l g)
    (htyped : ∀ a ∈ enabled l.applications, isPlaintext a = true → TypedChecked a) :
    StepsInOrder (render (confLines env l g)) ↔ NamesAgree l := by
  unfold StepsInOrder
  rw [← render_joined, explodeChars_render (tidy_joined hs), List.map_append, List.map_map]
  have hall := ((decides_confLines hs htyped).append decides_neither) none
  rw [and_true] at hall
  exact hall

end Whole

/-- In the dialplan that is generated, every step with `n` goes on with the extension of the line before
it, and the steps of every extension are numbered from one on, exactly if names agree. -/
theorem steps_in_order_iff (usort : Usort) (env : Env) (g : Globals)
    (hs : Spelled env (fetchLists usort g).1 (fetchLists usort g).2)
    (htyped : ∀ a ∈ enabled (fetchLists usort g).1.applications, isPlaintext a = true → TypedChecked a) :
    StepsInOrder (extensionsConfGenerate usort env g).1 ↔ NamesAgree (fetchLists usort g).1 := by
  rw [extensionsConfGenerate_text]
  exact stepsInOrder_render_iff hs htyped

/-! ## A public phone -/

/-- A SIP phone one can call from outside under a name. -/
def publicPhone (name : String) : Val :=
  .arr [(.str "extension", .str "101"), (.str "callerid", .str "desk"),
    (.str "uniqid", .str "SIP-PHONE-1"), (.str "publicaccess", .str "enabled"),
    (.str "publicname", .str name)]

/-- A configuration with nothing but the phone. -/
def withPhone (name : String) : Globals :=
  let config := .arr [(.str "sip", .arr [(.str "phone", .ofList [publicPhone name])])]
  { config := config, uniqidMap := configBuildUniqidMap config }

/-- The lists of that configuration. -/
def phoneLists (name : String) : Lists :=
  { internalPhones := [publicPhone name], externalPhones := [], callgroups := [], applications := []
    conferenceRooms := [], virtualFaxes := [], analogFaxes := [], providers := []
    sipPhones := [publicPhone name], sipProviders := [] }

/-- The lists of a configuration with one phone. -/
theorem fetchLists_withPhone {name : String} (hname : name = "101" ∨ name = "sales") :
    (fetchLists insertionUsort (withPhone name)).1 = phoneLists name := by
  rcases hname with rfl | rfl
  · rfl
  · rfl

theorem spelled_withPhone {name : String} (hname : name = "101" ∨ name = "sales") :
    Spelled plainEnv (fetchLists insertionUsort (withPhone name)).1
      (fetchLists insertionUsort (withPhone name)).2 := by
  -- what can be evaluated is, for both names
  have hphone : (publicPhone name).chars.contains '\n' = false ∧
      named ((publicPhone name).get "extension").toStr = true ∧
      (∀ n ∈ publicname (publicPhone name), named n = true) ∧
      plainId ((publicPhone name).get "uniqid").toStr = true ∧
      pbxUniqidToTechnology ((publicPhone name).get "uniqid").toStr = .sip := by
    rcases hname with rfl | rfl
    · decide
    · decide
  obtain ⟨hchars, hextension, hpublic, hid, htech⟩ := hphone
  have hall : ∀ p ∈ enabled (phoneLists name).internalPhones, p = publicPhone name := fun p hp =>
    List.mem_singleton.1 (List.mem_of_mem_filter hp)
  rw [fetchLists_withPhone hname]
  refine ⟨?_, ?_, ?_, ?_, ?_, ?_, ?_, ?_, ?_, ?_, ?_, ?_, ?_, ?_, ?_⟩
  · unfold Unbroken
    rcases hname with rfl | rfl
    · decide
    · decide
  · decide
  · decide
  · intro p hp
    rw [hall p hp]
    refine ⟨⟨⟨by simpa [Unbroken] using hchars, hextension, hpublic⟩, hid⟩, ?_⟩
    intro u hu
    rw [htech] at hu
    cases hu
  · intro p hp
    cases hp
  · intro p hp
    cases hp
  · intro p hp
    cases hp
  · intro p hp
    cases hp
  · intro p hp
    cases hp
  · intro p hp
    cases hp
  · intro p hp
    rw [List.mem_singleton.1 (List.mem_of_mem_filter hp)]
    exact hextension
  · intro p hp
    cases hp
  · intro e he
    cases he
  · intro e he
    cases he
  · rcases hname with rfl | rfl
    · decide
    · decide

/-- A phone that is called by its number. -/
theorem steps_in_order_withPhone :
    StepsInOrder (extensionsConfGenerate insertionUsort plainEnv (withPhone "101")).1 := by
  have hlists : (fetchLists insertionUsort (withPhone "101")).1 = phoneLists "101" :=
    fetchLists_withPhone (.inl rfl)
  have hspelled := @spelled_withPhone "101" (.inl rfl)
  have hiff := steps_in_order_iff insertionUsort plainEnv (withPhone "101") hspelled
  rw [hlists] at hiff
  -- the phone has no public name
  have hphones : ∀ p ∈ publicOnes (enabled (phoneLists "101").internalPhones), NamedByNumber p := by
    unfold NamedByNumber
    decide
  have hagree : NamesAgree (phoneLists "101") := ⟨hphones, (fun p hp => by cases hp), (fun p hp => by cases hp)⟩
  rw [hiff fun a ha => by cases ha]
  exact hagree

/-- With another name, the mark for pickups is a step of another extension. -/
theorem not_steps_in_order :
    Spelled plainEnv (fetchLists insertionUsort (withPhone "sales")).1
      (fetchLists insertionUsort (withPhone "sales")).2 ∧
    ¬ StepsInOrder (extensionsConfGenerate insertionUsort plainEnv (withPhone "sales")).1 := by
  have hlists : (fetchLists insertionUsort (withPhone "sales")).1 = phoneLists "sales" :=
    fetchLists_withPhone (.inr rfl)
  have hspelled := @spelled_withPhone "sales" (.inr rfl)
  refine ⟨hspelled, ?_⟩
  rw [extensionsConfGenerate_text, stepsInOrder_render_iff hspelled]
  · rw [hlists]
    intro hagree
    -- its public name is a word, and the mark stands under the number
    have hnamed : ¬ ∀ p ∈ publicOnes (enabled (phoneLists "sales").internalPhones), NamedByNumber p := by
      unfold NamedByNumber
      decide
    exact hnamed hagree.phones
  · rw [hlists]
    intro a ha
    cases ha

end Dialplan
end Askozia
