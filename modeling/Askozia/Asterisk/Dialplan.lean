import Askozia.Asterisk.Options

/-!
# Reading a dialplan

What Asterisk makes of a line of `extensions.conf`: a context header, a setting, an inclusion, a
step `exten => name,priority,application(arguments)` of an extension, a hint, or nothing it knows.
-/

namespace Askozia
namespace Asterisk

open Php

/-! ## Lines -/

/-- What a line says. -/
inductive Entry where
  | blank
  | comment
  /-- `[name]` -/
  | header (name : String)
  /-- `name=value` -/
  | setting (name value : String)
  /-- `include => context` -/
  | includes (context : String)
  /-- `exten => exten,priority,application(arguments)` -/
  | step (exten priority application arguments : String)
  /-- `exten => exten,hint,device` -/
  | hint (exten device : String)
  | unknown
deriving DecidableEq, Repr

/-- What is before and after the first occurrence of a character. -/
def cutAt (c : Char) : List Char → Option (List Char × List Char)
  | [] => none
  | d :: r => if d = c then some ([], r) else (cutAt c r).map fun ab => (d :: ab.1, ab.2)

/-- A number or `n`, with or without a label. -/
def isPriority (p : List Char) : Bool :=
  let number := p.takeWhile (· != '(')
  let label := p.dropWhile (· != '(')
  (number == ['n'] || (!number.isEmpty && number.all Char.isDigit)) &&
    (label.isEmpty || label.getLast? == some ')')

/-- The name of an application. -/
def isApplication (a : List Char) : Bool := !a.isEmpty && a.all Char.isAlphanum

/-- The name of a setting. -/
def isSettingName (a : List Char) : Bool :=
  !a.isEmpty && a.all fun c => c.isAlphanum || c == '_'

/-- A step of an extension, after its name. -/
def readStep (exten : List Char) (rest : List Char) : Entry :=
  match cutAt ',' rest with
  | none => .unknown
  | some (priority, body) =>
    if priority = "hint".toList then .hint (String.ofList exten) (String.ofList body)
    else
      match cutAt '(' body with
      | none => .unknown
      | some (application, tail) =>
        if isPriority priority && isApplication application && tail.getLast? == some ')' then
          .step (String.ofList exten) (String.ofList priority) (String.ofList application)
            (String.ofList tail.dropLast)
        else .unknown

/-- What follows `exten => `. -/
def readExten (rest : List Char) : Entry :=
  match cutAt ',' rest with
  | none => .unknown
  | some (exten, rest) => if exten = [] then .unknown else readStep exten rest

/-- What follows `[`. -/
def readHeader (rest : List Char) : Entry :=
  match cutAt ']' rest with
  | none => .unknown
  | some (name, rest) =>
    if name ≠ [] ∧ (rest = [] ∨ rest.head? = some ';') then .header (String.ofList name)
    else .unknown

/-- A line that is none of the others. -/
def readSetting (line : List Char) : Entry :=
  match cutAt '=' line with
  | none => .unknown
  | some (name, value) =>
    if isSettingName name then .setting (String.ofList name) (String.ofList value) else .unknown

/-- What a line says. -/
def readLine (line : List Char) : Entry :=
  if line = [] then .blank
  else if line.head? = some ';' then .comment
  else if line.head? = some '[' then readHeader line.tail
  else if "include => ".toList.isPrefixOf line then
    if line.drop 11 = [] then .unknown else .includes (String.ofList (line.drop 11))
  else if "exten => ".toList.isPrefixOf line then readExten (line.drop 9)
  else readSetting line

/-- What the lines of a text say. -/
def entries (text : String) : List Entry := (explodeChars '\n' text.toList).map readLine

/-! ## Jumps -/

/-- The context `Goto` leaves for, when it is given one. -/
def gotoContext (arguments : List Char) : List String :=
  match explodeChars ',' arguments with
  | [context, _, _] => [String.ofList context]
  | _ => []

/-- The context `Dial` enters through a local channel. -/
def localContext (arguments : List Char) : List String :=
  if "Local/".toList.isPrefixOf arguments then
    ((cutAt '@' arguments).map fun ab =>
      String.ofList (ab.2.takeWhile fun c => c != '/' && c != ',')).toList
  else []

/-- The contexts a line names: where it jumps to, or what it includes. -/
def Entry.targets : Entry → List String
  | step _ _ application arguments =>
    if application = "Goto" then gotoContext arguments.toList
    else if application = "Dial" then localContext arguments.toList
    else []
  | includes context => [context]
  | _ => []

/-- The line is an inclusion. -/
def Entry.isIncludes : Entry → Bool
  | includes _ => true
  | _ => false

/-- The context a line opens. -/
def Entry.opened : Entry → Option String
  | header name => some name
  | _ => none

/-- The contexts of some lines. -/
def headers (es : List Entry) : List String := es.filterMap Entry.opened

/-- Lines with the context each of them is in. -/
def inContexts (context : String) : List Entry → List (String × Entry)
  | [] => []
  | e :: r => (context, e) :: inContexts (e.opened.getD context) r

/-! ## Cutting -/

section Cut

variable {c : Char} {a b s t : List Char}

theorem cutAt_append (h : cutAt c s = some (a, b)) : cutAt c (s ++ t) = some (a, b ++ t) := by
  induction s generalizing a with
  | nil => cases h
  | cons d r ih =>
    rw [List.cons_append, cutAt]
    rw [cutAt] at h
    split_ifs with hd
    · rw [if_pos hd, Option.some.injEq, Prod.mk.injEq] at h
      rw [← h.1, ← h.2]
    · rw [if_neg hd, Option.map_eq_some_iff] at h
      obtain ⟨⟨a', b'⟩, hcut, heq⟩ := h
      rw [Prod.mk.injEq] at heq
      obtain ⟨rfl, rfl⟩ := heq
      rw [ih hcut]
      rfl

theorem cutAt_append_of_not_mem (h : c ∉ a) : cutAt c (a ++ b) = (cutAt c b).map fun st => (a ++ st.1, st.2) := by
  induction a with
  | nil => simp
  | cons d r ih =>
    rw [List.mem_cons, not_or] at h
    rw [List.cons_append, cutAt, if_neg (Ne.symm h.1), ih h.2, Option.map_map]
    rfl

theorem cutAt_eq (h : c ∉ a) : cutAt c (a ++ c :: b) = some (a, b) := by
  induction a with
  | nil => simp [cutAt]
  | cons d r ih =>
    rw [List.mem_cons, not_or] at h
    rw [List.cons_append, cutAt, if_neg (Ne.symm h.1), ih h.2]
    rfl

theorem cutAt_spec (h : cutAt c s = some (a, b)) : s = a ++ c :: b ∧ c ∉ a := by
  induction s generalizing a with
  | nil => cases h
  | cons d r ih =>
    rw [cutAt] at h
    split_ifs at h with hd
    · rw [Option.some.injEq, Prod.mk.injEq] at h
      obtain ⟨rfl, rfl⟩ := h
      rw [hd]
      exact ⟨rfl, List.not_mem_nil⟩
    · rw [Option.map_eq_some_iff] at h
      obtain ⟨⟨a', b'⟩, hcut, heq⟩ := h
      rw [Prod.mk.injEq] at heq
      obtain ⟨rfl, rfl⟩ := heq
      obtain ⟨rfl, hnot⟩ := ih hcut
      refine ⟨rfl, ?_⟩
      rw [List.mem_cons, not_or]
      exact ⟨Ne.symm hd, hnot⟩

end Cut

/-! ## Lines in contexts -/

section Contexts

variable {context : String} {es fs : List Entry} {x : String × Entry}

theorem mem_of_mem_inContexts (h : x ∈ inContexts context es) : x.2 ∈ es := by
  induction es generalizing context with
  | nil => cases h
  | cons e r ih =>
    rcases List.mem_cons.1 h with rfl | h
    · exact List.mem_cons_self
    · exact List.mem_cons_of_mem _ (ih h)

/-- The context after some lines. -/
def contextAfter (context : String) (es : List Entry) : String :=
  (headers es).getLast?.getD context

theorem inContexts_append : inContexts context (es ++ fs) =
    inContexts context es ++ inContexts (contextAfter context es) fs := by
  induction es generalizing context with
  | nil => rfl
  | cons e r ih =>
    rw [List.cons_append, inContexts, inContexts, ih, List.cons_append]
    congr 3
    unfold contextAfter headers
    cases he : e.opened with
    | none => simp [he]
    | some name =>
      simp only [List.filterMap_cons, he, Option.getD_some]
      cases r.filterMap Entry.opened with
      | nil => rfl
      | cons n ns => simp [List.getLast?_cons]

/-- Lines that open no context are all in the context before them. -/
theorem context_of_mem_inContexts (h : ∀ e ∈ es, e.opened = none)
    (hx : x ∈ inContexts context es) : x.1 = context := by
  induction es with
  | nil => cases hx
  | cons e r ih =>
    rw [inContexts, h e List.mem_cons_self, Option.getD_none] at hx
    rcases List.mem_cons.1 hx with rfl | hx
    · rfl
    · exact ih (fun d hd => h d (List.mem_cons_of_mem _ hd)) hx

theorem exists_of_mem_inContexts_flatMap {α : Type} {xs : List α} {f : α → List Entry}
    (h : x ∈ inContexts context (xs.flatMap f)) : ∃ a ∈ xs, ∃ c, x ∈ inContexts c (f a) := by
  induction xs generalizing context with
  | nil => cases h
  | cons a r ih =>
    rw [List.flatMap_cons, inContexts_append, List.mem_append] at h
    rcases h with h | h
    · exact ⟨a, List.mem_cons_self, context, h⟩
    · obtain ⟨b, hb, c, hc⟩ := ih h
      exact ⟨b, List.mem_cons_of_mem _ hb, c, hc⟩

theorem exists_mem_inContexts (context : String) {e : Entry} (h : e ∈ es) :
    ∃ c, (c, e) ∈ inContexts context es := by
  induction es generalizing context with
  | nil => cases h
  | cons d r ih =>
    rcases List.mem_cons.1 h with rfl | h
    · exact ⟨context, List.mem_cons_self⟩
    · obtain ⟨c, hc⟩ := ih (d.opened.getD context) h
      exact ⟨c, List.mem_cons_of_mem _ hc⟩

end Contexts

end Asterisk
end Askozia
