import Askozia.Php.Lacks

/-!
# Variables from a text (`parse_str`)

`parse_str($s)` reads assignments like those of a form, `a[]=1&b[x]=2`, decodes them, and makes them
in the function that calls it, to variables that are there already too.

* `Closed`: what is kept by putting values together and taking them apart, as lacking some characters is,
  is kept by an assignment, too.
-/

namespace Askozia
namespace Php

/-! ## Decoding -/

/-- The value of a hexadecimal digit. -/
def hexValue (c : Char) : Option ℕ :=
  if c.isDigit then some (c.toNat - '0'.toNat)
  else if 'a'.toNat ≤ c.toNat ∧ c.toNat ≤ 'f'.toNat then some (c.toNat - 'a'.toNat + 10)
  else if 'A'.toNat ≤ c.toNat ∧ c.toNat ≤ 'F'.toNat then some (c.toNat - 'A'.toNat + 10)
  else none

/-- `urldecode($s)`, on characters. -/
def urldecodeChars : List Char → List Char
  | '+' :: r => ' ' :: urldecodeChars r
  | '%' :: a :: b :: r =>
    match hexValue a, hexValue b with
    | some x, some y => Char.ofNat (16 * x + y) :: urldecodeChars r
    | _, _ => '%' :: urldecodeChars (a :: b :: r)
  | c :: r => c :: urldecodeChars r
  | [] => []

/-- A text up to its first zero character. -/
def cString (s : List Char) : List Char := s.takeWhile (· ≠ Char.ofNat 0)

/-- `isspace` -/
def isSpace (c : Char) : Bool := c == ' ' || (9 ≤ c.toNat && c.toNat ≤ 13)

/-! ## Names -/

/-- The indexes in brackets at the start of a text: `none` for `[]`. A bracket that is not closed ends
them. The first argument bounds their number. -/
def indexes : ℕ → List Char → List (Option (List Char))
  | n + 1, '[' :: r =>
    let inner := if r.head?.any isSpace then r.tail else r
    if inner.head? = some ']' then none :: indexes n inner.tail
    else if ']' ∈ r then some (r.takeWhile (· ≠ ']')) :: indexes n (r.dropWhile (· ≠ ']')).tail
    else []
  | _, _ => []

/-- The variable and the indexes of a name. A first bracket that is not closed becomes `_`. -/
def variableOf (name : List Char) : Option (String × List (Option (List Char))) :=
  let name := name.dropWhile (· = ' ')
  let base := (name.takeWhile (· ≠ '[')).map fun c => if c = ' ' ∨ c = '.' then '_' else c
  let rest := name.dropWhile (· ≠ '[')
  if base = [] then none
  else if rest ≠ [] ∧ ']' ∉ rest then some (String.ofList (base ++ '_' :: rest.tail), [])
  else some (String.ofList base, indexes rest.length rest)

/-! ## Assignments -/

/-- `$v[i₁]...[iₙ] = $x;`, where what is no array becomes one. -/
def assignAt : List (Option (List Char)) → Val → Val → Val
  | [], x, _ => x
  | none :: r, x, v =>
    let v := if v.isArray then v else .arr []
    v.push (assignAt r x .null)
  | some i :: r, x, v =>
    let v := if v.isArray then v else .arr []
    let key := (Val.str (String.ofList i)).key
    v.set key (assignAt r x (v.idx key))

/-- An assignment: the variable, the indexes and the text. -/
structure Assignment where
  name : String
  path : List (Option (List Char))
  value : String

/-- One assignment of `parse_str`, from `name=value`. -/
def assignmentOf (piece : List Char) : Option Assignment :=
  (variableOf (cString (urldecodeChars (piece.takeWhile (· ≠ '='))))).map fun (name, path) =>
    { name, path, value := String.ofList (urldecodeChars (piece.dropWhile (· ≠ '=')).tail) }

/-- The texts between `&`, up to the first zero character. -/
def fields (s : String) : List (List Char) :=
  (explodeChars '&' (cString s.toList)).filter (· ≠ [])

/-- The assignments of `parse_str($s)`. -/
def assignments (s : String) : List Assignment := (fields s).filterMap assignmentOf

section Lacks

variable {bad : Char → Bool} {v x : Val}

/-- No such character is in the indexes and the text of an assignment. -/
def Assignment.Lacks (bad : Char → Bool) (a : Assignment) : Prop :=
  (∀ i ∈ a.path, ∀ index ∈ i, TextLacks bad (String.ofList index)) ∧ TextLacks bad a.value

theorem keyLacks_key {s : String} (h : TextLacks bad s) : KeyLacks bad (Val.str s).key := by
  rcases Val.key_str_cases s with ⟨n, hkey, -⟩ | hkey
  · rw [hkey]
    trivial
  · rw [hkey]
    exact h

/-- What holds of values and keys is kept when values are put together and taken apart. -/
structure Closed (Q : Val → Prop) (K : Key → Prop) : Prop where
  null : Q .null
  empty : Q (.arr [])
  int : ∀ n, K (.int n)
  set : ∀ {v x : Val} {k : Key}, Q v → K k → Q x → Q (v.set k x)
  idx : ∀ {v : Val} (k : Key), Q v → Q (v.idx k)

/-- The keys of the indexes and the text of an assignment are of that kind. -/
def Assignment.Fits (Q : Val → Prop) (K : Key → Prop) (a : Assignment) : Prop :=
  (∀ i ∈ a.path, ∀ index ∈ i, K (Val.str (String.ofList index)).key) ∧ Q (.str a.value)

theorem closed_lacks (bad : Char → Bool) : Closed (Val.Lacks bad) (KeyLacks bad) :=
  ⟨Val.lacks_null, Val.lacks_empty, fun _ => trivial, Val.lacks_set, fun k h => Val.lacks_idx h k⟩

theorem Assignment.Lacks.fits {a : Assignment} (h : a.Lacks bad) :
    a.Fits (Val.Lacks bad) (KeyLacks bad) :=
  ⟨fun i hi index hindex => keyLacks_key (h.1 i hi index hindex), Val.lacks_str.2 h.2⟩

end Lacks

section Assigning

variable {Q : Val → Prop} {K P : Key → Prop} {v x : Val} {i : Option (List Char)}
  {path : List (Option (List Char))}

/-- An assignment below a variable that is of the kind. -/
theorem Closed.assignAt (h : Closed Q K)
    (hpath : ∀ i ∈ path, ∀ index ∈ i, K (Val.str (String.ofList index)).key) (hx : Q x) :
    ∀ {v : Val}, Q v → Q (assignAt path x v) := by
  induction path with
  | nil => exact fun _ => hx
  | cons i r ih =>
    intro v hv
    have hrest : ∀ {w : Val}, Q w → Q (Php.assignAt r x w) :=
      ih fun j hj => hpath j (List.mem_cons_of_mem _ hj)
    have harray : Q (if v.isArray then v else .arr []) := by
      split_ifs
      · exact hv
      · exact h.empty
    cases i with
    | none => exact h.set harray (h.int _) (hrest h.null)
    | some index =>
      exact h.set harray (hpath (some index) List.mem_cons_self index rfl) (hrest (h.idx _ harray))

/-- What is assigned under a key, when what was there is of the kind. -/
theorem Closed.exists_assignAt (h : Closed Q K)
    (hpath : ∀ j ∈ i :: path, ∀ index ∈ j, K (Val.str (String.ofList index)).key) (hx : Q x) (v : Val) :
    ∃ key w, Php.assignAt (i :: path) x v = (if v.isArray then v else .arr []).set key w ∧
      (Q ((if v.isArray then v else .arr []).idx key) → Q w) := by
  have hrest : ∀ {w : Val}, Q w → Q (Php.assignAt path x w) :=
    h.assignAt (fun j hj => hpath j (List.mem_cons_of_mem _ hj)) hx
  cases i with
  | none => exact ⟨_, _, rfl, fun _ => hrest h.null⟩
  | some index => exact ⟨_, _, rfl, hrest⟩

/-- What is under a key after an assignment below a variable. -/
theorem Closed.idx_assignAt (h : Closed Q K)
    (hpath : ∀ j ∈ i :: path, ∀ index ∈ j, K (Val.str (String.ofList index)).key) (hx : Q x)
    (hv : ∀ k, Q (v.idx k)) (k : Key) : Q ((Php.assignAt (i :: path) x v).idx k) := by
  obtain ⟨key, w, hassign, hw⟩ := h.exists_assignAt hpath hx v
  have harray : ∀ k, Q ((if v.isArray then v else .arr []).idx k) := by
    intro k
    split_ifs
    · exact hv k
    · exact h.null
  have hne : ∀ s, (if v.isArray then v else .arr []) ≠ .str s := by
    intro s
    split_ifs with h
    · rintro rfl
      cases h
    · exact Val.noConfusion
  rw [hassign]
  by_cases hk : k = key
  · rw [hk, Val.idx_set_self]
    exact hw (harray key)
  · rw [Val.idx_set_of_ne _ hk hne]
    exact harray k

/-- The entries after an assignment below a variable, apart from those with some keys. -/
theorem Closed.entries_assignAt (h : Closed Q K)
    (hpath : ∀ j ∈ i :: path, ∀ index ∈ j, K (Val.str (String.ofList index)).key) (hx : Q x)
    (hv : ∀ e ∈ v.entries, P e.1 → Q e.2) : ∀ e ∈ (Php.assignAt (i :: path) x v).entries, P e.1 → Q e.2 := by
  obtain ⟨key, w, hassign, hw⟩ := h.exists_assignAt hpath hx v
  have harray : ∀ e ∈ (if v.isArray then v else .arr []).entries, P e.1 → Q e.2 := by
    split_ifs
    · exact hv
    · exact fun e he => absurd he List.not_mem_nil
  have hisArray : (if v.isArray then v else .arr []).isArray = true := by
    split_ifs with h
    · exact h
    · rfl
  generalize (if v.isArray then v else .arr []) = v at hassign hw harray hisArray
  rw [hassign]
  intro e he hP
  rcases Val.mem_setEntry he with rfl | he
  · apply hw
    cases v with
    | arr es =>
      rw [Val.idx_arr]
      cases hlookup : es.lookup key with
      | none => exact h.null
      | some y => exact harray _ (Val.mem_of_lookup hlookup) hP
    | _ => cases hisArray
  · exact harray e he hP

/-- An assignment below another index leaves a field alone. -/
theorem get_assignAt {i : Option (List Char)} {r : List (Option (List Char))} {name : String}
    (hi : i ≠ some name.toList) (hv : ∀ t, v ≠ .str t) :
    (assignAt (i :: r) x v).get name = v.get name := by
  have harray : (if v.isArray then v else .arr []).get name = v.get name := by
    split_ifs with h
    · rfl
    · cases v with
      | arr es => exact absurd rfl h
      | str s => exact absurd rfl (hv s)
      | _ => rfl
  have hne : ∀ s, (if v.isArray then v else .arr []) ≠ .str s := by
    intro s
    split_ifs with h
    · exact hv s
    · exact Val.noConfusion
  rw [← harray]
  cases i with
  | none => exact Val.idx_set_of_ne _ Key.noConfusion hne
  | some index =>
    apply Val.idx_set_of_ne _ _ hne
    rcases Val.key_str_cases (String.ofList index) with ⟨n, hkey, -⟩ | hkey
    · rw [hkey]
      exact Key.noConfusion
    · rw [hkey]
      intro heq
      apply hi
      rw [Key.str.inj heq, String.toList_ofList]

end Assigning

end Php
end Askozia
