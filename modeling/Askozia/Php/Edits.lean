import Askozia.Php.Loops

/-!
# Changing one place of a value

Edits that leave everything else as it is: `mapAt` changes what is under one key, `mapItems` every
item of an array, `dropItems` takes some items out and leaves the others under their keys. They say
what a sequence of assignments and `unset`s amounts to.
-/

namespace Askozia
namespace Php
namespace Val

/-- Changes the first value under a key. -/
def mapEntry (k : Key) (f : Val → Val) : List (Key × Val) → List (Key × Val)
  | [] => []
  | (k', x) :: r => if k' = k then (k', f x) :: r else (k', x) :: mapEntry k f r

/-- Changes what is under a key, if there is something. -/
def mapAt (k : Key) (f : Val → Val) : Val → Val
  | arr es => arr (mapEntry k f es)
  | v => v

/-- Changes every item of an array. -/
def mapItems (f : Val → Val) : Val → Val
  | arr es => arr (es.map fun e => (e.1, f e.2))
  | v => v

/-- Takes items out of an array. -/
def dropItems (p : Val → Bool) : Val → Val
  | arr es => arr (es.filter fun e => !p e.2)
  | v => v

/-- Takes out what is under a key, if it is to go. -/
def dropAt (k : Key) (p : Val → Bool) : Val → Val
  | arr es => arr (es.filter fun e => !(e.1 == k && p e.2))
  | v => v

section Edits

variable {k k' : Key} {f g : Val → Val} {p : Val → Bool} {es : List (Key × Val)} {v x : Val}

/-- What is found under the key is changed. -/
theorem lookup_mapEntry_self : (mapEntry k f es).lookup k = (es.lookup k).map f := by
  induction es with
  | nil => rfl
  | cons e r ih =>
    obtain ⟨k₁, y⟩ := e
    by_cases h : k₁ = k
    · subst h
      simp [mapEntry]
    · have hne : (k == k₁) = false := by simpa using fun hc => h hc.symm
      rw [mapEntry, if_neg h, List.lookup_cons, List.lookup_cons, hne]
      exact ih

/-- What is found under other keys is not. -/
theorem lookup_mapEntry_of_ne (h : k' ≠ k) : (mapEntry k f es).lookup k' = es.lookup k' := by
  induction es with
  | nil => rfl
  | cons e r ih =>
    obtain ⟨k₁, y⟩ := e
    by_cases h₁ : k₁ = k
    · have hne : (k' == k₁) = false := by simpa [h₁] using h
      rw [mapEntry, if_pos h₁, List.lookup_cons, List.lookup_cons, hne]
    · rw [mapEntry, if_neg h₁, List.lookup_cons, List.lookup_cons, ih]

/-- Only what is found there matters. -/
theorem mapEntry_congr (h : ∀ x, es.lookup k = some x → f x = g x) :
    mapEntry k f es = mapEntry k g es := by
  induction es with
  | nil => rfl
  | cons e r ih =>
    obtain ⟨k₁, y⟩ := e
    by_cases h₁ : k₁ = k
    · subst h₁
      rw [mapEntry, mapEntry, if_pos rfl, if_pos rfl, h y (by simp)]
    · have hne : (k == k₁) = false := by simpa using fun hc => h₁ hc.symm
      rw [mapEntry, mapEntry, if_neg h₁, if_neg h₁, ih]
      intro x hx
      apply h
      rw [List.lookup_cons, hne]
      exact hx

/-- A change that does nothing. -/
theorem mapEntry_id (k : Key) (es : List (Key × Val)) : mapEntry k id es = es := by
  induction es with
  | nil => rfl
  | cons e r ih =>
    obtain ⟨k₁, y⟩ := e
    rw [mapEntry, ih]
    split_ifs
    · rfl
    · rfl

/-- Assigning the changed value is changing it. -/
theorem setEntry_eq_mapEntry (h : es.lookup k = some x) : setEntry k (f x) es = mapEntry k f es := by
  induction es with
  | nil => cases h
  | cons e r ih =>
    obtain ⟨k₁, y⟩ := e
    by_cases h₁ : k₁ = k
    · subst h₁
      simp only [List.lookup_cons, beq_self_eq_true, Option.some.injEq] at h
      rw [setEntry, mapEntry, if_pos rfl, if_pos rfl, h]
    · have hne : (k == k₁) = false := by simpa using fun hc => h₁ hc.symm
      rw [List.lookup_cons, hne] at h
      rw [setEntry, mapEntry, if_neg h₁, if_neg h₁, ih h]

/-- What is read under the key is changed. -/
theorem idx_mapAt_self (hv : ∀ s, v ≠ str s) (hf : f null = null) :
    (v.mapAt k f).idx k = f (v.idx k) := by
  cases v with
  | arr es =>
    rw [mapAt, idx_arr, idx_arr, lookup_mapEntry_self]
    cases es.lookup k with
    | none => exact hf.symm
    | some x => rfl
  | str s => exact absurd rfl (hv s)
  | _ => exact hf.symm

/-- What is read under other keys is not. -/
theorem idx_mapAt_of_ne (h : k' ≠ k) : (v.mapAt k f).idx k' = v.idx k' := by
  cases v with
  | arr es => rw [mapAt, idx_arr, idx_arr, lookup_mapEntry_of_ne h]
  | _ => rfl

/-- Only what is under the key matters. -/
theorem mapAt_congr (h : f (v.idx k) = g (v.idx k)) : v.mapAt k f = v.mapAt k g := by
  cases v with
  | arr es =>
    rw [mapAt, mapAt]
    congr 1
    apply mapEntry_congr
    intro x hx
    rw [idx_arr, hx] at h
    exact h
  | _ => rfl

/-- A change that keeps what is there does nothing. -/
theorem mapAt_eq_self (h : f (v.idx k) = v.idx k) : v.mapAt k f = v := by
  rw [mapAt_congr (g := id) h]
  cases v with
  | arr es => rw [mapAt, mapEntry_id]
  | _ => rfl

/-- Assigning under a key that is there. -/
theorem set_eq_mapAt_of_ne_null (hv : ∀ s, v ≠ str s) (h : v.idx k ≠ null) :
    v.set k (f (v.idx k)) = v.mapAt k f := by
  cases v with
  | arr es =>
    cases hlookup : es.lookup k with
    | none =>
      rw [idx_arr, hlookup] at h
      exact absurd rfl h
    | some x =>
      rw [idx_arr, hlookup, set, mapAt]
      exact congrArg arr (setEntry_eq_mapEntry hlookup)
  | str s => exact absurd rfl (hv s)
  | _ => exact absurd rfl h

/-- Assigning a changed array is changing it. -/
theorem set_eq_mapAt (h : (v.idx k).isArray = true) : v.set k (f (v.idx k)) = v.mapAt k f := by
  apply set_eq_mapAt_of_ne_null
  · rintro s rfl
    cases k with
    | int n => cases h
    | str s => cases h
  · intro hnull
    rw [hnull] at h
    cases h

/-- Two changes under one key are one. -/
theorem mapAt_mapAt (k : Key) (f g : Val → Val) (v : Val) :
    (v.mapAt k f).mapAt k g = v.mapAt k fun x => g (f x) := by
  cases v with
  | arr es =>
    rw [mapAt, mapAt, mapAt]
    congr 1
    induction es with
    | nil => rfl
    | cons e r ih =>
      obtain ⟨k₁, y⟩ := e
      by_cases h : k₁ = k
      · simp [mapEntry, h]
      · simp [mapEntry, h, ih]
  | _ => rfl

/-- Two changes of every item are one. -/
theorem mapItems_mapItems (f g : Val → Val) (v : Val) :
    (v.mapItems f).mapItems g = v.mapItems fun x => g (f x) := by
  cases v with
  | arr es =>
    rw [mapItems, mapItems, mapItems, List.map_map]
    rfl
  | _ => rfl

/-- Only the items matter. -/
theorem mapItems_congr (h : ∀ x ∈ v.vals, f x = g x) : v.mapItems f = v.mapItems g := by
  cases v with
  | arr es =>
    rw [mapItems, mapItems]
    congr 1
    apply List.map_congr_left
    intro e he
    rw [h e.2 (List.mem_map_of_mem he)]
  | _ => rfl

/-- A change keeps the keys. -/
theorem keys_mapEntry : (mapEntry k f es).map Prod.fst = es.map Prod.fst := by
  induction es with
  | nil => rfl
  | cons e r ih =>
    obtain ⟨k₁, y⟩ := e
    rw [mapEntry]
    split_ifs
    · rfl
    · rw [List.map_cons, List.map_cons, ih]

/-- Every entry was there, or is the changed one. -/
theorem mem_mapEntry {e : Key × Val} (h : e ∈ mapEntry k f es) :
    e ∈ es ∨ ∃ x, (k, x) ∈ es ∧ e = (k, f x) := by
  induction es with
  | nil => cases h
  | cons e' r ih =>
    obtain ⟨k₁, y⟩ := e'
    by_cases hk : k₁ = k
    · subst hk
      rw [mapEntry, if_pos rfl] at h
      rcases List.mem_cons.1 h with h | h
      · exact .inr ⟨y, List.mem_cons_self, h⟩
      · exact .inl (List.mem_cons_of_mem _ h)
    · rw [mapEntry, if_neg hk] at h
      rcases List.mem_cons.1 h with h | h
      · exact .inl (h ▸ List.mem_cons_self)
      · rcases ih h with hr | ⟨x, hx, he⟩
        · exact .inl (List.mem_cons_of_mem _ hr)
        · exact .inr ⟨x, List.mem_cons_of_mem _ hx, he⟩

/-- Dropping a key leaves the others. -/
theorem lookup_filter_ne (h : k' ≠ k) :
    (es.filter fun e => e.1 != k).lookup k' = es.lookup k' := by
  induction es with
  | nil => rfl
  | cons e r ih =>
    obtain ⟨k₁, y⟩ := e
    by_cases hk : k₁ = k
    · have hne : (k' == k₁) = false := by simpa [hk] using h
      rw [List.filter_cons_of_neg (by simpa using hk), List.lookup_cons, hne]
      exact ih
    · rw [List.filter_cons_of_pos (by simpa using hk), List.lookup_cons, List.lookup_cons, ih]

/-- Changing the items of a list gives the list of changed items. -/
theorem mapItems_ofList (f : Val → Val) (xs : List Val) :
    (ofList xs).mapItems f = ofList (xs.map f) := by
  rw [ofList, mapItems, ofList, List.zipIdx_map, List.map_map, List.map_map]
  rfl

/-- Its elements are changed one by one. -/
theorem vals_mapItems (f : Val → Val) (v : Val) : (v.mapItems f).vals = v.vals.map f := by
  cases v with
  | arr es =>
    show (es.map fun e => (e.1, f e.2)).map Prod.snd = (es.map Prod.snd).map f
    rw [List.map_map, List.map_map]
    rfl
  | _ => rfl

/-- Dropping items keeps the others in order. -/
theorem vals_dropItems (p : Val → Bool) (v : Val) :
    (v.dropItems p).vals = v.vals.filter fun x => !p x := by
  cases v with
  | arr es =>
    show (es.filter fun e => !p e.2).map Prod.snd = (es.map Prod.snd).filter fun x => !p x
    rw [List.filter_map]
    rfl
  | _ => rfl

/-- Only the items matter. -/
theorem dropItems_congr {q : Val → Bool} (h : ∀ x ∈ v.vals, p x = q x) :
    v.dropItems p = v.dropItems q := by
  cases v with
  | arr es =>
    rw [dropItems, dropItems]
    congr 1
    apply List.filter_congr
    intro e he
    rw [h e.2 (List.mem_map_of_mem he)]
  | _ => rfl

/-- Dropping none changes nothing. -/
theorem dropItems_eq_self (h : ∀ x ∈ v.vals, p x = false) : v.dropItems p = v := by
  cases v with
  | arr es =>
    rw [dropItems]
    congr 1
    rw [List.filter_eq_self]
    intro e he
    rw [h e.2 (List.mem_map_of_mem he)]
    rfl
  | _ => rfl

/-- The loop that unsets items of a list. -/
theorem unsetIf_eq_dropItems (p : Val → Bool) (xs : List Val) :
    (ofList xs).unsetIf p = (ofList xs).dropItems p := unsetIf_ofList xs

/-- Unsetting one offset of a list. -/
theorem unset_ofList {xs : List Val} {i : ℕ} (hp : ∀ j (hj : j < xs.length), p xs[j] = decide (j = i)) :
    (ofList xs).unset (.int i) = (ofList xs).dropItems p := by
  rw [ofList, unset, dropItems]
  congr 1
  apply List.filter_congr
  intro e he
  obtain ⟨⟨x, j⟩, hmem, rfl⟩ := List.mem_map.1 he
  obtain ⟨hj, rfl⟩ := List.mk_mem_zipIdx_iff_getElem?.1 hmem |> List.getElem?_eq_some_iff.1
  rw [hp j hj]
  by_cases hji : j = i
  · simp [hji]
  · have hcast : (j : ℤ) ≠ i := by omega
    simp [hji, hcast]

end Edits

end Val
/-! ## Fields that are unset -/

/-- A field that is unset leaves the others. -/
theorem get_unset_of_ne (v : Val) {field other : String} (hne : other ≠ field) :
    (v.unset (.str field)).get other = v.get other := by
  cases v with
  | arr es =>
    have hkey : Key.str other ≠ .str field := fun hk => hne (Key.str.inj hk)
    show ((es.filter fun x => x.1 != .str field).lookup (.str other)).getD .null = _
    rw [Val.lookup_filter_ne hkey]
    rfl
  | _ => rfl

/-- It is gone. -/
theorem get_unset_self {e : Val} (harray : e.isArray = true) (field : String) :
    (e.unset (.str field)).get field = .null := by
  cases e with
  | arr es =>
    show ((es.filter fun x => x.1 != .str field).lookup (.str field)).getD .null = _
    rw [Val.lookup_eq_none]
    · rfl
    · intro hmem
      obtain ⟨x, hx, hkey⟩ := List.mem_map.1 hmem
      have hother := (List.mem_filter.1 hx).2
      rw [hkey] at hother
      simp at hother
  | _ => cases harray

end Php
end Askozia
