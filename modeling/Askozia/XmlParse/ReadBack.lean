import Askozia.XmlParse.Normal

/-!
# Elements that are written and read back

`write_config` writes the configuration and reads it again. What a posted element is after that can
be said field by field: `false` is not written, and every text becomes what it reads as.

* `rereadSub_readBack`: writing an element and reading it back gives the same as writing and reading
  back that one, with every text as it is.
-/

namespace Askozia
namespace XmlParse

open Php

/-- `$v === false` -/
def isFalse : Val → Bool
  | .bool false => true
  | _ => false

mutual

/-- A value after it was written and read back, where a text `s` reads as `g s`. -/
def readBack (g : String → String) : Val → Val
  | .arr es => .arr (readBackSub g es)
  | .bool _ => .str (g "")
  | .null => .str (g "")
  | .int n => .str (g (toString n))
  | .str s => .str (g s)

/-- The same for the entries of an array. -/
def readBackSub (g : String → String) : List (Key × Val) → List (Key × Val)
  | [] => []
  | (k, v) :: r => if isFalse v then readBackSub g r else (k, readBack g v) :: readBackSub g r

end

/-- A value that is not an array, after it was written and read back. -/
theorem rereadScalar_readBack (g : String → String) (ent : String) {x : Val} (hx : x.isArray = false)
    (hfalse : isFalse x = false) : rereadScalar g ent x = rereadScalar id ent (readBack g x) := by
  funext v
  cases x with
  | arr es => cases hx
  | bool b =>
    cases b with
    | false => cases hfalse
    | true =>
      rw [readBack]
      rfl
  | _ =>
    rw [readBack]
    rfl

theorem isArray_readBack (g : String → String) (x : Val) : (readBack g x).isArray = x.isArray := by
  cases x <;> rw [readBack] <;> rfl

theorem eq_false_of_isFalse {x : Val} (h : isFalse x = true) : x = .bool false := by
  cases x with
  | bool b =>
    cases b with
    | false => rfl
    | true => cases h
  | _ => cases h

mutual

/-- Writing and reading back is the same for what was read back already. -/
theorem rereadSub_readBack (g : String → String) : ∀ es : List (Key × Val),
    rereadSub g es = rereadSub id (readBackSub g es)
  | [] => by
    rw [readBackSub, rereadSub_nil, rereadSub_nil]
  | (k, x) :: r => by
    rw [readBackSub, rereadSub_cons]
    split_ifs with hfalse
    · rw [eq_false_of_isFalse hfalse, rereadEnt_scalar rfl, ← rereadSub_readBack g r]
      rfl
    · rw [rereadSub_cons, rereadEnt_readBack g x k.toStr (by simpa using hfalse),
        rereadSub_readBack g r]

theorem rereadEnt_readBack (g : String → String) : ∀ (x : Val) (ent : String), isFalse x = false →
    rereadEnt g ent x = rereadEnt id ent (readBack g x)
  | .arr es, ent, _ => by
    rw [readBack, rereadEnt_arr, rereadEnt_arr, rereadItems_readBack g es ent, rereadSub_readBack g es]
  | .null, ent, h => by
    rw [rereadEnt_scalar rfl, rereadEnt_scalar (isArray_readBack g _), rereadScalar_readBack g ent rfl h]
  | .bool b, ent, h => by
    rw [rereadEnt_scalar rfl, rereadEnt_scalar (isArray_readBack g _), rereadScalar_readBack g ent rfl h]
  | .int n, ent, h => by
    rw [rereadEnt_scalar rfl, rereadEnt_scalar (isArray_readBack g _), rereadScalar_readBack g ent rfl h]
  | .str s, ent, h => by
    rw [rereadEnt_scalar rfl, rereadEnt_scalar (isArray_readBack g _), rereadScalar_readBack g ent rfl h]

theorem rereadItems_readBack (g : String → String) : ∀ (es : List (Key × Val)) (ent : String),
    rereadItems g ent es = rereadItems id ent (readBackSub g es)
  | [], ent => by
    rw [readBackSub, rereadItems_nil, rereadItems_nil]
  | (k, x) :: r, ent => by
    rw [readBackSub, rereadItems_cons]
    split_ifs with hfalse
    · rw [eq_false_of_isFalse hfalse, rereadItem_scalar rfl, ← rereadItems_readBack g r ent]
      rfl
    · rw [rereadItems_cons, rereadItem_readBack g x ent (by simpa using hfalse),
        rereadItems_readBack g r ent]

theorem rereadItem_readBack (g : String → String) : ∀ (x : Val) (ent : String), isFalse x = false →
    rereadItem g ent x = rereadItem id ent (readBack g x)
  | .arr es, ent, _ => by
    rw [readBack, rereadItem_arr, rereadItem_arr, rereadSub_readBack g es]
  | .null, ent, h => by
    rw [rereadItem_scalar rfl, rereadItem_scalar (isArray_readBack g _), rereadScalar_readBack g ent rfl h]
  | .bool b, ent, h => by
    rw [rereadItem_scalar rfl, rereadItem_scalar (isArray_readBack g _), rereadScalar_readBack g ent rfl h]
  | .int n, ent, h => by
    rw [rereadItem_scalar rfl, rereadItem_scalar (isArray_readBack g _), rereadScalar_readBack g ent rfl h]
  | .str s, ent, h => by
    rw [rereadItem_scalar rfl, rereadItem_scalar (isArray_readBack g _), rereadScalar_readBack g ent rfl h]

end

/-! ## Fields -/

section Fields

variable {g : String → String} {es : List (Key × Val)} {k : Key} {x : Val}

theorem lookup_readBackSub (h : es.lookup k = some x) (hx : isFalse x = false) :
    (readBackSub g es).lookup k = some (readBack g x) := by
  induction es with
  | nil => cases h
  | cons e r ih =>
    obtain ⟨k', y⟩ := e
    by_cases hk : k = k'
    · subst hk
      simp only [List.lookup_cons, beq_self_eq_true, Option.some.injEq] at h
      subst h
      rw [readBackSub, if_neg (by simp [hx]), List.lookup_cons, beq_self_eq_true]
    · have hne : (k == k') = false := by simpa using hk
      rw [List.lookup_cons, hne] at h
      rw [readBackSub]
      split_ifs
      · exact ih h
      · rw [List.lookup_cons, hne]
        exact ih h

theorem keys_readBackSub (h : k ∈ (readBackSub g es).map Prod.fst) : k ∈ es.map Prod.fst := by
  induction es with
  | nil => rwa [readBackSub] at h
  | cons e r ih =>
    obtain ⟨k', y⟩ := e
    rw [readBackSub] at h
    rw [List.map_cons, List.mem_cons]
    split_ifs at h
    · exact .inr (ih h)
    · rw [List.map_cons, List.mem_cons] at h
      exact h.imp id ih

/-- A text of an element reads as it reads alone. -/
theorem get_readBack {e : Val} {field s : String} (he : e.isArray = true) (h : e.get field = .str s) :
    (readBack g e).get field = .str (g s) := by
  cases e with
  | arr es =>
    rw [Val.get, Val.idx_arr] at h
    have hlookup : es.lookup (.str field) = some (.str s) := by
      cases hx : es.lookup (.str field) with
      | none =>
        rw [hx] at h
        cases h
      | some x =>
        rw [hx] at h
        exact congrArg some h
    rw [readBack, Val.get, Val.idx_arr, lookup_readBackSub hlookup rfl, readBack]
    rfl
  | _ => cases he

/-- A key that is written as `false` only is not there afterwards. -/
theorem lookup_readBackSub_false (hn : (es.map Prod.fst).Nodup) (h : es.lookup k = some (.bool false)) :
    (readBackSub g es).lookup k = none := by
  induction es with
  | nil => cases h
  | cons e r ih =>
    obtain ⟨k', y⟩ := e
    rw [List.map_cons, List.nodup_cons] at hn
    rw [readBackSub]
    by_cases hk : k = k'
    · subst hk
      simp only [List.lookup_cons, beq_self_eq_true, Option.some.injEq] at h
      subst h
      rw [if_pos (show isFalse (.bool false) = true from rfl)]
      apply Val.lookup_eq_none
      intro hmem
      exact hn.1 (keys_readBackSub hmem)
    · have hne : (k == k') = false := by simpa using hk
      rw [List.lookup_cons, hne] at h
      split_ifs
      · exact ih hn.2 h
      · rw [List.lookup_cons, hne]
        exact ih hn.2 h

/-- A box of a form is there afterwards if it is checked. -/
theorem isset_readBack {field : String} {b : Bool} (hn : (es.map Prod.fst).Nodup)
    (h : es.lookup (.str field) = some (.bool b)) :
    ((readBack g (.arr es)).get field).isset = b := by
  rw [readBack, Val.get, Val.idx_arr]
  cases b with
  | false =>
    rw [lookup_readBackSub_false hn h]
    rfl
  | true =>
    rw [lookup_readBackSub h rfl, readBack]
    rfl

/-- An element with a text in it is not empty. -/
theorem truthy_readBack {e : Val} (field : String) {s : String} (he : e.isArray = true) (h : e.get field = .str s) :
    (readBack g e).truthy = true := by
  have hget := get_readBack (g := g) he h
  cases e with
  | arr es =>
    rw [readBack] at hget ⊢
    cases hsub : readBackSub g es with
    | nil =>
      rw [hsub] at hget
      cases hget
    | cons a r => rfl
  | _ => cases he

end Fields

end XmlParse
end Askozia
