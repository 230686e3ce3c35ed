import Askozia.Php.Value
import Mathlib.Data.List.Induction
import Mathlib.Data.List.Nodup

/-!
# Loops over the offsets of an array

`for ($i = 0; $i < $n; $i++)` over `$v[$i]`, where `$n = count($v)` is taken before the loop. Two
such loops are common: one that unsets some of the items, and one that assigns to some of them.
On a proper list the first is a filter and the second a map (`unsetIf_ofList`,
`updateEach_ofList`); on an array with gaps both miss the items at the end.
-/

namespace Askozia
namespace Php
namespace Val

/-- `for ($i = 0; $i < $n; $i++) ...` on a variable. -/
def forIndex (n : ℕ) (body : ℕ → Val → Val) (v : Val) : Val :=
  (List.range n).foldl (fun v i => body i v) v

/-- `if (p($v[$i])) unset($v[$i]);` for every offset. -/
def unsetIf (p : Val → Bool) (v : Val) : Val :=
  forIndex v.count (fun i v => if p (v.idx (.int i)) then v.unset (.int i) else v) v

/-- `$v[$i] = f($v[$i])` for every offset where `f` assigns. -/
def updateEach (f : Val → Option Val) (v : Val) : Val :=
  forIndex v.count
    (fun i v =>
      match f (v.idx (.int i)) with
      | some x => v.set (.int i) x
      | none => v) v

theorem forIndex_succ (n : ℕ) (body : ℕ → Val → Val) (v : Val) :
    forIndex (n + 1) body v = body n (forIndex n body v) := by
  rw [forIndex, List.range_succ, List.foldl_append]
  rfl

/-! ## Removing items -/

section Unset

variable {p : Val → Bool} {es : List (Key × Val)}

/-- Unsetting what is under one key, if it is to go. -/
theorem unset_eq_filter (hn : (es.map Prod.fst).Nodup) (k : Key) :
    (if p ((arr es).idx k) then (arr es).unset k else arr es) =
      arr (es.filter fun e => !(e.1 == k && p e.2)) := by
  have hval : ∀ e ∈ es, e.1 = k → e.2 = (arr es).idx k := by
    rintro ⟨k', x⟩ he rfl
    rw [idx_arr, lookup_of_mem hn he]
    rfl
  by_cases hp : p ((arr es).idx k) = true
  · rw [if_pos hp, unset]
    congr 1
    apply List.filter_congr
    intro e he
    by_cases hk : e.1 = k
    · simp [hk, hval e he hk, hp]
    · simp [hk, bne]
  · rw [if_neg hp]
    congr 1
    symm
    rw [List.filter_eq_self]
    intro e he
    by_cases hk : e.1 = k
    · simp [hk, hval e he hk, hp]
    · simp [hk]

/-- The loop up to an offset. -/
theorem forIndex_unset (hn : (es.map Prod.fst).Nodup) (n : ℕ) :
    forIndex n (fun i v => if p (v.idx (.int i)) then v.unset (.int i) else v) (arr es) =
      arr (es.filter fun e => !((List.range n).any (fun i => e.1 == .int i) && p e.2)) := by
  induction n with
  | zero =>
    have hall : (es.filter fun e => !((List.range 0).any (fun i => e.1 == .int i) && p e.2)) = es := by
      simp
    rw [hall]
    rfl
  | succ n ih =>
    have hsub : ((es.filter fun e =>
        !((List.range n).any (fun i => e.1 == .int i) && p e.2)).map Prod.fst).Nodup :=
      hn.sublist (List.filter_sublist.map Prod.fst)
    rw [forIndex_succ, ih, unset_eq_filter hsub, List.filter_filter]
    congr 2
    funext e
    rw [List.range_succ, List.any_append]
    cases (List.range n).any (fun i => e.1 == Key.int i) <;> cases p e.2 <;> simp

/-- On a proper list the loop is a filter that leaves gaps. -/
theorem unsetIf_ofList (xs : List Val) :
    unsetIf p (ofList xs) = arr ((ofList xs).entries.filter fun e => !p e.2) := by
  have hkeys : (ofList xs).entries.map Prod.fst = (List.range xs.length).map fun i : ℕ => Key.int i := by
    rw [ofList_entries, List.map_map, List.zipIdx_eq_zip_range', List.range_eq_range']
    apply List.ext_getElem
    · simp
    · intro i h₁ h₂
      simp
  have hn : ((ofList xs).entries.map Prod.fst).Nodup := by
    rw [hkeys]
    refine List.Nodup.map ?_ List.nodup_range
    intro i j hij
    simp only [Key.int.injEq] at hij
    omega
  rw [unsetIf, ofList_count]
  show forIndex xs.length _ (arr (ofList xs).entries) = _
  rw [forIndex_unset hn]
  congr 1
  apply List.filter_congr
  intro e he
  have hmem : e.1 ∈ (ofList xs).entries.map Prod.fst := List.mem_map_of_mem he
  rw [hkeys] at hmem
  obtain ⟨i, hi, hk⟩ := List.mem_map.1 hmem
  have hany : (List.range xs.length).any (fun i => e.1 == Key.int i) = true :=
    List.any_eq_true.2 ⟨i, hi, by simp [hk]⟩
  rw [hany, Bool.true_and]

end Unset

/-! ## Assigning to items -/

/-- Assigning to an item of a list. -/
theorem set_ofList {xs : List Val} {i : ℕ} (hi : i < xs.length) (x : Val) :
    (ofList xs).set (.int i) x = ofList (xs.set i x) := by
  have hset : ∀ (xs : List Val) (m i : ℕ), i < xs.length →
      setEntry (.int (m + i : ℕ)) x ((xs.zipIdx m).map fun p => ((.int p.2, p.1) : Key × Val)) =
        ((xs.set i x).zipIdx m).map fun p => ((.int p.2, p.1) : Key × Val) := by
    intro xs
    induction xs with
    | nil => exact fun _ _ h => absurd h (Nat.not_lt_zero _)
    | cons y r ih =>
      intro m i hi
      cases i with
      | zero => simp [setEntry]
      | succ i =>
        have hne : Key.int (m : ℕ) ≠ Key.int (m + (i + 1) : ℕ) := by
          simp only [ne_eq, Key.int.injEq]
          omega
        have hr : i < r.length := by simpa using hi
        have hi' : m + (i + 1) = m + 1 + i := by omega
        simp only [List.zipIdx_cons, List.map_cons, List.set_cons_succ, setEntry, if_neg hne]
        rw [hi', ih (m + 1) i hr]
  have h := hset xs 0 i hi
  rw [Nat.zero_add] at h
  rw [set, ofList_entries, h, ofList]

/-- On a proper list the loop is a map. -/
theorem updateEach_ofList (f : Val → Option Val) (xs : List Val) :
    updateEach f (ofList xs) = ofList (xs.map fun x => (f x).getD x) := by
  -- before round `n` the first `n` values are updated
  have hloop : ∀ n ≤ xs.length, forIndex n
      (fun i v =>
        match f (v.idx (.int i)) with
        | some x => v.set (.int i) x
        | none => v) (ofList xs) =
      ofList ((xs.take n).map (fun x => (f x).getD x) ++ xs.drop n) := by
    intro n
    induction n with
    | zero =>
      intro _
      rw [List.take_zero, List.drop_zero]
      rfl
    | succ n ih =>
      intro hn
      have hlt : n < xs.length := by omega
      have hlen : ((xs.take n).map fun x => (f x).getD x).length = n := by
        rw [List.length_map, List.length_take]
        omega
      rw [forIndex_succ, ih (by omega), idx_ofList, List.getElem?_append_right (Nat.le_of_eq hlen), hlen,
        Nat.sub_self, List.take_succ_eq_append_getElem hlt, List.map_append,
        List.drop_eq_getElem_cons hlt]
      simp only [List.getElem?_cons_zero, Option.getD_some, List.map_singleton]
      cases hf : f xs[n] with
      | none =>
        simp only [Option.getD_none]
        rw [List.append_assoc]
        rfl
      | some y =>
        simp only [Option.getD_some]
        rw [set_ofList (by simp; omega), List.set_append_right _ _ (Nat.le_of_eq hlen), hlen, Nat.sub_self,
          List.set_cons_zero, List.append_assoc]
        rfl
  rw [updateEach, ofList_count, hloop _ (Nat.le_refl _), List.take_length, List.drop_length,
    List.append_nil]

/-! ## Adding items -/

theorem nextIndex_ofList (xs : List Val) : nextIndex (ofList xs).entries = xs.length := by
  induction xs using List.reverseRecOn with
  | nil => rfl
  | append_singleton r x ih =>
    rw [ofList_entries] at ih ⊢
    unfold nextIndex at ih ⊢
    rw [List.zipIdx_append, List.map_append, List.foldl_append, ih]
    simp only [List.zipIdx_singleton, List.map_cons, List.map_nil, List.foldl_cons, List.foldl_nil,
      List.length_append, List.length_singleton]
    omega

/-- `$v[] = $x` on a list. -/
theorem push_ofList (x : Val) (xs : List Val) : (ofList xs).push x = .ofList (xs ++ [x]) := by
  rw [push, nextIndex_ofList, ← ofList_append, ofList_count]

/-- The next integer key is greater than the ones that are there. -/
theorem lt_nextIndex {es : List (Key × Val)} {i : ℤ} (h : Key.int i ∈ es.map Prod.fst) : i < nextIndex es := by
  -- the fold takes the largest int key; the function is general so that it stays folded
  have hfold : ∀ (next : ℤ → Key × Val → ℤ),
      (∀ n i x, next n (.int i, x) = max n (i + 1)) → (∀ n s x, next n (.str s, x) = n) →
      ∀ (es : List (Key × Val)) (n : ℤ), n ≤ es.foldl next n ∧
        ∀ e ∈ es, ∀ i, e.1 = .int i → i < es.foldl next n := by
    intro next hint hstr es
    induction es with
    | nil =>
      intro n
      refine ⟨Int.le_refl n, ?_⟩
      intro e he
      cases he
    | cons e r ih =>
      intro n
      obtain ⟨k, x⟩ := e
      rw [List.foldl_cons]
      cases k with
      | str s =>
        rw [hstr]
        refine ⟨(ih n).1, ?_⟩
        intro e he i hi
        rcases List.mem_cons.1 he with rfl | hr
        · cases hi
        · exact (ih n).2 e hr i hi
      | int j =>
        rw [hint]
        have hrest := ih (max n (j + 1))
        refine ⟨Int.le_trans (Int.le_max_left _ _) hrest.1, ?_⟩
        intro e he i hi
        rcases List.mem_cons.1 he with rfl | hr
        · have hmax := Int.le_max_right n (j + 1)
          have hji : j = i := Key.int.inj hi
          exact Int.lt_of_lt_of_le (by omega) (Int.le_trans hmax hrest.1)
        · exact hrest.2 e hr i hi
  obtain ⟨e, he, hi⟩ := List.mem_map.1 h
  exact (hfold _ (fun _ _ _ => rfl) (fun _ _ _ => rfl) es 0).2 e he i hi

/-- A value is appended after the others. -/
theorem vals_push {v : Val} (x : Val) (h : v.isArray = true ∨ v = .null) :
    (v.push x).vals = v.vals ++ [x] := by
  have harr : ∀ es : List (Key × Val), ((arr es).push x).vals = (arr es).vals ++ [x] := by
    intro es
    have hnot : Key.int (nextIndex es) ∉ es.map Prod.fst := by
      intro hmem
      exact absurd (lt_nextIndex hmem) (Int.lt_irrefl _)
    show (setEntry (.int (nextIndex es)) x es).map Prod.snd = _
    rw [setEntry_of_not_mem hnot, List.map_append]
    rfl
  rcases h with h | rfl
  · cases v with
    | arr es => exact harr es
    | _ => cases h
  · rfl

/-! ## Grouping -/

section Grouping

variable {γ : Type*}

/-- Writing under a key of what is listed by class changes the value of one class. -/
theorem setEntry_map [DecidableEq γ] {key : γ → Key} {f : γ → Val} {cs : List γ} {c : γ} (x : Val)
    (hinj : ∀ c' ∈ cs, key c' = key c → c' = c) (hnodup : cs.Nodup) (hc : c ∈ cs) :
    setEntry (key c) x (cs.map fun c' => (key c', f c')) =
      cs.map fun c' => (key c', if c' = c then x else f c') := by
  induction cs with
  | nil => cases hc
  | cons a r ih =>
    rw [List.nodup_cons] at hnodup
    have hr : ∀ c' ∈ r, key c' = key c → c' = c := fun c' hc' => hinj c' (List.mem_cons_of_mem _ hc')
    by_cases ha : a = c
    · subst ha
      have hrest : ∀ c' ∈ r, (key c', if c' = a then x else f c') = (key c', f c') := by
        intro c' hc'
        have hne : c' ≠ a := fun heq => hnodup.1 (heq ▸ hc')
        rw [if_neg hne]
      rw [List.map_cons, List.map_cons, setEntry, if_pos rfl, if_pos rfl, List.map_congr_left hrest]
    · have hkey : key a ≠ key c := fun heq => ha (hinj a List.mem_cons_self heq)
      have hmem : c ∈ r := (List.mem_cons.1 hc).resolve_left (Ne.symm ha)
      rw [List.map_cons, List.map_cons, setEntry, if_neg hkey, if_neg ha, ih hr hnodup.2 hmem]

theorem nodup_eraseDups [BEq γ] [LawfulBEq γ] (cs : List γ) : cs.eraseDups.Nodup := by
  induction hn : cs.length using Nat.strongRecOn generalizing cs with
  | _ n ih =>
    cases cs with
    | nil => exact List.nodup_nil
    | cons c r =>
      have hlength : (r.filter fun c' => !c' == c).length < n := by
        have hle := List.length_filter_le (fun c' => !c' == c) r
        rw [← hn, List.length_cons]
        omega
      rw [List.eraseDups_cons, List.nodup_cons, List.mem_eraseDups, List.mem_filter]
      exact ⟨fun h => by simp at h, ih _ hlength _ rfl⟩

theorem eraseDups_concat [BEq γ] [LawfulBEq γ] (cs : List γ) (c : γ) :
    (cs ++ [c]).eraseDups = if c ∈ cs.eraseDups then cs.eraseDups else cs.eraseDups ++ [c] := by
  rw [List.eraseDups_append]
  by_cases hc : c ∈ cs
  · simp [List.removeAll, hc]
  · simp [List.removeAll, hc, List.eraseDups_cons]

theorem lookup_map [DecidableEq γ] {key : γ → Key} {f : γ → Val} {cs : List γ} {c : γ}
    (hinj : ∀ c' ∈ cs, key c' = key c → c' = c) (hnodup : cs.Nodup) (hc : c ∈ cs) :
    (cs.map fun c' => (key c', f c')).lookup (key c) = some (f c) := by
  have hset := setEntry_map (f := f) (f c) hinj hnodup hc
  have hsame : (cs.map fun c' => (key c', if c' = c then f c else f c')) = cs.map fun c' => (key c', f c') := by
    apply List.map_congr_left
    intro c' _
    by_cases heq : c' = c
    · rw [if_pos heq, heq]
    · rw [if_neg heq]
  rw [← hsame, ← hset]
  exact lookup_setEntry_self

/-- `foreach ($ms as $m) $v[$k][] = $x;` puts the values under the key of their class, in the order
of the loop. -/
theorem foldl_group [DecidableEq γ] [BEq γ] [LawfulBEq γ] (cls : Val → γ) (key : γ → Key) (value : Val → Val) (ms : List Val)
    (hinj : ∀ a ∈ ms, ∀ b ∈ ms, key (cls a) = key (cls b) → cls a = cls b) :
    ms.foldl (fun v m => v.set (key (cls m)) ((v.idx (key (cls m))).push (value m))) (arr []) =
      arr ((ms.map cls).eraseDups.map fun c =>
        (key c, ofList ((ms.filter (cls · == c)).map value))) := by
  -- from the end: one more value joins its class or opens one
  induction ms using List.reverseRecOn with
  | nil => rfl
  | append_singleton ms m ih =>
    have ih := ih fun a ha b hb => hinj a (List.mem_append_left _ ha) b (List.mem_append_left _ hb)
    have hseen : ∀ c ∈ (ms.map cls).eraseDups, key c = key (cls m) → c = cls m := by
      intro c hc hkey
      obtain ⟨a, ha, rfl⟩ := List.mem_map.1 (List.mem_eraseDups.1 hc)
      exact hinj a (List.mem_append_left _ ha) m (List.mem_append_right _ List.mem_cons_self) hkey
    have hgroup : ∀ c, ((ms ++ [m]).filter (cls · == c)).map value =
        (ms.filter (cls · == c)).map value ++ if cls m = c then [value m] else [] := by
      intro c
      rw [List.filter_append, List.map_append]
      congr 1
      by_cases hc : cls m = c
      · simp [hc]
      · simp [hc]
    rw [List.foldl_append, List.foldl_cons, List.foldl_nil, ih, List.map_append, List.map_singleton, eraseDups_concat]
    generalize hcs : (ms.map cls).eraseDups = cs at hseen
    show arr (setEntry (key (cls m)) _ (cs.map _)) = _
    by_cases hmem : cls m ∈ cs
    · -- the class is there: its values get one more
      have hnodup : cs.Nodup := by
        rw [← hcs]
        exact nodup_eraseDups _
      rw [idx_arr, lookup_map hseen hnodup hmem, Option.getD_some, push_ofList,
        setEntry_map _ hseen hnodup hmem, if_pos hmem]
      congr 1
      apply List.map_congr_left
      intro c _
      by_cases hc : c = cls m
      · rw [hgroup, if_pos hc, hc, if_pos rfl]
      · rw [hgroup, if_neg hc, if_neg (Ne.symm hc), List.append_nil]
    · -- the class is new
      have hfresh : key (cls m) ∉ (cs.map fun c =>
          (key c, ofList ((ms.filter (cls · == c)).map value))).map Prod.fst := by
        intro hkey
        rw [List.map_map] at hkey
        obtain ⟨c, hc, heq⟩ := List.mem_map.1 hkey
        exact hmem (hseen c hc heq ▸ hc)
      have hempty : ms.filter (cls · == cls m) = [] := by
        rw [List.filter_eq_nil_iff]
        intro a ha heq
        exact hmem (hcs ▸ List.mem_eraseDups.2 (List.mem_map.2 ⟨a, ha, beq_iff_eq.1 heq⟩))
      rw [idx_arr, lookup_eq_none hfresh, setEntry_of_not_mem hfresh, if_neg hmem, List.map_append, List.map_singleton, hgroup (cls m), if_pos rfl, hempty]
      have hkept : (cs.map fun c => (key c, ofList (((ms ++ [m]).filter (cls · == c)).map value))) =
          cs.map fun c => (key c, ofList ((ms.filter (cls · == c)).map value)) := by
        apply List.map_congr_left
        intro c hc
        have hne : cls m ≠ c := fun heq => hmem (heq ▸ hc)
        rw [hgroup, if_neg hne, List.append_nil]
      rw [hkept]
      rfl

end Grouping
end Val
end Php
end Askozia
