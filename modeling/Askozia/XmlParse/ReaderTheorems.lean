import Askozia.XmlParse.Reader

/-!
# What the reader computes

The handlers rebuild the path into `$xml_array` on every event and count `$havedata` to
recognise empty elements. This file shows that over the events of a whole element they
compute a value by recursion on the element:

* `read` is that recursion. It threads the value of one element through its content and
  never looks at the rest of the tree, at `$depth` or at `$havedata`;
* `handleAll_events` is the simulation: running the handlers over a content changes the
  tree at `$curpath` and nowhere else, and changes it to what `read` says.
-/

namespace Askozia
namespace XmlParse

open Php Xml

/-! ## Array updates -/

section Arrays

variable {k k' : Key} {v w x : Val}

/-- What was assigned is read back. -/
@[simp] theorem look_set_self : look k (v.set k w) = w := by
  rw [Val.set, look, Val.lookup_setEntry_self, Option.getD_some]

/-- An assignment leaves the other keys. -/
theorem look_set_of_ne (h : k' ≠ k) : look k' (v.set k w) = look k' v := by
  rw [Val.set, look, Val.lookup_setEntry_of_ne h]
  cases v <;> rfl

/-- The last assignment under a key counts. -/
@[simp] theorem set_set : (v.set k x).set k w = v.set k w := by
  rw [Val.set, Val.set, Val.set, Val.entries, Val.setEntry_setEntry]

/-- What was assigned to can be read into. -/
@[simp] theorem opens_set : opens (v.set k w) = true := rfl

/-- What was assigned to is there. -/
@[simp] theorem set_ne_null : v.set k w ≠ .null := by simp [Val.set]

/-- Writing back what was read changes nothing, if there was something. -/
theorem set_look (h : look k v ≠ .null) : v.set k (look k v) = v := by
  cases v with
  | arr es =>
    cases hl : es.lookup k with
    | none => simp [look, hl] at h
    | some x => simp [look, hl, Val.set, Val.entries, Val.setEntry_of_lookup hl]
  | _ => simp [look] at h

/-- It counts as true. -/
theorem truthy_set : (v.set k w).truthy = true := by
  rw [Val.set, Val.truthy, Bool.not_eq_true', List.isEmpty_eq_false_iff]
  exact Val.setEntry_ne_nil

/-- A value that something was read from can be read into. -/
theorem opens_of_look (h : look k v ≠ .null) : opens v = true := by
  cases v <;> simp_all [look, opens]

end Arrays

/-! ## Paths -/

/-- Writes a value at the end of a path. -/
def put (p : List Key) (w : Val) (t : Val) : Except Die Val := followPath p (fun _ => .ok w) t

/-- The path can be walked: it does not run into a string. -/
def Reaches (p : List Key) (t : Val) : Prop := ∃ t', put p .null t = .ok t'

section Paths

variable {p q : List Key} {k : Key} {t t' v w x : Val} {f : Val → Except Die Val}

/-- Changing what is under a key of such a value changes nothing else. -/
theorem follow_of_opens (h : opens v = true) : follow k f v = (v.set k ·) <$> f (look k v) := by
  rw [follow, if_pos h]
  rfl

/-- A path can be followed key by key. -/
theorem reaches_cons (h : Reaches (k :: p) t) : opens t = true ∧ Reaches p (look k t) := by
  obtain ⟨t', h⟩ := h
  rw [put, followPath, follow] at h
  split at h
  · next ho =>
    cases hp : followPath p (fun _ => .ok .null) (look k t) with
    | error e => rw [hp] at h; cases h
    | ok u => exact ⟨ho, u, hp⟩
  · cases h

/-- A walk is a read, a computation and a write. -/
theorem followPath_eq (h : Reaches p t) : followPath p f t = f (valueAt p t) >>= (put p · t) := by
  induction p generalizing t with
  | nil =>
    cases hf : f t with
    | error e => simp [followPath, valueAt, hf]; rfl
    | ok w => simp [followPath, valueAt, hf, put]; rfl
  | cons k p ih =>
    obtain ⟨ho, hr⟩ := reaches_cons h
    rw [followPath, follow_of_opens ho, ih hr, valueAt]
    cases f (valueAt p (look k t)) with
    | error e => rfl
    | ok w =>
      show (t.set k ·) <$> put p w (look k t) = put (k :: p) w t
      rw [put, put, followPath, follow_of_opens ho]

/-- Writing at the end of a path goes through its first key. -/
theorem put_cons (ho : opens t = true) : put (k :: p) w t = (t.set k ·) <$> put p w (look k t) := by
  rw [put, followPath, follow_of_opens ho]
  rfl

/-- Whatever is written, a path that can be walked can be written to. -/
theorem put_ok (h : Reaches p t) (w : Val) :
    ∃ t', put p w t = .ok t' ∧ valueAt p t' = w ∧ Reaches p t' ∧
      ∀ x, put p x t' = put p x t := by
  induction p generalizing t with
  | nil => exact ⟨w, rfl, rfl, ⟨.null, rfl⟩, fun x => rfl⟩
  | cons k p ih =>
    obtain ⟨ho, hr⟩ := reaches_cons h
    obtain ⟨u, hu, hval, ⟨u', hu'⟩, hput⟩ := ih hr
    refine ⟨t.set k u, ?_, ?_, ⟨t.set k u', ?_⟩, fun x => ?_⟩
    · rw [put_cons ho, hu]; rfl
    · rw [valueAt, look_set_self, hval]
    · rw [put_cons opens_set, look_set_self, hu']
      show Except.ok ((t.set k u).set k u') = _
      rw [set_set]
    · rw [put_cons opens_set, put_cons ho, look_set_self, hput x]
      cases put p x (look k t) with
      | error e => rfl
      | ok y =>
        show Except.ok ((t.set k u).set k y) = _
        rw [set_set]
        rfl

/-- A value that is there is already written. -/
theorem put_valueAt (h : valueAt p t ≠ .null) : put p (valueAt p t) t = .ok t := by
  induction p generalizing t with
  | nil => rfl
  | cons k p ih =>
    rw [valueAt] at h
    have hl : look k t ≠ .null := by
      intro hc
      rw [hc] at h
      exact h (by clear ih h; induction p with
        | nil => rfl
        | cons k' p ih' => exact ih')
    rw [put_cons (opens_of_look hl), valueAt, ih h]
    show Except.ok (t.set k (look k t)) = _
    rw [set_look hl]

/-- A path can be followed in two parts. -/
theorem followPath_append : followPath (p ++ q) f t = followPath p (followPath q f) t := by
  induction p generalizing t with
  | nil => rfl
  | cons k p ih =>
    rw [List.cons_append, followPath, followPath]
    congr 1
    funext v
    exact ih

/-- What is at its end is found in two steps. -/
theorem valueAt_append : valueAt (p ++ q) t = valueAt q (valueAt p t) := by
  induction p generalizing t with
  | nil => rfl
  | cons k p ih => exact ih

/-- Writing below the end of a path is writing at its end. -/
theorem put_append (h : Reaches p t) :
    put (p ++ q) w t = put q w (valueAt p t) >>= (put p · t) := by
  rw [put, followPath_append, followPath_eq h]
  rfl

/-- It leads somewhere if both parts do. -/
theorem reaches_append (h : Reaches p t) (hq : Reaches q (valueAt p t)) : Reaches (p ++ q) t := by
  obtain ⟨u, hu⟩ := hq
  obtain ⟨t', ht', -⟩ := put_ok h u
  refine ⟨t', ?_⟩
  rw [put_append h, hu]
  exact ht'

/-- A write at the end of a path makes the values on the way to it nonempty arrays. -/
theorem truthy_put {r : List Key} (h : put (q ++ r) w t = .ok t') (hr : r ≠ []) :
    (valueAt q t').truthy = true := by
  induction q generalizing t t' with
  | nil =>
    cases r with
    | nil => exact absurd rfl hr
    | cons k r =>
      rw [List.nil_append, put, followPath, follow] at h
      split at h
      · cases hp : followPath r (fun _ => .ok w) (look k t) with
        | error e => rw [hp] at h; cases h
        | ok u =>
          rw [hp] at h
          rw [← Except.ok.inj h]
          exact truthy_set
      · cases h
  | cons k q ih =>
    rw [List.cons_append, put, followPath, follow] at h
    split at h
    · cases hp : followPath (q ++ r) (fun _ => .ok w) (look k t) with
      | error e => rw [hp] at h; cases h
      | ok u =>
        rw [hp] at h
        rw [← Except.ok.inj h, valueAt, look_set_self]
        exact ih hp
    · cases h

/-- A write below one key leaves the others alone. -/
theorem look_put_of_ne {k' : Key} (h : put (k :: p) w t = .ok t') (hne : k' ≠ k) :
    look k' t' = look k' t := by
  rw [put, followPath, follow] at h
  split at h
  · cases hp : followPath p (fun _ => .ok w) (look k t) with
    | error e => rw [hp] at h; cases h
    | ok u =>
      rw [hp] at h
      rw [← Except.ok.inj h, look_set_of_ne hne]
  · cases h

end Paths

/-! ## Reading an element -/

/-- What `startElement` does to the value of the enclosing element. -/
def openChild (name : String) (v : Val) : Except Die Val :=
  if strtolower name ∈ listtags then
    follow (.str (strtolower name)) (fun x => .ok (makeArray x)) v
  else follow (.str (strtolower name)) (onlyOnce name) v

/-- Where a child that has been opened in `v` is stored below it. -/
def childPath (name : String) (v : Val) : List Key :=
  if strtolower name ∈ listtags then
    [.str (strtolower name), .int (look (.str (strtolower name)) v).count]
  else [.str (strtolower name)]

/-- The value of the enclosing element once the child opened in `v` has the value `w`. -/
def closeChild (name : String) (w : Val) (v : Val) : Val :=
  if strtolower name ∈ listtags then
    v.set (.str (strtolower name))
      ((look (.str (strtolower name)) v).set (.int (look (.str (strtolower name)) v).count) w)
  else v.set (.str (strtolower name)) w

/-- An element that got neither text nor children ends as the empty string. -/
def finish (v : Val) : Val := if v = .null then .str "" else v

/-- What a piece of character data does to the value of the element it is in. -/
def addText (data : String) (v : Val) : Val :=
  if trim data "\t\n\r" ≠ "" then addData (trim data "\t\n\r") v else v

/-- The value of an element after its content, from its value before. -/
def read : Content → Val → Except Die Val
  | .nil, v => .ok v
  | .text d r, v => read r (addText d v)
  | .elem n k r, v => do
    let v ← openChild n v
    let c ← read k .null
    read r (closeChild n (finish c) v)

/-! ### Lists stay contiguous

`$curpath` gets `count($ptr)` as the index of the next list item, which is free because
lists are only ever filled from `0` up. -/

/-- The indices from `count` up are free. -/
def NextFree (l : Val) : Prop := ∀ i : ℕ, l.count ≤ i → Key.int i ∉ l.entries.map Prod.fst

/-- Every list in `v` can be appended to. -/
def ListsOk (v : Val) : Prop := ∀ n ∈ listtags, NextFree (look (.str n) v)

/-- In a list that is not there the next key is free. -/
theorem nextFree_null : NextFree .null := fun _ _ => List.not_mem_nil

/-- It stays so when the list is made. -/
theorem nextFree_makeArray {l : Val} (h : NextFree l) : NextFree (makeArray l) := by
  unfold makeArray
  split
  · exact h
  · exact fun _ _ => List.not_mem_nil

/-- Appending moves the next free index up by one. -/
theorem nextFree_append {l w : Val} (hl : l.isArray = true) (h : NextFree l) :
    NextFree (l.set (.int l.count) w) := by
  cases l with
  | arr es =>
    have hkeys : Val.setEntry (.int (es.length : ℕ)) w es = es ++ [(.int (es.length : ℕ), w)] :=
      Val.setEntry_of_not_mem (h es.length (Nat.le_refl _))
    intro i hi
    simp only [Val.set, Val.entries, Val.count, hkeys, List.length_append, List.length_cons,
      List.length_nil] at hi
    simp only [Val.set, Val.entries, Val.count, hkeys, List.map_append, List.mem_append, not_or]
    refine ⟨h i (by simp only [Val.count]; omega), ?_⟩
    simp only [List.map_cons, List.map_nil, List.mem_singleton, Key.int.injEq]
    omega
  | _ => simp [Val.isArray] at hl

/-- A value that is not there has no lists. -/
theorem listsOk_null : ListsOk .null := fun _ _ => nextFree_null

/-! ## Simulation -/

/-- `havedata` tells whether an element with value `v` at `depth` is still empty. -/
def Counted (v : Val) (depth havedata : ℕ) : Prop :=
  if v = .null then havedata = depth else depth < havedata

/-- `$havedata` tells whether the current element is still empty. -/
def HavedataOk (st : Parser) : Prop :=
  Counted (valueAt st.curpath st.xmlArray) st.depth st.havedata

/-- `$havedata` is never behind the depth. -/
theorem Counted.le {v : Val} {depth havedata : ℕ} (h : Counted v depth havedata) :
    depth ≤ havedata := by
  unfold Counted at h
  split at h <;> omega

/-- Once it is past the depth the element is not empty any more. -/
theorem counted_of_lt {v : Val} {depth havedata : ℕ} (hv : v ≠ .null) (h : depth < havedata) :
    Counted v depth havedata := by
  rw [Counted, if_neg hv]
  exact h

/-- The counter moves exactly when text replaces `null` or an array. -/
theorem counted_addData {v : Val} {depth havedata : ℕ} (d : String)
    (h : Counted v depth havedata) :
    Counted (addData d v) depth (if startsText d v then havedata + 1 else havedata) := by
  by_cases hs : ∃ s, v = .str s
  · obtain ⟨s, rfl⟩ := hs
    have hlt : depth < havedata := by
      rw [Counted, if_neg (by simp)] at h
      exact h
    exact counted_of_lt (by simp [addData]) (by simpa [startsText] using hlt)
  · by_cases hb : trim d " " ≠ ""
    · have hle := h.le
      have hadd : addData d v = .str d := by
        cases v <;> simp_all [addData]
      have hstart : startsText d v = true := by
        cases v <;> simp_all [startsText]
      rw [hadd, hstart]
      exact counted_of_lt (by simp) (by simp only [if_true]; omega)
    · have hadd : addData d v = v := by
        cases v <;> simp_all [addData]
      have hstart : startsText d v = false := by
        cases v <;> simp_all [startsText]
      rw [hadd, hstart]
      exact h

/-- `t'` comes from `t` by writes at or below the end of the path `p`. -/
structure Under (p : List Key) (t t' : Val) : Prop where
  truthy : ∀ q r, p = q ++ r → r ≠ [] → (valueAt q t).truthy = true → (valueAt q t').truthy = true
  others : ∀ k q, p = k :: q → ∀ k' ≠ k, look k' t' = look k' t

/-- A tree is as it was, outside any path. -/
theorem Under.refl (p : List Key) (t : Val) : Under p t t := ⟨fun _ _ _ _ h => h, fun _ _ _ _ _ => rfl⟩

/-- Two changes under a path are one. -/
theorem Under.trans {p : List Key} {t t' t'' : Val} (h : Under p t t') (h' : Under p t' t'') :
    Under p t t'' :=
  ⟨fun q r hp hr ht => h'.truthy q r hp hr (h.truthy q r hp hr ht),
    fun k q hp k' hk => (h'.others k q hp k' hk).trans (h.others k q hp k' hk)⟩

/-- Writing at the end of a path changes nothing outside it. -/
theorem under_put {p : List Key} {t t' w : Val} (h : put p w t = .ok t') : Under p t t' := by
  refine ⟨fun q r hp hr _ => ?_, fun k q hp k' hk => ?_⟩
  · rw [hp] at h
    exact truthy_put h hr
  · rw [hp] at h
    exact look_put_of_ne h hk

/-- `st'` differs from `st` at most in the value at `$curpath`, which is `v`, and in
`$havedata`. -/
structure Became (st st' : Parser) (v : Val) : Prop where
  depth : st'.depth = st.depth
  curpath : st'.curpath = st.curpath
  value : valueAt st.curpath st'.xmlArray = v
  reaches : Reaches st.curpath st'.xmlArray
  frame : ∀ w, put st.curpath w st'.xmlArray = put st.curpath w st.xmlArray
  under : Under st.curpath st.xmlArray st'.xmlArray

/-- No event leaves the value as it is. -/
theorem Became.refl {st : Parser} (h : Reaches st.curpath st.xmlArray) :
    Became st st (valueAt st.curpath st.xmlArray) :=
  ⟨rfl, rfl, rfl, h, fun _ => rfl, Under.refl _ _⟩

/-- Two runs of events make one. -/
theorem Became.trans {st st' st'' : Parser} {v w : Val} (h : Became st st' v)
    (h' : Became st' st'' w) : Became st st'' w := by
  obtain ⟨hd, hc, hv, hr, hf, hu⟩ := h
  obtain ⟨hd', hc', hv', hr', hf', hu'⟩ := h'
  rw [hc] at hc' hv' hr' hf' hu'
  exact ⟨hd'.trans hd, hc', hv', hr', fun w => (hf' w).trans (hf w), hu.trans hu'⟩

/-- Character data changes the current element only. -/
theorem cData_became {st : Parser} (d : String) (hr : Reaches st.curpath st.xmlArray)
    (hh : HavedataOk st) :
    ∃ st', cData d st = .ok st' ∧
      Became st st' (addText d (valueAt st.curpath st.xmlArray)) ∧ HavedataOk st' := by
  by_cases hd : trim d "\t\n\r" ≠ ""
  · set v := valueAt st.curpath st.xmlArray with hv
    obtain ⟨t, ht, hval, hreach, hframe⟩ := put_ok hr (addData (trim d "\t\n\r") v)
    have hwalk : followPath st.curpath (fun v => .ok (addData (trim d "\t\n\r") v)) st.xmlArray
        = .ok t := by
      rw [followPath_eq hr]
      exact ht
    refine ⟨{ st with
        xmlArray := t
        havedata := if startsText (trim d "\t\n\r") v then st.havedata + 1 else st.havedata },
      by rw [cData, if_pos hd, hwalk]; rfl, ⟨rfl, rfl, ?_, hreach, hframe, under_put ht⟩, ?_⟩
    · rw [addText, if_pos hd]
      exact hval
    · show Counted (valueAt st.curpath t) _ _
      rw [hval]
      exact counted_addData _ hh
  · refine ⟨st, by rw [cData, if_neg hd]; rfl, ?_, hh⟩
    rw [addText, if_neg hd]
    exact Became.refl hr

/-- The state `startElement` leaves: the child is at the end of `$curpath` with no value,
and giving it a value there is giving it to the enclosing element. -/
structure Opened (name : String) (st st' : Parser) (v : Val) : Prop where
  depth : st'.depth = st.depth + 1
  havedata : st'.havedata = st.depth + 1
  curpath : st'.curpath = st.curpath ++ childPath name v
  value : valueAt st'.curpath st'.xmlArray = .null
  reaches : Reaches st'.curpath st'.xmlArray
  frame : ∀ w, put st'.curpath w st'.xmlArray = put st.curpath (closeChild name w v) st.xmlArray
  under : Under st.curpath st.xmlArray st'.xmlArray
  parent : valueAt st.curpath st'.xmlArray = v

/-- What opening a child found and left. -/
theorem openChild_ok {n : String} {v v₁ : Val} (h : openChild n v = .ok v₁) :
    opens v = true ∧
      ((strtolower n ∈ listtags ∧
          v₁ = v.set (.str (strtolower n)) (makeArray (look (.str (strtolower n)) v))) ∨
        (strtolower n ∉ listtags ∧ look (.str (strtolower n)) v = .null ∧
          v₁ = v.set (.str (strtolower n)) .null)) := by
  unfold openChild at h
  split at h
  · next hl =>
    rw [follow] at h
    split at h
    · next ho => exact ⟨ho, .inl ⟨hl, (Except.ok.inj h).symm⟩⟩
    · cases h
  · next hl =>
    rw [follow] at h
    split at h
    · next ho =>
      cases hx : look (.str (strtolower n)) v with
      | null =>
        rw [hx] at h
        exact ⟨ho, .inr ⟨hl, rfl, (Except.ok.inj h).symm⟩⟩
      | _ =>
        rw [hx] at h
        cases h
    · cases h

/-- A list that is made is one. -/
theorem isArray_makeArray (v : Val) : (makeArray v).isArray = true := by
  unfold makeArray
  split
  · assumption
  · rfl

/-- An array can be read into. -/
theorem opens_of_isArray {v : Val} (h : v.isArray = true) : opens v = true := by
  cases v <;> simp_all [Val.isArray, opens]

/-- Giving an opened child its value. -/
theorem put_childPath {n : String} {v v₁ : Val} (h : openChild n v = .ok v₁) (w : Val) :
    put (childPath n v₁) w v₁ = .ok (closeChild n w v₁) := by
  obtain ⟨-, ⟨hl, rfl⟩ | ⟨hl, -, rfl⟩⟩ := openChild_ok h
  · rw [childPath, closeChild, if_pos hl, if_pos hl, put_cons opens_set, look_set_self,
      put_cons (opens_of_isArray (isArray_makeArray _))]
    rfl
  · rw [childPath, closeChild, if_neg hl, if_neg hl, put_cons opens_set]
    rfl

/-- A key that an array does not have leads to nothing. -/
theorem look_of_not_mem {k : Key} {l : Val} (h : k ∉ l.entries.map Prod.fst) :
    look k l = .null := by
  cases l with
  | arr es =>
    have hnone : es.lookup k = none := by
      rw [List.lookup_eq_none_iff]
      intro e he
      simp only [bne_iff_ne, ne_eq]
      exact fun hk => h (List.mem_map.2 ⟨e, he, hk.symm⟩)
    rw [look, hnone, Option.getD_none]
  | _ => rfl

/-- An opened child has no value yet: the next list index is free. -/
theorem valueAt_childPath {n : String} {v v₁ : Val} (h : openChild n v = .ok v₁)
    (hv : ListsOk v) : valueAt (childPath n v₁) v₁ = .null := by
  obtain ⟨-, ⟨hl, rfl⟩ | ⟨hl, -, rfl⟩⟩ := openChild_ok h
  · have hfree := nextFree_makeArray (hv _ hl)
    rw [childPath, if_pos hl, look_set_self, valueAt, look_set_self, valueAt, valueAt]
    exact look_of_not_mem (hfree _ (Nat.le_refl _))
  · rw [childPath, if_neg hl, valueAt, look_set_self, valueAt]

/-- Closing a child keeps the lists of the enclosing element contiguous. -/
theorem listsOk_closeChild {n : String} {v v₁ : Val} (h : openChild n v = .ok v₁)
    (hv : ListsOk v) (w : Val) : ListsOk (closeChild n w v₁) := by
  intro m hm
  obtain ⟨-, ⟨hl, rfl⟩ | ⟨hl, -, rfl⟩⟩ := openChild_ok h
  · rw [closeChild, if_pos hl, set_set, look_set_self]
    by_cases hmn : m = strtolower n
    · subst hmn
      rw [look_set_self]
      exact nextFree_append (isArray_makeArray _) (nextFree_makeArray (hv _ hl))
    · rw [look_set_of_ne (by simpa using hmn)]
      exact hv m hm
  · have hmn : m ≠ strtolower n := fun hc => hl (hc ▸ hm)
    rw [closeChild, if_neg hl, set_set, look_set_of_ne (by simpa using hmn)]
    exact hv m hm

/-- Text makes no lists. -/
theorem listsOk_addText {v : Val} (d : String) (hv : ListsOk v) : ListsOk (addText d v) := by
  have hstr : ∀ s, ListsOk (.str s) := fun s m hm => nextFree_null
  unfold addText
  split
  · unfold addData
    split
    · exact hstr _
    · split
      · exact hstr _
      · exact hv
  · exact hv

/-- `startElement` fails exactly when the child cannot be opened. -/
theorem startElement_eq {n : String} {st : Parser} (hr : Reaches st.curpath st.xmlArray) :
    startElement n st =
      (do
        let v ← openChild n (valueAt st.curpath st.xmlArray)
        let t ← put st.curpath v st.xmlArray
        pure { depth := st.depth + 1, curpath := st.curpath ++ childPath n v,
               xmlArray := t, havedata := st.depth + 1 }) := by
  -- a path that can be reached is followed to its value, which is put back changed
  have hstep : ∀ f, followPath (st.curpath ++ [.str (strtolower n)]) f st.xmlArray =
      follow (.str (strtolower n)) f (valueAt st.curpath st.xmlArray) >>=
        (put st.curpath · st.xmlArray) := by
    intro f
    rw [followPath_append, followPath_eq hr]
    rfl
  have hval : ∀ v t, put st.curpath v st.xmlArray = .ok t →
      valueAt (st.curpath ++ [.str (strtolower n)]) t = look (.str (strtolower n)) v := by
    intro v t ht
    obtain ⟨t', ht', hv, -⟩ := put_ok hr v
    obtain rfl : t' = t := Except.ok.inj (ht'.symm.trans ht)
    rw [valueAt_append, hv]
    rfl
  unfold startElement openChild childPath
  split
  · simp only [hstep]
    cases follow (.str (strtolower n)) (fun v => .ok (makeArray v))
        (valueAt st.curpath st.xmlArray) with
    | error e => rfl
    | ok v =>
      show (put st.curpath v st.xmlArray >>= _) = (put st.curpath v st.xmlArray >>= _)
      cases ht : put st.curpath v st.xmlArray with
      | error e => rfl
      | ok t =>
        show Except.ok _ = Except.ok _
        rw [hval v t ht, List.append_assoc]
        rfl
  · simp only [hstep]
    cases follow (.str (strtolower n)) (onlyOnce n) (valueAt st.curpath st.xmlArray) with
    | error e => rfl
    | ok v => rfl

/-- An element that cannot be opened stops the reader. -/
theorem startElement_error {n : String} {st : Parser} {e : Die}
    (hr : Reaches st.curpath st.xmlArray)
    (h : openChild n (valueAt st.curpath st.xmlArray) = .error e) :
    startElement n st = .error e := by
  rw [startElement_eq hr, h]
  rfl

/-- One that can be opened makes its place the current one. -/
theorem startElement_opened {n : String} {st : Parser} {v : Val}
    (hr : Reaches st.curpath st.xmlArray) (hl : ListsOk (valueAt st.curpath st.xmlArray))
    (h : openChild n (valueAt st.curpath st.xmlArray) = .ok v) :
    ∃ st', startElement n st = .ok st' ∧ Opened n st st' v := by
  obtain ⟨t, ht, hval, hreach, hframe⟩ := put_ok hr v
  refine ⟨{ depth := st.depth + 1, curpath := st.curpath ++ childPath n v, xmlArray := t,
            havedata := st.depth + 1 }, ?_, rfl, rfl, rfl, ?_, ?_, fun w => ?_, under_put ht, hval⟩
  · rw [startElement_eq hr, h]
    show (put st.curpath v st.xmlArray >>= _) = _
    rw [ht]
    rfl
  · show valueAt (st.curpath ++ childPath n v) t = .null
    rw [valueAt_append, hval]
    exact valueAt_childPath h hl
  · refine reaches_append hreach ⟨closeChild n .null v, ?_⟩
    show put (childPath n v) .null (valueAt st.curpath t) = _
    rw [hval, put_childPath h]
  · show put (st.curpath ++ childPath n v) w t = _
    rw [put_append hreach, hval, put_childPath h w, ← hframe]
    rfl

/-- Closing an element goes back to the path it was opened at. -/
theorem dropLast_childPath (p : List Key) (n : String) (v : Val) :
    (if strtolower n ∈ listtags then (p ++ childPath n v).dropLast.dropLast
      else (p ++ childPath n v).dropLast) = p := by
  unfold childPath
  split
  · rw [List.append_cons, List.dropLast_concat, List.dropLast_concat]
  · rw [List.dropLast_concat]

/-- An element that is closed has a value. -/
theorem finish_ne_null (v : Val) : finish v ≠ .null := by
  unfold finish
  split
  · simp
  · assumption

/-- `endElement` gives the child its final value and returns to the enclosing element. -/
theorem endElement_closed {n : String} {st st₁ st₂ : Parser} {v c : Val}
    (hr : Reaches st.curpath st.xmlArray) (ho : Opened n st st₁ v) (hb : Became st₁ st₂ c)
    (hh : HavedataOk st₂) :
    ∃ st', endElement n st₂ = .ok st' ∧ Became st st' (closeChild n (finish c) v) ∧
      st.depth < st'.havedata := by
  obtain ⟨t, ht, hval, hreach, hframe⟩ := put_ok hr (closeChild n (finish c) v)
  have hput : put st₂.curpath (finish c) st₂.xmlArray = .ok t := by
    rw [hb.curpath, hb.frame, ho.frame, ht]
  -- whether or not `$havedata` has moved, the tree ends with the finished value written
  have hend : fillEmpty st₂ = .ok t := by
    unfold HavedataOk Counted at hh
    unfold fillEmpty
    rw [hb.curpath, hb.value] at hh
    by_cases hc : c = .null
    · rw [if_pos hc] at hh
      rw [finish, if_pos hc] at hput
      rw [if_pos hh]
      exact hput
    · rw [if_neg hc] at hh
      rw [finish, if_neg hc, hb.curpath, ← hb.value, put_valueAt (by rwa [hb.value])] at hput
      rw [if_neg (by omega)]
      exact hput
  refine ⟨{ depth := st₂.depth - 1, curpath := st.curpath, xmlArray := t,
            havedata := st₂.havedata }, ?_, ⟨?_, rfl, hval, hreach, hframe, under_put ht⟩, ?_⟩
  · unfold endElement
    rw [hend]
    show Except.ok _ = Except.ok _
    rw [hb.curpath, ho.curpath, dropLast_childPath]
  · show st₂.depth - 1 = st.depth
    rw [hb.depth, ho.depth]
    omega
  · have hle := hh.le
    rw [hb.depth, ho.depth] at hle
    exact hle

/-- Two runs of events, one after the other. -/
theorem handleAll_append (es es' : List Event) (st : Parser) :
    handleAll (es ++ es') st = handleAll es st >>= handleAll es' := by
  rw [handleAll, List.foldlM_append]
  rfl

/-- The first event of a run. -/
theorem handleAll_cons (e : Event) (es : List Event) (st : Parser) :
    handleAll (e :: es) st = handle st e >>= handleAll es := rfl

/-- The value of an element that holds one child, from its value before the child. -/
def readElem (n : String) (k : Content) (v : Val) : Except Die Val := do
  let v ← openChild n v
  let c ← read k .null
  pure (closeChild n (finish c) v)

/-- An element is read before what follows it. -/
theorem read_elem (n : String) (k r : Content) (v : Val) :
    read (.elem n k r) v = readElem n k v >>= read r := by
  rw [read, readElem]
  cases openChild n v with
  | error e => rfl
  | ok v₁ =>
    show (read k .null >>= _) = (read k .null >>= _) >>= _
    cases read k .null <;> rfl

/-- `Simulates es st x Q`: the handlers over `es` fail as `x` does, or leave what `x` says
as the value of the current element, in a state with `Q`. -/
def Simulates (es : List Event) (st : Parser) (x : Except Die Val) (Q : Parser → Prop) : Prop :=
  match x with
  | .error e => handleAll es st = .error e
  | .ok w => ∃ st', handleAll es st = .ok st' ∧ Became st st' w ∧ Q st'

/-- The content of an element can be simulated from any state that has just opened it. -/
def Simulated (c : Content) : Prop :=
  ∀ st : Parser, Reaches st.curpath st.xmlArray → ListsOk (valueAt st.curpath st.xmlArray) →
    HavedataOk st → Simulates c.events st (read c (valueAt st.curpath st.xmlArray)) HavedataOk

/-- One child element, from its start tag to its end tag. -/
theorem simulates_elem (n : String) {k : Content} (st : Parser) (hk : Simulated k)
    (hr : Reaches st.curpath st.xmlArray) (hl : ListsOk (valueAt st.curpath st.xmlArray)) :
    Simulates (.start n :: (k.events ++ [.stop n])) st
      (readElem n k (valueAt st.curpath st.xmlArray)) fun st' => st.depth < st'.havedata := by
  unfold readElem
  cases ho : openChild n (valueAt st.curpath st.xmlArray) with
  | error e =>
    show handleAll _ st = .error e
    rw [handleAll_cons]
    simp only [handle, startElement_error hr ho]
    rfl
  | ok v =>
    obtain ⟨st₁, hst₁, hopened⟩ := startElement_opened hr hl ho
    have hrun : handleAll (.start n :: (k.events ++ [.stop n])) st =
        handleAll k.events st₁ >>= fun st₂ => endElement n st₂ := by
      rw [handleAll_cons]
      simp only [handle, hst₁]
      show handleAll (k.events ++ [.stop n]) st₁ = _
      rw [handleAll_append]
      congr 1
      funext st₂
      show (endElement n st₂ >>= fun s => Except.ok s) = endElement n st₂
      cases endElement n st₂ <;> rfl
    have hdata : HavedataOk st₁ := by
      rw [HavedataOk, hopened.value, Counted, if_pos rfl, hopened.havedata, hopened.depth]
    -- the children start from null, which is what opening leaves
    have hkids := hk st₁ hopened.reaches (hopened.value ▸ listsOk_null) hdata
    rw [hopened.value] at hkids
    cases hc : read k .null with
    | error e =>
      rw [hc] at hkids
      show handleAll _ st = .error e
      rw [hrun, show handleAll k.events st₁ = .error e from hkids]
      rfl
    | ok c =>
      rw [hc] at hkids
      obtain ⟨st₂, hst₂, hbecame, hh₂⟩ := hkids
      obtain ⟨st₃, hst₃, hclosed, hlt⟩ := endElement_closed hr hopened hbecame hh₂
      refine ⟨st₃, ?_, hclosed, hlt⟩
      rw [hrun, hst₂]
      exact hst₃

/-- Two simulated stretches of events in a row. -/
theorem Simulates.append {es es' : List Event} {st : Parser} {x : Except Die Val}
    {f : Val → Except Die Val} {P Q : Parser → Prop} (h : Simulates es st x P)
    (h' : ∀ st' w, x = .ok w → Became st st' w → P st' → Simulates es' st' (f w) Q) :
    Simulates (es ++ es') st (x >>= f) Q := by
  cases x with
  | error e =>
    show handleAll (es ++ es') st = .error e
    rw [handleAll_append, show handleAll es st = .error e from h]
    rfl
  | ok w =>
    obtain ⟨st', hrun, hbecame, hP⟩ := h
    have hnext := h' st' w rfl hbecame hP
    show Simulates (es ++ es') st (f w) Q
    unfold Simulates at hnext ⊢
    split at hnext
    · next e he =>
      rw [handleAll_append, hrun]
      exact hnext
    · next w' hw' =>
      obtain ⟨st'', hrun', hbecame', hQ⟩ := hnext
      exact ⟨st'', by rw [handleAll_append, hrun]; exact hrun', hbecame.trans hbecame', hQ⟩

/-- After a child there is something. -/
theorem closeChild_ne_null (n : String) (w v : Val) : closeChild n w v ≠ .null := by
  unfold closeChild
  split <;> exact set_ne_null

/-- An element that is read is opened, has its contents read, and is closed. -/
theorem readElem_ok {n : String} {k : Content} {v w : Val} (h : readElem n k v = .ok w) :
    ∃ v₁ c, openChild n v = .ok v₁ ∧ read k .null = .ok c ∧ w = closeChild n (finish c) v₁ := by
  unfold readElem at h
  cases ho : openChild n v with
  | error e => rw [ho] at h; cases h
  | ok v₁ =>
    cases hc : read k .null with
    | error e => rw [ho, hc] at h; cases h
    | ok c =>
      rw [ho, hc] at h
      exact ⟨v₁, c, rfl, rfl, (Except.ok.inj h).symm⟩

/-- The handlers compute `read`. -/
theorem simulated (c : Content) : Simulated c := by
  -- on the content: the parser's run and `read` are in step at each of its constructors
  induction c with
  | nil => exact fun st hr _ hh => ⟨st, rfl, Became.refl hr, hh⟩
  | text d r ihr =>
    intro st hr hl hh
    obtain ⟨st', hrun, hbecame, hh'⟩ := cData_became d hr hh
    have hfirst : Simulates [.chars d] st (.ok (addText d (valueAt st.curpath st.xmlArray)))
        HavedataOk := by
      refine ⟨st', ?_, hbecame, hh'⟩
      show (cData d st >>= fun s => Except.ok s) = _
      rw [hrun]
      rfl
    refine hfirst.append (f := read r) fun st' w hw hb hh' => ?_
    obtain rfl := Except.ok.inj hw
    have hnext := ihr st' (hb.curpath ▸ hb.reaches) ?_ hh'
    · rwa [hb.curpath, hb.value] at hnext
    · rw [hb.curpath, hb.value]
      exact listsOk_addText d hl
  | elem n k r ihk ihr =>
    intro st hr hl hh
    have hevents : (Content.elem n k r).events =
        (.start n :: (k.events ++ [.stop n])) ++ r.events := by
      simp [Content.events]
    rw [hevents, read_elem]
    refine (simulates_elem _ _ ihk hr hl).append fun st' w hw hb hlt => ?_
    obtain ⟨v₁, c, ho, -, rfl⟩ := readElem_ok hw
    have hh' : HavedataOk st' := by
      rw [HavedataOk, hb.curpath, hb.value, hb.depth]
      exact counted_of_lt (closeChild_ne_null _ _ _) hlt
    have hnext := ihr st' (hb.curpath ▸ hb.reaches) ?_ hh'
    · rwa [hb.curpath, hb.value] at hnext
    · rw [hb.curpath, hb.value]
      exact listsOk_closeChild ho hl _

/-- The tree a document reads as. -/
def readDoc (d : Doc) : Except Die Val := readElem d.name d.kids (.arr [])

/-- The handlers compute `readDoc` over the events of a document. -/
theorem handleAll_doc (d : Doc) :
    (Parser.xmlArray <$> handleAll d.events Parser.init) = readDoc d := by
  have hlists : ListsOk (.arr []) := fun n _ => nextFree_null
  have hsim := simulates_elem d.name Parser.init (simulated d.kids)
    ⟨.null, rfl⟩ hlists
  rw [readDoc]
  cases hx : readElem d.name d.kids (.arr []) with
  | error e =>
    rw [show valueAt Parser.init.curpath Parser.init.xmlArray = .arr [] from rfl, hx] at hsim
    rw [Doc.events, show handleAll _ Parser.init = .error e from hsim]
    rfl
  | ok w =>
    rw [show valueAt Parser.init.curpath Parser.init.xmlArray = .arr [] from rfl, hx] at hsim
    obtain ⟨st', hrun, hbecame, -⟩ := hsim
    rw [Doc.events, hrun]
    exact congrArg Except.ok hbecame.value

end XmlParse
end Askozia
