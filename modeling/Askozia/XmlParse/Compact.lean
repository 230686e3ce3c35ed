import Askozia.XmlParse.Reread

/-!
# What a write makes of a tree with gaps

Code that removes elements leaves lists with missing offsets, or empty ones. Writing such a tree
and reading it back closes the gaps, drops empty lists, turns sections that have nothing left
into `""`, and numbers into their text.

* `compact` is that tree;
* `Loose` says which trees this is about, for strings that a predicate `P` allows;
* `rereadSub_loose`: a loose map is read back as its compact form.
-/

namespace Askozia
namespace XmlParse

open Php Xml

/-- A lowercase XML name. -/
def LowerName (n : String) : Prop := isName n = true ∧ strtolower n = n

/-- A name folds to lower case whether or not the parser has folded it to upper case. -/
theorem strtolower_folded {n : String} (h : isName n = true) :
    strtolower (strtoupper n) = strtolower n := strtolower_strtoupper (ascii_of_isName h)

/-- A name in lower case is the same after it was written in upper case. -/
theorem LowerName.folded {n : String} (h : LowerName n) : strtolower (strtoupper n) = n := by
  rw [strtolower_folded h.1, h.2]

/-! ## Compact trees -/

/-- A map that may have nothing left. -/
def wrap : List (Key × Val) → Val
  | [] => .str ""
  | es => .arr es

/-- The entry for a list that may have nothing left. -/
def listEntry (k : Key) : List Val → List (Key × Val)
  | [] => []
  | xs => [(k, .ofList xs)]

mutual

/-- The value a write makes of a value. -/
def compact : Val → Val
  | .arr es => wrap (compactSub es)
  | .int n => .str (toString n)
  | .str s => .str s
  | .bool b => .bool b
  | .null => .null

/-- The entries a write makes of the entries of a map. -/
def compactSub : List (Key × Val) → List (Key × Val)
  | [] => []
  | (k, v) :: r => compactEntry k v ++ compactSub r

/-- The entries a write makes of one entry. -/
def compactEntry (k : Key) : Val → List (Key × Val)
  | .arr items =>
    if k.toStr ∈ listtags then listEntry k (compactItems items)
    else [(k, wrap (compactSub items))]
  | .int n => [(k, .str (toString n))]
  | .str s => [(k, .str s)]
  | .bool b => [(k, .bool b)]
  | .null => [(k, .null)]

/-- The items a write makes of the items of a list. -/
def compactItems : List (Key × Val) → List Val
  | [] => []
  | (_, v) :: r => compact v :: compactItems r

end

section Equations

variable {k : Key} {es : List (Key × Val)} {v : Val}

/-- An array is compacted entry by entry. -/
theorem compact_arr : compact (.arr es) = wrap (compactSub es) := by rw [compact]

/-- There is nothing to compact in an empty one. -/
theorem compactSub_nil : compactSub [] = [] := by rw [compactSub]

/-- The first entry is compacted before the others. -/
theorem compactSub_cons {r : List (Key × Val)} :
    compactSub ((k, v) :: r) = compactEntry k v ++ compactSub r := by rw [compactSub]

/-- The items of a list are compacted one by one. -/
theorem compactItems_eq (items : List (Key × Val)) :
    compactItems items = items.map fun e => compact e.2 := by
  induction items with
  | nil => rw [compactItems, List.map_nil]
  | cons e r ih =>
    obtain ⟨k, v⟩ := e
    rw [compactItems, List.map_cons, ih]

/-- Under a list tag stands a list. -/
theorem compactEntry_list {items : List (Key × Val)} (hk : k.toStr ∈ listtags) :
    compactEntry k (.arr items) = listEntry k (items.map fun e => compact e.2) := by
  rw [compactEntry, if_pos hk, compactItems_eq]

/-- Under any other name stands one value. -/
theorem compactEntry_single (hk : k.toStr ∉ listtags) : compactEntry k v = [(k, compact v)] := by
  cases v with
  | arr items => rw [compactEntry, if_neg hk, compact]
  | _ => rw [compactEntry, compact]

/-- A key is either dropped or kept. -/
theorem keys_compactEntry (k : Key) (v : Val) :
    (compactEntry k v).map Prod.fst = [] ∨ (compactEntry k v).map Prod.fst = [k] := by
  by_cases hk : k.toStr ∈ listtags
  · cases v with
    | arr items =>
      rw [compactEntry_list hk]
      cases items.map fun e => compact e.2 with
      | nil => exact .inl rfl
      | cons x r => exact .inr rfl
    | _ => rw [compactEntry]; exact .inr rfl
  · rw [compactEntry_single hk]
    exact .inr rfl

/-- Compacting adds no names. -/
theorem keys_compactSub : (compactSub es).map Prod.fst ⊆ es.map Prod.fst := by
  induction es with
  | nil => simp [compactSub_nil]
  | cons e r ih =>
    obtain ⟨k, v⟩ := e
    intro k' hk'
    rw [compactSub_cons, List.map_append, List.mem_append] at hk'
    rw [List.map_cons, List.mem_cons]
    rcases hk' with hk' | hk'
    · rcases keys_compactEntry k v with h | h <;> rw [h] at hk'
      · cases hk'
      · exact .inl (List.mem_singleton.1 hk')
    · exact .inr (ih hk')

end Equations

/-! ## Fields of a compact tree -/

section Fields

variable {k : Key} {es : List (Key × Val)}

/-- A name is found only where it stands. -/
theorem lookup_compactEntry_of_ne {k' : Key} (v : Val) (h : k' ≠ k) :
    (compactEntry k v).lookup k' = none := by
  refine Val.lookup_eq_none fun hmem => ?_
  rcases keys_compactEntry k v with hk | hk <;> rw [hk] at hmem
  · cases hmem
  · exact h (List.mem_singleton.1 hmem)

/-- A key is looked up in the entries made of the entry that has it. -/
theorem lookup_compactSub (hn : (es.map Prod.fst).Nodup) (k : Key) :
    (compactSub es).lookup k = (es.lookup k).bind fun v => (compactEntry k v).lookup k := by
  induction es with
  | nil => rw [compactSub_nil]; rfl
  | cons e r ih =>
    obtain ⟨k', v⟩ := e
    rw [List.map_cons, List.nodup_cons] at hn
    rw [compactSub_cons, List.lookup_append, List.lookup_cons]
    by_cases hk : k = k'
    · subst hk
      have hrest : (compactSub r).lookup k = none :=
        Val.lookup_eq_none fun hmem => hn.1 (keys_compactSub hmem)
      simp [hrest]
    · have hne : (k == k') = false := by simpa using hk
      rw [lookup_compactEntry_of_ne v hk, hne, ih hn.2]
      rfl

/-- Entries are an array if there are any. -/
theorem wrap_ne_nil (h : es ≠ []) : wrap es = .arr es := by
  cases es with
  | nil => exact absurd rfl h
  | cons e r => rfl

/-- A field that is not a list. -/
theorem get_compact_single (hn : (es.map Prod.fst).Nodup) {f : String} (hf : f ∉ listtags)
    (hne : compactSub es ≠ []) : (compact (.arr es)).get f = compact ((Val.arr es).get f) := by
  rw [compact_arr, wrap_ne_nil hne, Val.get, Val.get, Val.idx_arr, Val.idx_arr,
    lookup_compactSub hn]
  cases es.lookup (.str f) with
  | none =>
    show Val.null = compact .null
    rw [compact]
  | some v =>
    show (List.lookup (.str f) (compactEntry (.str f) v)).getD .null = compact v
    rw [compactEntry_single (k := .str f) hf]
    simp

/-- The items of a field that is a list. -/
theorem vals_compact_list (hn : (es.map Prod.fst).Nodup) {f : String} (hf : f ∈ listtags)
    (hv : ∀ v, es.lookup (.str f) = some v → v.isArray = true) :
    ((compact (.arr es)).get f).vals = (((Val.arr es).get f).vals).map compact := by
  have hlookup := lookup_compactSub hn (.str f)
  have hwrap : ((compact (.arr es)).get f).vals =
      (((compactSub es).lookup (.str f)).getD .null).vals := by
    rw [compact_arr]
    cases compactSub es with
    | nil => rfl
    | cons e r => rfl
  rw [hwrap, hlookup, Val.get, Val.idx_arr]
  cases h : es.lookup (.str f) with
  | none => rfl
  | some v =>
    cases v with
    | arr items =>
      show (((compactEntry (.str f) (.arr items)).lookup (.str f)).getD .null).vals =
        ((Val.arr items).vals).map compact
      rw [compactEntry_list (k := .str f) hf]
      have hvals : ((Val.arr items).vals).map compact = items.map fun e => compact e.2 := by
        rw [Val.vals, Val.entries, List.map_map]
        rfl
      rw [hvals]
      cases hxs : items.map fun e => compact e.2 with
      | nil => rfl
      | cons x r => simp [listEntry]
    | _ => cases hv _ h

/-- A map that keeps a field that is not a list keeps something. -/
theorem compactSub_ne_nil {v : Val} {f : String} (hf : f ∉ listtags)
    (h : (Key.str f, v) ∈ es) : compactSub es ≠ [] := by
  induction es with
  | nil => cases h
  | cons e r ih =>
    obtain ⟨k, w⟩ := e
    rw [compactSub_cons]
    rcases List.mem_cons.1 h with h | h
    · obtain ⟨rfl, rfl⟩ := Prod.mk.inj h
      rw [compactEntry_single (k := .str f) hf]
      simp
    · intro hnil
      exact ih h (List.append_eq_nil_iff.1 hnil).2

end Fields

/-! ## Loose trees -/

mutual

/-- A value below a map: a string, a number, or a map with distinct keys. -/
inductive Loose (P : String → Prop) : Val → Prop
  | str {s} : P s → Loose P (.str s)
  | int {n : ℤ} : P (toString n) → Loose P (.int n)
  | map {es} : (es.map Prod.fst).Nodup → (∀ e ∈ es, LooseEntry P e) → Loose P (.arr es)

/-- An entry of a map: a list with any offsets under a list tag, a loose value under any
other. -/
inductive LooseEntry (P : String → Prop) : Key × Val → Prop
  | list {n items} : LowerName n → n ∈ listtags → (∀ e ∈ items, Loose P e.2) →
      LooseEntry P (.str n, .arr items)
  | single {n v} : LowerName n → n ∉ listtags → Loose P v → LooseEntry P (.str n, v)

end

/-! ## Children -/

section Children

variable {n : String} {v w : Val}

/-- An element whose name is no list tag is put under the name. -/
theorem addChild_single (hn : LowerName n) (hl : n ∉ listtags) (ho : opens v = true)
    (hk : look (.str n) v = .null) :
    addChild (strtoupper n) (.ok w) v = .ok (v.set (.str n) (finish w)) := by
  unfold addChild openChild closeChild
  rw [hn.folded, if_neg hl, follow_of_opens ho, hk]
  show Except.ok _ = Except.ok _
  rw [if_neg hl, set_set]

/-- Any other is added to the list under it. -/
theorem addChild_item (hn : LowerName n) (hl : n ∈ listtags) (ho : opens v = true) :
    addChild (strtoupper n) (.ok w) v =
      .ok (v.set (.str n)
        ((makeArray (look (.str n) v)).set (.int (makeArray (look (.str n) v)).count)
          (finish w))) := by
  unfold addChild openChild closeChild
  rw [hn.folded, if_pos hl, follow_of_opens ho]
  show Except.ok _ = Except.ok _
  rw [if_pos hl, look_set_self, set_set]

/-- A list that is there is kept. -/
theorem makeArray_ofList (xs : List Val) : makeArray (.ofList xs) = .ofList xs := rfl

/-- A list that is not there is made. -/
theorem makeArray_null : makeArray .null = .ofList [] := rfl

/-- A new key is put behind the others. -/
theorem set_of_not_mem {k : Key} (h : k ∉ v.entries.map Prod.fst) :
    v.set k w = .arr (v.entries ++ [(k, w)]) := by
  rw [Val.set, Val.setEntry_of_not_mem h]

end Children

/-! ## Loose trees are read back compact -/

section Reread

variable {P : String → Prop} {g : String → String}

/-- The element written for a value is read back as its compact form. -/
def ReadsBack (g : String → String) (x : Val) : Prop :=
  ∃ c, (∀ ent v, rereadItem g ent x v = addChild (strtoupper ent) (.ok c) v) ∧
    finish c = compact x

/-- A map while its entries are added. -/
def addEntries (v : Val) : List (Key × Val) → Val
  | [] => v
  | es => .arr (v.entries ++ es)

/-- Entries are put behind those that are there. -/
theorem addEntries_ne_nil {v : Val} {es : List (Key × Val)} (h : es ≠ []) :
    addEntries v es = .arr (v.entries ++ es) := by
  cases es with
  | nil => exact absurd rfl h
  | cons e r => rfl

/-- The same if there are none to put. -/
theorem entries_addEntries (v : Val) (es : List (Key × Val)) :
    (addEntries v es).entries = v.entries ++ es := by
  cases es with
  | nil => rw [addEntries, List.append_nil]
  | cons e r => rfl

/-- Entries can be put in two parts. -/
theorem addEntries_append (v : Val) (es es' : List (Key × Val)) :
    addEntries (addEntries v es) es' = addEntries v (es ++ es') := by
  cases es' with
  | nil => rw [List.append_nil, addEntries]
  | cons e r =>
    rw [addEntries_ne_nil (by simp), entries_addEntries, addEntries_ne_nil (by simp),
      List.append_assoc]

/-- What could be read into still can. -/
theorem opens_addEntries {v : Val} (h : opens v = true) (es : List (Key × Val)) :
    opens (addEntries v es) = true := by
  cases es with
  | nil => exact h
  | cons e r => rfl

/-- The entry is written so that its compact form is added to any map without its key. -/
def EntryReadsBack (g : String → String) (e : Key × Val) : Prop :=
  ∀ v, opens v = true → e.1 ∉ v.entries.map Prod.fst →
    rereadEnt g e.1.toStr e.2 v = .ok (addEntries v (compactEntry e.1 e.2))

/-- A text is read back if its characters are. -/
theorem readsBack_str {s : String} (h : g s = s) : ReadsBack g (.str s) := by
  refine ⟨.str s, fun ent v => ?_, ?_⟩
  · rw [rereadItem_scalar rfl, rereadScalar]
    simp only [written, Val.toStr]
    rw [h]
  · rw [compact]
    rfl

/-- So is a number, as the text it was written as. -/
theorem readsBack_int {n : ℤ} (h : g (toString n) = toString n) : ReadsBack g (.int n) := by
  refine ⟨.str (toString n), fun ent v => ?_, ?_⟩
  · rw [rereadItem_scalar rfl, rereadScalar]
    simp only [written, Val.toStr]
    rw [h]
  · rw [compact]
    rfl

/-- The items are appended to the list that is the last entry of a map. -/
theorem rereadItems_loose {n : String} (hn : LowerName n) (hl : n ∈ listtags)
    {acc : List (Key × Val)} (hacc : Key.str n ∉ acc.map Prod.fst) {es : List (Key × Val)}
    (hes : ∀ e ∈ es, ReadsBack g e.2) (xs : List Val) :
    rereadItems g n es (.arr (acc ++ [(.str n, .ofList xs)])) =
      .ok (.arr (acc ++ [(.str n, .ofList (xs ++ es.map fun e => compact e.2))])) := by
  induction es generalizing xs with
  | nil => rw [rereadItems_nil, List.map_nil, List.append_nil]
  | cons e r ih =>
    obtain ⟨k, x⟩ := e
    obtain ⟨c, hitem, hfin⟩ := hes (k, x) List.mem_cons_self
    have hset := fun w => set_of_not_mem (v := .arr acc) (w := w) hacc
    simp only [Val.entries] at hset
    have hlook : look (.str n) (.arr (acc ++ [(.str n, .ofList xs)])) = .ofList xs := by
      rw [← hset, look_set_self]
    have hfirst : rereadItem g n x (.arr (acc ++ [(.str n, .ofList xs)])) =
        .ok (.arr (acc ++ [(.str n, .ofList (xs ++ [compact x]))])) := by
      rw [hitem, addChild_item hn hl rfl, hlook, makeArray_ofList, Val.ofList_append, hfin,
        ← hset, ← hset, set_set]
    have hrest := ih (fun e he => hes e (List.mem_cons_of_mem _ he)) (xs ++ [compact x])
    rw [rereadItems_cons]
    show (rereadItem g n x _ >>= rereadItems g n r) = _
    rw [hfirst]
    show rereadItems g n r _ = _
    rw [hrest, List.map_cons, List.append_assoc]
    rfl

/-- An entry is read back if its value is. -/
theorem entryReadsBack_single {n : String} {x : Val} (hn : LowerName n) (hl : n ∉ listtags)
    (hx : ReadsBack g x) : EntryReadsBack g (.str n, x) := by
  intro v ho hk
  obtain ⟨c, hitem, hfin⟩ := hx
  have hent : rereadEnt g n x v = addChild (strtoupper n) (.ok c) v := by
    rw [← hitem]
    cases x with
    | arr es => rw [rereadEnt_arr, rereadItem_arr, if_neg (by rwa [hn.2])]
    | _ => rw [rereadEnt_scalar rfl, rereadItem_scalar rfl]
  show rereadEnt g n x v = _
  rw [hent, addChild_single hn hl ho (look_of_not_mem hk), hfin, set_of_not_mem hk,
    compactEntry_single (k := .str n) hl]
  rfl

/-- A list is read back if all its items are. -/
theorem entryReadsBack_list {n : String} {items : List (Key × Val)} (hn : LowerName n)
    (hl : n ∈ listtags) (hitems : ∀ e ∈ items, ReadsBack g e.2) :
    EntryReadsBack g (.str n, .arr items) := by
  intro v ho hk
  show rereadEnt g n (.arr items) v = _
  rw [rereadEnt_arr, if_pos (by rwa [hn.2]), compactEntry_list (k := .str n) hl]
  -- the first item creates the list, the others are appended to it
  cases items with
  | nil => rw [rereadItems_nil]; rfl
  | cons e r =>
    obtain ⟨k, x⟩ := e
    obtain ⟨c, hitem, hfin⟩ := hitems (k, x) List.mem_cons_self
    have hfirst : rereadItem g n x v =
        .ok (.arr (v.entries ++ [(.str n, .ofList [compact x])])) := by
      rw [hitem, addChild_item hn hl ho, look_of_not_mem hk, makeArray_null, Val.ofList_append,
        hfin, set_of_not_mem hk]
      rfl
    rw [rereadItems_cons]
    show (rereadItem g n x v >>= rereadItems g n r) = _
    rw [hfirst]
    show rereadItems g n r _ = _
    rw [rereadItems_loose hn hl hk fun e he => hitems e (List.mem_cons_of_mem _ he)]
    rfl

/-- Entries are added one after the other. -/
theorem rereadSub_entries {es : List (Key × Val)} (hes : ∀ e ∈ es, EntryReadsBack g e)
    (hnodup : (es.map Prod.fst).Nodup) {v : Val} (ho : opens v = true)
    (hv : ∀ k ∈ es.map Prod.fst, k ∉ v.entries.map Prod.fst) :
    rereadSub g es v = .ok (addEntries v (compactSub es)) := by
  induction es generalizing v with
  | nil => rw [rereadSub_nil, compactSub_nil]; rfl
  | cons e r ih =>
    obtain ⟨k, x⟩ := e
    rw [List.map_cons, List.nodup_cons] at hnodup
    have hfirst := hes (k, x) List.mem_cons_self v ho
      (hv k (by rw [List.map_cons]; exact List.mem_cons_self))
    rw [rereadSub_cons]
    show (rereadEnt g k.toStr x v >>= rereadSub g r) = _
    rw [hfirst]
    show rereadSub g r (addEntries v (compactEntry k x)) = _
    rw [ih (fun e he => hes e (List.mem_cons_of_mem _ he)) hnodup.2 (opens_addEntries ho _),
      addEntries_append, compactSub_cons]
    intro k' hk' hmem
    rw [entries_addEntries, List.map_append, List.mem_append] at hmem
    rcases hmem with hmem | hmem
    · exact hv k' (by rw [List.map_cons]; exact List.mem_cons_of_mem _ hk') hmem
    · rcases keys_compactEntry k x with h | h <;> rw [h] at hmem
      · cases hmem
      · exact hnodup.1 (List.mem_singleton.1 hmem ▸ hk')

/-- Entries with different names are read back into one array. -/
theorem rereadSub_map {es : List (Key × Val)} (hnodup : (es.map Prod.fst).Nodup)
    (hes : ∀ e ∈ es, EntryReadsBack g e) :
    rereadSub g es .null = .ok (addEntries .null (compactSub es)) :=
  rereadSub_entries hes hnodup rfl fun _ _ => List.not_mem_nil

/-- Once it is closed an array of no entries is the empty text. -/
theorem finish_addEntries (es : List (Key × Val)) : finish (addEntries .null es) = wrap es := by
  cases es with
  | nil => rfl
  | cons e r => rfl

/-- So an array is read back if its entries are. -/
theorem readsBack_map {es : List (Key × Val)} (hnodup : (es.map Prod.fst).Nodup)
    (hes : ∀ e ∈ es, EntryReadsBack g e) : ReadsBack g (.arr es) := by
  refine ⟨addEntries .null (compactSub es), fun ent v => ?_, ?_⟩
  · rw [rereadItem_arr, rereadSub_map hnodup hes]
  · rw [finish_addEntries, compact_arr]

mutual

/-- A loose value is read back in its compact form, if its texts are. -/
theorem Loose.readsBack (hg : ∀ s, P s → g s = s) : ∀ {x : Val}, Loose P x → ReadsBack g x
  | _, .str h => readsBack_str (hg _ h)
  | _, .int h => readsBack_int (hg _ h)
  | _, .map hnodup hes => readsBack_map hnodup fun e he => (hes e he).readsBack hg

/-- An entry of a loose tree is read back. -/
theorem LooseEntry.readsBack (hg : ∀ s, P s → g s = s) : ∀ {e : Key × Val}, LooseEntry P e → EntryReadsBack g e
  | _, .list hn hl hitems => entryReadsBack_list hn hl fun e he => (hitems e he).readsBack hg
  | _, .single hn hl hv => entryReadsBack_single hn hl (hv.readsBack hg)

end

/-- A loose map is written and read back as its compact form. -/
theorem rereadSub_loose (hg : ∀ s, P s → g s = s) {es : List (Key × Val)} (h : Loose P (.arr es)) :
    rereadSub g es .null = .ok (addEntries .null (compactSub es)) := by
  cases h with
  | map hnodup hes => exact rereadSub_map hnodup fun e he => (hes e he).readsBack hg

end Reread

/-! ## What is written for a loose tree -/

section Written

variable {P T : String → Prop}

/-- What holds of each item holds of the list. -/
theorem everyItems_of_forall {n : String} {es : List (Key × Val)}
    (h : ∀ e ∈ es, EveryItem (isName · = true) T n e.2) :
    EveryItems (isName · = true) T n es := by
  induction es with
  | nil => rw [EveryItems]; trivial
  | cons e r ih =>
    obtain ⟨k, x⟩ := e
    rw [EveryItems]
    exact ⟨h (k, x) List.mem_cons_self, ih fun e he => h e (List.mem_cons_of_mem _ he)⟩

/-- What holds of each entry holds of the array. -/
theorem everySub_of_forall {es : List (Key × Val)}
    (h : ∀ e ∈ es, EveryEnt (isName · = true) T e.1.toStr e.2) :
    EverySub (isName · = true) T es := by
  induction es with
  | nil => rw [EverySub]; trivial
  | cons e r ih =>
    obtain ⟨k, x⟩ := e
    rw [EverySub]
    exact ⟨h (k, x) List.mem_cons_self, ih fun e he => h e (List.mem_cons_of_mem _ he)⟩

mutual

/-- A loose value is written under XML names only, wherever it is put. -/
theorem Loose.everyItem (hPT : ∀ s, P s → T s) : ∀ {x : Val}, Loose P x → ∀ n, isName n = true →
    EveryItem (isName · = true) T n x
  | _, .str h, n, hn => by
    rw [everyItem_scalar rfl]
    intro s hs
    obtain rfl := Option.some.inj hs
    exact ⟨hn, hPT _ h⟩
  | _, .int h, n, hn => by
    rw [everyItem_scalar rfl]
    intro s hs
    obtain rfl := Option.some.inj hs
    exact ⟨hn, hPT _ h⟩
  | _, .map _ hes, n, hn => by
    rw [EveryItem]
    exact ⟨hn, everySub_of_forall fun e he => (hes e he).everyEnt hPT⟩

/-- The names of a loose tree are XML names, and its texts are as they have to be. -/
theorem LooseEntry.everyEnt (hPT : ∀ s, P s → T s) : ∀ {e : Key × Val}, LooseEntry P e →
    EveryEnt (isName · = true) T e.1.toStr e.2
  | _, @LooseEntry.list _ n items hn hl hitems => by
    show EveryEnt _ T n (.arr items)
    rw [EveryEnt, if_pos (by rwa [hn.2])]
    exact everyItems_of_forall fun e he => (hitems e he).everyItem hPT n hn.1
  | _, @LooseEntry.single _ n v hn hl hv => by
    have hitem := hv.everyItem hPT n hn.1
    show EveryEnt _ T n v
    cases v with
    | arr es =>
      rw [EveryItem] at hitem
      rwa [EveryEnt, if_neg (by rwa [hn.2])]
    | _ =>
      rw [everyItem_scalar rfl] at hitem
      rwa [everyEnt_scalar rfl]

end

/-- The same of all entries of a loose tree. -/
theorem Loose.everySub (hPT : ∀ s, P s → T s) {es : List (Key × Val)} (h : Loose P (.arr es)) :
    EverySub (isName · = true) T es := by
  cases h with
  | map _ hes => exact everySub_of_forall fun e he => (hes e he).everyEnt hPT

end Written

end XmlParse
end Askozia
