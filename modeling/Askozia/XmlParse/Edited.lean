import Askozia.Php.Edits
import Askozia.XmlParse.Canonical

/-!
# Trees that were edited

Taking items out of the lists of a canonical tree leaves a loose one, with gaps in its lists and lists
without items. Writing it makes it canonical again.

* `Loose.canonical`: what a write makes of a loose tree is canonical;
* `Loose.mapAt`, `Loose.mapAtList` and `Loose.dropAt`: edits that keep a tree loose.
-/

namespace Askozia
namespace XmlParse

open Php

variable {P : String → Prop}

/-! ## Writing makes canonical -/

section Keys

variable {es : List (Key × Val)}

theorem keys_compactSub_sublist : ((compactSub es).map Prod.fst).Sublist (es.map Prod.fst) := by
  induction es with
  | nil => rw [compactSub_nil]
  | cons e r ih =>
    obtain ⟨k, v⟩ := e
    rw [compactSub_cons, List.map_append, List.map_cons]
    rcases keys_compactEntry k v with hk | hk
    · rw [hk]
      exact ih.cons k
    · rw [hk]
      exact ih.cons_cons k

theorem nodup_keys_compactSub (h : (es.map Prod.fst).Nodup) : ((compactSub es).map Prod.fst).Nodup :=
  h.sublist keys_compactSub_sublist

theorem mem_compactSub {e : Key × Val} (h : e ∈ compactSub es) : ∃ e' ∈ es, e ∈ compactEntry e'.1 e'.2 := by
  induction es with
  | nil =>
    rw [compactSub_nil] at h
    cases h
  | cons e' r ih =>
    obtain ⟨k, v⟩ := e'
    rw [compactSub_cons] at h
    rcases List.mem_append.1 h with h | h
    · exact ⟨(k, v), List.mem_cons_self, h⟩
    · obtain ⟨e', he', hmem⟩ := ih h
      exact ⟨e', List.mem_cons_of_mem _ he', hmem⟩

theorem canonical_wrap (hempty : P "") (hnodup : (es.map Prod.fst).Nodup)
    (hes : ∀ e ∈ es, CanonicalEntry P e) : Canonical P (wrap es) := by
  cases es with
  | nil => exact .str hempty
  | cons e r => exact .map (List.cons_ne_nil _ _) hnodup hes

end Keys

mutual

theorem Loose.canonical (hempty : P "") : ∀ {v : Val}, Loose P v → Canonical P (compact v)
  | _, .str h => by
    rw [compact]
    exact .str h
  | _, .int h => by
    rw [compact]
    exact .str h
  | _, .map hnodup hes => by
    rw [compact_arr]
    apply canonical_wrap hempty (nodup_keys_compactSub hnodup)
    intro e he
    obtain ⟨e', he', hmem⟩ := mem_compactSub he
    exact (hes e' he').canonical hempty e hmem

theorem LooseEntry.canonical (hempty : P "") : ∀ {e : Key × Val}, LooseEntry P e →
    ∀ e' ∈ compactEntry e.1 e.2, CanonicalEntry P e'
  | _, @LooseEntry.list _ n items hn hl hitems => by
    intro e' he'
    have he' : e' ∈ compactEntry (.str n) (.arr items) := he'
    rw [compactEntry_list (k := .str n) hl] at he'
    have hall : ∀ x ∈ items.map fun e => compact e.2, Canonical P x := by
      intro x hx
      obtain ⟨e, he, rfl⟩ := List.mem_map.1 hx
      exact (hitems e he).canonical hempty
    generalize items.map (fun e => compact e.2) = xs at he' hall
    cases xs with
    | nil => cases he'
    | cons x r =>
      rw [List.mem_singleton.1 he']
      exact .list hn hl (List.cons_ne_nil _ _) hall
  | _, @LooseEntry.single _ n v hn hl hv => by
    intro e' he'
    have he' : e' ∈ compactEntry (.str n) v := he'
    rw [compactEntry_single (k := .str n) hl] at he'
    rw [List.mem_singleton.1 he']
    exact .single hn hl (hv.canonical hempty)

end

/-! ## Fields of loose maps -/

section Fields

variable {v : Val} {n : String}

theorem Loose.entry (h : Loose P v) (harr : (v.get n).isArray = true) : LooseEntry P (.str n, v.get n) := by
  cases h with
  | @map es hnodup hes =>
    rw [Val.get, Val.idx_arr] at harr ⊢
    cases hlookup : es.lookup (.str n) with
    | none =>
      rw [hlookup] at harr
      cases harr
    | some x => exact hes _ (Val.mem_of_lookup hlookup)
  | str _ => cases harr
  | int _ => cases harr

theorem loose_get (h : Loose P v) (hn : n ∉ listtags) (harr : (v.get n).isArray = true) :
    Loose P (v.get n) := by
  have hentry := h.entry harr
  generalize v.get n = x at hentry
  cases hentry with
  | list _ hl _ => exact absurd hl hn
  | single _ _ hv => exact hv

theorem loose_get_list (h : Loose P v) (hn : n ∈ listtags) (harr : (v.get n).isArray = true) :
    ∃ items, v.get n = .arr items ∧ ∀ e ∈ items, Loose P e.2 := by
  have hentry := h.entry harr
  generalize v.get n = x at hentry
  cases hentry with
  | list _ _ hitems => exact ⟨_, rfl, hitems⟩
  | single _ hl _ => exact absurd hn hl

end Fields

/-! ## Edits -/

section Edits

variable {v : Val} {n : String} {f : Val → Val}

/-- A loose map, whose entry under a key is changed. -/
theorem Loose.mapEntries {es : List (Key × Val)} (h : Loose P (.arr es))
    (hf : ∀ x, LooseEntry P (.str n, x) → LooseEntry P (.str n, f x)) :
    Loose P (.arr (Val.mapEntry (.str n) f es)) := by
  cases h with
  | map hnodup hes =>
    refine .map (by rwa [Val.keys_mapEntry]) fun e he => ?_
    rcases Val.mem_mapEntry he with he | ⟨x, hx, rfl⟩
    · exact hes e he
    · exact hf x (hes _ hx)

/-- A change under a name that is no list tag. -/
theorem Loose.mapAt (h : Loose P v) (hn : n ∉ listtags) (hf : ∀ x, Loose P x → Loose P (f x)) :
    Loose P (v.mapAt (.str n) f) := by
  cases v with
  | arr es =>
    apply h.mapEntries
    intro x hx
    cases hx with
    | list _ hl _ => exact absurd hl hn
    | single hname hl hv => exact .single hname hl (hf x hv)
  | _ => exact h

/-- A change of a list that leaves a list. -/
theorem Loose.mapAtList (h : Loose P v) (hn : n ∈ listtags)
    (hf : ∀ items, (∀ e ∈ items, Loose P e.2) →
      ∃ items', f (.arr items) = .arr items' ∧ ∀ e ∈ items', Loose P e.2) :
    Loose P (v.mapAt (.str n) f) := by
  cases v with
  | arr es =>
    apply h.mapEntries
    intro x hx
    generalize he : ((Key.str n, x) : Key × Val) = e at hx
    cases hx with
    | @list m items hname hl hitems =>
      obtain ⟨hkey, rfl⟩ := Prod.mk.inj he
      obtain ⟨items', heq, hitems'⟩ := hf items hitems
      rw [heq, hkey]
      exact .list hname hl hitems'
    | single _ hl _ =>
      obtain ⟨hkey, -⟩ := Prod.mk.inj he
      exact absurd (Key.str.inj hkey ▸ hn) hl
  | _ => exact h

/-- Entries that are left out. -/
theorem Loose.dropAt (h : Loose P v) (k : Key) (p : Val → Bool) : Loose P (v.dropAt k p) := by
  cases h with
  | map hnodup hes =>
    refine .map (hnodup.sublist ?_) fun e he => hes e (List.mem_filter.1 he).1
    exact List.Sublist.map _ List.filter_sublist
  | str h => exact .str h
  | int h => exact .int h

/-- Items that are left out. -/
theorem loose_dropItems (p : Val → Bool) (items : List (Key × Val)) (h : ∀ e ∈ items, Loose P e.2) :
    ∃ items', (Val.arr items).dropItems p = .arr items' ∧ ∀ e ∈ items', Loose P e.2 :=
  ⟨_, rfl, fun e he => h e (List.mem_filter.1 he).1⟩

/-- Items that are changed. -/
theorem loose_mapItems (hf : ∀ x, Loose P x → Loose P (f x)) (items : List (Key × Val))
    (h : ∀ e ∈ items, Loose P e.2) :
    ∃ items', (Val.arr items).mapItems f = .arr items' ∧ ∀ e ∈ items', Loose P e.2 := by
  refine ⟨_, rfl, ?_⟩
  intro e he
  obtain ⟨e', he', rfl⟩ := List.mem_map.1 he
  exact hf _ (h e' he')

end Edits

end XmlParse
end Askozia
