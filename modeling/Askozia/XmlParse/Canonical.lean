import Askozia.XmlParse.Compact

/-!
# Trees that survive a write

A tree is canonical when it looks like something the reader builds: maps with lowercase
names, list tags holding nonempty lists, strings that a predicate `P` allows.

* `rereadSub_canonical`: a canonical map is written and read back unchanged;
* `canonical_rereadSub`: whatever is read back is canonical.

`P` is a parameter because the two uses differ: printable strings survive every way of
cutting character data, normalised strings survive the one expat uses.
-/

namespace Askozia
namespace XmlParse

open Php Xml

mutual

/-- A value below a map: a string, or a nonempty map with distinct keys. -/
inductive Canonical (P : String → Prop) : Val → Prop
  | str {s} : P s → Canonical P (.str s)
  | map {es} : es ≠ [] → (es.map Prod.fst).Nodup → (∀ e ∈ es, CanonicalEntry P e) →
      Canonical P (.arr es)

/-- An entry of a map: a nonempty list under a list tag, a canonical value under any other. -/
inductive CanonicalEntry (P : String → Prop) : Key × Val → Prop
  | list {n items} : LowerName n → n ∈ listtags → items ≠ [] → (∀ x ∈ items, Canonical P x) →
      CanonicalEntry P (.str n, .ofList items)
  | single {n v} : LowerName n → n ∉ listtags → Canonical P v → CanonicalEntry P (.str n, v)

end

/-! ## Names -/

/-- On seven-bit characters a test can be checked by going through all of them. -/
theorem forall_ascii {p : Char → Prop} (h : ∀ n < 128, p (Char.ofNat n)) {c : Char}
    (hc : c.toNat < 128) : p c := by
  simpa using h c.toNat hc

/-- A name stays one in lower case. -/
theorem isNameStart_toLower {c : Char} (hc : c.toNat < 128) (h : isNameStart c = true) :
    isNameStart c.toLower = true :=
  forall_ascii (p := fun c => isNameStart c = true → isNameStart c.toLower = true)
    (by decide) hc h

theorem isNameChar_toLower {c : Char} (hc : c.toNat < 128) (h : isNameChar c = true) :
    isNameChar c.toLower = true :=
  forall_ascii (p := fun c => isNameChar c = true → isNameChar c.toLower = true)
    (by decide) hc h

/-- Lower case is lower case already. -/
theorem toLower_toLower {c : Char} (hc : c.toNat < 128) : c.toLower.toLower = c.toLower :=
  forall_ascii (p := fun c => c.toLower.toLower = c.toLower) (by decide) hc

/-- Lower case makes any name a lowercase name. -/
theorem lowerName_strtolower {n : String} (h : isName n = true) : LowerName (strtolower n) := by
  have hascii := ascii_of_isName h
  constructor
  · unfold isName at h ⊢
    split at h
    · simp at h
    · next c cs hn =>
      rw [hn] at hascii
      simp only [Bool.and_eq_true, List.all_eq_true] at h
      simp only [strtolower, hn, String.toList_ofList, List.map_cons, Bool.and_eq_true,
        List.all_eq_true, List.mem_map]
      refine ⟨isNameStart_toLower (hascii c List.mem_cons_self) h.1, ?_⟩
      rintro _ ⟨d, hd, rfl⟩
      exact isNameChar_toLower (hascii d (List.mem_cons_of_mem c hd)) (h.2 d hd)
  · unfold strtolower
    rw [String.toList_ofList, List.map_map]
    congr 1
    exact List.map_congr_left fun c hc => toLower_toLower (hascii c hc)

/-! ## Canonical trees are fixed -/

section Fixed

variable {P : String → Prop} {g : String → String}

/-- A canonical value is there. -/
theorem Canonical.ne_null {x : Val} (h : Canonical P x) : x ≠ .null := by
  cases h <;> simp

/-- Closing its element changes nothing. -/
theorem Canonical.finish {x : Val} (h : Canonical P x) : finish x = x := by
  rw [XmlParse.finish, if_neg h.ne_null]

/-- The entries of a list have its items for values. -/
theorem snd_mem_of_mem_ofList {items : List Val} {e : Key × Val}
    (h : e ∈ (Val.ofList items).entries) : e.2 ∈ items := by
  have hvals := Val.ofList_vals items
  exact hvals ▸ List.mem_map_of_mem h

mutual

/-- A canonical tree is loose. -/
theorem Canonical.loose : ∀ {x : Val}, Canonical P x → Loose P x
  | _, .str h => .str h
  | _, .map _ hnodup hes => .map hnodup fun e he => (hes e he).loose

/-- So is each of its entries. -/
theorem CanonicalEntry.loose : ∀ {e : Key × Val}, CanonicalEntry P e → LooseEntry P e
  | _, .list hn hl _ hitems =>
    .list hn hl fun _ he => (hitems _ (snd_mem_of_mem_ofList he)).loose
  | _, .single hn hl hv => .single hn hl hv.loose

end

/-- Entries that are compact already are kept as they are. -/
theorem compactSub_eq_self {es : List (Key × Val)} (h : ∀ e ∈ es, compactEntry e.1 e.2 = [e]) :
    compactSub es = es := by
  induction es with
  | nil => exact compactSub_nil
  | cons e r ih =>
    obtain ⟨k, v⟩ := e
    have hfirst := h (k, v) List.mem_cons_self
    rw [compactSub_cons, hfirst, ih fun e he => h e (List.mem_cons_of_mem _ he)]
    rfl

/-- A list of items that do not change does not change. -/
theorem listEntry_ofList {k : Key} {items : List Val} (hne : items ≠ [])
    (h : ∀ x ∈ items, compact x = x) :
    listEntry k ((Val.ofList items).entries.map fun e => compact e.2) =
      [(k, .ofList items)] := by
  have hitems : ((Val.ofList items).entries.map fun e => compact e.2) = items := by
    have hsnd : ((Val.ofList items).entries.map fun e => compact e.2) =
        (Val.ofList items).entries.map Prod.snd :=
      List.map_congr_left fun e he => h e.2 (snd_mem_of_mem_ofList he)
    rw [hsnd, Val.ofList_vals]
  rw [hitems]
  cases items with
  | nil => exact absurd rfl hne
  | cons x r => rfl

mutual

/-- Nothing in a canonical tree is left to compact. -/
theorem Canonical.compact : ∀ {x : Val}, Canonical P x → compact x = x
  | _, .str _ => by rw [XmlParse.compact]
  | .arr es, .map hne _ hes => by
    rw [compact_arr, compactSub_eq_self fun e he => (hes e he).compact]
    cases es with
    | nil => exact absurd rfl hne
    | cons e r => rfl

/-- Nor in an entry of one. -/
theorem CanonicalEntry.compact : ∀ {e : Key × Val}, CanonicalEntry P e →
    compactEntry e.1 e.2 = [e]
  | _, @CanonicalEntry.list _ n items hn hl hne hitems => by
    show compactEntry (.str n) (.arr (Val.ofList items).entries) = _
    rw [compactEntry_list (k := .str n) hl]
    exact listEntry_ofList hne fun x hx => (hitems x hx).compact
  | _, @CanonicalEntry.single _ n v hn hl hv => by
    show compactEntry (.str n) v = _
    rw [compactEntry_single (k := .str n) hl, hv.compact]

end

/-- Nor in all of them. -/
theorem Canonical.compactSub {es : List (Key × Val)} (h : Canonical P (.arr es)) :
    compactSub es = es := by
  cases h with
  | map _ _ hes => exact compactSub_eq_self fun e he => (hes e he).compact

/-- A canonical map is written and read back unchanged. -/
theorem rereadSub_canonical (hg : ∀ s, P s → g s = s) {es : List (Key × Val)}
    (h : Canonical P (.arr es)) : rereadSub g es .null = .ok (.arr es) := by
  have hne : es ≠ [] := by
    cases h with
    | map hne _ _ => exact hne
  rw [rereadSub_loose hg h.loose, h.compactSub, addEntries_ne_nil hne]
  rfl

/-- A canonical map is written under XML names only. -/
theorem Canonical.everySub {T : String → Prop} (hPT : ∀ s, P s → T s) {es : List (Key × Val)}
    (h : Canonical P (.arr es)) : EverySub (isName · = true) T es := h.loose.everySub hPT

end Fixed

/-! ## What is read is canonical -/

section Closed

variable {P : String → Prop} {g : String → String}

/-- The value of an element while its children are read. -/
def MapOk (P : String → Prop) (v : Val) : Prop := v = .null ∨ ∃ es, v = .arr es ∧ Canonical P v

/-- Names occur once, and every entry is canonical. -/
theorem MapOk.entries {v : Val} (h : MapOk P v) :
    (v.entries.map Prod.fst).Nodup ∧ ∀ e ∈ v.entries, CanonicalEntry P e := by
  rcases h with rfl | ⟨es, rfl, h⟩
  · exact ⟨List.nodup_nil, fun e he => absurd he List.not_mem_nil⟩
  · cases h with
    | map _ hnodup hes => exact ⟨hnodup, hes⟩

/-- Assigning under a name keeps both. -/
theorem MapOk.set {v : Val} (h : MapOk P v) {k : Key} {x : Val} (he : CanonicalEntry P (k, x)) :
    MapOk P (v.set k x) := by
  obtain ⟨hnodup, hes⟩ := h.entries
  refine .inr ⟨_, rfl, .map Val.setEntry_ne_nil (Val.nodup_setEntry hnodup) fun e hmem => ?_⟩
  rcases Val.mem_setEntry hmem with rfl | hmem
  · exact he
  · exact hes e hmem

/-- Under a list tag there is a list, or nothing yet. -/
theorem MapOk.look_list {v : Val} (h : MapOk P v) {n : String} (hl : n ∈ listtags) :
    ∃ items, makeArray (look (.str n) v) = .ofList items ∧ ∀ x ∈ items, Canonical P x := by
  have hnil : ∃ items, makeArray .null = .ofList items ∧ ∀ x ∈ items, Canonical P x :=
    ⟨[], makeArray_null, fun x hx => absurd hx List.not_mem_nil⟩
  rcases h with rfl | ⟨es, rfl, h⟩
  · exact hnil
  · cases hlook : es.lookup (.str n) with
    | none =>
      rw [look, hlook]
      exact hnil
    | some x =>
      cases h with
      | map _ _ hes =>
        have hent := hes _ (Val.mem_of_lookup hlook)
        rw [look, hlook]
        cases hent with
        | list _ _ _ hitems => exact ⟨_, makeArray_ofList _, hitems⟩
        | single _ hnl _ => exact absurd hl hnl

/-- A canonical child keeps them as well. -/
theorem mapOk_addChild {ent : String} {c v v' : Val} (hn : isName ent = true) (hv : MapOk P v)
    (hc : Canonical P (finish c)) (h : addChild (strtoupper ent) (.ok c) v = .ok v') :
    MapOk P v' := by
  unfold addChild at h
  cases ho : openChild (strtoupper ent) v with
  | error e => rw [ho] at h; cases h
  | ok v₁ =>
    rw [ho] at h
    obtain rfl := Except.ok.inj h
    have hlower := lowerName_strtolower hn
    obtain ⟨-, hcase⟩ := openChild_ok ho
    unfold closeChild
    rw [strtolower_folded hn] at hcase ⊢
    rcases hcase with ⟨hl, rfl⟩ | ⟨hl, -, rfl⟩
    · obtain ⟨items, hitems, hcan⟩ := hv.look_list hl
      rw [if_pos hl, look_set_self, set_set, hitems, Val.ofList_append]
      refine hv.set (.list hlower hl (by simp) fun x hx => ?_)
      rcases List.mem_append.1 hx with hx | hx
      · exact hcan x hx
      · rwa [List.mem_singleton.1 hx]
    · rw [if_neg hl, set_set]
      exact hv.set (.single hlower hl hc)

/-- What is closed is canonical. -/
theorem canonical_finish (hP : P "") {c : Val} (h : MapOk P c) : Canonical P (finish c) := by
  rcases h with rfl | ⟨es, rfl, h⟩
  · exact .str hP
  · rwa [h.finish]

/-- An element that contains others keeps them. -/
theorem mapOk_block (hP : P "") {ent : String} {es : List (Key × Val)} (hn : isName ent = true)
    (hsub : ∀ v v', MapOk P v → rereadSub g es v = .ok v' → MapOk P v') {v v' : Val}
    (hv : MapOk P v) (h : addChild (strtoupper ent) (rereadSub g es .null) v = .ok v') :
    MapOk P v' := by
  cases hc : rereadSub g es .null with
  | error e =>
    rw [hc] at h
    unfold addChild at h
    cases ho : openChild (strtoupper ent) v with
    | error e => rw [ho] at h; cases h
    | ok v₁ => rw [ho] at h; cases h
  | ok c =>
    rw [hc] at h
    exact mapOk_addChild hn hv (canonical_finish hP (hsub _ _ (.inl rfl) hc)) h

/-- An element with a text keeps them if the text is as it has to be. -/
theorem mapOk_scalar {ent : String} {x v v' : Val}
    (hx : EveryScalar (isName · = true) (fun s => P (g s)) ent x) (hv : MapOk P v)
    (h : rereadScalar g ent x v = .ok v') : MapOk P v' := by
  unfold rereadScalar at h
  split at h
  · exact Except.ok.inj h ▸ hv
  · next s hs =>
    obtain ⟨hn, hPs⟩ := hx s hs
    exact mapOk_addChild (c := .str (g s)) hn hv (.str hPs) h

theorem mapOk_ent_scalar {ent : String} {x v v' : Val} (hx : x.isArray = false)
    (ht : EveryEnt (isName · = true) (fun s => P (g s)) ent x) (hv : MapOk P v)
    (h : rereadEnt g ent x v = .ok v') : MapOk P v' := by
  rw [rereadEnt_scalar hx] at h
  exact mapOk_scalar ((everyEnt_scalar hx ent).1 ht) hv h

theorem mapOk_item_scalar {ent : String} {x v v' : Val} (hx : x.isArray = false)
    (ht : EveryItem (isName · = true) (fun s => P (g s)) ent x) (hv : MapOk P v)
    (h : rereadItem g ent x v = .ok v') : MapOk P v' := by
  rw [rereadItem_scalar hx] at h
  exact mapOk_scalar ((everyItem_scalar hx ent).1 ht) hv h

/-- Two parts that keep them do so together. -/
theorem mapOk_bind {x : Except Die Val} {f : Val → Except Die Val} {v' : Val}
    (hx : ∀ w, x = .ok w → MapOk P w) (hf : ∀ w, MapOk P w → f w = .ok v' → MapOk P v')
    (h : x >>= f = .ok v') : MapOk P v' := by
  cases x with
  | error e => cases h
  | ok w => exact hf w (hx w rfl) h

mutual

/-- What is read back from an array is canonical, entry by entry. -/
theorem mapOk_sub (hP : P "") : ∀ (es : List (Key × Val)), EverySub (isName · = true) (fun s => P (g s)) es →
    ∀ v v', MapOk P v → rereadSub g es v = .ok v' → MapOk P v'
  | [], _, v, v', hv, h => by
    rw [rereadSub_nil] at h
    exact Except.ok.inj h ▸ hv
  | (ent, val) :: r, ht, v, v', hv, h => by
    rw [EverySub] at ht
    rw [rereadSub_cons] at h
    exact mapOk_bind (fun w hw => mapOk_ent hP val ent.toStr ht.1 v w hv hw)
      (fun w hw h => mapOk_sub hP r ht.2 w v' hw h) h

theorem mapOk_ent (hP : P "") : ∀ (x : Val) (ent : String),
    EveryEnt (isName · = true) (fun s => P (g s)) ent x →
    ∀ v v', MapOk P v → rereadEnt g ent x v = .ok v' → MapOk P v'
  | .arr es, ent, ht, v, v', hv, h => by
    rw [EveryEnt] at ht
    rw [rereadEnt_arr] at h
    split at h
    · next hl =>
      rw [if_pos hl] at ht
      exact mapOk_items hP es ent ht v v' hv h
    · next hl =>
      rw [if_neg hl] at ht
      exact mapOk_block hP ht.1 (mapOk_sub hP es ht.2) hv h
  | .bool _, _, ht, _, _, hv, h => mapOk_ent_scalar rfl ht hv h
  | .null, _, ht, _, _, hv, h => mapOk_ent_scalar rfl ht hv h
  | .int _, _, ht, _, _, hv, h => mapOk_ent_scalar rfl ht hv h
  | .str _, _, ht, _, _, hv, h => mapOk_ent_scalar rfl ht hv h

theorem mapOk_items (hP : P "") : ∀ (es : List (Key × Val)) (ent : String),
    EveryItems (isName · = true) (fun s => P (g s)) ent es →
    ∀ v v', MapOk P v → rereadItems g ent es v = .ok v' → MapOk P v'
  | [], ent, _, v, v', hv, h => by
    rw [rereadItems_nil] at h
    exact Except.ok.inj h ▸ hv
  | (_, cval) :: r, ent, ht, v, v', hv, h => by
    rw [EveryItems] at ht
    rw [rereadItems_cons] at h
    exact mapOk_bind (fun w hw => mapOk_item hP cval ent ht.1 v w hv hw)
      (fun w hw h => mapOk_items hP r ent ht.2 w v' hw h) h

theorem mapOk_item (hP : P "") : ∀ (x : Val) (ent : String),
    EveryItem (isName · = true) (fun s => P (g s)) ent x →
    ∀ v v', MapOk P v → rereadItem g ent x v = .ok v' → MapOk P v'
  | .arr es, ent, ht, v, v', hv, h => by
    rw [EveryItem] at ht
    rw [rereadItem_arr] at h
    exact mapOk_block hP ht.1 (mapOk_sub hP es ht.2) hv h
  | .bool _, _, ht, _, _, hv, h => mapOk_item_scalar rfl ht hv h
  | .null, _, ht, _, _, hv, h => mapOk_item_scalar rfl ht hv h
  | .int _, _, ht, _, _, hv, h => mapOk_item_scalar rfl ht hv h
  | .str _, _, ht, _, _, hv, h => mapOk_item_scalar rfl ht hv h

end

/-- Whatever is read back from what was written under XML names is canonical. -/
theorem canonical_rereadSub (hP : P "") {es : List (Key × Val)} {v : Val}
    (ht : EverySub (isName · = true) (fun s => P (g s)) es)
    (h : rereadSub g es .null = .ok v) : MapOk P v :=
  mapOk_sub hP es ht .null v (.inl rfl) h

end Closed

/-! ## A test -/

mutual

/-- Whether a tree looks like something the reader builds. -/
def isCanonical : Val → Bool
  | .str _ => true
  | .arr es => !es.isEmpty && decide (es.map Prod.fst).Nodup && areCanonical es
  | _ => false

/-- Whether the entries of a map do. -/
def areCanonical : List (Key × Val) → Bool
  | [] => true
  | (k, v) :: r => isCanonicalEntry k v && areCanonical r

/-- Whether what is under a key does. -/
def isCanonicalEntry : Key → Val → Bool
  | .str n, .arr es =>
    isName n && strtolower n == n &&
      if n ∈ listtags then
        !es.isEmpty && decide (Val.arr es = Val.ofList (es.map Prod.snd)) && areItems es
      else !es.isEmpty && decide (es.map Prod.fst).Nodup && areCanonical es
  | .str n, .str _ => isName n && strtolower n == n && !listtags.contains n
  | _, _ => false

/-- Whether the items of a list do. -/
def areItems : List (Key × Val) → Bool
  | [] => true
  | (_, v) :: r => isCanonical v && areItems r

end

mutual

/-- The check of a tree is right. -/
theorem canonical_of_isCanonical : ∀ {v : Val}, isCanonical v = true → Canonical (fun _ => True) v
  | .str _, _ => .str trivial
  | .arr es, h => by
    simp only [isCanonical, Bool.and_eq_true, Bool.not_eq_true', List.isEmpty_eq_false_iff,
      decide_eq_true_eq] at h
    exact .map h.1.1 h.1.2 (canonical_of_areCanonical h.2)
  | .null, h => by simp [isCanonical] at h
  | .bool _, h => by simp [isCanonical] at h
  | .int _, h => by simp [isCanonical] at h

theorem canonical_of_areCanonical : ∀ {es : List (Key × Val)}, areCanonical es = true →
    ∀ e ∈ es, CanonicalEntry (fun _ => True) e
  | [], _, e, he => by cases he
  | (k, v) :: r, h, e, he => by
    simp only [areCanonical, Bool.and_eq_true] at h
    rcases List.mem_cons.1 he with he | he
    · rw [he]
      exact canonical_of_isCanonicalEntry h.1
    · exact canonical_of_areCanonical h.2 e he

theorem canonical_of_isCanonicalEntry : ∀ {k : Key} {v : Val}, isCanonicalEntry k v = true →
    CanonicalEntry (fun _ => True) (k, v)
  | .str n, .arr es, h => by
    simp only [isCanonicalEntry, Bool.and_eq_true, beq_iff_eq] at h
    obtain ⟨hname, h⟩ := h
    split_ifs at h with hn
    · simp only [Bool.and_eq_true, Bool.not_eq_true', List.isEmpty_eq_false_iff,
        decide_eq_true_eq] at h
      rw [h.1.2]
      exact .list hname hn (by simpa using h.1.1) (canonical_of_areItems h.2)
    · simp only [Bool.and_eq_true, Bool.not_eq_true', List.isEmpty_eq_false_iff,
        decide_eq_true_eq] at h
      exact .single hname hn (.map h.1.1 h.1.2 (canonical_of_areCanonical h.2))
  | .str n, .str s, h => by
    simp only [isCanonicalEntry, Bool.and_eq_true, beq_iff_eq, Bool.not_eq_true',
      List.contains_eq_mem, decide_eq_false_iff_not] at h
    exact .single h.1 h.2 (.str trivial)
  | .str _, .null, h => by simp [isCanonicalEntry] at h
  | .str _, .bool _, h => by simp [isCanonicalEntry] at h
  | .str _, .int _, h => by simp [isCanonicalEntry] at h
  | .int _, _, h => by simp [isCanonicalEntry] at h

theorem canonical_of_areItems : ∀ {es : List (Key × Val)}, areItems es = true →
    ∀ x ∈ es.map Prod.snd, Canonical (fun _ => True) x
  | [], _, x, hx => by cases hx
  | (k, v) :: r, h, x, hx => by
    simp only [areItems, Bool.and_eq_true] at h
    rw [List.map_cons] at hx
    rcases List.mem_cons.1 hx with hx | hx
    · rw [hx]
      exact canonical_of_isCanonical h.1
    · exact canonical_of_areItems h.2 x hx

end

end XmlParse
end Askozia
