import Askozia.XmlParse.ReadBack
import Askozia.XmlParse.RoundTrip

/-!
# Trees with booleans

A configuration that was just changed may hold `true` where the next one that is read has an empty
text.

* `Settles` says of a value that writing and reading it back leaves it as it is;
* `normalise_readBack`: a tree whose values are canonical once they are read back is read back as
  these.
-/

namespace Askozia
namespace XmlParse

open Php Xml

/-- A value that is read back as it is. -/
def Settles (v : Val) : Prop := isFalse v = false ∧ readBack id v = v

section Settles

variable {es : List (Key × Val)} {k : Key} {v : Val}

/-- An entry that is not `false` is read back before the others. -/
theorem readBackSub_cons (hv : isFalse v = false) :
    readBackSub id ((k, v) :: es) = (k, readBack id v) :: readBackSub id es := by
  rw [readBackSub, hv]
  rfl

/-- Entries that are read back as they are. -/
theorem readBackSub_eq_self (h : ∀ e ∈ es, Settles e.2) : readBackSub id es = es := by
  induction es with
  | nil => rw [readBackSub]
  | cons e r ih =>
    obtain ⟨k, v⟩ := e
    obtain ⟨hfalse, hv⟩ := h _ List.mem_cons_self
    rw [readBackSub_cons hfalse, hv, ih fun e he => h e (List.mem_cons_of_mem _ he)]

/-- So is an array of them. -/
theorem settles_arr (h : ∀ e ∈ es, Settles e.2) : Settles (.arr es) :=
  ⟨rfl, by rw [readBack, readBackSub_eq_self h]⟩

mutual

/-- A canonical tree is read back as it is. -/
theorem Canonical.settles {P : String → Prop} : ∀ {x : Val}, Canonical P x → Settles x
  | _, .str _ => ⟨rfl, by rw [readBack]; rfl⟩
  | _, .map _ _ hes => settles_arr fun e he => (hes e he).settles

theorem CanonicalEntry.settles {P : String → Prop} : ∀ {e : Key × Val}, CanonicalEntry P e → Settles e.2
  | _, .list _ _ _ hitems => settles_arr fun _ he => (hitems _ (snd_mem_of_mem_ofList he)).settles
  | _, .single _ _ hv => hv.settles

end

/-- Writing under a key comes before or after the reading back. -/
theorem readBackSub_setEntry (h : ∀ e ∈ es, isFalse e.2 = false) (hv : isFalse v = false) :
    readBackSub id (Val.setEntry k v es) = Val.setEntry k (readBack id v) (readBackSub id es) := by
  induction es with
  | nil =>
    rw [Val.setEntry, readBackSub_cons hv, readBackSub, Val.setEntry]
  | cons e r ih =>
    obtain ⟨k', x⟩ := e
    have hx : isFalse x = false := h (k', x) List.mem_cons_self
    rw [Val.setEntry, readBackSub_cons hx, Val.setEntry]
    split_ifs
    · exact readBackSub_cons hv
    · rw [readBackSub_cons hx, ih fun e he => h e (List.mem_cons_of_mem _ he)]

/-- Reading back follows an assignment. -/
theorem readBack_set (harr : v.isArray = true) (h : ∀ e ∈ v.entries, isFalse e.2 = false) {x : Val}
    (hx : isFalse x = false) : readBack id (v.set k x) = (readBack id v).set k (readBack id x) := by
  cases v with
  | arr es =>
    have hset := congrArg Val.arr (readBackSub_setEntry (k := k) h hx)
    rw [Val.set, readBack, readBack]
    exact hset
  | _ => cases harr

/-- A list is read back item by item. -/
theorem readBack_ofList {xs : List Val} (h : ∀ x ∈ xs, isFalse x = false) :
    readBack id (.ofList xs) = .ofList (xs.map (readBack id)) := by
  have hsub : ∀ (ys : List Val) (n : ℕ), (∀ x ∈ ys, isFalse x = false) →
      readBackSub id ((ys.zipIdx n).map fun e => (Key.int e.2, e.1)) =
        ((ys.map (readBack id)).zipIdx n).map fun e => (Key.int e.2, e.1) := by
    intro ys
    induction ys with
    | nil =>
      intro n _
      exact readBackSub_eq_self fun _ he => absurd he List.not_mem_nil
    | cons y r ih =>
      intro n hys
      rw [List.zipIdx_cons, List.map_cons, List.map_cons, List.zipIdx_cons, List.map_cons,
        readBackSub_cons (hys y List.mem_cons_self),
        ih (n + 1) fun x hx => hys x (List.mem_cons_of_mem _ hx)]
  rw [Val.ofList, readBack, hsub xs 0 h]
  rfl

end Settles

/-! ## Canonical maps -/

section Weaker

variable {P Q : String → Prop}

mutual

/-- Less may be asked of the texts of a canonical tree. -/
theorem Canonical.weaken (hPQ : ∀ s, P s → Q s) : ∀ {x : Val}, Canonical P x → Canonical Q x
  | _, .str h => .str (hPQ _ h)
  | _, .map hne hnodup hes => .map hne hnodup fun e he => (hes e he).weaken hPQ

/-- The same of an entry. -/
theorem CanonicalEntry.weaken (hPQ : ∀ s, P s → Q s) : ∀ {e : Key × Val}, CanonicalEntry P e → CanonicalEntry Q e
  | _, .list hn hl hne hitems => .list hn hl hne fun x hx => (hitems x hx).weaken hPQ
  | _, .single hn hl hv => .single hn hl (hv.weaken hPQ)

end

end Weaker

section Maps

variable {P : String → Prop} {v x : Val} {k : Key} {n : String}

/-- The entries of a canonical array are canonical. -/
theorem Canonical.entries (h : Canonical P v) (harr : v.isArray = true) :
    ∀ e ∈ v.entries, CanonicalEntry P e := by
  cases h with
  | str _ => cases harr
  | map _ _ hes => exact hes

/-- A field that is no list is canonical. -/
theorem Canonical.get (h : Canonical P v) (hn : n ∉ listtags) (harr : (v.get n).isArray = true) :
    Canonical P (v.get n) := by
  cases h with
  | str _ => cases harr
  | @map es _ hnodup hes =>
    rw [Val.get, Val.idx_arr] at harr ⊢
    cases hx : es.lookup (.str n) with
    | none =>
      rw [hx] at harr
      cases harr
    | some x =>
      generalize he : ((Key.str n, x) : Key × Val) = e
      have hentry := hes _ (Val.mem_of_lookup hx)
      rw [he] at hentry
      cases hentry with
      | list _ hl _ _ => exact absurd (Key.str.inj (Prod.mk.inj he).1 ▸ hl) hn
      | single _ _ hv =>
        obtain ⟨-, rfl⟩ := Prod.mk.inj he
        exact hv

/-- The items of a list of a canonical map. -/
theorem Canonical.items (h : Canonical P v) (hn : n ∈ listtags) (harr : (v.get n).isArray = true) :
    ∀ x ∈ (v.get n).vals, Canonical P x := by
  cases h with
  | str _ => cases harr
  | @map es _ hnodup hes =>
    rw [Val.get, Val.idx_arr] at harr ⊢
    cases hx : es.lookup (.str n) with
    | none =>
      rw [hx] at harr
      cases harr
    | some x =>
      generalize he : ((Key.str n, x) : Key × Val) = e
      have hentry := hes _ (Val.mem_of_lookup hx)
      rw [he] at hentry
      cases hentry with
      | list _ _ _ hitems =>
        obtain ⟨-, rfl⟩ := Prod.mk.inj he
        rw [Option.getD_some, Val.vals_ofList]
        exact hitems
      | single _ hl _ => exact absurd hn (Key.str.inj (Prod.mk.inj he).1 ▸ hl)

/-- Assigning a canonical entry keeps a tree canonical. -/
theorem Canonical.set (h : Canonical P v) (harr : v.isArray = true) (hx : CanonicalEntry P (k, x)) :
    Canonical P (v.set k x) := by
  cases v with
  | arr es =>
    rcases MapOk.set (.inr ⟨es, rfl, h⟩) hx with hnull | ⟨_, -, hset⟩
    · cases hnull
    · exact hset
  | _ => cases harr

/-- Writing under a key of a canonical map comes before or after the reading back. -/
theorem Canonical.readBack_set (h : Canonical P v) (harr : v.isArray = true) (hx : isFalse x = false) :
    readBack id (v.set k x) = v.set k (readBack id x) := by
  rw [XmlParse.readBack_set harr (fun e he => (h.entries harr e he).settles.1) hx, h.settles.2]

end Maps

/-! ## Writing them -/

section Written

variable {N T : String → Prop}

/-- What the text read back has to be, the text before has to be too. -/
theorem everyScalar_of_readBack {ent : String} {x : Val} (hx : x.isArray = false)
    (h : EveryScalar N T ent (readBack id x)) : EveryScalar N T ent x := by
  intro s hs
  cases x with
  | arr es => cases hx
  | bool b =>
    cases b with
    | false => cases hs
    | true =>
      rw [readBack] at h
      exact h s hs
  | _ =>
    rw [readBack] at h
    exact h s hs

mutual

/-- What is written of a tree is written of what it is read back as. -/
theorem everySub_of_readBack : ∀ es : List (Key × Val),
    EverySub N T (readBackSub id es) → EverySub N T es
  | [], _ => by
    rw [EverySub]
    trivial
  | (k, x) :: r, h => by
    rw [readBackSub] at h
    rw [EverySub]
    split_ifs at h with hfalse
    · rw [eq_false_of_isFalse hfalse, everyEnt_scalar rfl]
      exact ⟨fun s hs => (Option.some_ne_none s hs.symm).elim, everySub_of_readBack r h⟩
    · rw [EverySub] at h
      exact ⟨everyEnt_of_readBack x k.toStr h.1, everySub_of_readBack r h.2⟩

theorem everyEnt_of_readBack : ∀ (x : Val) (ent : String),
    EveryEnt N T ent (readBack id x) → EveryEnt N T ent x
  | .arr es, ent, h => by
    rw [readBack, EveryEnt] at h
    rw [EveryEnt]
    split_ifs at h ⊢ with hlist
    · exact everyItems_of_readBack es ent h
    · exact ⟨h.1, everySub_of_readBack es h.2⟩
  | .null, ent, h => by
    rw [everyEnt_scalar (isArray_readBack id _)] at h
    exact (everyEnt_scalar rfl ent).2 (everyScalar_of_readBack rfl h)
  | .bool b, ent, h => by
    rw [everyEnt_scalar (isArray_readBack id _)] at h
    exact (everyEnt_scalar rfl ent).2 (everyScalar_of_readBack rfl h)
  | .int n, ent, h => by
    rw [everyEnt_scalar (isArray_readBack id _)] at h
    exact (everyEnt_scalar rfl ent).2 (everyScalar_of_readBack rfl h)
  | .str s, ent, h => by
    rw [everyEnt_scalar (isArray_readBack id _)] at h
    exact (everyEnt_scalar rfl ent).2 (everyScalar_of_readBack rfl h)

theorem everyItems_of_readBack : ∀ (es : List (Key × Val)) (ent : String),
    EveryItems N T ent (readBackSub id es) → EveryItems N T ent es
  | [], ent, _ => by
    rw [EveryItems]
    trivial
  | (k, x) :: r, ent, h => by
    rw [readBackSub] at h
    rw [EveryItems]
    split_ifs at h with hfalse
    · rw [eq_false_of_isFalse hfalse, everyItem_scalar rfl]
      exact ⟨fun s hs => (Option.some_ne_none s hs.symm).elim, everyItems_of_readBack r ent h⟩
    · rw [EveryItems] at h
      exact ⟨everyItem_of_readBack x ent h.1, everyItems_of_readBack r ent h.2⟩

theorem everyItem_of_readBack : ∀ (x : Val) (ent : String),
    EveryItem N T ent (readBack id x) → EveryItem N T ent x
  | .arr es, ent, h => by
    rw [readBack, EveryItem] at h
    rw [EveryItem]
    exact ⟨h.1, everySub_of_readBack es h.2⟩
  | .null, ent, h => by
    rw [everyItem_scalar (isArray_readBack id _)] at h
    exact (everyItem_scalar rfl ent).2 (everyScalar_of_readBack rfl h)
  | .bool b, ent, h => by
    rw [everyItem_scalar (isArray_readBack id _)] at h
    exact (everyItem_scalar rfl ent).2 (everyScalar_of_readBack rfl h)
  | .int n, ent, h => by
    rw [everyItem_scalar (isArray_readBack id _)] at h
    exact (everyItem_scalar rfl ent).2 (everyScalar_of_readBack rfl h)
  | .str s, ent, h => by
    rw [everyItem_scalar (isArray_readBack id _)] at h
    exact (everyItem_scalar rfl ent).2 (everyScalar_of_readBack rfl h)

end

end Written

/-- A tree is read back as its values are, by every parser. -/
theorem normalise_readBack (X : Expat) {es : List (Key × Val)}
    (h : Canonical Printable (.arr (readBackSub id es))) :
    normalise X (.arr es) = .ok (.arr (readBackSub id es)) := by
  have hreads : EverySub (isName · = true) (fun s => ReadsAs Chunked s s) es :=
    everySub_of_readBack es (h.loose.everySub fun _ hs => readsAs_printable hs)
  obtain ⟨d, hdoc, hname, hd⟩ := doc_arrayToXml X (t := .arr es)
    (everySub_of_readBack es (h.loose.everySub fun _ hs => legal_of_printable hs))
  have hnorm := normalise_eq (g := id) skipsBlanks_chunked rfl hreads hdoc hname hd
  have hfix : rereadSub id (readBackSub id es) .null = .ok (.arr (readBackSub id es)) :=
    rereadSub_canonical (fun _ _ => rfl) h
  rw [Val.entries, rereadSub_readBack, hfix] at hnorm
  refine hnorm.trans (rootValue_map ?_)
  cases h with
  | map hne _ _ => exact hne

end XmlParse
end Askozia
