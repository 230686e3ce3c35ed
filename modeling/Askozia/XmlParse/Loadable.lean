import Askozia.XmlParse.Reread

/-!
# Which documents can be loaded

`xml_to_array` dies on documents that are well-formed XML: on an element that occurs twice
where it is not a list, on elements after text, and on a root that is missing or empty.
`Loadable` says so in terms of the document alone, and `xmlToArray_ok_iff` that this is all,
also for files the parser was never told had ended.
-/

namespace Askozia
namespace XmlParse

open Php Xml

/-! ## Loadable documents -/

/-- Character data the reader skips in an element that holds no text yet. -/
def blank (d : String) : Bool := trim (trim d "\t\n\r") " " = ""

/-- The names of the child elements of a content. -/
def children : Content → List String
  | .nil => []
  | .text _ r => children r
  | .elem n _ r => n :: children r

/-- No child element comes after text, and none occurs twice unless it is a list tag. -/
def Clean : Content → Prop
  | .nil => True
  | .text d r => (blank d = false → children r = []) ∧ Clean r
  | .elem n k r =>
    (strtolower n ∉ listtags → ∀ m ∈ children r, strtolower m ≠ strtolower n) ∧ Clean k ∧ Clean r

/-- The text of an element from its first piece that is not blank on. -/
def textOf : Content → String
  | .nil => ""
  | .text d r => trim d "\t\n\r" ++ textOf r
  | .elem _ _ r => textOf r

/-- The content without the blank character data in front of its text. -/
def dropBlanks : Content → Content
  | .nil => .nil
  | .text d r => if blank d then dropBlanks r else .text d r
  | .elem _ _ r => dropBlanks r

/-- The root holds something: text other than `0`, or else a child element. -/
def Filled (c : Content) : Prop :=
  if dropBlanks c = .nil then children c ≠ [] else textOf (dropBlanks c) ≠ "0"

/-- The document is a configuration. -/
def Loadable (d : Doc) : Prop := strtolower d.name = xmlRootobj ∧ Clean d.kids ∧ Filled d.kids

/-! ## Reading without dying -/

/-- Of a text that is not blank something is left. -/
theorem trim_of_not_blank {d : String} (h : blank d = false) : trim d "\t\n\r" ≠ "" := by
  intro hd
  rw [blank, hd] at h
  simp at h
  exact absurd h (by decide)

/-- Text that is not blank replaces an array or nothing. -/
theorem addText_of_not_blank {d : String} (h : blank d = false) {v : Val}
    (hv : ∀ s, v ≠ .str s) : addText d v = .str (trim d "\t\n\r") := by
  have hb : trim (trim d "\t\n\r") " " ≠ "" := by simpa [blank] using h
  rw [addText, if_pos (trim_of_not_blank h)]
  cases v with
  | str s => exact absurd rfl (hv s)
  | _ => simp [addData, hb]

/-- Blank text is not added. -/
theorem addText_of_blank {d : String} (h : blank d = true) {v : Val} (hv : ∀ s, v ≠ .str s) :
    addText d v = v := by
  have hb : trim (trim d "\t\n\r") " " = "" := by simpa [blank] using h
  unfold addText
  split
  · cases v with
    | str s => exact absurd rfl (hv s)
    | _ => simp [addData, hb]
  · rfl

/-- Other text is added without what surrounds it. -/
theorem addText_text (d s : String) : addText d (.str s) = .str (s ++ trim d "\t\n\r") := by
  unfold addText
  split
  · rfl
  · next hd => rw [not_not.1 hd, String.append_empty]

/-- Whether a child can be opened. -/
theorem openChild_ok_iff {n : String} {v : Val} :
    (∃ w, openChild n v = .ok w) ↔
      opens v = true ∧ (strtolower n ∉ listtags → look (.str (strtolower n)) v = .null) := by
  constructor
  · rintro ⟨w, h⟩
    obtain ⟨ho, ⟨hl, -⟩ | ⟨-, hnull, -⟩⟩ := openChild_ok h
    · exact ⟨ho, fun hc => absurd hl hc⟩
    · exact ⟨ho, fun _ => hnull⟩
  · rintro ⟨ho, hnull⟩
    unfold openChild
    split
    · exact ⟨_, follow_of_opens ho⟩
    · next hl =>
      rw [follow_of_opens ho, hnull hl]
      exact ⟨_, rfl⟩

/-- A child is found under its name. -/
theorem look_closeChild_self {n : String} {w v : Val} (hl : strtolower n ∉ listtags) :
    look (.str (strtolower n)) (closeChild n w v) = w := by
  rw [closeChild, if_neg hl, look_set_self]

/-- It leaves the others. -/
theorem look_closeChild_of_ne {n m : String} {v v₁ : Val} (h : openChild n v = .ok v₁)
    (hne : strtolower m ≠ strtolower n) (w : Val) :
    look (.str (strtolower m)) (closeChild n w v₁) = look (.str (strtolower m)) v := by
  have hkey : Key.str (strtolower m) ≠ .str (strtolower n) := by simpa using hne
  unfold closeChild
  obtain ⟨-, ⟨hl, rfl⟩ | ⟨hl, -, rfl⟩⟩ := openChild_ok h
  · rw [if_pos hl, set_set, look_set_of_ne hkey]
  · rw [if_neg hl, set_set, look_set_of_ne hkey]

/-- After a child the value can be read into. -/
theorem opens_closeChild (n : String) (w v : Val) : opens (closeChild n w v) = true := by
  unfold closeChild
  split <;> rfl

theorem closeChild_not_str (n : String) (w v : Val) : ∀ s, closeChild n w v ≠ .str s := by
  intro s
  unfold closeChild
  split <;> simp [Val.set]

/-- A content can be read into a value when it is clean and its children find their places
free. -/
theorem read_ok_iff {c : Content} {v : Val} (hv : v ≠ .str "") :
    (∃ w, read c v = .ok w) ↔
      Clean c ∧ (children c ≠ [] → opens v = true) ∧
        ∀ n ∈ children c, strtolower n ∉ listtags → look (.str (strtolower n)) v = .null := by
  -- on the content; `v` is what has been read of it so far
  induction c generalizing v with
  | nil => simp [read, Clean, children]
  | text d r ih =>
    rw [read, Clean, children]
    by_cases hs : ∃ s, v = .str s
    · -- text stays text, and no child can be opened in it
      obtain ⟨s, rfl⟩ := hs
      have hs : s ≠ "" := fun h => hv (by rw [h])
      have hopens : ∀ t, s ++ t ≠ "" ∧ opens (.str (s ++ t)) = false := by
        intro t
        have hne : s ++ t ≠ "" := by
          intro h
          exact hs (String.append_eq_empty_iff.1 h).1
        exact ⟨hne, by simpa [opens] using hne⟩
      have hopen : opens (.str s) = false := by simpa [opens] using hs
      rw [addText_text, ih (by simpa using (hopens _).1), (hopens _).2, hopen]
      constructor
      · rintro ⟨hc, ho, -⟩
        have hnil : children r = [] := by
          by_contra hne
          exact absurd (ho hne) (by simp)
        exact ⟨⟨fun _ => hnil, hc⟩, fun hne => absurd hnil hne, fun n _ _ => rfl⟩
      · rintro ⟨⟨-, hc⟩, ho, -⟩
        exact ⟨hc, ho, fun n _ _ => rfl⟩
    · have hs : ∀ s, v ≠ .str s := fun s h => hs ⟨s, h⟩
      cases hb : blank d with
      | true =>
        rw [addText_of_blank hb hs, ih hv]
        simp
      | false =>
        have hne := trim_of_not_blank hb
        have hopen : opens (.str (trim d "\t\n\r")) = false := by simpa [opens] using hne
        rw [addText_of_not_blank hb hs, ih (by simpa using hne), hopen]
        constructor
        · rintro ⟨hc, ho, -⟩
          have hnil : children r = [] := by
            by_contra hne
            exact absurd (ho hne) (by simp)
          refine ⟨⟨fun _ => hnil, hc⟩, fun hne => absurd hnil hne, fun n hn => ?_⟩
          rw [hnil] at hn
          exact absurd hn List.not_mem_nil
        · rintro ⟨⟨hnil, hc⟩, -, -⟩
          exact ⟨hc, fun hne => absurd (hnil rfl) hne, fun n _ _ => rfl⟩
  | elem n k r ihk ihr =>
    rw [Clean, children]
    constructor
    · rintro ⟨w, h⟩
      rw [read_elem] at h
      cases he : readElem n k v with
      | error e => rw [he] at h; cases h
      | ok v' =>
        rw [he] at h
        obtain ⟨v₁, c, ho, hk, rfl⟩ := readElem_ok he
        obtain ⟨hck, -, -⟩ := (ihk (by simp)).1 ⟨c, hk⟩
        obtain ⟨hcr, -, hfree⟩ := (ihr (closeChild_not_str _ _ _ _)).1 ⟨w, h⟩
        obtain ⟨hopen, hnull⟩ := openChild_ok_iff.1 ⟨v₁, ho⟩
        refine ⟨⟨fun hl m hm hmn => ?_, hck, hcr⟩, fun _ => hopen, fun m hm hl => ?_⟩
        · have hlook := hfree m hm (hmn ▸ hl)
          rw [hmn, look_closeChild_self hl] at hlook
          exact finish_ne_null c hlook
        · rcases List.mem_cons.1 hm with rfl | hm
          · exact hnull hl
          · by_cases hmn : strtolower m = strtolower n
            · rw [hmn]
              exact hnull (hmn ▸ hl)
            · rw [← look_closeChild_of_ne ho hmn]
              exact hfree m hm hl
    · -- the child is opened, read from nothing and closed, and the rest goes on behind it
      rintro ⟨⟨honce, hck, hcr⟩, hopen, hfree⟩
      obtain ⟨v₁, ho⟩ := openChild_ok_iff.2
        ⟨hopen (by simp), hfree n List.mem_cons_self⟩
      obtain ⟨c, hk⟩ := (ihk (v := .null) (by simp)).2 ⟨hck, fun _ => rfl, fun _ _ _ => rfl⟩
      have helem : readElem n k v = .ok (closeChild n (finish c) v₁) := by
        unfold readElem
        rw [ho, hk]
        rfl
      rw [read_elem, helem]
      refine (ihr (closeChild_not_str _ _ _ _)).2
        ⟨hcr, fun _ => opens_closeChild _ _ _, fun m hm hl => ?_⟩
      have hmn : strtolower m ≠ strtolower n := fun hmn => honce (hmn ▸ hl) m hm hmn
      rw [look_closeChild_of_ne ho hmn]
      exact hfree m (List.mem_cons_of_mem n hm) hl

/-- The content of an element can be read exactly when it is clean. -/
theorem read_null_ok_iff {c : Content} : (∃ w, read c .null = .ok w) ↔ Clean c := by
  rw [read_ok_iff (by simp)]
  exact ⟨fun h => h.1, fun h => ⟨h, fun _ => rfl, fun _ _ _ => rfl⟩⟩

/-! ## What is read -/

/-- Text goes on as text. -/
theorem read_str {c : Content} {a : String} {w : Val} (ha : a ≠ "")
    (h : read c (.str a) = .ok w) : w = .str (a ++ textOf c) := by
  induction c generalizing a with
  | nil =>
    rw [textOf, String.append_empty]
    exact (Except.ok.inj h).symm
  | text d r ih =>
    rw [read, addText_text] at h
    have hne : a ++ trim d "\t\n\r" ≠ "" := fun hc => ha (String.append_eq_empty_iff.1 hc).1
    rw [ih hne h, textOf, String.append_assoc]
  | elem n k r _ _ =>
    rw [read_elem] at h
    cases he : readElem n k (.str a) with
    | error e => rw [he] at h; cases h
    | ok v' =>
      obtain ⟨v₁, -, ho, -⟩ := readElem_ok he
      have hopen := (openChild_ok ho).1
      exact absurd hopen (by simpa [opens] using ha)

theorem closeChild_truthy (n : String) (w v : Val) : (closeChild n w v).truthy = true := by
  unfold closeChild
  split <;> exact truthy_set

/-- A content without text leaves the value as it is, or an array. -/
theorem read_no_text {c : Content} {v w : Val} (hv : ∀ s, v ≠ .str s)
    (hc : dropBlanks c = .nil) (h : read c v = .ok w) :
    (children c = [] ∧ w = v) ∨ (children c ≠ [] ∧ w.truthy = true) := by
  induction c generalizing v with
  | nil => exact .inl ⟨rfl, (Except.ok.inj h).symm⟩
  | text d r ih =>
    rw [dropBlanks] at hc
    split at hc
    · next hb =>
      rw [read, addText_of_blank hb hv] at h
      exact ih hv hc h
    · cases hc
  | elem n k r _ ih =>
    rw [dropBlanks] at hc
    rw [read_elem] at h
    cases he : readElem n k v with
    | error e => rw [he] at h; cases h
    | ok v' =>
      rw [he] at h
      obtain ⟨v₁, c, -, -, rfl⟩ := readElem_ok he
      refine .inr ⟨by simp [children], ?_⟩
      rcases ih (closeChild_not_str _ _ _) hc h with ⟨-, rfl⟩ | ⟨-, hw⟩
      · exact closeChild_truthy _ _ _
      · exact hw

/-- A content with text reads as its text. -/
theorem read_text {c : Content} {v w : Val} (hv : ∀ s, v ≠ .str s)
    (hc : dropBlanks c ≠ .nil) (h : read c v = .ok w) :
    w = .str (textOf (dropBlanks c)) ∧ textOf (dropBlanks c) ≠ "" := by
  induction c generalizing v with
  | nil => exact absurd rfl hc
  | text d r ih =>
    rw [dropBlanks] at hc ⊢
    split at hc
    · next hb =>
      rw [if_pos hb]
      rw [read, addText_of_blank hb hv] at h
      exact ih hv hc h
    · next hb =>
      have hb' : blank d = false := by simpa using hb
      rw [if_neg hb, textOf]
      rw [read, addText_of_not_blank hb' hv] at h
      have hne := trim_of_not_blank hb'
      exact ⟨read_str hne h, fun hc => hne (String.append_eq_empty_iff.1 hc).1⟩
  | elem n k r _ ih =>
    rw [dropBlanks] at hc ⊢
    rw [read_elem] at h
    cases he : readElem n k v with
    | error e => rw [he] at h; cases h
    | ok v' =>
      rw [he] at h
      obtain ⟨v₁, c, -, -, rfl⟩ := readElem_ok he
      exact ih (closeChild_not_str _ _ _) hc h

/-- The value of the root element counts as true exactly when it is filled. -/
theorem truthy_finish_iff {c : Content} {w : Val} (h : read c .null = .ok w) :
    (finish w).truthy = true ↔ Filled c := by
  unfold Filled
  split
  · next hc =>
    rcases read_no_text (by simp) hc h with ⟨hnil, rfl⟩ | ⟨hne, hw⟩
    · simp [finish, hnil, Val.truthy]
    · have hfin : finish w = w := by
        rw [finish, if_neg]
        rintro rfl
        cases hw
      simp [hfin, hw, hne]
  · next hc =>
    obtain ⟨rfl, hne⟩ := read_text (by simp) hc h
    simp [finish, Val.truthy, hne]

/-- The root is accepted just if it counts as true. -/
theorem rootValue_ok_iff {c : Val} : (∃ v, rootValue c = .ok v) ↔ (finish c).truthy = true := by
  unfold rootValue
  split <;> simp_all

/-- Two steps succeed if the first does and the second does after it. -/
theorem bind_ok_iff {α β : Type} {x : Except Die α} {f : α → Except Die β} :
    (∃ b, x >>= f = .ok b) ↔ ∃ a, x = .ok a ∧ ∃ b, f a = .ok b := by
  cases x with
  | error e =>
    constructor
    · rintro ⟨b, hb⟩
      cases hb
    · rintro ⟨a, ha, -⟩
      cases ha
  | ok a =>
    constructor
    · rintro ⟨b, hb⟩
      exact ⟨a, rfl, b, hb⟩
    · rintro ⟨a', ha, b, hb⟩
      exact ⟨b, by rw [← Except.ok.inj ha] at hb; exact hb⟩

/-- A document loads exactly when it is loadable. -/
theorem readDoc_ok_iff (d : Doc) : (∃ v, readDoc d >>= rootOf = .ok v) ↔ Loadable d := by
  by_cases hn : strtolower d.name = xmlRootobj
  · rw [readDoc_root hn, bind_ok_iff]
    unfold Loadable
    constructor
    · rintro ⟨c, hc, hv⟩
      exact ⟨hn, read_null_ok_iff.1 ⟨c, hc⟩, (truthy_finish_iff hc).1 (rootValue_ok_iff.1 hv)⟩
    · rintro ⟨-, hclean, hfilled⟩
      obtain ⟨c, hc⟩ := read_null_ok_iff.2 hclean
      exact ⟨c, hc, rootValue_ok_iff.2 ((truthy_finish_iff hc).2 hfilled)⟩
  · refine ⟨?_, fun h => absurd h.1 hn⟩
    rintro ⟨v, h⟩
    obtain ⟨t, ht, hv⟩ := bind_ok_iff.1 ⟨v, h⟩
    obtain ⟨v₁, c, ho, -, rfl⟩ := readElem_ok ht
    have hroot : strtolower xmlRootobj = xmlRootobj := by decide
    have hlook : look (.str xmlRootobj) (closeChild d.name (finish c) v₁) = .null := by
      have hne : strtolower xmlRootobj ≠ strtolower d.name := by
        rw [hroot]
        exact fun hc => hn hc.symm
      have hother := look_closeChild_of_ne ho hne (finish c)
      rw [hroot] at hother
      rw [hother]
      rfl
    obtain ⟨w, hw⟩ := hv
    rw [rootOf, hlook] at hw
    cases hw

/-! ## Documents that have not ended

The parser is only told that the file has ended by a read that comes up short, so a file
whose length is a multiple of the block size may end anywhere in a document. The end tags
that are missing make no difference to whether it loads. -/

/-- Contents are read in two parts. -/
theorem read_append (c c' : Content) (v : Val) :
    read (c.append c') v = read c v >>= read c' := by
  induction c generalizing v with
  | nil => rfl
  | text d r ih => exact ih _
  | elem n k r _ ih =>
    rw [Content.append, read_elem, read_elem]
    cases readElem n k v with
    | error e => rfl
    | ok w => exact ih w

/-- Reading keeps lists as they have to be. -/
theorem listsOk_read {c : Content} {v w : Val} (hv : ListsOk v) (h : read c v = .ok w) :
    ListsOk w := by
  induction c generalizing v with
  | nil => exact Except.ok.inj h ▸ hv
  | text d r ih => exact ih (listsOk_addText d hv) h
  | elem n k r _ ih =>
    rw [read_elem] at h
    cases he : readElem n k v with
    | error e => rw [he] at h; cases h
    | ok v' =>
      rw [he] at h
      obtain ⟨v₁, c, ho, -, rfl⟩ := readElem_ok he
      exact ih (listsOk_closeChild ho hv _) h

/-- The state after elements have been opened below `st` and not closed again. -/
structure Descended (fs : List (String × Content)) (st st' : Parser) : Prop where
  under : Under st.curpath st.xmlArray st'.xmlArray
  still : fs = [] → st' = st
  truthy : fs ≠ [] → (valueAt st.curpath st'.xmlArray).truthy = true

/-- The path to a child is not empty. -/
theorem childPath_ne_nil (n : String) (v : Val) : childPath n v ≠ [] := by
  unfold childPath
  split <;> simp

/-- Writes below a child are writes below the enclosing element. -/
theorem Under.of_child {p q : List Key} {t t' : Val} (h : Under (p ++ q) t t') : Under p t t' := by
  refine ⟨fun a r hpa hr ht => ?_, fun k a hpa => ?_⟩
  · refine h.truthy a (r ++ q) (by rw [hpa, List.append_assoc]) ?_ ht
    exact fun hc => hr (List.append_eq_nil_iff.1 hc).1
  · exact h.others k (a ++ q) (by rw [hpa]; rfl)

/-- Opened elements go through exactly when the content that closes them can be read. -/
theorem handleAll_openEvents (fs : List (String × Content)) (st : Parser)
    (hr : Reaches st.curpath st.xmlArray) (hl : ListsOk (valueAt st.curpath st.xmlArray)) :
    ((∃ st', handleAll (openEvents fs) st = .ok st') ↔
      ∃ w, read (closeUp fs) (valueAt st.curpath st.xmlArray) = .ok w) ∧
    ∀ st', handleAll (openEvents fs) st = .ok st' → Descended fs st st' := by
  -- on the elements that are still open, the outer one first
  induction fs generalizing st with
  | nil =>
    refine ⟨⟨fun _ => ⟨_, rfl⟩, fun _ => ⟨st, rfl⟩⟩, fun st' h => ?_⟩
    obtain rfl : st = st' := Except.ok.inj h
    exact ⟨Under.refl _ _, fun _ => rfl, fun h => absurd rfl h⟩
  | cons f r ih =>
    obtain ⟨n, c⟩ := f
    have hclose : read (closeUp ((n, c) :: r)) (valueAt st.curpath st.xmlArray) =
        addChild n (read c .null >>= read (closeUp r)) (valueAt st.curpath st.xmlArray) := by
      rw [closeUp, read_elem, readElem_eq, read_append]
      cases addChild n (read c .null >>= read (closeUp r)) (valueAt st.curpath st.xmlArray) <;> rfl
    rw [hclose, openEvents, handleAll_cons]
    cases ho : openChild n (valueAt st.curpath st.xmlArray) with
    | error e =>
      have hstart : handle st (.start n) = .error e := startElement_error hr ho
      rw [hstart]
      unfold addChild
      rw [ho]
      refine ⟨⟨?_, ?_⟩, fun st' h => ?_⟩
      · rintro ⟨_, h⟩
        cases h
      · rintro ⟨_, h⟩
        cases h
      · cases h
    | ok v =>
      obtain ⟨st₁, hst₁, hop⟩ := startElement_opened hr hl ho
      have hstart : handle st (.start n) = .ok st₁ := hst₁
      have hdata : HavedataOk st₁ := by
        rw [HavedataOk, hop.value, Counted, if_pos rfl, hop.havedata, hop.depth]
      -- the content in front of the next open element is read as usual
      have hsim := simulated c st₁ hop.reaches (hop.value ▸ listsOk_null) hdata
      rw [hop.value] at hsim
      have hadd : ∀ x, addChild n x (valueAt st.curpath st.xmlArray) =
          (fun w => closeChild n (finish w) v) <$> x := by
        intro x
        unfold addChild
        rw [ho]
        cases x <;> rfl
      rw [hstart, hadd]
      show ((∃ st', handleAll (c.events ++ openEvents r) st₁ = .ok st') ↔ _) ∧
        ∀ st', handleAll (c.events ++ openEvents r) st₁ = .ok st' → _
      rw [handleAll_append]
      cases hc : read c .null with
      | error e =>
        rw [hc] at hsim
        rw [show handleAll c.events st₁ = .error e from hsim]
        refine ⟨⟨?_, ?_⟩, fun st' h => ?_⟩
        · rintro ⟨_, h⟩
          cases h
        · rintro ⟨_, h⟩
          cases h
        · cases h
      | ok w =>
        rw [hc] at hsim
        obtain ⟨st₂, hst₂, hb, -⟩ := hsim
        have hval₂ : valueAt st₂.curpath st₂.xmlArray = w := by rw [hb.curpath, hb.value]
        obtain ⟨hiff, hdesc⟩ := ih st₂ (hb.curpath ▸ hb.reaches)
          (hval₂ ▸ listsOk_read listsOk_null hc)
        rw [hst₂]
        show ((∃ st', handleAll (openEvents r) st₂ = .ok st') ↔
          ∃ w', (fun x => closeChild n (finish x) v) <$> read (closeUp r) w = .ok w') ∧
          ∀ st', handleAll (openEvents r) st₂ = .ok st' → _
        refine ⟨?_, fun st' h => ?_⟩
        · rw [hiff, hval₂]
          constructor
          · rintro ⟨x, hx⟩
            exact ⟨_, by rw [hx]; rfl⟩
          · rintro ⟨x, hx⟩
            cases hx' : read (closeUp r) w with
            | error e => rw [hx'] at hx; cases hx
            | ok y => exact ⟨y, rfl⟩
        · have hbelow : Under (st.curpath ++ childPath n v) st₁.xmlArray st'.xmlArray := by
            have h₂ := hb.under
            have h₃ := (hdesc st' h).under
            rw [hb.curpath] at h₃
            rw [hop.curpath] at h₂ h₃
            exact h₂.trans h₃
          refine ⟨hop.under.trans hbelow.of_child, fun hc => (List.cons_ne_nil _ _ hc).elim,
            fun _ => ?_⟩
          refine hbelow.truthy st.curpath (childPath n v) rfl (childPath_ne_nil n v) ?_
          rw [hop.parent]
          obtain ⟨-, ⟨-, rfl⟩ | ⟨-, -, rfl⟩⟩ := openChild_ok ho
          · exact truthy_set
          · exact truthy_set

/-- Closing an element does not make it true. -/
theorem truthy_finish (w : Val) : (finish w).truthy = w.truthy := by
  unfold finish
  split
  · next h =>
    rw [h]
    rfl
  · rfl

/-- What is left open when the parser stops counts as true once it is closed. -/
theorem truthy_closeUp {f : String × Content} {r : List (String × Content)} {v w : Val}
    (h : read (closeUp (f :: r)) v = .ok w) : w.truthy = true := by
  obtain ⟨n, c⟩ := f
  rw [closeUp, read_elem] at h
  cases he : readElem n (c.append (closeUp r)) v with
  | error e => rw [he] at h; cases h
  | ok v' =>
    rw [he] at h
    obtain ⟨v₁, x, -, -, rfl⟩ := readElem_ok he
    rw [← Except.ok.inj h]
    exact closeChild_truthy _ _ _

/-- There is a root just if something true stands under its name. -/
theorem rootOf_ok_iff {t : Val} :
    (∃ v, rootOf t = .ok v) ↔ (look (.str xmlRootobj) t).truthy = true := by
  unfold rootOf
  split <;> simp_all

/-- The name of the root is in lower case. -/
theorem strtolower_xmlRootobj : strtolower xmlRootobj = xmlRootobj := by decide

/-- A document that has not ended loads exactly when the document it would be does. -/
theorem load_openEvents_iff (n : String) (c : Content) (r : List (String × Content)) :
    (∃ st, handleAll (openEvents ((n, c) :: r)) Parser.init = .ok st ∧
        ∃ v, rootOf st.xmlArray = .ok v) ↔ Loadable ⟨n, c.append (closeUp r)⟩ := by
  have hreach : Reaches Parser.init.curpath Parser.init.xmlArray := ⟨.null, rfl⟩
  have hlists : ListsOk (valueAt Parser.init.curpath Parser.init.xmlArray) :=
    fun _ _ => nextFree_null
  obtain ⟨v, ho⟩ : ∃ v, openChild n (valueAt Parser.init.curpath Parser.init.xmlArray) = .ok v :=
    openChild_ok_iff.2 ⟨rfl, fun _ => rfl⟩
  obtain ⟨st₁, hst₁, hop⟩ := startElement_opened hreach hlists ho
  have hdata : HavedataOk st₁ := by
    rw [HavedataOk, hop.value, Counted, if_pos rfl, hop.havedata, hop.depth]
  have hsim := simulated c st₁ hop.reaches (hop.value ▸ listsOk_null) hdata
  rw [hop.value] at hsim
  have hrun : handleAll (openEvents ((n, c) :: r)) Parser.init =
      handleAll c.events st₁ >>= handleAll (openEvents r) := by
    rw [openEvents, handleAll_cons, show handle Parser.init (.start n) = .ok st₁ from hst₁,
      ← handleAll_append]
    rfl
  have hdoc : readDoc ⟨n, c.append (closeUp r)⟩ =
      (fun w => closeChild n (finish w) v) <$> (read c .null >>= read (closeUp r)) := by
    rw [readDoc, readElem_eq, ← read_append]
    unfold addChild
    rw [show openChild n (.arr []) = .ok v from ho]
    cases read (c.append (closeUp r)) .null <;> rfl
  rw [← readDoc_ok_iff, bind_ok_iff, hrun, hdoc]
  cases hc : read c .null with
  | error e =>
    rw [hc] at hsim
    rw [show handleAll c.events st₁ = .error e from hsim]
    constructor
    · rintro ⟨_, h, -⟩
      cases h
    · rintro ⟨_, h, -⟩
      cases h
  | ok w =>
    rw [hc] at hsim
    obtain ⟨st₂, hst₂, hb, -⟩ := hsim
    have hval₂ : valueAt st₂.curpath st₂.xmlArray = w := by rw [hb.curpath, hb.value]
    obtain ⟨hiff, hdesc⟩ := handleAll_openEvents r st₂ (hb.curpath ▸ hb.reaches)
      (hval₂ ▸ listsOk_read listsOk_null hc)
    rw [hval₂] at hiff
    rw [hst₂]
    -- both sides go through together, and then agree on whether the root counts as true
    have hroot : ∀ st' w', handleAll (openEvents r) st₂ = .ok st' →
        read (closeUp r) w = .ok w' →
        ((look (.str xmlRootobj) st'.xmlArray).truthy = true ↔
          (look (.str xmlRootobj) (closeChild n (finish w') v)).truthy = true) := by
      intro st' w' hst' hw'
      have hcur : st₁.curpath = childPath n v := hop.curpath
      have hpath : ∃ q, childPath n v = .str (strtolower n) :: q := by
        unfold childPath
        split <;> exact ⟨_, rfl⟩
      obtain ⟨q, hq⟩ := hpath
      by_cases hn : strtolower n = xmlRootobj
      · have hl : strtolower n ∉ listtags := by
          rw [hn]
          decide
        have hchild : childPath n v = [.str xmlRootobj] := by
          rw [childPath, if_neg hl, hn]
        rw [← hn, look_closeChild_self hl, truthy_finish, hn]
        cases r with
        | nil =>
          obtain rfl := (hdesc st' hst').still rfl
          obtain rfl : w = w' := Except.ok.inj hw'
          have hlook : look (.str xmlRootobj) st'.xmlArray = w := by
            have hvalue := hb.value
            rw [hcur, hchild] at hvalue
            exact hvalue
          rw [hlook]
        | cons f r =>
          have htruthy := (hdesc st' hst').truthy (by simp)
          rw [hb.curpath, hcur, hchild] at htruthy
          exact ⟨fun _ => truthy_closeUp hw', fun _ => htruthy⟩
      · have hkey : Key.str xmlRootobj ≠ .str (strtolower n) := by
          simpa using fun hc : xmlRootobj = strtolower n => hn hc.symm
        have h₃ := (hdesc st' hst').under.others (.str (strtolower n)) q
          (by rw [hb.curpath, hcur, hq]) _ hkey
        have h₂ := hb.under.others (.str (strtolower n)) q (by rw [hcur, hq]) _ hkey
        have h₁ : look (.str xmlRootobj) st₁.xmlArray = .null := by
          rw [show st₁.xmlArray = v from hop.parent]
          obtain ⟨-, ⟨-, rfl⟩ | ⟨-, -, rfl⟩⟩ := openChild_ok ho
          · exact look_set_of_ne hkey
          · exact look_set_of_ne hkey
        have hclose : look (.str xmlRootobj) (closeChild n (finish w') v) = .null := by
          have hne : strtolower xmlRootobj ≠ strtolower n := by
            rw [strtolower_xmlRootobj]
            exact fun hc => hn hc.symm
          have hother := look_closeChild_of_ne ho hne (finish w')
          rw [strtolower_xmlRootobj] at hother
          rw [hother]
          rfl
        rw [h₃, h₂, h₁, hclose]
    constructor
    · rintro ⟨st', hst', hv⟩
      obtain ⟨w', hw'⟩ := hiff.1 ⟨st', hst'⟩
      refine ⟨_, by rw [show (Except.ok w >>= read (closeUp r)) = .ok w' from hw']; rfl, ?_⟩
      exact rootOf_ok_iff.2 ((hroot st' w' hst' hw').1 (rootOf_ok_iff.1 hv))
    · rintro ⟨t, ht, hv⟩
      cases hw' : read (closeUp r) w with
      | error e =>
        rw [show (Except.ok w >>= read (closeUp r)) = .error e from hw'] at ht
        cases ht
      | ok w' =>
        rw [show (Except.ok w >>= read (closeUp r)) = .ok w' from hw'] at ht
        obtain ⟨st', hst'⟩ := hiff.2 ⟨w', hw'⟩
        refine ⟨st', hst', rootOf_ok_iff.2 ((hroot st' w' hst' hw').2 ?_)⟩
        rw [← Except.ok.inj ht] at hv
        exact rootOf_ok_iff.1 hv

/-- The document the parser has reported of a file: what it was given, with the end tags
that are missing added. -/
def Reported (X : Expat) (file : String) (d : Doc) : Prop :=
  blocks file ≠ [] ∧ (X.doc (fed file) = some d ∨
    (X.doc (fed file) = none ∧ ∃ n c r, X.begun (fed file) = openEvents ((n, c) :: r) ∧
      d = ⟨n, c.append (closeUp r)⟩))

/-- `xml_to_array` returns a tree exactly when the parser does not object and what it has
reported is loadable. -/
theorem xmlToArray_ok_iff (X : Expat) (file : String) :
    (∃ v, xmlToArray X file xmlRootobj = .ok v) ↔
      parses X file = true ∧ ∃ d, Reported X file d ∧ Loadable d := by
  cases hp : parses X file with
  | false =>
    rw [xmlToArray, hp]
    simp
  | true =>
    have hload : (∃ v, xmlToArray X file xmlRootobj = .ok v) ↔
        ∃ st, handleAll (eventsOf X file) Parser.init = .ok st ∧
          ∃ v, rootOf st.xmlArray = .ok v := by
      rw [← bind_ok_iff, xmlToArray, hp]
      rfl
    rw [hload]
    by_cases hb : blocks file = []
    · have hev : eventsOf X file = [] := by rw [eventsOf, hb]; rfl
      rw [hev]
      constructor
      · rintro ⟨st, hst, hv⟩
        obtain rfl : Parser.init = st := Except.ok.inj hst
        have hfalse := rootOf_ok_iff.1 hv
        cases hfalse
      · rintro ⟨-, d, ⟨hne, -⟩, -⟩
        exact absurd hb hne
    · have hempty : (blocks file).isEmpty = false := by simpa [List.isEmpty_iff] using hb
      -- what the parser was given is a whole document, or the beginning of one
      cases hd : X.doc (fed file) with
      | some d =>
        have hev : eventsOf X file = d.events := by
          rw [eventsOf, hempty, hd]
          rfl
        have hdoc : (∃ st, handleAll d.events Parser.init = .ok st ∧
            ∃ v, rootOf st.xmlArray = .ok v) ↔ Loadable d := by
          rw [← readDoc_ok_iff, ← handleAll_doc]
          cases handleAll d.events Parser.init with
          | error e =>
            constructor
            · rintro ⟨_, h, -⟩
              cases h
            · rintro ⟨_, h⟩
              cases h
          | ok st =>
            constructor
            · rintro ⟨st', h, hv⟩
              obtain rfl := Except.ok.inj h
              exact hv
            · exact fun hv => ⟨st, rfl, hv⟩
        rw [hev, hdoc]
        constructor
        · exact fun h => ⟨rfl, d, ⟨hb, .inl hd⟩, h⟩
        · rintro ⟨-, d', ⟨-, hd' | ⟨hnone, -⟩⟩, h⟩
          · rw [hd] at hd'
            exact Option.some.inj hd' ▸ h
          · rw [hd] at hnone
            cases hnone
      | none =>
        have hev : eventsOf X file = X.begun (fed file) := by
          rw [eventsOf, hempty, hd]
          rfl
        have hacc : X.accepts (fed file) = true := by
          rw [parses, hd, hempty] at hp
          split at hp
          · cases hp
          · simpa using hp
        obtain ⟨fs, hfs⟩ := X.begun_open _ hacc hd
        rw [hev]
        constructor
        · rintro ⟨st, hst, hv⟩
          cases fs with
          | nil =>
            rw [hfs] at hst
            obtain rfl : Parser.init = st := Except.ok.inj hst
            have hfalse := rootOf_ok_iff.1 hv
            cases hfalse
          | cons f r =>
            obtain ⟨n, c⟩ := f
            rw [hfs] at hst
            exact ⟨rfl, _, ⟨hb, .inr ⟨hd, n, c, r, hfs, rfl⟩⟩,
              (load_openEvents_iff n c r).1 ⟨st, hst, hv⟩⟩
        · rintro ⟨-, d, ⟨-, hd' | ⟨-, n, c, r, hbegun, rfl⟩⟩, h⟩
          · rw [hd] at hd'
            cases hd'
          · rw [hbegun]
            exact (load_openEvents_iff n c r).2 h

end XmlParse
end Askozia
