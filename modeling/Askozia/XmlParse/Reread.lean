import Askozia.XmlParse.ReaderTheorems
import Askozia.XmlParse.Writer

/-!
# Reading back what was written

`write_config` writes the tree and reads it back, so what matters is the composition of
`array_to_xml` and `xml_to_array`. This file removes the text in between:

* `rereadSub g` is the composition as a recursion on the tree, where `g` says what a piece
  of character data reads as;
* `xmlToArray_arrayToXml` is the equation, for every parser and every way `R` of cutting
  character data for which the strings of the tree read as `g` says.
-/

namespace Askozia
namespace XmlParse

open Php Xml

/-! ## Files -/

/-- The end of `xml_to_array`: what the root element holds, unless that is empty. -/
def rootOf (t : Val) : Except Die Val :=
  if (look (.str xmlRootobj) t).truthy then .ok (look (.str xmlRootobj) t)
  else .error (.noObjectFound xmlRootobj)

/-- The loop ends without a read that came up short: a file that fills its blocks, or one
whose last block is a lone `0`. -/
def Unflagged (s : List Char) : Prop :=
  s.length % 4096 = 0 ∨ (s.length % 4096 = 1 ∧ s.getLast? = some '0')

instance (s : List Char) : Decidable (Unflagged s) := inferInstanceAs (Decidable (_ ∨ _))

/-- The part of a file the loop gets to. -/
def given (s : List Char) : List Char :=
  if s.length % 4096 = 1 ∧ s.getLast? = some '0' then s.dropLast else s

/-- A file that does not end in `0` is read to its end. -/
theorem given_of_getLast {s : List Char} (h : s.getLast? ≠ some '0') : given s = s :=
  if_neg fun hc => h hc.2

/-- There is nothing to read in an empty file. -/
theorem freads_nil (n : ℕ) : freads n [] = [] := by
  cases n <;> rfl

/-- A short block: it is the last one, and the loop stops at it if it is falsy. -/
theorem freads_short {n : ℕ} {s : List Char} (h : s.length < 4096) :
    freads (n + 1) s = if falsy s then [] else [(s, true)] := by
  have htake : s.take 4096 = s := List.take_of_length_le (by omega)
  have hdrop : s.drop 4096 = [] := List.drop_eq_nil_of_le (by omega)
  rw [freads, htake, hdrop, freads_nil]
  simp [h]

/-- A full block, which is never falsy. -/
theorem freads_full {n : ℕ} {s : List Char} (h : 4096 ≤ s.length) :
    freads (n + 1) s = (s.take 4096, false) :: freads n (s.drop 4096) := by
  have hlen : (s.take 4096).length = 4096 := by
    rw [List.length_take]
    omega
  have hfalsy : falsy (s.take 4096) = false := by
    rw [falsy, Bool.or_eq_false_iff, beq_eq_false_iff_ne, beq_eq_false_iff_ne]
    constructor
    · intro hc
      rw [hc] at hlen
      cases hlen
    · intro hc
      rw [hc] at hlen
      cases hlen
  rw [freads]
  simp [hfalsy, hlen]

/-- The last character of a file that goes on after its first block. -/
theorem getLast_drop {s : List Char} (h : 4096 < s.length) :
    (s.drop 4096).getLast? = s.getLast? := by
  rw [List.getLast?_drop, if_neg (by omega)]

/-- A full block leaves the end of the file as it is. -/
theorem unflagged_drop {s : List Char} (h : 4096 ≤ s.length) :
    Unflagged (s.drop 4096) ↔ Unflagged s := by
  rw [Unflagged, Unflagged, List.length_drop]
  have hmod : (s.length - 4096) % 4096 = s.length % 4096 := by omega
  rw [hmod]
  rcases Nat.eq_or_lt_of_le h with heq | hlt
  · rw [← heq]
    simp
  · rw [getLast_drop hlt]

/-- It leaves the part of it that is read. -/
theorem given_drop {s : List Char} (h : 4096 ≤ s.length) :
    s.take 4096 ++ given (s.drop 4096) = given s := by
  have hmod : (s.drop 4096).length % 4096 = s.length % 4096 := by
    rw [List.length_drop]
    omega
  rw [given, given, hmod]
  rcases Nat.eq_or_lt_of_le h with heq | hlt
  · rw [← heq]
    simp
  · rw [getLast_drop hlt]
    split
    · have hne : s.drop 4096 ≠ [] := by
        intro hc
        have hlen := congrArg List.length hc
        rw [List.length_drop, List.length_nil] at hlen
        omega
      rw [← List.dropLast_append_of_ne_nil hne, List.take_append_drop]
    · exact List.take_append_drop _ _

/-- A short file leaves the loop without the flag exactly when its only block is falsy. -/
theorem falsy_iff_unflagged {s : List Char} (h : s.length < 4096) :
    falsy s = true ↔ Unflagged s := by
  rw [falsy, Unflagged, Bool.or_eq_true, beq_iff_eq, beq_iff_eq, Nat.mod_eq_of_lt h,
    List.length_eq_zero_iff]
  refine or_congr_right ⟨?_, ?_⟩
  · rintro rfl
    exact ⟨rfl, rfl⟩
  · rintro ⟨hlen, hlast⟩
    obtain ⟨c, rfl⟩ := List.length_eq_one_iff.1 hlen
    have hc : c = '0' := Option.some.inj hlast
    rw [hc]

/-- All blocks together are the part that is read. -/
theorem flatten_freads {n : ℕ} {s : List Char} (hn : s.length < n) :
    ((freads n s).map Prod.fst).flatten = given s := by
  induction n generalizing s with
  | zero => omega
  | succ n ih =>
    rcases Nat.lt_or_ge s.length 4096 with hs | hs
    · rw [freads_short hs]
      split
      · next hf =>
        -- nothing is left of an empty file or of a lone `0`
        rw [falsy, Bool.or_eq_true, beq_iff_eq, beq_iff_eq] at hf
        rcases hf with rfl | rfl <;> rfl
      · next hf =>
        have hnot : ¬ Unflagged s := fun hc => hf ((falsy_iff_unflagged hs).2 hc)
        rw [given, if_neg fun hc => hnot (.inr hc)]
        simp
    · rw [freads_full hs, List.map_cons, List.flatten_cons, ← given_drop hs,
        ih (by rw [List.length_drop]; omega)]

/-- A block is flagged as the last one unless the loop ends without noticing. -/
theorem any_freads {n : ℕ} {s : List Char} (hn : s.length < n) :
    (freads n s).any Prod.snd = !decide (Unflagged s) := by
  induction n generalizing s with
  | zero => omega
  | succ n ih =>
    rcases Nat.lt_or_ge s.length 4096 with hs | hs
    · rw [freads_short hs]
      have hiff := falsy_iff_unflagged hs
      by_cases hu : Unflagged s
      · simp [hu, hiff.2 hu]
      · have hf : falsy s = false := Bool.eq_false_iff.2 fun hc => hu (hiff.1 hc)
        simp [hu, hf]
    · rw [freads_full hs, List.any_cons, ih (by rw [List.length_drop]; omega)]
      simp [unflagged_drop hs]

/-- What the parser is given is that part. -/
theorem fed_eq_given (file : String) : fed file = String.ofList (given file.toList) := by
  rw [fed, blocks, flatten_freads (Nat.lt_succ_self _)]

/-- The parser is told that the file has ended unless the loop misses it. -/
theorem fedFinal_eq (file : String) : fedFinal file = !decide (Unflagged file.toList) := by
  rw [fedFinal, blocks, any_freads (Nat.lt_succ_self _)]

/-- Unless it ends in `0`, all of a file is read. -/
theorem fed_eq {file : String} (h : file.toList.getLast? ≠ some '0') : fed file = file := by
  rw [fed_eq_given, given_of_getLast h, String.ofList_toList]

/-- A file that is not empty and does not end in `0` gives it at least one block. -/
theorem blocks_ne_nil {file : String} (h : file.toList.getLast? ≠ some '0')
    (hne : file.toList ≠ []) : blocks file ≠ [] := by
  intro hb
  have hfed := fed_eq h
  rw [fed, hb] at hfed
  exact hne (by rw [← hfed]; rfl)

/-- A document is accepted. -/
theorem accepts_of_doc {X : Expat} {s : String} (h : (X.doc s).isSome) : X.accepts s = true :=
  (X.accepts_iff s).2 ⟨"", by rwa [String.append_empty]⟩

/-- A file that is a document is read as that document, whether or not the parser is told
that it has ended. -/
theorem xmlToArray_of_doc {X : Expat} {file : String} {d : Doc}
    (hlast : file.toList.getLast? ≠ some '0') (hne : file.toList ≠ [])
    (hdoc : X.doc file = some d) :
    xmlToArray X file xmlRootobj = readDoc d >>= rootOf := by
  have hblocks : (blocks file).isEmpty = false := by
    simpa [List.isEmpty_iff] using blocks_ne_nil hlast hne
  have hparses : parses X file = true := by
    rw [parses, fed_eq hlast, hdoc, accepts_of_doc (by rw [hdoc]; rfl)]
    split <;> simp
  have hevents : eventsOf X file = d.events := by
    rw [eventsOf, hblocks, fed_eq hlast, hdoc]
    rfl
  rw [xmlToArray, hparses, hevents, ← handleAll_doc]
  cases handleAll d.events Parser.init <;> rfl

/-- A file that no continuation makes a document is reported as not well-formed. -/
theorem xmlToArray_of_not_doc {X : Expat} {file rootobj : String}
    (hlast : file.toList.getLast? ≠ some '0') (hne : file.toList ≠ [])
    (hdoc : ∀ r, X.doc (file ++ r) = none) :
    xmlToArray X file rootobj = .error .notWellFormed := by
  have hblocks : (blocks file).isEmpty = false := by
    simpa [List.isEmpty_iff] using blocks_ne_nil hlast hne
  have hdoc' : X.doc file = none := by
    simpa using hdoc ""
  have hacc : X.accepts file = false := by
    rw [Bool.eq_false_iff]
    intro h
    obtain ⟨r, hr⟩ := (X.accepts_iff file).1 h
    rw [hdoc r] at hr
    simp at hr
  have hparses : parses X file = false := by
    rw [parses, fed_eq hlast, hdoc', hacc, hblocks]
    split <;> rfl
  rw [xmlToArray, hparses]
  rfl

/-! ## The composition -/

/-- The value of an element with the given pieces of character data and no children. -/
def readRun (ps : List String) : Val := ps.foldl (fun v d => addText d v) .null

/-- However `R` cuts it, the text `s` is read as `t`. -/
def ReadsAs (R : List Char → List String → Prop) (s t : String) : Prop :=
  ∀ ps, R s.toList ps → finish (readRun ps) = .str t

/-- The value of an element after a child whose content read as `x`. -/
def addChild (n : String) (x : Except Die Val) (v : Val) : Except Die Val := do
  let v ← openChild n v
  let c ← x
  pure (closeChild n (finish c) v)

/-- The value of an element after the element written for a value that is not an array. -/
def rereadScalar (g : String → String) (ent : String) (x v : Val) : Except Die Val :=
  match written x with
  | none => .ok v
  | some s => addChild (strtoupper ent) (.ok (.str (g s))) v

mutual

/-- The value of an element after the entries of an array have been written into it. -/
def rereadSub (g : String → String) : List (Key × Val) → Val → Except Die Val
  | [], v => .ok v
  | (ent, val) :: r, v => rereadEnt g ent.toStr val v >>= rereadSub g r

/-- The same for one entry. -/
def rereadEnt (g : String → String) (ent : String) : Val → Val → Except Die Val
  | .arr es, v =>
    if strtolower ent ∈ listtags then rereadItems g ent es v
    else addChild (strtoupper ent) (rereadSub g es .null) v
  | x, v => rereadScalar g ent x v

/-- The same for the items of a list. -/
def rereadItems (g : String → String) (ent : String) : List (Key × Val) → Val → Except Die Val
  | [], v => .ok v
  | (_, cval) :: r, v => rereadItem g ent cval v >>= rereadItems g ent r

/-- The same for one item. -/
def rereadItem (g : String → String) (ent : String) : Val → Val → Except Die Val
  | .arr es, v => addChild (strtoupper ent) (rereadSub g es .null) v
  | x, v => rereadScalar g ent x v

end

section Equations

variable {g : String → String} {ent : String} {x : Val}

/-- No entries leave the value as it is. -/
theorem rereadSub_nil : rereadSub g [] = Except.ok := by
  funext v
  rw [rereadSub]

/-- Entries are read one after the other. -/
theorem rereadSub_cons {k : Key} {r : List (Key × Val)} :
    rereadSub g ((k, x) :: r) = fun v => rereadEnt g k.toStr x v >>= rereadSub g r := by
  funext v
  rw [rereadSub]

/-- An array is a list if its name is a list tag, and an element otherwise. -/
theorem rereadEnt_arr {es : List (Key × Val)} :
    rereadEnt g ent (.arr es) = if strtolower ent ∈ listtags then rereadItems g ent es
      else addChild (strtoupper ent) (rereadSub g es .null) := by
  funext v
  rw [rereadEnt]
  split <;> rfl

/-- Anything else is an element with a text. -/
theorem rereadEnt_scalar (hx : x.isArray = false) : rereadEnt g ent x = rereadScalar g ent x := by
  funext v
  cases x with
  | arr es => simp [Val.isArray] at hx
  | _ => simp only [rereadEnt]

/-- No items leave the value as it is. -/
theorem rereadItems_nil : rereadItems g ent [] = Except.ok := by
  funext v
  rw [rereadItems]

/-- Items are read one after the other. -/
theorem rereadItems_cons {k : Key} {r : List (Key × Val)} :
    rereadItems g ent ((k, x) :: r) = fun v => rereadItem g ent x v >>= rereadItems g ent r := by
  funext v
  rw [rereadItems]

/-- An item that is an array is an element. -/
theorem rereadItem_arr {es : List (Key × Val)} :
    rereadItem g ent (.arr es) = addChild (strtoupper ent) (rereadSub g es .null) := by
  funext v
  rw [rereadItem]

/-- Any other is an element with a text. -/
theorem rereadItem_scalar (hx : x.isArray = false) :
    rereadItem g ent x = rereadScalar g ent x := by
  funext v
  cases x with
  | arr es => simp [Val.isArray] at hx
  | _ => simp only [rereadItem]

end Equations

/-- An element is added with what its contents are read as. -/
theorem readElem_eq (n : String) (k : Content) (v : Val) :
    readElem n k v = addChild n (read k .null) v := rfl

/-- Closing an element a second time changes nothing. -/
theorem addChild_finish (n : String) (c v : Val) :
    addChild n (.ok (finish c)) v = addChild n (.ok c) v := by
  have h : finish (finish c) = finish c := by
    rw [finish, if_neg (finish_ne_null c)]
  unfold addChild
  cases openChild n v with
  | error e => rfl
  | ok v₁ =>
    show Except.ok (closeChild n (finish (finish c)) v₁) = _
    rw [h]
    rfl

/-- Text is added piece by piece. -/
theorem read_texts (ps : List String) (c : Content) (v : Val) :
    read (.texts ps c) v = read c (ps.foldl (fun v d => addText d v) v) := by
  induction ps generalizing v with
  | nil => rfl
  | cons p ps ih => exact ih (addText p v)

/-! ### Indentation is skipped -/

/-- Runs of line feeds and tabs. -/
def Blank (run : List Char) : Prop := ∀ c ∈ run, c = '\t' ∨ c = '\n'

/-- However `R` cuts a blank run, nothing of it is kept. -/
def SkipsBlanks (R : List Char → List String → Prop) : Prop :=
  ∀ run ps, Blank run → R run ps → ∀ d ∈ ps, trim d "\t\n\r" = ""

theorem blank_nil : Blank [] := fun _ h => absurd h List.not_mem_nil

/-- Two blank runs make one. -/
theorem Blank.append {p q : List Char} (hp : Blank p) (hq : Blank q) : Blank (p ++ q) :=
  fun c hc => (List.mem_append.1 hc).elim (hp c) (hq c)

/-- The end of a line is blank. -/
theorem blank_newline : Blank "\n".toList := by
  intro c hc
  exact .inr (by simpa using hc)

/-- So is the indentation of the next. -/
theorem blank_tabs (indent : ℕ) : Blank (tabs indent).toList := by
  intro c hc
  rw [tabs_toList, List.mem_replicate] at hc
  exact .inl hc.2

/-- Text that is trimmed to nothing is not added. -/
theorem foldl_addText_of_skipped {ps : List String} (h : ∀ d ∈ ps, trim d "\t\n\r" = "")
    (v : Val) : ps.foldl (fun v d => addText d v) v = v := by
  induction ps with
  | nil => rfl
  | cons p ps ih =>
    have hp : addText p v = v := by
      rw [addText, if_neg (by simpa using h p List.mem_cons_self)]
    rw [List.foldl_cons, hp, ih fun d hd => h d (List.mem_cons_of_mem p hd)]

/-! ### The simulation -/

section Reread

variable {R : List Char → List String → Prop} {g : String → String} {N : String → Prop}
  (hR : SkipsBlanks R) (hempty : g "" = "")

/-- What is left of a delivery once some of the markup has been read into the value. -/
def Continues (R : List Char → List String → Prop) (rest : Markup) (c : Content)
    (f : Val → Except Die Val) : Prop :=
  ∃ p c', Blank p ∧ Delivery R p rest c' ∧ ∀ v, read c v = f v >>= read c'

include hR in
/-- A blank run is skipped, however it is cut. -/
theorem read_skip {p : List Char} {ps : List String} {c : Content} (hp : Blank p) (hps : R p ps)
    (v : Val) : read (.texts ps c) v = read c v := by
  rw [read_texts, foldl_addText_of_skipped (hR p ps hp hps)]

include hR in
/-- An element on a line of its own. -/
theorem continues_elem {p : List Char} {ent : String} {k rest : Markup} {c : Content}
    {x : Except Die Val} (hp : Blank p)
    (hd : Delivery R p (.elem ent k (.text "\n" rest)) c)
    (hx : ∀ ck v, Delivery R [] k ck →
      addChild (strtoupper ent) (read ck .null) v = addChild (strtoupper ent) x v) :
    Continues R rest c (addChild (strtoupper ent) x) := by
  cases hd with
  | elem hps hk hr =>
    cases hr with
    | text hr =>
      refine ⟨_, _, blank_nil.append blank_newline, hr, fun v => ?_⟩
      rw [read_skip hR hp hps, read_elem, readElem_eq, hx _ _ hk]

include hR in
/-- An empty-element tag on a line of its own. -/
theorem continues_empty {p : List Char} {ent : String} {rest : Markup} {c : Content}
    (hp : Blank p) (hd : Delivery R p (.empty ent (.text "\n" rest)) c) :
    Continues R rest c (addChild (strtoupper ent) (.ok (.str ""))) := by
  cases hd with
  | empty hps hr =>
    cases hr with
    | text hr =>
      refine ⟨_, _, blank_nil.append blank_newline, hr, fun v => ?_⟩
      rw [read_skip hR hp hps, read_elem, readElem_eq, read]
      exact congrArg (· >>= read _) (addChild_finish (strtoupper ent) .null v).symm

/-- The character data of an element. -/
theorem addChild_text {ent s t : String} {ck : Content} (hs : ReadsAs R s t)
    (hd : Delivery R [] (.text s .nil) ck) (v : Val) :
    addChild (strtoupper ent) (read ck .null) v = addChild (strtoupper ent) (.ok (.str t)) v := by
  cases hd with
  | text hd =>
    cases hd with
    | nil hps =>
      rw [read_texts, ← hs _ hps, addChild_finish]
      rfl

include hR hempty in
/-- After an element with a text the rest is read with its text added. -/
theorem continues_scalar {p : List Char} {ent : String} {x : Val} {rest : Markup} {c : Content}
    (hp : Blank p) (hx : EveryScalar N (fun s => ReadsAs R s (g s)) ent x)
    (hd : Delivery R p (scalarMarkup ent x rest) c) :
    Continues R rest c (rereadScalar g ent x) := by
  have htrue : rereadScalar g ent (.bool true) = addChild (strtoupper ent) (.ok (.str "")) := by
    funext v
    simp only [rereadScalar, written, hempty]
  unfold scalarMarkup at hd
  -- the four branches of the writer: true, false, a text, and any other value
  split at hd
  · rw [htrue]
    exact continues_empty hR hp hd
  · exact ⟨p, c, hp, hd, fun v => rfl⟩
  · next s =>
    have hstr : rereadScalar g ent (.str s) = addChild (strtoupper ent) (.ok (.str (g s))) := rfl
    rw [hstr]
    split at hd
    · next hs =>
      rw [hs, hempty]
      exact continues_empty hR hp hd
    · exact continues_elem hR hp hd fun ck v hk => addChild_text (hx s rfl).2 hk v
  · next x' htrue' hfalse' _ =>
    have hw : written x = some x.toStr := by
      cases x with
      | bool b => cases b <;> simp_all
      | _ => rfl
    have hscalar : rereadScalar g ent x = addChild (strtoupper ent) (.ok (.str (g x.toStr))) := by
      funext v
      simp only [rereadScalar, hw]
    rw [hscalar]
    exact continues_elem hR hp hd fun ck v hk => addChild_text (hx _ hw).2 hk v

/-- Two parts of the markup are read one after the other. -/
theorem Continues.bind {rest rest' : Markup} {c : Content} {f f' : Val → Except Die Val}
    (h : Continues R rest c f)
    (h' : ∀ p c', Blank p → Delivery R p rest c' → Continues R rest' c' f') :
    Continues R rest' c (fun v => f v >>= f') := by
  obtain ⟨p, c', hp, hd, hread⟩ := h
  obtain ⟨p', c'', hp', hd', hread'⟩ := h' p c' hp hd
  refine ⟨p', c'', hp', hd', fun v => ?_⟩
  show read c v = (f v >>= f') >>= read c''
  rw [hread]
  cases f v with
  | error e => rfl
  | ok w => exact hread' w

include hR in
/-- The content written for an array inside an element. -/
theorem addChild_block {ent : String} {indent indent' : ℕ} {es : List (Key × Val)} {ck : Content}
    (hsub : ∀ p rest c, Blank p → Delivery R p (markupSub indent es rest) c →
      Continues R rest c (rereadSub g es))
    (hd : Delivery R [] (.text "\n" (markupSub indent es (.text (tabs indent') .nil))) ck)
    (v : Val) :
    addChild (strtoupper ent) (read ck .null) v =
      addChild (strtoupper ent) (rereadSub g es .null) v := by
  cases hd with
  | text hd =>
    obtain ⟨p, c', hp, hd', hread⟩ := hsub _ _ _ (blank_nil.append blank_newline) hd
    cases hd' with
    | text hd' =>
      cases hd' with
      | nil hps =>
        rw [hread]
        congr 1
        have hskip : ∀ w, read (.texts _ .nil) w = .ok w := fun w =>
          read_skip hR (hp.append (blank_tabs indent')) hps w
        cases rereadSub g es .null with
        | error e => rfl
        | ok w => exact hskip w

include hR hempty

/-- A value that is not an array, as an entry. -/
theorem continues_ent_scalar {x : Val} (hx : x.isArray = false)
    {ent : String} (ht : EveryScalar N (fun s => ReadsAs R s (g s)) ent x) {indent : ℕ}
    {p : List Char} {rest : Markup} {c : Content} (hp : Blank p)
    (hd : Delivery R p (markupEnt ent indent x rest) c) :
    Continues R rest c (rereadEnt g ent x) := by
  rw [rereadEnt_scalar hx]
  by_cases hfalse : x = .bool false
  · subst hfalse
    rw [markupEnt] at hd
    exact ⟨p, c, hp, hd, fun v => rfl⟩
  · rw [markupEnt_scalar hx hfalse] at hd
    cases hd with
    | text hd => exact continues_scalar hR hempty (hp.append (blank_tabs indent)) ht hd

/-- A value that is not an array, as a list item. -/
theorem continues_item_scalar {x : Val} (hx : x.isArray = false)
    {ent : String} (ht : EveryScalar N (fun s => ReadsAs R s (g s)) ent x) {indent : ℕ}
    {p : List Char} {rest : Markup} {c : Content} (hp : Blank p)
    (hd : Delivery R p (markupItem ent indent x rest) c) :
    Continues R rest c (rereadItem g ent x) := by
  rw [rereadItem_scalar hx]
  rw [markupItem_scalar hx] at hd
  cases hd with
  | text hd => exact continues_scalar hR hempty (hp.append (blank_tabs indent)) ht hd

omit hR hempty

mutual

/-- The markup of the entries of an array is read as the entries. -/
theorem continues_sub (hR : SkipsBlanks R) (hempty : g "" = "") : ∀ (es : List (Key × Val)), EverySub N (fun s => ReadsAs R s (g s)) es →
    ∀ (indent : ℕ) (p : List Char) (rest : Markup) (c : Content), Blank p →
      Delivery R p (markupSub indent es rest) c → Continues R rest c (rereadSub g es)
  | [], _, indent, p, rest, c, hp, hd => by
    rw [markupSub] at hd
    rw [rereadSub_nil]
    exact ⟨p, c, hp, hd, fun v => rfl⟩
  | (ent, val) :: r, ht, indent, p, rest, c, hp, hd => by
    rw [EverySub] at ht
    rw [markupSub] at hd
    rw [rereadSub_cons]
    exact (continues_ent hR hempty val ent.toStr ht.1 indent p _ c hp hd).bind fun p' c' hp' hd' =>
      continues_sub hR hempty r ht.2 indent p' rest c' hp' hd'

theorem continues_ent (hR : SkipsBlanks R) (hempty : g "" = "") : ∀ (x : Val) (ent : String), EveryEnt N (fun s => ReadsAs R s (g s)) ent x →
    ∀ (indent : ℕ) (p : List Char) (rest : Markup) (c : Content), Blank p →
      Delivery R p (markupEnt ent indent x rest) c → Continues R rest c (rereadEnt g ent x)
  | .arr es, ent, ht, indent, p, rest, c, hp, hd => by
    rw [EveryEnt] at ht
    rw [rereadEnt_arr]
    rw [markupEnt] at hd
    split at hd
    · next hl =>
      rw [if_pos hl] at ht
      rw [if_pos hl]
      exact continues_items hR hempty es ent ht indent p rest c hp hd
    · next hl =>
      rw [if_neg hl] at ht
      rw [if_neg hl]
      cases hd with
      | text hd =>
        exact continues_elem hR (hp.append (blank_tabs indent)) hd fun ck v hk =>
          addChild_block hR (continues_sub hR hempty es ht.2 (indent + 1)) hk v
  | .bool _, ent, ht, _, _, _, _, hp, hd =>
    continues_ent_scalar hR hempty rfl ((everyEnt_scalar rfl ent).1 ht) hp hd
  | .null, ent, ht, _, _, _, _, hp, hd =>
    continues_ent_scalar hR hempty rfl ((everyEnt_scalar rfl ent).1 ht) hp hd
  | .int _, ent, ht, _, _, _, _, hp, hd =>
    continues_ent_scalar hR hempty rfl ((everyEnt_scalar rfl ent).1 ht) hp hd
  | .str _, ent, ht, _, _, _, _, hp, hd =>
    continues_ent_scalar hR hempty rfl ((everyEnt_scalar rfl ent).1 ht) hp hd

theorem continues_items (hR : SkipsBlanks R) (hempty : g "" = "") : ∀ (es : List (Key × Val)) (ent : String),
    EveryItems N (fun s => ReadsAs R s (g s)) ent es → ∀ (indent : ℕ) (p : List Char) (rest : Markup) (c : Content), Blank p →
      Delivery R p (markupItems ent indent es rest) c → Continues R rest c (rereadItems g ent es)
  | [], ent, _, indent, p, rest, c, hp, hd => by
    rw [markupItems] at hd
    rw [rereadItems_nil]
    exact ⟨p, c, hp, hd, fun v => rfl⟩
  | (_, cval) :: r, ent, ht, indent, p, rest, c, hp, hd => by
    rw [EveryItems] at ht
    rw [markupItems] at hd
    rw [rereadItems_cons]
    exact (continues_item hR hempty cval ent ht.1 indent p _ c hp hd).bind fun p' c' hp' hd' =>
      continues_items hR hempty r ent ht.2 indent p' rest c' hp' hd'

theorem continues_item (hR : SkipsBlanks R) (hempty : g "" = "") : ∀ (x : Val) (ent : String), EveryItem N (fun s => ReadsAs R s (g s)) ent x →
    ∀ (indent : ℕ) (p : List Char) (rest : Markup) (c : Content), Blank p →
      Delivery R p (markupItem ent indent x rest) c → Continues R rest c (rereadItem g ent x)
  | .arr es, ent, ht, indent, p, rest, c, hp, hd => by
    rw [EveryItem] at ht
    rw [rereadItem_arr]
    rw [markupItem] at hd
    cases hd with
    | text hd =>
      exact continues_elem hR (hp.append (blank_tabs indent)) hd fun ck v hk =>
        addChild_block hR (continues_sub hR hempty es ht.2 (indent + 1)) hk v
  | .bool _, ent, ht, _, _, _, _, hp, hd =>
    continues_item_scalar hR hempty rfl ((everyItem_scalar rfl ent).1 ht) hp hd
  | .null, ent, ht, _, _, _, _, hp, hd =>
    continues_item_scalar hR hempty rfl ((everyItem_scalar rfl ent).1 ht) hp hd
  | .int _, ent, ht, _, _, _, _, hp, hd =>
    continues_item_scalar hR hempty rfl ((everyItem_scalar rfl ent).1 ht) hp hd
  | .str _, ent, ht, _, _, _, _, hp, hd =>
    continues_item_scalar hR hempty rfl ((everyItem_scalar rfl ent).1 ht) hp hd

end

include hR hempty

/-- The content delivered for a whole array. -/
theorem read_markup {t : Val} {c : Content} (ht : EverySub N (fun s => ReadsAs R s (g s)) t.entries)
    (hd : Delivery R [] (markup t) c) : read c .null = rereadSub g t.entries .null := by
  cases hd with
  | text hd =>
    obtain ⟨p, c', hp, hd', hread⟩ :=
      continues_sub hR hempty t.entries ht 1 _ _ _ (blank_nil.append blank_newline) hd
    cases hd' with
    | nil hps =>
      rw [hread]
      cases rereadSub g t.entries .null with
      | error e => rfl
      | ok w => exact read_skip hR hp hps w

end Reread

/-! ## Writing and reading -/

/-- The root element is not a list tag, so the array read from a file has one entry. -/
theorem addChild_root {n : String} (hn : strtolower n = xmlRootobj) (x : Except Die Val) :
    addChild n x (.arr []) = (fun c => .arr [(.str xmlRootobj, finish c)]) <$> x := by
  have hlist : xmlRootobj ∉ listtags := by decide
  unfold addChild openChild closeChild
  simp only [hn, hlist, if_false]
  cases x <;> rfl

/-- The same for a root element with the value `c`. -/
def rootValue (c : Val) : Except Die Val :=
  if (finish c).truthy then .ok (finish c) else .error (.noObjectFound xmlRootobj)

/-- The root is the only thing in the tree. -/
theorem rootOf_singleton (c : Val) : rootOf (.arr [(.str xmlRootobj, finish c)]) = rootValue c := by
  have hlook : look (.str xmlRootobj) (.arr [(.str xmlRootobj, finish c)]) = finish c := by
    simp [look]
  rw [rootOf, hlook]
  rfl

/-- A document whose root is the right one. -/
theorem readDoc_root {d : Doc} (hn : strtolower d.name = xmlRootobj) :
    readDoc d >>= rootOf = read d.kids .null >>= rootValue := by
  rw [readDoc, readElem_eq, addChild_root hn]
  cases read d.kids .null with
  | error e => rfl
  | ok c => exact rootOf_singleton c

/-- Writing a tree and reading it back: what `write_config` leaves in `$config`. -/
def normalise (X : Expat) (t : Val) : Except Die Val :=
  xmlToArray X (arrayToXml t xmlRootobj) xmlRootobj

/-- A document does not end in `0`. -/
theorem document_getLast (root : String) (m : Markup) :
    (document root m).toList.getLast? ≠ some '0' := by
  have h : (document root m).toList =
      ("<?xml version=\"1.0\"?>\n<" ++ root ++ ">" ++ m.render ++ "</" ++ root).toList ++
        ['>', '\n'] := by
    unfold document
    rw [String.toList_append]
    rfl
  rw [h, List.getLast?_append]
  simp

/-- It is not empty. -/
theorem document_ne_nil (root : String) (m : Markup) : (document root m).toList ≠ [] := by
  unfold document
  rw [String.toList_append]
  simp

/-- Writing and reading, without the text in between. -/
theorem normalise_eq {X : Expat} {R : List Char → List String → Prop} {g : String → String}
    {N : String → Prop} {t : Val} {d : Doc} (hR : SkipsBlanks R) (hempty : g "" = "")
    (ht : EverySub N (fun s => ReadsAs R s (g s)) t.entries)
    (hdoc : X.doc (document xmlRootobj (markup t)) = some d)
    (hname : d.name = strtoupper xmlRootobj) (hd : Delivery R [] (markup t) d.kids) :
    normalise X t = rereadSub g t.entries .null >>= rootValue := by
  rw [normalise, arrayToXml_eq,
    xmlToArray_of_doc (document_getLast _ _) (document_ne_nil _ _) hdoc,
    readDoc_root (by rw [hname]; decide), read_markup hR hempty ht hd]

end XmlParse
end Askozia
