import Askozia.Php.Lacks
import Askozia.XmlParse.Normal

/-!
# Line ends are not read

The reader trims every piece of character data it is given, and a line end is a piece of its own. So
whatever is posted and saved, no text of the configuration has a line end after the save.

* `LineEndsApart` is what is assumed of the parser, `lineEndsApart_of_delivery` that it holds of one
  which cuts at tags, entities and line feeds;
* `oneLined_xmlToArray`: nothing that is read has a line end in it.
-/

namespace Askozia
namespace XmlParse

open Php Xml

/-- The character is a line end. -/
def isLineEnd (c : Char) : Bool := c == '\n' || c == '\r'

/-- What the parser reports: names have no line ends, and in character data a line end stands alone. -/
def LineEndsApart (es : List Event) : Prop :=
  ∀ e ∈ es, match e with
    | .start n => TextLacks isLineEnd n
    | .stop _ => True
    | .chars d => d = "\n" ∨ d = "\r" ∨ TextLacks isLineEnd d

theorem oneLined_look {v : Val} {k : Key} (h : v.Lacks isLineEnd) : (look k v).Lacks isLineEnd := by
  cases v with
  | arr es =>
    rw [look]
    cases hx : es.lookup k with
    | none => exact Val.lacks_null
    | some x => exact Val.lacks_of_lookup h hx
  | _ => exact Val.lacks_null

/-! ## The handlers -/

section Handlers

variable {t t' v w : Val} {p : List Key} {f : Val → Except Die Val} {st st' : Parser}

theorem oneLined_followPath (hp : ∀ k ∈ p, KeyLacks isLineEnd k) (ht : t.Lacks isLineEnd)
    (hf : ∀ v w, v.Lacks isLineEnd → f v = .ok w → w.Lacks isLineEnd) (h : followPath p f t = .ok t') :
    t'.Lacks isLineEnd := by
  induction p generalizing t t' with
  | nil => exact hf t t' ht h
  | cons k ks ih =>
    rw [followPath, follow] at h
    split_ifs at h with ho
    cases hw : followPath ks f (look k t) with
    | error e =>
      rw [hw] at h
      cases h
    | ok w =>
      rw [hw] at h
      obtain rfl := Except.ok.inj h
      apply Val.lacks_set ht (hp k List.mem_cons_self)
      exact ih (fun k hk => hp k (List.mem_cons_of_mem _ hk)) (oneLined_look ht) hw

/-- What the parser has built so far has no line ends. -/
structure Unlined (st : Parser) : Prop where
  tree : st.xmlArray.Lacks isLineEnd
  path : ∀ k ∈ st.curpath, KeyLacks isLineEnd k

theorem noLineEnd_strtolower {n : String} (h : TextLacks isLineEnd n) : TextLacks isLineEnd (strtolower n) := by
  intro c hc
  rw [strtolower, String.toList_ofList, List.mem_map] at hc
  obtain ⟨d, hd, rfl⟩ := hc
  have hd := h d hd
  unfold Char.toLower
  split_ifs with hupper
  · -- a capital letter becomes a small one
    have hd' : ∀ n < 128, (Char.ofNat n).isUpper = true → isLineEnd (Char.ofNat n).toLower = false := by
      decide
    have hascii : d.toNat < 128 := by
      have hle : d.val.toNat ≤ 90 := hupper.2
      exact Nat.lt_of_le_of_lt hle (by decide)
    have hlower := forall_ascii (p := fun c => c.isUpper = true → isLineEnd c.toLower = false) hd' hascii
      (decide_eq_true hupper)
    unfold Char.toLower at hlower
    rwa [dif_pos hupper] at hlower
  · exact hd

theorem noLineEnd_trim {d : String} (h : d = "\n" ∨ d = "\r" ∨ TextLacks isLineEnd d) :
    TextLacks isLineEnd (trim d "\t\n\r") := by
  rcases h with rfl | rfl | h
  · have hempty : trim "\n" "\t\n\r" = "" := by decide
    rw [hempty]
    exact fun c hc => absurd hc List.not_mem_nil
  · have hempty : trim "\r" "\t\n\r" = "" := by decide
    rw [hempty]
    exact fun c hc => absurd hc List.not_mem_nil
  · intro c hc
    rw [trim_toList] at hc
    exact h c (mem_of_mem_trimChars hc)

theorem oneLined_addData {d : String} (hd : TextLacks isLineEnd d) (hv : v.Lacks isLineEnd) : (addData d v).Lacks isLineEnd := by
  have hnew : Val.Lacks isLineEnd (if trim d " " ≠ "" then .str d else v) := by
    split_ifs
    · exact Val.lacks_str.2 hd
    · exact hv
  cases v with
  | str s =>
    -- a text goes on
    rw [addData, Val.lacks_str]
    rw [Val.lacks_str] at hv
    intro c hc
    rw [String.toList_append, List.mem_append] at hc
    rcases hc with hc | hc
    · exact hv c hc
    · exact hd c hc
  | _ => exact hnew

theorem unlined_startElement {n : String} (hn : TextLacks isLineEnd n) (h : Unlined st)
    (hrun : startElement n st = .ok st') : Unlined st' := by
  have hname : KeyLacks isLineEnd (.str (strtolower n)) := noLineEnd_strtolower hn
  have hpath : ∀ k ∈ st.curpath ++ [.str (strtolower n)], KeyLacks isLineEnd k := by
    intro k hk
    rcases List.mem_append.1 hk with hk | hk
    · exact h.path k hk
    · rw [List.mem_singleton.1 hk]
      exact hname
  unfold startElement at hrun
  dsimp only at hrun
  -- a list tag makes its value an array; any other tag may come once only
  split_ifs at hrun with hl
  · cases ht : followPath (st.curpath ++ [.str (strtolower n)]) (fun v => .ok (makeArray v)) st.xmlArray with
    | error e =>
      rw [ht] at hrun
      cases hrun
    | ok t =>
      rw [ht] at hrun
      obtain rfl := Except.ok.inj hrun
      refine ⟨oneLined_followPath hpath h.tree ?_ ht, ?_⟩
      · intro v w hv hw
        obtain rfl := Except.ok.inj hw
        unfold makeArray
        split_ifs
        · exact hv
        · exact Val.lacks_empty
      · intro k hk
        rcases List.mem_append.1 hk with hk | hk
        · exact hpath k hk
        · rw [List.mem_singleton.1 hk]
          trivial
  · cases ht : followPath (st.curpath ++ [.str (strtolower n)]) (onlyOnce n) st.xmlArray with
    | error e =>
      rw [ht] at hrun
      cases hrun
    | ok t =>
      rw [ht] at hrun
      obtain rfl := Except.ok.inj hrun
      refine ⟨oneLined_followPath hpath h.tree ?_ ht, hpath⟩
      intro v w hv hw
      unfold onlyOnce at hw
      split_ifs at hw
      exact Except.ok.inj hw ▸ hv

theorem unlined_endElement {n : String} (h : Unlined st) (hrun : endElement n st = .ok st') :
    Unlined st' := by
  unfold endElement at hrun
  cases ht : fillEmpty st with
  | error e =>
    rw [ht] at hrun
    cases hrun
  | ok t =>
    rw [ht] at hrun
    obtain rfl := Except.ok.inj hrun
    constructor
    · unfold fillEmpty at ht
      split_ifs at ht
      · refine oneLined_followPath h.path h.tree ?_ ht
        intro v w _ hw
        obtain rfl := Except.ok.inj hw
        exact Val.lacks_str.2 fun c hc => absurd hc List.not_mem_nil
      · exact Except.ok.inj ht ▸ h.tree
    · intro k hk
      dsimp only at hk
      split_ifs at hk
      · exact h.path k (List.dropLast_subset _ (List.dropLast_subset _ hk))
      · exact h.path k (List.dropLast_subset _ hk)

theorem unlined_cData {d : String} (hd : d = "\n" ∨ d = "\r" ∨ TextLacks isLineEnd d) (h : Unlined st)
    (hrun : cData d st = .ok st') : Unlined st' := by
  have htrim := noLineEnd_trim hd
  unfold cData at hrun
  dsimp only at hrun
  by_cases hempty : trim d "\t\n\r" ≠ ""
  · rw [if_pos hempty] at hrun
    cases ht : followPath st.curpath (fun v => .ok (addData (trim d "\t\n\r") v)) st.xmlArray with
    | error e =>
      rw [ht] at hrun
      cases hrun
    | ok t =>
      rw [ht] at hrun
      obtain rfl := Except.ok.inj hrun
      refine ⟨oneLined_followPath h.path h.tree ?_ ht, h.path⟩
      intro v w hv hw
      exact Except.ok.inj hw ▸ oneLined_addData htrim hv
  · rw [if_neg hempty] at hrun
    exact Except.ok.inj hrun ▸ h

/-- One event. -/
theorem unlined_handle {e : Event} (he : LineEndsApart [e]) (h : Unlined st) (hrun : handle st e = .ok st') :
    Unlined st' := by
  have he := he e List.mem_cons_self
  cases e with
  | start n => exact unlined_startElement he h hrun
  | stop n => exact unlined_endElement h hrun
  | chars d => exact unlined_cData he h hrun

/-- All events. -/
theorem unlined_handleAll {es : List Event} (hes : LineEndsApart es) (h : Unlined st)
    (hrun : handleAll es st = .ok st') : Unlined st' := by
  induction es generalizing st with
  | nil => exact Except.ok.inj hrun ▸ h
  | cons e r ih =>
    rw [handleAll_cons] at hrun
    cases hst : handle st e with
    | error x =>
      rw [hst] at hrun
      cases hrun
    | ok st₁ =>
      rw [hst] at hrun
      have hone : LineEndsApart [e] := by
        intro e' he'
        rw [List.mem_singleton.1 he']
        exact hes e List.mem_cons_self
      exact ih (fun e he => hes e (List.mem_cons_of_mem _ he)) (unlined_handle hone h hst) hrun

end Handlers

/-- **Nothing that is read has a line end in it** -/
theorem oneLined_xmlToArray {X : Expat} {file rootobj : String} {v : Val}
    (hX : LineEndsApart (eventsOf X file)) (h : xmlToArray X file rootobj = .ok v) : v.Lacks isLineEnd := by
  unfold xmlToArray at h
  split_ifs at h
  cases hst : handleAll (eventsOf X file) Parser.init with
  | error e =>
    rw [hst] at h
    cases h
  | ok st =>
    rw [hst] at h
    have hinit : Unlined Parser.init :=
      ⟨Val.lacks_empty, fun k hk => absurd hk List.not_mem_nil⟩
    have hunlined := unlined_handleAll hX hinit hst
    have hroot : (if (look (.str rootobj) st.xmlArray).truthy = true then
        Except.ok (look (.str rootobj) st.xmlArray) else .error (Die.noObjectFound rootobj)) = .ok v := h
    split_ifs at hroot
    exact Except.ok.inj hroot ▸ oneLined_look hunlined.tree


/-! ## A parser that cuts at line feeds -/

theorem noLineEnd_of_isName {n : String} (h : isName n = true) : TextLacks isLineEnd (strtoupper n) := by
  intro c hc
  rw [strtoupper, String.toList_ofList, List.mem_map] at hc
  obtain ⟨d, hd, rfl⟩ := hc
  have hall : ∀ n < 128, isNameChar (Char.ofNat n) = true → isLineEnd (Char.ofNat n).toUpper = false := by
    decide
  have hname := isNameChar_of_isName h d hd
  exact forall_ascii (p := fun c => isNameChar c = true → isLineEnd c.toUpper = false) hall
    (lt_of_isNameChar hname) hname

theorem LineEndsApart.append {es es' : List Event} (h : LineEndsApart es) (h' : LineEndsApart es') :
    LineEndsApart (es ++ es') := by
  intro e he
  rcases List.mem_append.1 he with he | he
  · exact h e he
  · exact h' e he

theorem LineEndsApart.cons {e : Event} {es : List Event} (he : LineEndsApart [e]) (h : LineEndsApart es) :
    LineEndsApart (e :: es) := he.append h

theorem lineEndsApart_start {n : String} (h : TextLacks isLineEnd n) : LineEndsApart [.start n] := by
  intro e he
  rw [List.mem_singleton.1 he]
  exact h

theorem lineEndsApart_stop (n : String) : LineEndsApart [.stop n] := by
  intro e he
  rw [List.mem_singleton.1 he]
  trivial

/-- The pieces of a run. -/
theorem lineEndsApart_texts {run : List Char} {ps : List String} (hps : OnePiecePerRun run ps)
    {c : Content} (hc : LineEndsApart c.events) : LineEndsApart (Content.texts ps c).events := by
  -- a piece is one line end or has none in it
  have hpieces : ∀ p ∈ ps, p = "\n" ∨ p = "\r" ∨ TextLacks isLineEnd p := by
    intro p hp
    rw [show ps = _ from hps] at hp
    obtain ⟨cs, hcs, rfl⟩ := List.mem_map.1 hp
    have hreturn : '\r' ∉ cs := by
      intro hr
      apply not_mem_eol run
      rw [← pieces_flatten (eol run)]
      exact List.mem_flatten.2 ⟨cs, hcs, hr⟩
    rcases pieces_uniform _ cs hcs with ⟨d, rfl, hbreak⟩ | hplain
    · by_cases hd : d = '\n'
      · rw [hd]
        exact .inl rfl
      · refine .inr (.inr ?_)
        intro e he
        rw [String.toList_ofList, List.mem_singleton] at he
        subst he
        have hne : e ≠ '\r' := fun h => hreturn (List.mem_singleton.2 h.symm)
        simp [isLineEnd, hd, hne]
    · refine .inr (.inr ?_)
      intro e he
      rw [String.toList_ofList] at he
      have hne : e ≠ '\r' := fun h => hreturn (h ▸ he)
      have hd : e ≠ '\n' := by
        rintro rfl
        exact Bool.noConfusion (hplain _ he)
      simp [isLineEnd, hd, hne]
  clear hps
  induction ps with
  | nil => exact hc
  | cons p r ih =>
    apply LineEndsApart.cons
    · intro e he
      rw [List.mem_singleton.1 he]
      exact hpieces p List.mem_cons_self
    · exact ih fun q hq => hpieces q (List.mem_cons_of_mem _ hq)

/-- Documents under XML names, from a parser that cuts at tags, entities and line feeds. -/
theorem lineEndsApart_of_delivery {p : List Char} {m : Markup} {c : Content}
    (h : Delivery OnePiecePerRun p m c) (hm : m.Named) : LineEndsApart c.events := by
  induction h with
  | nil hps => exact lineEndsApart_texts hps fun e he => absurd he List.not_mem_nil
  | text _ ih => exact ih hm.2
  | @elem p ps n k ck r cr hps hk hr ihk ihr =>
    have hname := noLineEnd_of_isName hm.1
    exact lineEndsApart_texts hps ((lineEndsApart_start hname).cons
      ((ihk hm.2.1).append ((lineEndsApart_stop _).cons (ihr hm.2.2))))
  | @empty p ps n r cr hps hr ihr =>
    have hname := noLineEnd_of_isName hm.1
    exact lineEndsApart_texts hps ((lineEndsApart_start hname).cons
      ((lineEndsApart_stop _).cons (ihr hm.2)))

/-- The events of a tree that is written under XML names. -/
theorem lineEndsApart_arrayToXml (X : RunExpat) {t : Val}
    (ht : EverySub (isName · = true) (fun s => ∀ c ∈ s.toList, isLegalChar c = true) t.entries) :
    LineEndsApart (eventsOf X.toExpat (arrayToXml t xmlRootobj)) := by
  have hevery := (every_markup (by simp) legal_newline legal_tabs t).2 ht
  have hnamed : (markup t).Named := hevery.mono (fun _ h => h) fun _ _ => trivial
  have hascii : (markup t).Ascii :=
    hevery.mono (fun _ _ => trivial) fun s hs c hc => ascii_of_legal (hs c hc)
  have hlegal : (markup t).Legal := hevery.mono (fun _ _ => trivial) fun _ h => h
  obtain ⟨d, hdoc, hname, -⟩ := doc_arrayToXml X.toExpat ht
  have hkids := X.runs xmlRootobj (markup t) d (by decide) hnamed hascii hlegal hdoc
  have hevents : LineEndsApart d.events := by
    unfold Doc.events
    rw [hname]
    exact (lineEndsApart_start (noLineEnd_of_isName (by decide))).cons
      ((lineEndsApart_of_delivery hkids hnamed).append (lineEndsApart_stop _))
  rw [arrayToXml_eq]
  unfold eventsOf
  rw [fed_eq (document_getLast _ _), hdoc]
  split_ifs
  · exact fun e he => absurd he List.not_mem_nil
  · exact hevents

end XmlParse
end Askozia
