import Askozia.XmlParse.RoundTrip
import Mathlib.Data.List.Chain

/-!
# One write normalises

With a parser that hands character data over in one piece between tags, entities and line
feeds, what a text reads as is a function of the text: `normText`. It drops line ends, the
tabs next to them and to entities, and blank pieces in front. Doing so once is enough:

* `settled_normText`: what is left has no tab next to an entity or at an end, no line end,
  and does not start with a blank piece;
* `normText_settled`: such a text reads as itself.

So a second save of an unmodified configuration changes nothing: `normalise_idempotent`.
-/

namespace Askozia
namespace XmlParse

open Php Xml

/-- A blank run that comes in one piece is skipped. -/
theorem skipsBlanks_onePiecePerRun : SkipsBlanks OnePiecePerRun := fun run ps hrun hps =>
  skipsBlanks_chunked run ps hrun (chunked_of_onePiecePerRun hps)

/-! ## What a text reads as -/

/-- The text of an element with this character data. -/
def normText (s : String) : String :=
  match finish (readRun ((pieces (eol s.toList)).map String.ofList)) with
  | .str t => t
  | _ => ""

/-- A tab and an entity or line feed do not stand next to each other. -/
def Apart (c d : Char) : Prop :=
  ¬ (isBreak c = true ∧ d = '\t') ∧ ¬ (c = '\t' ∧ isBreak d = true)

/-- Nothing in the text is trimmed when it is cut into pieces. -/
structure Tidy (u : List Char) : Prop where
  noEol : ∀ c ∈ u, c ≠ '\n' ∧ c ≠ '\r'
  head : u.head? ≠ some '\t'
  last : u.getLast? ≠ some '\t'
  apart : u.IsChain Apart

/-- A tidy text whose first piece is not blank. -/
structure Settled (u : List Char) : Prop extends Tidy u where
  lead : ∃ p ps, pieces u = p :: ps ∧ ∃ c ∈ p, c ≠ ' '

/-- Characters that are no tabs may stand next to each other. -/
theorem apart_of_ne_tab {c d : Char} (hc : c ≠ '\t') (hd : d ≠ '\t') : Apart c d :=
  ⟨fun h => hd h.2, fun h => hc h.1⟩

/-- So may characters that do not break the text. -/
theorem apart_of_plain {c d : Char} (hc : isBreak c = false) (hd : isBreak d = false) :
    Apart c d := by
  constructor
  · rintro ⟨h, -⟩
    rw [hc] at h
    cases h
  · rintro ⟨-, h⟩
    rw [hd] at h
    cases h

/-- Two tidy texts make one if they may stand next to each other. -/
theorem Tidy.append {a d : List Char} (ha : Tidy a) (hd : Tidy d) (hane : a ≠ [])
    (hdne : d ≠ []) : Tidy (a ++ d) where
  noEol := fun c hc => (List.mem_append.1 hc).elim (ha.noEol c) (hd.noEol c)
  head := by
    rw [List.head?_append_of_ne_nil _ hane]
    exact ha.head
  last := by
    rw [List.getLast?_append_of_ne_nil _ hdne]
    exact hd.last
  apart := ha.apart.append hd.apart fun x hx y hy =>
    apart_of_ne_tab (fun h => ha.last (h ▸ hx)) (fun h => hd.head (h ▸ hy))

/-- A settled text may be followed by a tidy one. -/
theorem Settled.append {a d : List Char} (ha : Settled a) (hd : Tidy d) (hdne : d ≠ []) :
    Settled (a ++ d) where
  toTidy := by
    refine ha.toTidy.append hd (fun h => ?_) hdne
    obtain ⟨p, ps, hp, -⟩ := ha.lead
    rw [h] at hp
    simp [pieces] at hp
  lead := by
    obtain ⟨p, ps, hp, c, hc, hne⟩ := ha.lead
    obtain ⟨q, qs, hq⟩ := pieces_append_head d hp
    exact ⟨p ++ q, qs, hq, c, List.mem_append_left q hc, hne⟩

/-- A piece of a text without carriage returns, once trimmed. -/
theorem tidy_trimmed {p : List Char}
    (hp : (∃ c, p = [c] ∧ isBreak c = true) ∨ ∀ c ∈ p, isBreak c = false) (hr : '\r' ∉ p)
    (hne : trimChars "\t\n\r".toList p ≠ []) :
    Tidy (trimChars "\t\n\r".toList p) ∧
      pieces (trimChars "\t\n\r".toList p) = [trimChars "\t\n\r".toList p] := by
  have htab : '\t' ∈ "\t\n\r".toList := by decide
  have hhead : (trimChars "\t\n\r".toList p).head? ≠ some '\t' := fun h =>
    head_trimChars h htab
  have hlast : (trimChars "\t\n\r".toList p).getLast? ≠ some '\t' := fun h =>
    last_trimChars h htab
  -- a piece is one break, or has none in it
  rcases hp with ⟨c, rfl, -⟩ | hplain
  · have hc : c ∉ "\t\n\r".toList := by
      intro hmem
      refine hne ?_
      simp only [trimChars, List.dropWhile_cons, List.contains_iff_mem, hmem, if_true]
      rfl
    have heq : trimChars "\t\n\r".toList [c] = [c] :=
      trimChars_eq_self (by simpa using hc) (by simpa using hc)
    rw [heq] at hhead hlast ⊢
    refine ⟨⟨?_, hhead, hlast, List.isChain_singleton c⟩, rfl⟩
    intro d hd
    rw [List.mem_singleton.1 hd]
    exact ⟨fun h => hc (by rw [h]; decide), fun h => hc (by rw [h]; decide)⟩
  · have hmem : ∀ c ∈ trimChars "\t\n\r".toList p, isBreak c = false := fun c hc =>
      hplain c (mem_of_mem_trimChars hc)
    refine ⟨⟨?_, hhead, hlast, ?_⟩, pieces_of_plain hne hmem⟩
    · intro c hc
      refine ⟨fun h => ?_, fun h => hr (h ▸ mem_of_mem_trimChars hc)⟩
      have hbreak := hmem c hc
      rw [h] at hbreak
      exact absurd hbreak (by decide)
    · exact (List.pairwise_of_forall_mem_list fun c hc d hd =>
        apart_of_plain (hmem c hc) (hmem d hd)).isChain

/-- Character data makes settled text, or nothing. -/
def TextOk (v : Val) : Prop := v = .null ∨ ∃ t, v = .str t ∧ Settled t.toList

/-- Adding a piece keeps the text as it has to be. -/
theorem textOk_addText {p : List Char} {v : Val}
    (hp : (∃ c, p = [c] ∧ isBreak c = true) ∨ ∀ c ∈ p, isBreak c = false) (hr : '\r' ∉ p)
    (hv : TextOk v) : TextOk (addText (String.ofList p) v) := by
  have htrim : (trim (String.ofList p) "\t\n\r").toList = trimChars "\t\n\r".toList p := by
    rw [trim_toList, String.toList_ofList (l := p)]
  unfold addText
  split
  · next hne =>
    have hne' : trimChars "\t\n\r".toList p ≠ [] := by
      rw [← htrim]
      exact fun h => hne (String.toList_eq_nil_iff.1 h)
    obtain ⟨htidy, hpieces⟩ := tidy_trimmed hp hr hne'
    rw [← htrim] at htidy hpieces hne'
    rcases hv with rfl | ⟨t, rfl, ht⟩
    · unfold addData
      simp only
      split
      · next hb =>
        refine .inr ⟨_, rfl, htidy, _, _, hpieces, ?_⟩
        by_contra hall
        push Not at hall
        refine hb (trim_eq_empty fun c hc => ?_)
        rw [hall c hc]
        decide
      · exact .inl rfl
    · refine .inr ⟨_, rfl, ?_⟩
      rw [String.toList_append]
      exact ht.append htidy hne'
  · exact hv

/-- So it is after all pieces. -/
theorem textOk_readRun (s : String) :
    TextOk (readRun ((pieces (eol s.toList)).map String.ofList)) := by
  have hfold : ∀ (ps : List (List Char)) (v : Val),
      (∀ p ∈ ps, ((∃ c, p = [c] ∧ isBreak c = true) ∨ ∀ c ∈ p, isBreak c = false) ∧ '\r' ∉ p) →
      TextOk v → TextOk ((ps.map String.ofList).foldl (fun v d => addText d v) v) := by
    intro ps
    induction ps with
    | nil => exact fun v _ hv => hv
    | cons p ps ih =>
      intro v hps hv
      obtain ⟨hp, hr⟩ := hps p List.mem_cons_self
      exact ih _ (fun q hq => hps q (List.mem_cons_of_mem p hq)) (textOk_addText hp hr hv)
  refine hfold _ _ (fun p hp => ⟨pieces_uniform _ p hp, fun hr => ?_⟩) (.inl rfl)
  refine not_mem_eol s.toList ?_
  rw [← pieces_flatten (eol s.toList)]
  exact List.mem_flatten.2 ⟨p, hp, hr⟩

/-- The pieces of a text are read as its normal form. -/
theorem normText_spec (s : String) :
    finish (readRun ((pieces (eol s.toList)).map String.ofList)) = .str (normText s) := by
  unfold normText
  rcases textOk_readRun s with h | ⟨t, h, -⟩
  · rw [h]
    rfl
  · rw [h]
    rfl

/-- The same however it is delivered. -/
theorem readsAs_normText (s : String) : ReadsAs OnePiecePerRun s (normText s) := by
  intro ps hps
  rw [show ps = _ from hps]
  exact normText_spec s

/-- What a text reads as is empty or settled. -/
theorem settled_normText (s : String) : normText s = "" ∨ Settled (normText s).toList := by
  have hspec := normText_spec s
  rcases textOk_readRun s with h | ⟨t, h, ht⟩
  · rw [h] at hspec
    exact .inl (Val.str.inj hspec).symm
  · rw [h] at hspec
    obtain rfl : t = normText s := Val.str.inj hspec
    exact .inr ht

/-! ## Settled texts read as themselves -/

/-- In a text that does not end in a tab no piece does, and a piece after another does not
start with one. -/
theorem pieces_no_tabs {u : List Char} (hlast : u.getLast? ≠ some '\t')
    (hapart : u.IsChain Apart) :
    (∀ p ∈ pieces u, p.getLast? ≠ some '\t') ∧
      ∀ p ∈ (pieces u).tail, p.head? ≠ some '\t' := by
  -- on the text; a cut is where a break stands on one side
  induction u with
  | nil => exact ⟨fun p hp => absurd hp List.not_mem_nil, fun p hp => absurd hp List.not_mem_nil⟩
  | cons c u ih =>
    cases u with
    | nil =>
      refine ⟨fun p hp => ?_, fun p hp => absurd hp List.not_mem_nil⟩
      rw [List.mem_singleton.1 hp]
      exact hlast
    | cons d u =>
      have hcd : Apart c d := hapart.rel_head? rfl
      obtain ⟨hlasts, hheads⟩ := ih (by rwa [List.getLast?_cons_cons] at hlast) hapart.tail
      obtain ⟨r, ps, h, h'⟩ := pieces_cons_cons c d u
      rw [h] at hlasts hheads
      rw [h']
      split
      · -- a cut: one side of it is an entity, so the other is not a tab
        next hb =>
        have hc : c ≠ '\t' := by
          rintro rfl
          have hd : isBreak d = true := by simpa [isBreak] using hb
          exact hcd.2 ⟨rfl, hd⟩
        have hd : d ≠ '\t' := by
          rintro rfl
          have hc' : isBreak c = true := by simpa [isBreak] using hb
          exact hcd.1 ⟨hc', rfl⟩
        refine ⟨fun p hp => ?_, fun p hp => ?_⟩
        · rcases List.mem_cons.1 hp with rfl | hp
          · simpa using hc
          · exact hlasts p hp
        · rw [List.tail_cons] at hp
          rcases List.mem_cons.1 hp with rfl | hp
          · simpa using hd
          · exact hheads p hp
      · refine ⟨fun p hp => ?_, hheads⟩
        rcases List.mem_cons.1 hp with rfl | hp
        · rw [List.getLast?_cons_cons]
          exact hlasts (d :: r) List.mem_cons_self
        · exact hlasts p (List.mem_cons_of_mem _ hp)

/-- Nothing is trimmed off the pieces of a tidy text. -/
theorem Tidy.pieces_trimmed {u : List Char} (h : Tidy u) :
    ∀ p ∈ pieces u, trim (String.ofList p) "\t\n\r" = String.ofList p := by
  obtain ⟨hlasts, hheads⟩ := pieces_no_tabs h.last h.apart
  have hplain : ∀ p ∈ pieces u, ∀ c ∈ p, c ≠ '\t' → c ∉ "\t\n\r".toList := by
    intro p hp c hc htab hmem
    have hcu : c ∈ u := by
      rw [← pieces_flatten u]
      exact List.mem_flatten.2 ⟨p, hp, hc⟩
    obtain ⟨hn, hr⟩ := h.noEol c hcu
    have hthree : ∀ c ∈ "\t\n\r".toList, c = '\t' ∨ c = '\n' ∨ c = '\r' := by decide
    rcases hthree c hmem with h | h | h
    · exact htab h
    · exact hn h
    · exact hr h
  -- the first piece starts as the text does, and the others not with a tab
  have hhead : ∀ p ∈ pieces u, p.head? ≠ some '\t' := by
    intro p hp
    cases u with
    | nil => exact absurd hp List.not_mem_nil
    | cons c r =>
      obtain ⟨q, ps, hq⟩ := pieces_head c r
      rw [hq] at hp hheads
      rcases List.mem_cons.1 hp with rfl | hp
      · exact h.head
      · exact hheads p hp
  intro p hp
  refine trim_eq_self ?_ ?_
  · rw [String.toList_ofList (l := p)]
    exact fun c hc => hplain p hp c (List.mem_of_mem_head? hc) fun ht => hhead p hp (ht ▸ hc)
  · rw [String.toList_ofList (l := p)]
    exact fun c hc => hplain p hp c (List.mem_of_mem_getLast? hc) fun ht => hlasts p hp (ht ▸ hc)

/-- A settled text reads as itself. -/
theorem normText_settled {s : String} (h : Settled s.toList) : normText s = s := by
  have heol : eol s.toList = s.toList := eol_eq_self fun hr => (h.noEol _ hr).2 rfl
  have hspec := normText_spec s
  rw [heol] at hspec
  obtain ⟨p, ps, hp, c, hc, hne⟩ := h.lead
  have htrim : ∀ d ∈ (pieces s.toList).map String.ofList, trim d "\t\n\r" = d := by
    intro d hd
    obtain ⟨q, hq, rfl⟩ := List.mem_map.1 hd
    exact h.toTidy.pieces_trimmed q hq
  have hlead : trim (String.ofList p) " " ≠ "" := by
    intro ht
    have hnil : trimChars " ".toList p = [] := by
      have := congrArg String.toList ht
      rwa [trim_toList, String.toList_ofList (l := p)] at this
    rw [trimChars_eq_rdropWhile, List.rdropWhile_eq_nil_iff] at hnil
    have hdrop : p.dropWhile (" ".toList.contains ·) = [] := by
      cases hl : p.dropWhile (" ".toList.contains ·) with
      | nil => rfl
      | cons x xs =>
        have hx := hnil x (by rw [hl]; exact List.mem_cons_self)
        have hnot := List.head?_dropWhile_not (" ".toList.contains ·) p
        rw [hl] at hnot
        simp only [List.head?_cons] at hnot
        rw [hx] at hnot
        cases hnot
    rw [List.dropWhile_eq_nil_iff] at hdrop
    have hspace := hdrop c hc
    simp only [List.contains_iff_mem] at hspace
    exact hne (by simpa using hspace)
  have hid : (String.toList ∘ String.ofList) = id := by
    funext l
    exact String.toList_ofList
  have hflat : (((pieces s.toList).map String.ofList).map String.toList).flatten = s.toList := by
    rw [List.map_map, hid, List.map_id, pieces_flatten]
  rw [hp, List.map_cons] at hspec htrim hflat
  rw [readRun_eq htrim hlead, hflat, String.ofList_toList] at hspec
  exact (Val.str.inj hspec).symm

/-- A text without tabs, blanks and the characters that are cut at is read back as it is. -/
theorem normText_of_plain {s : String}
    (h : ∀ c ∈ s.toList, isBreak c = false ∧ c ≠ '\t' ∧ c ≠ '\r' ∧ c ≠ ' ') : normText s = s := by
  cases hs : s.toList with
  | nil =>
    have hempty : s = "" := String.toList_eq_nil_iff.1 hs
    rw [hempty]
    decide
  | cons c r =>
    have hplain : ∀ c ∈ s.toList, isBreak c = false := fun c hc => (h c hc).1
    apply normText_settled
    refine ⟨⟨?_, ?_, ?_, ?_⟩, ?_⟩
    · intro d hd
      refine ⟨?_, (h d hd).2.2.1⟩
      rintro rfl
      exact Bool.noConfusion (hplain _ hd)
    · exact fun hhead => (h _ (List.mem_of_head? hhead)).2.1 rfl
    · exact fun hlast => (h _ (List.mem_of_getLast? hlast)).2.1 rfl
    · exact (List.pairwise_of_forall_mem_list fun a ha b hb =>
        apart_of_plain (hplain a ha) (hplain b hb)).isChain
    · have hmem : c ∈ s.toList := hs ▸ List.mem_cons_self
      exact ⟨_, _, pieces_of_plain (List.ne_nil_of_mem hmem) hplain, c, hmem, (h c hmem).2.2.2⟩


theorem normText_empty : normText "" = "" := by decide

/-- One reading of a text is enough. -/
theorem normText_normText (s : String) : normText (normText s) = normText s := by
  rcases settled_normText s with h | h
  · rw [h, normText_empty]
  · exact normText_settled h

/-! ## Characters -/

/-- Adding a piece makes up no characters. -/
theorem mem_addText {d t : String} {v : Val} (h : addText d v = .str t) {c : Char}
    (hc : c ∈ t.toList) : c ∈ d.toList ∨ ∃ s, v = .str s ∧ c ∈ s.toList := by
  have hsub : c ∈ (trim d "\t\n\r").toList → c ∈ d.toList := by
    rw [trim_toList]
    exact mem_of_mem_trimChars
  unfold addText at h
  split at h
  · unfold addData at h
    split at h
    · next s =>
      obtain rfl := Val.str.inj h
      rw [String.toList_append, List.mem_append] at hc
      exact hc.elim (fun hc => .inr ⟨s, rfl, hc⟩) fun hc => .inl (hsub hc)
    · split at h
      · obtain rfl := Val.str.inj h
        exact .inl (hsub hc)
      · exact .inr ⟨t, h, hc⟩
  · exact .inr ⟨t, h, hc⟩

/-- Reading a text adds no characters but line feeds. -/
theorem mem_normText {s : String} {c : Char} (hc : c ∈ (normText s).toList) :
    c ∈ s.toList ∨ c = '\n' := by
  have hfold : ∀ (ps : List String) (v : Val) (t : String),
      ps.foldl (fun v d => addText d v) v = .str t → c ∈ t.toList →
      (∃ d ∈ ps, c ∈ d.toList) ∨ ∃ s, v = .str s ∧ c ∈ s.toList := by
    intro ps
    induction ps with
    | nil => exact fun v t h hc => .inr ⟨t, h, hc⟩
    | cons p ps ih =>
      intro v t h hc
      rcases ih _ t h hc with ⟨d, hd, hcd⟩ | ⟨s, hs, hcs⟩
      · exact .inl ⟨d, List.mem_cons_of_mem p hd, hcd⟩
      · exact (mem_addText hs hcs).imp_left fun hcp => ⟨p, List.mem_cons_self, hcp⟩
  have hspec := normText_spec s
  rcases textOk_readRun s with hnull | ⟨t, ht, -⟩
  · rw [hnull] at hspec
    rw [← Val.str.inj hspec] at hc
    exact absurd hc List.not_mem_nil
  · have ht' : t = normText s := by
      rw [ht] at hspec
      exact Val.str.inj hspec
    subst ht'
    rcases hfold _ _ _ ht hc with ⟨d, hd, hcd⟩ | ⟨s', hs', -⟩
    · obtain ⟨q, hq, rfl⟩ := List.mem_map.1 hd
      rw [String.toList_ofList] at hcd
      refine mem_eol ?_
      rw [← pieces_flatten (eol s.toList)]
      exact List.mem_flatten.2 ⟨q, hq, hcd⟩
    · cases hs'

/-- The normal form of a legal text is legal. -/
theorem legal_normText {s : String} (h : ∀ c ∈ s.toList, isLegalChar c = true) :
    ∀ c ∈ (normText s).toList, isLegalChar c = true := by
  intro c hc
  rcases mem_normText hc with hc | rfl
  · exact h c hc
  · decide

/-! ## One write normalises -/

/-- Strings that a write does not change. -/
def NormalText (s : String) : Prop :=
  normText s = s ∧ ∀ c ∈ s.toList, isLegalChar c = true

/-- A tree with XML names and allowed characters, written and read back. -/
theorem normalise_run (X : RunExpat) {t : Val}
    (ht : EverySub (isName · = true) (fun s => ∀ c ∈ s.toList, isLegalChar c = true) t.entries) :
    normalise X.toExpat t = rereadSub normText t.entries .null >>= rootValue := by
  have hevery := (every_markup (by simp) legal_newline legal_tabs t).2 ht
  obtain ⟨d, hdoc, hname, -⟩ := doc_arrayToXml X.toExpat ht
  have hd := X.runs xmlRootobj (markup t) d (by decide)
    (hevery.mono (fun _ h => h) fun _ _ => trivial)
    (hevery.mono (fun _ _ => trivial) fun s hs c hc => ascii_of_legal (hs c hc))
    (hevery.mono (fun _ _ => trivial) fun _ h => h) hdoc
  have hreads := hevery.mono (fun _ h => h) fun s _ => readsAs_normText s
  exact normalise_eq skipsBlanks_onePiecePerRun normText_empty
    ((every_markup (readsAs_normText _) (readsAs_normText _) (fun _ => readsAs_normText _) t).1
      hreads) hdoc hname hd

/-- What a write leaves is a nonempty canonical map. -/
theorem canonical_of_normalise (X : RunExpat) {t t' : Val}
    (ht : EverySub (isName · = true) (fun s => ∀ c ∈ s.toList, isLegalChar c = true) t.entries)
    (h : normalise X.toExpat t = .ok t') : ∃ es, t' = .arr es ∧ Canonical NormalText (.arr es) := by
  have hnormal := (every_markup (T := fun s => NormalText (normText s))
    ⟨normText_normText _, legal_normText (by simp)⟩
    ⟨normText_normText _, legal_normText legal_newline⟩
    (fun n => ⟨normText_normText _, legal_normText (legal_tabs n)⟩) t).1
    (((every_markup (by simp) legal_newline legal_tabs t).2 ht).mono (fun _ h => h)
      fun s hs => ⟨normText_normText s, legal_normText hs⟩)
  rw [normalise_run X ht] at h
  cases hc : rereadSub normText t.entries .null with
  | error e => rw [hc] at h; cases h
  | ok c =>
    rw [hc] at h
    rcases canonical_rereadSub (P := NormalText) ⟨normText_empty, by simp⟩ hnormal hc with
      rfl | ⟨es, rfl, hcan⟩
    · cases h
    · cases hcan with
      | map hne hnodup hes =>
        rw [show (Except.ok (Val.arr es) >>= rootValue) = rootValue (.arr es) from rfl,
          rootValue_map hne] at h
        exact ⟨es, (Except.ok.inj h).symm, .map hne hnodup hes⟩

/-- A tree whose written names are XML names, once written and read back, is not changed by
writing it again. -/
theorem normalise_idempotent (X : RunExpat) {t t' : Val} (hnamed : (markup t).Named)
    (hascii : (markup t).Ascii) (h : normalise X.toExpat t = .ok t') :
    normalise X.toExpat t' = .ok t' := by
  by_cases hlegal : (markup t).Legal
  · -- what is read back is canonical, and a canonical tree is read back as it is
    have ht := (every_markup (by simp) legal_newline legal_tabs t).1 (hnamed.and_texts hlegal)
    obtain ⟨es, rfl, hcan⟩ := canonical_of_normalise X ht h
    rw [normalise_run X (t := .arr es) (hcan.everySub fun s hs => hs.2), Val.entries,
      rereadSub_canonical (fun s hs => hs.1) hcan]
    cases hcan with
    | map hne _ _ => exact rootValue_map hne
  · -- a forbidden character ends the first reading
    have hdie : normalise X.toExpat t = .error .notWellFormed := by
      rw [normalise, arrayToXml_eq]
      exact xmlToArray_of_not_doc (document_getLast _ _) (document_ne_nil _ _) fun r =>
        X.rejects xmlRootobj (markup t) r (by decide) hnamed hascii hlegal
    rw [hdie] at h
    cases h

/-- A tree with mixed-case keys, blanks and values that are not strings. -/
def untidy : Val :=
  .arr [(.str "System", .arr [(.str "hostName", .str " \tpbx\t\n one "), (.str "ssh", .bool true),
      (.str "telnet", .bool false), (.str "port", .int 22), (.str "note", .null)]),
    (.str "Phone", .arr [(.int 7, .str "a"), (.int 3, .bool false)]), (.str "phone", .arr [])]

/-- What is left of it. -/
def tidied : Val :=
  .arr [(.str "system", .arr [(.str "hostname", .str " \tpbx one "), (.str "ssh", .str ""),
      (.str "port", .str "22"), (.str "note", .str "")]),
    (.str "phone", .ofList [.str "a"])]

theorem normalise_untidy : normalise scanner.toExpat untidy = .ok tidied := by
  have hevery : (markup untidy).Every (isName · = true)
      fun s => ∀ c ∈ s.toList, isLegalChar c = true := by
    decide
  rw [normalise_run scanner ((every_markup (by simp) legal_newline legal_tabs untidy).1 hevery)]
  decide +kernel

theorem normalise_idempotent_untidy :
    (markup untidy).Named ∧ (markup untidy).Ascii ∧
      normalise scanner.toExpat untidy = .ok tidied ∧
      normalise scanner.toExpat tidied = .ok tidied :=
  ⟨by decide, by decide, normalise_untidy,
    normalise_idempotent scanner (by decide) (by decide) normalise_untidy⟩

/-- A key is printed as it is, so one that is not a name can close its own element and leave
the rest as text of the root: what is read back is a string, and a string is written as an
empty document. -/
theorem not_normalise_idempotent_of_key :
    ¬ ∀ (X : RunExpat) (t t' : Val), (markup t).Ascii → normalise X.toExpat t = .ok t' →
      normalise X.toExpat t' = .ok t' := by
  intro h
  -- the key ends the tag, and the rest of it is text
  have hdoc : scanner.doc (document xmlRootobj (markup (.arr [(.str "x/>hello", .str "")]))) =
      some ⟨"ASKOZIAPBX", .text "\n" (.text "\t" (.elem "X" .nil
        (.text "hello/" (.text ">" (.text "\n" .nil)))))⟩ := by
    rw [scanner_doc]
    decide
  have hfirst : normalise scanner.toExpat (.arr [(.str "x/>hello", .str "")]) =
      .ok (.str "hello/>") := by
    rw [normalise, arrayToXml_eq,
      xmlToArray_of_doc (document_getLast _ _) (document_ne_nil _ _) hdoc]
    decide
  have hdoc' : scanner.doc (document xmlRootobj (markup (.str "hello/>"))) =
      some ⟨"ASKOZIAPBX", .text "\n" .nil⟩ := by
    rw [scanner_doc]
    decide
  have hsecond : normalise scanner.toExpat (.str "hello/>") =
      .error (.noObjectFound xmlRootobj) := by
    rw [normalise, arrayToXml_eq,
      xmlToArray_of_doc (document_getLast _ _) (document_ne_nil _ _) hdoc']
    decide
  have hsame := h scanner _ _ (by decide) hfirst
  rw [hsecond] at hsame
  cases hsame

end XmlParse
end Askozia
