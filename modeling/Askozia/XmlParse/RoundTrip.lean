import Askozia.XmlParse.Canonical
import Askozia.Xml.Scanner

/-!
# The codec round trip

A canonical tree with printable strings is read back from what `array_to_xml` writes for it
exactly as it was, however the parser cuts character data into pieces:
`xmlToArray_arrayToXml`.
-/

namespace Askozia
namespace XmlParse

open Php Xml

/-- Printable ASCII that is empty or starts with a non-space. -/
def Printable (s : String) : Prop :=
  (∀ c ∈ s.toList, 32 ≤ c.toNat ∧ c.toNat < 127) ∧ s.toList.head? ≠ some ' '

/-! ## Pieces of printable text -/

theorem skipsBlanks_chunked : SkipsBlanks Chunked := by
  intro run ps hrun hps d hd
  refine trim_eq_empty fun c hc => ?_
  have hmem : c ∈ eol run := by
    rw [← hps.1]
    exact List.mem_flatten.2 ⟨d.toList, List.mem_map_of_mem hd, hc⟩
  rcases mem_eol hmem with h | rfl
  · rcases hrun c h with rfl | rfl <;> decide
  · decide

/-- A piece without tabs and line ends is added to the text before it. -/
theorem addText_str {d : String} (h : trim d "\t\n\r" = d) (s : String) :
    addText d (.str s) = .str (s ++ d) := by
  rw [addText, h]
  split
  · rfl
  · next hd => rw [not_not.1 hd, String.append_empty]

theorem foldl_addText_str {ps : List String} (h : ∀ d ∈ ps, trim d "\t\n\r" = d) (s : String) :
    ps.foldl (fun v d => addText d v) (.str s) =
      .str (s ++ String.ofList (ps.map String.toList).flatten) := by
  induction ps generalizing s with
  | nil => simp
  | cons p ps ih =>
    rw [List.foldl_cons, addText_str (h p List.mem_cons_self),
      ih fun d hd => h d (List.mem_cons_of_mem p hd)]
    rw [String.append_assoc, List.map_cons, List.flatten_cons, String.ofList_append,
      String.ofList_toList]

/-- Pieces without tabs and line ends, the first of which is not blank, are put together. -/
theorem readRun_eq {p : String} {ps : List String} (h : ∀ d ∈ p :: ps, trim d "\t\n\r" = d)
    (hp : trim p " " ≠ "") :
    readRun (p :: ps) = .str (String.ofList ((p :: ps).map String.toList).flatten) := by
  have hne : p ≠ "" := by
    rintro rfl
    exact hp rfl
  have hfirst : addText p .null = .str p := by
    rw [addText, h p List.mem_cons_self, if_pos hne, addData, if_pos hp]
    simp
  rw [readRun, List.foldl_cons, hfirst,
    foldl_addText_str fun d hd => h d (List.mem_cons_of_mem p hd)]
  rw [List.map_cons, List.flatten_cons, String.ofList_append, String.ofList_toList]

/-- Printable text reads as itself, however it is cut. -/
theorem readsAs_printable {s : String} (hs : Printable s) : ReadsAs Chunked s s := by
  obtain ⟨hchars, hhead⟩ := hs
  intro ps hps
  have heol : eol s.toList = s.toList := by
    refine eol_eq_self fun h => ?_
    have hr := (hchars _ h).1
    revert hr
    decide
  obtain ⟨hflat, hne⟩ := hps
  rw [heol] at hflat
  cases ps with
  | nil =>
    have hempty : s = "" := by
      rw [← String.toList_eq_nil_iff, ← hflat]
      rfl
    rw [hempty]
    rfl
  | cons p ps =>
    -- no printable character is one of those that trimming takes
    have hplain : ∀ d ∈ p :: ps, ∀ c ∈ d.toList, c ∉ "\t\n\r".toList := by
      intro d hd c hc hmem
      have hcs : c ∈ s.toList := by
        rw [← hflat]
        exact List.mem_flatten.2 ⟨d.toList, List.mem_map_of_mem hd, hc⟩
      have hge := (hchars c hcs).1
      have hall : ∀ c ∈ "\t\n\r".toList, c.toNat < 32 := by decide
      have hlt := hall c hmem
      omega
    have htrim : ∀ d ∈ p :: ps, trim d "\t\n\r" = d := fun d hd =>
      trim_eq_self (fun c hc => hplain d hd c (List.mem_of_mem_head? hc))
        (fun c hc => hplain d hd c (List.mem_of_mem_getLast? hc))
    have hp : trim p " " ≠ "" := by
      cases hpl : p.toList with
      | nil => exact absurd hpl (hne p List.mem_cons_self)
      | cons c r =>
        refine trim_ne_empty hpl fun hc => hhead ?_
        rw [← hflat, List.map_cons, List.flatten_cons, hpl]
        simpa using hc
    rw [readRun_eq htrim hp, hflat, String.ofList_toList]
    rfl

/-! ## The round trip -/

theorem legal_newline : ∀ c ∈ "\n".toList, isLegalChar c = true := by decide

theorem legal_tabs (n : ℕ) : ∀ c ∈ (tabs n).toList, isLegalChar c = true := by
  intro c hc
  rw [tabs_toList, List.mem_replicate] at hc
  rw [hc.2]
  decide

theorem ascii_of_legal {c : Char} (h : isLegalChar c = true) : c.toNat < 128 := by
  simp only [isLegalChar, Bool.or_eq_true, beq_iff_eq, Bool.and_eq_true, decide_eq_true_eq] at h
  rcases h with ((rfl | rfl) | rfl) | h
  · decide
  · decide
  · decide
  · exact h.2

theorem legal_of_printable {s : String} (h : Printable s) :
    ∀ c ∈ s.toList, isLegalChar c = true := by
  intro c hc
  have hrange := h.1 c hc
  simp only [isLegalChar, Bool.or_eq_true, Bool.and_eq_true, decide_eq_true_eq]
  exact .inr ⟨hrange.1, by omega⟩

/-- `reads` for a tree, from what is known of its names and texts. -/
theorem doc_arrayToXml (X : Expat) {t : Val}
    (ht : EverySub (isName · = true) (fun s => ∀ c ∈ s.toList, isLegalChar c = true) t.entries) :
    ∃ d, X.doc (document xmlRootobj (markup t)) = some d ∧ d.name = strtoupper xmlRootobj ∧
      Delivery Chunked [] (markup t) d.kids := by
  have hevery := (every_markup (by simp) legal_newline legal_tabs t).2 ht
  refine X.reads xmlRootobj (markup t) (by decide) ?_ ?_ ?_
  · exact hevery.mono (fun _ h => h) fun _ _ => trivial
  · exact hevery.mono (fun _ _ => trivial) fun s hs c hc => ascii_of_legal (hs c hc)
  · exact hevery.mono (fun _ _ => trivial) fun _ h => h

theorem xmlRootobj_folded : strtolower (strtoupper xmlRootobj) = xmlRootobj := by decide

theorem rootValue_map {es : List (Key × Val)} (h : es ≠ []) : rootValue (.arr es) = .ok (.arr es) := by
  cases es with
  | nil => exact absurd rfl h
  | cons e r => rfl

/-- The entries of a loose tree, written and read back. -/
theorem rereadSub_compactSub {es : List (Key × Val)} (ht : Loose Printable (.arr es))
    (hne : compactSub es ≠ []) : rereadSub id es .null = .ok (.arr (compactSub es)) := by
  have hsub : rereadSub id es .null = .ok (addEntries .null (compactSub es)) :=
    rereadSub_loose (fun _ _ => rfl) ht
  rw [hsub, addEntries_ne_nil hne]
  rfl

/-- A loose tree is read back compact, by every parser. -/
theorem normalise_loose (X : Expat) {es : List (Key × Val)} (ht : Loose Printable (.arr es))
    (hne : compactSub es ≠ []) : normalise X (.arr es) = .ok (.arr (compactSub es)) := by
  have hreads : EverySub (isName · = true) (fun s => ReadsAs Chunked s s) es :=
    ht.everySub fun _ hs => readsAs_printable hs
  obtain ⟨d, hdoc, hname, hd⟩ := doc_arrayToXml X
    (t := .arr es) (ht.everySub fun _ hs => legal_of_printable hs)
  have hnorm := normalise_eq (g := id) skipsBlanks_chunked rfl hreads hdoc hname hd
  rw [Val.entries, rereadSub_compactSub ht hne] at hnorm
  exact hnorm.trans (rootValue_map hne)

/-- What a loose tree is read back as is canonical. -/
theorem canonical_compactSub {es : List (Key × Val)} (ht : Loose Printable (.arr es))
    (hne : compactSub es ≠ []) : Canonical Printable (.arr (compactSub es)) := by
  have hempty : Printable "" := by
    unfold Printable
    decide
  rcases canonical_rereadSub hempty (ht.everySub fun _ hs => hs)
    (rereadSub_compactSub ht hne) with h | ⟨es', -, h⟩
  · cases h
  · exact h

/-- A canonical tree is read back as it was written, by every parser. -/
theorem normalise_printable (X : Expat) {es : List (Key × Val)}
    (ht : Canonical Printable (.arr es)) : normalise X (.arr es) = .ok (.arr es) := by
  have hsub : compactSub es = es := ht.compactSub
  have hne : es ≠ [] := by
    cases ht with
    | map hne _ _ => exact hne
  have hnorm := normalise_loose X ht.loose (hsub.symm ▸ hne)
  rwa [hsub] at hnorm

/-- A canonical tree is read back as it was written, and no handler ends the script: over
every way of cutting the character data, and for every parser. -/
theorem canonical_round_trip {t : Val} (ht : Canonical Printable t) (hmap : t.isArray = true) :
    (∀ c, Delivery Chunked [] (markup t) c →
      Parser.xmlArray <$> handleAll (Doc.events ⟨strtoupper xmlRootobj, c⟩) Parser.init =
        .ok (.arr [(.str xmlRootobj, t)])) ∧
    ∀ X : Expat, xmlToArray X (arrayToXml t xmlRootobj) xmlRootobj = .ok t := by
  cases t with
  | arr es =>
    refine ⟨fun c hc => ?_, fun X => normalise_printable X ht⟩
    have hreads : EverySub (isName · = true) (fun s => ReadsAs Chunked s s) es :=
      ht.everySub fun _ hs => readsAs_printable hs
    -- with every text read as it is, reading gives the tree back
    have hfix : rereadSub id es .null = .ok (.arr es) := rereadSub_canonical (fun _ _ => rfl) ht
    rw [handleAll_doc, readDoc, readElem_eq, addChild_root xmlRootobj_folded,
      read_markup skipsBlanks_chunked (g := id) rfl hreads hc, Val.entries, hfix]
    rfl
  | _ => simp [Val.isArray] at hmap

/-- Two phones and an empty field. -/
def twoPhones : Val :=
  .arr [(.str "sip", .arr [(.str "phone", .ofList
      [.arr [(.str "extension", .str "100"), (.str "callerid", .str "A & B <100>")], .str ""])]),
    (.str "language", .str "")]

theorem canonical_twoPhones : Canonical Printable twoPhones := by
  have hprintable : ∀ s ∈ ["100", "A & B <100>", ""], Printable s := by
    unfold Printable
    decide
  have hname : ∀ n ∈ ["extension", "callerid", "phone", "sip", "language"], LowerName n := by
    unfold LowerName
    decide
  have hphone : Canonical Printable
      (.arr [(.str "extension", .str "100"), (.str "callerid", .str "A & B <100>")]) := by
    refine .map (by simp) (by decide) fun e he => ?_
    simp only [List.mem_cons, List.not_mem_nil, or_false] at he
    rcases he with rfl | rfl
    · exact .single (hname _ (by simp)) (by decide) (.str (hprintable _ (by simp)))
    · exact .single (hname _ (by simp)) (by decide) (.str (hprintable _ (by simp)))
  have hempty : Canonical Printable (.str "") := .str (hprintable _ (by simp))
  have hsip : Canonical Printable (.arr [(.str "phone", .ofList
      [.arr [(.str "extension", .str "100"), (.str "callerid", .str "A & B <100>")], .str ""])]) := by
    refine .map (by simp) (by decide) fun e he => ?_
    obtain rfl := List.mem_singleton.1 he
    refine .list (hname _ (by simp)) (by decide) (by simp) fun x hx => ?_
    simp only [List.mem_cons, List.not_mem_nil, or_false] at hx
    rcases hx with rfl | rfl
    · exact hphone
    · exact hempty
  refine .map (by simp) (by decide) fun e he => ?_
  simp only [List.mem_cons, List.not_mem_nil, or_false] at he
  rcases he with rfl | rfl
  · exact .single (hname _ (by simp)) (by decide) hsip
  · exact .single (hname _ (by simp)) (by decide) hempty

theorem canonical_round_trip_twoPhones :
    twoPhones.isArray = true ∧
      xmlToArray scanner.toExpat (arrayToXml twoPhones xmlRootobj) xmlRootobj = .ok twoPhones :=
  ⟨rfl, (canonical_round_trip canonical_twoPhones rfl).2 scanner.toExpat⟩

end XmlParse
end Askozia
