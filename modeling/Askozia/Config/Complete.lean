import Askozia.Config.Store

/-!
# Files that end too early

`xml_to_array` and `config_validate` share a loop that hands the parser one block at a time,
with `feof` as the final flag. The parser only objects to a document that has not ended when
it is given that flag, and the loop is left on the value of the block: a file that fills its
last block is never flagged, nor is one whose last block is a lone `0`.
-/

namespace Askozia
namespace Config

open Php Xml XmlParse

/-- A file that loads is a whole document. -/
def LoadsComplete (X : Expat) (file : String) : Prop :=
  ∀ rootobj v, xmlToArray X file rootobj = .ok v → (X.doc file).isSome

/-- A file that `config_validate` lets through is a whole document. -/
def ValidatesComplete (X : Expat) (file : String) : Prop :=
  ∀ opened, configValidate X opened file = true → (X.doc file).isSome

/-- The file is no document, but the parser is not told where it ends and what it is given
may still become one. -/
def LeftOpen (X : Expat) (file : String) : Prop :=
  X.doc file = none ∧ Unflagged file.toList ∧
    ∃ rest, (X.doc (String.ofList (given file.toList) ++ rest)).isSome

theorem parses_of_load {X : Expat} {file rootobj : String} {v : Val}
    (h : xmlToArray X file rootobj = .ok v) : parses X file = true := by
  by_contra hp
  rw [xmlToArray, if_neg hp] at h
  cases h

/-- Every parser has a document to read. -/
theorem exists_doc (X : Expat) : ∃ s, (X.doc s).isSome := by
  have hnamed : (Markup.nil).Named := trivial
  obtain ⟨d, hd, -⟩ := X.reads "a" .nil (by decide) hnamed trivial trivial
  exact ⟨_, by rw [hd]; rfl⟩

/-- A file that is read to its end without the flag only has to begin a document. -/
theorem parses_unflagged {X : Expat} {file : String} (h : Unflagged file.toList) :
    parses X file = true ↔ ∃ rest, (X.doc (String.ofList (given file.toList) ++ rest)).isSome := by
  have hfinal : fedFinal file = false := by simp [fedFinal_eq, h]
  rw [parses, hfinal, if_neg Bool.false_ne_true, Bool.or_eq_true, X.accepts_iff,
    ← fed_eq_given]
  constructor
  · rintro (hb | hacc)
    · -- no block at all: the parser has been given nothing
      have hfed : fed file = "" := by
        rw [fed, List.isEmpty_iff.1 hb]
        rfl
      obtain ⟨s, hs⟩ := exists_doc X
      exact ⟨s, by rwa [hfed, String.empty_append]⟩
    · exact hacc
  · exact Or.inr

/-- A file that is flagged has to be a document. -/
theorem parses_flagged {X : Expat} {file : String} (h : ¬ Unflagged file.toList) :
    parses X file = true ↔ (X.doc file).isSome := by
  have hfinal : fedFinal file = true := by simp [fedFinal_eq, h]
  have hgiven : given file.toList = file.toList := if_neg fun hc => h (.inr hc)
  rw [parses, hfinal, if_pos rfl, fed_eq_given, hgiven, String.ofList_toList]

/-- The loop lets a file through that is no document exactly when it is left open. -/
theorem leftOpen_iff {X : Expat} {file : String} :
    LeftOpen X file ↔ parses X file = true ∧ X.doc file = none := by
  by_cases hu : Unflagged file.toList
  · rw [parses_unflagged hu, LeftOpen]
    exact ⟨fun h => ⟨h.2.2, h.1⟩, fun h => ⟨h.2, hu, h.1⟩⟩
  · rw [parses_flagged hu]
    constructor
    · exact fun h => absurd h.2.1 hu
    · rintro ⟨hsome, hnone⟩
      rw [hnone] at hsome
      cases hsome

/-- Both functions reject what is no document exactly when the file is not left open. -/
theorem reads_complete_iff (X : Expat) (file : String) :
    LoadsComplete X file ∧ ValidatesComplete X file ↔ ¬ LeftOpen X file := by
  rw [leftOpen_iff]
  constructor
  · -- a file whose end the parser was never told of is valid and has no document
    rintro ⟨-, hvalid⟩ ⟨hparses, hnone⟩
    have hsome := hvalid true hparses
    rw [hnone] at hsome
    cases hsome
  · intro h
    have hdoc : parses X file = true → (X.doc file).isSome := by
      intro hparses
      by_contra hnone
      exact h ⟨hparses, by simpa using hnone⟩
    constructor
    · intro rootobj v hv
      exact hdoc (parses_of_load hv)
    · intro opened hv
      rw [configValidate, Bool.and_eq_true] at hv
      exact hdoc hv.2

/-- `xml_to_array` alone goes wrong on those of them that it can load. -/
theorem load_complete_iff (X : Expat) (file : String) :
    ((∃ v, xmlToArray X file xmlRootobj = .ok v) → (X.doc file).isSome) ↔
      ¬ (LeftOpen X file ∧ ∃ d, Reported X file d ∧ Loadable d) := by
  rw [leftOpen_iff, xmlToArray_ok_iff]
  constructor
  · rintro h ⟨⟨hparses, hnone⟩, hd⟩
    have hsome := h ⟨hparses, hd⟩
    rw [hnone] at hsome
    cases hsome
  · rintro h ⟨hparses, hd⟩
    by_contra hnone
    exact h ⟨⟨hparses, by simpa using hnone⟩, hd⟩

/-! ## Two files that are left open -/

/-- What a file may be filled up with. -/
def lineFeeds (k : ℕ) : List Char := List.replicate k '\n'

/-- Line feeds are character data. -/
theorem scan_lineFeeds (k : ℕ) (st : Scanner.State) (hst : st.lex = .content) :
    Scanner.scan st (lineFeeds k) = some { st with run := st.run ++ lineFeeds k } := by
  have hlegal : ∀ c ∈ lineFeeds k, isLegalChar c = true := by
    intro c hc
    rw [List.eq_of_mem_replicate hc]
    decide
  have hplain : (lineFeeds k).flatMap htmlspecialchar = lineFeeds k := by
    rw [lineFeeds, List.flatMap_replicate]
    show (List.replicate k ['\n']).flatten = _
    rw [List.flatten_replicate_singleton]
  have hscan := Scanner.scan_text hlegal st hst
  rwa [hplain] at hscan

/-- The root is open and filled with line feeds. -/
def openRoot (k : ℕ) : List Char := "<askoziapbx>".toList ++ lineFeeds k

theorem scan_openRoot (k : ℕ) (r : List Char) :
    Scanner.scan Scanner.State.init (Scanner.body (openRoot k ++ r)) =
      Scanner.scan ⟨[("askoziapbx", .nil)], .nil, lineFeeds k, .content⟩ r := by
  have hbody : Scanner.body (openRoot k ++ r) = openRoot k ++ r := rfl
  have hopen : Scanner.scan Scanner.State.init "<askoziapbx>".toList =
      some ⟨[("askoziapbx", .nil)], .nil, [], .content⟩ := by decide
  rw [hbody]
  unfold openRoot
  rw [Scanner.scan_append, Scanner.scan_append, hopen, Option.bind_some,
    scan_lineFeeds _ _ rfl, Option.bind_some, List.nil_append]

/-- A whole document, with line feeds after it. -/
def closedRoot (k : ℕ) : List Char := "<askoziapbx>1</askoziapbx>".toList ++ lineFeeds k

theorem scan_closedRoot (k : ℕ) (r : List Char) :
    Scanner.scan Scanner.State.init (Scanner.body (closedRoot k ++ r)) =
      Scanner.scan ⟨[], .elem "ASKOZIAPBX" (.text "1" .nil) .nil, lineFeeds k, .content⟩ r := by
  have hbody : Scanner.body (closedRoot k ++ r) = closedRoot k ++ r := rfl
  have hclosed : Scanner.scan Scanner.State.init "<askoziapbx>1</askoziapbx>".toList =
      some ⟨[], .elem "ASKOZIAPBX" (.text "1" .nil) .nil, [], .content⟩ := by decide
  rw [hbody]
  unfold closedRoot
  rw [Scanner.scan_append, Scanner.scan_append, hclosed, Option.bind_some,
    scan_lineFeeds _ _ rfl, Option.bind_some, List.nil_append]

theorem doc_openRoot (k : ℕ) : scanner.doc (String.ofList (openRoot k)) = none := by
  have hscan := scan_openRoot k []
  rw [List.append_nil] at hscan
  rw [scanner_doc, Scanner.doc, String.toList_ofList, hscan]
  rfl

theorem doc_openRoot_closed (k : ℕ) :
    (scanner.doc (String.ofList (openRoot k) ++ "</askoziapbx>")).isSome := by
  rw [scanner_doc, Scanner.doc, String.toList_append, String.toList_ofList, scan_openRoot]
  rfl

theorem doc_closedRoot (k : ℕ) :
    scanner.doc (String.ofList (closedRoot k)) = some ⟨"ASKOZIAPBX", .text "1" .nil⟩ := by
  have hscan := scan_closedRoot k []
  rw [List.append_nil] at hscan
  have hblank : (lineFeeds k).all (fun c => c == ' ' || c == '\t' || c == '\n' || c == '\r') =
      true := by
    rw [List.all_eq_true]
    intro c hc
    rw [List.eq_of_mem_replicate hc]
    rfl
  rw [scanner_doc, Scanner.doc, String.toList_ofList, hscan]
  exact if_pos hblank

theorem doc_closedRoot_zero (k : ℕ) :
    scanner.doc (String.ofList (closedRoot k ++ ['0'])) = none := by
  have hzero : ¬ (lineFeeds k ++ ['0']).all
      (fun c => c == ' ' || c == '\t' || c == '\n' || c == '\r') = true := by
    rw [List.all_append]
    simp
  rw [scanner_doc, Scanner.doc, String.toList_ofList, scan_closedRoot]
  exact if_neg hzero

theorem length_openRoot (k : ℕ) : (openRoot k).length = 12 + k := by
  have hlen : "<askoziapbx>".toList.length = 12 := by decide
  unfold openRoot
  rw [List.length_append, lineFeeds, List.length_replicate, hlen]

theorem length_closedRoot (k : ℕ) : (closedRoot k).length = 26 + k := by
  have hlen : "<askoziapbx>1</askoziapbx>".toList.length = 26 := by decide
  unfold closedRoot
  rw [List.length_append, lineFeeds, List.length_replicate, hlen]

/-- A file cut off where a block ends is let through. -/
theorem validates_openRoot {k : ℕ} (h : (12 + k) % 4096 = 0) :
    configValidate scanner.toExpat true (String.ofList (openRoot k)) = true := by
  have hu : Unflagged (String.ofList (openRoot k)).toList := by
    rw [String.toList_ofList, Unflagged, length_openRoot]
    exact .inl h
  have hgiven : given (openRoot k) = openRoot k := by
    rw [given, length_openRoot, h]
    rfl
  refine (parses_unflagged hu).2 ⟨"</askoziapbx>", ?_⟩
  rw [String.toList_ofList, hgiven]
  exact doc_openRoot_closed k

/-- The `0` in a block of its own is not seen, and the document before it is loaded. -/
theorem loads_closedRoot_zero {k : ℕ} (h : (26 + k) % 4096 = 0) :
    ∃ v, xmlToArray scanner.toExpat (String.ofList (closedRoot k ++ ['0'])) xmlRootobj = .ok v := by
  have hlast : (closedRoot k ++ ['0']).getLast? = some '0' := by simp
  have hmod : (closedRoot k ++ ['0']).length % 4096 = 1 := by
    rw [List.length_append, length_closedRoot, List.length_singleton]
    omega
  -- a last byte `0` alone in its block is never given to the parser, `while ($data = fread(..))`
  have hgiven : given (closedRoot k ++ ['0']) = closedRoot k := by
    rw [given, if_pos ⟨hmod, hlast⟩, List.dropLast_concat]
  have hu : Unflagged (String.ofList (closedRoot k ++ ['0'])).toList := by
    rw [String.toList_ofList]
    exact .inr ⟨hmod, hlast⟩
  have hfed : fed (String.ofList (closedRoot k ++ ['0'])) = String.ofList (closedRoot k) := by
    rw [fed_eq_given, String.toList_ofList, hgiven]
  have hparses : parses scanner.toExpat (String.ofList (closedRoot k ++ ['0'])) = true := by
    refine (parses_unflagged hu).2 ⟨"", ?_⟩
    rw [String.toList_ofList, hgiven, String.append_empty, doc_closedRoot]
    rfl
  have hblocks : blocks (String.ofList (closedRoot k ++ ['0'])) ≠ [] := by
    intro hb
    rw [fed, hb] at hfed
    have hlen := congrArg (List.length ∘ String.toList) hfed
    rw [Function.comp, Function.comp, String.toList_ofList, String.toList_ofList,
      length_closedRoot] at hlen
    change 0 = 26 + k at hlen
    omega
  have hloadable : Loadable ⟨"ASKOZIAPBX", .text "1" .nil⟩ := by
    refine ⟨by decide, ⟨fun _ => rfl, trivial⟩, ?_⟩
    rw [Filled]
    decide
  exact (xmlToArray_ok_iff _ _).2 ⟨hparses, _, ⟨hblocks, .inl (by rw [hfed, doc_closedRoot])⟩,
    hloadable⟩

/-- A file of one block that stops after the root has been opened is validated, and a `0` in a
second block after a document goes unnoticed when it is loaded. -/
theorem not_reads_complete :
    ¬ ValidatesComplete scanner.toExpat (String.ofList (openRoot 4084)) ∧
      ¬ LoadsComplete scanner.toExpat (String.ofList (closedRoot 4070 ++ ['0'])) := by
  constructor
  · -- a whole block, so that the end comes with no data
    intro h
    have hsome := h true (validates_openRoot rfl)
    rw [doc_openRoot] at hsome
    cases hsome
  · intro h
    have hmod : (26 + 4070) % 4096 = 0 := rfl
    obtain ⟨v, hv⟩ := loads_closedRoot_zero hmod
    have hsome := h xmlRootobj v hv
    rw [doc_closedRoot_zero] at hsome
    cases hsome

end Config
end Askozia
