import Askozia.Php.Lacks
import Askozia.XmlParse.Writer

/-!
# Characters that are not written

What `array_to_xml` writes is made of the texts and keys of the array, of tags, and of entities for
four characters.

* `textLacks_arrayToXml`: a character that is in none of them is not written.
-/

namespace Askozia
namespace XmlParse

open Php Xml

/-- The texts that are written whatever the array is. -/
def markupTexts : List String :=
  ["<?xml version=\"1.0\"?>\n<", ">\n", "\n", "\t", "<", ">", "</", "/>", "&amp;", "&quot;", "&lt;",
    "&gt;"]

/-- None of the characters is written whatever the array is. -/
structure Unwritten (bad : Char → Bool) : Prop where
  spares : Spares bad
  markup : ∀ s ∈ markupTexts, TextLacks bad s

section Lacks

variable {bad : Char → Bool} {s : String} {v : Val}

theorem textLacks_htmlspecialchars (h : Unwritten bad) (hs : TextLacks bad s) :
    TextLacks bad (htmlspecialchars s) := by
  intro c hc
  rw [htmlspecialchars, String.toList_ofList, List.mem_flatMap] at hc
  obtain ⟨d, hd, hc⟩ := hc
  unfold htmlspecialchar at hc
  split_ifs at hc
  · exact h.markup "&amp;" (by simp [markupTexts]) c hc
  · exact h.markup "&quot;" (by simp [markupTexts]) c hc
  · exact h.markup "&lt;" (by simp [markupTexts]) c hc
  · exact h.markup "&gt;" (by simp [markupTexts]) c hc
  · rw [List.mem_singleton.1 hc]
    exact hs d hd

/-- Markup of such names and texts. -/
theorem textLacks_render (h : Unwritten bad) {m : Markup}
    (hm : m.Every (TextLacks bad) (TextLacks bad)) : TextLacks bad m.render := by
  have hopen : TextLacks bad "<" := h.markup _ (by simp [markupTexts])
  have hclose : TextLacks bad ">" := h.markup _ (by simp [markupTexts])
  have hend : TextLacks bad "</" := h.markup _ (by simp [markupTexts])
  have hempty : TextLacks bad "/>" := h.markup _ (by simp [markupTexts])
  induction m with
  | nil => exact textLacks_empty bad
  | text s r ih => exact (textLacks_htmlspecialchars h hm.1).append (ih hm.2)
  | elem n k r ihk ihr =>
    have hstart := (hopen.append hm.1).append hclose
    exact ((((hstart.append (ihk hm.2.1)).append hend).append hm.1).append hclose).append (ihr hm.2.2)
  | empty n r ih => exact ((hopen.append hm.1).append hempty).append (ih hm.2)

/-- What is rendered has the texts in it. -/
theorem every_of_textLacks_render {m : Markup} (h : TextLacks bad m.render) :
    m.Every (fun _ => True) fun s => TextLacks bad (htmlspecialchars s) := by
  induction m with
  | nil => trivial
  | text s r ih => exact ⟨h.of_append.1, ih h.of_append.2⟩
  | elem n k r ihk ihr =>
    have hkids := h.of_append.1.of_append.1.of_append.1.of_append.1
    exact ⟨trivial, ihk hkids.of_append.2, ihr h.of_append.2⟩
  | empty n r ih => exact ⟨trivial, ih h.of_append.2⟩

theorem textLacks_keyToStr (h : Spares bad) {k : Key} (hk : KeyLacks bad k) : TextLacks bad k.toStr := by
  cases k with
  | int n =>
    have hint : (Val.int n).Lacks bad := by simp only [Val.Lacks]
    exact Val.textLacks_toStr h hint
  | str s => exact hk

theorem everyScalar_of_lacks (h : Spares bad) {ent : String} (hent : TextLacks bad ent)
    (hv : v.Lacks bad) : EveryScalar (TextLacks bad) (TextLacks bad) ent v := by
  intro s hs
  refine ⟨hent, ?_⟩
  cases v with
  | bool b =>
    cases b with
    | false => cases hs
    | true =>
      obtain rfl := Option.some.inj hs
      exact textLacks_empty bad
  | _ =>
    obtain rfl := Option.some.inj hs
    exact Val.textLacks_toStr h hv

mutual

theorem everySub_of_lacks (h : Spares bad) : ∀ {es : List (Key × Val)}, Val.EntriesLack bad es →
    EverySub (TextLacks bad) (TextLacks bad) es
  | [], _ => by
    rw [EverySub]
    trivial
  | (k, v) :: r, hes => by
    rw [Val.EntriesLack] at hes
    rw [EverySub]
    exact ⟨everyEnt_of_lacks h (textLacks_keyToStr h hes.1) hes.2.1, everySub_of_lacks h hes.2.2⟩

theorem everyEnt_of_lacks (h : Spares bad) {ent : String} (hent : TextLacks bad ent) :
    ∀ {v : Val}, v.Lacks bad → EveryEnt (TextLacks bad) (TextLacks bad) ent v
  | .arr es, hv => by
    rw [Val.Lacks] at hv
    rw [EveryEnt]
    split_ifs
    · exact everyItems_of_lacks h hent hv
    · exact ⟨hent, everySub_of_lacks h hv⟩
  | .bool _, hv => (everyEnt_scalar rfl ent).2 (everyScalar_of_lacks h hent hv)
  | .null, hv => (everyEnt_scalar rfl ent).2 (everyScalar_of_lacks h hent hv)
  | .int _, hv => (everyEnt_scalar rfl ent).2 (everyScalar_of_lacks h hent hv)
  | .str _, hv => (everyEnt_scalar rfl ent).2 (everyScalar_of_lacks h hent hv)

theorem everyItems_of_lacks (h : Spares bad) {ent : String} (hent : TextLacks bad ent) :
    ∀ {es : List (Key × Val)}, Val.EntriesLack bad es →
      EveryItems (TextLacks bad) (TextLacks bad) ent es
  | [], _ => by
    rw [EveryItems]
    trivial
  | (k, v) :: r, hes => by
    rw [Val.EntriesLack] at hes
    rw [EveryItems]
    exact ⟨everyItem_of_lacks h hent hes.2.1, everyItems_of_lacks h hent hes.2.2⟩

theorem everyItem_of_lacks (h : Spares bad) {ent : String} (hent : TextLacks bad ent) :
    ∀ {v : Val}, v.Lacks bad → EveryItem (TextLacks bad) (TextLacks bad) ent v
  | .arr es, hv => by
    rw [Val.Lacks] at hv
    rw [EveryItem]
    exact ⟨hent, everySub_of_lacks h hv⟩
  | .bool _, hv => (everyItem_scalar rfl ent).2 (everyScalar_of_lacks h hent hv)
  | .null, hv => (everyItem_scalar rfl ent).2 (everyScalar_of_lacks h hent hv)
  | .int _, hv => (everyItem_scalar rfl ent).2 (everyScalar_of_lacks h hent hv)
  | .str _, hv => (everyItem_scalar rfl ent).2 (everyScalar_of_lacks h hent hv)

end

/-- **A character that is not in the array is not written** -/
theorem textLacks_arrayToXml (h : Unwritten bad) {rootobj : String} (hroot : TextLacks bad rootobj)
    (hv : v.Lacks bad) : TextLacks bad (arrayToXml v rootobj) := by
  have hentries : Val.EntriesLack bad v.entries := by
    cases v with
    | arr es =>
      rw [Val.Lacks] at hv
      exact hv
    | _ => exact Val.entriesLack_iff.2 fun e he => absurd he List.not_mem_nil
  have hnewline : TextLacks bad "\n" := h.markup _ (by simp [markupTexts])
  have htabs : ∀ n, TextLacks bad (tabs n) := by
    intro n c hc
    rw [tabs_toList] at hc
    rw [List.eq_of_mem_replicate hc]
    exact h.markup "\t" (by simp [markupTexts]) '\t' (by decide)
  have hevery := (every_markup (textLacks_empty bad) hnewline htabs v).2
    (everySub_of_lacks h.spares hentries)
  have hdecl : TextLacks bad "<?xml version=\"1.0\"?>\n<" := h.markup _ (by simp [markupTexts])
  have hclose : TextLacks bad ">" := h.markup _ (by simp [markupTexts])
  have hend : TextLacks bad "</" := h.markup _ (by simp [markupTexts])
  have hlast : TextLacks bad ">\n" := h.markup _ (by simp [markupTexts])
  rw [arrayToXml_eq]
  exact (((((hdecl.append hroot).append hclose).append (textLacks_render h hevery)).append
    hend).append hroot).append hlast

end Lacks

end XmlParse
end Askozia
