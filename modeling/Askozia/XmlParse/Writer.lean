import Askozia.XmlParse.Reader

/-!
# Writing configuration files (`xmlparse.inc`)

`array_to_xml` prints an array as a document, one element per line, indented with tabs.
Element names are printed as they are and character data goes through `htmlspecialchars`.
`markup` is the document the text stands for, `arrayToXml_eq` says that it does.
-/

namespace Askozia
namespace XmlParse

open Php Xml

/-- `str_repeat("\t", $indent)` -/
def tabs (indent : ℕ) : String := strRepeat "\t" indent

/-- The line written for a value that is not an array: `true` and `""` give an empty-element
tag, `false` gives nothing. -/
def scalarToXml (ent : String) : Val → String
  | .bool true => "<" ++ ent ++ "/>\n"
  | .bool false => ""
  | .str s =>
    if s = "" then "<" ++ ent ++ "/>\n"
    else "<" ++ ent ++ ">" ++ htmlspecialchars s ++ "</" ++ ent ++ ">\n"
  | v => "<" ++ ent ++ ">" ++ htmlspecialchars v.toStr ++ "</" ++ ent ++ ">\n"

mutual

/-- `array_to_xml_sub($arr, $indent)` -/
def arrayToXmlSub (indent : ℕ) : List (Key × Val) → String
  | [] => ""
  | (ent, val) :: r => entToXml ent.toStr indent val ++ arrayToXmlSub indent r

/-- The body of the loop over `$ent => $val`. -/
def entToXml (ent : String) (indent : ℕ) : Val → String
  | .arr es =>
    if strtolower ent ∈ listtags then itemsToXml ent indent es
    else tabs indent ++ "<" ++ ent ++ ">\n" ++ arrayToXmlSub (indent + 1) es ++
      tabs indent ++ "</" ++ ent ++ ">\n"
  | .bool false => ""
  | v => tabs indent ++ scalarToXml ent v

/-- The loop over the values of a list; the indentation is written even for `false`. -/
def itemsToXml (ent : String) (indent : ℕ) : List (Key × Val) → String
  | [] => ""
  | (_, cval) :: r => itemToXml ent indent cval ++ itemsToXml ent indent r

/-- The body of the loop over `$cval`. -/
def itemToXml (ent : String) (indent : ℕ) : Val → String
  | .arr es =>
    tabs indent ++ "<" ++ ent ++ ">\n" ++ arrayToXmlSub (indent + 1) es ++
      tabs indent ++ "</" ++ ent ++ ">\n"
  | v => tabs indent ++ scalarToXml ent v

end

/-- `array_to_xml($arr, $rootobj)` -/
def arrayToXml (arr : Val) (rootobj : String) : String :=
  "<?xml version=\"1.0\"?" ++ ">\n" ++ "<" ++ rootobj ++ ">\n" ++ arrayToXmlSub 1 arr.entries ++
    "</" ++ rootobj ++ ">\n"

/-! ## The document a text stands for

The builders take what follows, so that no concatenation of contents is needed. -/

/-- The text of a value that is not an array, `none` if it is not written. -/
def written : Val → Option String
  | .bool true => some ""
  | .bool false => none
  | v => some v.toStr

/-- The element of a value that is not an array. -/
def scalarMarkup (ent : String) (v : Val) (rest : Markup) : Markup :=
  match v with
  | .bool true => .empty ent (.text "\n" rest)
  | .bool false => rest
  | .str s =>
    if s = "" then .empty ent (.text "\n" rest) else .elem ent (.text s .nil) (.text "\n" rest)
  | v => .elem ent (.text v.toStr .nil) (.text "\n" rest)

mutual

/-- The elements of the entries of an array. -/
def markupSub (indent : ℕ) : List (Key × Val) → Markup → Markup
  | [], rest => rest
  | (ent, val) :: r, rest => markupEnt ent.toStr indent val (markupSub indent r rest)

/-- The elements of one entry. -/
def markupEnt (ent : String) (indent : ℕ) : Val → Markup → Markup
  | .arr es, rest =>
    if strtolower ent ∈ listtags then markupItems ent indent es rest
    else .text (tabs indent) (.elem ent
      (.text "\n" (markupSub (indent + 1) es (.text (tabs indent) .nil))) (.text "\n" rest))
  | .bool false, rest => rest
  | v, rest => .text (tabs indent) (scalarMarkup ent v rest)

/-- The elements of a list. -/
def markupItems (ent : String) (indent : ℕ) : List (Key × Val) → Markup → Markup
  | [], rest => rest
  | (_, cval) :: r, rest => markupItem ent indent cval (markupItems ent indent r rest)

/-- The element of a list item. -/
def markupItem (ent : String) (indent : ℕ) : Val → Markup → Markup
  | .arr es, rest =>
    .text (tabs indent) (.elem ent
      (.text "\n" (markupSub (indent + 1) es (.text (tabs indent) .nil))) (.text "\n" rest))
  | v, rest => .text (tabs indent) (scalarMarkup ent v rest)

end

/-- A value that is no array, other than `false`, is one element. -/
theorem markupEnt_scalar {x : Val} (hx : x.isArray = false) (hfalse : x ≠ .bool false)
    (ent : String) (indent : ℕ) (rest : Markup) :
    markupEnt ent indent x rest = .text (tabs indent) (scalarMarkup ent x rest) := by
  cases x with
  | arr es => simp [Val.isArray] at hx
  | bool b => cases b <;> simp_all [markupEnt]
  | _ => simp only [markupEnt]

/-- In a list `false` is an element as well. -/
theorem markupItem_scalar {x : Val} (hx : x.isArray = false) (ent : String) (indent : ℕ)
    (rest : Markup) :
    markupItem ent indent x rest = .text (tabs indent) (scalarMarkup ent x rest) := by
  cases x with
  | arr es => simp [Val.isArray] at hx
  | _ => simp only [markupItem]

/-- The content of the root element. -/
def markup (arr : Val) : Markup := .text "\n" (markupSub 1 arr.entries .nil)

/-- A text without special characters is written as it is. -/
theorem htmlspecialchars_of_safe {s : String} (h : ∀ c ∈ s.toList, htmlspecialchar c = [c]) :
    htmlspecialchars s = s := by
  have hflat : s.toList.flatMap htmlspecialchar = s.toList := by
    have hcs : ∀ cs : List Char, (∀ c ∈ cs, htmlspecialchar c = [c]) →
        cs.flatMap htmlspecialchar = cs := by
      intro cs
      induction cs with
      | nil => exact fun _ => rfl
      | cons c cs ih =>
        intro hc
        rw [List.flatMap_cons, hc c List.mem_cons_self,
          ih fun d hd => hc d (List.mem_cons_of_mem c hd)]
        rfl
    exact hcs _ h
  rw [htmlspecialchars, hflat, String.ofList_toList]

theorem tabs_toList (indent : ℕ) : (tabs indent).toList = List.replicate indent '\t' := by
  unfold tabs
  induction indent with
  | zero => rfl
  | succ n ih => rw [strRepeat, String.toList_append, ih]; rfl

/-- Indentation is not escaped. -/
theorem htmlspecialchars_tabs (indent : ℕ) : htmlspecialchars (tabs indent) = tabs indent := by
  refine htmlspecialchars_of_safe fun c hc => ?_
  rw [tabs_toList, List.mem_replicate] at hc
  rw [hc.2]
  decide

/-- Nor is the end of a line. -/
theorem htmlspecialchars_newline : htmlspecialchars "\n" = "\n" := by decide

/-- An empty element with the line it ends, bracketed as the writer does it. -/
theorem emptyTag_append (ent r : String) :
    "<" ++ ent ++ "/>" ++ ("\n" ++ r) = "<" ++ ent ++ "/>\n" ++ r := by
  apply String.toList_injective
  simp

/-- The same for an element with a text. -/
theorem element_append (ent body r : String) :
    "<" ++ ent ++ ">" ++ body ++ "</" ++ ent ++ ">" ++ ("\n" ++ r) =
      "<" ++ ent ++ ">" ++ body ++ "</" ++ ent ++ ">\n" ++ r := by
  apply String.toList_injective
  simp

/-- The same for an element that contains others. -/
theorem block_append (ent indent body r : String) :
    indent ++ ("<" ++ ent ++ ">" ++ ("\n" ++ (body ++ (indent ++ ""))) ++ "</" ++ ent ++ ">" ++
      ("\n" ++ r)) =
      indent ++ "<" ++ ent ++ ">\n" ++ body ++ indent ++ "</" ++ ent ++ ">\n" ++ r := by
  apply String.toList_injective
  simp

/-- The markup of a value that is no array is rendered as the writer writes it. -/
theorem scalarMarkup_render (ent : String) (v : Val) (rest : Markup) :
    (scalarMarkup ent v rest).render = scalarToXml ent v ++ rest.render := by
  unfold scalarMarkup scalarToXml
  split
  · simp only [Markup.render, htmlspecialchars_newline, emptyTag_append]
  · rw [String.empty_append]
  · split
    · simp only [Markup.render, htmlspecialchars_newline, emptyTag_append]
    · simp only [Markup.render, htmlspecialchars_newline, String.append_empty, element_append]
  · simp only [Markup.render, htmlspecialchars_newline, String.append_empty, element_append]

mutual

/-- The markup of the entries of an array is rendered as the writer writes them. -/
theorem markupSub_render : ∀ (es : List (Key × Val)) (indent : ℕ) (rest : Markup),
    (markupSub indent es rest).render = arrayToXmlSub indent es ++ rest.render
  | [], indent, rest => by rw [markupSub, arrayToXmlSub, String.empty_append]
  | (ent, val) :: r, indent, rest => by
    rw [markupSub, arrayToXmlSub, markupEnt_render val, markupSub_render r, String.append_assoc]

/-- The same for one entry. -/
theorem markupEnt_render : ∀ (v : Val) (ent : String) (indent : ℕ) (rest : Markup),
    (markupEnt ent indent v rest).render = entToXml ent indent v ++ rest.render
  | .arr es, ent, indent, rest => by
    rw [markupEnt, entToXml]
    split
    · exact markupItems_render es ent indent rest
    · simp only [Markup.render, htmlspecialchars_tabs, htmlspecialchars_newline,
        markupSub_render es, block_append]
  | .bool false, ent, indent, rest => by rw [markupEnt, entToXml, String.empty_append]
  | .bool true, ent, indent, rest => by
    simp only [markupEnt, entToXml, Markup.render, htmlspecialchars_tabs, scalarMarkup_render,
      String.append_assoc]
  | .null, ent, indent, rest => by
    simp only [markupEnt, entToXml, Markup.render, htmlspecialchars_tabs, scalarMarkup_render,
      String.append_assoc]
  | .int n, ent, indent, rest => by
    simp only [markupEnt, entToXml, Markup.render, htmlspecialchars_tabs, scalarMarkup_render,
      String.append_assoc]
  | .str s, ent, indent, rest => by
    simp only [markupEnt, entToXml, Markup.render, htmlspecialchars_tabs, scalarMarkup_render,
      String.append_assoc]

theorem markupItems_render : ∀ (es : List (Key × Val)) (ent : String) (indent : ℕ) (rest : Markup),
    (markupItems ent indent es rest).render = itemsToXml ent indent es ++ rest.render
  | [], ent, indent, rest => by rw [markupItems, itemsToXml, String.empty_append]
  | (_, cval) :: r, ent, indent, rest => by
    rw [markupItems, itemsToXml, markupItem_render cval, markupItems_render r,
      String.append_assoc]

theorem markupItem_render : ∀ (v : Val) (ent : String) (indent : ℕ) (rest : Markup),
    (markupItem ent indent v rest).render = itemToXml ent indent v ++ rest.render
  | .arr es, ent, indent, rest => by
    simp only [markupItem, itemToXml, Markup.render, htmlspecialchars_tabs,
      htmlspecialchars_newline, markupSub_render es, block_append]
  | .bool b, ent, indent, rest => by
    simp only [markupItem, itemToXml, Markup.render, htmlspecialchars_tabs, scalarMarkup_render,
      String.append_assoc]
  | .null, ent, indent, rest => by
    simp only [markupItem, itemToXml, Markup.render, htmlspecialchars_tabs, scalarMarkup_render,
      String.append_assoc]
  | .int n, ent, indent, rest => by
    simp only [markupItem, itemToXml, Markup.render, htmlspecialchars_tabs, scalarMarkup_render,
      String.append_assoc]
  | .str s, ent, indent, rest => by
    simp only [markupItem, itemToXml, Markup.render, htmlspecialchars_tabs, scalarMarkup_render,
      String.append_assoc]

end

/-- The writer prints the document of the array. -/
theorem arrayToXml_eq (arr : Val) (rootobj : String) :
    arrayToXml arr rootobj = document rootobj (markup arr) := by
  have hdecl : "<?xml version=\"1.0\"?>\n<" = "<?xml version=\"1.0\"?" ++ ">\n" ++ "<" := by decide
  have hopen : ∀ s : String, ">" ++ ("\n" ++ s) = ">\n" ++ s := fun s => by
    rw [← String.append_assoc]
    congr 1
  unfold arrayToXml document markup
  rw [Markup.render, htmlspecialchars_newline, markupSub_render, Markup.render, hdecl]
  simp only [String.append_assoc, String.empty_append, hopen]

/-! ## Names and texts that are written -/

/-- `N` holds of the name and `T` of the text of a value that is not an array, if it is
written at all. -/
def EveryScalar (N T : String → Prop) (ent : String) (x : Val) : Prop :=
  ∀ s, written x = some s → N ent ∧ T s

mutual

/-- `N` holds of every name and `T` of every text written for the entries of an array. -/
def EverySub (N T : String → Prop) : List (Key × Val) → Prop
  | [] => True
  | (ent, val) :: r => EveryEnt N T ent.toStr val ∧ EverySub N T r

/-- The same for one entry. -/
def EveryEnt (N T : String → Prop) (ent : String) : Val → Prop
  | .arr es =>
    if strtolower ent ∈ listtags then EveryItems N T ent es else N ent ∧ EverySub N T es
  | x => EveryScalar N T ent x

/-- The same for the items of a list. -/
def EveryItems (N T : String → Prop) (ent : String) : List (Key × Val) → Prop
  | [] => True
  | (_, cval) :: r => EveryItem N T ent cval ∧ EveryItems N T ent r

/-- The same for one item. -/
def EveryItem (N T : String → Prop) (ent : String) : Val → Prop
  | .arr es => N ent ∧ EverySub N T es
  | x => EveryScalar N T ent x

end

section Every

variable {N T : String → Prop}

/-- Of an entry that is no array only the name and the text count. -/
theorem everyEnt_scalar {x : Val} (hx : x.isArray = false) (ent : String) :
    EveryEnt N T ent x ↔ EveryScalar N T ent x := by
  cases x with
  | arr es => simp [Val.isArray] at hx
  | _ => simp only [EveryEnt]

/-- The same holds of an item. -/
theorem everyItem_scalar {x : Val} (hx : x.isArray = false) (ent : String) :
    EveryItem N T ent x ↔ EveryScalar N T ent x := by
  cases x with
  | arr es => simp [Val.isArray] at hx
  | _ => simp only [EveryItem]

/-- What holds of the names and texts in the markup of a value holds of the value's own. -/
theorem every_scalarMarkup (hT : T "") (hnl : T "\n") (ent : String) (x : Val) (rest : Markup) :
    (scalarMarkup ent x rest).Every N T ↔ EveryScalar N T ent x ∧ rest.Every N T := by
  unfold scalarMarkup EveryScalar
  split
  · simp [Markup.Every, written, hT, hnl]
  · simp [written]
  · split
    · next hs => simp [Markup.Every, written, Val.toStr, hs, hT, hnl]
    · simp [Markup.Every, written, Val.toStr, hnl, and_assoc]
  · next htrue hfalse _ =>
    have hw : written x = some x.toStr := by
      cases x with
      | bool b => cases b <;> simp_all
      | _ => rfl
    simp [Markup.Every, hw, hnl, and_assoc]

/-- The same with the indentation in front of an entry. -/
theorem every_markupEnt_scalar (hT : T "") (hnl : T "\n") (htabs : ∀ n, T (tabs n)) {x : Val}
    (hx : x.isArray = false) (ent : String) (indent : ℕ) (rest : Markup) :
    (markupEnt ent indent x rest).Every N T ↔ EveryEnt N T ent x ∧ rest.Every N T := by
  rw [everyEnt_scalar hx]
  by_cases hfalse : x = .bool false
  · subst hfalse
    simp [markupEnt, EveryScalar, written]
  · rw [markupEnt_scalar hx hfalse, Markup.Every, every_scalarMarkup hT hnl]
    simp [htabs]

theorem every_markupItem_scalar (hT : T "") (hnl : T "\n") (htabs : ∀ n, T (tabs n)) {x : Val}
    (hx : x.isArray = false) (ent : String) (indent : ℕ) (rest : Markup) :
    (markupItem ent indent x rest).Every N T ↔ EveryItem N T ent x ∧ rest.Every N T := by
  rw [everyItem_scalar hx, markupItem_scalar hx, Markup.Every, every_scalarMarkup hT hnl]
  simp [htabs]

mutual

/-- The names and texts in the markup of an array are its own, with indentation. -/
theorem every_markupSub (hT : T "") (hnl : T "\n") (htabs : ∀ n, T (tabs n)) :
    ∀ (es : List (Key × Val)) (indent : ℕ) (rest : Markup),
    (markupSub indent es rest).Every N T ↔ EverySub N T es ∧ rest.Every N T
  | [], indent, rest => by simp [markupSub, EverySub]
  | (ent, val) :: r, indent, rest => by
    rw [markupSub, EverySub, every_markupEnt hT hnl htabs val, every_markupSub hT hnl htabs r, and_assoc]

/-- The same of one entry. -/
theorem every_markupEnt (hT : T "") (hnl : T "\n") (htabs : ∀ n, T (tabs n)) :
    ∀ (x : Val) (ent : String) (indent : ℕ) (rest : Markup),
    (markupEnt ent indent x rest).Every N T ↔ EveryEnt N T ent x ∧ rest.Every N T
  | .arr es, ent, indent, rest => by
    rw [markupEnt, EveryEnt]
    split
    · exact every_markupItems hT hnl htabs es ent indent rest
    · simp [Markup.Every, every_markupSub hT hnl htabs es, hnl, htabs, and_assoc]
  | .bool _, ent, indent, rest => every_markupEnt_scalar hT hnl htabs rfl ent indent rest
  | .null, ent, indent, rest => every_markupEnt_scalar hT hnl htabs rfl ent indent rest
  | .int _, ent, indent, rest => every_markupEnt_scalar hT hnl htabs rfl ent indent rest
  | .str _, ent, indent, rest => every_markupEnt_scalar hT hnl htabs rfl ent indent rest

theorem every_markupItems (hT : T "") (hnl : T "\n") (htabs : ∀ n, T (tabs n)) :
    ∀ (es : List (Key × Val)) (ent : String) (indent : ℕ) (rest : Markup),
    (markupItems ent indent es rest).Every N T ↔ EveryItems N T ent es ∧ rest.Every N T
  | [], ent, indent, rest => by simp [markupItems, EveryItems]
  | (_, cval) :: r, ent, indent, rest => by
    rw [markupItems, EveryItems, every_markupItem hT hnl htabs cval, every_markupItems hT hnl htabs r, and_assoc]

theorem every_markupItem (hT : T "") (hnl : T "\n") (htabs : ∀ n, T (tabs n)) :
    ∀ (x : Val) (ent : String) (indent : ℕ) (rest : Markup),
    (markupItem ent indent x rest).Every N T ↔ EveryItem N T ent x ∧ rest.Every N T
  | .arr es, ent, indent, rest => by
    simp [markupItem, EveryItem, Markup.Every, every_markupSub hT hnl htabs es, hnl, htabs, and_assoc]
  | .bool _, ent, indent, rest => every_markupItem_scalar hT hnl htabs rfl ent indent rest
  | .null, ent, indent, rest => every_markupItem_scalar hT hnl htabs rfl ent indent rest
  | .int _, ent, indent, rest => every_markupItem_scalar hT hnl htabs rfl ent indent rest
  | .str _, ent, indent, rest => every_markupItem_scalar hT hnl htabs rfl ent indent rest

end

/-- What holds of the texts that are written for an array holds of the markup around them, too. -/
theorem every_markup (hT : T "") (hnl : T "\n") (htabs : ∀ n, T (tabs n)) (t : Val) :
    (markup t).Every N T ↔ EverySub N T t.entries := by
  rw [markup, Markup.Every, every_markupSub hT hnl htabs, Markup.Every]
  simp [hnl]

end Every

end XmlParse
end Askozia
