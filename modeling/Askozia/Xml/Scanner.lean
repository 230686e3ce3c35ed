import Askozia.Xml.Pieces

/-!
# A small XML parser

A parser with the behaviour asked of `Expat`, so that what is proved for all of them is not
proved of nothing. It reads an optional declaration, elements without attributes, empty-element
tags and the predefined entities, one character at a time.
-/

namespace Askozia
namespace Xml
namespace Scanner

open Php

/-! ## The automaton -/

/-- Where in the syntax the next character stands. -/
inductive Lex where
  | content
  | entity (e : List Char)
  | tag
  | startTag (n : List Char)
  | emptyTag (n : List Char)
  | endTag (n : List Char)
deriving DecidableEq, Repr

/-- The enclosing elements with what came before in each, the content of the current one so
far, the character data since the last tag, and the place in the syntax. -/
structure State where
  stack : List (String × Content)
  acc : Content
  run : List Char
  lex : Lex
deriving DecidableEq, Repr

/-- The predefined entities. -/
def entity (e : List Char) : Option Char :=
  if e = "amp".toList then some '&'
  else if e = "quot".toList then some '"'
  else if e = "lt".toList then some '<'
  else if e = "gt".toList then some '>'
  else if e = "apos".toList then some '\''
  else none

/-- The content with the pending character data. -/
def State.flush (st : State) : Content :=
  st.acc.append (.texts ((pieces (eol st.run)).map String.ofList) .nil)

/-- One character. -/
def step (st : State) (c : Char) : Option State :=
  match st.lex with
  | .content =>
    if c = '<' then some { st with lex := .tag }
    else if c = '&' then some { st with lex := .entity [] }
    else if isLegalChar c then some { st with run := st.run ++ [c] }
    else none
  | .entity e =>
    if c = ';' then (entity e).map fun d => { st with run := st.run ++ [d], lex := .content }
    else some { st with lex := .entity (e ++ [c]) }
  | .tag =>
    if c = '/' then some { st with lex := .endTag [] }
    else if isNameStart c then some { st with lex := .startTag [c] }
    else none
  | .startTag n =>
    if c = '>' then
      some { stack := (String.ofList n, st.flush) :: st.stack, acc := .nil, run := [],
             lex := .content }
    else if c = '/' then some { st with lex := .emptyTag n }
    else if isNameChar c then some { st with lex := .startTag (n ++ [c]) }
    else none
  | .emptyTag n =>
    if c = '>' then
      some { st with
        acc := st.flush.append (.elem (strtoupper (String.ofList n)) .nil .nil)
        run := []
        lex := .content }
    else none
  | .endTag n =>
    if c = '>' then
      match st.stack with
      | [] => none
      | (m, outer) :: rest =>
        -- only the innermost open element can be closed
        if m = String.ofList n then
          some { stack := rest, acc := outer.append (.elem (strtoupper m) st.flush .nil),
                 run := [], lex := .content }
        else none
    else if isNameChar c then some { st with lex := .endTag (n ++ [c]) }
    else none

/-- A text. -/
def scan (st : State) (cs : List Char) : Option State := cs.foldlM step st

/-- The declaration the configuration writer uses. -/
def declaration : List Char := "<?xml version=\"1.0\"?>\n".toList

/-- The text after the declaration, if there is one. -/
def body (cs : List Char) : List Char :=
  if declaration.isPrefixOf cs then cs.drop declaration.length else cs

/-- The document in a state at the end of a text: one element and white space. -/
def result (st : State) : Option Doc :=
  match st.stack, st.acc, st.lex with
  | [], .elem n k .nil, .content =>
    if st.run.all (fun c => c == ' ' || c == '\t' || c == '\n' || c == '\r') then some ⟨n, k⟩
    else none
  | _, _, _ => none

/-- The state before the root element. -/
def State.init : State := { stack := [], acc := .nil, run := [], lex := .content }

/-- The document a text is. -/
def doc (s : String) : Option Doc := (scan State.init (body s.toList)).bind result

/-! ## Contents -/

/-- Contents can be appended in any grouping. -/
theorem append_assoc (a b c : Content) : (a.append b).append c = a.append (b.append c) := by
  induction a with
  | nil => rfl
  | text d r ih => rw [Content.append, Content.append, Content.append, ih]
  | elem n k r _ ih => rw [Content.append, Content.append, Content.append, ih]

/-- A run of text stays in front. -/
theorem texts_append (ps : List String) (b c : Content) :
    (Content.texts ps b).append c = .texts ps (b.append c) := by
  induction ps with
  | nil => rfl
  | cons p ps ih => rw [Content.texts, Content.append, ih, Content.texts]

/-- What comes after the pending character data. -/
theorem flush_append (st : State) (c : Content) :
    st.flush.append c = st.acc.append (.texts ((pieces (eol st.run)).map String.ofList) c) := by
  rw [State.flush, append_assoc, texts_append]
  rfl

/-! ## Scanning names and characters -/

/-- A text can be scanned in two parts. -/
theorem scan_append (st : State) (cs cs' : List Char) :
    scan st (cs ++ cs') = (scan st cs).bind (scan · cs') := by
  unfold scan
  rw [List.foldlM_append]
  rfl

/-- It is scanned character by character. -/
theorem scan_cons (st : State) (c : Char) (cs : List Char) :
    scan st (c :: cs) = (step st c).bind (scan · cs) := rfl

/-- A character of a name is none that ends it. -/
theorem isNameChar_ne {c d : Char} (h : isNameChar c = true) (hd : isNameChar d = false) :
    c ≠ d := by
  rintro rfl
  rw [h] at hd
  cases hd

/-- In a start tag the name is collected. -/
theorem scan_startTag {cs : List Char} (h : ∀ c ∈ cs, isNameChar c = true) (st : State)
    (n : List Char) :
    scan { st with lex := .startTag n } cs = some { st with lex := .startTag (n ++ cs) } := by
  induction cs generalizing n with
  | nil => rw [List.append_nil]; rfl
  | cons c cs ih =>
    have hc := h c List.mem_cons_self
    have hgt : c ≠ '>' := isNameChar_ne hc (by decide)
    have hslash : c ≠ '/' := isNameChar_ne hc (by decide)
    rw [scan_cons, step]
    simp only [hgt, hslash, hc, if_true, if_false, Option.bind_some]
    rw [ih (fun d hd => h d (List.mem_cons_of_mem c hd)), List.append_assoc]
    rfl

/-- In an end tag it is, too. -/
theorem scan_endTag {cs : List Char} (h : ∀ c ∈ cs, isNameChar c = true) (st : State)
    (n : List Char) :
    scan { st with lex := .endTag n } cs = some { st with lex := .endTag (n ++ cs) } := by
  induction cs generalizing n with
  | nil => rw [List.append_nil]; rfl
  | cons c cs ih =>
    have hc := h c List.mem_cons_self
    have hgt : c ≠ '>' := isNameChar_ne hc (by decide)
    rw [scan_cons, step]
    simp only [hgt, hc, if_true, if_false, Option.bind_some]
    rw [ih (fun d hd => h d (List.mem_cons_of_mem c hd)), List.append_assoc]
    rfl

/-- `<name`, up to the character after it. -/
theorem scan_tag {n : String} (hn : isName n = true) {st : State} (hst : st.lex = .content) :
    scan st ('<' :: n.toList) = some { st with lex := .startTag n.toList } := by
  have hchars := isNameChar_of_isName hn
  unfold isName at hn
  split at hn
  · cases hn
  · next c cs hcs =>
    rw [Bool.and_eq_true] at hn
    rw [hcs] at hchars ⊢
    have hslash : c ≠ '/' := isNameChar_ne (hchars c List.mem_cons_self) (by decide)
    rw [scan_cons, step, hst]
    simp only [if_true, Option.bind_some]
    rw [scan_cons, step]
    simp only [hslash, hn.1, if_true, if_false, Option.bind_some]
    exact scan_startTag (fun d hd => hchars d (List.mem_cons_of_mem c hd)) st [c]

/-- A start tag opens an element. -/
theorem scan_open {n : String} (hn : isName n = true) {st : State} (hst : st.lex = .content) :
    scan st ("<" ++ n ++ ">").toList =
      some { stack := (n, st.flush) :: st.stack, acc := .nil, run := [], lex := .content } := by
  have hlist : ("<" ++ n ++ ">").toList = ('<' :: n.toList) ++ ['>'] := by simp
  rw [hlist, scan_append, scan_tag hn hst, Option.bind_some, scan_cons, step]
  simp only [if_true, String.ofList_toList, Option.bind_some]
  rfl

/-- An empty tag adds an element without contents. -/
theorem scan_empty {n : String} (hn : isName n = true) {st : State} (hst : st.lex = .content) :
    scan st ("<" ++ n ++ "/>").toList =
      some { st with acc := st.flush.append (.elem (strtoupper n) .nil .nil), run := [] } := by
  have hlist : ("<" ++ n ++ "/>").toList = ('<' :: n.toList) ++ ['/', '>'] := by simp
  have hne : '/' ≠ '>' := by decide
  rw [hlist, scan_append, scan_tag hn hst, Option.bind_some, scan_cons, step]
  simp only [hne, if_true, if_false, Option.bind_some]
  rw [scan_cons, step]
  simp only [if_true, String.ofList_toList, Option.bind_some]
  show some _ = some _
  rw [← hst]
  rfl

/-- An end tag closes the last element that was opened, if it has its name. -/
theorem scan_close {n : String} (hn : isName n = true) (st : State) (hst : st.lex = .content)
    {outer : Content} {rest : List (String × Content)} (hstack : st.stack = (n, outer) :: rest) :
    scan st ("</" ++ n ++ ">").toList =
      some { stack := rest, acc := outer.append (.elem (strtoupper n) st.flush .nil), run := [],
             lex := .content } := by
  have hlist : ("</" ++ n ++ ">").toList = '<' :: '/' :: (n.toList ++ ['>']) := by simp
  rw [hlist, scan_cons, step, hst]
  simp only [if_true, Option.bind_some]
  rw [scan_cons, step]
  simp only [if_true, Option.bind_some]
  rw [scan_append, scan_endTag (isNameChar_of_isName hn), Option.bind_some, scan_cons, step]
  simp only [if_true, hstack, List.nil_append, String.ofList_toList, Option.bind_some]
  rfl

/-- A character XML allows, escaped as the writer escapes it. -/
theorem scan_char {c : Char} (hc : isLegalChar c = true) {st : State} (hst : st.lex = .content) :
    scan st (htmlspecialchar c) = some { st with run := st.run ++ [c] } := by
  obtain ⟨stack, acc, run, lex⟩ := st
  obtain rfl : lex = .content := hst
  unfold htmlspecialchar
  split
  · next h => subst h; rfl
  · next hamp =>
    split
    · next h => subst h; rfl
    · split
      · next h => subst h; rfl
      · next hlt =>
        split
        · next h => subst h; rfl
        · rw [scan_cons, step]
          simp only [hlt, hamp, hc, if_true, if_false, Option.bind_some]
          rfl

/-- Text that is escaped is collected as it was before. -/
theorem scan_text {cs : List Char} (h : ∀ c ∈ cs, isLegalChar c = true) (st : State)
    (hst : st.lex = .content) :
    scan st (cs.flatMap htmlspecialchar) = some { st with run := st.run ++ cs } := by
  induction cs generalizing st with
  | nil => rw [List.append_nil]; rfl
  | cons c cs ih =>
    rw [List.flatMap_cons, scan_append, scan_char (h c List.mem_cons_self) hst, Option.bind_some,
      ih (fun d hd => h d (List.mem_cons_of_mem c hd)) { st with run := st.run ++ [c] } hst]
    simp

/-- A forbidden character ends the scan. -/
theorem scan_text_illegal {cs : List Char} (hascii : ∀ c ∈ cs, c.toNat < 128)
    (h : ¬ ∀ c ∈ cs, isLegalChar c = true) (st : State) (hst : st.lex = .content) :
    scan st (cs.flatMap htmlspecialchar) = none := by
  induction cs generalizing st with
  | nil => exact absurd (fun c hc => absurd hc List.not_mem_nil) h
  | cons c cs ih =>
    rw [List.flatMap_cons, scan_append]
    by_cases hc : isLegalChar c = true
    · rw [scan_char hc hst, Option.bind_some]
      refine ih (fun d hd => hascii d (List.mem_cons_of_mem c hd)) (fun hall => h ?_)
        { st with run := st.run ++ [c] } hst
      intro d hd
      rcases List.mem_cons.1 hd with rfl | hd
      · exact hc
      · exact hall d hd
    · have hne : ∀ d, isLegalChar d = true → c ≠ d := by
        rintro d hd rfl
        exact hc hd
      have hamp := hne '&' (by decide)
      have hquot := hne '"' (by decide)
      have hlt := hne '<' (by decide)
      have hgt := hne '>' (by decide)
      have hstep : scan st (htmlspecialchar c) = none := by
        unfold htmlspecialchar
        rw [if_neg hamp, if_neg hquot, if_neg hlt, if_neg hgt, scan_cons, step, hst]
        simp only [hamp, hlt, hc, if_false]
        rfl
      rw [hstep]
      rfl

/-! ## Scanning markup -/

/-- How an element is rendered, character by character. -/
theorem render_elem_toList (n : String) (k r : Markup) :
    (Markup.elem n k r).render.toList =
      ("<" ++ n ++ ">").toList ++ (k.render.toList ++
        (("</" ++ n ++ ">").toList ++ r.render.toList)) := by
  simp [Markup.render]

theorem render_empty_toList (n : String) (r : Markup) :
    (Markup.empty n r).render.toList = ("<" ++ n ++ "/>").toList ++ r.render.toList := by
  rw [Markup.render, String.toList_append]

theorem render_text_toList (s : String) (r : Markup) :
    (Markup.text s r).render.toList = s.toList.flatMap htmlspecialchar ++ r.render.toList := by
  rw [Markup.render, String.toList_append, htmlspecialchars_toList]

/-- From `st`, the scan of `m` ends in the same element with a content delivered for `m`. -/
def Scans (m : Markup) (st : State) : Prop :=
  ∃ acc run c, scan st m.render.toList = some { st with acc := acc, run := run } ∧
    Delivery OnePiecePerRun st.run m c ∧
    acc.append (.texts ((pieces (eol run)).map String.ofList) .nil) = st.acc.append c

/-- An element, from its start tag to its end tag. -/
theorem scan_elem {n : String} {k : Markup} (st : State) (hn : isName n = true)
    (hst : st.lex = .content)
    (hk : Scans k { stack := (n, st.flush) :: st.stack, acc := .nil, run := [], lex := .content }) :
    ∃ ck, Delivery OnePiecePerRun [] k ck ∧ ∀ cs,
      scan st (("<" ++ n ++ ">").toList ++ (k.render.toList ++ (("</" ++ n ++ ">").toList ++ cs))) =
        scan { st with acc := st.flush.append (.elem (strtoupper n) ck .nil), run := [] } cs := by
  obtain ⟨acc, run, ck, hscan, hdel, hflush⟩ := hk
  refine ⟨ck, hdel, fun cs => ?_⟩
  rw [scan_append, scan_open hn hst, Option.bind_some, scan_append, hscan, Option.bind_some,
    scan_append, scan_close hn ⟨(n, st.flush) :: st.stack, acc, run, .content⟩ rfl rfl,
    Option.bind_some]
  have hkids : State.flush ⟨(n, st.flush) :: st.stack, acc, run, .content⟩ = ck := hflush
  rw [hkids, ← hst]

/-- Markup with names for elements and legal characters is scanned. -/
theorem scans {m : Markup} (hnamed : m.Named) (hlegal : m.Legal) (st : State)
    (hst : st.lex = .content) : Scans m st := by
  induction m generalizing st with
  | nil =>
    refine ⟨st.acc, st.run, _, rfl, .nil (show OnePiecePerRun st.run _ from rfl), rfl⟩
  | text s r ih =>
    obtain ⟨acc, run, c, hscan, hdel, hflush⟩ :=
      ih hnamed.2 hlegal.2 { st with run := st.run ++ s.toList } hst
    refine ⟨acc, run, c, ?_, .text hdel, hflush⟩
    rw [render_text_toList, scan_append, scan_text hlegal.1 st hst, Option.bind_some, hscan]
  | elem n k r ihk ihr =>
    obtain ⟨ck, hdk, hscank⟩ := scan_elem st hnamed.1 hst (ihk hnamed.2.1 hlegal.2.1 _ rfl)
    obtain ⟨acc, run, cr, hscan, hdr, hflush⟩ := ihr hnamed.2.2 hlegal.2.2
      { st with acc := st.flush.append (.elem (strtoupper n) ck .nil), run := [] } hst
    refine ⟨acc, run, _, ?_, .elem (show OnePiecePerRun st.run _ from rfl) hdk hdr, ?_⟩
    · rw [render_elem_toList, hscank, hscan]
    · rw [hflush, append_assoc, flush_append]
      rfl
  | empty n r ih =>
    obtain ⟨acc, run, cr, hscan, hdr, hflush⟩ := ih hnamed.2 hlegal.2
      { st with acc := st.flush.append (.elem (strtoupper n) .nil .nil), run := [] } hst
    refine ⟨acc, run, _, ?_, .empty (show OnePiecePerRun st.run _ from rfl) hdr, ?_⟩
    · rw [render_empty_toList, scan_append, scan_empty hnamed.1 hst, Option.bind_some, hscan]
    · rw [hflush, append_assoc, flush_append]
      rfl

/-- Markup with a forbidden character cannot be scanned. -/
theorem scan_illegal {m : Markup} (hnamed : m.Named) (hascii : m.Ascii) (h : ¬ m.Legal)
    (st : State) (hst : st.lex = .content) : scan st m.render.toList = none := by
  induction m generalizing st with
  | nil => exact absurd trivial h
  | text s r ih =>
    rw [render_text_toList, scan_append]
    by_cases hs : ∀ c ∈ s.toList, isLegalChar c = true
    · rw [scan_text hs st hst, Option.bind_some]
      exact ih hnamed.2 hascii.2 (fun hr => h ⟨hs, hr⟩)
        { st with run := st.run ++ s.toList } hst
    · rw [scan_text_illegal hascii.1 hs st hst]
      rfl
  | elem n k r ihk ihr =>
    rw [render_elem_toList]
    by_cases hk : k.Legal
    · obtain ⟨ck, -, hscank⟩ := scan_elem st hnamed.1 hst (scans hnamed.2.1 hk _ rfl)
      rw [hscank]
      exact ihr hnamed.2.2 hascii.2.2 (fun hr => h ⟨trivial, hk, hr⟩)
        { st with acc := _, run := [] } hst
    · rw [scan_append, scan_open hnamed.1 hst, Option.bind_some, scan_append,
        ihk hnamed.2.1 hascii.2.1 hk _ rfl]
      rfl
  | empty n r ih =>
    rw [render_empty_toList, scan_append, scan_empty hnamed.1 hst, Option.bind_some]
    exact ih hnamed.2 hascii.2 (fun hr => h ⟨trivial, hr⟩)
      { st with acc := _, run := [] } hst

/-! ## Documents -/

/-- The body of a document is its root element. -/
theorem body_document (root : String) (m : Markup) (r : String) :
    body (document root m ++ r).toList =
      ("<" ++ root ++ ">").toList ++ (m.render.toList ++
        (("</" ++ root ++ ">").toList ++ '\n' :: r.toList)) := by
  have hdecl : (document root m ++ r).toList = declaration ++
      (("<" ++ root ++ ">").toList ++ (m.render.toList ++
        (("</" ++ root ++ ">").toList ++ '\n' :: r.toList))) := by
    have hlit : "<?xml version=\"1.0\"?>\n<".toList = declaration ++ ['<'] := by decide
    unfold document
    simp only [String.toList_append, hlit, List.append_assoc]
    rfl
  have hprefix : declaration.isPrefixOf (document root m ++ r).toList = true := by
    rw [List.isPrefixOf_iff_prefix, hdecl]
    exact List.prefix_append _ _
  rw [body, if_pos hprefix, hdecl, List.drop_left]

/-- What the scanner makes of a written document. -/
theorem doc_document {root : String} {m : Markup} (hroot : isName root = true)
    (hnamed : m.Named) (hlegal : m.Legal) :
    ∃ k, doc (document root m) = some ⟨strtoupper root, k⟩ ∧
      Delivery OnePiecePerRun [] m k := by
  obtain ⟨k, hdel, hscan⟩ := scan_elem State.init hroot rfl (scans hnamed hlegal _ rfl)
  refine ⟨k, ?_, hdel⟩
  have hbody := body_document root m ""
  rw [String.append_empty] at hbody
  rw [doc, hbody, hscan]
  rfl

/-- With an illegal character there is no document, whatever follows. -/
theorem doc_illegal {root : String} {m : Markup} (hroot : isName root = true) (hnamed : m.Named)
    (hascii : m.Ascii) (h : ¬ m.Legal) (r : String) : doc (document root m ++ r) = none := by
  rw [doc, body_document, scan_append, scan_open hroot rfl, Option.bind_some, scan_append,
    scan_illegal hnamed hascii h _ rfl]
  rfl

end Scanner

open Classical in
/-- The scanner as a parser. It holds events back until a document is complete. -/
noncomputable def scanner : RunExpat where
  doc := Scanner.doc
  accepts s := decide (∃ r, (Scanner.doc (s ++ r)).isSome)
  begun _ := []
  accepts_iff s := by simp
  begun_open _ _ _ := ⟨[], rfl⟩
  reads root m hroot hnamed _ hlegal := by
    obtain ⟨k, hdoc, hdel⟩ := Scanner.doc_document hroot hnamed hlegal
    exact ⟨_, hdoc, rfl, hdel.mono fun _ _ => chunked_of_onePiecePerRun⟩
  rejects root m r hroot hnamed hascii h := Scanner.doc_illegal hroot hnamed hascii h r
  runs root m d hroot hnamed _ hlegal hd := by
    obtain ⟨k, hdoc, hdel⟩ := Scanner.doc_document hroot hnamed hlegal
    rw [hdoc] at hd
    rwa [← Option.some.inj hd]

/-- What the scanner does as a parser. -/
theorem scanner_doc (s : String) : scanner.doc s = Scanner.doc s := rfl

end Xml
end Askozia
