import Askozia.Php.Text

/-!
# XML documents and the events a parser reports

The interface of an event-driven XML parser (expat, as PHP's `xml_parse` drives it), with
no commitment to how the parser works:

* `Markup` is the part of the XML syntax the configuration writer produces: elements,
  empty-element tags and escaped character data;
* `Content` is what the parser reports for an element: child elements, and character data
  in the pieces it is handed over in. It is a forest, so one recursion covers an element's
  children and what follows it;
* `Delivery` relates the two: names are folded to upper case, line ends are normalised and
  every run of character data between two tags is cut into pieces;
* `Expat` bundles a parser with the documented behaviour the configuration code relies on.
-/

namespace Askozia
namespace Xml

open Php

/-! ## Events -/

/-- A call of one of the registered handlers. -/
inductive Event where
  | start (name : String)
  | stop (name : String)
  | chars (data : String)
deriving DecidableEq, Repr

/-- The content of an element, in document order. -/
inductive Content where
  | nil
  | text (data : String) (rest : Content)
  | elem (name : String) (kids rest : Content)
deriving DecidableEq, Repr

namespace Content

/-- The handler calls made for a content. -/
def events : Content → List Event
  | nil => []
  | text d r => .chars d :: r.events
  | elem n k r => .start n :: (k.events ++ .stop n :: r.events)

/-- One content after another. -/
def append : Content → Content → Content
  | nil, c => c
  | text d r, c => text d (r.append c)
  | elem n k r, c => elem n k (r.append c)

/-- Puts pieces of character data in front of a content. -/
def texts : List String → Content → Content
  | [], c => c
  | p :: ps, c => text p (texts ps c)

end Content

/-- A document: its root element. -/
structure Doc where
  name : String
  kids : Content
deriving DecidableEq, Repr

/-- The handler calls made for a document. -/
def Doc.events (d : Doc) : List Event := .start d.name :: (d.kids.events ++ [.stop d.name])

/-! ## Markup -/

/-- Element content as it is written to a file. -/
inductive Markup where
  | nil
  | text (s : String) (rest : Markup)
  | elem (name : String) (kids rest : Markup)
  | empty (name : String) (rest : Markup)

/-- First character of a name, in ASCII. -/
def isNameStart (c : Char) : Bool := c.isAlpha || c == '_' || c == ':'

/-- Further characters of a name, in ASCII. -/
def isNameChar (c : Char) : Bool := c.isAlphanum || c == '_' || c == ':' || c == '-' || c == '.'

/-- The string is an XML name. -/
def isName (s : String) : Bool :=
  match s.toList with
  | [] => false
  | c :: cs => isNameStart c && cs.all isNameChar

theorem isNameChar_of_isNameStart {c : Char} (h : isNameStart c = true) : isNameChar c = true := by
  simp only [isNameStart, isNameChar, Char.isAlphanum, Bool.or_eq_true] at h ⊢
  tauto

theorem lt_of_isNameChar {c : Char} (h : isNameChar c = true) : c.toNat < 128 := by
  delta isNameChar Char.isAlphanum Char.isAlpha Char.isUpper Char.isLower Char.isDigit at h
  simp only [Bool.or_eq_true, Bool.and_eq_true, decide_eq_true_eq, beq_iff_eq] at h
  have hle : ∀ {a b : Char}, a.val ≤ b.val → a.toNat ≤ b.toNat := fun h => h
  rcases h with (((h | h) | h) | h) | h
  · rcases h with (h | h) | h
    · exact Nat.lt_of_le_of_lt (hle h.2) (by decide)
    · exact Nat.lt_of_le_of_lt (hle h.2) (by decide)
    · exact Nat.lt_of_le_of_lt (hle h.2) (by decide)
  all_goals subst h; decide

theorem isNameChar_of_isName {n : String} (h : isName n = true) :
    ∀ c ∈ n.toList, isNameChar c = true := by
  unfold isName at h
  split at h
  · simp at h
  · next c cs hn =>
    rw [hn]
    simp only [Bool.and_eq_true, List.all_eq_true] at h
    intro d hd
    rcases List.mem_cons.1 hd with rfl | hd
    · exact isNameChar_of_isNameStart h.1
    · exact h.2 d hd

theorem ascii_of_isName {n : String} (h : isName n = true) : ∀ c ∈ n.toList, c.toNat < 128 :=
  fun c hc => lt_of_isNameChar (isNameChar_of_isName h c hc)

/-- A seven-bit character that XML 1.0 allows in character data. -/
def isLegalChar (c : Char) : Bool :=
  c == '\t' || c == '\n' || c == '\r' || (32 ≤ c.toNat && c.toNat < 128)

/-- Line-end normalisation: the parser sees every line end as a single line feed. -/
def eol : List Char → List Char
  | [] => []
  | '\r' :: '\n' :: r => '\n' :: eol r
  | '\r' :: r => '\n' :: eol r
  | c :: r => c :: eol r

namespace Markup

/-- The text of a content. -/
def render : Markup → String
  | nil => ""
  | text s r => htmlspecialchars s ++ r.render
  | elem n k r => "<" ++ n ++ ">" ++ k.render ++ "</" ++ n ++ ">" ++ r.render
  | empty n r => "<" ++ n ++ "/>" ++ r.render

/-- `N` holds of every element name and `T` of every piece of character data. -/
def Every (N T : String → Prop) : Markup → Prop
  | nil => True
  | text s r => T s ∧ r.Every N T
  | elem n k r => N n ∧ k.Every N T ∧ r.Every N T
  | empty n r => N n ∧ r.Every N T

instance Every.decidable {N T : String → Prop} [DecidablePred N] [DecidablePred T] :
    ∀ m : Markup, Decidable (m.Every N T)
  | nil => isTrue trivial
  | text s r =>
    haveI := Every.decidable (N := N) (T := T) r
    inferInstanceAs (Decidable (T s ∧ r.Every N T))
  | elem n k r =>
    haveI := Every.decidable (N := N) (T := T) k
    haveI := Every.decidable (N := N) (T := T) r
    inferInstanceAs (Decidable (N n ∧ k.Every N T ∧ r.Every N T))
  | empty n r =>
    haveI := Every.decidable (N := N) (T := T) r
    inferInstanceAs (Decidable (N n ∧ r.Every N T))

theorem Every.mono {N N' T T' : String → Prop} (hN : ∀ n, N n → N' n) (hT : ∀ s, T s → T' s) :
    ∀ {m : Markup}, m.Every N T → m.Every N' T'
  | nil, _ => trivial
  | text _ _, h => ⟨hT _ h.1, h.2.mono hN hT⟩
  | elem _ _ _, h => ⟨hN _ h.1, h.2.1.mono hN hT, h.2.2.mono hN hT⟩
  | empty _ _, h => ⟨hN _ h.1, h.2.mono hN hT⟩

theorem Every.and_texts {N T : String → Prop} : ∀ {m : Markup}, m.Every N (fun _ => True) →
    m.Every (fun _ => True) T → m.Every N T
  | nil, _, _ => trivial
  | text _ _, h, h' => ⟨h'.1, h.2.and_texts h'.2⟩
  | elem _ _ _, h, h' => ⟨h.1, h.2.1.and_texts h'.2.1, h.2.2.and_texts h'.2.2⟩
  | empty _ _, h, h' => ⟨h.1, h.2.and_texts h'.2⟩

/-- Every element name is an XML name. -/
def Named (m : Markup) : Prop := m.Every (isName · = true) fun _ => True

/-- All character data is seven-bit. -/
def Ascii (m : Markup) : Prop := m.Every (fun _ => True) fun s => ∀ c ∈ s.toList, c.toNat < 128

/-- All character data consists of characters XML allows. -/
def Legal (m : Markup) : Prop :=
  m.Every (fun _ => True) fun s => ∀ c ∈ s.toList, isLegalChar c = true

instance (m : Markup) : Decidable m.Named := Every.decidable m

instance (m : Markup) : Decidable m.Ascii := Every.decidable m

instance (m : Markup) : Decidable m.Legal := Every.decidable m

end Markup

/-- The text of a document with the declaration the writer puts first. -/
def document (root : String) (m : Markup) : String :=
  "<?xml version=\"1.0\"?>\n<" ++ root ++ ">" ++ m.render ++ "</" ++ root ++ ">\n"

/-! ## Delivery of character data -/

/-- A run may be handed over in any nonempty consecutive pieces. -/
def Chunked (run : List Char) (ps : List String) : Prop :=
  (ps.map String.toList).flatten = eol run ∧ ∀ p ∈ ps, p.toList ≠ []

/-- Characters that are handed over on their own: entities and line feeds. -/
def isBreak (c : Char) : Bool := c == '&' || c == '"' || c == '<' || c == '>' || c == '\n'

/-- Adds a character in front of a run already cut into pieces. -/
def pieceCons (c : Char) : List (List Char) → List (List Char)
  | (d :: run) :: ps =>
    if isBreak c || isBreak d then [c] :: (d :: run) :: ps else (c :: d :: run) :: ps
  | ps => [c] :: ps

/-- A run cut at entities and line feeds, each of which is a piece of its own. -/
def pieces (run : List Char) : List (List Char) := run.foldr pieceCons []

/-- A run handed over in one piece per maximal run between tags, entities and line feeds. -/
def OnePiecePerRun (run : List Char) (ps : List String) : Prop :=
  ps = (pieces (eol run)).map String.ofList

/-- `Delivery R p m c`: with the character data `p` already read and not yet handed over,
the markup `m` is reported as `c`, every run being cut as `R` allows. -/
inductive Delivery (R : List Char → List String → Prop) : List Char → Markup → Content → Prop
  | nil {p ps} : R p ps → Delivery R p .nil (.texts ps .nil)
  | text {p s r c} : Delivery R (p ++ s.toList) r c → Delivery R p (.text s r) c
  | elem {p ps n k ck r cr} : R p ps → Delivery R [] k ck → Delivery R [] r cr →
      Delivery R p (.elem n k r) (.texts ps (.elem (strtoupper n) ck cr))
  | empty {p ps n r cr} : R p ps → Delivery R [] r cr →
      Delivery R p (.empty n r) (.texts ps (.elem (strtoupper n) .nil cr))

theorem Delivery.mono {R R' : List Char → List String → Prop} (h : ∀ p ps, R p ps → R' p ps)
    {p : List Char} {m : Markup} {c : Content} (hd : Delivery R p m c) : Delivery R' p m c := by
  induction hd with
  | nil hp => exact .nil (h _ _ hp)
  | text _ ih => exact .text ih
  | elem hp _ _ ihk ihr => exact .elem (h _ _ hp) ihk ihr
  | empty hp _ ihr => exact .empty (h _ _ hp) ihr

/-! ## The parser -/

/-- The handler calls of a document that has not ended: the elements that are still open,
from the root down, each with its content so far. -/
def openEvents : List (String × Content) → List Event
  | [] => []
  | (n, c) :: r => .start n :: (c.events ++ openEvents r)

/-- The end tags that are missing, added: the content of the enclosing element. -/
def closeUp : List (String × Content) → Content
  | [] => .nil
  | (n, c) :: r => .elem n (c.append (closeUp r)) .nil

/-- An XML parser, with what is documented of expat. Nothing is said about how runs of
character data are cut beyond that the pieces are nonempty and in order. -/
structure Expat where
  /-- The document a text is, if it is well-formed. -/
  doc : String → Option Doc
  /-- `xml_parse` without the final flag succeeds after having been given the text. -/
  accepts : String → Bool
  /-- The events reported for a text that is accepted but is not a whole document. -/
  begun : String → List Event
  /-- Without the final flag, the prefixes of well-formed documents are accepted. -/
  accepts_iff : ∀ s, accepts s = true ↔ ∃ r, (doc (s ++ r)).isSome
  /-- Reported events are properly nested. -/
  begun_open : ∀ s, accepts s = true → doc s = none → ∃ fs, begun s = openEvents fs
  /-- Elements and escaped text are read as what they are. -/
  reads : ∀ root m, isName root = true → m.Named → m.Ascii → m.Legal →
    ∃ d, doc (document root m) = some d ∧ d.name = strtoupper root ∧ Delivery Chunked [] m d.kids
  /-- Nothing that goes on after a forbidden character is well-formed. -/
  rejects : ∀ root m r, isName root = true → m.Named → m.Ascii → ¬ m.Legal →
    doc (document root m ++ r) = none

/-- A parser that hands every run of character data over in one piece between tags, entities
and line feeds. -/
structure RunExpat extends Expat where
  runs : ∀ root m d, isName root = true → m.Named → m.Ascii → m.Legal →
    doc (document root m) = some d → Delivery OnePiecePerRun [] m d.kids

end Xml
end Askozia
