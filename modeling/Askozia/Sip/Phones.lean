import Askozia.Pbx.Verify
import Askozia.Pbx.Accounts
import Askozia.XmlParse.LineEnds

/-!
# Phones in `sip.conf` (`sip.inc`)

`sip_conf_generate` pastes the fields of a phone into lines as they are. A field with a line end would
add a line of its own, with any option in it. The forms let line ends through; it is the reader of the
configuration that drops them.

* `phone_lines`: the number of lines of a phone follows from the tests that the generator makes.
-/

namespace Askozia
namespace Sip

open Php Config Pbx XmlParse

/-! ## The generator -/

/-- `foreach ($p['codec'] as $codec) if (strlen($codec) > 0) ...`, if it is an array. -/
def codecLines (codec : Val) : String :=
  if codec.isArray then
    String.join (codec.vals.map fun codec => if strlen codec then "allow=" ++ codec.toStr ++ "\n" else "")
  else ""

/-- One phone in the loop of `sip_conf_generate`. -/
def phoneConf (g : Globals) (p : Val) : String :=
  if (p.get "disabled").isset then ""
  else
    "; Caller ID: " ++ (p.get "callerid").toStr ++ "\n" ++
    (if (p.get "descr").truthy then "; Description: " ++ (p.get "descr").toStr ++ "\n" else "") ++
    "[" ++ (p.get "extension").toStr ++ "]\n" ++
    "type=friend\n" ++
    "secret=" ++ (p.get "secret").toStr ++ "\n" ++
    "context=" ++ (p.get "uniqid").toStr ++ "\n" ++
    "callerid=" ++ (p.get "callerid").toStr ++ " <" ++ (p.get "extension").toStr ++ ">\n" ++
    "host=dynamic\n" ++
    "language=" ++ (p.get "language").toStr ++ "\n" ++
    "nat=" ++ (p.get "natmode").toStr ++ "\n" ++
    "dtmfmode=" ++ (p.get "dtmfmode").toStr ++ "\n" ++
    "qualify=yes\n" ++
    "directmedia=no\n" ++
    (if strlen (p.get "busylevel") then "busylevel=" ++ (p.get "busylevel").toStr ++ "\n" else "") ++
    (if (p.get "vmtoemail").looseEq (.str "enabled") &&
        (storageServiceIsActive g "voicemailarchive").truthy then
      "mailbox=" ++ (p.get "extension").toStr ++ "\n" else "") ++
    "disallow=all\n" ++
    codecLines (p.get "codec") ++
    (if (p.get "snom-mac").isset then "snom-mac=" ++ (p.get "snom-mac").toStr ++ "\n" else "") ++
    (if (p.get "manualattributes").truthy then
      "; manual attributes\n" ++ base64Decode (p.get "manualattributes").toStr ++ "\n" ++
        "; end manual attributes\n" else "") ++
    "\n\n"

/-! ## Tests -/

/-- What the generator finds out about a phone. -/
structure Tests where
  disabled : Bool
  descr : Bool
  busylevel : Bool
  mailbox : Bool
  snomMac : Bool
  codecs : ℕ

/-- The tests of the generator. -/
def tests (g : Globals) (p : Val) : Tests where
  disabled := (p.get "disabled").isset
  descr := (p.get "descr").truthy
  busylevel := strlen (p.get "busylevel")
  mailbox := (p.get "vmtoemail").looseEq (.str "enabled") &&
    (storageServiceIsActive g "voicemailarchive").truthy
  snomMac := (p.get "snom-mac").isset
  codecs := if (p.get "codec").isArray then (p.get "codec").vals.countP strlen else 0

/-- The number of lines that follow from the tests. -/
def Tests.lines (r : Tests) : ℕ :=
  if r.disabled then 0
  else 15 + r.descr.toNat + r.busylevel.toNat + r.mailbox.toNat + r.snomMac.toNat + r.codecs

/-- The number of lines of a text. -/
def lineCount (s : String) : ℕ := s.toList.count '\n'

/-! ## Counting lines -/

section Lines

theorem lineCount_append (s t : String) : lineCount (s ++ t) = lineCount s + lineCount t := by
  unfold lineCount
  rw [String.toList_append, List.count_append]

theorem lineCount_of_lacks {s : String} (h : TextLacks isLineEnd s) : lineCount s = 0 := by
  unfold lineCount
  rw [List.count_eq_zero]
  intro hmem
  exact Bool.noConfusion (h _ hmem)

theorem lineCount_if (b : Bool) {s : String} (h : lineCount s = 1) :
    lineCount (if b then s else "") = b.toNat := by
  cases b with
  | false => rfl
  | true => exact h

variable {v : Val}

theorem spares_isLineEnd : Spares isLineEnd := by
  intro c hc
  have hcases : c = '\n' ∨ c = '\r' := by
    simpa [isLineEnd] using hc
  rcases hcases with rfl | rfl <;> decide

/-- A field of a phone has no line of its own. -/
theorem lineCount_field (h : v.Lacks isLineEnd) (field : String) : lineCount (v.get field).toStr = 0 :=
  lineCount_of_lacks (Val.textLacks_toStr spares_isLineEnd (Val.lacks_idx h _))

theorem lineCount_codecLines (h : v.Lacks isLineEnd) :
    lineCount (codecLines v) = if v.isArray then v.vals.countP strlen else 0 := by
  unfold codecLines
  split_ifs with harr
  · have hall : ∀ xs : List Val, (∀ x ∈ xs, x.Lacks isLineEnd) →
        lineCount (String.join (xs.map fun codec =>
          if strlen codec then "allow=" ++ codec.toStr ++ "\n" else "")) = xs.countP strlen := by
      intro xs
      induction xs with
      | nil => exact fun _ => rfl
      | cons x r ih =>
        intro hxs
        have hx : lineCount x.toStr = 0 := lineCount_of_lacks (Val.textLacks_toStr spares_isLineEnd (hxs x List.mem_cons_self))
        have hline : lineCount ("allow=" ++ x.toStr ++ "\n") = 1 := by
          rw [lineCount_append, lineCount_append, hx]
          rfl
        rw [List.map_cons, String.join_cons, lineCount_append, lineCount_if _ hline,
          ih fun y hy => hxs y (List.mem_cons_of_mem _ hy), List.countP_cons]
        cases strlen x <;> simp [Nat.add_comm]
    exact hall v.vals fun x hx => Val.lacks_of_mem_vals h hx
  · rfl

/-- The lines of one phone. -/
theorem lineCount_phoneConf (g : Globals) {p : Val} (h : p.Lacks isLineEnd)
    (hattributes : (p.get "manualattributes").truthy = false) :
    lineCount (phoneConf g p) = (tests g p).lines := by
  unfold phoneConf Tests.lines tests
  dsimp only
  by_cases hdisabled : (p.get "disabled").isset = true
  · rw [if_pos hdisabled, if_pos hdisabled]
    rfl
  · rw [if_neg hdisabled, if_neg hdisabled, hattributes]
    have hdescr : lineCount ("; Description: " ++ (p.get "descr").toStr ++ "\n") = 1 := by
      rw [lineCount_append, lineCount_append, lineCount_field h]
      rfl
    have hbusylevel : lineCount ("busylevel=" ++ (p.get "busylevel").toStr ++ "\n") = 1 := by
      rw [lineCount_append, lineCount_append, lineCount_field h]
      rfl
    have hmailbox : lineCount ("mailbox=" ++ (p.get "extension").toStr ++ "\n") = 1 := by
      rw [lineCount_append, lineCount_append, lineCount_field h]
      rfl
    have hmac : lineCount ("snom-mac=" ++ (p.get "snom-mac").toStr ++ "\n") = 1 := by
      rw [lineCount_append, lineCount_append, lineCount_field h]
      rfl
    have hcodecs : lineCount (codecLines (p.get "codec")) =
        if (p.get "codec").isArray then (p.get "codec").vals.countP strlen else 0 :=
      lineCount_codecLines (Val.lacks_idx h (.str "codec"))
    -- each fixed text has the line ends one sees, and a field has none
    have hliterals : lineCount "\n" = 1 ∧ lineCount "]\n" = 1 ∧ lineCount "type=friend\n" = 1 ∧
        lineCount ">\n" = 1 ∧ lineCount "host=dynamic\n" = 1 ∧ lineCount "qualify=yes\n" = 1 ∧
        lineCount "directmedia=no\n" = 1 ∧ lineCount "disallow=all\n" = 1 ∧ lineCount "\n\n" = 2 := by
      decide
    have hnone : lineCount "; Caller ID: " = 0 ∧ lineCount "[" = 0 ∧ lineCount "secret=" = 0 ∧
        lineCount "context=" = 0 ∧ lineCount "callerid=" = 0 ∧ lineCount " <" = 0 ∧
        lineCount "language=" = 0 ∧ lineCount "nat=" = 0 ∧ lineCount "dtmfmode=" = 0 := by decide
    have hempty : lineCount "" = 0 := rfl
    rw [if_neg Bool.false_ne_true]
    simp only [lineCount_append, lineCount_field h, lineCount_if _ hdescr, lineCount_if _ hbusylevel,
      lineCount_if _ hmailbox, lineCount_if _ hmac, hcodecs, hliterals, hnone, hempty]
    omega

end Lines

/-! ## Saved configurations -/

section Saved

variable {X : Xml.Expat} {t config : Val}

/-- The phones of a configuration without line ends have none. -/
theorem oneLined_element (h : config.Lacks isLineEnd) {k : Kind} {p : Val} (hp : p ∈ elements config k) :
    p.Lacks isLineEnd :=
  Val.lacks_of_mem_vals (Val.lacks_idx (Val.lacks_idx h _) _) hp

/-- **No field adds a line**: nothing in a configuration that was written and read back has a line
end, and the lines of a phone follow from the tests. -/
theorem phone_lines (hX : LineEndsApart (eventsOf X (arrayToXml t xmlRootobj)))
    (h : normalise X t = .ok config) :
    config.Lacks isLineEnd ∧
      ∀ (uniqidMap : Val), ∀ p ∈ elements config (.phone .sip),
        (p.get "manualattributes").truthy = false →
          lineCount (phoneConf { config, uniqidMap } p) = (tests { config, uniqidMap } p).lines := by
  have hlined : config.Lacks isLineEnd := oneLined_xmlToArray hX h
  refine ⟨hlined, ?_⟩
  intro uniqidMap p hp hattributes
  exact lineCount_phoneConf _ (oneLined_element hlined hp) hattributes

end Saved

/-- A phone with a description of two lines. -/
def twoLines : Val :=
  .arr [(.str "sip", .arr [(.str "phone", .ofList [.arr [(.str "uniqid", .str "SIP-PHONE-1"),
    (.str "extension", .str "101"), (.str "descr", .str "a\r\nqualify=no"), (.str "busylevel", .bool false),
    (.str "codec", .ofList [.str "ulaw", .str ""])]])])]

/-- The phone as it is read back. -/
def twoLinesRead : Val :=
  .arr [(.str "sip", .arr [(.str "phone", .ofList [.arr [(.str "uniqid", .str "SIP-PHONE-1"),
    (.str "extension", .str "101"), (.str "descr", .str "aqualify=no"),
    (.str "codec", .ofList [.str "ulaw", .str ""])]])])]

theorem every_twoLines : EverySub (Xml.isName · = true)
    (fun s => ∀ c ∈ s.toList, Xml.isLegalChar c = true) twoLines.entries := by
  have hevery : (markup twoLines).Every (Xml.isName · = true)
      fun s => ∀ c ∈ s.toList, Xml.isLegalChar c = true := by
    decide
  exact (every_markup (by simp) legal_newline legal_tabs twoLines).1 hevery

theorem normalise_twoLines : normalise Xml.scanner.toExpat twoLines = .ok twoLinesRead := by
  rw [normalise_run Xml.scanner every_twoLines]
  decide +kernel

/-- The description is one line, and the phone has as many as the tests say. -/
theorem phone_lines_twoLines :
    LineEndsApart (eventsOf Xml.scanner.toExpat (arrayToXml twoLines xmlRootobj)) ∧
      normalise Xml.scanner.toExpat twoLines = .ok twoLinesRead ∧
      ∀ p ∈ elements twoLinesRead (.phone .sip),
        lineCount (phoneConf { config := twoLinesRead, uniqidMap := .null } p) =
          (tests { config := twoLinesRead, uniqidMap := .null } p).lines := by
  have hapart := lineEndsApart_arrayToXml Xml.scanner every_twoLines
  -- a phone without manual attributes
  have hnone : ∀ p ∈ elements twoLinesRead (.phone .sip),
      (p.get "manualattributes").truthy = false := by decide
  refine ⟨hapart, normalise_twoLines, ?_⟩
  intro p hp
  exact (phone_lines hapart normalise_twoLines).2 .null p hp (hnone p hp)

end Sip
end Askozia
