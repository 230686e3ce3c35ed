import Askozia.Php.Value
import Askozia.Xml.Document

/-!
# Reading configuration files (`xmlparse.inc`)

The event-driven reader behind `xml_to_array`. Its state is the four globals of the source:
`$depth`, `$curpath`, `$xml_array` and `$havedata`. The handlers walk a reference down
`$curpath` on every call; `followPath` is that walk, with PHP's rules for what a reference
into a missing key, an empty string or a nonempty string does.
-/

namespace Askozia
namespace XmlParse

open Php Xml

/-- Tags that are always to be handled as lists. -/
def listtags : List String :=
  ["key", "dnsserver", "route", "shellcmd", "cacert", "earlyshellcmd",
   "phone", "provider", "codec", "room", "dialpattern", "callgroup", "groupmember",
   "incomingextensionmap", "dahdi-port", "dahdi-portgroup", "redfone-gateway", "disk",
   "package", "loadzone", "bridge", "application", "application2", "manager-user",
   "read-permission", "write-permission", "app-command", "manual-attribute", "manual-file",
   "fax", "outgoingcalleridmap"]

/-- `$g['xml_rootobj']` -/
def xmlRootobj : String := "askoziapbx"

/-- The ways reading a file ends the script. -/
inductive Die where
  /-- `Error: could not open XML input` -/
  | couldNotOpen
  /-- `XML error: ... at line ...`, from the parser itself -/
  | notWellFormed
  /-- `XML error: ... cannot occur more than once` -/
  | cannotOccurMoreThanOnce (name : String)
  /-- PHP's fatal error for a reference into a string offset -/
  | stringOffset
  /-- `XML error: no ... object found!` -/
  | noObjectFound (rootobj : String)
deriving DecidableEq, Repr

/-! ## References into arrays -/

/-- The value a reference `$ptr[$k]` starts from: `null` when there is no such key. -/
def look (k : Key) : Val → Val
  | .arr es => (es.lookup k).getD .null
  | _ => .null

/-- Values a reference can be taken into: `null`, `false` and `""` turn into arrays. -/
def opens : Val → Bool
  | .arr _ => true
  | .null => true
  | .bool b => !b
  | .str s => s == ""
  | .int _ => false

/-- `$ptr =& $ptr[$k]`, followed by `f` on what `$ptr` then refers to. -/
def follow (k : Key) (f : Val → Except Die Val) (v : Val) : Except Die Val :=
  if opens v then do
    let w ← f (look k v)
    pure (v.set k w)
  else .error .stringOffset

/-- `foreach ($curpath as $path) $ptr =& $ptr[$path];`, followed by `f` on `*$ptr`. -/
def followPath : List Key → (Val → Except Die Val) → Val → Except Die Val
  | [], f, v => f v
  | k :: ks, f, v => follow k (followPath ks f) v

/-- The value at the end of a path. -/
def valueAt : List Key → Val → Val
  | [], v => v
  | k :: ks, v => valueAt ks (look k v)

/-! ## Handlers -/

/-- The globals of the reader. -/
structure Parser where
  depth : ℕ
  curpath : List Key
  xmlArray : Val
  havedata : ℕ
deriving DecidableEq, Repr

/-- `if (!is_array($ptr)) $ptr = array();` -/
def makeArray (v : Val) : Val := if v.isArray then v else .arr []

/-- `else if (isset($ptr)) die(...)` -/
def onlyOnce (name : String) (v : Val) : Except Die Val :=
  if v.isset then .error (.cannotOccurMoreThanOnce name) else .ok v

/-- `startElement($parser, $name, $attrs)` -/
def startElement (name : String) (st : Parser) : Except Die Parser := do
  let path := st.curpath ++ [.str (strtolower name)]
  if strtolower name ∈ listtags then
    let t ← followPath path (fun v => .ok (makeArray v)) st.xmlArray
    pure { depth := st.depth + 1, curpath := path ++ [.int (valueAt path t).count],
           xmlArray := t, havedata := st.depth + 1 }
  else
    let t ← followPath path (onlyOnce name) st.xmlArray
    pure { depth := st.depth + 1, curpath := path, xmlArray := t, havedata := st.depth + 1 }

/-- `if ($havedata == $depth) { ... $ptr = ""; }`: an element that got no data ends as the
empty string. -/
def fillEmpty (st : Parser) : Except Die Val :=
  if st.havedata = st.depth then followPath st.curpath (fun _ => .ok (.str "")) st.xmlArray
  else .ok st.xmlArray

/-- `endElement($parser, $name)` -/
def endElement (name : String) (st : Parser) : Except Die Parser := do
  let t ← fillEmpty st
  let path := st.curpath.dropLast
  pure { depth := st.depth - 1,
         curpath := if strtolower name ∈ listtags then path.dropLast else path,
         xmlArray := t, havedata := st.havedata }

/-- What `cData` makes of the value at `$curpath`, for data that is not empty once trimmed. -/
def addData (d : String) : Val → Val
  | .str s => .str (s ++ d)
  | v => if trim d " " ≠ "" then .str d else v

/-- `cData` replaces the value and counts `$havedata` up. -/
def startsText (d : String) : Val → Bool
  | .str _ => false
  | _ => trim d " " ≠ ""

/-- `cData($parser, $data)` -/
def cData (data : String) (st : Parser) : Except Die Parser :=
  let d := trim data "\t\n\r"
  if d ≠ "" then do
    let t ← followPath st.curpath (fun v => .ok (addData d v)) st.xmlArray
    pure { st with
      xmlArray := t
      havedata :=
        if startsText d (valueAt st.curpath st.xmlArray) then st.havedata + 1 else st.havedata }
  else pure st

/-- Dispatch of a parser event to its handler. -/
def handle (st : Parser) : Event → Except Die Parser
  | .start n => startElement n st
  | .stop n => endElement n st
  | .chars d => cData d st

/-- The handlers run over the events in turn; a `die` in one ends the run. -/
def handleAll (es : List Event) (st : Parser) : Except Die Parser := es.foldlM handle st

/-- The globals as `xml_to_array` resets them. -/
def Parser.init : Parser := { depth := 0, curpath := [], xmlArray := .arr [], havedata := 0 }

/-! ## The file loop -/

/-- Strings that end `while ($data = fread(...))`. -/
def falsy (data : List Char) : Bool := data == [] || data == ['0']

/-- The blocks `fread($fp, 4096)` returns while the loop runs, each with `feof($fp)` after
the read: the flag is up once a read came up short. The first argument bounds the number
of reads. -/
def freads : ℕ → List Char → List (List Char × Bool)
  | 0, _ => []
  | n + 1, s =>
    let data := s.take 4096
    if falsy data then []
    else (data, data.length < 4096) :: freads n (s.drop 4096)

/-- The blocks of a file, read until the loop ends. -/
def blocks (file : String) : List (List Char × Bool) :=
  freads (file.toList.length + 1) file.toList

/-- What the parser has been given once the loop has ended. -/
def fed (file : String) : String := String.ofList ((blocks file).map Prod.fst).flatten

/-- The last call of `xml_parse` carried the final flag. -/
def fedFinal (file : String) : Bool := (blocks file).any Prod.snd

/-- Every call of `xml_parse` in the loop succeeds: without the final flag on a prefix of a
document, with it on a document. Prefixes of what is accepted are accepted, so what has
been given in the end decides. -/
def parses (X : Expat) (file : String) : Bool :=
  if fedFinal file then (X.doc (fed file)).isSome
  else (blocks file).isEmpty || X.accepts (fed file)

/-- The events the handlers see. -/
def eventsOf (X : Expat) (file : String) : List Event :=
  if (blocks file).isEmpty then []
  else
    match X.doc (fed file) with
    | some d => d.events
    | none => X.begun (fed file)

/-- `xml_to_array($cffile, $rootobj)`, on the contents of the file. -/
def xmlToArray (X : Expat) (file rootobj : String) : Except Die Val := do
  if parses X file then
    let st ← handleAll (eventsOf X file) Parser.init
    let v := look (.str rootobj) st.xmlArray
    if v.truthy then pure v else .error (.noObjectFound rootobj)
  else .error .notWellFormed

end XmlParse
end Askozia
