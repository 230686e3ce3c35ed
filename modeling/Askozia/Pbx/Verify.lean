import Mathlib.Computability.RegularExpressions
import Askozia.Php.Compare
import Askozia.Php.Text

/-!
# Forms for providers (`verify.inc`, `guiconfig.inc`, `pbx.inc`)

What a page makes of the fields it was sent: `analog_verify_provider` and its siblings build an element
field by field, and note what is wrong with the fields. An element is only saved when nothing is.
-/

namespace Askozia
namespace Pbx

open Php

/-! ## Texts -/

/-- `sprintf($format, ...)`, for formats with `%s` only. -/
def sprintfChars : List Char → List String → List Char
  | '%' :: 's' :: r, a :: as => a.toList ++ sprintfChars r as
  | c :: r, as => c :: sprintfChars r as
  | [], _ => []

/-- `sprintf($format, ...)`, for formats with `%s` only. -/
def sprintf (format : String) (args : List String) : String :=
  String.ofList (sprintfChars format.toList args)

/-- `preg_match("/^...$/", $s)`: the end may be before a last line break. -/
def pregMatchLine (matches? : List Char → Bool) (s : List Char) : Bool :=
  matches? s || (s.getLast? == some '\n' && matches? s.dropLast)

/-- `[...]` -/
def regexClass (cs : List Char) : RegularExpression Char :=
  cs.foldr (fun c r => .char c + r) 0

/-- `r+` -/
def regexPlus (r : RegularExpression Char) : RegularExpression Char := r * r.star

/-- Pieces of a text between separators, without the empty ones. -/
def pieces (separator : Char → Bool) : List Char → List (List Char)
  | [] => []
  | c :: r =>
    if separator c then pieces separator r
    else
      match r with
      | [] => [[c]]
      | d :: _ =>
        if separator d then [c] :: pieces separator r
        else
          match pieces separator r with
          | [] => [[c]]
          | p :: ps => (c :: p) :: ps

/-- `preg_split("/[\x0D\x0A]+/", $s, -1, PREG_SPLIT_NO_EMPTY)` -/
def splitLines (s : String) : List String :=
  (pieces (fun c => c == '\r' || c == '\n') s.toList).map String.ofList

/-- `split_and_clean_lines($s)` -/
def splitAndCleanLines (s : String) : List String := (splitLines s).map (trim · " ")

/-- The base64 digit of a value. -/
def base64Char (n : ℕ) : Char :=
  if n < 26 then Char.ofNat ('A'.toNat + n)
  else if n < 52 then Char.ofNat ('a'.toNat + (n - 26))
  else if n < 62 then Char.ofNat ('0'.toNat + (n - 52))
  else if n = 62 then '+'
  else '/'

/-- `base64_encode`, on bytes. -/
def base64EncodeBytes : List ℕ → List Char
  | a :: b :: c :: r =>
    base64Char (a / 4) :: base64Char (16 * (a % 4) + b / 16) ::
      base64Char (4 * (b % 16) + c / 64) :: base64Char (c % 64) :: base64EncodeBytes r
  | [a, b] =>
    [base64Char (a / 4), base64Char (16 * (a % 4) + b / 16), base64Char (4 * (b % 16)), '=']
  | [a] => [base64Char (a / 4), base64Char (16 * (a % 4)), '=', '=']
  | [] => []

/-- `base64_encode($s)` -/
def base64Encode (s : String) : String :=
  String.ofList (base64EncodeBytes (s.toList.map Char.toNat))

/-! ## Patterns -/

/-- The characters of `$incoming_regex`. -/
def incomingChars : List Char := "XNZ0123456789-[].!".toList

/-- The characters of `$outgoing_regex`. -/
def outgoingChars : List Char := "XNZ0123456789-[].!|+*#".toList

/-- `substr_count($s, $c)` for a character. -/
def substrCount (s : List Char) (c : Char) : ℕ := s.count c

/-- The loop over brackets: the rest of the pattern, the position, and where a bracket is open. -/
def bracketError : List Char → ℕ → Option ℕ → Option String
  | [], _, _ => none
  | c :: r, i, isOpen =>
    if c = '[' then
      match isOpen with
      | some _ => some "Nested square brackets are not allowed."
      | none => bracketError r (i + 1) (some i)
    else if c = ']' then
      match isOpen with
      | none => some "Unmatched square bracket."
      | some openIndex =>
        if i - openIndex < 3 then some "Brackets are not needed for less than 2 characters."
        else bracketError r (i + 1) none
    else bracketError r (i + 1) isOpen

/-- `preg_match("/^[0-9\*\#]+\+/", $s)` -/
def hasPrefixDigits (s : List Char) : Bool :=
  let digits := s.takeWhile fun c => c.isDigit || c == '*' || c == '#'
  !digits.isEmpty && (s.drop digits.length).head? == some '+'

/-- The prefix that is removed has a wildcard. -/
def choppedError (s : List Char) : Option String :=
  match strposChars ['|'] s with
  | none => none
  | some pipe =>
    if (s.take pipe).contains '.' then
      some "The wildcard character \".\" is not allowed before a prefix which is to be removed."
    else if (s.take pipe).contains '!' then
      some "The wildcard character \"!\" is not allowed before a prefix which is to be removed."
    else none

/-- `pbx_is_valid_dialpattern($dialpattern, &$error, $incoming)`: the error, if there is one. The
bracket that is still open at the end is not looked at. -/
def pbxIsValidDialpattern (dialpattern : String) (incoming : Bool) : Option String :=
  let s := dialpattern.toList
  let allowed := if incoming then incomingChars else outgoingChars
  if !pregMatchLine (fun t => !t.isEmpty && t.all (allowed.contains ·)) s then
    some "It contains an invalid character"
  else if substrCount s '|' > 1 then
    some "It contains an doubled \"|\" character, only one is allowed."
  else if substrCount s '+' > 1 then
    some "It contains an doubled \"+\" character, only one is allowed."
  else if substrCount s '-' > 1 then
    some "It contains an doubled \"-\" character, only one is allowed."
  else
    match bracketError s 0 none with
    | some error => some error
    | none =>
      match strposChars ['+'] s with
      | some plus =>
        if !hasPrefixDigits s then
          some "Appended prefixes may only contain digits, '*' and '#'."
        else choppedError (s.drop (plus + 1))
      | none => choppedError s

/-- `[a-z0-9]`, in either case. -/
def alphanumerics : RegularExpression Char :=
  regexClass "abcdefghijklmnopqrstuvwxyzABCDEFGHIJKLMNOPQRSTUVWXYZ0123456789".toList

/-- `[0-9]` -/
def digits : RegularExpression Char := regexClass "0123456789".toList

/-- `\s` -/
def spaces : RegularExpression Char := regexClass [' ', '\t', '\n', '\r', '\x0c']

/-- The expression of `pbx_is_valid_callerid_string`. -/
def calleridRegex : RegularExpression Char :=
  regexPlus alphanumerics * regexPlus (spaces * alphanumerics + alphanumerics) * spaces * .char '<' *
    (1 + .char '+' + .char '+' * .char '+') *
    regexPlus (regexPlus digits * regexPlus (spaces * digits + digits)) * .char '>'

/-- `pbx_is_valid_callerid_string($string)` -/
def pbxIsValidCalleridString (string : String) : Bool :=
  pregMatchLine calleridRegex.rmatch string.toList

/-! ## Fields -/

/-- `&$element`, `&$post` and `&$errors`. -/
structure Form where
  element : Val
  post : Val
  errors : List String

namespace Form

/-- `$element[$field] = $value;` -/
def put (f : Form) (field : String) (value : Val) : Form :=
  { f with element := f.element.set (.str field) value }

/-- `$post[$field] = $value;` -/
def repost (f : Form) (field : String) (value : Val) : Form :=
  { f with post := f.post.set (.str field) value }

/-- `$errors[] = $error;` -/
def fail (f : Form) (error : String) : Form := { f with errors := f.errors ++ [error] }

/-- `if ($wrong) $errors[] = $error;` -/
def failIf (f : Form) (wrong : Bool) (error : String) : Form := if wrong then f.fail error else f

end Form

/-- `strlen($v)` as a condition. -/
def strlen (v : Val) : Bool := !v.toStr.toList.isEmpty

/-- `v_strip($s)` -/
def vStrip (s : Val) : Val :=
  if s.isArray then (if s.count != 0 then s else .bool false)
  else if strlen s then s else .bool false

/-- A character of `[\x00-\x08\x0b\x0c\x0e-\x1f]`. -/
def isUnclean (c : Char) : Bool :=
  c.toNat ≤ 8 || c.toNat == 11 || c.toNat == 12 || (14 ≤ c.toNat && c.toNat ≤ 31)

/-- `is_string($v) && preg_match("/[\x00-\x08\x0b\x0c\x0e-\x1f]/", $v)` -/
def isUncleanText : Val → Bool
  | .str s => s.toList.any isUnclean
  | _ => false

/-- `gather_incomingextensionmaps($post)` -/
def gatherIncomingextensionmaps (post : Val) : Val :=
  post.entries.foldl (fun maps e =>
    let key := e.1.toStr
    if (strstr key "destinationid_" && e.2.truthy) || (strstr key "incomingpattern_" && strlen e.2) then
      let words := explode '_' key
      let outer := (Val.str (words[1]?.getD "")).key
      let inner := (Val.str (words[0]?.getD "")).key
      maps.set outer ((maps.idx outer).set inner e.2)
    else maps) (.arr [])

section Fields

variable (gettext : String → String)

/-- `v_cleanliness(&$post, &$errors)` -/
def vCleanliness (f : Form) : Form :=
  f.post.entries.foldl (fun f e => f.failIf (isUncleanText e.2)
    (sprintf (gettext "The field '%s' contains invalid characters.") [e.1.toStr])) f

/-- `v_required($field, $name, ...)` -/
def vRequired (field name : String) (f : Form) : Form :=
  (f.failIf (!strlen (f.post.get field)) (sprintf (gettext "The %s field is required.") [name])).put
    field (f.post.get field)

/-- `v_port(...)` -/
def vPort (f : Form) : Form :=
  let port := f.post.get "port"
  (f.failIf (strlen port && (port.looseLt (.int 1) || (Val.int 65535).looseLt port))
    (gettext "An invalid port was entered.")).put "port" (vStrip port)

/-- `v_numeric($field, $name, ...)`, for a field that is not required. -/
def vNumeric (field name : String) (f : Form) : Form :=
  let value := f.post.get field
  (f.failIf (strlen value && value.toStr.toList.any (!·.isDigit))
    (sprintf (gettext "The %s field must be numeric.") [name])).put field (vStrip value)

/-- The check of one incoming map. -/
def checkIncoming (f : Form) (map : Val) : Form :=
  let pattern := map.get "incomingpattern"
  if pattern.truthy then
    match pbxIsValidDialpattern pattern.toStr true with
    | some error => f.fail (sprintf (gettext "The incoming extension pattern \"%s\" is invalid. %s")
        [pattern.toStr, gettext error])
    | none => f
  else f

/-- `v_incoming_prov_routing(...)` -/
def vIncomingProvRouting (f : Form) : Form :=
  let maps := gatherIncomingextensionmaps f.post
  (maps.vals.foldl (checkIncoming gettext) (f.repost "incomingextensionmap" maps)).put
    "incomingextensionmap" maps

/-- The check of one dial pattern. -/
def checkOutgoing (f : Form) (pattern : String) : Form :=
  match pbxIsValidDialpattern pattern false with
  | some error => f.fail (sprintf (gettext "The outgoing dial-pattern \"%s\" is invalid. %s")
      [pattern, gettext error])
  | none => f

/-- `v_outgoing_prov_routing(...)` -/
def vOutgoingProvRouting (f : Form) : Form :=
  let patterns := splitAndCleanLines (f.post.get "dialpattern").toStr
  (patterns.foldl (checkOutgoing gettext)
    (f.repost "dialpattern" (.ofList (patterns.map .str)))).put
    "dialpattern" (.ofList (patterns.map .str))

/-- `v_outgoing_prov_callerid(...)` -/
def vOutgoingProvCallerid (f : Form) : Form :=
  let source := f.post.get "calleridsource"
  let string := f.post.get "calleridstring"
  ((f.failIf (source.looseEq (.str "string") && !pbxIsValidCalleridString string.toStr)
    (gettext "A valid Caller ID string must be specified.")).put "calleridsource" source).put
    "calleridstring" (vStrip string)

/-- `v_incoming_prov_callerid(...)` -/
def vIncomingProvCallerid (f : Form) : Form :=
  let override := f.post.get "override"
  let string := f.post.get "overridestring"
  ((f.failIf ((override.looseEq (.str "prepend") || override.looseEq (.str "replace")) &&
      !string.truthy)
    (gettext "An incoming Caller ID override string must be specified.")).put "override"
    (if override.looseEq (.str "disable") then .bool false else override)).put
    "overridestring" (vStrip string)

/-- `preg_match("/^.+=.+/", $line)` -/
def isAttribute (line : List Char) : Bool :=
  (line.drop 1).dropLast.contains '='

/-- `v_manualattributes(...)` -/
def vManualattributes (f : Form) : Form :=
  let lines := splitAndCleanLines (f.post.get "manualattributes").toStr
  let stored := vStrip (.str (base64Encode (implode "\n" lines)))
  let f := lines.zipIdx.foldl (fun f (line, i) => f.failIf (!isAttribute line.toList)
    (sprintf (gettext "Manual Attribute line number %s is invalid.") [toString (i + 1)])) f
  (f.put "manualattributes" stored).repost "manualattributes" stored

end Fields

/-- `foreach ($optional as $o) $provider[$o] = v_strip($post[$o]);` -/
def putOptional (fields : List String) (f : Form) : Form :=
  fields.foldl (fun f o => f.put o (vStrip (f.post.get o))) f

/-- `foreach ($trusted as $t) $provider[$t] = $post[$t];` -/
def putTrusted (fields : List String) (f : Form) : Form :=
  fields.foldl (fun f t => f.put t (f.post.get t)) f

/-! ## Providers -/

section Providers

variable (gettext : String → String)

/-- `analog_verify_provider($post, $errors)`: the provider, and what is wrong. -/
def analogVerifyProvider (post : Val) : Val × List String :=
  let f : Form := { element := .arr [], post := post, errors := [] }
  let f := vCleanliness gettext f
  let f := vRequired gettext "name" (gettext "Name") f
  let f := vNumeric gettext "number" (gettext "Number") f
  let f := vIncomingProvRouting gettext f
  let f := vIncomingProvCallerid gettext f
  let f := vOutgoingProvRouting gettext f
  let f := vOutgoingProvCallerid gettext f
  let f := vManualattributes gettext f
  let f := putOptional ["failover", "defaultfax"] f
  let f := putTrusted ["uniqid", "language", "port"] f
  (f.element, f.errors)

end Providers

end Pbx
end Askozia
