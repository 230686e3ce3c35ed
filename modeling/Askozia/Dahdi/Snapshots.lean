import Askozia.Asterisk.Sections
import Askozia.Dahdi.DialGroups
import Askozia.Dialplan.Arrivals

/-!
# Options in effect at a channel (`dahdi.inc`)

An option of `chan_dahdi.conf` keeps its value until it is set again, and no kind of account sets all of
them: `faxdetect` is only ever switched on, a provider sets no `callerid`, a fax no `language`, and so on.
What an account does not set is what the accounts before it have left.

* `Account.value`: what an account sets an option to for its own channels;
* `snapshot_eq`: the options in effect at the channels of a stanza, and `snapshot_group`: their groups;
* `snapshots_agree_iff`: exactly when they do not depend on the other accounts.
-/

namespace Askozia
namespace Dahdi

open Php Config Pbx Asterisk
open Dialplan (Unbroken unbroken_null unbroken_getElement oneLine oneLine_get oneLine_toStr oneLine_join oneLine_ofList oneLine_append oneLine_eq_true
  oneLine_toString mem_enabled chars_setList chars_elements)

/-! ## What accounts set -/

/-- The options an account of each kind sets for its channels on a port, other than `group`, and before what
is typed in for the account. -/
def Account.options (port : Val) : Account → List (String × String)
  | .analogProvider provider =>
    [("signalling", "fxs_" ++ (port.get "startsignaling").toStr), ("rxgain", (port.get "rxgain").toStr),
      ("txgain", (port.get "txgain").toStr), ("echocancel", taps (port.get "echo-taps"))] ++
    faxes provider ++
    [("busydetect", "yes"), ("busycount", "3"), ("language", (provider.get "language").toStr),
      ("context", (provider.get "uniqid").toStr ++ "-incoming")]
  | .analogPhone phone =>
    [("callerid", callerid phone), ("signalling", "fxo_" ++ (port.get "startsignaling").toStr),
      ("transfer", "yes"), ("callwaiting", "yes"), ("callwaitingcallerid", "yes"),
      ("rxgain", (port.get "rxgain").toStr), ("txgain", (port.get "txgain").toStr),
      ("echocancel", taps (port.get "echo-taps")), ("busydetect", "yes"), ("busycount", "3"),
      ("language", (phone.get "language").toStr), ("context", (phone.get "uniqid").toStr)]
  | .analogFax fax =>
    [("callerid", callerid fax), ("signalling", "fxo_" ++ (port.get "startsignaling").toStr),
      ("rxgain", (port.get "rxgain").toStr), ("txgain", (port.get "txgain").toStr), ("echocancel", "no"),
      ("busydetect", "yes"), ("busycount", "3"), ("context", (fax.get "uniqid").toStr)]
  | .redfoneProvider provider =>
    [("signalling", "pri_cpe"), ("echocancel", taps (spanField port (redfoneSpan provider) "echo-taps")),
      ("language", (provider.get "language").toStr),
      ("context", (provider.get "uniqid").toStr ++ "-incoming")]
  | .isdnProvider provider =>
    [("signalling", (port.get "signaling").toStr), ("rxgain", (port.get "rxgain").toStr),
      ("txgain", (port.get "txgain").toStr), ("echocancel", taps (port.get "echo-taps"))] ++
    faxes provider ++
    [("language", (provider.get "language").toStr),
      ("context", (provider.get "uniqid").toStr ++ "-incoming")] ++
    (["internationalprefix", "nationalprefix", "localprefix", "privateprefix"].filter fun field =>
      (provider.get field).isset).map fun field => (field, (provider.get field).toStr)
  | .isdnPhone phone =>
    [("callerid", callerid phone), ("signalling", "bri_net_ptmp"), ("transfer", "yes"),
      ("callwaiting", "yes"), ("callwaitingcallerid", "yes"), ("facilityenable", "yes"),
      ("overlapdial", "yes"), ("rxgain", (port.get "rxgain").toStr), ("txgain", (port.get "txgain").toStr),
      ("echocancel", taps (port.get "echo-taps")), ("language", (phone.get "language").toStr),
      ("context", (phone.get "uniqid").toStr)]
where
  taps (v : Val) : String := if is v "disable" then "no" else v.toStr
  faxes (provider : Val) : List (String × String) :=
    if (provider.get "defaultfax").truthy then [("faxdetect", "incoming")] else []

/-- What is typed in for an account sets these options. There is no such field for a fax. -/
def Account.typed : Account → List (String × String)
  | .analogFax _ => []
  | a =>
    if (a.owner.2.get "manualattributes").truthy then
      settings (base64Decode (a.owner.2.get "manualattributes").toStr)
    else []

/-- What is set after that. -/
def Account.switchtype (port : Val) : Account → List (String × String)
  | .redfoneProvider provider =>
    [("switchtype", if is (spanField port (redfoneSpan provider) "type") "E1" then "euroisdn" else "national")]
  | _ => []

/-- An option, and what is read of the value that is written for it. -/
def asRead (s : String × String) : String × String := (s.1, readValue s.2)

/-- All that an account sets for its channels on a port, in order. -/
def Account.given (a : Account) (port : Val) : List (String × String) :=
  (a.options port).map asRead ++ a.typed ++ (a.switchtype port).map asRead

/-- What an account sets an option to for its own channels, if it does. -/
def Account.value (a : Account) (port : Val) (option : String) : Option String :=
  lastValue (a.given port) option

/-- What the last of some accounts that sets an option has set it to. -/
def leftBy (before : List Stanza) (option : String) : Option String :=
  before.reverse.findSome? fun s => s.account.value s.port option

/-! ## The text before a channel -/

/-- The text of a line without the end of the line. -/
def ChanLine.body : ChanLine → String
  | comment text => "; " ++ text
  | option key value => key ++ "=" ++ value
  | manual text => text
  | channel value => "channel => " ++ value

/-- The text up to the `channel` line of a stanza, after some other stanzas. -/
def textBefore (g : Globals) (before : List Stanza) (s : Stanza) : String :=
  chanHeader g ++ String.join (before.map Stanza.render) ++ String.join (s.options.map ChanLine.render)

/-- The options in effect at the `channel` line. -/
def snapshot (g : Globals) (before : List Stanza) (s : Stanza) (option : String) : Option String :=
  inEffect (textBefore g before s) option

/-- The `channel` line of a stanza is where its options end. -/
theorem chanDahdiConfGenerate_eq {usort : Usort} {config : Val} {before after : List Stanza} {s : Stanza}
    (h : chanStanzas usort config = before ++ s :: after) :
    ∃ rest, chanDahdiConfGenerate usort (indexed config) =
      textBefore (indexed config) before s ++ ((ChanLine.channel s.channels).render ++ rest) := by
  have htext : chanDahdiConfGenerate usort (indexed config) = chanHeader (indexed config) ++
      String.join ((chanStanzas usort config).map Stanza.render) ++ "\n" := rfl
  have hrender : s.render = String.join (s.options.map ChanLine.render) ++
      (ChanLine.channel s.channels).render ++ "\n" := by
    unfold Stanza.render Stanza.lines
    rw [List.map_append, String.join_append, List.map_singleton, String.join_cons, String.join_nil, String.append_empty]
  refine ⟨"\n" ++ (String.join (after.map Stanza.render) ++ "\n"), ?_⟩
  rw [htext, h, List.map_append, List.map_cons, String.join_append, String.join_cons, hrender, textBefore]
  simp only [String.append_assoc]

/-! ## Reading the lines -/

/-- What a line sets, if no text in it breaks it. -/
def ChanLine.assigns : ChanLine → List (String × String)
  | option key value => [(key, readValue value)]
  | manual text => settings text
  | _ => []

/-- No text breaks the line, but what is typed in. -/
def ChanLine.Plain : ChanLine → Prop
  | option key value => ConfLine.isOptionName key = true ∧ key ≠ "channel" ∧ oneLine value = true
  | manual _ => True
  | comment text => oneLine text = true
  | channel value => oneLine value = true

/-- What some lines set. -/
def linesSet (lines : List ChanLine) : List (String × String) := lines.flatMap fun line => settings line.body

section Reading

variable {key value text rest : String} {line : ChanLine} {lines : List ChanLine} {s : Stanza}
  {before : List Stanza}

/-- Every line of a stanza is ended. -/
theorem ChanLine.render_eq (line : ChanLine) : line.render = line.body ++ "\n" := by
  cases line <;> rfl

/-- A comment sets nothing. -/
theorem settings_comment (h : oneLine text = true) : settings ("; " ++ text) = [] := by
  have hbody : ("; " ++ text).toList = ';' :: ' ' :: text.toList := by
    rw [String.toList_append]
    rfl
  have hline : '\n' ∉ ';' :: ' ' :: text.toList := by simpa using oneLine_eq_true.1 h
  unfold settings
  rw [hbody, explodeChars_of_not_mem hline, List.filterMap_cons_none (assignment?_comment _)]
  rfl

/-- A line that sets an option. -/
theorem settings_option (hkey : ConfLine.isOptionName key = true) (hchannel : key ≠ "channel")
    (hvalue : oneLine value = true) : settings (ChanLine.option key value).body = [(key, readValue value)] := by
  have hbody : (ChanLine.option key value).body.toList = key.toList ++ '=' :: value.toList := by
    rw [ChanLine.body, String.toList_append, String.toList_append, List.append_assoc]
    rfl
  have hline := newline_not_mem_setting hkey (oneLine_eq_true.1 hvalue)
  unfold settings
  rw [hbody, explodeChars_of_not_mem hline, List.filterMap_cons_some (assignment?_setting hkey),
    List.filterMap_nil, List.filter_cons_of_pos (by simpa using hchannel)]
  rfl

/-- The channels are no option. -/
theorem settings_channel (hvalue : oneLine value = true) : settings ("channel => " ++ value) = [] := by
  have hbody : ("channel => " ++ value).toList = "channel => ".toList ++ value.toList := String.toList_append
  have hline : '\n' ∉ "channel => ".toList ++ value.toList := by
    rw [List.mem_append, not_or]
    exact ⟨by decide, oneLine_eq_true.1 hvalue⟩
  have hread : ∀ code : List Char, ∃ v, assignment? ("channel => ".toList ++ code) = some ("channel", v) :=
    fun code => ⟨_, rfl⟩
  obtain ⟨v, hv⟩ := hread value.toList
  unfold settings
  rw [hbody, explodeChars_of_not_mem hline, List.filterMap_cons_some hv]
  rfl

/-- A plain line sets what it assigns. -/
theorem settings_body (h : line.Plain) : settings line.body = line.assigns := by
  cases line with
  | comment text => exact settings_comment h
  | option key value => exact settings_option h.1 h.2.1 h.2.2
  | manual text => rfl
  | channel value => exact settings_channel h

/-- Lines that are plain set what they assign, in order. -/
theorem linesSet_eq (h : ∀ line ∈ lines, line.Plain) : linesSet lines = lines.flatMap ChanLine.assigns :=
  List.flatMap_congr fun line hline => settings_body (h line hline)

/-- They set it in the text too, before whatever follows. -/
theorem settings_render_lines (lines : List ChanLine) (rest : String) :
    settings (String.join (lines.map ChanLine.render) ++ rest) =
      linesSet lines ++ settings rest := by
  have h := settings_lines (lines.map ChanLine.body) rest
  have hrender : lines.map ChanLine.render = (lines.map ChanLine.body).map (· ++ "\n") := by
    rw [List.map_map]
    exact List.map_congr_left fun line _ => line.render_eq
  rw [hrender, h, linesSet, List.flatMap_map]

/-- The same at the end of the text. -/
theorem settings_render_lines_end (lines : List ChanLine) :
    settings (String.join (lines.map ChanLine.render)) = linesSet lines := by
  have h := settings_render_lines lines ""
  rwa [String.append_empty, settings_empty, List.append_nil] at h

/-- What a stanza sets does not depend on what follows it. -/
theorem settings_render (s : Stanza) (rest : String) :
    settings (s.render ++ rest) = linesSet s.lines ++ settings rest := by
  have hempty : ∀ text, settings ("\n" ++ text) = settings text := fun text => settings_line "" text
  rw [Stanza.render, String.append_assoc, settings_render_lines, hempty]

/-- The settings of some stanzas, before whatever follows. -/
theorem settings_render_stanzas (before : List Stanza) (rest : String) :
    settings (String.join (before.map Stanza.render) ++ rest) =
      (before.flatMap fun s => linesSet s.lines) ++ settings rest := by
  induction before with
  | nil => rw [List.map_nil, String.join_nil, String.empty_append, List.flatMap_nil, List.nil_append]
  | cons s r ih =>
    rw [List.map_cons, String.join_cons, String.append_assoc, settings_render, ih, List.flatMap_cons,
      List.append_assoc]

end Reading

/-! ## Stanzas -/

/-- The accounts of a kind that have stanzas. -/
def Lists.of (l : Lists) : Kind → List Val
  | .provider .analog => l.analogProviders
  | .phone .analog => l.analogPhones
  | .fax .analog => l.analogFaxes
  | .provider .isdn => l.isdnProviders
  | .phone .isdn => l.isdnPhones
  | _ => []

/-- What a stanza is written from is an account of the lists, and a port without line breaks. -/
structure WrittenFrom (l : Lists) (s : Stanza) : Prop where
  owner : s.account.owner.2 ∈ Dialplan.enabled (l.of s.account.owner.1)
  port : Unbroken s.port
  portgroup : Unbroken s.portgroup

/-- No text a stanza is written from has a line break. -/
structure Stanza.Whole (s : Stanza) : Prop where
  owner : Unbroken s.account.owner.2
  port : Unbroken s.port
  portgroup : Unbroken s.portgroup

section Stanzas

variable {config x : Val} {g : Globals} {l : Lists} {s : Stanza}

/-- What every turn of a loop over providers keeps, and says of its stanzas. -/
theorem providerLoop_all {body : Val → Val → List Stanza × Val} {Good : Val → Prop} {P : Stanza → Prop}
    {ps : List Val} (hbody : ∀ p ∈ Dialplan.enabled ps, ∀ x, Good x → Good (body p x).2 ∧ ∀ s ∈ (body p x).1, P s)
    (hx : Good x) : Good (providerLoop body ps x).2 ∧ ∀ s ∈ (providerLoop body ps x).1, P s := by
  induction ps generalizing x with
  | nil => exact ⟨hx, fun s hs => absurd hs List.not_mem_nil⟩
  | cons p r ih =>
    have hrest := fun q hq => hbody q (mem_enabled.2
      ⟨List.mem_cons_of_mem _ (mem_enabled.1 hq).1, (mem_enabled.1 hq).2⟩)
    rw [providerLoop]
    split_ifs with hdisabled
    · exact ih hrest hx
    · have hp : p ∈ Dialplan.enabled (p :: r) :=
        mem_enabled.2 ⟨List.mem_cons_self, by simpa using hdisabled⟩
      obtain ⟨hgood, hturn⟩ := hbody p hp x hx
      obtain ⟨hafter, hothers⟩ := ih hrest hgood
      exact ⟨hafter, fun s hs => (List.mem_append.1 hs).elim (hturn s) (hothers s)⟩

/-- The ports of a provider and the port group that is left over come from the configuration. -/
theorem unbroken_providerPorts (hg : Unbroken g.config) (p : Val) (hx : Unbroken x) :
    Unbroken (providerPorts g p x).2 ∧ ∀ port ∈ (providerPorts g p x).1, Unbroken port := by
  rw [providerPorts_eq, portgroupAfter_singleton]
  dsimp only
  constructor
  · split_ifs
    · exact unbroken_getElement hg _ _
    · exact hx
  · unfold portsOf
    intro port hport
    split_ifs at hport
    · rw [List.mem_singleton.1 hport]
      exact unbroken_getElement hg _ _
    · obtain ⟨member, -, rfl⟩ := List.mem_map.1 hport
      exact unbroken_getElement hg _ _
    · cases hport

/-- The stanzas of an analog provider are written from accounts that are stored. -/
theorem writtenFrom_analogProvider {p : Val} (hg : Unbroken g.config)
    (hp : p ∈ Dialplan.enabled (l.of (.provider .analog))) (hx : Unbroken x) :
    Unbroken (analogProvider g p x).2 ∧ ∀ s ∈ (analogProvider g p x).1, WrittenFrom l s := by
  obtain ⟨hafter, hports⟩ := unbroken_providerPorts hg p hx
  refine ⟨hafter, fun s hs => ?_⟩
  obtain ⟨pport, hport, rfl⟩ := List.mem_map.1 hs
  exact ⟨hp, hports _ hport, hafter⟩

/-- So are those of an ISDN provider. -/
theorem writtenFrom_isdnProvider {p : Val} (hg : Unbroken g.config)
    (hp : p ∈ Dialplan.enabled (l.of (.provider .isdn))) (hx : Unbroken x) :
    Unbroken (isdnProvider g p x).2 ∧ ∀ s ∈ (isdnProvider g p x).1, WrittenFrom l s := by
  obtain ⟨hafter, hports⟩ := unbroken_providerPorts hg p hx
  unfold isdnProvider
  dsimp only
  split_ifs
  · refine ⟨hx, fun s hs => ?_⟩
    rw [List.mem_singleton.1 hs]
    exact ⟨hp, unbroken_getElement hg _ _, hx⟩
  · refine ⟨hafter, fun s hs => ?_⟩
    obtain ⟨pport, hport, rfl⟩ := List.mem_map.1 hs
    exact ⟨hp, hports _ hport, hafter⟩
  · exact ⟨hx, fun s hs => absurd hs List.not_mem_nil⟩

/-- So are those of the phones and the faxes. -/
theorem writtenFrom_accountLoop {account : Val → Account} {k : Kind} (hg : Unbroken g.config)
    (haccount : ∀ e, (account e).owner = (k, e)) (hs : s ∈ accountLoop g account (l.of k)) :
    WrittenFrom l s := by
  obtain ⟨e, he, rfl⟩ := List.mem_map.1 hs
  obtain ⟨he, hset⟩ := List.mem_filter.1 he
  refine ⟨?_, unbroken_getElement hg _ _, unbroken_null⟩
  dsimp only
  rw [haccount]
  exact mem_enabled.2 ⟨he, by simpa using hset⟩

/-- Every stanza is written from the lists. -/
theorem writtenFrom_stanzas (hg : Unbroken g.config) (hs : s ∈ stanzas g l) : WrittenFrom l s := by
  have hanalog := providerLoop_all (P := WrittenFrom l)
    (fun p (hp : p ∈ Dialplan.enabled l.analogProviders) x hx => writtenFrom_analogProvider hg hp hx)
    unbroken_null
  have hisdn := providerLoop_all (P := WrittenFrom l)
    (fun p (hp : p ∈ Dialplan.enabled l.isdnProviders) x hx => writtenFrom_isdnProvider hg hp hx) hanalog.1
  -- the five loops, in the order of the generator
  rcases List.mem_append.1 hs with hs | hs
  · rcases List.mem_append.1 hs with hs | hs
    · rcases List.mem_append.1 hs with hs | hs
      · rcases List.mem_append.1 hs with hs | hs
        · exact hanalog.2 s hs
        · exact writtenFrom_accountLoop hg (k := .phone .analog) (fun _ => rfl) hs
      · exact writtenFrom_accountLoop hg (k := .fax .analog) (fun _ => rfl) hs
    · exact hisdn.2 s hs
  · exact writtenFrom_accountLoop hg (k := .phone .isdn) (fun _ => rfl) hs

/-- Fetching a list breaks no line. -/
theorem unbroken_getSortedCopy (usort : Usort) (cmp : Val → Val → ℤ) (k : Kind) (hg : Unbroken g.config) :
    (∀ p ∈ (getSortedCopy usort cmp k g).1, Unbroken p) ∧ Unbroken (getSortedCopy usort cmp k g).2.config := by
  have hinit : Unbroken (initList k g).config := by
    unfold initList
    split_ifs
    · exact hg
    · exact fun hmem => hg (chars_setList (List.nil_subset _) hmem)
  refine ⟨fun p hp hmem => hinit ?_, hinit⟩
  exact chars_elements ((usort.perm _ _).mem_iff.1 hp) hmem

/-- Fetching the lists breaks nothing. -/
theorem unbroken_fetchLists (usort : Usort) (hg : Unbroken g.config) :
    (∀ k, ∀ p ∈ (fetchLists usort g).1.of k, Unbroken p) ∧ Unbroken (fetchLists usort g).2.config := by
  have h₁ := unbroken_getSortedCopy usort pbxSortByName (.provider .analog) hg
  have h₂ := unbroken_getSortedCopy usort pbxSortByExtension (.phone .analog) h₁.2
  have h₃ := unbroken_getSortedCopy usort pbxSortByExtension (.fax .analog) h₂.2
  have h₄ := unbroken_getSortedCopy usort pbxSortByName (.provider .isdn) h₃.2
  have h₅ := unbroken_getSortedCopy usort pbxSortByExtension (.phone .isdn) h₄.2
  refine ⟨fun k p hp => ?_, h₅.2⟩
  unfold Lists.of at hp
  split at hp
  · exact h₁.1 p hp
  · exact h₂.1 p hp
  · exact h₃.1 p hp
  · exact h₄.1 p hp
  · exact h₅.1 p hp
  · cases hp

/-- So every stanza of the file is written from an account that is stored. -/
theorem writtenFrom_chanStanzas (usort : Usort) (hconfig : Unbroken config)
    (hs : s ∈ chanStanzas usort config) : WrittenFrom (fetchLists usort (indexed config)).1 s :=
  writtenFrom_stanzas (unbroken_fetchLists usort hconfig).2 hs

/-- Its fields are on one line each. -/
theorem whole_chanStanzas (usort : Usort) (hconfig : Unbroken config) (hs : s ∈ chanStanzas usort config) :
    s.Whole := by
  have hwritten := writtenFrom_chanStanzas usort hconfig hs
  have hmem := (mem_enabled.1 hwritten.owner).1
  exact ⟨(unbroken_fetchLists usort hconfig).1 _ _ hmem, hwritten.port, hwritten.portgroup⟩

end Stanzas

/-! ## Stanzas and accounts -/

section Values

variable {s : Stanza} {before : List Stanza} {option : String} {g : Globals}

/-- An integer is written on one line. -/
theorem oneLine_toString_int (n : ℤ) : oneLine (toString n) = true := by
  cases n with
  | ofNat n => exact oneLine_toString n
  | negSucc n =>
    show oneLine ("-" ++ toString (n + 1)) = true
    rw [oneLine_append, oneLine_toString]
    rfl

/-- So is the value of `group`. -/
theorem oneLine_groupValue {portgroup port : Val} (hgroup : Unbroken portgroup) (hport : Unbroken port) :
    oneLine (groupValue portgroup port) = true := by
  unfold groupValue
  split_ifs
  · rw [oneLine_append, oneLine_append, oneLine_get hport, oneLine_get hgroup]
    rfl
  · exact oneLine_get hport _

/-- An option is a plain line if its value is one line. -/
theorem plain_option {key value : String} (hkey : (ConfLine.isOptionName key && key != "channel") = true)
    (hvalue : oneLine value = true) : (ChanLine.option key value).Plain := by
  rw [Bool.and_eq_true, bne_iff_ne] at hkey
  exact ⟨hkey.1, hkey.2, hvalue⟩

/-- The manual attributes are plain lines, and so are the other parts of a stanza. -/
theorem plain_manualAttributes (account : Val) : ∀ line ∈ manualAttributes account, line.Plain := by
  unfold manualAttributes
  split_ifs
  · exact List.forall_mem_cons.2 ⟨rfl, List.forall_mem_cons.2 ⟨trivial, List.forall_mem_singleton.2 rfl⟩⟩
  · exact fun line hline => absurd hline List.not_mem_nil


theorem plain_gains {port : Val} (h : Unbroken port) : ∀ line ∈ gains port, line.Plain :=
  List.forall_mem_cons.2 ⟨plain_option rfl (oneLine_get h _), List.forall_mem_singleton.2
    (plain_option rfl (oneLine_get h _))⟩

theorem plain_echocancel {taps : Val} (h : Unbroken taps) : (echocancel taps).Plain := by
  unfold echocancel
  split_ifs
  · exact plain_option rfl rfl
  · exact plain_option rfl (oneLine_toStr h)

theorem plain_faxdetect (provider : Val) : ∀ line ∈ faxdetect provider, line.Plain := by
  unfold faxdetect
  split_ifs
  · exact List.forall_mem_singleton.2 (plain_option rfl rfl)
  · exact fun line hline => absurd hline List.not_mem_nil

theorem plain_dialPrefixes {provider : Val} (h : Unbroken provider) :
    ∀ line ∈ dialPrefixes provider, line.Plain := by
  intro line hline
  obtain ⟨field, hfield, hsome⟩ := List.mem_filterMap.1 hline
  split_ifs at hsome
  obtain rfl := Option.some.inj hsome
  have hnames : ∀ field ∈ ["internationalprefix", "nationalprefix", "localprefix", "privateprefix"],
      (ConfLine.isOptionName field && field != "channel") = true := by decide
  exact plain_option (hnames field hfield) (oneLine_get h field)

/-- No text of an account or a port breaks a line of the options. -/
theorem plain_options (h : s.Whole) : ∀ line ∈ s.options, line.Plain := by
  obtain ⟨account, port, portgroup⟩ := s
  obtain ⟨howner, hport, hgroup⟩ := h
  have hbase : oneLine (port.get "basechannel").toStr = true := oneLine_get hport _
  have hvalue := oneLine_groupValue hgroup hport
  have hgains := plain_gains hport
  have hecho := plain_echocancel (hport.get "echo-taps")
  have hstart : ∀ text : String, oneLine text = true →
      oneLine (text ++ (port.get "startsignaling").toStr) = true := fun text htext =>
    oneLine_join htext (oneLine_get hport _)
  -- what is put together from texts without a line break has none
  have hcallerid : ∀ e : Val, Unbroken e → oneLine (callerid e) = true := fun e he =>
    oneLine_join (oneLine_join (oneLine_join (oneLine_get he _) rfl) (oneLine_get he _)) rfl
  have hincoming : ∀ e : Val, Unbroken e → oneLine ((e.get "uniqid").toStr ++ "-incoming") = true :=
    fun e he => oneLine_join (oneLine_get he _) rfl
  have hcomment : ∀ (text : String) (e : Val) (f : String), oneLine text = true → Unbroken e →
      oneLine (text ++ (e.get f).toStr) = true := fun text e f htext he =>
    oneLine_join htext (oneLine_get he _)
  have hport' : ∀ e : Val, Unbroken e → oneLine ("Provider: " ++ (e.get "name").toStr ++
      ", Port " ++ (port.get "name").toStr) = true := fun e he =>
    oneLine_join (oneLine_join (hcomment _ e _ rfl he) rfl) (oneLine_get hport _)
  have hspan : ∀ p : Val, (echocancel (spanField port (redfoneSpan p) "echo-taps")).Plain := fun p =>
    plain_echocancel (hport.get _)
  unfold Stanza.options
  -- the lines of each kind, in the order in which it writes them
  cases account with
  | analogProvider p =>
    have hp : Unbroken p := howner
    simp only [List.forall_mem_append, List.forall_mem_cons, List.not_mem_nil, IsEmpty.forall_iff,
      implies_true, and_true]
    exact ⟨⟨⟨⟨⟨⟨hport' p hp, plain_option rfl (hstart _ rfl)⟩, hgains⟩, hecho⟩, plain_faxdetect p⟩,
      plain_option rfl rfl, plain_option rfl rfl, plain_option rfl (oneLine_get hp _),
      plain_option rfl (hincoming p hp), plain_option rfl hvalue⟩, plain_manualAttributes p⟩
  | analogPhone p =>
    have hp : Unbroken p := howner
    simp only [List.forall_mem_append, List.forall_mem_cons, List.not_mem_nil, IsEmpty.forall_iff,
      implies_true, and_true]
    exact ⟨⟨⟨⟨⟨hcomment _ p _ rfl hp, plain_option rfl (hcallerid p hp), plain_option rfl (hstart _ rfl),
      plain_option rfl rfl, plain_option rfl rfl, plain_option rfl rfl⟩, hgains⟩, hecho⟩,
      plain_option rfl rfl, plain_option rfl rfl, plain_option rfl (oneLine_get hp _),
      plain_option rfl (oneLine_get hp _), plain_option rfl hbase⟩, plain_manualAttributes p⟩
  | analogFax p =>
    have hp : Unbroken p := howner
    simp only [List.forall_mem_append, List.forall_mem_cons, List.not_mem_nil, IsEmpty.forall_iff,
      implies_true, and_true]
    exact ⟨⟨⟨hcomment _ p _ rfl hp, plain_option rfl (hcallerid p hp), plain_option rfl (hstart _ rfl)⟩,
      hgains⟩, plain_option rfl rfl, plain_option rfl rfl, plain_option rfl rfl,
      plain_option rfl (oneLine_get hp _), plain_option rfl hbase⟩
  | redfoneProvider p =>
    have hp : Unbroken p := howner
    simp only [List.forall_mem_append, List.forall_mem_cons, List.not_mem_nil, IsEmpty.forall_iff,
      implies_true, and_true]
    refine ⟨⟨⟨hcomment _ p _ rfl hp, plain_option rfl rfl, hspan p, plain_option rfl (oneLine_get hp _),
      plain_option rfl (hincoming p hp), plain_option rfl (oneLine_toString_int _)⟩,
      plain_manualAttributes p⟩, ?_⟩
    split_ifs
    · exact plain_option rfl rfl
    · exact plain_option rfl rfl
  | isdnProvider p =>
    have hp : Unbroken p := howner
    simp only [List.forall_mem_append, List.forall_mem_cons, List.not_mem_nil, IsEmpty.forall_iff,
      implies_true, and_true]
    exact ⟨⟨⟨⟨⟨⟨⟨hport' p hp, plain_option rfl (oneLine_get hport _)⟩, hgains⟩, hecho⟩, plain_faxdetect p⟩,
      plain_option rfl (oneLine_get hp _), plain_option rfl (hincoming p hp), plain_option rfl hvalue⟩,
      plain_dialPrefixes hp⟩, plain_manualAttributes p⟩
  | isdnPhone p =>
    have hp : Unbroken p := howner
    simp only [List.forall_mem_append, List.forall_mem_cons, List.not_mem_nil, IsEmpty.forall_iff,
      implies_true, and_true]
    exact ⟨⟨⟨⟨⟨hcomment _ p _ rfl hp, plain_option rfl (hcallerid p hp), plain_option rfl rfl,
      plain_option rfl rfl, plain_option rfl rfl, plain_option rfl rfl, plain_option rfl rfl,
      plain_option rfl rfl⟩, hgains⟩, hecho⟩, plain_option rfl (oneLine_get hp _),
      plain_option rfl (oneLine_get hp _), plain_option rfl hbase⟩, plain_manualAttributes p⟩

/-- The channels of a stanza are on one line. -/
theorem oneLine_channels (h : s.Whole) : oneLine s.channels = true := by
  obtain ⟨account, port, portgroup⟩ := s
  have hbase : oneLine (port.get "basechannel").toStr = true := oneLine_get h.port _
  have hpair : oneLine ((port.get "basechannel").toStr ++ "-" ++ plus (port.get "basechannel") 1) = true :=
    oneLine_join (oneLine_join hbase rfl) (oneLine_toString_int _)
  unfold Stanza.channels
  cases account with
  | analogProvider p => exact hbase
  | analogPhone p => exact hbase
  | analogFax p => exact hbase
  | redfoneProvider p =>
    have hdash : oneLine "-" = true := rfl
    have hcomma : oneLine "," = true := rfl
    dsimp only
    split_ifs
    · simp only [oneLine_append, oneLine_toString_int, hdash, hcomma, Bool.and_true]
    · simp only [oneLine_append, oneLine_toString_int, hdash, Bool.and_true]
  | isdnProvider p => exact hpair
  | isdnPhone p => exact hpair

/-! The options of a stanza and those of its account differ in the group only. -/

/-- Settings of `group` do not count for other options. -/
theorem lastValue_filter (hoption : option ≠ "group") (l : List (String × String)) :
    lastValue (l.filter fun a => a.1 ≠ "group") option = lastValue l option := by
  have hfind : ∀ l : List (String × String), (l.filter fun a => a.1 ≠ "group").find? (fun a => a.1 = option) =
      l.find? fun a => a.1 = option := by
    intro l
    rw [List.find?_filter]
    apply List.find?_congr
    intro a _
    by_cases ha : a.1 = option
    · simp [ha, hoption]
    · simp [ha]
  unfold lastValue
  rw [← List.filter_reverse, hfind]

/-- The manual attributes set what was typed. -/
theorem assigns_manualAttributes (account : Val) : (manualAttributes account).flatMap ChanLine.assigns =
    if (account.get "manualattributes").truthy then
      settings (base64Decode (account.get "manualattributes").toStr) else [] := by
  unfold manualAttributes
  split_ifs
  · simp only [List.flatMap_cons, List.flatMap_nil, ChanLine.assigns, List.nil_append, List.append_nil]
  · rfl

/-- The lines about faxes set what the account sets. -/
theorem assigns_faxdetect (provider : Val) : (faxdetect provider).flatMap ChanLine.assigns =
    (Account.options.faxes provider).map asRead := by
  unfold faxdetect Account.options.faxes
  split_ifs
  · rfl
  · rfl

/-- The lines about prefixes set those that are stored. -/
theorem assigns_dialPrefixes (provider : Val) : (dialPrefixes provider).flatMap ChanLine.assigns =
    ((["internationalprefix", "nationalprefix", "localprefix", "privateprefix"].filter fun field =>
      (provider.get field).isset).map fun field => (field, (provider.get field).toStr)).map asRead := by
  unfold dialPrefixes
  generalize ["internationalprefix", "nationalprefix", "localprefix", "privateprefix"] = fields
  induction fields with
  | nil => rfl
  | cons field r ih =>
    rw [List.filterMap_cons, List.filter_cons]
    split_ifs with hset
    · rw [List.map_cons, List.map_cons, ← ih]
      rfl
    · exact ih

/-- The options of a stanza and what its account sets differ in the group only. -/
theorem filter_assigns (s : Stanza) :
    ((s.options.flatMap ChanLine.assigns).filter fun a => a.1 ≠ "group") =
      (s.account.given s.port).filter fun a => a.1 ≠ "group" := by
  obtain ⟨account, port, portgroup⟩ := s
  unfold Stanza.options Account.given Account.options Account.switchtype
  cases account with
  | analogProvider p =>
    have htyped : _ = (Account.analogProvider p).typed := assigns_manualAttributes p
    simp only [List.flatMap_append, List.filter_append, List.map_append, htyped, assigns_faxdetect]
    simp [ChanLine.assigns, gains, echocancel, asRead, Account.options.taps]
  | analogPhone p =>
    have htyped : _ = (Account.analogPhone p).typed := assigns_manualAttributes p
    simp only [List.flatMap_append, List.filter_append, htyped]
    simp [ChanLine.assigns, gains, echocancel, asRead, Account.options.taps]
  | analogFax p => simp [ChanLine.assigns, gains, asRead, Account.typed]
  | redfoneProvider p =>
    have htyped : _ = (Account.redfoneProvider p).typed := assigns_manualAttributes p
    simp only [List.flatMap_append, List.filter_append, htyped]
    simp [ChanLine.assigns, echocancel, asRead, Account.options.taps]
  | isdnProvider p =>
    have htyped : _ = (Account.isdnProvider p).typed := assigns_manualAttributes p
    simp only [List.flatMap_append, List.filter_append, List.map_append, htyped, assigns_faxdetect,
      assigns_dialPrefixes]
    simp [ChanLine.assigns, gains, echocancel, asRead, Account.options.taps]
  | isdnPhone p =>
    have htyped : _ = (Account.isdnPhone p).typed := assigns_manualAttributes p
    simp only [List.flatMap_append, List.filter_append, htyped]
    simp [ChanLine.assigns, gains, echocancel, asRead, Account.options.taps]

/-- What a stanza sets an option to is the value of its account. -/
theorem lastValue_options (h : s.Whole) (hoption : option ≠ "group") :
    lastValue (linesSet s.options) option = s.account.value s.port option := by
  rw [linesSet_eq (plain_options h), ← lastValue_filter hoption, filter_assigns, lastValue_filter hoption]
  rfl

/-- The `channel` line sets nothing. -/
theorem lastValue_lines (h : s.Whole) (hoption : option ≠ "group") :
    lastValue (linesSet s.lines) option = s.account.value s.port option := by
  have hchannel : linesSet [ChanLine.channel s.channels] = [] := by
    unfold linesSet
    rw [List.flatMap_singleton]
    exact settings_channel (oneLine_channels h)
  have hlines : linesSet s.lines = linesSet s.options ++ linesSet [ChanLine.channel s.channels] :=
    List.flatMap_append
  rw [hlines, hchannel, List.append_nil, lastValue_options h hoption]

/-- What the stanzas before leave an option at is what their accounts leave it at. -/
theorem lastValue_before (h : ∀ s ∈ before, s.Whole) (hoption : option ≠ "group") :
    lastValue (before.flatMap fun s => linesSet s.lines) option = leftBy before option := by
  induction before with
  | nil => rfl
  | cons s r ih =>
    -- what `s` sets is hidden by what the later stanzas set
    rw [List.flatMap_cons, lastValue_append, ih fun t ht => h t (List.mem_cons_of_mem _ ht),
      lastValue_lines (h s List.mem_cons_self) hoption, leftBy, leftBy, List.reverse_cons,
      List.findSome?_append, List.findSome?_singleton]

/-- A line that is a comment sets nothing. -/
theorem settings_commentLine {text rest : String} {b : List Char} (h : text.toList = ';' :: b ++ ['\n'])
    (hb : '\n' ∉ b) : settings (text ++ rest) = settings rest := by
  have hline : '\n' ∉ ';' :: b := by simpa using hb
  unfold settings
  rw [String.toList_append, h, List.append_assoc, List.singleton_append, explodeChars_append,
    explodeChars_of_not_mem hline, List.singleton_append, List.filterMap_cons_none (assignment?_comment _)]

/-- The comments above a gateway set nothing. -/
theorem settings_gatewayInfo {gateway : Val} (h : Unbroken gateway) (rest : String) :
    settings (gatewayInfo gateway ++ rest) = settings rest := by
  have hfields := fun f => oneLine_eq_true.1 (oneLine_get h f)
  refine settings_commentLine (b := " Redfone gateway (".toList ++ (gateway.get "gwname").toStr.toList ++
    ") with ".toList ++ (gateway.get "spancount").toStr.toList ++ " spans".toList) ?_ ?_
  · have hstart : "; Redfone gateway (".toList = ';' :: " Redfone gateway (".toList := rfl
    have hend : " spans\n".toList = " spans".toList ++ ['\n'] := rfl
    unfold gatewayInfo
    simp only [String.toList_append, hstart, hend, List.append_assoc, List.cons_append]
  · simp [hfields]

/-- The name of a port is one line. -/
theorem newline_not_mem_portName {port : Val} (h : Unbroken port) : '\n' ∉ (portName port).toList := by
  unfold portName
  split_ifs
  · exact oneLine_eq_true.1 (oneLine_get h _)
  · decide

/-- Nor do those above a port. -/
theorem settings_portInfo {port : Val} (h : Unbroken port) (rest : String) :
    settings (portInfo port ++ rest) = settings rest := by
  have hfields := fun f => oneLine_eq_true.1 (oneLine_get h f)
  have hname := newline_not_mem_portName h
  unfold portInfo
  split_ifs
  · refine settings_commentLine (b := " analog ".toList ++ (port.get "type").toStr.toList ++
      " channel ".toList ++ (port.get "basechannel").toStr.toList ++ " (".toList ++ (portName port).toList ++
      ") is on card ".toList ++ (port.get "card").toStr.toList) ?_ ?_
    · simp
    · simp [hfields, hname]
  · refine settings_commentLine (b := " isdn ".toList ++ (port.get "type").toStr.toList ++
      " port, basechannel ".toList ++ (port.get "basechannel").toStr.toList ++ " (".toList ++
      (portName port).toList ++ ") is on card ".toList ++ (port.get "card").toStr.toList ++ " w/".toList ++
      (port.get "totalchannels").toStr.toList ++ " channels".toList) ?_ ?_
    · simp
    · simp [hfields, hname]
  · rw [String.empty_append]

/-- What sets nothing element by element sets nothing. -/
theorem settings_join_map {α : Type} {xs : List α} {f : α → String} {rest : String}
    (h : ∀ x ∈ xs, ∀ rest, settings (f x ++ rest) = settings rest) :
    settings (String.join (xs.map f) ++ rest) = settings rest := by
  induction xs with
  | nil => rw [List.map_nil, String.join_nil, String.empty_append]
  | cons x r ih =>
    rw [List.map_cons, String.join_cons, String.append_assoc, h x List.mem_cons_self,
      ih fun y hy => h y (List.mem_cons_of_mem _ hy)]

/-- The comments and the headings before the stanzas set nothing. -/
theorem settings_chanHeader (h : Unbroken g.config) (rest : String) :
    settings (chanHeader g ++ rest) = settings rest := by
  have hheadings : settings ("\n[trunkgroups]\n\n[channels]\n" ++ rest) = settings rest := by
    have htext : "\n[trunkgroups]\n\n[channels]\n" =
        String.join (["", "[trunkgroups]", "", "[channels]"].map (· ++ "\n")) := rfl
    rw [htext, settings_lines]
    rfl
  have hgateways : ∀ e ∈ elements g.config .redfoneGateway, ∀ rest, settings (gatewayInfo e ++ rest) = settings rest :=
    fun e he => settings_gatewayInfo fun hmem => h (chars_elements he hmem)
  have hports : ∀ e ∈ dahdiGetPorts g, ∀ rest, settings (portInfo e ++ rest) = settings rest :=
    fun e he => settings_portInfo fun hmem => h (chars_elements he hmem)
  unfold chanHeader
  rw [String.append_assoc, String.append_assoc, String.append_assoc,
    settings_commentLine (b := " Hardware Info".toList) rfl (by decide), settings_join_map hgateways,
    settings_join_map hports, hheadings]

/-- An account's own setting of an option, else what is left by the accounts before it. -/
theorem snapshot_eq (hg : Unbroken g.config) (hs : s.Whole) (hbefore : ∀ t ∈ before, t.Whole)
    (hoption : option ≠ "group") :
    snapshot g before s option = (s.account.value s.port option).or (leftBy before option) := by
  unfold snapshot inEffect textBefore
  rw [String.append_assoc, settings_chanHeader hg, settings_render_stanzas, settings_render_lines_end,
    lastValue_append, lastValue_options hs hoption, lastValue_before hbefore hoption]

/-- Neither a fax nor a dialling prefix sets a group. -/
theorem filter_group_faxes (provider : Val) :
    ((faxdetect provider).flatMap ChanLine.assigns).filter (fun a => a.1 = "group") = [] := by
  unfold faxdetect
  split_ifs
  · rfl
  · rfl

/-- Prefixes are not groups. -/
theorem filter_group_dialPrefixes (provider : Val) :
    ((dialPrefixes provider).flatMap ChanLine.assigns).filter (fun a => a.1 = "group") = [] := by
  have hnames : ∀ field ∈ ["internationalprefix", "nationalprefix", "localprefix", "privateprefix"],
      field ≠ "group" := by decide
  rw [assigns_dialPrefixes, List.map_map, List.filter_eq_nil_iff]
  intro a ha
  obtain ⟨field, hfield, rfl⟩ := List.mem_map.1 ha
  exact fun h => hnames field (List.mem_of_mem_filter hfield) (of_decide_eq_true h)

/-- The group is written before what is typed in for the account, which may set it again. -/
theorem filter_group {p : Val} (hp : s.account.provider? = some p) :
    ((s.options.flatMap ChanLine.assigns).filter fun a => a.1 = "group") =
      ("group", readValue (groupValue s.portgroup s.port)) :: s.account.typed.filter fun a => a.1 = "group" := by
  obtain ⟨account, port, portgroup⟩ := s
  unfold Stanza.options
  cases account with
  | analogProvider p =>
    have htyped : _ = (Account.analogProvider p).typed := assigns_manualAttributes p
    simp only [List.flatMap_append, List.filter_append, htyped, filter_group_faxes]
    simp [ChanLine.assigns, gains, echocancel]
  | isdnProvider p =>
    have htyped : _ = (Account.isdnProvider p).typed := assigns_manualAttributes p
    simp only [List.flatMap_append, List.filter_append, htyped, filter_group_faxes, filter_group_dialPrefixes]
    simp [ChanLine.assigns, gains, echocancel]
  | _ => cases hp

/-- At the `channel` line of a provider the group in effect is the one of its stanza, unless one is typed in
for the account. -/
theorem snapshot_group {p : Val} (hg : Unbroken g.config) (hs : s.Whole) (hp : s.account.provider? = some p)
    (htyped : ∀ a ∈ s.account.typed, a.1 ≠ "group") :
    snapshot g before s "group" = s.group.map readValue := by
  have hnone : s.account.typed.filter (fun a => a.1 = "group") = [] :=
    List.filter_eq_nil_iff.2 fun a ha => by simpa using htyped a ha
  have hlast : lastValue (linesSet s.options) "group" = some (readValue (groupValue s.portgroup s.port)) := by
    have hfilter := filter_group hp
    rw [hnone, ← linesSet_eq (plain_options hs)] at hfilter
    unfold lastValue
    rw [← List.head?_filter, List.filter_reverse, hfilter]
    rfl
  unfold snapshot inEffect textBefore
  rw [String.append_assoc, settings_chanHeader hg, settings_render_stanzas, settings_render_lines_end,
    lastValue_append, hlast, group_provider hp]
  rfl

end Values

/-! ## Agreement -/

/-- At an account with the same port in two configurations the options in effect are the same, its groups
apart, exactly when the last of the accounts before it that set an option it does not set itself have set it
to the same value, or there are none. -/
theorem snapshots_agree_iff {usort : Usort} {config₁ config₂ : Val} {before₁ before₂ after₁ after₂ : List Stanza}
    {s₁ s₂ : Stanza} (hu₁ : Unbroken config₁) (hu₂ : Unbroken config₂)
    (h₁ : chanStanzas usort config₁ = before₁ ++ s₁ :: after₁)
    (h₂ : chanStanzas usort config₂ = before₂ ++ s₂ :: after₂)
    (haccount : s₁.account = s₂.account) (hport : s₁.port = s₂.port) :
    (∃ rest, chanDahdiConfGenerate usort (indexed config₁) =
      textBefore (indexed config₁) before₁ s₁ ++ ((ChanLine.channel s₁.channels).render ++ rest)) ∧
    (∃ rest, chanDahdiConfGenerate usort (indexed config₂) =
      textBefore (indexed config₂) before₂ s₂ ++ ((ChanLine.channel s₂.channels).render ++ rest)) ∧
    ((∀ option, option ≠ "group" →
        snapshot (indexed config₁) before₁ s₁ option = snapshot (indexed config₂) before₂ s₂ option) ↔
      ∀ option, option ≠ "group" → s₁.account.value s₁.port option = none →
        leftBy before₁ option = leftBy before₂ option) := by
  have hwhole : ∀ {config before after s}, Unbroken config → chanStanzas usort config = before ++ s :: after →
      s.Whole ∧ ∀ t ∈ before, t.Whole := by
    intro config before after s hu h
    have hall : ∀ t ∈ before ++ s :: after, t.Whole := fun t ht => whole_chanStanzas usort hu (h ▸ ht)
    obtain ⟨hbefore, hrest⟩ := List.forall_mem_append.1 hall
    exact ⟨hrest s List.mem_cons_self, hbefore⟩
  obtain ⟨hs₁, hbefore₁⟩ := hwhole hu₁ h₁
  obtain ⟨hs₂, hbefore₂⟩ := hwhole hu₂ h₂
  refine ⟨chanDahdiConfGenerate_eq h₁, chanDahdiConfGenerate_eq h₂, ?_⟩
  apply forall_congr'
  intro option
  apply imp_congr_right
  intro hoption
  rw [snapshot_eq hu₁ hs₁ hbefore₁ hoption, snapshot_eq hu₂ hs₂ hbefore₂ hoption, ← haccount, ← hport]
  exact or_eq_or_iff

/-! ## Two configurations -/

/-- Two ports, and some analog providers. -/
def portsAnd (providers : List Val) : Val :=
  .arr [(.str "interfaces", .arr
      [(.str "dahdi-port", .ofList
        [.arr [(.str "uniqid", .str "DAHDIPORT-ANALOG-1"), (.str "basechannel", .str "1")],
          .arr [(.str "uniqid", .str "DAHDIPORT-ANALOG-2"), (.str "basechannel", .str "2")]]),
        (.str "dahdi-portgroup", .ofList [])]),
    (.str "analog", .arr [(.str "provider", .ofList providers)])]

/-- A provider on port 1 whose calls may be faxes. -/
def faxedProvider : Val :=
  .arr [(.str "uniqid", .str "ANALOG-PROVIDER-1"), (.str "name", .str "a"),
    (.str "defaultfax", .str "FAX-ANALOG-1"), (.str "port", .str "DAHDIPORT-ANALOG-1")]

/-- A provider on port 2. -/
def plainProvider : Val :=
  .arr [(.str "uniqid", .str "ANALOG-PROVIDER-2"), (.str "name", .str "b"),
    (.str "port", .str "DAHDIPORT-ANALOG-2")]

/-- Another provider on port 1. -/
def otherProvider : Val :=
  .arr [(.str "uniqid", .str "ANALOG-PROVIDER-3"), (.str "name", .str "a"),
    (.str "port", .str "DAHDIPORT-ANALOG-1")]

/-- The stanza of an analog provider with a port of its own. -/
def singleStanza (provider : Val) (name : String) : Stanza :=
  ⟨.analogProvider provider,
    .arr [(.str "uniqid", .str ("DAHDIPORT-ANALOG-" ++ name)), (.str "basechannel", .str name)],
    .null⟩

/-- One of the providers that are listed has port 2, and is the last one. -/
theorem stanzas_portsAnd : ∀ providers ∈ [[otherProvider], [faxedProvider], []],
    Unbroken (portsAnd (providers ++ [plainProvider])) ∧
      chanStanzas insertionUsort (portsAnd (providers ++ [plainProvider])) =
        (providers.map fun p => singleStanza p "1") ++ singleStanza plainProvider "2" :: [] := by
  decide

/-- A provider without a fax after another one has the options it has when it is alone. -/
theorem snapshots_agree_plain :
    Set.EqOn
      (snapshot (indexed (portsAnd [otherProvider, plainProvider])) [singleStanza otherProvider "1"]
        (singleStanza plainProvider "2"))
      (snapshot (indexed (portsAnd [plainProvider])) [] (singleStanza plainProvider "2"))
      {option | option ≠ "group"} := by
  obtain ⟨hu₁, h₁⟩ := stanzas_portsAnd [otherProvider] (by decide)
  obtain ⟨hu₂, h₂⟩ := stanzas_portsAnd [] (by decide)
  refine (snapshots_agree_iff hu₁ hu₂ h₁ h₂ rfl rfl).2.2.2 ?_
  intro option _ hvalue
  -- both are providers without a fax, so they set the same options
  have hkeys : ((singleStanza otherProvider "1").account.given (singleStanza otherProvider "1").port).map
      Prod.fst = ((singleStanza plainProvider "2").account.given (singleStanza plainProvider "2").port).map
        Prod.fst := by
    decide
  rw [Account.value, lastValue_eq_none_iff, ← hkeys, ← lastValue_eq_none_iff] at hvalue
  rw [List.map_singleton, leftBy, List.reverse_singleton, List.findSome?_singleton, Account.value, hvalue]
  rfl

/-- After a provider with a default fax, `faxdetect` is on for the next one as well. -/
theorem not_agree_after_fax :
    ¬ ∀ (usort : Usort) (config₁ config₂ : Val) (before₁ before₂ after₁ after₂ : List Stanza)
        (s₁ s₂ : Stanza), Unbroken config₁ → Unbroken config₂ →
        chanStanzas usort config₁ = before₁ ++ s₁ :: after₁ →
        chanStanzas usort config₂ = before₂ ++ s₂ :: after₂ →
        s₁.account = s₂.account → s₁.port = s₂.port → ∀ option, option ≠ "group" →
          snapshot (indexed config₁) before₁ s₁ option = snapshot (indexed config₂) before₂ s₂ option := by
  intro h
  obtain ⟨hu₁, h₁⟩ := stanzas_portsAnd [faxedProvider] (by decide)
  obtain ⟨hu₂, h₂⟩ := stanzas_portsAnd [] (by decide)
  have hfax := h insertionUsort _ _ _ _ _ _ _ _ hu₁ hu₂ h₁ h₂ rfl rfl "faxdetect" (by decide)
  have hplain : (singleStanza plainProvider "2").Whole := ⟨by decide, by decide, by decide⟩
  have hfaxed : (singleStanza faxedProvider "1").Whole := ⟨by decide, by decide, by decide⟩
  have hon : snapshot (indexed (portsAnd [faxedProvider, plainProvider])) [singleStanza faxedProvider "1"]
      (singleStanza plainProvider "2") "faxdetect" = _ :=
    snapshot_eq hu₁ hplain (List.forall_mem_singleton.2 hfaxed) (by decide)
  have hoff : snapshot (indexed (portsAnd [plainProvider])) [] (singleStanza plainProvider "2") "faxdetect" = _ :=
    snapshot_eq hu₂ hplain (fun t ht => by cases ht) (by decide)
  have hsame := hon.symm.trans (hfax.trans hoff)
  revert hsame
  decide

end Dahdi
end Askozia
