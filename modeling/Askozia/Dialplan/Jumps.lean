import Askozia.Dialplan.ConfText
import Askozia.Dialplan.Lookup

/-!
# Jumps to contexts

A context is written for an application, a fax, a provider or a phone under one set of conditions,
and jumps to it under others. `jumps_land_iff` compares them: exactly when every context the text
names is one of its headers.
-/

namespace Askozia
namespace Dialplan

open Php Config Pbx Asterisk

/-! ## The contexts there are -/

/-- The application has a context. -/
def hasContext (a : Val) : Bool := is (a.get "type") "php" || is (a.get "type") "plaintext"

/-- The contexts of a provider. -/
def providerContextNames (p : Val) : List String :=
  (if (p.get "defaultfax").truthy || (p.get "incomingextensionmap").count != 0 then
    [(p.get "uniqid").toStr ++ "-incoming"] else []) ++
  (if (p.get "dialpattern").count != 0 then [(p.get "uniqid").toStr] else [])

/-- The contexts of the generated dialplan, those with fixed texts for headers apart. -/
def contextNames (l : Lists) : List String :=
  ((enabled l.applications).filter hasContext).map (fun a => (a.get "uniqid").toStr) ++
  (enabled l.virtualFaxes).map (fun f => (f.get "uniqid").toStr) ++
  ["public-direct-dial", "internal"] ++
  (enabled l.providers).flatMap providerContextNames ++
  (sipGetHostsWithMultipleAccounts l.sipProviders).map
    (fun e => "SIP-PROVIDER-" ++ e.1.toStr ++ "-incoming") ++
  (enabled l.internalPhones ++ enabled l.analogFaxes).flatMap
    (fun p => [(p.get "uniqid").toStr, (p.get "uniqid").toStr ++ "-outgoing"]) ++
  ["outgoing-uri"]

/-- The context a line opens. -/
def Line.context? : Line → Option String
  | context name => some name
  | _ => none

/-- The contexts some lines open. -/
def contexts (lines : List Line) : List String := lines.filterMap Line.context?

section Contexts

variable {g : Globals} {env : Env} {l : Lists} {p : Val}

@[simp] theorem contexts_nil : contexts [] = [] := rfl

/-- Only a heading opens a context. -/
@[simp] theorem contexts_cons_exten (name rest : String) (lines : List Line) :
    contexts (.exten name rest :: lines) = contexts lines := rfl

@[simp] theorem contexts_cons_other (text : String) (lines : List Line) :
    contexts (.other text :: lines) = contexts lines := rfl

@[simp] theorem contexts_cons_unended (text : String) (lines : List Line) :
    contexts (.unended text :: lines) = contexts lines := rfl

@[simp] theorem contexts_cons_context (name : String) (lines : List Line) :
    contexts (.context name :: lines) = name :: contexts lines := rfl

/-- The contexts of two parts of the dialplan, one after the other. -/
@[simp] theorem contexts_append (a b : List Line) :
    contexts (a ++ b) = contexts a ++ contexts b := List.filterMap_append

/-- The contexts of what is written element by element. -/
theorem contexts_flatMap {α : Type} (xs : List α) (f : α → List Line) :
    contexts (xs.flatMap f) = xs.flatMap fun x => contexts (f x) := by
  induction xs with
  | nil => rfl
  | cons x r ih => rw [List.flatMap_cons, List.flatMap_cons, contexts_append, ih]

/-- Nothing that is written element by element opens a context if no element does. -/
theorem contexts_flatMap_nil {α : Type} {xs : List α} {f : α → List Line}
    (h : ∀ x, contexts (f x) = []) : contexts (xs.flatMap f) = [] := by
  rw [contexts_flatMap]
  simp [h]

/-- Nor if each element is one line that does not. -/
theorem contexts_map_nil {α : Type} {xs : List α} {f : α → Line} (h : ∀ x, (f x).context? = none) :
    contexts (xs.map f) = [] := by
  induction xs with
  | nil => rfl
  | cons x r ih =>
    rw [List.map_cons, contexts, List.filterMap_cons, h x]
    exact ih

/-- What is written under a condition opens its contexts under it. -/
@[simp] theorem contexts_linesIf (c : Bool) (a : List Line) :
    contexts (linesIf c a) = if c then contexts a else [] := by
  unfold linesIf
  split_ifs
  · rfl
  · rfl

/-- The generators of extensions open no context: here the variables for notifications. -/
@[simp] theorem contexts_generateCallNotificationVariables (exten : String) (phone : Val) :
    contexts (generateCallNotificationVariables exten phone) = [] := by
  unfold generateCallNotificationVariables
  simp

@[simp] theorem contexts_generateInternalPhoneExtension (fromPublic : Bool)
    (readbacknum extension : Option String) :
    contexts (generateInternalPhoneExtension g p fromPublic readbacknum extension) = [] := by
  unfold generateInternalPhoneExtension
  simp only [contexts_append, contexts_cons_exten, contexts_nil, List.nil_append,
    contexts_generateCallNotificationVariables]
  split <;> rfl

@[simp] theorem contexts_generateExternalPhoneExtension (fromPublic : Bool)
    (readbacknum extension : Option String) :
    contexts (generateExternalPhoneExtension g p fromPublic readbacknum extension) = [] := by
  unfold generateExternalPhoneExtension
  simp only [contexts_append, List.nil_append, contexts_generateCallNotificationVariables]
  split <;> rfl

@[simp] theorem contexts_generateCallgroupExtension (fromPublic : Bool)
    (readbacknum extension : Option String) :
    contexts (generateCallgroupExtension g p fromPublic readbacknum extension) = [] := by
  unfold generateCallgroupExtension
  split_ifs
  · rfl
  · simp

/-- No destination opens a context. -/
@[simp] theorem contexts_generateExtensionFromUniqid (d : Val) (fromPublic : Bool)
    (readbacknum extension : Option String) :
    contexts (generateExtensionFromUniqid g d fromPublic readbacknum extension) = [] := by
  rw [generateExtensionFromUniqid_eq]
  cases destKind d with
  | none => rfl
  | some kind =>
    cases kind with
    | externalPhone =>
      simp only
      split_ifs <;> simp
    | phone =>
      simp only
      split_ifs <;> simp
    | callgroup =>
      simp only
      split_ifs <;> simp
    | impromptu => simp
    | _ => rfl

/-- Nor do the lines that replace the caller id. -/
@[simp] theorem contexts_generateIncomingCalleridOverrides (exten : String)
    (override overridestring : Val) :
    contexts (generateIncomingCalleridOverrides exten override overridestring) = [] := by
  unfold generateIncomingCalleridOverrides
  split_ifs <;> rfl

/-- So no incoming map opens one. -/
@[simp] theorem contexts_incomingPattern (e : Key × Val) : contexts (incomingPattern g p e) = [] := by
  have hexten : ∀ exten faxExten readbacknum destination,
      contexts (incomingExtension g p exten faxExten readbacknum destination) = [] := by
    intro exten faxExten readbacknum destination
    unfold incomingExtension
    simp
  rw [incomingPattern_eq]
  split_ifs
  · exact contexts_flatMap_nil fun c => hexten _ _ _ _
  · exact hexten _ _ _ _
  · exact hexten _ _ _ _

/-- The context for a provider's incoming calls is one context. -/
@[simp] theorem contexts_generateProviderIncomingContext :
    contexts (generateProviderIncomingContext g p) = [(p.get "uniqid").toStr ++ "-incoming"] := by
  unfold generateProviderIncomingContext
  simp only [contexts_append, contexts_cons_context, contexts_cons_other, contexts_cons_exten,
    contexts_nil, contexts_flatMap_nil fun e => contexts_incomingPattern e, List.append_nil]
  split_ifs <;> simp

/-- No outgoing pattern opens a context. -/
@[simp] theorem contexts_outgoingPattern (pattern : Val) :
    contexts (outgoingPattern g p pattern) = [] := by
  unfold outgoingPattern
  simp only [contexts_append]
  split <;> split_ifs <;> rfl

/-- The context for a provider's outgoing calls is one context. -/
@[simp] theorem contexts_generateProviderOutgoingContext :
    contexts (generateProviderOutgoingContext g p) = [(p.get "uniqid").toStr] := by
  unfold generateProviderOutgoingContext
  rw [contexts_cons_context, contexts_flatMap_nil fun pattern => contexts_outgoingPattern pattern]

/-- A provider has the one if it has maps or a default fax, the other if it has patterns. -/
theorem contexts_providerContexts : contexts (providerContexts g p) = providerContextNames p := by
  unfold providerContexts providerContextNames
  simp only [contexts_append, contexts_cons_other, contexts_nil, List.append_nil]
  split_ifs <;> simp

/-- The patterns of a phone open no context. -/
theorem contexts_phoneProviders (phone : Val) (providers : List Val) (cidoverride : Val) :
    contexts (phoneProviders phone providers cidoverride) = [] := by
  induction providers generalizing cidoverride with
  | nil => rfl
  | cons provider r ih =>
    have hpattern : ∀ c pattern, contexts (phonePattern provider c pattern) = [] := by
      intro c pattern
      unfold phonePattern
      simp only [contexts_append]
      split_ifs <;> rfl
    rw [phoneProviders]
    split_ifs
    · rw [contexts_append, ih, contexts_flatMap_nil fun pattern => hpattern _ pattern]
      rfl
    · exact ih _

/-- A phone has two contexts, one for all its calls and one for those outside. -/
theorem contexts_phoneContexts (providers : List Val) (includeUri : Bool) :
    contexts (phoneContexts providers includeUri p) =
      [(p.get "uniqid").toStr, (p.get "uniqid").toStr ++ "-outgoing"] := by
  unfold phoneContexts generatePhoneOutgoingContext
  simp [contexts_phoneProviders]

/-- A host with several accounts has a context of its own. -/
theorem contexts_multiContext (e : Key × Val) :
    contexts (multiContext g e) = ["SIP-PROVIDER-" ++ e.1.toStr ++ "-incoming"] := by
  unfold multiContext
  rw [contexts_append, contexts_map_nil fun _ => rfl]
  rfl

/-- An application has a context if its logic is PHP or plain text. -/
theorem contexts_generateApplicationContext2 :
    contexts (generateApplicationContext2 p) =
      if hasContext p then [(p.get "uniqid").toStr] else [] := by
  unfold generateApplicationContext2 hasContext
  cases hphp : is (p.get "type") "php" with
  | true => simp
  | false =>
    cases htext : is (p.get "type") "plaintext" with
    | true =>
      simp only [Bool.false_eq_true, if_false, if_true, contexts_append, contexts_cons_other,
        contexts_cons_context, contexts_nil, Bool.or_true]
      rw [contexts_map_nil fun _ => rfl, contexts_map_nil fun _ => rfl,
        contexts_map_nil fun _ => rfl]
      rfl
    | false => simp

/-- The extension of an application opens none. -/
@[simp] theorem contexts_generateApplicationExtension (extension : Option String) :
    contexts (generateApplicationExtension p extension) = [] := rfl

@[simp] theorem contexts_generateConferenceRoomExtension (extension : Option String) :
    contexts (generateConferenceRoomExtension p extension) = [] := rfl

@[simp] theorem contexts_generateVirtualFaxExtension (extension : Option String) :
    contexts (generateVirtualFaxExtension p extension) = [] := rfl

@[simp] theorem contexts_generateAnalogFaxExtension (extension : Option String) :
    contexts (generateAnalogFaxExtension g p extension) = [] := rfl

/-- What is written above an internal extension opens none. -/
@[simp] theorem contexts_internalHead (comment exten what : String) :
    contexts (internalHead comment exten what) = [] := rfl

/-- A virtual fax has a context of its own. -/
theorem contexts_generateVirtualFaxContext :
    contexts (generateVirtualFaxContext env g p) = [(p.get "uniqid").toStr] := by
  unfold generateVirtualFaxContext
  simp only [contexts_append, contexts_linesIf]
  split_ifs <;> rfl

/-- What can be called from outside is in one context. -/
theorem contexts_publicDirectDial : contexts (publicDirectDial g l) = ["public-direct-dial"] := by
  have hphone : ∀ p, contexts (publicInternalPhone g p) = [] := by
    intro p
    unfold publicInternalPhone
    split <;> simp
  have hexternal : ∀ p, contexts (publicExternalPhone g p) = [] := by
    intro p
    unfold publicExternalPhone
    simp
  have hgroup : ∀ cg, contexts (publicCallgroup g cg) = [] := by
    intro cg
    unfold publicCallgroup
    simp
  unfold publicDirectDial
  simp only [contexts_append, contexts_flatMap_nil hphone, contexts_flatMap_nil hexternal,
    contexts_flatMap_nil hgroup, contexts_flatMap_nil (f := publicApplication) fun _ => rfl,
    contexts_flatMap_nil (f := publicConferenceRoom) fun _ => rfl]
  rfl

/-- What can be called from inside is in one context. -/
theorem contexts_internalContext : contexts (internalContext g l) = ["internal"] := by
  have hphone : ∀ p, contexts (internalInternalPhone g p) = [] := by
    intro p
    unfold internalInternalPhone
    simp
  have hexternal : ∀ p, contexts (internalExternalPhone g p) = [] := by
    intro p
    unfold internalExternalPhone
    simp
  have hgroup : ∀ cg, contexts (internalCallgroup g cg) = [] := by
    intro cg
    unfold internalCallgroup
    simp
  have hparking : contexts (generateParkinglot g) = [] := by
    unfold generateParkinglot
    rw [contexts_cons_other]
    exact contexts_flatMap_nil fun _ => rfl
  have hhints : contexts (generateHints l.sipPhones) = [] := by
    unfold generateHints
    rw [contexts_append, contexts_map_nil fun _ => rfl]
    rfl
  unfold internalContext
  simp only [contexts_append, contexts_flatMap_nil hphone, contexts_flatMap_nil hexternal,
    contexts_flatMap_nil hgroup, contexts_flatMap_nil (f := internalApplication) fun _ => rfl,
    contexts_flatMap_nil (f := internalConferenceRoom) fun _ => rfl,
    contexts_flatMap_nil (f := internalVirtualFax) fun _ => rfl,
    contexts_flatMap_nil (f := internalAnalogFax g) fun _ => rfl, hparking, hhints]
  rfl

/-- The headings of the macros do not count. -/
theorem contexts_macros : contexts (macros env g) = [] := by
  unfold macros
  simp only [contexts_append]
  split_ifs <;> rfl

/-- The contexts the generated lines open, as the configuration gives them. -/
theorem contexts_confLines : contexts (confLines env l g) = contextNames l := by
  have happs : ∀ a, contexts (generateApplicationContext2 a ++ [.other ""]) =
      if hasContext a then [(a.get "uniqid").toStr] else [] := by
    intro a
    rw [contexts_append, contexts_generateApplicationContext2]
    exact List.append_nil _
  have hfaxes : ∀ f, contexts (generateVirtualFaxContext env g f ++ [.other ""]) =
      [(f.get "uniqid").toStr] := by
    intro f
    rw [contexts_append, contexts_generateVirtualFaxContext]
    rfl
  have hfilter : ∀ as : List Val, (as.flatMap fun a => if hasContext a then [(a.get "uniqid").toStr]
      else []) = (as.filter hasContext).map fun a => (a.get "uniqid").toStr := by
    intro as
    induction as with
    | nil => rfl
    | cons a r ih =>
      rw [List.flatMap_cons, ih, List.filter_cons]
      split_ifs <;> rfl
  unfold confLines contextNames
  simp only [contexts_append, contexts_macros, contexts_flatMap, happs, hfaxes, hfilter,
    contexts_publicDirectDial, contexts_internalContext, contexts_providerContexts,
    contexts_multiContext, contexts_phoneContexts, contexts_cons_other, List.flatMap_append,
    List.nil_append, List.append_assoc, List.cons_append,
    List.map_eq_flatMap]
  rfl

end Contexts

/-! ## The text -/

/-- The context has a header, or Asterisk makes it. -/
def Known (l : Lists) (t : String) : Prop :=
  t = "parkedcalls" ∨ t ∈ contextNames l ∨ t ∈ fixedHeaders

/-- The contexts with logic that is typed in. -/
def typedContexts (l : Lists) : List String :=
  ((enabled l.applications).filter isPlaintext).map fun a => (a.get "uniqid").toStr

/-- Every context the text names has a header in it. Asterisk makes `parkedcalls`, and what is typed
into an application may include anything. -/
def NoMissingContext (l : Lists) (text : String) : Prop :=
  ∀ c e, (c, e) ∈ inContexts "" (entries text) → ∀ t ∈ e.targets, t ≠ "parkedcalls" →
    ¬ (e.isIncludes = true ∧ c ∈ typedContexts l) → t ∈ headers (entries text)

/-- What the configuration jumps to has a context: every application and every destination, the
provider another one fails over to, the accounts of shared hosts, and what is typed in. -/
structure JumpsLand (l : Lists) (g : Globals) : Prop where
  applications : ∀ a ∈ enabled l.applications, Known l (a.get "uniqid").toStr
  providers : ∀ p ∈ enabled l.providers, ProviderLanding (Known l) g p
  accounts : ∀ e ∈ sipGetHostsWithMultipleAccounts l.sipProviders, ∀ id ∈ e.2.vals,
    Known l (((getElement g (.provider .sip) id.toStr).get "uniqid").toStr ++ "-incoming")
  typed : ∀ a ∈ enabled l.applications, isPlaintext a = true → ∀ s ∈ typedLines a,
    isInclude s = false → ∀ t ∈ restTargets s, Known l t

section Texts

variable {T : String → Prop} {env : Env} {l : Lists} {g : Globals} {line : Line} {t : String}

/-- A context is there if its heading is. -/
theorem mem_contexts {lines : List Line} {n : String} : n ∈ contexts lines ↔ .context n ∈ lines := by
  unfold contexts
  rw [List.mem_filterMap]
  constructor
  · rintro ⟨line, hmem, hline⟩
    cases line with
    | context name =>
      rw [← Option.some.inj hline]
      exact hmem
    | _ => cases hline
  · intro h
    exact ⟨_, h, rfl⟩

/-- The macros have the headers with fixed texts. -/
theorem mem_macros_of_fixed {n : String} (h : n ∈ fixedHeaders) :
    ∃ line ∈ macros env g, line.entry.opened = some n := by
  have hmem : ∀ line, line ∈ [Line.other "[globals]", .other "[macro-main];",
      .other "[macro-missedcallmail];", .other "[macro-checkcf]"] → line ∈ macros env g := by
    intro line h
    unfold macros
    simp only [List.mem_cons, List.not_mem_nil, or_false] at h
    rcases h with rfl | rfl | rfl | rfl
    all_goals simp
  simp only [fixedHeaders, List.mem_cons, List.not_mem_nil, or_false] at h
  rcases h with rfl | rfl | rfl | rfl
  · exact ⟨.other "[globals]", hmem _ (by simp), by decide⟩
  · exact ⟨.other "[macro-main];", hmem _ (by simp), by decide⟩
  · exact ⟨.other "[macro-missedcallmail];", hmem _ (by simp), by decide⟩
  · exact ⟨.other "[macro-checkcf]", hmem _ (by simp), by decide⟩

/-- A line that opens a context is one of the text. -/
theorem mem_joined_of_opened (hs : Spelled env l g) (hline : line ∈ confLines env l g)
    (hended : line.unending = false) {n : String} (hn : line.entry.opened = some n) :
    line ∈ joined (confLines env l g) := by
  apply mem_joined_confLines hs hline hended
  intro hidle
  rw [hidle.opened] at hn
  cases hn

/-- The headers of the text, as the configuration gives them. -/
theorem mem_headers_iff (hs : Spelled env l g) {n : String} :
    n ∈ headers (entries (render (confLines env l g))) ↔
      n ∈ contextNames l ∨ n ∈ fixedHeaders := by
  -- a header is a line of the text; the text is what the generator writes, lines joined where one is unended
  have hopened : n ∈ headers (entries (render (confLines env l g))) ↔
      ∃ line ∈ joined (confLines env l g), line.entry.opened = some n := by
    rw [entries_confLines hs, headers, List.mem_filterMap]
    constructor
    · rintro ⟨e, he, hn⟩
      rcases List.mem_append.1 he with he | he
      · obtain ⟨line, hline, rfl⟩ := List.mem_map.1 he
        exact ⟨line, hline, hn⟩
      · rw [List.mem_singleton.1 he] at hn
        cases hn
    · rintro ⟨line, hline, hn⟩
      exact ⟨_, List.mem_append_left _ (List.mem_map_of_mem hline), hn⟩
  have hnames : contexts (confLines env l g) = contextNames l := contexts_confLines
  rw [hopened, ← hnames, mem_contexts]
  constructor
  · rintro ⟨line, hline, hn⟩
    rcases joined_cases hs hline with hproper | htyped | hmessage
    · rcases opened_of_proper hproper hn with rfl | hfixed
      · rcases mem_joined (settled_confLines hs) hline with ⟨hmem, -⟩ | ⟨text, next, -, -, -, hother⟩
        · exact .inl hmem
        · cases hother
      · exact .inr hfixed
    · rw [opened_typed htyped] at hn
      cases hn
    · rw [hmessage.entry] at hn
      cases hn
  · rintro (hcontext | hfixed)
    · have hopens : (Line.context n).entry.opened = some n :=
        entry_context (headerName_of_mem hs hcontext) ▸ rfl
      exact ⟨_, mem_joined_of_opened hs hcontext rfl hopens, hopens⟩
    · obtain ⟨line, hline, hn⟩ : ∃ line ∈ macros env g, line.entry.opened = some n :=
        mem_macros_of_fixed hfixed
      have hbefore := List.mem_append_left
        ((enabled l.applications).flatMap fun a => generateApplicationContext2 a ++ [Line.other ""]) hline
      have hmem : line ∈ confLines env l g := by
        rw [confLines_eq]
        exact List.mem_append_left _ hbefore
      exact ⟨line, mem_joined_of_opened hs hmem (ended_applications hs line hbefore) hn, hn⟩

/-! ## Landing jumps -/

theorem count_ne_zero {v : Val} (h : v.vals ≠ []) : v.count ≠ 0 := by
  cases v with
  | arr es =>
    intro hcount
    apply h
    rw [List.eq_nil_of_length_eq_zero hcount]
    rfl
  | _ => exact absurd rfl h

/-- If all jumps land, each lands in a context that is there. -/
theorem landing_of_jumpsLand (h : JumpsLand l g) : Landing (Known l) l g where
  internal := .inr (.inl (by simp [contextNames]))
  publicDirectDial := .inr (.inl (by simp [contextNames]))
  outgoingUri := .inr (.inl (by simp [contextNames]))
  parkedcalls := .inl rfl
  outgoing := by
    intro p hp
    refine .inr (.inl ?_)
    simp only [contextNames, List.mem_append, List.mem_flatMap]
    exact .inl (.inr ⟨p, List.mem_append.1 hp, by simp⟩)
  dialled := by
    intro p hp hpattern
    have hcount := count_ne_zero hpattern
    refine .inr (.inl ?_)
    simp only [contextNames, List.mem_append, List.mem_flatMap]
    refine .inl (.inl (.inl (.inr ⟨p, hp, ?_⟩)))
    unfold providerContextNames
    rw [if_pos (c := ((p.get "dialpattern").count != 0) = true) (by simpa using hcount)]
    simp
  virtualFaxes := by
    intro f hf
    refine .inr (.inl ?_)
    simp only [contextNames, List.mem_append, List.mem_map]
    exact .inl (.inl (.inl (.inl (.inl (.inr ⟨f, hf, rfl⟩)))))
  applications := h.applications
  providers := h.providers
  accounts := h.accounts

/-- What lines name that are read as they are meant, or are messages. -/
theorem targets_of_allGood {lines : List Line} (h : AllGood T Message lines)
    {context : String} {x : String × Entry} (hx : x ∈ inContexts context (lines.map Line.entry))
    (ht : t ∈ x.2.targets) : T t := by
  obtain ⟨line, hline, heq⟩ := List.mem_map.1 (mem_of_mem_inContexts hx)
  rw [← heq] at ht
  rcases h line hline with hgood | hmessage
  · exact hgood.2 t ht
  · rw [hmessage.entry] at ht
    cases ht

/-- The lines after the header of an application whose logic is typed in. -/
def typedBody (a : Val) : List Line :=
  ((typedLines a).filter isInclude).map .other ++
    ((typedLines a).filter (!isInclude ·)).map (.exten anyExten) ++
    ((typedLines a).filter (!isInclude ·)).map (.exten "s") ++ [.other ""]

/-- A context that was typed has its heading and its lines as they were typed. -/
theorem generateApplicationContext2_typed {a : Val} (h : isPlaintext a = true) :
    generateApplicationContext2 a ++ [.other ""] = .other ("; " ++ (a.get "name").toStr) ::
      .context (a.get "uniqid").toStr :: typedBody a := by
  simp only [isPlaintext, Bool.and_eq_true, Bool.not_eq_true'] at h
  unfold generateApplicationContext2
  simp only [h.1, h.2, Bool.false_eq_true, if_false, if_true]
  rfl

/-- A line after the header is typed in, or blank. -/
theorem mem_typedBody {a : Val} (h : line ∈ typedBody a) :
    line = .other "" ∨ ∃ s ∈ typedLines a,
      if isInclude s then line = .other s else line = .exten anyExten s ∨ line = .exten "s" s := by
  unfold typedBody at h
  simp only [List.mem_append, List.mem_map, List.mem_filter, List.mem_singleton] at h
  rcases h with ((⟨s, ⟨hs, hinclude⟩, rfl⟩ | ⟨s, ⟨hs, hstep⟩, rfl⟩) | ⟨s, ⟨hs, hstep⟩, rfl⟩) | rfl
  · exact .inr ⟨s, hs, by rw [if_pos hinclude]⟩
  · exact .inr ⟨s, hs, by rw [if_neg (by simpa using hstep)]; exact .inl rfl⟩
  · exact .inr ⟨s, hs, by rw [if_neg (by simpa using hstep)]; exact .inr rfl⟩
  · exact .inl rfl

/-- What the context of an application names, what is typed into it to include apart. -/
theorem targets_application (hs : Spelled env l g) (hland : JumpsLand l g) {a : Val}
    (ha : a ∈ enabled l.applications) {context : String} {x : String × Entry}
    (hx : x ∈ inContexts context
      ((generateApplicationContext2 a ++ [Line.other ""]).map Line.entry))
    (ht : t ∈ x.2.targets) (hexcept : ¬ (x.2.isIncludes = true ∧ x.1 ∈ typedContexts l)) :
    Known l t := by
  have hspelled := hs.applications a ha
  -- a PHP application has fixed lines; one that is typed in has lines of its own
  cases htext : isPlaintext a with
  | false =>
    refine targets_of_allGood (AllGood.append ?_ allGood_blank) hx ht
    apply allGood_generateApplicationContext2 hspelled.unbroken hspelled.uniqid
    intro h
    rw [htext] at h
    cases h
  | true =>
    have hcomment : (Line.other ("; " ++ (a.get "name").toStr)).entry = .comment := by
      rw [Line.entry, Line.body, String.toList_append]
      rfl
    have hheader := entry_context (headerName_of_plainId hspelled.uniqid)
    rw [generateApplicationContext2_typed htext, List.map_cons, List.map_cons, hcomment, hheader,
      inContexts, inContexts] at hx
    rcases List.mem_cons.1 hx with rfl | hx
    · cases ht
    · rcases List.mem_cons.1 hx with rfl | hx
      · cases ht
      · have hnone : ∀ e ∈ (typedBody a).map Line.entry, e.opened = none := by
          intro e he
          obtain ⟨line, hline, rfl⟩ := List.mem_map.1 he
          rcases mem_typedBody hline with rfl | ⟨s, hmem, hline⟩
          · rfl
          · exact opened_typed ⟨a, ha, htext, s, hmem, hline⟩
        have hcontext : x.1 ∈ typedContexts l := by
          rw [context_of_mem_inContexts hnone hx]
          exact List.mem_map.2 ⟨a, List.mem_filter.2 ⟨ha, htext⟩, rfl⟩
        obtain ⟨line, hline, heq⟩ := List.mem_map.1 (mem_of_mem_inContexts hx)
        rw [← heq] at ht hexcept
        rcases mem_typedBody hline with rfl | ⟨s, hmem, hline⟩
        · cases ht
        · -- an include that is typed in is left out here, any other line is a step
          split_ifs at hline with hinclude
          · rw [hline] at ht hexcept
            exact absurd ⟨(readLine_of_isInclude hinclude).2 t ht, hcontext⟩ hexcept
          · have hstep := hland.typed a ha htext s hmem (by simpa using hinclude)
            rcases hline with rfl | rfl
            · rw [targets_exten named_anyExten] at ht
              exact hstep t ht
            · rw [targets_exten named_start] at ht
              exact hstep t ht

/-- Then no line of the text goes to a context that is missing. -/
theorem noMissingContext_of_jumpsLand (hs : Spelled env l g) (hland : JumpsLand l g) :
    NoMissingContext l (render (confLines env l g)) := by
  intro c e hmem t ht hpark hexcept
  have hlanding := landing_of_jumpsLand hland
  have hknown : Known l t := by
    rw [entries_confLines hs, joined_confLines_applications hs, List.map_append, List.map_append, inContexts_append,
      inContexts_append, inContexts_append, List.mem_append, List.mem_append, List.mem_append] at hmem
    rcases hmem with ((hmem | hmem) | hmem) | hmem
    · exact targets_of_allGood (allGood_macros hs.config hs.productName hlanding.internal)
        hmem ht
    · rw [List.map_flatMap] at hmem
      obtain ⟨a, ha, c', hmem⟩ := exists_of_mem_inContexts_flatMap hmem
      exact targets_application (x := (c, e)) hs hland ha hmem ht hexcept
    · have hgood := allGood_joined (settled_afterApplications hs)
        (allGood_afterApplications hs hlanding (messages hs fun _ hmessage => hmessage))
        fun _ hmessage => hmessage.tidy
      refine targets_of_allGood (fun line hline => (hgood line hline).imp_right fun h => ?_) hmem ht
      exact h.elim id id
    · rw [inContexts, inContexts, List.mem_singleton] at hmem
      obtain ⟨-, rfl⟩ := Prod.mk.inj hmem
      cases ht
  rw [mem_headers_iff hs]
  exact hknown.resolve_left hpark

/-! ### What the text shows of the configuration -/

/-- A step of the text names a context there is. -/
theorem known_of_mem (hs : Spelled env l g)
    (hno : NoMissingContext l (render (confLines env l g))) {name rest : String}
    (hname : named name = true) (hmem : .exten name rest ∈ confLines env l g)
    (ht : t ∈ restTargets rest) : Known l t := by
  -- a line with a target tells something, so it is still there after the joining
  have htelling : ¬ (Line.exten name rest).Idle := by
    intro hidle
    have hnone := hidle.targets
    rw [targets_exten hname] at hnone
    rw [hnone] at ht
    cases ht
  have hentry : (Line.exten name rest).entry ∈ entries (render (confLines env l g)) := by
    rw [entries_confLines hs]
    exact List.mem_append_left _ (List.mem_map_of_mem (mem_joined_confLines hs hmem rfl htelling))
  obtain ⟨c, hc⟩ := exists_mem_inContexts "" hentry
  -- steps are no includes, so the exception does not apply
  have hstep : (Line.exten name rest).entry.isIncludes = false := by
    rw [entry_exten hname]
    unfold readStep
    split
    · rfl
    · split_ifs
      · rfl
      · split
        · rfl
        · split_ifs
          · rfl
          · rfl
  by_cases hpark : t = "parkedcalls"
  · exact .inl hpark
  · right
    rw [← mem_headers_iff hs]
    apply hno c _ hc t _ hpark
    · rintro ⟨h, -⟩
      rw [hstep] at h
      cases h
    · rw [targets_exten hname]
      exact ht

/-- Where a destination with a context of its own is written, its context is named. -/
theorem exists_of_mem_destTargets {d : Val} (h : t ∈ destTargets g d) (hid : wordId t = true)
    (fromPublic : Bool) (readbacknum : Option String) (exten : String) :
    ∃ rest, .exten exten rest ∈ generateExtensionFromUniqid g d fromPublic readbacknum (some exten) ∧
      t ∈ restTargets rest := by
  have hcomma := wordId_ne hid (x := ',') (by decide)
  have hslash := wordId_ne hid (x := '/') (by decide)
  rw [generateExtensionFromUniqid_eq]
  unfold destTargets at h
  -- only a virtual fax and an application are reached by a jump to a context
  cases hkind : destKind d with
  | none =>
    rw [hkind] at h
    cases h
  | some kind =>
    rw [hkind] at h
    cases kind with
    | virtualFax =>
      rw [List.mem_singleton] at h
      refine ⟨_, List.mem_singleton.2 rfl, ?_⟩
      rw [restTargets_local, h]
      · exact List.mem_singleton_self _
      · rw [← h]
        intro c hc
        constructor
        · rintro rfl
          exact hslash hc
        · rintro rfl
          exact hcomma hc
    | application =>
      rw [List.mem_singleton] at h
      refine ⟨_, List.mem_singleton.2 rfl, ?_⟩
      rw [restTargets_gotoContext, h]
      · exact List.mem_singleton_self _
      · rw [← h]
        exact hcomma
      · decide
    | _ => cases h

/-- A part of the contexts of a provider is part of the dialplan. -/
theorem mem_confLines_of_provider {p : Val} (hp : p ∈ enabled l.providers)
    (h : line ∈ providerContexts g p) : line ∈ confLines env l g := by
  have hmem := List.mem_flatMap_of_mem hp h
  unfold confLines
  simp only [List.mem_append]
  exact .inl (.inl (.inl (.inl (.inl (.inr hmem)))))

/-- What can be called from inside is part of the dialplan. -/
theorem mem_confLines_of_internal (h : line ∈ internalContext g l) : line ∈ confLines env l g := by
  unfold confLines
  simp only [List.mem_append]
  exact .inl (.inl (.inl (.inl (.inl (.inl (.inr h))))))

/-- So is the context for incoming calls of a provider with maps or a default fax. -/
theorem mem_providerContexts_of_incoming {p : Val}
    (hwritten : (p.get "defaultfax").truthy = true ∨ (p.get "incomingextensionmap").count ≠ 0)
    (h : line ∈ generateProviderIncomingContext g p) : line ∈ providerContexts g p := by
  unfold providerContexts
  rw [if_pos (by simpa using hwritten)]
  exact List.mem_append_left _ (List.mem_append_left _ (List.mem_cons_of_mem _ h))

/-- The lines of a pattern are written, under some name. -/
theorem exists_incomingExtension {p : Val} (hp : ProviderSpelled g p) {e : Key × Val}
    (he : e ∈ (grouppedMapping p).entries) : ∃ exten faxExten readbacknum, named exten = true ∧
      ∀ line ∈ incomingExtension g p exten faxExten readbacknum (destinationOf e),
        line ∈ incomingPattern g p e := by
  have hname := hp.incomingpattern e he
  rw [incomingPattern_eq]
  split_ifs
  · refine ⟨"s", "s", providerReadbacknum p, named_start, fun line hline => ?_⟩
    exact List.mem_flatMap.2 ⟨"s", by simp [catchAll], hline⟩
  · exact ⟨_, _, _, hname, fun line hline => hline⟩
  · exact ⟨_, _, _, named_underscore (comma_not_mem_of_named hname) (oneLine_of_named hname),
      fun line hline => hline⟩

/-- A provider that has an entry has maps. -/
theorem incomingextensionmap_of_mem {p : Val} {e : Key × Val}
    (he : e ∈ (grouppedMapping p).entries) : (p.get "incomingextensionmap").count ≠ 0 := by
  apply count_ne_zero
  intro hvals
  rw [grouppedMapping, hvals] at he
  cases he

/-- The other way round: a jump is written for each destination, so each has its context. -/
theorem providerLanding_of_noMissing (hs : Spelled env l g)
    (hno : NoMissingContext l (render (confLines env l g))) {p : Val}
    (hp : p ∈ enabled l.providers) : ProviderLanding (Known l) g p where
  -- each jump of a provider stands in a line of its contexts
  destination := by
    intro e he t ht
    have hspelled := hs.providers p hp
    have hid := (hspelled.destination e he (destKind_ne_none ht)).2 t ht
    obtain ⟨exten, faxExten, readbacknum, hname, hpart⟩ := exists_incomingExtension hspelled he
    obtain ⟨rest, hmem, htarget⟩ := exists_of_mem_destTargets ht hid true readbacknum exten
    refine known_of_mem hs hno hname ?_ htarget
    apply mem_confLines_of_provider hp
    apply mem_providerContexts_of_incoming (.inr (incomingextensionmap_of_mem he))
    have hline := hpart _ (List.mem_append_right _ hmem)
    unfold generateProviderIncomingContext
    exact List.mem_append_left _ (List.mem_append_right _ (List.mem_flatMap.2 ⟨e, he, hline⟩))
  defaultfax := by
    intro hfax t ht
    have hid := ((hs.providers p hp).defaultfax hfax).2 t ht
    obtain ⟨rest, hmem, htarget⟩ := exists_of_mem_destTargets ht hid true none "fax"
    have hname : named "fax" = true := named_ofList _ rfl
    refine known_of_mem hs hno hname ?_ htarget
    apply mem_confLines_of_provider hp
    apply mem_providerContexts_of_incoming (.inl hfax)
    unfold generateProviderIncomingContext
    rw [if_pos hfax]
    exact List.mem_append_left _ (List.mem_append_left _ (List.mem_append_right _
      (List.mem_cons_of_mem _ hmem)))
  failover := by
    intro hpatterns htruthy hexists
    have hspelled := hs.providers p hp
    obtain ⟨pattern, r, hvals⟩ := List.exists_cons_of_ne_nil hpatterns
    have hcomma := plainId_ne (hspelled.failover htruthy hexists) (x := ',') (by decide)
    have htarget : (p.get "failover").toStr ∈ restTargets ("n,Goto(" ++ (p.get "failover").toStr ++
        "," ++ var "ORIGEXTENSION" ++ ",1)") := by
      rw [restTargets_gotoContext hcomma (by decide)]
      exact List.mem_singleton_self _
    refine known_of_mem hs hno (named_append_fixed hspelled.uniqid
      ['-', 'C', 'O', 'N', 'G', 'E', 'S', 'T', 'I', 'O', 'N'] rfl) ?_ htarget
    apply mem_confLines_of_provider hp
    have hpattern : Line.exten ((p.get "uniqid").toStr ++ "-CONGESTION") ("n,Goto(" ++
        (p.get "failover").toStr ++ "," ++ var "ORIGEXTENSION" ++ ",1)") ∈
        outgoingPattern g p pattern := by
      unfold outgoingPattern
      apply List.mem_append_right
      simp [htruthy, hexists]
    unfold providerContexts
    rw [if_pos (c := ((p.get "dialpattern").count != 0) = true)
      (by simpa using count_ne_zero hpatterns)]
    refine List.mem_append_left _ (List.mem_append_right _ (List.mem_cons_of_mem _
      (List.mem_cons_of_mem _ (List.mem_flatMap.2 ⟨pattern, ?_, hpattern⟩))))
    rw [hvals]
    exact List.mem_cons_self

/-- The same for all jumps of the dialplan. -/
theorem jumpsLand_of_noMissingContext (hs : Spelled env l g)
    (hno : NoMissingContext l (render (confLines env l g))) : JumpsLand l g where
  -- for each jump the line of the plan it stands in
  applications := by
    intro a ha
    have hspelled := hs.applications a ha
    have hcomma := plainId_ne hspelled.uniqid (x := ',') (by decide)
    have htarget : (a.get "uniqid").toStr ∈ restTargets ("n,Goto(" ++ (a.get "uniqid").toStr ++
        "," ++ var "EXTEN" ++ ",1)") := by
      rw [restTargets_gotoContext hcomma (by decide)]
      exact List.mem_singleton_self _
    refine known_of_mem hs hno (named_patternify hspelled.extension) ?_ htarget
    have hline : Line.exten (extensionsPatternify (a.get "extension").toStr)
        ("n,Goto(" ++ (a.get "uniqid").toStr ++ "," ++ var "EXTEN" ++ ",1)") ∈
        internalApplication a := List.mem_append_right _ (List.mem_singleton.2 rfl)
    have happs := List.mem_flatMap_of_mem ha hline
    apply mem_confLines_of_internal
    unfold internalContext
    simp only [List.mem_append]
    exact .inl (.inl (.inl (.inl (.inl (.inl (.inl (.inl (.inr happs))))))))
  providers := fun p hp => providerLanding_of_noMissing hs hno hp
  accounts := by
    intro e he id hid
    obtain ⟨hname, hplain⟩ := hs.accounts e he id hid
    refine known_of_mem hs hno hname ?_ (by
      rw [restTargets_account hplain]
      exact List.mem_singleton_self _)
    have hline : Line.exten ((getElement g (.provider .sip) id.toStr).get "username").toStr
        ("1,Goto(" ++ ((getElement g (.provider .sip) id.toStr).get "uniqid").toStr ++
          "-incoming,s,1)") ∈ multiContext g e :=
      List.mem_append_right _ (List.mem_map.2 ⟨id, hid, rfl⟩)
    have hmulti := List.mem_flatMap_of_mem he hline
    unfold confLines
    simp only [List.mem_append]
    exact .inl (.inl (.inl (.inl (.inr hmulti))))
  typed := by
    intro a ha htext s hmem hinclude t ht
    refine known_of_mem hs hno named_start ?_ ht
    have hline : Line.exten "s" s ∈ generateApplicationContext2 a ++ [.other ""] := by
      rw [generateApplicationContext2_typed htext]
      refine List.mem_cons_of_mem _ (List.mem_cons_of_mem _ (List.mem_append_left _
        (List.mem_append_right _ (List.mem_map_of_mem ?_))))
      exact List.mem_filter.2 ⟨hmem, by simpa using hinclude⟩
    rw [confLines_eq]
    exact List.mem_append_left _ (List.mem_append_right _ (List.mem_flatMap_of_mem ha hline))

/-- No line goes to a missing context exactly when all jumps land. -/
theorem noMissingContext_iff (hs : Spelled env l g) :
    NoMissingContext l (render (confLines env l g)) ↔ JumpsLand l g :=
  ⟨jumpsLand_of_noMissingContext hs, noMissingContext_of_jumpsLand hs⟩

end Texts

/-- The generated text names no context it does not have, exactly when every application, every
destination, every failover, every account of a shared host and every jump that is typed in has one
in the configuration. -/
theorem jumps_land_iff (usort : Usort) (env : Env) (g : Globals)
    (hs : Spelled env (fetchLists usort g).1 (fetchLists usort g).2) :
    NoMissingContext (fetchLists usort g).1 (extensionsConfGenerate usort env g).1 ↔
      JumpsLand (fetchLists usort g).1 (fetchLists usort g).2 := by
  rw [extensionsConfGenerate_text]
  exact noMissingContext_iff hs

/-! ## A provider that fails over -/

/-- A SIP account that dials every number. -/
def sipAccount (name : String) (fields : List (Key × Val)) : Val :=
  .arr ([(.str "name", .str name), (.str "uniqid", .str ("SIP-PROVIDER-" ++ name)),
    (.str "username", .str name), (.str "host", .str name),
    (.str "dialpattern", .ofList [.str "X."])] ++ fields)

/-- An application. -/
def menu : Val :=
  .arr [(.str "name", .str "menu"), (.str "uniqid", .str "DIALPLAN-APPLICATION-1"),
    (.str "extension", .str "8000"), (.str "type", .str "php")]

/-- An account that fails over to another, and whose calls go to the application. Those for one number
go to the application of the factory configuration, which no case is for. -/
def mainAccount : Val :=
  sipAccount "a" [(.str "failover", .str "SIP-PROVIDER-b"),
    (.str "incomingextensionmap",
      .ofList [.arr [(.str "destinationid", .str "DIALPLAN-APPLICATION-1")],
        .arr [(.str "incomingpattern", .str "5551"),
          (.str "destinationid", .str "APPLICATION-MAPPING-17266106704d401be865273")]])]

/-- The application, the account, and the one it fails over to. -/
def withFailover (fields : List (Key × Val)) : Globals :=
  let config := .arr [(.str "sip", .arr [(.str "provider",
      .ofList [mainAccount, sipAccount "b" fields])]),
    (.str "dialplan", .arr [(.str "application", .ofList [menu])])]
  { config := config, uniqidMap := configBuildUniqidMap config }

/-- The lists of that configuration. -/
def failoverLists (fields : List (Key × Val)) : Lists :=
  { internalPhones := [], externalPhones := [], callgroups := [], applications := [menu]
    conferenceRooms := [], virtualFaxes := [], analogFaxes := []
    providers := [mainAccount, sipAccount "b" fields], sipPhones := []
    sipProviders := [mainAccount, sipAccount "b" fields] }

/-- The lists of a configuration in which one provider falls back on another. -/
theorem fetchLists_withFailover {fields : List (Key × Val)}
    (h : fields = [] ∨ fields = [(.str "disabled", .str "yes")]) :
    (fetchLists insertionUsort (withFailover fields)).1 = failoverLists fields := by
  rcases h with rfl | rfl
  · rfl
  · rfl

/-- An account of that configuration is spelled as it should be. -/
theorem providerSpelled_failover {fields : List (Key × Val)}
    (h : fields = [] ∨ fields = [(.str "disabled", .str "yes")]) {p : Val}
    (hp : p ∈ (failoverLists fields).providers) :
    ProviderSpelled (fetchLists insertionUsort (withFailover fields)).2 p := by
  -- what can be evaluated is, for both variants of the office
  have hcheck : (p.chars.contains '\n' = false ∧ plainId (p.get "uniqid").toStr = true ∧
      pbxUniqidToTechnology (p.get "uniqid").toStr = .sip ∧
      named (p.get "username").toStr = true ∧ (p.get "defaultfax").truthy = false ∧
      plainId "SIP-PROVIDER-b" = true) ∧
      (∀ e ∈ (grouppedMapping p).entries, named e.1.toStr = true ∧
        (destinationOf e = .str "DIALPLAN-APPLICATION-1" ∨ destKind (destinationOf e) = none)) ∧
      (∀ pattern ∈ (p.get "dialpattern").vals, ',' ∉ pattern.toStr.toList) ∧
      ((p.get "failover").truthy = true → p.get "failover" = .str "SIP-PROVIDER-b") := by
    rcases h with rfl | rfl
    · revert p hp
      decide
    · revert p hp
      decide
  obtain ⟨⟨hchars, hid, htech, husername, hfax, hfail⟩, hmaps, hpattern, hfailover⟩ := hcheck
  have hkind : destKind (.str "DIALPLAN-APPLICATION-1") = some .application := by decide
  refine ⟨⟨?_, hid, .inl htech, hpattern, ?_⟩, fun _ => husername, ?_, ?_, ?_⟩
  · simpa [Unbroken] using hchars
  · intro htrue _
    rw [hfailover htrue]
    exact hfail
  · exact fun e he => (hmaps e he).1
  · intro e he hmatched
    rw [(hmaps e he).2.resolve_right hmatched]
    refine ⟨?_, ?_⟩
    · unfold Matched
      rw [hkind]
      trivial
    · unfold destTargets
      rw [hkind]
      rcases h with rfl | rfl
      · decide
      · decide
  · intro htrue
    rw [hfax] at htrue
    cases htrue

/-- The configuration is spelled as it should be. -/
theorem spelled_withFailover {fields : List (Key × Val)}
    (h : fields = [] ∨ fields = [(.str "disabled", .str "yes")]) :
    Spelled plainEnv (fetchLists insertionUsort (withFailover fields)).1
      (fetchLists insertionUsort (withFailover fields)).2 := by
  rw [fetchLists_withFailover h]
  have hmenu : menu.chars.contains '\n' = false ∧ named (menu.get "extension").toStr = true ∧
      publicname menu = none ∧ plainId (menu.get "uniqid").toStr = true := by
    decide
  -- no host has two accounts
  have hhosts : sipGetHostsWithMultipleAccounts (failoverLists fields).sipProviders = [] := by
    rcases h with rfl | rfl
    · decide
    · decide
  refine ⟨?_, ?_, ?_, ?_, ?_, ?_, ?_, ?_, ?_, ?_, ?_, ?_, ?_, ?_, ?_⟩
  · unfold Unbroken
    rcases h with rfl | rfl
    · decide
    · decide
  · decide
  · decide
  · intro p hp
    cases hp
  · intro p hp
    cases hp
  · intro p hp
    cases hp
  · intro a ha
    have ha := List.mem_of_mem_filter ha
    rw [List.mem_singleton.1 ha]
    refine ⟨⟨by simpa [Unbroken] using hmenu.1, hmenu.2.1, ?_⟩, hmenu.2.2.2⟩
    rw [hmenu.2.2.1]
    intro n hn
    cases hn
  · intro p hp
    cases hp
  · intro p hp
    cases hp
  · intro p hp
    cases hp
  · intro p hp
    cases hp
  · intro p hp
    exact providerSpelled_failover h (List.mem_of_mem_filter hp)
  · rw [hhosts]
    intro e he
    cases he
  · rw [hhosts]
    intro e he
    cases he
  · rcases h with rfl | rfl
    · decide
    · decide

/-- With both accounts enabled every jump lands. -/
theorem jumps_land_withFailover :
    NoMissingContext (failoverLists [])
      (extensionsConfGenerate insertionUsort plainEnv (withFailover [])).1 := by
  have hspelled := spelled_withFailover (.inl rfl)
  have hlists := fetchLists_withFailover (.inl rfl)
  have hmenu : "DIALPLAN-APPLICATION-1" ∈ contextNames (failoverLists []) := by decide
  have hother : "SIP-PROVIDER-b" ∈ contextNames (failoverLists []) := by decide
  rw [← hlists]
  refine (jumps_land_iff _ _ _ hspelled).2 ?_
  rw [hlists]
  refine ⟨?_, ?_, ?_, ?_⟩
  · intro a ha
    rw [List.mem_singleton.1 (List.mem_of_mem_filter ha)]
    exact .inr (.inl hmenu)
  · intro p hp
    -- both maps lead to the menu, and the failover to the other provider
    have hmaps : ∀ p ∈ (failoverLists []).providers, ∀ e ∈ (grouppedMapping p).entries,
        destTargets (fetchLists insertionUsort (withFailover [])).2 (destinationOf e) ⊆
          ["DIALPLAN-APPLICATION-1"] := by
      decide
    have hfields : ∀ p ∈ (failoverLists []).providers, (p.get "defaultfax").truthy = false ∧
        ((p.get "failover").truthy = true → p.get "failover" = .str "SIP-PROVIDER-b") := by
      decide
    have hmem := List.mem_of_mem_filter hp
    refine ⟨?_, ?_, ?_⟩
    · intro e he t ht
      rw [List.mem_singleton.1 (hmaps p hmem e he ht)]
      exact .inr (.inl hmenu)
    · intro hfax
      rw [(hfields p hmem).1] at hfax
      cases hfax
    · intro _ hfailover _
      rw [(hfields p hmem).2 hfailover]
      exact .inr (.inl hother)
  · have hhosts : sipGetHostsWithMultipleAccounts (failoverLists []).sipProviders = [] := by
      decide
    rw [hhosts]
    intro e he
    cases he
  · intro a ha htext
    have hphp : isPlaintext menu = false := by decide
    rw [List.mem_singleton.1 (List.mem_of_mem_filter ha), hphp] at htext
    cases htext

/-- When the other account is disabled, the text has no context for it, but jumps to it. -/
theorem not_land_disabled :
    pbxGetProvider (withFailover [(.str "disabled", .str "yes")]) "SIP-PROVIDER-b" =
        sipAccount "b" [(.str "disabled", .str "yes")] ∧
      ¬ NoMissingContext (failoverLists [(.str "disabled", .str "yes")])
        (extensionsConfGenerate insertionUsort plainEnv
          (withFailover [(.str "disabled", .str "yes")])).1 := by
  have hspelled := spelled_withFailover (.inr rfl)
  have hlists := fetchLists_withFailover (.inr rfl)
  refine ⟨by decide, fun hno => ?_⟩
  rw [extensionsConfGenerate_text, hlists] at hno
  rw [hlists] at hspelled
  have hland := jumpsLand_of_noMissingContext hspelled hno
  -- a disabled provider is found by its name, but has no context
  have hfailover := (hland.providers mainAccount (by decide)).failover (by decide)
    (by decide) (by decide)
  revert hfailover
  unfold Known
  decide

end Dialplan
end Askozia
