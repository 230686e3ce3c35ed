import Askozia.Dahdi.Snapshots

/-!
# The contexts of `chan_dahdi.conf` (`dahdi.inc`, `dialplan.inc`)

Every stanza of `chan_dahdi.conf` names the context that the calls on its channels come in through, and
`extensions_conf_generate` writes contexts.

* `snapshot_context`: no stanza leaves its context to the stanzas before it.
* `channel_contexts_exist_iff`: exactly when every context of a channel is in `extensions.conf`.
-/

namespace Askozia
namespace Dahdi

open Php Config Pbx Asterisk
open Dialplan (Env Unbroken unbroken_null unbroken_getElement oneLine oneLine_get oneLine_append oneLine_eq_true
  oneLine_toString oneLine_incomingName mem_enabled mem_enabled_congr rearranged_initList incomingName hasIncoming
  PlainIds Identified Spelled extensionsConfGenerate branchOffice wellFormed_branchOffice identified_branchOffice
  spelled_branchOffice anyNumber plainEnv)

/-! ## Contexts -/

/-- The context that the calls of an account come in through. -/
def Account.context (a : Account) : String :=
  match a.owner with
  | (.provider _, p) => incomingName p
  | (_, e) => (e.get "uniqid").toStr

/-- Nothing in the text is foreign. -/
def readable (text : String) : Bool := (explodeChars '\n' text.toList).all fun line => !isForeign line

/-- The context in effect at the end of a text, if the text can be read. -/
def contextAt (text : String) : Option String := if readable text then inEffect text "context" else none

/-- Every channel has a context in effect, which is in the text. -/
def ChannelContextsExist (config : Val) (all : List Stanza) (text : String) : Prop :=
  ∀ before s after, all = before ++ s :: after →
    ∃ name, contextAt (textBefore (indexed config) before s) = some name ∧ Dialplan.Exists text name

/-- What is typed in for an account sets no context. -/
def KeepsContext (account : Val) : Prop :=
  (account.get "manualattributes").truthy = true →
    "context" ∉ (settings (base64Decode (account.get "manualattributes").toStr)).map Prod.fst

section Own

variable {config : Val} {g : Globals} {s : Stanza} {before : List Stanza}

theorem context_not_typed {a : Account} (h : KeepsContext a.owner.2) : "context" ∉ a.typed.map Prod.fst := by
  have hother : "context" ∉ (if (a.owner.2.get "manualattributes").truthy then
      settings (base64Decode (a.owner.2.get "manualattributes").toStr) else []).map Prod.fst := by
    split_ifs with htruthy
    · exact h htruthy
    · exact List.not_mem_nil
  cases a with
  | analogFax fax => exact List.not_mem_nil
  | _ => exact hother

/-- After the context an account only sets prefixes. -/
theorem lastValue_context (a : Account) (port : Val) :
    lastValue ((a.options port).map asRead) "context" = some (readValue a.context) := by
  have hprefixes : ∀ provider : Val, lastValue
      (((["internationalprefix", "nationalprefix", "localprefix", "privateprefix"].filter fun field =>
        (provider.get field).isset).map fun field => (field, (provider.get field).toStr)).map asRead)
      "context" = none := by
    intro provider
    rw [lastValue_eq_none_iff]
    intro hmem
    simp [asRead] at hmem
  cases a with
  | isdnProvider provider =>
    rw [Account.options, List.map_append, lastValue_append, hprefixes, Option.none_or, List.map_append,
      lastValue_append]
    rfl
  | analogProvider provider =>
    rw [Account.options, List.map_append, lastValue_append]
    rfl
  | _ => rfl

/-- No account leaves its context to the accounts before it. -/
theorem value_context {a : Account} (h : KeepsContext a.owner.2) (port : Val) :
    a.value port "context" = some (readValue a.context) := by
  have hswitch : lastValue ((a.switchtype port).map asRead) "context" = none := by
    rw [lastValue_eq_none_iff]
    cases a with
    | redfoneProvider provider => simp [Account.switchtype, asRead]
    | _ => exact List.not_mem_nil
  rw [Account.value, Account.given, lastValue_append, hswitch, Option.none_or, lastValue_append,
    lastValue_eq_none_iff.2 (context_not_typed h), Option.none_or, lastValue_context]

/-- So the context in effect at its channels is its own. -/
theorem snapshot_context (hg : Unbroken g.config) (hs : s.Whole) (hbefore : ∀ t ∈ before, t.Whole)
    (hkeeps : KeepsContext s.account.owner.2) :
    snapshot g before s "context" = some (readValue s.account.context) := by
  rw [snapshot_eq hg hs hbefore (by decide), value_context hkeeps, Option.some_or]

/-- The text ends with a whole line. -/
def EndsLine (text : String) : Prop := ∃ t, text = t ++ "\n"

theorem EndsLine.append_join {α : Type} {text : String} {f : α → String} (htext : EndsLine text) (xs : List α)
    (hf : ∀ x, EndsLine (f x)) : EndsLine (text ++ String.join (xs.map f)) := by
  induction xs generalizing text with
  | nil => rwa [List.map_nil, String.join_nil, String.append_empty]
  | cons x r ih =>
    obtain ⟨t, ht⟩ := hf x
    rw [List.map_cons, String.join_cons, ← String.append_assoc]
    exact ih ⟨text ++ t, by rw [ht, String.append_assoc]⟩

theorem endsLine_chanHeader (g : Globals) : EndsLine (chanHeader g) := by
  have hend : "\n[trunkgroups]\n\n[channels]\n" = "\n[trunkgroups]\n\n[channels]" ++ "\n" := rfl
  unfold chanHeader
  rw [hend, ← String.append_assoc]
  exact ⟨_, rfl⟩

theorem endsLine_textBefore (g : Globals) (before : List Stanza) (s : Stanza) :
    EndsLine (textBefore g before s) :=
  ((endsLine_chanHeader g).append_join before fun _ => ⟨_, rfl⟩).append_join _ fun line => ⟨_, line.render_eq⟩

/-- Lines are read one after the other. -/
theorem readable_lines (a b : String) : readable (a ++ "\n" ++ b) = (readable a && readable b) := by
  have hboth : (a ++ "\n" ++ b).toList = a.toList ++ '\n' :: b.toList := by
    rw [String.toList_append, String.toList_append, List.append_assoc]
    rfl
  unfold readable
  rw [hboth, explodeChars_append, List.all_append]

theorem readable_newline (a : String) : readable (a ++ "\n") = readable a := by
  have h := readable_lines a ""
  have hempty : readable "" = true := by decide
  rwa [String.append_empty, hempty, Bool.and_true] at h

theorem readable_append {a : String} (ha : EndsLine a) (b : String) :
    readable (a ++ b) = (readable a && readable b) := by
  obtain ⟨t, rfl⟩ := ha
  rw [readable_lines, readable_newline]

theorem readable_join {α : Type} {f : α → String} (xs : List α) (hf : ∀ x, EndsLine (f x)) :
    readable (String.join (xs.map f)) = xs.all fun x => readable (f x) := by
  induction xs with
  | nil => exact (by decide : readable "" = true)
  | cons x r ih => rw [List.map_cons, String.join_cons, readable_append (hf x), ih, List.all_cons]

/-- The text can be read exactly if each of its lines can. -/
theorem readable_chanDahdiConfGenerate (usort : Usort) (config : Val) :
    readable (chanDahdiConfGenerate usort (indexed config)) =
      (readable (chanHeader (indexed config)) &&
        (chanStanzas usort config).all fun s => s.lines.all fun line => readable line.render) := by
  have htext : chanDahdiConfGenerate usort (indexed config) = chanHeader (indexed config) ++
      String.join ((chanStanzas usort config).map Stanza.render) ++ "\n" := rfl
  have hrender : ∀ s : Stanza, readable s.render = s.lines.all fun line => readable line.render := by
    intro s
    rw [Stanza.render, readable_newline, readable_join _ fun line => ⟨_, ChanLine.render_eq line⟩]
  have hends : ∀ s : Stanza, EndsLine s.render := fun _ => ⟨_, rfl⟩
  rw [htext, readable_newline, readable_append (endsLine_chanHeader _), readable_join _ hends]
  simp only [hrender]

/-- The lists hold accounts of the configuration. -/
theorem mem_lists (usort : Usort) (h : ProperLists config) (k : Kind) {e : Val}
    (he : e ∈ (fetchLists usort (indexed config)).1.of k) : e ∈ elements config k := by
  have h₁ := rearranged_initList (g := indexed config) h (.provider .analog)
  have h₂ := h₁.trans (rearranged_initList h₁.lists (.phone .analog))
  have h₃ := h₂.trans (rearranged_initList h₂.lists (.fax .analog))
  have h₄ := h₃.trans (rearranged_initList h₃.lists (.provider .isdn))
  have h₅ := h₄.trans (rearranged_initList h₄.lists (.phone .isdn))
  -- the kinds that have stanzas, in the order of the generator
  unfold Lists.of at he
  split at he
  · exact (h₁.mem _).1 ((usort.perm _ _).mem_iff.1 he)
  · exact (h₂.mem _).1 ((usort.perm _ _).mem_iff.1 he)
  · exact (h₃.mem _).1 ((usort.perm _ _).mem_iff.1 he)
  · exact (h₄.mem _).1 ((usort.perm _ _).mem_iff.1 he)
  · exact (h₅.mem _).1 ((usort.perm _ _).mem_iff.1 he)
  · exact absurd he List.not_mem_nil

/-- The account of a stanza is in the configuration, and not disabled. -/
theorem owner_mem (usort : Usort) (h : ProperLists config) (hconfig : Unbroken config)
    (hs : s ∈ chanStanzas usort config) :
    s.account.owner.2 ∈ Dialplan.enabled (elements config s.account.owner.1) := by
  obtain ⟨hlisted, henabled⟩ := mem_enabled.1 (writtenFrom_chanStanzas usort hconfig hs).owner
  exact mem_enabled.2 ⟨mem_lists usort h _ hlisted, henabled⟩

end Own

/-! ## Both files -/

section Both

variable (usort : Usort) (env : Env) {config : Val} {s : Stanza}

theorem owner_mem_fetchedKinds (a : Account) : a.owner.1 ∈ fetchedKinds := by
  cases a <;> simp [Account.owner, fetchedKinds]

/-- The context of an account is read as it is, and is there if the account is no provider, or is one with a
fax or a map. -/
theorem context_written_iff (h : WellFormed config) (hid : Identified config)
    (hplain : PlainIds config) (hs : Spelled env (Dialplan.fetchLists usort (indexed config)).1
      (Dialplan.fetchLists usort (indexed config)).2) {a : Account}
    (ha : a.owner.2 ∈ Dialplan.enabled (elements config a.owner.1)) :
    readValue a.context = a.context ∧
      (Dialplan.Exists (extensionsConfGenerate usort env (indexed config)).1 a.context ↔
        ∀ t, a.owner.1 = .provider t → hasIncoming a.owner.2 = true) := by
  have hkind := owner_mem_fetchedKinds a
  unfold Account.context
  generalize a.owner = owner at ha hkind ⊢
  obtain ⟨k, e⟩ := owner
  change k ∈ fetchedKinds at hkind
  -- only providers depend on more than the account being enabled
  cases k with
  | provider t =>
    have ht : t ≠ .skinny := by
      rintro rfl
      exact absurd hkind (by decide)
    have hspelled := hs.providers e (Dialplan.mem_enabled_providers usort h ht ha)
    refine ⟨Dialplan.readValue_incomingName hspelled.uniqid, ?_⟩
    rw [Dialplan.incoming_written_iff usort env h hid hplain hs ht ha]
    exact ⟨fun hincoming _ _ => hincoming, fun hall => hall t rfl⟩
  | phone t =>
    have hspelled := hs.internalPhones e (Dialplan.mem_enabled_phones usort h.lists ha)
    refine ⟨Dialplan.readValue_plainId hspelled.1.uniqid, ?_⟩
    exact ⟨fun _ _ => nofun, fun _ => Dialplan.phone_written usort env h.lists hs ha⟩
  | fax t =>
    obtain rfl : t = .analog := by
      cases t with
      | analog => rfl
      | virtual => exact absurd hkind (by decide)
    have hspelled := hs.analogFaxes e (Dialplan.mem_enabled_faxes usort h.lists ha)
    refine ⟨Dialplan.readValue_plainId hspelled.uniqid, ?_⟩
    exact ⟨fun _ _ => nofun, fun _ => Dialplan.fax_written usort env h.lists hs ha⟩
  | _ => exact absurd hkind (by decide)

/-- If `chan_dahdi.conf` can be read, then every context in effect at a channel is in
`extensions.conf` exactly if each provider that has a channel has a fax or a map for incoming calls. -/
theorem channel_contexts_exist_iff (h : WellFormed config)
    (hid : Identified config) (hplain : PlainIds config)
    (hs : Spelled env (Dialplan.fetchLists usort (indexed config)).1
      (Dialplan.fetchLists usort (indexed config)).2) (hconfig : Unbroken config)
    (hkeeps : ∀ k ∈ fetchedKinds, ∀ e ∈ Dialplan.enabled (elements config k), KeepsContext e)
    (hread : readable (chanDahdiConfGenerate usort (indexed config)) = true) :
    ChannelContextsExist config (chanStanzas usort config)
        (extensionsConfGenerate usort env (indexed config)).1 ↔
      ∀ s ∈ chanStanzas usort config, ∀ t, s.account.owner.1 = .provider t →
        hasIncoming s.account.owner.2 = true := by
  have howner : ∀ s ∈ chanStanzas usort config, s.account.owner.2 ∈
      Dialplan.enabled (elements config s.account.owner.1) := fun s => owner_mem usort h.lists hconfig
  have hwritten := fun s hmem => context_written_iff usort env h hid hplain hs (howner s hmem)
  -- the context in effect at a channel line is the one its own stanza has set
  have hcontext : ∀ {before s after}, chanStanzas usort config = before ++ s :: after →
      contextAt (textBefore (indexed config) before s) = some s.account.context := by
    intro before s after hall
    obtain ⟨rest, htext⟩ := chanDahdiConfGenerate_eq hall
    rw [htext, readable_append (endsLine_textBefore _ before s), Bool.and_eq_true] at hread
    unfold contextAt
    rw [if_pos hread.1]
    have hwhole : ∀ t ∈ before ++ s :: after, t.Whole := fun t ht => whole_chanStanzas usort hconfig (hall ▸ ht)
    obtain ⟨hbefore, hrest⟩ := List.forall_mem_append.1 hwhole
    have hmem : s ∈ chanStanzas usort config := hall ▸ List.mem_append_right _ List.mem_cons_self
    exact (snapshot_context hconfig (hrest s List.mem_cons_self) hbefore
      (hkeeps _ (owner_mem_fetchedKinds s.account) _ (howner s hmem))).trans
      (congrArg some (hwritten s hmem).1)
  constructor
  · intro hexist s hmem
    obtain ⟨before, after, hall⟩ := List.append_of_mem hmem
    obtain ⟨name, hname, hexists⟩ := hexist before s after hall
    rw [hcontext hall] at hname
    obtain rfl := Option.some.inj hname
    exact (hwritten s hmem).2.1 hexists
  · intro hincoming before s after hall
    have hmem : s ∈ chanStanzas usort config := hall ▸ List.mem_append_right _ List.mem_cons_self
    exact ⟨_, hcontext hall, (hwritten s hmem).2.2 (hincoming s hmem)⟩

end Both

/-- With a map for incoming calls there is every context, and without one there is not. -/
theorem channel_contexts_exist_branchOffice :
    ChannelContextsExist (branchOffice anyNumber) (chanStanzas insertionUsort (branchOffice anyNumber))
        (extensionsConfGenerate insertionUsort plainEnv
          (indexed (branchOffice anyNumber))).1 ∧
      ¬ ChannelContextsExist (branchOffice []) (chanStanzas insertionUsort (branchOffice []))
        (extensionsConfGenerate insertionUsort plainEnv (indexed (branchOffice []))).1 := by
  -- both offices at once: what they differ in is not looked at until the end
  have hexists : ∀ maps, maps = anyNumber ∨ maps = [] →
      (ChannelContextsExist (branchOffice maps) (chanStanzas insertionUsort (branchOffice maps))
        (extensionsConfGenerate insertionUsort plainEnv (indexed (branchOffice maps))).1 ↔
      ∀ s ∈ chanStanzas insertionUsort (branchOffice maps), ∀ t, s.account.owner.1 = .provider t →
        hasIncoming s.account.owner.2 = true) := by
    intro maps h
    refine channel_contexts_exist_iff insertionUsort plainEnv (wellFormed_branchOffice h) (identified_branchOffice h).1
      (identified_branchOffice h).2 (spelled_branchOffice h) ?_ ?_ ?_
    · rcases h with rfl | rfl
      · decide
      · decide
    · intro k hk e he htyped
      have hnone : ∀ k ∈ fetchedKinds, ∀ e ∈ Dialplan.enabled (elements (branchOffice maps) k),
          (e.get "manualattributes").truthy = false := by
        rcases h with rfl | rfl
        · decide
        · decide
      rw [hnone k hk e he] at htyped
      cases htyped
    · rw [readable_chanDahdiConfGenerate]
      rcases h with rfl | rfl
      · decide +kernel
      · decide +kernel
  constructor
  · rw [hexists _ (.inl rfl)]
    intro s hs t howner
    have hall : ∀ s ∈ chanStanzas insertionUsort (branchOffice anyNumber),
        hasIncoming s.account.owner.2 = true ∨ s.account.owner.1 = .phone .analog := by decide
    refine (hall s hs).resolve_right fun hphone => ?_
    rw [hphone] at howner
    cases howner
  · rw [hexists _ (.inr rfl)]
    intro hall
    have hsome : ∃ s ∈ chanStanzas insertionUsort (branchOffice []),
        s.account.owner.1 = .provider .analog ∧ hasIncoming s.account.owner.2 = false := by decide
    obtain ⟨s, hs, howner, hnone⟩ := hsome
    rw [hall s hs _ howner] at hnone
    cases hnone

end Dahdi
end Askozia
