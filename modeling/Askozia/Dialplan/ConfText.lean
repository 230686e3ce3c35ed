import Askozia.Dialplan.Contexts

/-!
# The text of the dialplan

The text is read line by line, where a message about a destination is one line with what comes after it.

* `settled_confLines`: what comes after such a message says nothing of contexts;
* `joined_cases`: a line of the text is read as it is meant, or typed in, or a message;
* `entries_confLines`: what is read of the text.
-/

namespace Askozia
namespace Dialplan

open Php Config Pbx Asterisk

/-! ## Lines that are not the generator's own -/

/-- A line typed into the logic of an application. -/
def TypedLine (l : Lists) (line : Line) : Prop :=
  ∃ a ∈ enabled l.applications, isPlaintext a = true ∧ ∃ s ∈ typedLines a,
    if isInclude s then line = .other s else line = .exten anyExten s ∨ line = .exten "s" s

/-- A line that nothing is made of. -/
structure Message (line : Line) : Prop where
  tidy : line.tidy = true
  entry : line.entry = .unknown

section Typed

variable {l : Lists} {line : Line} {T : String → Prop} {X : Line → Prop} {lines : List Line}

/-- Asterisk makes nothing of the error about a caller id. -/
theorem entry_overrideError (override : Val) : (overrideError override).entry = .unknown := by
  have hcut : ∀ cs : List Char, cutAt '=' ("ERROR: unmatched case (override = ".toList ++ cs) =
      some ("ERROR: unmatched case (override ".toList, ' ' :: cs) := fun cs => rfl
  have hread : ∀ cs : List Char, readLine ("ERROR: unmatched case (override = ".toList ++ cs) =
      readSetting ("ERROR: unmatched case (override = ".toList ++ cs) := by
    intro cs
    rfl
  rw [overrideError, Line.entry, Line.body, String.append_assoc, String.toList_append, hread,
    readSetting, hcut]
  rfl

/-- An inclusion that is typed in is no step and opens no context. -/
theorem head_of_isInclude {s : String} (h : isInclude s = true) :
    ∃ c r, s.toList = c :: r ∧ c.toLower = 'i' := by
  have hhead : (s.toList.take 7).map Char.toLower = "include".toList := by
    simp only [isInclude, Bool.and_eq_true, beq_iff_eq] at h
    exact h.1.1.1.1.1
  cases hs : s.toList with
  | nil =>
    rw [hs] at hhead
    cases hhead
  | cons c r =>
    rw [hs, List.take_succ_cons, List.map_cons] at hhead
    exact ⟨c, r, rfl, (List.cons.inj hhead).1⟩

/-- An include is no line of an extension. -/
theorem exten_of_isInclude {s : String} (h : isInclude s = true) :
    "exten => ".toList.isPrefixOf s.toList = false := by
  obtain ⟨c, r, hs, hc⟩ := head_of_isInclude h
  have he : ('e' == c) = false := by
    rw [beq_eq_false_iff_ne]
    rintro rfl
    revert hc
    decide
  have hcons : "exten => ".toList = 'e' :: "xten => ".toList := rfl
  rw [hs, hcons, List.isPrefixOf_cons_cons, he]
  rfl

/-- It opens no context, and leads only to what it includes. -/
theorem readLine_of_isInclude {s : String} (h : isInclude s = true) :
    (readLine s.toList).opened = none ∧
      ∀ t ∈ (readLine s.toList).targets, (readLine s.toList).isIncludes = true := by
  have hexten := exten_of_isInclude h
  obtain ⟨c, r, hs, hc⟩ := head_of_isInclude h
  rw [hs] at hexten ⊢
  have hbracket : (c :: r).head? ≠ some '[' := by
    intro hb
    obtain rfl := Option.some.inj hb
    revert hc
    decide
  unfold readLine
  rw [if_neg (List.cons_ne_nil c r), if_neg hbracket]
  simp only [hexten, Bool.false_eq_true, if_false]
  split_ifs
  · exact ⟨rfl, fun t ht => by cases ht⟩
  · exact ⟨rfl, fun t ht => by cases ht⟩
  · exact ⟨rfl, fun t ht => rfl⟩
  · unfold readSetting
    split
    · exact ⟨rfl, fun t ht => by cases ht⟩
    · split_ifs
      · exact ⟨rfl, fun t ht => by cases ht⟩
      · exact ⟨rfl, fun t ht => by cases ht⟩

/-- The lines that were typed are one line each. -/
theorem oneLine_of_mem_typedLines {a : Val} {s : String} (h : s ∈ typedLines a) :
    oneLine s = true := by
  unfold typedLines explode at h
  obtain ⟨cs, hcs, rfl⟩ := List.mem_map.1 h
  rw [oneLine_eq_true, String.toList_ofList]
  exact not_mem_of_mem_explodeChars hcs

theorem named_anyExten : named anyExten = true := named_ofList _ rfl

theorem named_start : named "s" = true := named_ofList _ rfl

/-- A line that was typed is ended and stands alone. -/
theorem tidy_typed (h : TypedLine l line) : line.tidy = true := by
  obtain ⟨a, -, -, s, hs, hline⟩ := h
  have hone := oneLine_of_mem_typedLines hs
  split_ifs at hline
  · rw [hline]
    exact hone
  · rcases hline with rfl | rfl
    · rw [Line.tidy, hone, oneLine_of_named named_anyExten]
      rfl
    · rw [Line.tidy, hone, oneLine_of_named named_start]
      rfl

/-- It opens no context. -/
theorem opened_typed (h : TypedLine l line) : line.entry.opened = none := by
  obtain ⟨a, -, -, s, hs, hline⟩ := h
  split_ifs at hline with hinclude
  · rw [hline]
    exact (readLine_of_isInclude hinclude).1
  · rcases hline with rfl | rfl
    · rw [entry_exten named_anyExten, readStep_opened]
    · rw [entry_exten named_start, readStep_opened]

/-- The error about a caller id is a message. -/
theorem message_overrideError {override : Val} (h : oneLine override.toStr = true) :
    Message (overrideError override) :=
  ⟨oneLine_between _ _ rfl rfl h, entry_overrideError override⟩

/-- A text about a destination, with the line after it. -/
theorem message_unmatched {next : Line} (h : next.tidy = true) :
    Message (.other (unmatchedText ++ next.body)) := by
  constructor
  · rw [Line.tidy, oneLine_append, oneLine_eq_true.2 (Line.newline_not_mem_body h)]
    rfl
  · rw [Line.entry, Line.body, String.toList_append]
    exact readLine_unmatchedText _

/-- A tidy line ends. -/
theorem Line.unending_of_tidy (h : line.tidy = true) : line.unending = false := by
  cases line with
  | unended text => cases h
  | _ => rfl

/-- Good lines end, if those end that are not. -/
theorem ended_of_allGood (h : AllGood T X lines) (hX : ∀ line, X line → line.tidy = true) :
    ∀ line ∈ lines, line.unending = false := by
  intro line hline
  rcases h line hline with ⟨hproper, -⟩ | hline
  · exact Line.unending_of_tidy (Line.tidy_of_proper hproper)
  · exact Line.unending_of_tidy (hX line hline)

/-- Joining the lines that lost their ends leaves good lines and messages. -/
theorem allGood_joined (hsettled : Settled lines)
    (h : AllGood T (fun line => X line ∨ line = .unended unmatchedText) lines)
    (hX : ∀ line, X line → line.tidy = true) : AllGood T (fun line => X line ∨ Message line) (joined lines) := by
  have htidy : ∀ line ∈ lines, line.unending = false →
      line.tidy = true ∧ Good T (fun line => X line ∨ Message line) line := by
    intro line hline hended
    rcases h line hline with hgood | hX' | rfl
    · exact ⟨Line.tidy_of_proper hgood.1, .inl hgood⟩
    · exact ⟨hX line hX', .inr (.inl hX')⟩
    · cases hended
  intro line hline
  rcases mem_joined hsettled hline with ⟨hmem, hended⟩ | ⟨text, next, htext, hnext, hended, rfl⟩
  · exact (htidy line hmem hended).2
  · have hunmatched : text = unmatchedText := by
      rcases h _ htext with ⟨hproper, -⟩ | hX' | heq
      · cases hproper
      · cases hX _ hX'
      · exact Line.unended.inj heq
    rw [hunmatched]
    exact .inr (.inr (message_unmatched (htidy next hnext hended).1))

end Typed

/-! ## The lines are settled -/

section Settled

variable {T : String → Prop} {env : Env} {l : Lists} {g : Globals} {p : Val} {line : Line}

/-- Steps end. -/
theorem ended_of_steps {exten : String} {lines : List Line} (h : Steps T exten lines) :
    ∀ line ∈ lines, line.unending = false := by
  intro line hline
  obtain ⟨rest, rfl, -⟩ := h line hline
  rfl

/-- So do the lines that replace the caller id. -/
theorem ended_overrides (exten : String) (override overridestring : Val) :
    ∀ line ∈ generateIncomingCalleridOverrides exten override overridestring, line.unending = false := by
  unfold generateIncomingCalleridOverrides
  split_ifs
  all_goals first
    | exact List.forall_mem_singleton.2 rfl
    | exact fun line hline => absurd hline List.not_mem_nil

/-- The first line for a name under which calls come in. -/
theorem idle_noop (hp : Unbroken p) {exten : String} (hexten : named exten = true) :
    (Line.exten exten ("1,NoOp(incoming call from provider: " ++ (p.get "name").toStr ++ " to " ++
      var "EXTEN" ++ ")")).Idle := by
  have hopening : Opening ("1,NoOp(incoming call from provider: " ++ (p.get "name").toStr) :=
    (opening_fixed _ rfl).text (oneLine_get hp _)
  refine ⟨rfl, ?_, ?_⟩
  · rw [entry_exten hexten, readStep_opened]
  · rw [targets_exten hexten, restTargets_of_quiet]
    exact quiet_append (quiet_append (quiet_append hopening.quiet))

/-- The lines for a name may come after a message. -/
theorem continuing_entrance (hg : Unbroken g.config) (hp : Unbroken p) {n : Entrance} (hn : n.Spelled g) :
    Continuing (n.lines g p) := by
  have hbefore : ∀ line ∈ [Line.exten n.exten ("1,NoOp(incoming call from provider: " ++
        (p.get "name").toStr ++ " to " ++ var "EXTEN" ++ ")"),
      .exten n.exten "n,Set(CDR(UserField)=inbound)"] ++
      linesIf (p.get "defaultfax").truthy [.exten n.faxExten "n,Answer()", .exten n.faxExten "n,Wait(3)"] ++
      generateIncomingCalleridOverrides n.exten (p.get "override") (p.get "overridestring"),
      line.unending = false := by
    refine List.forall_mem_append.2 ⟨List.forall_mem_append.2 ⟨?_, ?_⟩, ended_overrides _ _ _⟩
    · exact List.forall_mem_cons.2 ⟨rfl, List.forall_mem_singleton.2 rfl⟩
    · unfold linesIf
      split_ifs
      · exact List.forall_mem_cons.2 ⟨rfl, List.forall_mem_singleton.2 rfl⟩
      · exact fun line hline => absurd hline List.not_mem_nil
  have hfirst : ∀ line ∈ (n.lines g p).head?, line.Idle := by
    intro line hline
    obtain rfl := Option.some.inj hline
    exact idle_noop hp hn.exten
  unfold Entrance.lines incomingExtension at hfirst ⊢
  by_cases hnone : destKind n.destination = none
  · rw [generateExtensionFromUniqid_of_none hnone] at hfirst ⊢
    exact continuing_append_singleton hbefore hfirst (List.cons_ne_nil _ _)
  · obtain ⟨hmatched, hplain⟩ := hn.matched hnone
    have hsteps : Steps (fun _ => True) n.exten
        (generateExtensionFromUniqid g n.destination true n.readbacknum (some n.exten)) :=
      steps_fromUniqid hg hn.destination hn.readbacknum (oneLine_of_named hn.exten) hmatched
        fun t ht => ⟨hplain t ht, trivial⟩
    exact ⟨spares_of_ended (List.forall_mem_append.2 ⟨hbefore, ended_of_steps hsteps⟩), hfirst⟩

/-- The lines for incoming faxes of a provider that has a default fax. -/
def faxLines (g : Globals) (p : Val) : List Line :=
  if (p.get "defaultfax").truthy then
    Line.exten "fax" ("1,NoOp(incoming fax from provider: " ++ (p.get "name").toStr ++ " to " ++
        var "EXTEN" ++ ")") ::
      generateExtensionFromUniqid g (p.get "defaultfax") true none (some "fax")
  else []

/-- The extension of the default fax consists of steps. -/
theorem steps_defaultfax (hg : Unbroken g.config) (hp : ProviderSpelled g p)
    (htruthy : (p.get "defaultfax").truthy = true) : Steps (fun _ => True) "fax"
      (generateExtensionFromUniqid g (p.get "defaultfax") true none (some "fax")) := by
  obtain ⟨hmatched, hplain⟩ := hp.defaultfax htruthy
  exact steps_fromUniqid hg (hp.unbroken.get _) (fun r hr => by cases hr) (oneLine_ofList _ rfl) hmatched
    fun t ht => ⟨hplain t ht, trivial⟩

/-- Its lines end. -/
theorem ended_faxLines (hg : Unbroken g.config) (hp : ProviderSpelled g p) :
    ∀ line ∈ faxLines g p, line.unending = false := by
  unfold faxLines
  split_ifs with htruthy
  · exact List.forall_mem_cons.2 ⟨rfl, ended_of_steps (steps_defaultfax hg hp htruthy)⟩
  · exact fun line hline => absurd hline List.not_mem_nil

/-- The context for incoming calls: the fax, then entrance by entrance, then the end of a call. -/
theorem generateProviderIncomingContext_eq (g : Globals) (p : Val) : generateProviderIncomingContext g p =
    [Line.context ((p.get "uniqid").toStr ++ "-incoming"), .other "include => public-direct-dial"] ++
      faxLines g p ++ ((entrances p).flatMap (Entrance.lines g p) ++ [Line.other "; hangup logic",
        .exten "h" ("1,NoOp(Hanging up incoming call from provider: " ++ (p.get "name").toStr ++
          " to " ++ var "EXTEN" ++ ")"), .exten "h" "n,Macro(missedcallmail)", .other ""]) := by
  unfold generateProviderIncomingContext
  rw [flatMap_incomingPattern, List.append_assoc]
  rfl

/-- Nothing is lost in it: a message without an end stands before an idle line. -/
theorem settled_generateProviderIncomingContext (hg : Unbroken g.config) (hp : ProviderSpelled g p) :
    Settled (generateProviderIncomingContext g p) := by
  have hstart : ∀ line ∈ [Line.context ((p.get "uniqid").toStr ++ "-incoming"),
      .other "include => public-direct-dial"], line.unending = false :=
    List.forall_mem_cons.2 ⟨rfl, List.forall_mem_singleton.2 rfl⟩
  have hend : ∀ line ∈ [Line.other "; hangup logic",
      .exten "h" ("1,NoOp(Hanging up incoming call from provider: " ++ (p.get "name").toStr ++
        " to " ++ var "EXTEN" ++ ")"), .exten "h" "n,Macro(missedcallmail)", .other ""],
      line.unending = false :=
    List.forall_mem_cons.2 ⟨rfl, List.forall_mem_cons.2 ⟨rfl, List.forall_mem_cons.2 ⟨rfl,
      List.forall_mem_singleton.2 rfl⟩⟩⟩
  have hhangup : (Line.other "; hangup logic").Idle := ⟨rfl, rfl, rfl⟩
  have hnames : Continuing ((entrances p).flatMap (Entrance.lines g p)) := by
    apply continuing_flatMap
    intro n hn
    obtain ⟨e, he, hn⟩ := List.mem_flatMap.1 hn
    exact continuing_entrance hg hp.unbroken (spelled_entrances hp he n hn)
  have hrest := hnames.settled
    ⟨spares_of_ended hend, fun line hline => Option.some.inj hline ▸ hhangup⟩ (settled_of_ended hend)
    (List.cons_ne_nil _ _)
  rw [generateProviderIncomingContext_eq]
  exact ((settled_of_ended hstart).append (settled_of_ended (ended_faxLines hg hp))).append hrest

/-- Everything that the configuration names is a context, for lemmas that say nothing of them. -/
theorem landing_true (l : Lists) (g : Globals) : Landing (fun _ => True) l g where
  internal := trivial
  publicDirectDial := trivial
  outgoingUri := trivial
  parkedcalls := trivial
  outgoing _ _ := trivial
  dialled _ _ _ := trivial
  virtualFaxes _ _ := trivial
  applications _ _ := trivial
  providers _ _ := ⟨fun _ _ _ _ => trivial, fun _ _ _ => trivial, fun _ _ _ => trivial⟩
  accounts _ _ _ _ := trivial

/-- What is written for the incoming calls of a provider. -/
def incomingPart (g : Globals) (p : Val) : List Line :=
  if (p.get "defaultfax").truthy || (p.get "incomingextensionmap").count != 0 then
    .other ("; incoming provider : " ++ (p.get "name").toStr) :: generateProviderIncomingContext g p
  else []

/-- What is written for its outgoing calls. -/
def outgoingPart (g : Globals) (p : Val) : List Line :=
  if (p.get "dialpattern").count != 0 then
    .other ("; outgoing provider : " ++ (p.get "name").toStr) :: generateProviderOutgoingContext g p
  else []

/-- The contexts of a provider are one for incoming calls and one for outgoing ones. -/
theorem providerContexts_eq (g : Globals) (p : Val) :
    providerContexts g p = incomingPart g p ++ (outgoingPart g p ++ [.other ""]) := List.append_assoc _ _ _

/-- In the context for incoming calls nothing is lost. -/
theorem settled_incomingPart (hg : Unbroken g.config) (hp : ProviderSpelled g p) :
    Settled (incomingPart g p) := by
  unfold incomingPart
  split_ifs
  · exact (@settled_of_ended [Line.other ("; incoming provider : " ++ (p.get "name").toStr)]
      (List.forall_mem_singleton.2 rfl)).append (settled_generateProviderIncomingContext hg hp)
  · exact settled_nil

/-- In the one for outgoing calls every line ends. -/
theorem ended_outgoingPart (hg : Unbroken g.config) (hp : ProviderSpelled g p) :
    ∀ line ∈ outgoingPart g p, line.unending = false := by
  have houtgoing : ∀ line ∈ generateProviderOutgoingContext g p, line.unending = false :=
    ended_of_allGood (T := fun _ => True) (X := fun _ => False)
      (allGood_generateProviderOutgoingContext hg hp.toOutgoingSpelled fun _ _ _ => trivial)
      fun _ h => h.elim
  unfold outgoingPart
  split_ifs
  · exact List.forall_mem_cons.2 ⟨rfl, houtgoing⟩
  · exact fun line hline => absurd hline List.not_mem_nil

/-- So nothing is lost in both. -/
theorem settled_providerContexts (hs : Spelled env l g) (hp : p ∈ enabled l.providers) :
    Settled (providerContexts g p) := by
  have hspelled := hs.providers p hp
  rw [providerContexts_eq]
  exact (settled_incomingPart hs.config hspelled).append (settled_of_ended (List.forall_mem_append.2
    ⟨ended_outgoingPart hs.config hspelled, List.forall_mem_singleton.2 rfl⟩))

/-- Only the contexts of providers have messages about a destination. -/
theorem ended_linesBeforeProviders (hs : Spelled env l g) :
    ∀ line ∈ linesBeforeProviders env l g, line.unending = false := by
  have hland := landing_true l g
  have hgood : AllGood (fun _ => True) (TypedLine l) (linesBeforeProviders env l g) := by
    unfold linesBeforeProviders
    refine (((((AllGood.append (allGood_macros hs.config hs.productName trivial) ?_).append
      allGood_blank).append ?_).append allGood_blank).append (allGood_publicDirectDial hs hland)).append
      (allGood_internalContext hs hland)
    · apply allGood_flatMap
      intro a ha
      have hspelled := hs.applications a ha
      apply AllGood.append (allGood_generateApplicationContext2 hspelled.unbroken hspelled.uniqid _) allGood_blank
      intro htext s hmem
      split_ifs with hinclude
      · exact ⟨a, ha, htext, s, hmem, by rw [if_pos hinclude]⟩
      · constructor
        · exact .inr ⟨a, ha, htext, s, hmem, by rw [if_neg hinclude]; exact .inl rfl⟩
        · exact .inr ⟨a, ha, htext, s, hmem, by rw [if_neg hinclude]; exact .inr rfl⟩
    · apply allGood_flatMap
      intro f hf
      have hspelled := hs.virtualFaxes f hf
      exact (allGood_generateVirtualFaxContext hs.config hspelled.unbroken hs.productName hs.newFax
        hspelled.uniqid).append allGood_blank
  exact ended_of_allGood hgood fun _ h => tidy_typed h

/-- Every line after the providers ends. -/
theorem ended_linesAfterProviders (hs : Spelled env l g) :
    ∀ line ∈ linesAfterProviders l g, line.unending = false := by
  have hland := landing_true l g
  have hgood : AllGood (fun _ => True) (fun _ => False) (linesAfterProviders l g) := by
    unfold linesAfterProviders
    refine (((AllGood.append ?_ allGood_blank).append ?_).append ?_).append allGood_outgoingUri
    · exact allGood_flatMap fun e he => allGood_multiContext hs hland he
    · apply allGood_flatMap
      intro p hp
      have hspelled := (hs.internalPhones p hp).1
      exact allGood_phoneContexts hspelled.unbroken hspelled.uniqid hs.providers
        (fun _ _ _ => trivial) trivial trivial trivial
    · apply allGood_flatMap
      intro f hf
      have hspelled := hs.analogFaxes f hf
      exact allGood_phoneContexts hspelled.unbroken hspelled.uniqid hs.providers
        (fun _ _ _ => trivial) trivial trivial trivial
  exact ended_of_allGood hgood fun _ h => h.elim

/-- Nothing is lost between the contexts of two providers. -/
theorem settled_providers (hs : Spelled env l g) :
    Settled ((enabled l.providers).flatMap (providerContexts g)) :=
  settled_flatMap fun _ hp => settled_providerContexts hs hp

/-- Nothing is lost in the whole dialplan. -/
theorem settled_confLines (hs : Spelled env l g) : Settled (confLines env l g) := by
  rw [confLines_providers]
  exact (settled_of_ended (ended_linesBeforeProviders hs)).append
    ((settled_providers hs).append (settled_of_ended (ended_linesAfterProviders hs)))

/-- Nothing is lost after the applications. -/
theorem settled_afterApplications (hs : Spelled env l g) : Settled (afterApplications env l g) := by
  have hsettled := settled_confLines hs
  rw [confLines_eq] at hsettled
  exact hsettled.right

/-- The contexts of the providers are the only ones in which lines go on with others. -/
theorem joined_confLines (hs : Spelled env l g) : joined (confLines env l g) = linesBeforeProviders env l g ++
    ((enabled l.providers).flatMap (fun p => joined (providerContexts g p)) ++ linesAfterProviders l g) := by
  rw [confLines_providers, joined_append (ended_linesBeforeProviders hs), (settled_providers hs).joined_append,
    joined_of_ended (ended_linesAfterProviders hs), joined_flatMap fun p hp => settled_providerContexts hs hp]

/-- The macros and the applications end their lines. -/
theorem ended_applications (hs : Spelled env l g) : ∀ line ∈ macros env g ++
    (enabled l.applications).flatMap (fun a => generateApplicationContext2 a ++ [.other ""]),
    line.unending = false := by
  intro line hline
  apply ended_linesBeforeProviders hs
  unfold linesBeforeProviders
  iterate 5 apply List.mem_append_left
  exact hline

/-- The macros, the contexts of the applications, and the rest. -/
theorem joined_confLines_applications (hs : Spelled env l g) : joined (confLines env l g) = macros env g ++
    (enabled l.applications).flatMap (fun a => generateApplicationContext2 a ++ [.other ""]) ++
      joined (afterApplications env l g) := by
  rw [confLines_eq, joined_append (ended_applications hs)]

/-! ## The text -/

/-- The messages there can be. -/
theorem messages (hs : Spelled env l g) {Y : Line → Prop} (hY : ∀ line, Message line → Y line) :
    Messages T (fun line => Y line ∨ line = .unended unmatchedText) l where
  override p hp _ := .inr (.inl (hY _ (message_overrideError
    (oneLine_get (hs.providers p hp).unbroken _))))
  unmatched _ _ _ _ _ := .inr rfl

/-- A line of the text is read as it is meant, or typed in, or a message. -/
theorem joined_cases (hs : Spelled env l g) (h : line ∈ joined (confLines env l g)) :
    line.proper = true ∨ TypedLine l line ∨ Message line := by
  have hgood : AllGood (fun _ => True)
      (fun line => (TypedLine l line ∨ Message line) ∨ line = .unended unmatchedText) (confLines env l g) := by
    apply allGood_confLines hs (landing_true l g)
    refine ⟨messages hs fun _ => .inr, ?_⟩
    intro a ha htext s hmem
    split_ifs with hinclude
    · exact .inl (.inl ⟨a, ha, htext, s, hmem, by rw [if_pos hinclude]⟩)
    · constructor
      · exact .inr (.inl (.inl ⟨a, ha, htext, s, hmem, by rw [if_neg hinclude]; exact .inl rfl⟩))
      · exact .inr (.inl (.inl ⟨a, ha, htext, s, hmem, by rw [if_neg hinclude]; exact .inr rfl⟩))
  have htidy : ∀ line, TypedLine l line ∨ Message line → line.tidy = true := by
    rintro line (htyped | hmessage)
    · exact tidy_typed htyped
    · exact hmessage.tidy
  rcases allGood_joined (settled_confLines hs) hgood htidy line h with hproper | (hX | hmessage)
  · exact .inl hproper.1
  · exact .inr hX
  · exact .inr (.inr hmessage)

/-- After joining every line is tidy. -/
theorem tidy_joined (hs : Spelled env l g) : ∀ line ∈ joined (confLines env l g), line.tidy = true := by
  intro line h
  rcases joined_cases hs h with hproper | htyped | hmessage
  · exact Line.tidy_of_proper hproper
  · exact tidy_typed htyped
  · exact hmessage.tidy

/-- The text is read line by line. -/
theorem entries_confLines (hs : Spelled env l g) :
    entries (render (confLines env l g)) = (joined (confLines env l g)).map Line.entry ++ [.blank] := by
  rw [← render_joined]
  exact entries_render (tidy_joined hs)

/-- The header of a context is as it should be. -/
theorem headerName_of_mem (hs : Spelled env l g) {n : String} (h : .context n ∈ confLines env l g) :
    headerName n = true := by
  have hexempt : Exempt (fun _ => True) (fun line => line ≠ .context n) l := by
    refine ⟨⟨fun _ _ _ => .inr nofun, fun _ _ _ _ _ => nofun⟩, ?_⟩
    intro a _ _ s _
    split_ifs
    · exact nofun
    · exact ⟨.inr nofun, .inr nofun⟩
  rcases allGood_confLines hs (landing_true l g) hexempt _ h with hproper | hne
  · exact hproper.1
  · exact absurd rfl hne

/-- A line that opens or names a context is one of the text. -/
theorem mem_joined_confLines (hs : Spelled env l g) (hline : line ∈ confLines env l g)
    (hended : line.unending = false) (htelling : ¬ line.Idle) : line ∈ joined (confLines env l g) :=
  mem_joined_of_telling (settled_confLines hs).spares hline hended htelling

end Settled

end Dialplan
end Askozia
