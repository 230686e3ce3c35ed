import Mathlib.Data.List.Find
import Askozia.Asterisk.Calls
import Askozia.Config.Requests
import Askozia.Dialplan.Incoming
import Askozia.Dialplan.Lists

/-!
# Hosts with several SIP accounts

A provider's calls come in through a context of its own. Where several accounts have one host, they
all come in through the context of the host, which sends them on to the one of the account: to its
extension `s`, whatever was called.

* `incomingContexts` are the contexts for incoming calls, and `incoming_written`, `shared_written`
  say that they are what is written.
* `SameRoute` is what the context of the host is for: calls go where they would go without it.
* `sameRoute_iff` says when they do.
-/

namespace Askozia
namespace Dialplan

open Php Config Pbx Asterisk

/-! ## Extensions -/

/-- What becomes of a call: it is put through, sent on to an account, ends, or goes to an extension
of `public-direct-dial`. -/
inductive Lead where
  | destination (d : Val)
  | account (context : String)
  | hangup
  | direct (name : String)
deriving DecidableEq

/-- A context for incoming calls. -/
structure Context where
  name : String
  includesDirect : Bool
  extensions : List (String × Lead)

section Pick

variable {α : Type} (best : (String → Bool) → String → Option String)

/-- What a call finds: the first under its name, or else what is under the best of the patterns. -/
def pick (xs : List (String × α)) (called : String) : Option α :=
  (if isPattern called then none else xs.lookup called).or
    ((best (fun n => isPattern n && (xs.lookup n).isSome) called).bind fun n =>
      if isPattern n then xs.lookup n else none)

end Pick

/-- The names the lines for an entry of `$groupped_mapping` are under. -/
def entryNames (p : Val) (key : Key) : List String :=
  if is key.val "all" then catchAll p
  else if verifyIsNumericint key.toStr then [key.toStr]
  else ["_" ++ key.toStr]

/-- The extensions of the context of a provider, in the order they are written in. -/
def incomingExtensions (p : Val) : List (String × Lead) :=
  (if (p.get "defaultfax").truthy then [("fax", .destination (p.get "defaultfax"))] else []) ++
  (grouppedMapping p).entries.flatMap
    (fun e => (entryNames p e.1).map (·, .destination (destinationOf e))) ++
  [("h", .hangup)]

/-- The context of a provider is generated. -/
def hasIncoming (p : Val) : Bool :=
  (p.get "defaultfax").truthy || (p.get "incomingextensionmap").count != 0

/-- The name of the context of a provider. -/
def incomingName (p : Val) : String := (p.get "uniqid").toStr ++ "-incoming"

/-- The name of the context of a host. -/
def sharedName (host : Key) : String := "SIP-PROVIDER-" ++ host.toStr ++ "-incoming"

/-- The context of a provider. -/
def incomingContext (p : Val) : Context := ⟨incomingName p, true, incomingExtensions p⟩

/-- The context of a host with several accounts. -/
def sharedContext (g : Globals) (e : Key × Val) : Context :=
  ⟨sharedName e.1, false, e.2.vals.map fun id =>
    let sp := getElement g (.provider .sip) id.toStr
    ((sp.get "username").toStr, .account (incomingName sp))⟩

/-- The contexts for incoming calls, in the order they are written in. -/
def incomingContexts (l : Lists) (g : Globals) : List Context :=
  ((enabled l.providers).filter hasIncoming).map incomingContext ++
    (sipGetHostsWithMultipleAccounts l.sipProviders).map (sharedContext g)

/-- The name of the extension that a line begins. -/
def Line.started : Line → Option String
  | .exten name rest => if (Line.exten name rest).first then some name else none
  | _ => none

/-- The extensions of `public-direct-dial`. -/
def directExtensions (l : Lists) (g : Globals) : List (String × Lead) :=
  ((publicDirectDial g l).filterMap Line.started).map fun n => (n, .direct n)

/-! ## Calls -/

/-- The context `sip_conf_generate` gives a provider. -/
def sipContext (sipProviders : List Val) (p : Val) : String :=
  (sipGetHostsWithMultipleAccounts sipProviders).foldl
    (fun context e => if inArray (p.get "uniqid") e.2 then sharedName e.1 else context) (incomingName p)

section Calls

variable (best : (String → Bool) → String → Option String)

/-- What a call finds among the extensions of a context, and then among those it includes. -/
def Context.find (direct : List (String × Lead)) (c : Context) (called : String) : Option Lead :=
  (pick best c.extensions called).or (if c.includesDirect then pick best direct called else none)

/-- What a call finds in the context of a name. -/
def enter (l : Lists) (g : Globals) (context called : String) : Option Lead :=
  ((incomingContexts l g).find? (·.name == context)).bind
    (Context.find best (directExtensions l g) · called)

/-- A call for an account goes on to the extension `s` of its context. -/
def follow (l : Lists) (g : Globals) : Lead → Option Lead
  | .account context => enter best l g context "s"
  | lead => some lead

/-- What becomes of a call. -/
def arrive (l : Lists) (g : Globals) (context called : String) : Option Lead :=
  (enter best l g context called).bind (follow best l g)

/-- A call to the username goes where the provider's own context sends it. -/
def SameRoute (l : Lists) (g : Globals) (p : Val) : Prop :=
  arrive best l g (sipContext l.sipProviders p) (p.get "username").toStr =
    arrive best l g (incomingName p) (p.get "username").toStr

end Calls

/-! ## Maps -/

/-- Where the calls for a map go: to the destinations of all maps with its pattern. -/
def together (p m : Val) : Val :=
  match ((incomingMaps p).filter (mapKey · == mapKey m)).map (·.get "destinationid") with
  | [d] => d
  | ds => .ofList ds

/-- What the maps of a provider ask for, one by one. -/
def mapExtensions (p : Val) : List (String × Lead) :=
  (if (p.get "defaultfax").truthy then [("fax", .destination (p.get "defaultfax"))] else []) ++
  (incomingMaps p).flatMap
    (fun m => (entryNames p (mapKey m)).map (·, .destination (together p m))) ++
  [("h", .hangup)]

/-- What the maps of a provider, and then `public-direct-dial`, have for a call. -/
def mapsTake (best : (String → Bool) → String → Option String) (direct : List (String × Lead)) (p : Val)
    (called : String) : Option Lead :=
  if hasIncoming p then (pick best (mapExtensions p) called).or (pick best direct called) else none

/-- The accounts that are not disabled and have the host of an account. -/
def accountsOn (l : Lists) (p : Val) : List Val :=
  (enabled l.sipProviders).filter fun q => (q.get "host").key == (p.get "host").key

/-- The account a call for the username of an account is sent to. -/
def accountFor (best : (String → Bool) → String → Option String) (l : Lists) (p : Val) : Option Val :=
  pick best ((accountsOn l p).map fun q => ((q.get "username").toStr, q)) (p.get "username").toStr

/-! ## Lists -/

section Lists

variable {α β γ : Type}

/-- Leaving out repetitions does not change what is found first. -/
theorem find?_eraseDups [DecidableEq α] (xs : List α) (f : α → Bool) :
    xs.eraseDups.find? f = xs.find? f := by
  induction hn : xs.length using Nat.strongRecOn generalizing xs with
  | _ n ih =>
    cases xs with
    | nil => rfl
    | cons x r =>
      have hlength : (r.filter fun y => !y == x).length < n := by
        have hle := List.length_filter_le (fun y => !y == x) r
        rw [← hn, List.length_cons]
        omega
      rw [List.eraseDups_cons, List.find?_cons, List.find?_cons]
      cases hx : f x with
      | true => rfl
      | false =>
        rw [ih _ hlength _ rfl, List.find?_filter]
        apply List.find?_congr
        intro y _
        -- what is left out is not looked for
        by_cases hy : y = x
        · rw [hy, hx]
          simp
        · simp [hy]

/-- Of lists with names, the first that has the name decides. -/
theorem lookup_flatMap (xs : List α) (names : α → List String) (f : α → β) (n : String) :
    (xs.flatMap fun x => (names x).map (·, f x)).lookup n = (xs.find? fun x => (names x).contains n).map f := by
  induction xs with
  | nil => rfl
  | cons x r ih =>
    have hone : ∀ ns : List String, (ns.map (·, f x)).lookup n = if ns.contains n then some (f x) else none := by
      intro ns
      induction ns with
      | nil => rfl
      | cons m ms ih =>
        rw [List.map_cons, List.lookup_cons, ih, List.contains_cons]
        cases hm : n == m with
        | true => rfl
        | false => rfl
    rw [List.flatMap_cons, List.lookup_append, hone, ih, List.find?_cons]
    cases (names x).contains n with
    | true => rfl
    | false => rfl

/-- The last entry that is right is taken, so that it does not matter where the only one is. -/
theorem foldl_ite_of_unique (xs : List α) (P : α → Bool) (f : α → β) (init : β) {x : α} (hx : x ∈ xs)
    (hP : P x = true) (hunique : ∀ y ∈ xs, P y = true → y = x) :
    xs.foldl (fun c y => if P y then f y else c) init = f x := by
  induction xs using List.reverseRecOn with
  | nil => exact absurd hx List.not_mem_nil
  | append_singleton xs y ih =>
    rw [List.foldl_append, List.foldl_cons, List.foldl_nil]
    split_ifs with hy
    · rw [hunique y (List.mem_append_right _ List.mem_cons_self) hy]
    · have hmem : x ∈ xs := by
        rcases List.mem_append.1 hx with hmem | hmem
        · exact hmem
        · rw [← List.mem_singleton.1 hmem] at hy
          exact absurd hP hy
      exact ih hmem fun z hz => hunique z (List.mem_append_left _ hz)

/-- A loop keeps what it started with if no element is taken. -/
theorem foldl_ite_of_none (xs : List α) (P : α → Bool) (f : α → β) (init : β)
    (hnone : ∀ y ∈ xs, P y = false) : xs.foldl (fun c y => if P y then f y else c) init = init := by
  induction xs with
  | nil => rfl
  | cons y r ih =>
    rw [List.foldl_cons, hnone y List.mem_cons_self]
    exact ih fun z hz => hnone z (List.mem_cons_of_mem _ hz)

/-- What is found is decided by what is under each name. -/
theorem pick_congr {best : (String → Bool) → String → Option String} {xs ys : List (String × α)}
    (h : ∀ n, xs.lookup n = ys.lookup n) (called : String) : pick best xs called = pick best ys called := by
  unfold pick
  simp only [h]

/-- What is found does not depend on what it is. -/
theorem pick_map (best : (String → Bool) → String → Option String) (xs : List (String × α)) (f : α → β)
    (called : String) : pick best (xs.map fun x => (x.1, f x.2)) called = (pick best xs called).map f := by
  have hlookup : ∀ n, (xs.map fun x => (x.1, f x.2)).lookup n = (xs.lookup n).map f := by
    intro n
    induction xs with
    | nil => rfl
    | cons x r ih =>
      rw [List.map_cons, List.lookup_cons, List.lookup_cons, ih]
      cases n == x.1 with
      | true => rfl
      | false => rfl
  unfold pick
  simp only [hlookup, Option.isSome_map]
  rw [Option.map_or]
  congr 1
  · split_ifs
    · rfl
    · rfl
  · rw [Option.map_bind]
    congr 1
    funext n
    rw [Function.comp_apply]
    split_ifs
    · rfl
    · rfl

end Lists

/-! ## What is written -/

section Written

variable {l : Lists} {g : Globals} {p : Val}

/-- The lines for an extension of the context of a provider. -/
inductive WrittenAs (g : Globals) (p : Val) : String × Lead → List Line → Prop
  | fax : WrittenAs g p ("fax", .destination (p.get "defaultfax"))
      (.exten "fax" ("1,NoOp(incoming fax from provider: " ++ (p.get "name").toStr ++ " to " ++
        var "EXTEN" ++ ")") :: generateExtensionFromUniqid g (p.get "defaultfax") true none (some "fax"))
  | incoming (exten faxExten : String) (readbacknum : Option String) (d : Val) :
      WrittenAs g p (exten, .destination d) (incomingExtension g p exten faxExten readbacknum d)
  | hangup : WrittenAs g p ("h", .hangup) (incomingEnd p)

/-- The entry of a pattern is written as one block for each name of the pattern. -/
theorem written_entry (e : Key × Val) : ∃ blocks : List (List Line),
    List.Forall₂ (WrittenAs g p) ((entryNames p e.1).map (·, Lead.destination (destinationOf e))) blocks ∧
      incomingPattern g p e = blocks.flatten := by
  rw [incomingPattern_eq]
  unfold entryNames
  split_ifs
  · refine ⟨(catchAll p).map fun c => incomingExtension g p c c (providerReadbacknum p) (destinationOf e),
      ?_, rfl⟩
    rw [List.forall₂_map_left_iff, List.forall₂_map_right_iff]
    exact List.forall₂_same.2 fun c _ => .incoming _ _ _ _
  · exact ⟨[_], .cons (.incoming _ _ _ _) .nil, (List.append_nil _).symm⟩
  · exact ⟨[_], .cons (.incoming _ _ _ _) .nil, (List.append_nil _).symm⟩

/-- So are all entries of a provider. -/
theorem written_entries (es : List (Key × Val)) : ∃ blocks : List (List Line),
    List.Forall₂ (WrittenAs g p)
      (es.flatMap fun e => (entryNames p e.1).map (·, Lead.destination (destinationOf e))) blocks ∧
      es.flatMap (incomingPattern g p) = blocks.flatten := by
  induction es with
  | nil => exact ⟨[], .nil, rfl⟩
  | cons e r ih =>
    obtain ⟨blocks, hblocks, hlines⟩ := written_entry (g := g) (p := p) e
    obtain ⟨blocks', hblocks', hlines'⟩ := ih
    refine ⟨blocks ++ blocks', ?_, ?_⟩
    · rw [List.flatMap_cons]
      exact List.rel_append hblocks hblocks'
    · rw [List.flatMap_cons, hlines, hlines', List.flatten_append]

/-- The context of a provider is written extension by extension. -/
theorem incoming_written : ∃ blocks : List (List Line),
    List.Forall₂ (WrittenAs g p) (incomingContext p).extensions blocks ∧
      generateProviderIncomingContext g p =
        [.context (incomingContext p).name, .other "include => public-direct-dial"] ++ blocks.flatten := by
  obtain ⟨blocks, hblocks, hlines⟩ := written_entries (g := g) (p := p) (grouppedMapping p).entries
  have hend : List.Forall₂ (WrittenAs g p) [("h", .hangup)] [incomingEnd p] := .cons .hangup .nil
  unfold generateProviderIncomingContext incomingContext incomingExtensions
  rw [hlines]
  split_ifs
  · refine ⟨[_] ++ blocks ++ [incomingEnd p], List.rel_append (List.rel_append (.cons .fax .nil) hblocks) hend, ?_⟩
    rw [List.flatten_append, List.flatten_append, List.flatten_singleton, List.flatten_singleton]
    simp only [List.append_assoc]
    rfl
  · refine ⟨[] ++ blocks ++ [incomingEnd p], List.rel_append (List.rel_append .nil hblocks) hend, ?_⟩
    rw [List.flatten_append, List.flatten_append, List.flatten_singleton]
    simp only [List.append_assoc]
    rfl

/-- The line for an extension of the context of a host. -/
def WrittenAccount (x : String × Lead) (line : Line) : Prop :=
  ∃ context, x.2 = .account context ∧ line = .exten x.1 ("1,Goto(" ++ context ++ ",s,1)")

/-- The context of a host is written account by account. -/
theorem shared_written (e : Key × Val) : ∃ lines : List Line,
    List.Forall₂ WrittenAccount (sharedContext g e).extensions lines ∧
      multiContext g e = [.other ("; multiple SIP Provider accounts found for host : " ++ e.1.toStr),
        .context (sharedContext g e).name] ++ lines := by
  refine ⟨_, ?_, rfl⟩
  unfold sharedContext
  rw [List.forall₂_map_left_iff, List.forall₂_map_right_iff]
  refine List.forall₂_same.2 fun id _ => ⟨_, rfl, ?_⟩
  have hend : "-incoming,s,1)" = "-incoming" ++ ",s,1)" := by decide
  rw [hend]
  simp only [incomingName, String.append_assoc]

end Written

/-! ## Names and maps -/

section Maps

variable {p : Val} {best : (String → Bool) → String → Option String} {direct : List (String × Lead)}

/-- The first block of a name is the one that counts. -/
theorem lookup_incomingExtensions (n : String) :
    (incomingExtensions p).lookup n = (mapExtensions p).lookup n := by
  have htogether : ∀ m, destinationOf (keyEntry p (mapKey m)) = together p m := by
    intro m
    unfold destinationOf together keyEntry
    dsimp only
    generalize ((incomingMaps p).filter (mapKey · == mapKey m)).map (·.get "destinationid") = ds
    match ds with
    | [] => rfl
    | [d] => rfl
    | d :: d' :: r =>
      have hcount : (Val.ofList (d :: d' :: r)).count ≠ 1 := by
        rw [Val.ofList_count, List.length_cons, List.length_cons]
        omega
      simp [hcount]
  unfold incomingExtensions mapExtensions
  rw [List.lookup_append, List.lookup_append, List.lookup_append, List.lookup_append]
  congr 2
  have hnames : ∀ k, entryNames p (keyEntry p k).1 = entryNames p k := fun _ => rfl
  rw [entries_grouppedMapping, List.flatMap_map]
  simp only [hnames]
  rw [lookup_flatMap _ (fun k => entryNames p k), find?_eraseDups, List.find?_map, Option.map_map,
    lookup_flatMap _ fun m => entryNames p (mapKey m)]
  congr 1
  funext m
  rw [Function.comp_apply, htogether]

/-- What a context finds for a number is what the maps of the provider take it to. -/
theorem incomingContext_find (called : String) (h : hasIncoming p = true) :
    (incomingContext p).find best direct called = mapsTake best direct p called := by
  unfold mapsTake
  rw [if_pos h, ← pick_congr lookup_incomingExtensions]
  rfl

end Maps

/-! ## Accounts of a host -/

/-- The key of the host of an account. -/
def hostKey (p : Val) : Key := (p.get "host").key

/-- The entry for the host of an account. -/
def hostEntry (l : Lists) (p : Val) : Key × Val :=
  (hostKey p, .ofList ((accountsOn l p).map (·.get "uniqid")))

section Hosts

variable {l : Lists} {p q : Val}

/-- Providers on one host share its accounts. -/
theorem accountsOn_eq (h : hostKey q = hostKey p) : accountsOn l q = accountsOn l p := by
  unfold accountsOn
  rw [show (q.get "host").key = (p.get "host").key from h]

/-- They share its entry. -/
theorem hostEntry_eq (h : hostKey q = hostKey p) : hostEntry l q = hostEntry l p := by
  unfold hostEntry
  rw [h, accountsOn_eq h]

/-- The accounts of a host are the enabled providers on it. -/
theorem mem_accountsOn : q ∈ accountsOn l p ↔ q ∈ enabled l.sipProviders ∧ hostKey q = hostKey p := by
  unfold accountsOn hostKey
  rw [List.mem_filter, beq_iff_eq]

/-- The hosts that are reported are those with more than one account. -/
theorem mem_hosts {e : Key × Val} : e ∈ sipGetHostsWithMultipleAccounts l.sipProviders ↔
    ∃ q ∈ enabled l.sipProviders, e = hostEntry l q ∧ 1 < (accountsOn l q).length := by
  have hgroups : (accountsOfHosts l.sipProviders).entries =
      ((enabled l.sipProviders).map hostKey).eraseDups.map fun k =>
        (k, Val.ofList (((enabled l.sipProviders).filter (hostKey · == k)).map (·.get "uniqid"))) := by
    have h := Val.foldl_group hostKey id (·.get "uniqid") (enabled l.sipProviders) fun _ _ _ _ => id
    exact congrArg Val.entries h
  have hcount : ∀ q, (hostEntry l q).2.count = (accountsOn l q).length := by
    intro q
    unfold hostEntry
    rw [Val.ofList_count, List.length_map]
  unfold sipGetHostsWithMultipleAccounts
  rw [List.mem_filter, hgroups, List.mem_map]
  constructor
  · rintro ⟨⟨k, hk, rfl⟩, hmany⟩
    obtain ⟨q, hq, rfl⟩ := List.mem_map.1 (List.mem_eraseDups.1 hk)
    refine ⟨q, hq, rfl, ?_⟩
    rw [← hcount]
    exact of_decide_eq_true hmany
  · rintro ⟨q, hq, rfl, hmany⟩
    refine ⟨⟨hostKey q, List.mem_eraseDups.2 (List.mem_map_of_mem hq), rfl⟩, ?_⟩
    rw [hcount]
    exact decide_eq_true hmany

end Hosts

/-! ## The configuration -/

/-- The accounts are told from others by their `uniqid`s, and no host is spelled like the rest of one. -/
structure Identified (config : Val) : Prop where
  sip : ∀ p ∈ elements config (.provider .sip), ∃ r, p.get "uniqid" = .str ("SIP-PROVIDER-" ++ r)
  host : ∀ p ∈ elements config (.provider .sip), ∃ s, p.get "host" = .str s
  apart : ∀ t, ∀ p ∈ elements config (.provider t), ∀ q ∈ elements config (.provider .sip),
    (p.get "uniqid").toStr ≠ "SIP-PROVIDER-" ++ (q.get "host").toStr

section Accounts

variable {config : Val} (usort : Usort) {p q : Val}

/-- Fetching the SIP providers only sorts them. -/
theorem perm_sipProviders (hproper : ProperLists config) :
    (fetchLists usort (indexed config)).1.sipProviders.Perm (elements config (.provider .sip)) := by
  have hlists := rearranged_fetchLists usort (g := indexed config) hproper
  have hinit := rearranged_initList hlists.lists (.provider .sip)
  have hel := (hlists.trans hinit).elements (.provider .sip) (by decide) (by decide)
  refine (usort.perm _ _).trans ?_
  exact List.Perm.of_eq hel

/-- The account that a context is for is found by its id. -/
theorem getElement_account (h : WellFormed config) {u : String}
    (hq : q ∈ elements config (.provider .sip)) (hu : q.get "uniqid" = .str u) :
    getElement (fetchLists usort (indexed config)).2 (.provider .sip) u = q := by
  have hlists := rearranged_fetchLists usort (g := indexed config) h.lists
  have hsame : elements (fetchLists usort (indexed config)).2.config (.provider .sip) =
      elements config (.provider .sip) := hlists.elements _ (by decide) (by decide)
  have hq' := hq
  rw [← hsame] at hq'
  obtain ⟨i, hi, rfl⟩ := List.getElem_of_mem hq'
  have hi' : i < (elements config (.provider .sip)).length := hsame ▸ hi
  have hoffset := h.offset hi'
  have helement : (elements config (.provider .sip))[i] =
      (elements (fetchLists usort (indexed config)).2.config (.provider .sip))[i] := by simp only [hsame]
  rw [helement, hu] at hoffset
  have hmap : (fetchLists usort (indexed config)).2.uniqidMap = configBuildUniqidMap config := hlists.uniqidMap
  unfold getElement
  rw [hmap, hoffset]
  exact idx_of_proper hlists.lists hi

/-- The name of a shared context is no number. -/
theorem number?_sip (r : String) : number? ("SIP-PROVIDER-" ++ r) = none := by
  unfold number?
  rw [String.toList_append]
  rfl

/-- Accounts with one `uniqid` are one. -/
theorem account_ext (h : WellFormed config) (hp : p ∈ elements config (.provider .sip))
    (hq : q ∈ elements config (.provider .sip)) (heq : p.get "uniqid" = q.get "uniqid") : p = q := by
  obtain ⟨i, hi, rfl⟩ := List.getElem_of_mem hp
  obtain ⟨j, hj, rfl⟩ := List.getElem_of_mem hq
  obtain ⟨-, rfl⟩ := h.eq_of_uniqid hi hj heq
  rfl

/-- `in_array` finds an account among those of a host if it is one of them. -/
theorem inArray_hostEntry {l : Lists} (h : WellFormed config) (hid : Identified config)
    (hl : ∀ r ∈ l.sipProviders, r ∈ elements config (.provider .sip))
    (hp : p ∈ enabled l.sipProviders) :
    inArray (p.get "uniqid") (hostEntry l q).2 = true ↔ hostKey q = hostKey p := by
  have hp' := hl p (mem_enabled.1 hp).1
  unfold inArray hostEntry
  rw [Val.vals_ofList, List.any_eq_true]
  constructor
  · rintro ⟨v, hv, heq⟩
    obtain ⟨r, hr, rfl⟩ := List.mem_map.1 hv
    obtain ⟨hr, hhost⟩ := mem_accountsOn.1 hr
    have hr' := hl r (mem_enabled.1 hr).1
    obtain ⟨a, ha⟩ := hid.sip p hp'
    obtain ⟨b, hb⟩ := hid.sip r hr'
    rw [ha, hb, Val.looseEq, number?_sip] at heq
    have hsame : p = r := account_ext h hp' hr' (by rw [ha, hb, beq_iff_eq.1 heq])
    rw [hsame, hhost]
  · intro hhost
    refine ⟨_, List.mem_map_of_mem (mem_accountsOn.2 ⟨hp, hhost.symm⟩), ?_⟩
    obtain ⟨a, ha⟩ := hid.sip p hp'
    rw [ha, Val.looseEq, number?_sip]
    exact beq_self_eq_true _

end Accounts

/-! ## Contexts -/

/-- The lists are those of the configuration, and its accounts are found. -/
structure Fetched (config : Val) (l : Lists) (g : Globals) : Prop where
  accounts : ∀ q, q ∈ l.sipProviders ↔ q ∈ elements config (.provider .sip)
  providers : ∀ q, q ∈ l.providers ↔ ∃ t, t ≠ .skinny ∧ q ∈ elements config (.provider t)
  found : ∀ q ∈ elements config (.provider .sip), ∀ u, q.get "uniqid" = .str u →
    getElement g (.provider .sip) u = q

/-- What the lists and the configuration have in common once they were fetched. -/
theorem fetched (usort : Usort) {config : Val} (h : WellFormed config) :
    Fetched config (fetchLists usort (indexed config)).1 (fetchLists usort (indexed config)).2 where
  accounts _ := (perm_sipProviders usort h.lists).mem_iff
  providers _ := mem_providers usort (g := indexed config) h.lists
  found _ hq _ hu := getElement_account usort h hq hu

/-- An element whose name is its own is found by the name. -/
theorem find?_map_of_unique {α β : Type} {xs : List α} (f : α → β) (name : β → String) {x : α} (hx : x ∈ xs)
    (hunique : ∀ y ∈ xs, name (f y) = name (f x) → f y = f x) :
    (xs.map f).find? (name · == name (f x)) = some (f x) := by
  cases hfind : (xs.map f).find? (name · == name (f x)) with
  | none =>
    have hnone := List.find?_eq_none.1 hfind (f x) (List.mem_map_of_mem hx)
    exact absurd (beq_self_eq_true _) hnone
  | some c =>
    obtain ⟨y, hy, rfl⟩ := List.mem_map.1 (List.mem_of_find?_eq_some hfind)
    have hname := List.find?_some (p := (name · == name (f x))) hfind
    rw [hunique y hy (beq_iff_eq.1 hname)]

/-- What is picked is there. -/
theorem mem_of_pick {α : Type} {best : (String → Bool) → String → Option String} {xs : List (String × α)}
    {called : String} {x : α} (h : pick best xs called = some x) : ∃ n, (n, x) ∈ xs := by
  have hlookup : ∀ n, xs.lookup n = some x → (n, x) ∈ xs := by
    intro n hn
    rw [List.lookup_eq_some_iff] at hn
    obtain ⟨before, after, rfl, -⟩ := hn
    exact List.mem_append_right _ List.mem_cons_self
  unfold pick at h
  rcases Option.or_eq_some_iff.1 h with h | ⟨-, h⟩
  · split_ifs at h
    exact ⟨called, hlookup _ h⟩
  · obtain ⟨n, -, h⟩ := Option.bind_eq_some_iff.1 h
    split_ifs at h
    exact ⟨n, hlookup _ h⟩

section Contexts

variable {best : (String → Bool) → String → Option String} {config : Val} {l : Lists} {g : Globals} {p q : Val}
  {called : String}

/-- The name of the context that the accounts of a host share. -/
theorem sharedName_toStr (hid : Identified config) (hq : q ∈ elements config (.provider .sip)) :
    sharedName (hostKey q) = "SIP-PROVIDER-" ++ (q.get "host").toStr ++ "-incoming" := by
  obtain ⟨s, hs⟩ := hid.host q hq
  unfold sharedName hostKey
  rw [hs]
  have hkey : (Val.str s).key.toStr = s := toStr_patternKey s
  rw [hkey]
  rfl

/-- No provider's own context has that name. -/
theorem incomingName_ne (hid : Identified config) {t : Tech} (hp : p ∈ elements config (.provider t))
    (hq : q ∈ elements config (.provider .sip)) : incomingName p ≠ sharedName (hostKey q) := by
  rw [sharedName_toStr hid hq]
  intro heq
  exact hid.apart t p hp q hq ((String.append_left_inj _).1 heq)

/-- Different hosts have different names. -/
theorem hostKey_of_sharedName (hid : Identified config) (hp : p ∈ elements config (.provider .sip))
    (hq : q ∈ elements config (.provider .sip)) (heq : sharedName (hostKey q) = sharedName (hostKey p)) :
    hostKey q = hostKey p := by
  rw [sharedName_toStr hid hq, sharedName_toStr hid hp, String.append_left_inj, String.append_right_inj] at heq
  obtain ⟨a, ha⟩ := hid.host q hq
  obtain ⟨b, hb⟩ := hid.host p hp
  rw [ha, hb] at heq
  unfold hostKey
  rw [ha, hb, show a = b from heq]

/-- Providers whose contexts have one name are one. -/
theorem provider_ext (h : WellFormed config) {t t' : Tech} (hp : p ∈ elements config (.provider t))
    (hq : q ∈ elements config (.provider t')) (heq : incomingName q = incomingName p) : q = p := by
  obtain ⟨u, -, hu⟩ := h.uniqids _ p hp
  obtain ⟨v, -, hv⟩ := h.uniqids _ q hq
  have huv : (q.get "uniqid").toStr = (p.get "uniqid").toStr := (String.append_left_inj _).1 heq
  have hget : q.get "uniqid" = p.get "uniqid" := by
    rw [hu, hv] at huv ⊢
    exact congrArg Val.str huv
  obtain ⟨i, hi, rfl⟩ := List.getElem_of_mem hp
  obtain ⟨j, hj, rfl⟩ := List.getElem_of_mem hq
  obtain ⟨hkind, rfl⟩ := h.eq_of_uniqid hj hi hget
  obtain rfl := Kind.provider.inj hkind
  rfl

/-- A call in the context of an account finds what its maps have for it. -/
theorem enter_incoming (h : WellFormed config) (hid : Identified config) (hl : Fetched config l g)
    (hp : p ∈ enabled l.sipProviders) :
    enter best l g (incomingName p) called = mapsTake best (directExtensions l g) p called := by
  obtain ⟨hmem, hset⟩ := mem_enabled.1 hp
  have hp' := (hl.accounts p).1 hmem
  have hshared : ((sipGetHostsWithMultipleAccounts l.sipProviders).map (sharedContext g)).find?
      (·.name == incomingName p) = none := by
    apply List.find?_eq_none.2
    intro c hc
    obtain ⟨e, he, rfl⟩ := List.mem_map.1 hc
    obtain ⟨q, hq, rfl, -⟩ := mem_hosts.1 he
    have hq' := (hl.accounts q).1 (mem_enabled.1 hq).1
    rw [beq_iff_eq]
    exact (incomingName_ne hid hp' hq').symm
  have hown : ∀ q ∈ (enabled l.providers).filter hasIncoming, incomingName q = incomingName p → q = p := by
    intro q hq heq
    obtain ⟨t, -, hq'⟩ := (hl.providers q).1 (mem_enabled.1 (List.mem_filter.1 hq).1).1
    exact provider_ext h hp' hq' heq
  unfold enter incomingContexts
  rw [List.find?_append, hshared, Option.or_none]
  cases hincoming : hasIncoming p with
  | true =>
    have hlisted : p ∈ (enabled l.providers).filter hasIncoming :=
      List.mem_filter.2 ⟨mem_enabled.2 ⟨(hl.providers p).2 ⟨.sip, by decide, hp'⟩, hset⟩, hincoming⟩
    have hfind := find?_map_of_unique incomingContext Context.name hlisted
      fun q hq heq => congrArg incomingContext (hown q hq heq)
    rw [show (incomingContext p).name = incomingName p from rfl] at hfind
    rw [hfind, Option.bind_some, incomingContext_find called hincoming]
  | false =>
    -- without a fax and maps there is no context
    have hnone : (((enabled l.providers).filter hasIncoming).map incomingContext).find?
        (·.name == incomingName p) = none := by
      apply List.find?_eq_none.2
      intro c hc
      obtain ⟨q, hq, rfl⟩ := List.mem_map.1 hc
      rw [beq_iff_eq]
      intro heq
      have hq' := (List.mem_filter.1 hq).2
      rw [hown q hq heq, hincoming] at hq'
      cases hq'
    rw [hnone]
    unfold mapsTake
    rw [hincoming]
    rfl

/-- A call in the context of a host is for the account that has what is called as its username. -/
theorem enter_shared (h : WellFormed config) (hid : Identified config) (hl : Fetched config l g)
    (hp : p ∈ enabled l.sipProviders) (hmany : 1 < (accountsOn l p).length) :
    enter best l g (sharedName (hostKey p)) (p.get "username").toStr =
      (accountFor best l p).map fun t => .account (incomingName t) := by
  have hp' := (hl.accounts p).1 (mem_enabled.1 hp).1
  -- no provider's own context has the name of a host
  have hown : (((enabled l.providers).filter hasIncoming).map incomingContext).find?
      (·.name == sharedName (hostKey p)) = none := by
    apply List.find?_eq_none.2
    intro c hc
    obtain ⟨q, hq, rfl⟩ := List.mem_map.1 hc
    obtain ⟨t, -, hq'⟩ := (hl.providers q).1 (mem_enabled.1 (List.mem_filter.1 hq).1).1
    rw [beq_iff_eq]
    exact incomingName_ne hid hq' hp'
  have hentry := mem_hosts.2 ⟨p, hp, rfl, hmany⟩
  -- and only one host has it
  have hfind := find?_map_of_unique (sharedContext g) Context.name hentry (by
    intro e he heq
    obtain ⟨q, hq, rfl, -⟩ := mem_hosts.1 he
    have hq' := (hl.accounts q).1 (mem_enabled.1 hq).1
    rw [hostEntry_eq (hostKey_of_sharedName hid hp' hq' heq)])
  rw [show (sharedContext g (hostEntry l p)).name = sharedName (hostKey p) from rfl] at hfind
  have hextensions : (sharedContext g (hostEntry l p)).extensions =
      ((accountsOn l p).map fun q => ((q.get "username").toStr, q)).map
        fun x => (x.1, Lead.account (incomingName x.2)) := by
    unfold sharedContext hostEntry
    rw [Val.vals_ofList, List.map_map, List.map_map]
    apply List.map_congr_left
    intro q hq
    have hq' := (hl.accounts q).1 (mem_enabled.1 (mem_accountsOn.1 hq).1).1
    obtain ⟨u, -, hu⟩ := h.uniqids _ q hq'
    rw [Function.comp_apply, Function.comp_apply, hu, hl.found q hq' (Val.str u).toStr hu]
  unfold enter incomingContexts
  rw [List.find?_append, hown, Option.none_or, hfind, Option.bind_some]
  unfold Context.find
  rw [hextensions, pick_map best _ fun t => Lead.account (incomingName t)]
  exact Option.or_none

/-- The context of an account in `sip.conf`. -/
theorem sipContext_eq (h : WellFormed config) (hid : Identified config) (hl : Fetched config l g)
    (hp : p ∈ enabled l.sipProviders) :
    sipContext l.sipProviders p =
      if 1 < (accountsOn l p).length then sharedName (hostKey p) else incomingName p := by
  have hin : ∀ q, inArray (p.get "uniqid") (hostEntry l q).2 = true ↔ hostKey q = hostKey p := fun q =>
    inArray_hostEntry h hid (fun r hr => (hl.accounts r).1 hr) hp
  unfold sipContext
  split_ifs with hmany
  · apply foldl_ite_of_unique _ (fun e => inArray (p.get "uniqid") e.2) (fun e => sharedName e.1) _
      (mem_hosts.2 ⟨p, hp, rfl, hmany⟩) ((hin p).2 rfl)
    intro e he hP
    obtain ⟨q, -, rfl, -⟩ := mem_hosts.1 he
    exact hostEntry_eq ((hin q).1 hP)
  · apply foldl_ite_of_none _ (fun e : Key × Val => inArray (p.get "uniqid") e.2) fun e => sharedName e.1
    intro e he
    obtain ⟨q, -, rfl, hq⟩ := mem_hosts.1 he
    rw [Bool.eq_false_iff]
    intro hP
    rw [accountsOn_eq ((hin q).1 hP)] at hq
    exact hmany hq

/-- The maps of a provider send no call on to an account. -/
theorem follow_mapsTake : (mapsTake best (directExtensions l g) p called).bind (follow best l g) =
    mapsTake best (directExtensions l g) p called := by
  cases htake : mapsTake best (directExtensions l g) p called with
  | none => rfl
  | some lead =>
    rw [Option.bind_some]
    unfold mapsTake at htake
    split_ifs at htake
    rcases Option.or_eq_some_iff.1 htake with htake | ⟨-, htake⟩
    · obtain ⟨n, hmem⟩ := mem_of_pick htake
      unfold mapExtensions at hmem
      rw [List.mem_append, List.mem_append] at hmem
      rcases hmem with (hmem | hmem) | hmem
      · split_ifs at hmem
        · obtain ⟨-, rfl⟩ := Prod.mk.inj (List.mem_singleton.1 hmem)
          rfl
        · cases hmem
      · obtain ⟨m, -, hmem⟩ := List.mem_flatMap.1 hmem
        obtain ⟨n', -, heq⟩ := List.mem_map.1 hmem
        obtain ⟨-, rfl⟩ := Prod.mk.inj heq
        rfl
      · obtain ⟨-, rfl⟩ := Prod.mk.inj (List.mem_singleton.1 hmem)
        rfl
    · obtain ⟨n, hmem⟩ := mem_of_pick htake
      obtain ⟨n', -, heq⟩ := List.mem_map.1 hmem
      obtain ⟨-, rfl⟩ := Prod.mk.inj heq
      rfl

/-- The account that the shared context goes on to is one of the host. -/
theorem accountFor_mem {t : Val} (ht : accountFor best l p = some t) : t ∈ accountsOn l p := by
  obtain ⟨n, hmem⟩ := mem_of_pick ht
  obtain ⟨q, hq, heq⟩ := List.mem_map.1 hmem
  obtain ⟨-, rfl⟩ := Prod.mk.inj heq
  exact hq

end Contexts

/-! ## When the host changes nothing -/

/-- The maps that are asked for `s`, of the account that a call for the username is sent to, and those
that are asked for the username have the same for the call. -/
def Agree (best : (String → Bool) → String → Option String) (l : Lists) (g : Globals) (p : Val) : Prop :=
  ((accountFor best l p).bind fun t => mapsTake best (directExtensions l g) t "s") =
    mapsTake best (directExtensions l g) p (p.get "username").toStr

section Routes

variable {best : (String → Bool) → String → Option String} {config : Val} {l : Lists} {g : Globals} {p : Val}

/-- With one account on the host there is nothing to share; otherwise the accounts have to agree. -/
theorem sameRoute_of_fetched (h : WellFormed config) (hid : Identified config) (hl : Fetched config l g)
    (hp : p ∈ enabled l.sipProviders) :
    SameRoute best l g p ↔ (accountsOn l p).length ≤ 1 ∨ Agree best l g p := by
  unfold SameRoute arrive
  rw [sipContext_eq h hid hl hp, enter_incoming h hid hl hp, follow_mapsTake]
  split_ifs with hmany
  · rw [enter_shared h hid hl hp hmany, or_iff_right (by omega)]
    unfold Agree
    cases htarget : accountFor best l p with
    | none => rfl
    | some t =>
      rw [Option.map_some, Option.bind_some, Option.bind_some]
      show enter best l g (incomingName t) "s" = _ ↔ _
      rw [enter_incoming h hid hl (mem_accountsOn.1 (accountFor_mem htarget)).1]
  · rw [enter_incoming h hid hl hp, follow_mapsTake]
    exact iff_of_true rfl (.inl (by omega))

/-- The lines for a map carry `s` and the username if the map has no pattern, and a name of its own
otherwise. -/
theorem contains_entryNames (hsip : pbxUniqidToTechnology (p.get "uniqid").toStr = .sip) {n : String} {m : Val}
    (hn : n = "s" ∨ n = (p.get "username").toStr) (hpattern : isPattern n = false)
    (hnumber : is (mapKey m).val "all" = false → (mapKey m).toStr = n → verifyIsNumericint n = false) :
    (entryNames p (mapKey m)).contains n = is (mapKey m).val "all" := by
  cases hall : is (mapKey m).val "all" with
  | true =>
    unfold entryNames catchAll
    rw [if_pos hall, if_pos hsip, List.contains_iff_mem]
    rcases hn with rfl | rfl
    · simp
    · simp
  | false =>
    unfold entryNames
    rw [hall, if_neg Bool.false_ne_true]
    split_ifs with hnumeric
    · rw [Bool.eq_false_iff]
      intro hmem
      have heq := List.mem_singleton.1 (List.contains_iff_mem.1 hmem)
      have hfalse := hnumber hall heq.symm
      rw [heq, hnumeric] at hfalse
      cases hfalse
    · rw [Bool.eq_false_iff]
      intro hmem
      rw [List.mem_singleton.1 (List.contains_iff_mem.1 hmem)] at hpattern
      unfold isPattern at hpattern
      rw [String.toList_append] at hpattern
      cases hpattern

/-- The usual case: the account is the first of its host with the username, some map has no pattern,
and none has the username as its pattern. -/
theorem agree_of_catchAll (hsip : pbxUniqidToTechnology (p.get "uniqid").toStr = .sip)
    (hpattern : isPattern (p.get "username").toStr = false) (hfax : (p.get "username").toStr ≠ "fax")
    (hfirst : ((accountsOn l p).map fun q => ((q.get "username").toStr, q)).lookup (p.get "username").toStr =
      some p)
    (hcatch : ∃ m ∈ incomingMaps p, is (mapKey m).val "all" = true)
    (hnumber : ∀ m ∈ incomingMaps p, is (mapKey m).val "all" = false →
      (mapKey m).toStr ≠ (p.get "username").toStr) : Agree best l g p := by
  have haccount : accountFor best l p = some p := by
    unfold accountFor pick
    rw [hpattern, if_neg Bool.false_ne_true, hfirst]
    rfl
  -- both names are those of the first map without a pattern
  have hlookup : ∀ n, n = "s" ∨ n = (p.get "username").toStr → isPattern n = false → n ≠ "fax" →
      (∀ m ∈ incomingMaps p, is (mapKey m).val "all" = false → (mapKey m).toStr = n →
        verifyIsNumericint n = false) →
      (mapExtensions p).lookup n = ((incomingMaps p).find? fun m => is (mapKey m).val "all").map
        fun m => Lead.destination (together p m) := by
    intro n hn hpattern hfax hnumber
    have hfind : ((incomingMaps p).find? fun m => (entryNames p (mapKey m)).contains n) =
        (incomingMaps p).find? fun m => is (mapKey m).val "all" :=
      List.find?_congr fun m hm => contains_entryNames hsip hn hpattern (hnumber m hm)
    have hsome : ((incomingMaps p).find? fun m => is (mapKey m).val "all").isSome = true :=
      List.find?_isSome.2 hcatch
    unfold mapExtensions
    rw [List.lookup_append, List.lookup_append, lookup_flatMap _ (fun m => entryNames p (mapKey m)), hfind]
    have hnofax : (if (p.get "defaultfax").truthy then
        [("fax", Lead.destination (p.get "defaultfax"))] else []).lookup n = none := by
      split_ifs
      · rw [List.lookup_cons, beq_false_of_ne hfax]
        rfl
      · rfl
    rw [hnofax, Option.none_or]
    obtain ⟨m, hm⟩ := Option.isSome_iff_exists.1 hsome
    rw [hm]
    rfl
  have hs := hlookup "s" (.inl rfl) (by decide) (by decide) fun _ _ _ _ => by decide
  have husername := hlookup _ (.inr rfl) hpattern hfax fun m hm hall heq => absurd heq (hnumber m hm hall)
  unfold Agree mapsTake
  rw [haccount, Option.bind_some]
  unfold pick
  rw [hpattern, hs, husername, show isPattern "s" = false from by decide]
  obtain ⟨m, hm⟩ := Option.isSome_iff_exists.1 (List.find?_isSome.2 hcatch)
  rw [hm]
  rfl

end Routes

/-- Calls go where they would go without the context of the host exactly if there is none, or the maps
of the first account with the username have for `s` what those of the account have for it. -/
theorem sameRoute_iff (best : (String → Bool) → String → Option String) (usort : Usort) {config p : Val}
    (h : WellFormed config) (hid : Identified config)
    (hp : p ∈ enabled (fetchLists usort (indexed config)).1.sipProviders) :
    SameRoute best (fetchLists usort (indexed config)).1 (fetchLists usort (indexed config)).2 p ↔
      (accountsOn (fetchLists usort (indexed config)).1 p).length ≤ 1 ∨
        Agree best (fetchLists usort (indexed config)).1 (fetchLists usort (indexed config)).2 p :=
  sameRoute_of_fetched h hid (fetched usort h) hp

/-- An account on a host that others have, too. -/
def officeAccount (n username : String) (maps : List Val) : Val :=
  .arr [(.str "uniqid", .str ("SIP-PROVIDER-" ++ n)), (.str "name", .str n), (.str "host", .str "carrier"),
    (.str "username", .str username), (.str "incomingextensionmap", .ofList maps)]

/-- Two accounts on one host. -/
def officeAccounts (maps : List Val) : Val :=
  .arr [(.str "sip", .arr [(.str "provider",
    .ofList [officeAccount "1" "100" maps, officeAccount "2" "200" []])])]

/-- No pattern fits. -/
def noneFits (_ : String → Bool) (_ : String) : Option String := none

/-- A map without a pattern. -/
def anyNumber : List Val := [.arr [(.str "destinationid", .str "SIP-PHONE-1")]]

/-- A map for the username. -/
def ownNumber : List Val :=
  [.arr [(.str "incomingpattern", .str "100"), (.str "destinationid", .str "SIP-PHONE-1")]]

/-- The configurations of the two accounts are well-formed. -/
theorem wellFormed_officeAccounts {maps : List Val} (hmaps : maps = anyNumber ∨ maps = ownNumber) :
    WellFormed (officeAccounts maps) ∧ Identified (officeAccounts maps) := by
  -- both accounts are on one host and have uniqids of their own
  have hsip : ∀ p ∈ elements (officeAccounts maps) (.provider .sip),
      p.get "host" = .str "carrier" ∧
        ((p.get "uniqid") = .str ("SIP-PROVIDER-" ++ "1") ∨ (p.get "uniqid") = .str ("SIP-PROVIDER-" ++ "2")) := by
    rcases hmaps with rfl | rfl
    · decide
    · decide
  have hother : ∀ t ≠ Tech.sip, elements (officeAccounts maps) (.provider t) = [] := by
    intro t ht
    cases t with
    | sip => exact absurd rfl ht
    | _ => rfl
  constructor
  · rcases hmaps with rfl | rfl
    · exact wellFormed_of_all (by decide) (by decide) (by decide)
    · exact wellFormed_of_all (by decide) (by decide) (by decide)
  · refine ⟨fun p hp => ?_, fun p hp => ⟨_, (hsip p hp).1⟩, fun t p hp q hq => ?_⟩
    · rcases (hsip p hp).2 with hu | hu
      · exact ⟨_, hu⟩
      · exact ⟨_, hu⟩
    · by_cases ht : t = .sip
      · subst ht
        rw [(hsip q hq).1]
        rcases (hsip p hp).2 with hu | hu
        · rw [hu]
          decide
        · rw [hu]
          decide
      · rw [hother t ht] at hp
        cases hp

/-- Two accounts that take any number to the same phone. -/
theorem sameRoute_anyNumber :
    officeAccount "1" "100" anyNumber ∈
        enabled (fetchLists insertionUsort (indexed (officeAccounts anyNumber))).1.sipProviders ∧
      SameRoute noneFits (fetchLists insertionUsort (indexed (officeAccounts anyNumber))).1
        (fetchLists insertionUsort (indexed (officeAccounts anyNumber))).2
        (officeAccount "1" "100" anyNumber) := by
  obtain ⟨h, hid⟩ := wellFormed_officeAccounts (.inl rfl)
  have hmem : officeAccount "1" "100" anyNumber ∈
      enabled (fetchLists insertionUsort (indexed (officeAccounts anyNumber))).1.sipProviders := by decide
  refine ⟨hmem, (sameRoute_iff noneFits insertionUsort h hid hmem).2 (.inr ?_)⟩
  exact agree_of_catchAll (by decide) (by decide) (by decide) (by decide) (by decide) (by decide)

/-- The call goes to `s`, which the context of an account without such a map does not have. -/
theorem not_sameRoute_ownNumber :
    officeAccount "1" "100" ownNumber ∈
        enabled (fetchLists insertionUsort (indexed (officeAccounts ownNumber))).1.sipProviders ∧
      ¬ SameRoute noneFits (fetchLists insertionUsort (indexed (officeAccounts ownNumber))).1
        (fetchLists insertionUsort (indexed (officeAccounts ownNumber))).2
        (officeAccount "1" "100" ownNumber) := by
  obtain ⟨h, hid⟩ := wellFormed_officeAccounts (.inr rfl)
  have hmem : officeAccount "1" "100" ownNumber ∈
      enabled (fetchLists insertionUsort (indexed (officeAccounts ownNumber))).1.sipProviders := by decide
  refine ⟨hmem, ?_⟩
  rw [sameRoute_of_fetched h hid (fetched insertionUsort h) hmem]
  -- the account's own number goes elsewhere than any other number
  unfold Agree
  decide +kernel

end Dialplan
end Askozia
