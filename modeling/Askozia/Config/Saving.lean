import Askozia.Config.Requests
import Askozia.Php.Loops
import Mathlib.Data.List.Perm.Basic

/-!
# Saving an element

`saveElement` is what the functions that save an account, a port and so on have in common.

* `saveElement_cases`: a save replaces the element with that `uniqid`, or appends one;
* `mem_elements_saveElement`: everything else stays as it is;
* `wellFormed_saveElement`: the lists stay proper and the `uniqid`s distinct.
-/

namespace Askozia
namespace Config

open Php

/-! ## Names of elements -/

/-- What the `uniqid`s of a kind start with. Nothing makes providers of the last technology. -/
def uniqidStart : Kind → Option String
  | .provider .sip => "SIP-PROVIDER-"
  | .provider .iax => "IAX-PROVIDER-"
  | .provider .isdn => "ISDN-PROVIDER-"
  | .provider .analog => "ANALOG-PROVIDER-"
  | .provider .skinny => none
  | .phone .sip => "SIP-PHONE-"
  | .phone .iax => "IAX-PHONE-"
  | .phone .isdn => "ISDN-PHONE-"
  | .phone .analog => "ANALOG-PHONE-"
  | .phone .skinny => "SKINNY-PHONE-"
  | .externalPhone => "EXTERNAL-PHONE-"
  | .room => "CONFERENCE-ROOM-"
  | .fax .analog => "ANALOG-FAX-"
  | .fax .virtual => "VIRTUAL-FAX-"
  | .callgroup => "CALLGROUP-PARALLEL-"
  | .application => "DIALPLAN-APPLICATION-"
  | .application2 => "DIALPLAN-APPLICATION-"
  | .dahdiPort => "DAHDIPORT-"
  | .dahdiPortgroup => "DAHDIPORTGROUP-"
  | .redfoneGateway => "REDFONEGW-FONEBRIDGE2-"
  | .disk => "STORAGE-DISK-"

/-- The kind has accounts: phones, providers or faxes. -/
def Kind.isAccount : Kind → Bool
  | .phone _ => true
  | .externalPhone => true
  | .provider _ => true
  | .fax _ => true
  | _ => false

/-- A text that starts no `uniqid` of another kind. Like those from the generators it starts with a capital
and ends with a dash. The first word is no section of accounts, which would be looked in for the element. -/
structure Foreign (start : String) : Prop where
  capital : start.toList.head?.any Char.isUpper = true
  dash : start.toList = start.toList.dropLast ++ ['-']
  long : 2 ≤ start.toList.length
  noSection : ∀ k ∈ Kind.all, k.isAccount = true → k.sectionName ≠ strtolower ((explode '-' start).headD "")
  apart : ∀ k ∈ Kind.all, ∀ start' ∈ uniqidStart k, start'.toList.isPrefixOf start.toList = false ∧
    start.toList.isPrefixOf start'.toList = false

/-- What a `uniqid` of a kind may start with. Applications keep a name that is not from the generator: the
factory configuration has one that starts with `APPLICATION-MAPPING-`. -/
def Starts (k : Kind) (start : String) : Prop :=
  uniqidStart k = some start ∨ ((k = .application ∨ k = .application2) ∧ Foreign start)

theorem foreign_mapping : Foreign "APPLICATION-MAPPING-" := by
  constructor
  all_goals decide

/-- The elements have `uniqid`s of their kinds, and no two have the same one. -/
structure Named (config : Val) : Prop where
  wellFormed : WellFormed config
  starts : ∀ k, ∀ e ∈ elements config k, ∀ u, e.get "uniqid" = .str u →
    ∃ start, Starts k start ∧ start.toList <+: u.toList

section Saving

variable {config : Val} {k k' : Kind} {p : Val} {u : String}

theorem Starts.long {start : String} (h : Starts k start) : 2 ≤ start.toList.length := by
  have hall : ∀ k ∈ Kind.all, ∀ start ∈ uniqidStart k, 2 ≤ start.toList.length := by decide
  rcases h with h | ⟨-, h⟩
  · exact hall k k.mem_all start h
  · exact h.long

theorem Starts.capital {start : String} (h : Starts k start) : start.toList.head?.any Char.isUpper = true := by
  have hall : ∀ k ∈ Kind.all, ∀ start ∈ uniqidStart k, start.toList.head?.any Char.isUpper = true := by decide
  rcases h with h | ⟨-, h⟩
  · exact hall k k.mem_all start h
  · exact h.capital

theorem Starts.dash {start : String} (h : Starts k start) : start.toList = start.toList.dropLast ++ ['-'] := by
  have hall : ∀ k ∈ Kind.all, ∀ start ∈ uniqidStart k, start.toList = start.toList.dropLast ++ ['-'] := by decide
  rcases h with h | ⟨-, h⟩
  · exact hall k k.mem_all start h
  · exact h.dash

/-- Only applications have other names than those from the generators. -/
theorem Starts.generated {start : String} (h : Starts k start) (hk : k ≠ .application ∧ k ≠ .application2) :
    uniqidStart k = some start :=
  h.resolve_right fun hother => hother.1.elim hk.1 hk.2

/-- Two starts of one text are of the same kind, or both of applications. -/
theorem Starts.same {start start' : String} (h : Starts k start) (h' : Starts k' start')
    (hu : start.toList <+: u.toList) (hu' : start'.toList <+: u.toList) :
    k' = k ∨ ((k = .application ∨ k = .application2) ∧ (k' = .application ∨ k' = .application2)) := by
  have hall : ∀ k ∈ Kind.all, ∀ start ∈ uniqidStart k, ∀ k' ∈ Kind.all, ∀ start' ∈ uniqidStart k',
      (start.toList.isPrefixOf start'.toList = true ∨ start'.toList.isPrefixOf start.toList = true) →
        k' = k ∨ ((k = .application ∨ k = .application2) ∧ (k' = .application ∨ k' = .application2)) := by decide
  have hprefix : start.toList.isPrefixOf start'.toList = true ∨ start'.toList.isPrefixOf start.toList = true := by
    rw [List.isPrefixOf_iff_prefix, List.isPrefixOf_iff_prefix]
    exact List.prefix_or_prefix_of_prefix hu hu'
  rcases h with h | ⟨hk, h⟩
  · rcases h' with h' | ⟨-, h'⟩
    · exact hall k k.mem_all start h k' k'.mem_all start' h' hprefix
    · obtain ⟨hbefore, hafter⟩ := h'.apart k k.mem_all start h
      rw [hbefore, hafter] at hprefix
      simp at hprefix
  · rcases h' with h' | ⟨hk', -⟩
    · obtain ⟨hbefore, hafter⟩ := h.apart k' k'.mem_all start' h'
      rw [hbefore, hafter] at hprefix
      simp at hprefix
    · exact .inr ⟨hk, hk'⟩

/-- A name of one kind is not that of another, applications apart. -/
theorem Named.own (h : Named config) {start : String} (hk : k ≠ .application ∧ k ≠ .application2)
    (hstart : Starts k start) (hu : start.toList <+: u.toList) {e : Val}
    (he : e ∈ elements config k') (heu : e.get "uniqid" = .str u) : k' = k := by
  obtain ⟨start', hstart', hu'⟩ := h.starts k' e he u heu
  rcases hstart.same hstart' hu hu' with hsame | ⟨happlication, -⟩
  · exact hsame
  · rcases happlication with happlication | happlication
    · exact absurd happlication hk.1
    · exact absurd happlication hk.2

theorem ne_of_start {start : String} (hstart : Starts k start) (hu : start.toList <+: u.toList) :
    u ≠ "" ∧ u ≠ "0" := by
  have hlong := hstart.long
  have hle := hu.length_le
  constructor
  · rintro rfl
    rw [show "".toList.length = 0 by decide] at hle
    omega
  · rintro rfl
    rw [show "0".toList.length = 1 by decide] at hle
    omega

/-- A `uniqid` starts with a letter. -/
theorem letter_of_start {start : String} (hstart : Starts k start) (hu : start.toList <+: u.toList) :
    ∃ c r, u.toList = c :: r ∧ c.isUpper = true := by
  have hletter := hstart.capital
  obtain ⟨rest, hrest⟩ := hu
  cases hs : start.toList with
  | nil =>
    rw [hs] at hletter
    cases hletter
  | cons c r =>
    rw [hs] at hletter hrest
    exact ⟨c, r ++ rest, hrest.symm, hletter⟩

/-! ## Writing one list -/

theorem setList_setList (config : Val) (k : Kind) (v w : Val) :
    setList (setList config k v) k w = setList config k w := by
  have hset : ∀ (x : Val) (key : Key) (y z : Val), (x.set key y).set key z = x.set key z := by
    intro x key y z
    show Val.arr (Val.setEntry key z (Val.setEntry key y x.entries)) = _
    rw [Val.setEntry_setEntry]
    rfl
  unfold setList Val.get
  rw [Val.idx_set_self, hset, hset]

/-! ## Saving -/

/-- A value with a `uniqid` that is more than a digit is there. -/
theorem truthy_of_uniqid {e : Val} (he : e.get "uniqid" = .str u) (hu : u ≠ "" ∧ u ≠ "0") :
    e.truthy = true := by
  cases e with
  | str s =>
    cases hs : s.toList with
    | nil =>
      rw [Val.get, Val.idx, hs] at he
      exact absurd (Val.str.inj he).symm hu.1
    | cons c r =>
      rw [Val.get, Val.idx, hs] at he
      have hempty : s ≠ "" := by
        rintro rfl
        cases hs
      have hzero : s ≠ "0" := by
        rintro rfl
        obtain ⟨rfl, -⟩ := List.cons.inj hs
        exact hu.2 (Val.str.inj he).symm
      simp [Val.truthy, hempty, hzero]
  | arr es =>
    cases es with
    | nil => cases he
    | cons e r => rfl
  | _ => cases he

/-- An array with a `uniqid` is not empty. -/
theorem truthy_of_isArray {e : Val} (harray : e.isArray = true) (hu : e.get "uniqid" = .str u) :
    e.truthy = true := by
  cases e with
  | arr es =>
    cases es with
    | nil => cases hu
    | cons x r => rfl
  | _ => cases harray

theorem getElement_of_mem (hwf : WellFormed config) {e : Val} (he : e ∈ elements config k)
    (hu : e.get "uniqid" = .str u) : getElement (indexed config) k u = e :=
  getElement_kept hwf (fun _ => rfl) hwf.lists he hu

/-- A name that no element has finds nothing. -/
theorem getElement_of_not_mem (hwf : WellFormed config)
    (hnone : ∀ k', ∀ e ∈ elements config k', e.get "uniqid" ≠ .str u) (hne : u ≠ "") :
    (getElement (indexed config) k u).truthy = false := by
  have hnothing : getElement (indexed config) k u = if listOf config k = .str "" then .str "" else .null :=
    getElement_unstored hwf (fun _ => rfl) hwf.lists ⟨hne, hnone⟩
  rw [hnothing]
  split_ifs
  · rfl
  · rfl

/-- A save puts an element that is found in its place. -/
theorem saveElement_present (hwf : WellFormed config) {i : ℕ} (hi : i < (elements config k).length)
    (hiu : ((elements config k)[i]).get "uniqid" = .str u) (htrue : ((elements config k)[i]).truthy = true)
    (hp : p.get "uniqid" = .str u) :
    saveElement k p (indexed config) = setList config k (.ofList ((elements config k).set i p)) := by
  have hstr : (p.get "uniqid").toStr = u := by rw [hp]; rfl
  have hoffset := hwf.offset hi
  rw [hiu] at hoffset
  have hlist : listOf config k = .ofList (elements config k) :=
    contiguous_of_mem hwf.lists (List.getElem_mem hi)
  unfold saveElement
  rw [hstr]
  dsimp only
  rw [getElement_of_mem hwf (List.getElem_mem hi) hiu, if_pos htrue]
  show setList config k
    ((listOf config k).set ((configBuildUniqidMap config).idx (Val.str u).key).key p) = _
  rw [hoffset, hlist]
  show setList config k ((Val.ofList (elements config k)).set (.int i) p) = _
  rw [Val.set_ofList hi]

/-- A save appends an element with a name that is not in use. -/
theorem saveElement_absent (hwf : WellFormed config)
    (hnone : ∀ k', ∀ e ∈ elements config k', e.get "uniqid" ≠ .str u) (hne : u ≠ "")
    (hp : p.get "uniqid" = .str u) :
    saveElement k p (indexed config) = setList config k (.ofList (elements config k ++ [p])) := by
  have hstr : (p.get "uniqid").toStr = u := by rw [hp]; rfl
  unfold saveElement
  rw [hstr]
  dsimp only
  rw [getElement_of_not_mem hwf hnone hne, if_neg (by simp)]
  show setList config k ((listOf config k).push p) = _
  rcases hwf.lists k with hk | hk | hk
  · have hnil : elements config k = [] := by
      rw [elements, hk]
      rfl
    rw [hk, hnil]
    rfl
  · rw [hk, elements_of_str hk]
    rfl
  · have hlist : listOf config k = .ofList (elements config k) := hk
    rw [hlist, Val.push_ofList]

/-- A save replaces the element with that `uniqid`, or appends one. -/
theorem saveElement_cases (hwf : WellFormed config)
    (hp : p.get "uniqid" = .str u) (hu : u ≠ "" ∧ u ≠ "0")
    (hown : ∀ k', ∀ e ∈ elements config k', e.get "uniqid" = .str u → k' = k) :
    (∃ i, ∃ hi : i < (elements config k).length,
      ((elements config k)[i]).get "uniqid" = .str u ∧
      saveElement k p (indexed config) = setList config k (.ofList ((elements config k).set i p))) ∨
    ((∀ k', ∀ e ∈ elements config k', e.get "uniqid" ≠ .str u) ∧
      saveElement k p (indexed config) = setList config k (.ofList (elements config k ++ [p]))) := by
  by_cases hfound : ∃ e ∈ elements config k, e.get "uniqid" = .str u
  · left
    obtain ⟨e, he, heu⟩ := hfound
    obtain ⟨i, hi, rfl⟩ := List.getElem_of_mem he
    exact ⟨i, hi, heu, saveElement_present hwf hi heu (truthy_of_uniqid heu hu) hp⟩
  · right
    have hnone : ∀ k', ∀ e ∈ elements config k', e.get "uniqid" ≠ .str u := by
      intro k' e he heu
      obtain rfl := hown k' e he heu
      exact hfound ⟨e, he, heu⟩
    exact ⟨hnone, saveElement_absent hwf hnone hu.1 hp⟩

/-- The elements after a save: the new one, and those with other `uniqid`s. -/
theorem mem_elements_saveElement (hwf : WellFormed config)
    (hp : p.get "uniqid" = .str u) (hu : u ≠ "" ∧ u ≠ "0")
    (hown : ∀ k', ∀ e ∈ elements config k', e.get "uniqid" = .str u → k' = k) {k' : Kind} {e : Val} :
    e ∈ elements (saveElement k p (indexed config)) k' ↔
      (k' = k ∧ e = p) ∨ (e ∈ elements config k' ∧ e.get "uniqid" ≠ .str u) := by
  rcases saveElement_cases hwf hp hu hown with ⟨i, hi, hiu, hsave⟩ | ⟨hnone, hsave⟩
  · rw [hsave]
    -- stored in the place of the element it replaces
    by_cases hk : k' = k
    · subst hk
      rw [elements_setList, List.mem_iff_getElem]
      constructor
      · rintro ⟨j, hj, rfl⟩
        rw [List.length_set] at hj
        rw [List.getElem_set]
        split_ifs with hij
        · exact .inl ⟨rfl, rfl⟩
        · refine .inr ⟨List.getElem_mem hj, ?_⟩
          intro hju
          exact hij (hwf.eq_of_uniqid hi hj (hiu.trans hju.symm)).2
      · rintro (⟨-, rfl⟩ | ⟨he, hne⟩)
        · exact ⟨i, by rw [List.length_set]; exact hi, by rw [List.getElem_set, if_pos rfl]⟩
        · obtain ⟨j, hj, rfl⟩ := List.getElem_of_mem he
          refine ⟨j, by rw [List.length_set]; exact hj, ?_⟩
          rw [List.getElem_set, if_neg]
          rintro rfl
          exact hne hiu
    · rw [elements_setList_of_ne hk]
      constructor
      · intro he
        exact .inr ⟨he, fun heu => hk (hown k' e he heu)⟩
      · rintro (⟨hk', -⟩ | ⟨he, -⟩)
        · exact absurd hk' hk
        · exact he
  · rw [hsave]
    -- stored behind the last one
    by_cases hk : k' = k
    · subst hk
      rw [elements_setList, List.mem_append, List.mem_singleton]
      constructor
      · rintro (he | rfl)
        · exact .inr ⟨he, hnone k' e he⟩
        · exact .inl ⟨rfl, rfl⟩
      · rintro (⟨-, rfl⟩ | ⟨he, -⟩)
        · exact .inr rfl
        · exact .inl he
    · rw [elements_setList_of_ne hk]
      constructor
      · intro he
        exact .inr ⟨he, hnone k' e he⟩
      · rintro (⟨hk', -⟩ | ⟨he, -⟩)
        · exact absurd hk' hk
        · exact he

/-- Replacing an element by one with its `uniqid` keeps the `uniqid`s distinct. -/
theorem wellFormed_replace (hwf : WellFormed config) {i : ℕ} (hi : i < (elements config k).length)
    (hiu : ((elements config k)[i]).get "uniqid" = .str u) (hp : p.get "uniqid" = .str u) :
    WellFormed (setList config k (.ofList ((elements config k).set i p))) := by
  have hsame : ∀ k', (elements (setList config k (.ofList ((elements config k).set i p))) k').map
      (·.get "uniqid") = (elements config k').map (·.get "uniqid") := by
    intro k'
    by_cases hk : k' = k
    · subst hk
      rw [elements_setList, List.map_set, hp, ← hiu]
      have hi' : i < ((elements config k').map (·.get "uniqid")).length := by simpa using hi
      have hget := List.getElem_map (l := elements config k') (i := i) (·.get "uniqid") (h := hi')
      rw [← hget, List.set_getElem_self]
    · rw [elements_setList_of_ne hk]
  refine ⟨proper_setList hwf.lists k _, ?_, ?_⟩
  · intro k' e he
    have hmem := List.mem_map_of_mem (f := (·.get "uniqid")) he
    rw [hsame] at hmem
    obtain ⟨e', he', heq⟩ := List.mem_map.1 hmem
    obtain ⟨u', hne, hu'⟩ := hwf.uniqids k' e' he'
    exact ⟨u', hne, heq.symm.trans hu'⟩
  · simp only [hsame]
    exact hwf.distinct

/-- Appending an element with a new `uniqid` keeps the `uniqid`s distinct. -/
theorem wellFormed_append (hwf : WellFormed config)
    (hnone : ∀ k', ∀ e ∈ elements config k', e.get "uniqid" ≠ .str u) (hne : u ≠ "")
    (hp : p.get "uniqid" = .str u) :
    WellFormed (setList config k (.ofList (elements config k ++ [p]))) := by
  -- the uniqids of each list, with the new one in its own list only
  have hsplit : ∀ k', (elements (setList config k (.ofList (elements config k ++ [p]))) k').map
      (·.get "uniqid") = (elements config k').map (·.get "uniqid") ++ if k' = k then [.str u] else [] := by
    intro k'
    by_cases hk : k' = k
    · subst hk
      rw [elements_setList, List.map_append, List.map_singleton, hp, if_pos rfl]
    · rw [elements_setList_of_ne hk, if_neg hk, List.append_nil]
  refine ⟨proper_setList hwf.lists k _, ?_, ?_⟩
  · intro k' e he
    by_cases hk : k' = k
    · subst hk
      rw [elements_setList] at he
      rcases List.mem_append.1 he with he | he
      · exact hwf.uniqids k' e he
      · rw [List.mem_singleton.1 he]
        exact ⟨u, hne, hp⟩
    · rw [elements_setList_of_ne hk] at he
      exact hwf.uniqids k' e he
  · -- over all lists the new uniqid comes once
    have hone : (Kind.all.flatMap fun k' => if k' = k then [Val.str u] else []) = [.str u] := by
      have hall : ∀ k ∈ Kind.all, (Kind.all.flatMap fun k' => if k' = k then [()] else []) = [()] := by
        decide
      have hif : (fun k' => if k' = k then [Val.str u] else []) =
          fun k' => (if k' = k then [()] else []).map fun _ => Val.str u := by
        funext k'
        split_ifs
        · rfl
        · rfl
      rw [hif, ← List.map_flatMap, hall k k.mem_all, List.map_singleton]
    simp only [hsplit]
    refine (List.flatMap_append_perm _ _ _).nodup ?_
    rw [hone, List.nodup_append]
    refine ⟨hwf.distinct, List.nodup_singleton _, ?_⟩
    intro a ha b hb hab
    obtain ⟨k', -, ha⟩ := List.mem_flatMap.1 ha
    obtain ⟨e, he, rfl⟩ := List.mem_map.1 ha
    exact hnone k' e he (hab.trans (List.mem_singleton.1 hb))

/-- Saves keep the `uniqid`s distinct. -/
theorem wellFormed_saveElement (hwf : WellFormed config)
    (hp : p.get "uniqid" = .str u) (hu : u ≠ "" ∧ u ≠ "0")
    (hown : ∀ k', ∀ e ∈ elements config k', e.get "uniqid" = .str u → k' = k) :
    WellFormed (saveElement k p (indexed config)) := by
  rcases saveElement_cases hwf hp hu hown with ⟨i, hi, hiu, hsave⟩ | ⟨hnone, hsave⟩
  · rw [hsave]
    exact wellFormed_replace hwf hi hiu hp
  · rw [hsave]
    exact wellFormed_append hwf hnone hu.1 hp

/-- Saves keep the names, if no element of another kind has that one. -/
theorem named_saveElement_of_own (h : Named config) {start : String}
    (hown : ∀ k', ∀ e ∈ elements config k', e.get "uniqid" = .str u → k' = k)
    (hstart : Starts k start) (hu : start.toList <+: u.toList)
    (hp : p.get "uniqid" = .str u) : Named (saveElement k p (indexed config)) := by
  have hne := ne_of_start hstart hu
  refine ⟨wellFormed_saveElement h.wellFormed hp hne hown, ?_⟩
  intro k' e he u' heu
  rcases (mem_elements_saveElement h.wellFormed hp hne hown).1 he with ⟨rfl, rfl⟩ | ⟨he, -⟩
  · rw [hp] at heu
    obtain rfl := Val.str.inj heu
    exact ⟨start, hstart, hu⟩
  · exact h.starts k' e he u' heu

/-- Saves keep the names. -/
theorem named_saveElement (h : Named config) {start : String}
    (hk : k ≠ .application ∧ k ≠ .application2) (hstart : Starts k start)
    (hu : start.toList <+: u.toList) (hp : p.get "uniqid" = .str u) :
    Named (saveElement k p (indexed config)) :=
  named_saveElement_of_own h (fun _ _ he heu => h.own hk hstart hu he heu) hstart hu hp

/-- Putting the elements of a kind in another order keeps the names. -/
theorem named_setList_of_perm (h : Named config) {xs : List Val} (hperm : xs.Perm (elements config k)) :
    Named (setList config k (.ofList xs)) := by
  have helements : ∀ k', (elements (setList config k (.ofList xs)) k').Perm (elements config k') := by
    intro k'
    by_cases hk : k' = k
    · rw [hk, elements_setList]
      exact hperm
    · rw [elements_setList_of_ne hk]
  refine ⟨⟨proper_setList h.wellFormed.lists k xs, ?_, ?_⟩, ?_⟩
  · intro k' e he
    exact h.wellFormed.uniqids k' e ((helements k').mem_iff.1 he)
  · refine (List.Perm.flatMap_left _ fun k' _ => ?_).nodup_iff.2 h.wellFormed.distinct
    exact (helements k').map _
  · intro k' e he
    exact h.starts k' e ((helements k').mem_iff.1 he)

end Saving

end Config
end Askozia
