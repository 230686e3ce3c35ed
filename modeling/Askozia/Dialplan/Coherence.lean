import Askozia.Dialplan.ConfText
import Askozia.Dialplan.Incoming
import Askozia.Dialplan.Lists

/-!
# The index between two saves

`extensions_conf_generate` looks up the destinations of incoming maps after it has fetched all lists.

* `getLast?_before`: the text before the first line with a name ends its line, unless it is an error text;
* `answers_of_leads`: the calls under a name of a map go to its destination.
* `lookup_coherent`: over any sequence of calls that find the lists they sort in order, every getter returns
  the element that has the `uniqid`, and such calls are routed to it.
-/

namespace Askozia
namespace Dialplan

open Php Config Pbx

/-! ## Names of maps -/

/-- The names under which the calls for a map come in. -/
def mapNames (p m : Val) : List String :=
  if is (mapKey m).val "all" then catchAll p
  else if verifyIsNumericint (mapKey m).toStr then [(mapKey m).toStr]
  else ["_" ++ (mapKey m).toStr]

/-- The text that is written for the destination ends its line: there is a case for it, and if it is a phone,
one for its technology. -/
structure EndsLine (g : Globals) (d : Val) : Prop where
  matched : destKind d ≠ none
  phone : destKind d = some .phone → ((pbxGetPhone g d.toStr).get "disabled").isset = false →
    HasTechnology (pbxGetPhone g d.toStr)

/-- Where the calls go that are written just before those with the name: under the name before it, or to the
default fax if it is the first. -/
def destinationBefore (p : Val) (name : String) : Option Val :=
  match ((entrances p).takeWhile (·.exten != name)).getLast? with
  | some n => some n.destination
  | none => if (p.get "defaultfax").truthy then some (p.get "defaultfax") else none

/-- The calls under a name are for the map: it is the first that has the name, and the only one for its
pattern. If the provider has a fax, the name is not that of its tone, and the lines that wait for the tone have
the name, too. The text before the first line with the name ends its line. -/
structure Leads (g : Globals) (p m : Val) (name : String) : Prop where
  first : (incomingMaps p).find? (fun m' => (mapNames p m').contains name) = some m
  alone : (incomingMaps p).filter (mapKey · == mapKey m) = [m]
  fax : (p.get "defaultfax").truthy = true → name ≠ "fax" ∧
    (is (mapKey m).val "all" || verifyIsNumericint (mapKey m).toStr) = true
  before : ∀ d ∈ destinationBefore p name, EndsLine g d

/-- The lines under a name before the destination. -/
def opening (p : Val) (name : String) : List Line :=
  [noop p name, .exten name "n,Set(CDR(UserField)=inbound)"] ++
  linesIf (p.get "defaultfax").truthy [.exten name "n,Answer()", .exten name "n,Wait(3)"] ++
  generateIncomingCalleridOverrides name (p.get "override") (p.get "overridestring")

/-- No line before this one begins an extension with the name. -/
def NoneFirst (name : String) (lines : List Line) : Prop :=
  ∀ line ∈ lines, ∀ rest, line = .exten name rest → line.first = false

/-- In the context of the provider, as it is read line by line, the first lines with the name lead to the lines
that are given. -/
def Answers (g : Globals) (p : Val) (name : String) (lines : List Line) : Prop :=
  ∃ before after, joined (generateProviderIncomingContext g p) = before ++ (opening p name ++ lines) ++ after ∧
    NoneFirst name before

section Maps

variable {g : Globals} {p m : Val} {name u : String} {line : Line}

/-- The names depend on the key alone. -/
theorem mapNames_congr {m' : Val} (h : mapKey m' = mapKey m) : mapNames p m' = mapNames p m := by
  unfold mapNames
  rw [h]

theorem Leads.mem (h : Leads g p m name) : m ∈ incomingMaps p := List.mem_of_find?_eq_some h.first

theorem Leads.mem_mapNames (h : Leads g p m name) : name ∈ mapNames p m := by
  have hcontains := List.find?_some h.first
  exact List.contains_iff_mem.1 hcontains

/-- The keys before that of the map have other names. -/
theorem Leads.keys (h : Leads g p m name) :
    ∃ a b, ((incomingMaps p).map mapKey).eraseDups = a ++ mapKey m :: b ∧
      ∀ k ∈ a, ∃ m', mapKey m' = k ∧ name ∉ mapNames p m' := by
  obtain ⟨-, xs, ys, hmaps, hxs⟩ := List.find?_eq_some_iff_append.1 h.first
  have hother : ∀ m' ∈ xs, name ∉ mapNames p m' := by
    intro m' hm' hname
    have hnot := hxs m' hm'
    rw [List.contains_iff_mem.2 hname] at hnot
    cases hnot
  have hnew : mapKey m ∉ xs.map mapKey := by
    intro hmem
    obtain ⟨m', hm', hkey⟩ := List.mem_map.1 hmem
    exact hother m' hm' (mapNames_congr hkey ▸ h.mem_mapNames)
  have hkeys : ∃ b, ((incomingMaps p).map mapKey).eraseDups = (xs.map mapKey).eraseDups ++ mapKey m :: b := by
    rw [hmaps, List.map_append, List.map_cons, List.eraseDups_append, List.removeAll,
      List.filter_cons_of_pos (by simpa using hnew), List.eraseDups_cons]
    exact ⟨_, rfl⟩
  obtain ⟨b, hkeys⟩ := hkeys
  refine ⟨_, b, hkeys, fun k hk => ?_⟩
  obtain ⟨m', hm', rfl⟩ := List.mem_map.1 (List.mem_eraseDups.1 hk)
  exact ⟨m', rfl, hother m' hm'⟩

theorem Leads.keyEntry_eq (h : Leads g p m name) (hu : m.get "destinationid" = .str u) :
    keyEntry p (mapKey m) = (mapKey m, .ofList [.str u]) := by
  rw [keyEntry, h.alone, List.map_singleton, hu]

/-- The entrances for a map are under its names. -/
theorem map_exten_entrancesOf (p m d : Val) : (entrancesOf p (mapKey m, d)).map (·.exten) = mapNames p m := by
  unfold entrancesOf mapNames
  dsimp only
  split_ifs
  · rw [List.map_map]
    exact List.map_id _
  · rfl
  · rfl

/-- The first entrance with the name is one of the map. -/
theorem Leads.entrance (h : Leads g p m name) (hu : m.get "destinationid" = .str u) :
    ∃ n a b, entrances p = a ++ n :: b ∧ n ∈ entrancesOf p (mapKey m, .ofList [.str u]) ∧
      n.exten = name ∧ ∀ n' ∈ a, n'.exten ≠ name := by
  obtain ⟨a, b, hkeys, ha⟩ := h.keys
  -- the entrances of the keys before that of the map, its own, and the others
  have hparts : entrances p = (a.map (keyEntry p)).flatMap (entrancesOf p) ++
      (entrancesOf p (mapKey m, .ofList [.str u]) ++ (b.map (keyEntry p)).flatMap (entrancesOf p)) := by
    rw [entrances, entries_grouppedMapping, hkeys, List.map_append, List.map_cons, List.flatMap_append,
      List.flatMap_cons, h.keyEntry_eq hu]
  have hbefore : ∀ n' ∈ (a.map (keyEntry p)).flatMap (entrancesOf p), n'.exten ≠ name := by
    intro n' hn' hname
    obtain ⟨e, he, hn'⟩ := List.mem_flatMap.1 hn'
    obtain ⟨k, hk, rfl⟩ := List.mem_map.1 he
    obtain ⟨m', rfl, hother⟩ := ha k hk
    apply hother
    rw [← map_exten_entrancesOf p m' (keyEntry p (mapKey m')).2, ← hname]
    exact List.mem_map_of_mem hn'
  have hmem : name ∈ (entrancesOf p (mapKey m, .ofList [.str u])).map (·.exten) := by
    rw [map_exten_entrancesOf]
    exact h.mem_mapNames
  obtain ⟨n₀, hn₀, hname₀⟩ := List.mem_map.1 hmem
  have hfound : ((entrancesOf p (mapKey m, .ofList [.str u])).find? (·.exten == name)).isSome = true :=
    List.find?_isSome.2 ⟨n₀, hn₀, beq_iff_eq.2 hname₀⟩
  obtain ⟨n, hfind⟩ := Option.isSome_iff_exists.1 hfound
  obtain ⟨hname, c, d, hown, hc⟩ := List.find?_eq_some_iff_append.1 hfind
  refine ⟨n, (a.map (keyEntry p)).flatMap (entrancesOf p) ++ c,
    d ++ (b.map (keyEntry p)).flatMap (entrancesOf p), ?_, List.mem_of_find?_eq_some hfind,
    beq_iff_eq.1 hname, ?_⟩
  · rw [hparts, hown]
    simp only [List.append_assoc, List.cons_append]
  · intro n' hn'
    rcases List.mem_append.1 hn' with hn' | hn'
    · exact hbefore n' hn'
    · simpa using hc n' hn'

/-- An entrance of a map that is the only one for its pattern. -/
theorem Leads.lines_eq (h : Leads g p m name) {n : Entrance}
    (hn : n ∈ entrancesOf p (mapKey m, .ofList [.str u])) (hname : n.exten = name) :
    n.lines g p = opening p name ++ generateExtensionFromUniqid g (.str u) true n.readbacknum (some name) := by
  have hdestination : n.destination = .str u := destination_of_mem_entrancesOf hn
  -- without a fax there are no lines that wait for its tone
  have hfax : linesIf (p.get "defaultfax").truthy
      [.exten n.faxExten "n,Answer()", .exten n.faxExten "n,Wait(3)"] =
      linesIf (p.get "defaultfax").truthy [.exten name "n,Answer()", .exten name "n,Wait(3)"] := by
    cases htruthy : (p.get "defaultfax").truthy with
    | false => rfl
    | true =>
      have hnames := (h.fax htruthy).2
      have hsame : n.faxExten = name := by
        rw [← hname]
        unfold entrancesOf at hn
        dsimp only at hn
        split_ifs at hn with hall hnumeric
        · obtain ⟨c, -, rfl⟩ := List.mem_map.1 hn
          rfl
        · rw [List.mem_singleton.1 hn]
        · rw [Bool.eq_false_iff.2 hall, Bool.eq_false_iff.2 hnumeric] at hnames
          cases hnames
      rw [hsame]
  rw [Entrance.lines, incomingExtension, hname, hdestination, hfax]
  rfl

end Maps

/-! ## Lines that end -/

section Endings

variable {g : Globals} {p d : Val} {name : String} {line : Line}

theorem ended_linesIf {c : Bool} {lines : List Line} (h : ∀ line ∈ lines, line.unending = false) :
    ∀ line ∈ linesIf c lines, line.unending = false := by
  unfold linesIf
  split_ifs
  · exact h
  · exact fun line hline => absurd hline List.not_mem_nil

theorem ended_notifications (exten : String) (phone : Val) :
    ∀ line ∈ generateCallNotificationVariables exten phone, line.unending = false :=
  List.forall_mem_append.2 ⟨ended_linesIf (List.forall_mem_singleton.2 rfl),
    ended_linesIf (List.forall_mem_cons.2 ⟨rfl, List.forall_mem_singleton.2 rfl⟩)⟩

theorem ended_opening (p : Val) (name : String) : ∀ line ∈ opening p name, line.unending = false := by
  refine List.forall_mem_append.2 ⟨List.forall_mem_append.2 ⟨?_, ended_linesIf ?_⟩, ended_overrides _ _ _⟩
  · exact List.forall_mem_cons.2 ⟨rfl, List.forall_mem_singleton.2 rfl⟩
  · exact List.forall_mem_cons.2 ⟨rfl, List.forall_mem_singleton.2 rfl⟩

theorem ended_generateCallgroupExtension (group : Val) (fromPublic : Bool) (r extension : Option String) :
    ∀ line ∈ generateCallgroupExtension g group fromPublic r extension, line.unending = false := by
  unfold generateCallgroupExtension
  split_ifs
  · exact fun line hline => absurd hline List.not_mem_nil
  · exact List.forall_mem_append.2 ⟨ended_notifications _ _, List.forall_mem_singleton.2 rfl⟩

theorem ended_generateConferenceRoomExtension (room : Val) (extension : Option String) :
    ∀ line ∈ generateConferenceRoomExtension room extension, line.unending = false :=
  List.forall_mem_cons.2 ⟨rfl, List.forall_mem_cons.2 ⟨rfl, List.forall_mem_singleton.2 rfl⟩⟩

/-- A phone that has a technology ends its lines. -/
theorem ended_generateInternalPhoneExtension {phone : Val} (h : HasTechnology phone) (fromPublic : Bool)
    (r extension : Option String) :
    ∀ line ∈ generateInternalPhoneExtension g phone fromPublic r extension, line.unending = false := by
  unfold generateInternalPhoneExtension
  refine List.forall_mem_append.2 ⟨List.forall_mem_append.2 ⟨?_, ended_notifications _ _⟩, ?_⟩
  · exact List.forall_mem_cons.2 ⟨rfl, List.forall_mem_singleton.2 rfl⟩
  · cases htech : pbxUniqidToTechnology (phone.get "uniqid").toStr with
    | failed u => exact absurd htech (h u)
    | _ => exact List.forall_mem_singleton.2 rfl

theorem ended_generateExternalPhoneExtension (phone : Val) (fromPublic : Bool) (r extension : Option String) :
    ∀ line ∈ generateExternalPhoneExtension g phone fromPublic r extension, line.unending = false := by
  unfold generateExternalPhoneExtension
  refine List.forall_mem_append.2 ⟨ended_notifications _ _, ?_⟩
  split
  all_goals exact List.forall_mem_singleton.2 rfl

/-- What is written for a destination ends its lines. -/
theorem ended_generateExtensionFromUniqid (h : EndsLine g d) (fromPublic : Bool) (r extension : Option String) :
    ∀ line ∈ generateExtensionFromUniqid g d fromPublic r extension, line.unending = false := by
  rw [generateExtensionFromUniqid_eq]
  cases hkind : destKind d with
  | none => exact absurd hkind h.matched
  | some kind =>
    cases kind with
    | externalPhone =>
      dsimp only
      split_ifs
      · exact fun line hline => absurd hline List.not_mem_nil
      · exact ended_generateExternalPhoneExtension _ _ _ _
    | phone =>
      dsimp only
      split_ifs with hdisabled
      · exact fun line hline => absurd hline List.not_mem_nil
      · exact ended_generateInternalPhoneExtension (h.phone hkind (Bool.eq_false_iff.2 hdisabled)) _ _ _
    | callgroup =>
      dsimp only
      split_ifs
      · exact fun line hline => absurd hline List.not_mem_nil
      · exact ended_generateCallgroupExtension _ _ _ _
    | impromptu => exact ended_generateCallgroupExtension _ _ _ _
    | room => exact ended_generateConferenceRoomExtension _ _
    | virtualFax => exact List.forall_mem_singleton.2 rfl
    | analogFax => exact List.forall_mem_singleton.2 rfl
    | application => exact List.forall_mem_singleton.2 rfl

/-- So does an entrance. -/
theorem ended_entrance {n : Entrance} (h : EndsLine g n.destination) :
    ∀ line ∈ n.lines g p, line.unending = false := by
  unfold Entrance.lines incomingExtension
  refine List.forall_mem_append.2 ⟨List.forall_mem_append.2 ⟨List.forall_mem_append.2
    ⟨?_, ended_linesIf ?_⟩, ended_overrides _ _ _⟩, ended_generateExtensionFromUniqid h _ _ _⟩
  · exact List.forall_mem_cons.2 ⟨rfl, List.forall_mem_singleton.2 rfl⟩
  · exact List.forall_mem_cons.2 ⟨rfl, List.forall_mem_singleton.2 rfl⟩

/-- The lines before the first entrance end where the default fax does. -/
theorem ended_incomingStart (h : (p.get "defaultfax").truthy = true → EndsLine g (p.get "defaultfax")) :
    ∀ line ∈ incomingStart g p, line.unending = false := by
  unfold incomingStart
  refine List.forall_mem_append.2 ⟨?_, ?_⟩
  · exact List.forall_mem_cons.2 ⟨rfl, List.forall_mem_singleton.2 rfl⟩
  · split_ifs with htruthy
    · exact List.forall_mem_cons.2 ⟨rfl, ended_generateExtensionFromUniqid (h htruthy) _ _ _⟩
    · exact fun line hline => absurd hline List.not_mem_nil

/-- The line before the first one with a name ends. -/
theorem getLast?_before {n : Entrance} {a b : List Entrance} (hentrances : entrances p = a ++ n :: b)
    (hname : n.exten = name) (ha : ∀ n' ∈ a, n'.exten ≠ name)
    (h : ∀ d ∈ destinationBefore p name, EndsLine g d) :
    ∀ line ∈ (incomingStart g p ++ a.flatMap (Entrance.lines g p)).getLast?, line.unending = false := by
  have htake : (entrances p).takeWhile (·.exten != name) = a := by
    rw [hentrances, List.takeWhile_append_of_pos (fun n' hn' => by simpa using ha n' hn'),
      List.takeWhile_cons_of_neg (by simp [hname]), List.append_nil]
  unfold destinationBefore at h
  rw [htake] at h
  rcases a.eq_nil_or_concat with rfl | ⟨a', n', ha'⟩
  · -- the default fax, or the header
    rw [List.flatMap_nil, List.append_nil]
    intro line hline
    refine ended_incomingStart (fun htruthy => h _ ?_) line (List.mem_of_getLast? hline)
    rw [List.getLast?_nil, htruthy]
    rfl
  · rw [List.concat_eq_append] at ha'
    have hends : EndsLine g n'.destination := h _ (by rw [ha', List.getLast?_concat]; rfl)
    have hne : n'.lines g p ≠ [] := List.cons_ne_nil _ _
    rw [ha', List.flatMap_append, List.flatMap_singleton, ← List.append_assoc, List.getLast?_append_of_ne_nil _ hne]
    exact fun line hline => ended_entrance hends line (List.mem_of_getLast? hline)

end Endings

/-! ## Calls for a map -/

section Calls

variable {g : Globals} {p m : Val} {name u : String} {line : Line}

theorem noneFirst_append {a b : List Line} (ha : NoneFirst name a) (hb : NoneFirst name b) :
    NoneFirst name (a ++ b) := fun line hline =>
  (List.mem_append.1 hline).elim (ha line) (hb line)

/-- Only the lines for a fax come before the blocks. -/
theorem noneFirst_incomingStart (g : Globals) (h : (p.get "defaultfax").truthy = true → "fax" ≠ name) :
    NoneFirst name (incomingStart g p) := by
  unfold incomingStart
  refine noneFirst_append ?_ ?_
  · intro line hline rest heq
    simp only [List.mem_cons, List.not_mem_nil, or_false] at hline
    rcases hline with rfl | rfl
    · cases heq
    · cases heq
  · split_ifs with hfax
    · intro line hline rest heq
      rcases List.mem_cons.1 hline with rfl | hline
      · exact absurd (Line.exten.inj heq).1 (h hfax)
      · exact (carries_destination _ _ _ line hline).1
    · exact fun line hline => absurd hline List.not_mem_nil

/-- Only the first line of an entrance begins an extension. -/
theorem eq_noop_of_mem_entrance {n : Entrance} (h : line ∈ n.lines g p) (hfirst : line.first = true) :
    line = noop p n.exten := by
  have hcount := @countP_incomingExtension g p n.exten n.faxExten n.readbacknum n.destination
  have hlines : ∃ rest, incomingExtension g p n.exten n.faxExten n.readbacknum n.destination =
      noop p n.exten :: rest := ⟨_, rfl⟩
  obtain ⟨rest, hrest⟩ := hlines
  rw [hrest, List.countP_cons_of_pos first_noop] at hcount
  rw [Entrance.lines, hrest] at h
  rcases List.mem_cons.1 h with rfl | hmem
  · rfl
  · have hnone := List.countP_eq_zero.1 (Nat.add_eq_right.1 hcount)
    exact absurd hfirst (hnone line hmem)

/-- Entrances with other names begin none with this one. -/
theorem noneFirst_entrances {a : List Entrance} (h : ∀ n ∈ a, n.exten ≠ name) :
    NoneFirst name (a.flatMap (Entrance.lines g p)) := by
  intro line hline rest heq
  by_contra hfirst
  rw [Bool.not_eq_false] at hfirst
  obtain ⟨n, hn, hline⟩ := List.mem_flatMap.1 hline
  have hnoop := eq_noop_of_mem_entrance hline hfirst
  exact h n hn (Line.exten.inj (heq.symm.trans hnoop)).1.symm

/-- The calls under a name of the map go to its destination. -/
theorem answers_of_leads (h : Leads g p m name) (hu : m.get "destinationid" = .str u)
    (hends : EndsLine g (.str u)) :
    ∃ readbacknum, Answers g p name (generateExtensionFromUniqid g (.str u) true readbacknum (some name)) := by
  obtain ⟨n, a, b, hentrances, hn, hname, ha⟩ := h.entrance hu
  have hlines := h.lines_eq hn hname
  have hcontext : generateProviderIncomingContext g p = (incomingStart g p ++ a.flatMap (Entrance.lines g p)) ++
      (n.lines g p ++ (b.flatMap (Entrance.lines g p) ++ incomingEnd p)) := by
    have hparts : generateProviderIncomingContext g p = incomingStart g p ++
        (grouppedMapping p).entries.flatMap (incomingPattern g p) ++ incomingEnd p := rfl
    rw [hparts, flatMap_incomingPattern, hentrances, List.flatMap_append, List.flatMap_cons]
    simp only [List.append_assoc]
  have hended : ∀ line ∈ n.lines g p, line.unending = false := by
    rw [hlines]
    exact List.forall_mem_append.2 ⟨ended_opening p name, ended_generateExtensionFromUniqid hends _ _ _⟩
  refine ⟨n.readbacknum, joined (incomingStart g p ++ a.flatMap (Entrance.lines g p)),
    joined (b.flatMap (Entrance.lines g p) ++ incomingEnd p), ?_, ?_⟩
  · rw [hcontext, joined_append_of_getLast (getLast?_before hentrances hname ha h.before),
      joined_append hended, hlines]
    simp only [List.append_assoc]
  · -- a line that is made of two begins no extension
    have hbefore := noneFirst_append
      (noneFirst_incomingStart g fun hfax heq => (h.fax hfax).1 heq.symm) (noneFirst_entrances (p := p) (g := g) ha)
    intro line hline rest heq
    subst heq
    exact hbefore _ (exten_of_mem_joined hline) rest rfl

end Calls

/-! ## Groups and rooms -/

/-- The `uniqid` of a stored call group. -/
def GroupId (u : String) : Prop :=
  (explode '-' u)[0]? = some "CALLGROUP" ∧ (explode '-' u)[1]? = some "PARALLEL" ∧
    (explode '-' u)[2]? ≠ some "impromptu"

/-- The `uniqid` of a conference room. -/
def RoomId (u : String) : Prop :=
  (explode '-' u)[0]? = some "CONFERENCE" ∧ (explode '-' u)[1]? = some "ROOM"

instance (u : String) : Decidable (GroupId u) := inferInstanceAs (Decidable (_ ∧ _ ∧ _))

instance (u : String) : Decidable (RoomId u) := inferInstanceAs (Decidable (_ ∧ _))

/-- The lines of the dialplan have the context of every enabled provider with maps, and the calls for a map go
to the members of the call group, or to the number of the room, that it names. -/
def RoutesToOwn (usort : Usort) (env : Env) (g : Globals) : Prop :=
  ∃ lines, (extensionsConfGenerate usort env g).1 = render lines ∧ (∀ line ∈ lines, line.unending = false) ∧
    ∀ t ≠ Tech.skinny, ∀ p ∈ enabled (elements g.config (.provider t)), ∀ m name u,
      Leads (extensionsConfGenerate usort env g).2 p m name → m.get "destinationid" = .str u →
      joined (generateProviderIncomingContext (extensionsConfGenerate usort env g).2 p) <:+: lines ∧
      (∀ cg ∈ elements g.config .callgroup, cg.get "uniqid" = .str u → GroupId u →
        ∃ readbacknum, Answers (extensionsConfGenerate usort env g).2 p name
          (generateCallgroupExtension (extensionsConfGenerate usort env g).2 cg true readbacknum (some name))) ∧
      (∀ r ∈ elements g.config .room, r.get "uniqid" = .str u → RoomId u →
        Answers (extensionsConfGenerate usort env g).2 p name (generateConferenceRoomExtension r (some name)))

section Routing

variable {env : Env} {g : Globals} {p : Val} {u : String}

theorem generateExtensionFromUniqid_group (h : GroupId u) (fromPublic : Bool)
    (readbacknum : Option String) (exten : String) :
    generateExtensionFromUniqid g (.str u) fromPublic readbacknum (some exten) =
      generateCallgroupExtension g (getElement g .callgroup u) fromPublic readbacknum (some exten) := by
  obtain ⟨h₀, h₁, h₂⟩ := h
  simp [generateExtensionFromUniqid, Val.isArray, Val.toStr, h₀, h₁, h₂]

theorem generateExtensionFromUniqid_room (h : RoomId u) (fromPublic : Bool)
    (readbacknum : Option String) (exten : String) :
    generateExtensionFromUniqid g (.str u) fromPublic readbacknum (some exten) =
      generateConferenceRoomExtension (getElement g .room u) (some exten) := by
  obtain ⟨h₀, h₁⟩ := h
  simp [generateExtensionFromUniqid, Val.isArray, Val.toStr, h₀, h₁]

/-- A destination that is no phone ends its line if there is a case for it. -/
theorem endsLine_of_destKind {d : Val} {kind : DestKind} (h : destKind d = some kind) (hkind : kind ≠ .phone) :
    EndsLine g d := by
  refine ⟨fun hnone => ?_, fun hphone => ?_⟩
  · rw [h] at hnone
    cases hnone
  · rw [h] at hphone
    exact absurd (Option.some.inj hphone) hkind

theorem endsLine_group (h : GroupId u) : EndsLine g (.str u) := by
  obtain ⟨h₀, h₁, h₂⟩ := h
  have hkind : destKind (.str u) = some .callgroup := by
    simp [destKind, destKindOf, Val.isArray, Val.toStr, h₀, h₁, h₂]
  exact endsLine_of_destKind hkind (by decide)

theorem endsLine_room (h : RoomId u) : EndsLine g (.str u) := by
  obtain ⟨h₀, h₁⟩ := h
  have hkind : destKind (.str u) = some .room := by
    simp [destKind, destKindOf, Val.isArray, Val.toStr, h₀, h₁]
  exact endsLine_of_destKind hkind (by decide)

theorem infix_flatMap {α β : Type} {f : α → List β} {xs : List α} {x : α} (h : x ∈ xs) :
    f x <:+: xs.flatMap f := by
  rw [List.flatMap_def]
  exact List.infix_of_mem_flatten (List.mem_map_of_mem h)

/-- The context of a provider that has maps is part of the dialplan, line by line. -/
theorem infix_confLines (env : Env) {l : Lists} (hp : p ∈ enabled l.providers)
    (hmaps : incomingMaps p ≠ []) :
    joined (generateProviderIncomingContext g p) <:+: joined (confLines env l g) := by
  have hcount : (p.get "incomingextensionmap").count ≠ 0 := by
    intro h₀
    apply hmaps
    unfold incomingMaps
    cases hv : p.get "incomingextensionmap" with
    | arr es =>
      rw [hv] at h₀
      rw [List.eq_nil_of_length_eq_zero h₀]
      rfl
    | _ => rfl
  -- the header comes after a comment, which ends its line
  have hprovider : .other ("; incoming provider : " ++ (p.get "name").toStr) ::
      generateProviderIncomingContext g p <:+: providerContexts g p := by
    unfold providerContexts
    rw [if_pos (by simp [hcount])]
    refine List.IsInfix.trans ?_ (List.prefix_append _ _).isInfix
    exact (List.prefix_append _ _).isInfix
  have hlast : ∀ line ∈ (generateProviderIncomingContext g p).getLast?, line.unending = false := by
    have hparts : generateProviderIncomingContext g p = incomingStart g p ++
        (grouppedMapping p).entries.flatMap (incomingPattern g p) ++ incomingEnd p := rfl
    have hne : incomingEnd p ≠ [] := List.cons_ne_nil _ _
    rw [hparts, List.getLast?_append_of_ne_nil _ hne]
    intro line hline
    rw [← Option.some.inj hline]
    rfl
  have hcomment : (Line.other ("; incoming provider : " ++ (p.get "name").toStr)).unending = false := rfl
  apply joined_infix hcomment hlast
  refine hprovider.trans ((infix_flatMap hp).trans ?_)
  unfold confLines
  simp only [List.append_assoc]
  repeat' first
    | exact (List.prefix_append _ _).isInfix
    | refine List.IsInfix.trans ?_ (List.suffix_append _ _).isInfix

/-- The last line of the dialplan ends. -/
theorem getLast?_confLines (env : Env) (l : Lists) (g : Globals) :
    ∀ line ∈ (confLines env l g).getLast?, line.unending = false := by
  have hne : outgoingUri ≠ [] := List.cons_ne_nil _ _
  unfold confLines
  rw [List.getLast?_append_of_ne_nil _ hne]
  intro line hline
  rw [← Option.some.inj hline]
  rfl

/-- The lookups that lead to an element decide where its calls go. -/
theorem routesToOwn_of_lookups (usort : Usort) (env : Env) (hlists : ProperLists g.config)
    (hlookup : ∀ k u, ∀ e ∈ elements g.config k, e.get "uniqid" = .str u →
      getElement (fetchLists usort g).2 k u = e) : RoutesToOwn usort env g := by
  have htext : (extensionsConfGenerate usort env g).1 =
      render (joined (confLines env (fetchLists usort g).1 (fetchLists usort g).2)) := by
    rw [render_joined, extensionsConfGenerate_text]
  refine ⟨_, htext, ended_joined (getLast?_confLines _ _ _), fun t ht p hp m name u hleads hu => ?_⟩
  have hglobals : (extensionsConfGenerate usort env g).2 = (fetchLists usort g).2 := rfl
  rw [hglobals] at hleads ⊢
  obtain ⟨hp, hset⟩ := mem_enabled.1 hp
  have hp : p ∈ enabled (fetchLists usort g).1.providers :=
    mem_enabled.2 ⟨(mem_providers usort hlists).2 ⟨t, ht, hp⟩, hset⟩
  refine ⟨infix_confLines env hp (List.ne_nil_of_mem hleads.mem), fun cg hcg hcu hid => ?_,
    fun r hr hru hid => ?_⟩
  · obtain ⟨readbacknum, hanswers⟩ := answers_of_leads hleads hu (endsLine_group hid)
    refine ⟨readbacknum, ?_⟩
    rwa [← hlookup .callgroup u cg hcg hcu, ← generateExtensionFromUniqid_group hid]
  · obtain ⟨readbacknum, hanswers⟩ := answers_of_leads hleads hu (endsLine_room hid)
    rwa [← hlookup .room u r hr hru, ← generateExtensionFromUniqid_room hid true readbacknum]

end Routing

/-! ## Coherence over a run -/

/-- From any configuration with distinct `uniqid`s and its index, over any sequence of calls that find the
lists they sort in order, every getter returns the element that has the `uniqid`, and `null` if none has,
except where the list is in a section that is still empty. A dialplan that is generated then routes the calls
for a map to the element that it names. -/
theorem lookup_coherent (usort : Usort) (env : Env) {config : Val} (h : WellFormed config) {g : Globals}
    (hrun : OrderedRun usort env { config := config, uniqidMap := configBuildUniqidMap config } g) :
    (∀ k, elements g.config k = elements config k) ∧
    (∀ k u, (∀ e ∈ elements config k, e.get "uniqid" = .str u → getElement g k u = e) ∧
      (Unstored config u → (getElement g k u = .null ↔ listOf g.config k ≠ .str ""))) ∧
    (Operation.extensionsConfGenerate.InOrder g.config → RoutesToOwn usort env g) := by
  have hkept := kept_orderedRun usort (g := { config := config, uniqidMap := _ }) h.lists hrun
  -- whatever has been called, the index still leads to the element
  have hlookup : ∀ {g' : Globals},
      Kept { config := config, uniqidMap := configBuildUniqidMap config } g' →
      ∀ k u, ∀ e ∈ elements config k, e.get "uniqid" = .str u → getElement g' k u = e := by
    intro g' hkept' k u e he hu
    have hfound := getElement_kept h hkept'.elements hkept'.lists ((hkept'.elements k).symm ▸ he) hu
    rwa [← show g'.uniqidMap = configBuildUniqidMap config from hkept'.uniqidMap] at hfound
  refine ⟨hkept.elements, fun k u => ⟨hlookup hkept k u, fun hu => ?_⟩, fun ho => ?_⟩
  · -- a name that is not stored leads to null, or to the empty text where the list is one
    have hnone : getElement g k u = if listOf g.config k = .str "" then .str "" else .null := by
      have hread := getElement_unstored (k := k) h hkept.elements hkept.lists
        ⟨hu.1, fun k e he => hu.2 k e ((hkept.elements k) ▸ he)⟩
      rwa [← show g.uniqidMap = configBuildUniqidMap config from hkept.uniqidMap] at hread
    rw [hnone]
    split_ifs with hempty
    · exact iff_of_false (fun heq => by cases heq) (fun hne => hne hempty)
    · exact iff_of_true rfl hempty
  · refine routesToOwn_of_lookups usort env hkept.lists fun k u e he hu => ?_
    exact hlookup (hkept.trans (kept_fetchLists usort hkept.lists ho.1 ho.2)) k u e (hkept.elements k ▸ he) hu

/-- A call group. -/
def group (name uniqid : String) (members : List String) : Val :=
  .arr [(.str "name", .str name), (.str "uniqid", .str uniqid),
    (.str "groupmember", .ofList (members.map .str))]

/-- An account that calls the group "support" for its number and the group "office" for any other. -/
def carrier : Val :=
  .arr [(.str "uniqid", .str "SIP-PROVIDER-1"), (.str "username", .str "carrier"),
    (.str "incomingextensionmap", .ofList
      [.arr [(.str "destinationid", .str "CALLGROUP-PARALLEL-2")],
        .arr [(.str "incomingpattern", .str "100"), (.str "destinationid", .str "CALLGROUP-PARALLEL-1")]])]

/-- A configuration with call groups and the account, and a section that lost its only room. -/
def withGroups (groups : List Val) : Val :=
  .arr [(.str "conferencing", .str ""), (.str "dialplan", .arr [(.str "callgroup", .ofList groups)]),
    (.str "sip", .arr [(.str "provider", .ofList [carrier])])]

/-- Two groups in the order of their names. -/
def sortedGroups : Val :=
  withGroups [group "office" "CALLGROUP-PARALLEL-2" ["SIP-PHONE-1"],
    group "support" "CALLGROUP-PARALLEL-1" ["SIP-PHONE-2"]]

/-- The same groups in the order they were made in. -/
def unsortedGroups : Val :=
  withGroups [group "support" "CALLGROUP-PARALLEL-1" ["SIP-PHONE-2"],
    group "office" "CALLGROUP-PARALLEL-2" ["SIP-PHONE-1"]]

theorem wellFormed_sortedGroups : WellFormed sortedGroups :=
  wellFormed_of_all (by decide) (by decide) (by decide)

theorem wellFormed_unsortedGroups : WellFormed unsortedGroups :=
  wellFormed_of_all (by decide) (by decide) (by decide)

/-- The groups and the rooms have been listed. -/
def afterLists (config : Val) : Globals :=
  Operation.conferencingGetRooms.run insertionUsort plainEnv
    (Operation.callgroupsGetGroups.run insertionUsort plainEnv
      { config := config, uniqidMap := configBuildUniqidMap config })

theorem orderedRun_afterLists : OrderedRun insertionUsort plainEnv
    { config := sortedGroups, uniqidMap := configBuildUniqidMap sortedGroups } (afterLists sortedGroups) := by
  have hgroups : GroupsInOrder sortedGroups := by decide
  have hrooms : RoomsInOrder (Operation.callgroupsGetGroups.run insertionUsort plainEnv
      { config := sortedGroups, uniqidMap := configBuildUniqidMap sortedGroups }).config := by decide
  exact .step .conferencingGetRooms (.step .callgroupsGetGroups .start hgroups) hrooms

/-- The calls for `100` are for the map that has it as its pattern. Before them are those without a pattern. -/
theorem leads_carrier (g : Globals) : Leads g carrier
    (.arr [(.str "incomingpattern", .str "100"), (.str "destinationid", .str "CALLGROUP-PARALLEL-1")])
    "100" := by
  have hbefore : destinationBefore carrier "100" = some (.str "CALLGROUP-PARALLEL-2") := by decide +kernel
  have hgroup : GroupId "CALLGROUP-PARALLEL-2" := by decide
  refine ⟨by decide, by decide, by decide, fun d hd => ?_⟩
  rw [hbefore, Option.mem_some_iff] at hd
  rw [← hd]
  exact endsLine_group hgroup

/-- After the lists have been fetched the groups are found, and no room is. The calls for `100` go to the
group "support". -/
theorem lookup_coherent_sortedGroups :
    getElement (afterLists sortedGroups) .callgroup "CALLGROUP-PARALLEL-1" =
        group "support" "CALLGROUP-PARALLEL-1" ["SIP-PHONE-2"] ∧
      getElement (afterLists sortedGroups) .room "CONFERENCE-ROOM-1" = .null ∧
      ∃ readbacknum,
        Answers (extensionsConfGenerate insertionUsort plainEnv (afterLists sortedGroups)).2 carrier "100"
          (generateCallgroupExtension
            (extensionsConfGenerate insertionUsort plainEnv (afterLists sortedGroups)).2
            (group "support" "CALLGROUP-PARALLEL-1" ["SIP-PHONE-2"]) true readbacknum (some "100")) := by
  obtain ⟨-, hlookup, hroutes⟩ :=
    lookup_coherent insertionUsort plainEnv wellFormed_sortedGroups orderedRun_afterLists
  obtain ⟨lines, -, -, hroutes⟩ := hroutes ⟨by decide, by decide⟩
  obtain ⟨-, hgroups, -⟩ := hroutes .sip (by decide) carrier (by decide) _ _ _ (leads_carrier _) rfl
  have hroom : ∀ k ∈ Kind.all, ∀ e ∈ elements sortedGroups k,
      e.get "uniqid" ≠ .str "CONFERENCE-ROOM-1" := by decide
  refine ⟨(hlookup _ _).1 _ (by decide) rfl, ?_, hgroups _ (by decide) rfl (by decide)⟩
  exact ((hlookup _ _).2 ⟨by decide, fun k => hroom k k.mem_all⟩).2 (by decide)

/-- Once the call groups have been listed, the `uniqid` of one group finds the other. -/
theorem not_coherent_unsortedGroups :
    WellFormed unsortedGroups ∧
      ¬ Coherent (Operation.callgroupsGetGroups.run insertionUsort plainEnv
        { config := unsortedGroups, uniqidMap := configBuildUniqidMap unsortedGroups }) := by
  refine ⟨wellFormed_unsortedGroups, fun h => ?_⟩
  have hfound := (h .callgroup "CALLGROUP-PARALLEL-1").1
    (group "support" "CALLGROUP-PARALLEL-1" ["SIP-PHONE-2"]) (by decide) (by decide)
  revert hfound
  decide

end Dialplan
end Askozia
