import Askozia.Dialplan.Contexts
import Askozia.Pbx.Verify
import Askozia.Php.Loops

/-!
# Where the incoming calls of a provider go

`extensions_generate_provider_incoming_context` groups the incoming maps of a provider by their
pattern and writes a block of lines for each group.

* `Routes` is what it is for: one block for each name under which calls come in, to the destinations
  of the maps with that pattern.
* `Routable` is what the maps must be like for that, and `routes_iff` says that it is exactly this.
-/

namespace Askozia
namespace Dialplan

open Php Config Pbx

/-! ## Maps -/

/-- The incoming maps of a provider. -/
def incomingMaps (p : Val) : List Val := (p.get "incomingextensionmap").vals

/-- The pattern of an incoming map, if it has one. -/
def mapPattern (m : Val) : Option String :=
  if (m.get "incomingpattern").isset then some (m.get "incomingpattern").toStr else none

/-- Every map of the provider names a destination, and has no pattern or one that is accepted. -/
structure Mapped (p : Val) : Prop where
  destination : ∀ m ∈ incomingMaps p, ∃ d, m.get "destinationid" = .str d
  pattern : ∀ m ∈ incomingMaps p, (m.get "incomingpattern").isset = true →
    ∃ q, m.get "incomingpattern" = .str q ∧ pbxIsValidDialpattern q true = none

/-- The patterns of the maps, in the order in which they come up. -/
def patterns (p : Val) : List (Option String) := ((incomingMaps p).map mapPattern).eraseDups

/-- The destinations of the maps with a pattern, in the order of the maps. -/
def destinations (p : Val) (pattern : Option String) : List String :=
  ((incomingMaps p).filter (mapPattern · == pattern)).map fun m => (m.get "destinationid").toStr

/-! ## Blocks -/

/-- The lines under one name: what is written first, and where the call goes. -/
structure Block where
  name : String
  readbacknum : Option String
  destinations : List String
deriving DecidableEq, Repr

/-- What the generator is given: the destination, or an array of them if there are several. -/
def destinationVal : List String → Val
  | [d] => .str d
  | ds => .ofList (ds.map .str)

/-- All lines of a block have its name. -/
def Block.lines (g : Globals) (p : Val) (b : Block) : List Line :=
  incomingExtension g p b.name b.name b.readbacknum (destinationVal b.destinations)

/-- The names under which calls come in for the maps with a pattern. -/
def blockNames (p : Val) : Option String → List String
  | none => catchAll p
  | some q => [if verifyIsNumericint q then q else "_" ++ q]

/-- The names of the blocks and their destinations. -/
def incomingRoutes (p : Val) : List (String × List String) :=
  (patterns p).flatMap fun c => (blockNames p c).map (·, destinations p c)

/-- `extensions_phone_uniqid_to_dialstring` has a case for the `uniqid`. -/
def rings (u : String) : Bool :=
  strstr u "SIP-PHONE" || strstr u "IAX-PHONE" || strstr u "SKINNY-PHONE" || strstr u "ANALOG-PHONE" ||
    strstr u "ISDN-PHONE" || strstr u "EXTERNAL-PHONE"

/-- A call can be put through: to the one destination there is, whatever it is, or to several phones at
once. -/
def Reached : List String → Prop
  | [d] => destKindOf d ≠ none
  | ds => ∀ d ∈ ds, rings d = true

/-- The lines before the blocks. -/
def incomingStart (g : Globals) (p : Val) : List Line :=
  [Line.context ((p.get "uniqid").toStr ++ "-incoming"), .other "include => public-direct-dial"] ++
  if (p.get "defaultfax").truthy then
    Line.exten "fax" ("1,NoOp(incoming fax from provider: " ++ (p.get "name").toStr ++ " to " ++
        var "EXTEN" ++ ")") ::
      generateExtensionFromUniqid g (p.get "defaultfax") true none (some "fax")
  else []

/-- The lines after the blocks. -/
def incomingEnd (p : Val) : List Line :=
  [Line.other "; hangup logic",
    .exten "h" ("1,NoOp(Hanging up incoming call from provider: " ++ (p.get "name").toStr ++
      " to " ++ var "EXTEN" ++ ")"),
    .exten "h" "n,Macro(missedcallmail)", .other ""]

/-- The context of the provider has one block for each name under which calls come in for a pattern,
to the destinations of the maps with that pattern, and nothing else. -/
def Routes (g : Globals) (p : Val) : Prop :=
  ∃ blocks : List Block,
    generateProviderIncomingContext g p =
      incomingStart g p ++ blocks.flatMap (Block.lines g p) ++ incomingEnd p ∧
    (blocks.map fun b => (b.name, b.destinations)).Perm (incomingRoutes p) ∧
    ∀ b ∈ blocks, Reached b.destinations

/-- What the maps of the provider must be like. -/
structure Routable (p : Val) : Prop where
  zero : ∀ m ∈ incomingMaps p, mapPattern m ≠ some "0"
  fax : (p.get "defaultfax").truthy = true → ∀ m ∈ incomingMaps p, ∀ q, mapPattern m = some q →
    verifyIsNumericint q = true
  reached : ∀ m ∈ incomingMaps p, Reached (destinations p (mapPattern m))

/-! ## Keys -/

/-- The key the maps with a pattern are grouped under. -/
def patternKey : Option String → Key
  | none => .str "all"
  | some q => (Val.str q).key

section Keys

variable {p m : Val} {c : Option String}

/-- The pattern of a map is missing or accepted. -/
def Accepted (c : Option String) : Prop := ∀ q, c = some q → pbxIsValidDialpattern q true = none

/-- The pattern of a stored map is one that the form accepts. -/
theorem accepted_mapPattern (h : Mapped p) (hm : m ∈ incomingMaps p) : Accepted (mapPattern m) := by
  intro q hq
  unfold mapPattern at hq
  split_ifs at hq with hset
  obtain ⟨q', hq', haccepted⟩ := h.pattern m hm hset
  rw [hq'] at hq
  rwa [← Option.some.inj hq]

/-- So is every pattern of the provider. -/
theorem accepted_of_mem (h : Mapped p) (hc : c ∈ patterns p) : Accepted c := by
  obtain ⟨m, hm, rfl⟩ := List.mem_map.1 (List.mem_eraseDups.1 hc)
  exact accepted_mapPattern h hm

/-- A map is grouped under the key of its pattern. -/
theorem mapKey_eq (h : Mapped p) (hm : m ∈ incomingMaps p) : mapKey m = patternKey (mapPattern m) := by
  unfold mapKey mapPattern
  split_ifs with hset
  · obtain ⟨q, hq, -⟩ := h.pattern m hm hset
    rw [hq]
    rfl
  · rfl

/-- Patterns that the form accepts have the same key only if they are the same. -/
theorem patternKey_injective {c' : Option String} (hc : Accepted c) (hc' : Accepted c')
    (hkey : patternKey c = patternKey c') : c = c' := by
  have hall : (Val.str "all").key = .str "all" := by decide
  have hrefused : pbxIsValidDialpattern "all" true ≠ none := by decide
  -- no pattern is the word the maps without one are grouped under
  have hne : ∀ q, Accepted (some q) → (Val.str q).key ≠ .str "all" := by
    intro q hq heq
    apply hrefused
    rw [← Val.key_str_injective (heq.trans hall.symm)]
    exact hq q rfl
  cases c with
  | none =>
    cases c' with
    | none => rfl
    | some q => exact absurd hkey.symm (hne q hc')
  | some q =>
    cases c' with
    | none => exact absurd hkey (hne q hc)
    | some q' => rw [Val.key_str_injective hkey]

/-- The patterns that are taken for the catch-all. -/
theorem is_all_patternKey (hc : Accepted c) :
    is (patternKey c).val "all" = true ↔ c = none ∨ c = some "0" := by
  have hnumber : toNumber "all" = 0 := by decide +kernel
  have hword : number? "all" = none := by decide +kernel
  cases c with
  | none => exact iff_of_true (by decide) (.inl rfl)
  | some q =>
    have hq : q ≠ "all" := by
      rintro rfl
      exact absurd (hc _ rfl) (by decide)
    rw [or_iff_right (by simp), Option.some.injEq]
    show is (Val.str q).key.val "all" = true ↔ q = "0"
    have hzero : (Val.str "0").key = .int 0 := by decide
    -- an array key that is a decimal number becomes an int, and zero equals any word
    rcases Val.key_str_cases q with ⟨n, hn, rfl⟩ | hs
    · rw [hn]
      show Val.looseEq (.int n) (.str "all") = true ↔ _
      rw [Val.looseEq, hnumber]
      constructor
      · intro h
        have hn : n = 0 := by simpa using h
        rw [hn]
        rfl
      · intro h
        rw [h, hzero] at hn
        rw [← Key.int.inj hn]
        rfl
    · rw [hs]
      apply iff_of_false
      · show ¬ Val.looseEq (.str q) (.str "all") = true
        rw [Val.looseEq, hword]
        simp [hq]
      · rintro rfl
        rw [hzero] at hs
        cases hs

/-- The entry for a pattern. -/
def patternEntry (p : Val) (c : Option String) : Key × Val :=
  (patternKey c, .ofList ((destinations p c).map .str))

/-- What is grouped under a key. -/
def keyEntry (p : Val) (k : Key) : Key × Val :=
  (k, .ofList (((incomingMaps p).filter (mapKey · == k)).map (·.get "destinationid")))

/-- There is an entry for each key, in the order of the maps. -/
theorem entries_grouppedMapping (p : Val) :
    (grouppedMapping p).entries = ((incomingMaps p).map mapKey).eraseDups.map (keyEntry p) :=
  congrArg Val.entries (Val.foldl_group mapKey id (·.get "destinationid") (incomingMaps p) fun _ _ _ _ => id)

/-- There is one entry for each pattern, with the destinations of the maps that have it. -/
theorem grouppedMapping_eq (h : Mapped p) :
    grouppedMapping p = .arr ((patterns p).map (patternEntry p)) := by
  have hfold : ∀ (ms : List Val) (v : Val), (∀ m ∈ ms, m ∈ incomingMaps p) → ms.foldl groupMap v =
      ms.foldl (fun v m => v.set (patternKey (mapPattern m))
        ((v.idx (patternKey (mapPattern m))).push (m.get "destinationid"))) v := by
    intro ms v hms
    apply List.foldl_ext
    intro v m hm
    rw [groupMap, mapKey_eq h (hms m hm)]
  have hinj : ∀ a ∈ incomingMaps p, ∀ b ∈ incomingMaps p,
      patternKey (mapPattern a) = patternKey (mapPattern b) → mapPattern a = mapPattern b :=
    fun a ha b hb => patternKey_injective (accepted_mapPattern h ha) (accepted_mapPattern h hb)
  show (incomingMaps p).foldl groupMap (.arr []) = _
  rw [hfold _ _ fun _ hm => hm, Val.foldl_group mapPattern patternKey (·.get "destinationid") _ hinj]
  congr 1
  apply List.map_congr_left
  intro c _
  unfold patternEntry destinations
  rw [List.map_map]
  congr 2
  apply List.map_congr_left
  intro m hm
  obtain ⟨d, hd⟩ := h.destination m (List.mem_filter.1 hm).1
  rw [hd, Function.comp_apply, hd]
  rfl

/-- Every pattern has a destination. -/
theorem destinations_ne_nil (hc : c ∈ patterns p) : destinations p c ≠ [] := by
  obtain ⟨m, hm, hpattern⟩ := List.mem_map.1 (List.mem_eraseDups.1 hc)
  apply List.ne_nil_of_mem
  exact List.mem_map.2 ⟨m, List.mem_filter.2 ⟨hm, beq_iff_eq.2 hpattern⟩, rfl⟩

/-- The entry of a pattern leads to all of its destinations. -/
theorem destinationOf_patternEntry (hc : c ∈ patterns p) :
    destinationOf (patternEntry p c) = destinationVal (destinations p c) := by
  have hne := destinations_ne_nil hc
  unfold destinationOf patternEntry
  generalize destinations p c = ds at hne
  match ds with
  | [] => exact absurd rfl hne
  | [d] => rfl
  | d :: d' :: r =>
    have hcount : (Val.ofList ((d :: d' :: r).map Val.str)).count = r.length + 2 := by
      rw [Val.ofList_count, List.length_map]
      rfl
    dsimp only
    rw [hcount, if_neg (by simp)]
    rfl

end Keys

/-! ## Lines -/

/-- The names of the blocks that the program writes for the maps with a pattern. -/
def writtenNames (p : Val) (c : Option String) : List String :=
  if c = some "0" then catchAll p else blockNames p c

/-- The number that is read back to the caller. -/
def blockReadback (p : Val) : Option String → Option String
  | none => providerReadbacknum p
  | some q => if verifyIsNumericint q then some q else providerReadbacknum p

/-- The blocks for a pattern. -/
def patternBlocks (p : Val) (c : Option String) : List Block :=
  (blockNames p c).map (⟨·, blockReadback p c, destinations p c⟩)

section Lines

variable {g : Globals} {p : Val} {c : Option String} {n : String} {a b : List Line}

/-- The key of a pattern is written as the pattern. -/
theorem toStr_patternKey (q : String) : (patternKey (some q)).toStr = q := by
  show (Val.str q).key.toStr = q
  rcases Val.key_str_cases q with ⟨n, hn, rfl⟩ | hs
  · rw [hn]
    rfl
  · rw [hs]
    rfl

/-- The lines for the maps without a pattern. -/
theorem incomingPattern_catchAll (hc : c ∈ patterns p) (hall : is (patternKey c).val "all" = true) :
    incomingPattern g p (patternEntry p c) = (catchAll p).flatMap fun n =>
      incomingExtension g p n n (providerReadbacknum p) (destinationVal (destinations p c)) := by
  have hall : is (patternEntry p c).1.val "all" = true := hall
  rw [incomingPattern_eq, if_pos hall, destinationOf_patternEntry hc]

/-- The lines for the maps with a pattern, if it is not `0`. -/
theorem incomingPattern_some {q : String} (hc : some q ∈ patterns p)
    (hall : ¬ is (patternKey (some q)).val "all" = true) :
    incomingPattern g p (patternEntry p (some q)) =
      if verifyIsNumericint q then
        incomingExtension g p q q (some q) (destinationVal (destinations p (some q)))
      else incomingExtension g p ("_" ++ q) q (providerReadbacknum p)
        (destinationVal (destinations p (some q))) := by
  have htext : (patternEntry p (some q)).1.toStr = q := toStr_patternKey q
  have hall : ¬ is (patternEntry p (some q)).1.val "all" = true := hall
  rw [incomingPattern_eq, if_neg hall, destinationOf_patternEntry hc, htext]

/-- Where the lines carry the name of the block, they are those of the blocks. -/
theorem incomingPattern_blocks (h : Mapped p) (hc : c ∈ patterns p) (hzero : c ≠ some "0")
    (hfax : (p.get "defaultfax").truthy = true → ∀ q, c = some q → verifyIsNumericint q = true) :
    incomingPattern g p (patternEntry p c) = (patternBlocks p c).flatMap (Block.lines g p) := by
  have hall := is_all_patternKey (accepted_of_mem h hc)
  rw [or_iff_left hzero] at hall
  cases c with
  | none =>
    rw [incomingPattern_catchAll hc (hall.2 rfl)]
    unfold patternBlocks blockNames
    rw [List.flatMap_map]
    rfl
  | some q =>
    rw [incomingPattern_some hc (by rw [hall]; simp)]
    unfold patternBlocks blockNames Block.lines blockReadback
    dsimp only
    split_ifs with hnumeric
    · simp
    · -- without a fax there are no lines that wait for its tone
      have hnofax : (p.get "defaultfax").truthy = false := by
        rw [Bool.eq_false_iff]
        exact fun htruthy => hnumeric (hfax htruthy q rfl)
      unfold incomingExtension linesIf
      simp [hnofax]

end Lines

/-! ## Names in lines -/

/-- The line begins a block. -/
def Line.first : Line → Bool
  | .exten _ rest => rest.toList.head? == some '1'
  | _ => false

/-- No line begins a block, and all extensions have the name. -/
def Carries (name : String) (lines : List Line) : Prop :=
  ∀ l ∈ lines, l.first = false ∧ ∀ name' rest, l = .exten name' rest → name' = name

/-- An extension that does not begin a block has the name of the line before it. -/
def Steady (a b : Line) : Prop :=
  ∀ name rest name' rest', a = .exten name rest → b = .exten name' rest' → b.first = false → name = name'

section Carries

variable {g : Globals} {p : Val} {name s t : String} {a b : List Line}

/-- A text starts with the first character of its first part. -/
theorem head_append {c : Char} (h : s.toList.head? = some c) : (s ++ t).toList.head? = some c := by
  rw [String.toList_append, List.head?_append, h]
  rfl

theorem carries_nil : Carries name [] := fun _ h => absurd h List.not_mem_nil

/-- A line with the priority `n` carries on. -/
theorem carries_cons (hs : s.toList.head? = some 'n') (h : Carries name a) :
    Carries name (.exten name s :: a) := by
  intro l hl
  rcases List.mem_cons.1 hl with rfl | hl
  · refine ⟨?_, fun name' rest heq => (Line.exten.inj heq).1.symm⟩
    rw [Line.first, hs]
    rfl
  · exact h l hl

/-- So does a line for no extension, ended or not. -/
theorem carries_other (h : Carries name a) : Carries name (.other s :: a) := by
  intro l hl
  rcases List.mem_cons.1 hl with rfl | hl
  · exact ⟨rfl, fun _ _ heq => by cases heq⟩
  · exact h l hl

theorem carries_unended : Carries name [.unended s] := by
  intro l hl
  rw [List.mem_singleton.1 hl]
  exact ⟨rfl, fun _ _ heq => by cases heq⟩

/-- Two parts of one extension make one. -/
theorem Carries.append (ha : Carries name a) (hb : Carries name b) : Carries name (a ++ b) :=
  fun l hl => (List.mem_append.1 hl).elim (ha l) (hb l)

/-- Lines that are written under a condition carry on. -/
theorem carries_linesIf {c : Bool} (h : Carries name a) : Carries name (linesIf c a) := by
  unfold linesIf
  split_ifs
  · exact h
  · exact carries_nil

/-- The variables for notifications do. -/
theorem carries_notifications (x : Val) : Carries name (generateCallNotificationVariables name x) := by
  refine (carries_linesIf ?_).append (carries_linesIf ?_)
  · exact carries_cons rfl carries_nil
  · exact carries_cons rfl (carries_cons (head_append (head_append rfl)) carries_nil)

/-- A call of the main macro has the priority `n`. -/
theorem head_macroMain (d x r f : String) (b : Bool) : (macroMain d x r b f).toList.head? = some 'n' := by
  unfold macroMain
  iterate 10 apply head_append
  rfl

/-- An extension carries on under the name it is given, whatever it is for. -/
theorem carries_internalPhone (x : Val) (fromPublic : Bool) (r : Option String) :
    Carries name (generateInternalPhoneExtension g x fromPublic r (some name)) := by
  unfold generateInternalPhoneExtension
  dsimp only [Option.getD_some]
  refine Carries.append ?_ ?_
  · refine Carries.append ?_ (carries_notifications x)
    exact carries_cons rfl (carries_cons (head_append (head_append (head_append (head_append rfl))))
      carries_nil)
  · split
    iterate 4 exact carries_cons (head_macroMain _ _ _ _ _) carries_nil
    exact carries_unended

theorem carries_externalPhone (x : Val) (fromPublic : Bool) (r : Option String) :
    Carries name (generateExternalPhoneExtension g x fromPublic r (some name)) := by
  unfold generateExternalPhoneExtension
  dsimp only [Option.getD_some]
  refine Carries.append (carries_notifications x) ?_
  split
  iterate 5 exact carries_cons (head_macroMain _ _ _ _ _) carries_nil
  exact carries_other carries_nil

theorem carries_callgroup (x : Val) (fromPublic : Bool) (r : Option String) :
    Carries name (generateCallgroupExtension g x fromPublic r (some name)) := by
  unfold generateCallgroupExtension
  split_ifs
  · exact carries_nil
  · exact (carries_notifications _).append (carries_cons (head_macroMain _ _ _ _ _) carries_nil)

/-- Wherever a call goes, the lines carry on under the name they are given. -/
theorem carries_destination (d : Val) (fromPublic : Bool) (r : Option String) :
    Carries name (generateExtensionFromUniqid g d fromPublic r (some name)) := by
  unfold generateExtensionFromUniqid
  dsimp only
  generalize (if d.isArray = true then impromptuGroup d else Val.null) = group
  generalize (if d.isArray = true then "CALLGROUP-PARALLEL-impromptu" else d.toStr) = u
  split_ifs
  · exact carries_nil
  · exact carries_externalPhone _ _ _
  · exact carries_nil
  · exact carries_internalPhone _ _ _
  · exact carries_cons rfl (carries_cons (head_append (head_append rfl)) (carries_cons rfl carries_nil))
  · exact carries_cons (head_append (head_append (head_append (head_append rfl)))) carries_nil
  · exact carries_cons (head_append (head_append rfl)) carries_nil
  · exact carries_callgroup _ _ _
  · exact carries_nil
  · exact carries_callgroup _ _ _
  · exact carries_cons (head_append (head_append (head_append (head_append rfl)))) carries_nil
  · exact carries_unended

/-- The lines that replace the caller id do. -/
theorem carries_overrides (override overridestring : Val) :
    Carries name (generateIncomingCalleridOverrides name override overridestring) := by
  unfold generateIncomingCalleridOverrides
  split_ifs
  · exact carries_cons (head_append (head_append rfl)) carries_nil
  · exact carries_cons (head_append (head_append rfl)) carries_nil
  · exact carries_cons (head_append (head_append (head_append (head_append rfl)))) carries_nil
  · exact carries_other carries_nil
  · exact carries_nil

/-- The first line of a block, or of the lines for a pattern. -/
def noop (p : Val) (name : String) : Line :=
  .exten name ("1,NoOp(incoming call from provider: " ++ (p.get "name").toStr ++ " to " ++ var "EXTEN" ++ ")")

/-- A block is its first line, and lines that carry on. -/
theorem lines_eq (bl : Block) : ∃ r, bl.lines g p = noop p bl.name :: r ∧ Carries bl.name r := by
  refine ⟨_, rfl, ?_⟩
  refine carries_cons rfl ?_
  refine Carries.append (Carries.append (carries_linesIf ?_) (carries_overrides _ _))
    (carries_destination _ _ _)
  exact carries_cons rfl (carries_cons rfl carries_nil)

/-- A block starts with the priority one. -/
theorem first_noop : (noop p name).first = true := by
  rw [noop, Line.first, head_append (head_append (head_append (head_append rfl)))]
  rfl

/-- Lines that carry on start no block. -/
theorem Carries.countP (h : Carries name a) : a.countP Line.first = 0 := by
  rw [List.countP_eq_zero]
  intro l hl
  rw [(h l hl).1]
  exact Bool.false_ne_true

/-- They are steady: no name changes in them. -/
theorem Carries.isChain (h : Carries name a) : a.IsChain Steady := by
  apply List.Pairwise.isChain
  apply List.pairwise_of_forall_mem_list
  intro l hl l' hl' n r n' r' heq heq' _
  rw [(h l hl).2 n r heq, (h l' hl').2 n' r' heq']

end Carries

/-! ## When the blocks are right -/

section Routing

variable {g : Globals} {p : Val} {c : Option String} {blocks : List Block}

/-- What is written between the lines at the start and those at the end. -/
theorem body_eq (h : Mapped p) (hlines : generateProviderIncomingContext g p =
      incomingStart g p ++ blocks.flatMap (Block.lines g p) ++ incomingEnd p) :
    (patterns p).flatMap (fun c => incomingPattern g p (patternEntry p c)) =
      blocks.flatMap (Block.lines g p) := by
  have hcontext : generateProviderIncomingContext g p = incomingStart g p ++
      (grouppedMapping p).entries.flatMap (incomingPattern g p) ++ incomingEnd p := rfl
  rw [hcontext] at hlines
  have hbody := List.append_cancel_left (List.append_cancel_right hlines)
  rw [grouppedMapping_eq h] at hbody
  rw [← hbody]
  exact (List.flatMap_map ..).symm

/-- An incoming extension is one block. -/
theorem countP_incomingExtension (exten faxExten : String) (r : Option String) (d : Val) :
    (incomingExtension g p exten faxExten r d).countP Line.first = 1 := by
  have hset : Carries exten [.exten exten "n,Set(CDR(UserField)=inbound)"] := carries_cons rfl carries_nil
  have hfax : Carries faxExten (linesIf (p.get "defaultfax").truthy
      [.exten faxExten "n,Answer()", .exten faxExten "n,Wait(3)"]) :=
    carries_linesIf (carries_cons rfl (carries_cons rfl carries_nil))
  have hrest : Carries exten (generateIncomingCalleridOverrides exten (p.get "override")
      (p.get "overridestring") ++ generateExtensionFromUniqid g d true r (some exten)) :=
    (carries_overrides _ _).append (carries_destination d true r)
  have hlines : incomingExtension g p exten faxExten r d = noop p exten ::
      ([.exten exten "n,Set(CDR(UserField)=inbound)"] ++ linesIf (p.get "defaultfax").truthy
        [.exten faxExten "n,Answer()", .exten faxExten "n,Wait(3)"] ++
        (generateIncomingCalleridOverrides exten (p.get "override") (p.get "overridestring") ++
          generateExtensionFromUniqid g d true r (some exten))) := by
    unfold incomingExtension noop
    simp only [List.append_assoc, List.cons_append, List.nil_append]
  rw [hlines, List.countP_cons_of_pos first_noop, List.countP_append, List.countP_append, hset.countP,
    hfax.countP, hrest.countP]

/-- The program begins as many blocks as there are names. -/
theorem countP_incomingPattern (h : Mapped p) (hc : c ∈ patterns p) :
    (incomingPattern g p (patternEntry p c)).countP Line.first = (writtenNames p c).length := by
  have hcatch : ∀ names : List String, ((names.flatMap fun n => incomingExtension g p n n
      (providerReadbacknum p) (destinationVal (destinations p c))).countP Line.first) = names.length := by
    intro names
    rw [List.countP_flatMap]
    simp [Function.comp_def, countP_incomingExtension]
  have hall := is_all_patternKey (accepted_of_mem h hc)
  unfold writtenNames
  by_cases hzero : c = some "0"
  · rw [if_pos hzero, incomingPattern_catchAll hc (hall.2 (.inr hzero)), hcatch]
  · rw [if_neg hzero]
    cases c with
    | none =>
      rw [incomingPattern_catchAll hc (hall.2 (.inl rfl)), hcatch]
      rfl
    | some q =>
      rw [incomingPattern_some hc (by rw [hall]; simp [hzero])]
      split_ifs <;> exact countP_incomingExtension _ _ _ _

/-- Each block starts once. -/
theorem countP_blocks (blocks : List Block) :
    (blocks.flatMap (Block.lines g p)).countP Line.first = blocks.length := by
  rw [List.countP_flatMap]
  simp [Function.comp_def, Block.lines, countP_incomingExtension]

/-- The pattern `0` is written as the catch-all, so that there are more blocks than there should be. -/
theorem zero_of_routes (h : Mapped p) (hroutes : Routes g p) :
    ∀ m ∈ incomingMaps p, mapPattern m ≠ some "0" := by
  intro m hm hzero
  obtain ⟨blocks, hlines, hperm, -⟩ := hroutes
  have hmem : some "0" ∈ patterns p := List.mem_eraseDups.2 (List.mem_map.2 ⟨m, hm, hzero⟩)
  have hbody := congrArg (List.countP Line.first) (body_eq h hlines)
  have hlength := hperm.length_eq
  rw [countP_blocks, List.countP_flatMap] at hbody
  rw [List.length_map, incomingRoutes, List.length_flatMap] at hlength
  have hle : ∀ c ∈ patterns p, (blockNames p c).length ≤ (writtenNames p c).length := by
    intro c _
    unfold writtenNames
    split_ifs with hc
    · rw [hc]
      exact Nat.le_add_left 1 _
    · exact le_rfl
  have hlt := List.sum_lt_sum (fun c => (blockNames p c).length) (fun c => (writtenNames p c).length)
    hle ⟨_, hmem, by rw [writtenNames, if_pos rfl]; exact Nat.le_add_left 2 _⟩
  have hwritten : (patterns p).map (List.countP Line.first ∘ fun c => incomingPattern g p (patternEntry p c)) =
      (patterns p).map fun c => (writtenNames p c).length :=
    List.map_congr_left fun c hc => countP_incomingPattern h hc
  have hnames : ((patterns p).map fun c => ((blockNames p c).map (·, destinations p c)).length) =
      (patterns p).map fun c => (blockNames p c).length :=
    List.map_congr_left fun c _ => List.length_map _
  rw [hwritten] at hbody
  rw [hnames] at hlength
  omega

/-- In blocks the name only changes where one begins. -/
theorem isChain_blocks (blocks : List Block) : (blocks.flatMap (Block.lines g p)).IsChain Steady := by
  have hhead : ∀ l ∈ blocks.map (Block.lines g p), ∃ n r, l = noop p n :: r ∧ Carries n r := by
    intro l hl
    obtain ⟨b, -, rfl⟩ := List.mem_map.1 hl
    exact ⟨b.name, lines_eq b⟩
  have hnil : [] ∉ blocks.map (Block.lines g p) := by
    intro hmem
    obtain ⟨n, r, heq, -⟩ := hhead _ hmem
    cases heq
  rw [List.flatMap_def, List.isChain_flatten hnil]
  constructor
  · intro l hl
    obtain ⟨n, r, rfl, hr⟩ := hhead l hl
    rw [List.isChain_cons]
    refine ⟨fun y hy => ?_, hr.isChain⟩
    intro n' s n'' s' heq heq' _
    rw [← (Line.exten.inj heq).1, (hr y (List.mem_of_mem_head? hy)).2 n'' s' heq']
  · apply List.Pairwise.isChain
    apply List.pairwise_of_forall_mem_list
    intro l hl l' hl' x _ y hy
    obtain ⟨n, r, rfl, -⟩ := hhead l' hl'
    rw [← Option.some.inj hy]
    intro n' s n'' s' _ _ hfirst
    rw [first_noop] at hfirst
    cases hfirst

/-- The lines that wait for a fax tone have another name than the ones before them. -/
theorem fax_of_routes (h : Mapped p) (hroutes : Routes g p) (hfax : (p.get "defaultfax").truthy = true) :
    ∀ m ∈ incomingMaps p, ∀ q, mapPattern m = some q → verifyIsNumericint q = true := by
  intro m hm q hq
  by_contra hnumeric
  obtain ⟨blocks, hlines, -, -⟩ := hroutes
  have hmem : some q ∈ patterns p := List.mem_eraseDups.2 (List.mem_map.2 ⟨m, hm, hq⟩)
  have hall : ¬ is (patternKey (some q)).val "all" = true := by
    rw [is_all_patternKey (accepted_of_mem h hmem)]
    rintro (hnone | hzero)
    · cases hnone
    · rw [Option.some.inj hzero] at hnumeric
      exact hnumeric (by decide)
  have hinfix : incomingPattern g p (patternEntry p (some q)) <:+: blocks.flatMap (Block.lines g p) := by
    obtain ⟨before, after, heq⟩ := List.append_of_mem hmem
    rw [← body_eq h hlines, heq, List.flatMap_append, List.flatMap_cons, ← List.append_assoc]
    exact List.infix_append _ _ _
  rw [incomingPattern_some hmem hall, if_neg hnumeric] at hinfix
  -- the lines for the fax name the pattern without its underscore, between lines that have it
  have htwo : [Line.exten ("_" ++ q) "n,Set(CDR(UserField)=inbound)", .exten q "n,Answer()"] <:+:
      incomingExtension g p ("_" ++ q) q (providerReadbacknum p)
        (destinationVal (destinations p (some q))) := by
    unfold incomingExtension linesIf
    rw [if_pos hfax]
    simp only [List.cons_append, List.nil_append]
    exact ⟨[_], _, rfl⟩
  have hsteady := List.IsChain.infix (isChain_blocks blocks) (htwo.trans hinfix)
  rw [List.isChain_pair] at hsteady
  have hname := congrArg String.length (hsteady _ _ _ _ rfl rfl rfl)
  rw [String.length_append] at hname
  have hone : "_".length = 1 := rfl
  omega

/-- Every pattern is called by some name. -/
theorem blockNames_ne_nil (c : Option String) : blockNames p c ≠ [] := by
  cases c with
  | none => exact List.cons_ne_nil _ _
  | some q => exact List.cons_ne_nil _ _

/-- If calls are routed, every destination is reached. -/
theorem reached_of_routes (hroutes : Routes g p) :
    ∀ m ∈ incomingMaps p, Reached (destinations p (mapPattern m)) := by
  intro m hm
  obtain ⟨blocks, -, hperm, hreached⟩ := hroutes
  have hmem : mapPattern m ∈ patterns p := List.mem_eraseDups.2 (List.mem_map_of_mem hm)
  obtain ⟨n, hn⟩ := List.exists_mem_of_ne_nil _ (blockNames_ne_nil (p := p) (mapPattern m))
  have hroute : (n, destinations p (mapPattern m)) ∈ incomingRoutes p :=
    List.mem_flatMap.2 ⟨_, hmem, List.mem_map_of_mem hn⟩
  obtain ⟨b, hb, heq⟩ := List.mem_map.1 (hperm.mem_iff.2 hroute)
  rw [← (Prod.mk.inj heq).2]
  exact hreached b hb

/-- Where every destination can be reached, calls are routed. -/
theorem routes_of_routable (h : Mapped p) (hr : Routable p) : Routes g p := by
  have hpattern : ∀ c ∈ patterns p, ∃ m ∈ incomingMaps p, mapPattern m = c := fun c hc =>
    List.mem_map.1 (List.mem_eraseDups.1 hc)
  refine ⟨(patterns p).flatMap (patternBlocks p), ?_, ?_, ?_⟩
  · have hcontext : generateProviderIncomingContext g p = incomingStart g p ++
        (grouppedMapping p).entries.flatMap (incomingPattern g p) ++ incomingEnd p := rfl
    rw [hcontext, grouppedMapping_eq h, List.flatMap_assoc]
    congr 2
    show ((patterns p).map (patternEntry p)).flatMap (incomingPattern g p) = _
    rw [List.flatMap_map]
    apply List.flatMap_congr
    intro c hc
    obtain ⟨m, hm, rfl⟩ := hpattern c hc
    exact incomingPattern_blocks h hc (hr.zero m hm) fun hfax q hq => hr.fax hfax m hm q hq
  · rw [List.map_flatMap, incomingRoutes]
    apply List.Perm.of_eq
    apply List.flatMap_congr
    intro c _
    rw [patternBlocks, List.map_map]
    rfl
  · intro b hb
    obtain ⟨c, hc, hb⟩ := List.mem_flatMap.1 hb
    obtain ⟨n, -, rfl⟩ := List.mem_map.1 hb
    obtain ⟨m, hm, rfl⟩ := hpattern c hc
    exact hr.reached m hm

end Routing

/-- The context has the blocks it should have exactly if no pattern is `0`, a provider with a fax has
no pattern with other characters than digits, and the destinations with one pattern are one or phones. -/
theorem routes_iff {g : Globals} {p : Val} (h : Mapped p) : Routes g p ↔ Routable p :=
  ⟨fun hroutes => ⟨zero_of_routes h hroutes, fax_of_routes h hroutes, reached_of_routes hroutes⟩,
    routes_of_routable h⟩

/-- A SIP provider with these incoming maps. -/
def mappedProvider (maps : List Val) : Val :=
  .arr [(.str "uniqid", .str "SIP-PROVIDER-1"), (.str "name", .str "carrier"),
    (.str "username", .str "office"), (.str "incomingextensionmap", .ofList maps)]

/-- One destination for all calls, two phones for one number. -/
def threeMaps : List Val :=
  [.arr [(.str "destinationid", .str "CALLGROUP-PARALLEL-1")],
    .arr [(.str "incomingpattern", .str "12"), (.str "destinationid", .str "SIP-PHONE-1")],
    .arr [(.str "incomingpattern", .str "12"), (.str "destinationid", .str "SIP-PHONE-2")]]

/-- One phone, for calls to the number `0`. -/
def zeroMap : List Val :=
  [.arr [(.str "incomingpattern", .str "0"), (.str "destinationid", .str "SIP-PHONE-1")]]

/-- The maps of such a provider can be checked one by one. -/
theorem mapped_of_all {maps : List Val} (hdestination : ∀ m ∈ maps,
      m.get "destinationid" = .str (m.get "destinationid").toStr)
    (hpattern : ∀ m ∈ maps, (m.get "incomingpattern").isset = true →
      m.get "incomingpattern" = .str (m.get "incomingpattern").toStr ∧
        pbxIsValidDialpattern (m.get "incomingpattern").toStr true = none) :
    Mapped (mappedProvider maps) := by
  have hmaps : incomingMaps (mappedProvider maps) = maps := Val.vals_ofList maps
  constructor
  · rw [hmaps]
    exact fun m hm => ⟨_, hdestination m hm⟩
  · rw [hmaps]
    exact fun m hm hset => ⟨_, hpattern m hm hset⟩

theorem routes_threeMaps : Routes ⟨.arr [], .arr []⟩ (mappedProvider threeMaps) := by
  have hmapped : Mapped (mappedProvider threeMaps) := mapped_of_all (by decide) (by decide)
  have hzero : ∀ m ∈ incomingMaps (mappedProvider threeMaps), mapPattern m ≠ some "0" := by decide
  have hreached : ∀ m ∈ incomingMaps (mappedProvider threeMaps),
      destinations (mappedProvider threeMaps) (mapPattern m) = ["CALLGROUP-PARALLEL-1"] ∨
        destinations (mappedProvider threeMaps) (mapPattern m) = ["SIP-PHONE-1", "SIP-PHONE-2"] := by
    decide
  refine (routes_iff hmapped).2 ⟨hzero, fun hfax => ?_, fun m hm => ?_⟩
  · have hnone : ((mappedProvider threeMaps).get "defaultfax").truthy = false := by decide
    rw [hnone] at hfax
    cases hfax
  · rcases hreached m hm with h | h
    · rw [h]
      show destKindOf "CALLGROUP-PARALLEL-1" ≠ none
      decide
    · rw [h]
      show ∀ d ∈ ["SIP-PHONE-1", "SIP-PHONE-2"], rings d = true
      decide

/-- The number `0` is taken for the word of the maps without a pattern. -/
theorem not_routes : Mapped (mappedProvider zeroMap) ∧
    ¬ Routes ⟨.arr [], .arr []⟩ (mappedProvider zeroMap) := by
  have hmapped : Mapped (mappedProvider zeroMap) := mapped_of_all (by decide) (by decide)
  refine ⟨hmapped, fun hroutes => ?_⟩
  have hzero : ∃ m ∈ incomingMaps (mappedProvider zeroMap), mapPattern m = some "0" := by decide
  obtain ⟨m, hm, hpattern⟩ := hzero
  exact zero_of_routes hmapped hroutes m hm hpattern

end Dialplan
end Askozia
