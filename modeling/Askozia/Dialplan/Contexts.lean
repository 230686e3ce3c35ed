import Askozia.Dialplan.Joined
import Askozia.Dialplan.Lines

/-!
# The lines of the whole dialplan

`allGood_confLines` puts the contexts of `extensions_conf_generate` together. What it asks of the
configuration is in `Spelled`: texts without line breaks, identifiers as the system makes them, and
names of extensions without commas. The contexts that are named besides the fixed ones are in
`Landing`.
-/

namespace Askozia
namespace Dialplan

open Php Config Pbx Asterisk

/-! ## Providers -/

/-- Where calls for an entry of `$groupped_mapping` go. -/
def destinationOf (e : Key × Val) : Val :=
  if e.2.isArray && e.2.count == 1 then e.2.idx (.int 0) else e.2

/-- The names under which calls come in that no pattern is for. -/
def catchAll (p : Val) : List String :=
  "_[0-9*#]!" :: "s" ::
    if pbxUniqidToTechnology (p.get "uniqid").toStr = .sip then [(p.get "username").toStr] else []

/-- What is written for one entry of the incoming maps: for the calls without a pattern, a number, or a
pattern. -/
theorem incomingPattern_eq (g : Globals) (p : Val) (e : Key × Val) :
    incomingPattern g p e =
      if is e.1.val "all" then
        (catchAll p).flatMap fun c =>
          incomingExtension g p c c (providerReadbacknum p) (destinationOf e)
      else if verifyIsNumericint e.1.toStr then
        incomingExtension g p e.1.toStr e.1.toStr (some e.1.toStr) (destinationOf e)
      else
        incomingExtension g p ("_" ++ e.1.toStr) e.1.toStr (providerReadbacknum p)
          (destinationOf e) := rfl

/-- A name under which calls come in, the name of the lines that wait for a fax tone, what is read back
and where the calls go. -/
structure Entrance where
  exten : String
  faxExten : String
  readbacknum : Option String
  destination : Val

/-- The lines for the name. -/
def Entrance.lines (g : Globals) (p : Val) (n : Entrance) : List Line :=
  incomingExtension g p n.exten n.faxExten n.readbacknum n.destination

/-- The names for an entry of `$groupped_mapping`. -/
def entrancesOf (p : Val) (e : Key × Val) : List Entrance :=
  if is e.1.val "all" then
    (catchAll p).map fun c => ⟨c, c, providerReadbacknum p, destinationOf e⟩
  else if verifyIsNumericint e.1.toStr then
    [⟨e.1.toStr, e.1.toStr, some e.1.toStr, destinationOf e⟩]
  else [⟨"_" ++ e.1.toStr, e.1.toStr, providerReadbacknum p, destinationOf e⟩]

/-- The names under which calls of a provider come in, in the order they are written. -/
def entrances (p : Val) : List Entrance := (grouppedMapping p).entries.flatMap (entrancesOf p)

/-- In all three cases it is written entrance by entrance. -/
theorem incomingPattern_eq_flatMap (g : Globals) (p : Val) (e : Key × Val) :
    incomingPattern g p e = (entrancesOf p e).flatMap (Entrance.lines g p) := by
  rw [incomingPattern_eq, entrancesOf]
  split_ifs
  · rw [List.flatMap_map]
    rfl
  · rw [List.flatMap_singleton]
    rfl
  · rw [List.flatMap_singleton]
    rfl

/-- So a provider's incoming maps are written entrance by entrance. -/
theorem flatMap_incomingPattern (g : Globals) (p : Val) :
    (grouppedMapping p).entries.flatMap (incomingPattern g p) =
      (entrances p).flatMap (Entrance.lines g p) := by
  rw [entrances, List.flatMap_assoc]
  exact List.flatMap_congr fun e _ => incomingPattern_eq_flatMap g p e

/-- All entrances of an entry lead to its destination. -/
theorem destination_of_mem_entrancesOf {p : Val} {e : Key × Val} {n : Entrance}
    (h : n ∈ entrancesOf p e) : n.destination = destinationOf e := by
  unfold entrancesOf at h
  split_ifs at h
  · obtain ⟨c, -, rfl⟩ := List.mem_map.1 h
    rfl
  · rw [List.mem_singleton.1 h]
  · rw [List.mem_singleton.1 h]

/-- The way the caller id is replaced is one there is. -/
def overrideKnown (override : Val) : Bool :=
  is override "replacenamewithnum" || is override "replace" || is override "prepend" ||
    !override.truthy

/-- What is written for a way that there is not. -/
def overrideError (override : Val) : Line :=
  .other ("ERROR: unmatched case (override = " ++ override.toStr ++
    ") in extensions_generate_incoming_callerid_overrides!")

/-- The texts of a provider that are written for outgoing calls are as the forms and the system make
them. -/
structure OutgoingSpelled (g : Globals) (p : Val) : Prop where
  unbroken : Unbroken p
  uniqid : plainId (p.get "uniqid").toStr = true
  technology : pbxUniqidToTechnology (p.get "uniqid").toStr = .sip ∨
    pbxUniqidToTechnology (p.get "uniqid").toStr = .iax2 ∨
    pbxUniqidToTechnology (p.get "uniqid").toStr = .dahdi
  dialpattern : ∀ pattern ∈ (p.get "dialpattern").vals, ',' ∉ pattern.toStr.toList
  failover : (p.get "failover").truthy = true →
    (pbxGetProvider g (p.get "failover").toStr).truthy = true →
    plainId (p.get "failover").toStr = true

/-- The texts of a provider are as the forms and the system make them. An incoming map may have a
destination that no case is for, like the application of the factory configuration, or one that is not
stored. -/
structure ProviderSpelled (g : Globals) (p : Val) : Prop extends OutgoingSpelled g p where
  username : pbxUniqidToTechnology (p.get "uniqid").toStr = .sip →
    named (p.get "username").toStr = true
  incomingpattern : ∀ e ∈ (grouppedMapping p).entries, named e.1.toStr = true
  destination : ∀ e ∈ (grouppedMapping p).entries, destKind (destinationOf e) ≠ none →
    Matched g (destinationOf e) ∧ ∀ t ∈ destTargets g (destinationOf e), wordId t = true
  defaultfax : (p.get "defaultfax").truthy = true → Matched g (p.get "defaultfax") ∧
    ∀ t ∈ destTargets g (p.get "defaultfax"), wordId t = true

/-- The contexts a provider's calls may be sent to are in `T`. -/
structure ProviderLanding (T : String → Prop) (g : Globals) (p : Val) : Prop where
  destination : ∀ e ∈ (grouppedMapping p).entries, ∀ t ∈ destTargets g (destinationOf e), T t
  defaultfax : (p.get "defaultfax").truthy = true → ∀ t ∈ destTargets g (p.get "defaultfax"), T t
  failover : (p.get "dialpattern").vals ≠ [] → (p.get "failover").truthy = true →
    (pbxGetProvider g (p.get "failover").toStr).truthy = true → T (p.get "failover").toStr

section Providers

variable {T : String → Prop} {X : Line → Prop} {g : Globals} {p : Val}

/-- Grouping the maps keeps the patterns and the destinations that are stored. -/
theorem unbroken_grouppedMapping (hp : Unbroken p) : Unbroken (grouppedMapping p) := by
  unfold grouppedMapping
  have hfold : ∀ (maps : List Val) (m : Val), (∀ x ∈ maps, Unbroken x) → Unbroken m →
      Unbroken (maps.foldl groupMap m) := by
    intro maps
    induction maps with
    | nil => exact fun m _ hm => hm
    | cons x r ih =>
      intro m hx hm
      apply ih _ fun y hy => hx y (List.mem_cons_of_mem _ hy)
      intro hmem
      rcases List.mem_append.1 (Val.chars_set hmem) with h | h
      · exact hm h
      · rcases List.mem_append.1 (Val.chars_push h) with h | h
        · exact hm.idx _ h
        · exact (hx x List.mem_cons_self).get _ h
  apply hfold
  · exact fun x hx => (hp.get _).mem_vals hx
  · simp [Unbroken]

/-- The destination of an entry is stored in the provider. -/
theorem unbroken_destinationOf (hp : Unbroken p) {e : Key × Val}
    (he : e ∈ (grouppedMapping p).entries) : Unbroken (destinationOf e) := by
  have hval : Unbroken e.2 :=
    (unbroken_grouppedMapping hp).mem_vals (List.mem_map_of_mem (f := Prod.snd) he)
  unfold destinationOf
  split_ifs
  · exact hval.idx _
  · exact hval

/-- A name is one line. -/
theorem oneLine_of_named {name : String} (h : named name = true) : oneLine name = true := by
  simp only [named, Bool.and_eq_true] at h
  exact h.2

/-- A name with something without commas before or after it. -/
theorem named_append {a b : String} (ha : ',' ∉ a.toList) (hb : ',' ∉ b.toList)
    (hone : oneLine (a ++ b) = true) (hne : a.toList ≠ []) : named (a ++ b) = true := by
  unfold named
  rw [hone, String.toList_append]
  simp [ha, hb, hne]

/-- A name ends before the comma of its priority. -/
theorem comma_not_mem_of_named {name : String} (h : named name = true) : ',' ∉ name.toList := by
  simp only [named, Bool.and_eq_true, Bool.not_eq_true', List.contains_eq_mem,
    decide_eq_false_iff_not] at h
  exact h.1.2

/-- A pattern is a name, with an underscore in front. -/
theorem named_underscore {a : String} (h : ',' ∉ a.toList) (hone : oneLine a = true) :
    named ("_" ++ a) = true :=
  named_append (by decide) h (oneLine_after _ rfl hone) (by decide)

/-- The lines that replace the caller id are steps, but for the error that follows an unknown choice. -/
theorem allGood_generateIncomingCalleridOverrides {exten : String} {override overridestring : Val}
    (hname : named exten = true) (hs : Unbroken overridestring)
    (hX : overrideKnown override = false → Good T X (overrideError override)) :
    AllGood T X (generateIncomingCalleridOverrides exten override overridestring) := by
  have htext := oneLine_toStr hs
  have hcid : ∀ cs : List Char, cs.contains '\n' = false → oneLine (var (String.ofList cs)) = true :=
    fun cs hcs => oneLine_varOf (oneLine_ofList cs hcs)
  unfold generateIncomingCalleridOverrides
  split_ifs with hnum hreplace hprepend htruthy
  · exact allGood_cons.2 ⟨good_step hname ((opening_fixed _ rfl).text (hcid _ rfl)) _ rfl,
      allGood_nil⟩
  · exact allGood_cons.2 ⟨good_step hname ((opening_fixed _ rfl).text htext) _ rfl, allGood_nil⟩
  · refine allGood_cons.2 ⟨good_step hname ?_ _ rfl, allGood_nil⟩
    exact (((opening_fixed _ rfl).text htext).fixed _ rfl).text (hcid _ rfl)
  · refine allGood_cons.2 ⟨hX ?_, allGood_nil⟩
    simp [overrideKnown, hnum, hreplace, hprepend, htruthy]
  · exact allGood_nil

/-- The number a provider has for reading back is one of its fields. -/
theorem oneLine_providerReadbacknum (hp : Unbroken p) :
    ∀ r ∈ providerReadbacknum p, oneLine r = true := by
  intro r hr
  unfold providerReadbacknum at hr
  split at hr
  · obtain rfl := Option.some.inj hr
    exact oneLine_get hp _
  · split_ifs at hr
    · obtain rfl := Option.some.inj hr
      exact oneLine_get hp _
    · obtain rfl := Option.some.inj hr
      exact oneLine_get hp _
    · cases hr
  · cases hr

/-- A destination of no kind gets the error text, without an end of line. -/
theorem generateExtensionFromUniqid_of_none {d : Val} (h : destKind d = none) (fromPublic : Bool)
    (readbacknum extension : Option String) :
    generateExtensionFromUniqid g d fromPublic readbacknum extension = [.unended unmatchedText] := by
  rw [generateExtensionFromUniqid_eq, h]
  rfl

/-- A destination that a jump leads to is of some kind. -/
theorem destKind_ne_none {d : Val} {t : String} (h : t ∈ destTargets g d) : destKind d ≠ none := by
  intro hnone
  unfold destTargets at h
  rw [hnone] at h
  cases h

/-- What is written for a destination, or the message that no case is for it. -/
theorem allGood_fromUniqid (hg : Unbroken g.config) {d : Val} (hd : Unbroken d) {exten : String}
    (hexten : named exten = true) {readbacknum : Option String} (hr : ∀ r ∈ readbacknum, oneLine r = true)
    (hspelled : destKind d ≠ none → Matched g d ∧ ∀ t ∈ destTargets g d, wordId t = true)
    (hT : ∀ t ∈ destTargets g d, T t) (hX : destKind d = none → X (.unended unmatchedText)) :
    AllGood T X (generateExtensionFromUniqid g d true readbacknum (some exten)) := by
  by_cases hnone : destKind d = none
  · rw [generateExtensionFromUniqid_of_none hnone]
    exact allGood_cons.2 ⟨.inr (hX hnone), allGood_nil⟩
  · obtain ⟨hmatched, hplain⟩ := hspelled hnone
    exact allGood_steps hexten (steps_fromUniqid hg hd hr (oneLine_of_named hexten) hmatched
      fun t ht => ⟨hplain t ht, hT t ht⟩)

/-- An entrance with its caller id and its destination. -/
theorem allGood_incomingExtension (hp : Unbroken p)
    (hX : overrideKnown (p.get "override") = false → Good T X (overrideError (p.get "override")))
    {exten faxExten : String} {readbacknum : Option String} {destination : Val}
    (hexten : named exten = true) (hfax : named faxExten = true)
    (hfrom : AllGood T X (generateExtensionFromUniqid g destination true readbacknum (some exten))) :
    AllGood T X (incomingExtension g p exten faxExten readbacknum destination) := by
  unfold incomingExtension
  refine AllGood.append (AllGood.append (AllGood.append ?_ ?_)
    (allGood_generateIncomingCalleridOverrides hexten (hp.get _) hX)) hfrom
  · refine allGood_cons.2 ⟨good_step hexten ?_ _ rfl, allGood_cons.2 ⟨?_, allGood_nil⟩⟩
    · exact (((opening_fixed _ rfl).text (oneLine_get hp _)).fixed _ rfl).text
        (oneLine_varOf (oneLine_ofList _ rfl))
    · exact good_of_isStep hexten (isStep_fixed _ rfl)
  · apply allGood_linesIf
    exact allGood_cons.2 ⟨good_of_isStep hfax (isStep_fixed _ rfl),
      allGood_cons.2 ⟨good_of_isStep hfax (isStep_fixed _ rfl), allGood_nil⟩⟩

/-- The names of the calls without a pattern are names, if the username is one. -/
theorem named_catchAll (h : pbxUniqidToTechnology (p.get "uniqid").toStr = .sip →
    named (p.get "username").toStr = true) : ∀ c ∈ catchAll p, named c = true := by
  intro c hc
  rcases List.mem_cons.1 hc with rfl | hc
  · exact named_ofList _ rfl
  · rcases List.mem_cons.1 hc with rfl | hc
    · exact named_ofList _ rfl
    · split_ifs at hc with hsip
      · rw [List.mem_singleton.1 hc]
        exact h hsip
      · cases hc

/-- The texts that are written for a name under which calls come in. -/
structure Entrance.Spelled (g : Globals) (n : Entrance) : Prop where
  exten : named n.exten = true
  faxExten : named n.faxExten = true
  readbacknum : ∀ r ∈ n.readbacknum, oneLine r = true
  destination : Unbroken n.destination
  matched : destKind n.destination ≠ none →
    Matched g n.destination ∧ ∀ t ∈ destTargets g n.destination, wordId t = true

/-- The names of all entrances of a provider are names. -/
theorem spelled_entrances (hp : ProviderSpelled g p) {e : Key × Val}
    (he : e ∈ (grouppedMapping p).entries) : ∀ n ∈ entrancesOf p e, n.Spelled g := by
  have hname := hp.incomingpattern e he
  have hone := oneLine_of_named hname
  have hback := oneLine_providerReadbacknum hp.unbroken
  have hdestination := unbroken_destinationOf hp.unbroken he
  have hmatched := hp.destination e he
  intro n hn
  unfold entrancesOf at hn
  split_ifs at hn
  · obtain ⟨c, hc, rfl⟩ := List.mem_map.1 hn
    have hnamed := named_catchAll hp.username c hc
    exact ⟨hnamed, hnamed, hback, hdestination, hmatched⟩
  · rw [List.mem_singleton.1 hn]
    refine ⟨hname, hname, ?_, hdestination, hmatched⟩
    rintro _ ⟨⟩
    exact hone
  · rw [List.mem_singleton.1 hn]
    exact ⟨named_underscore (comma_not_mem_of_named hname) hone, hname, hback, hdestination, hmatched⟩

/-- The lines of an entrance read well, and its jumps have somewhere to land. -/
theorem allGood_entrance (hg : Unbroken g.config) (hp : Unbroken p)
    (hX : overrideKnown (p.get "override") = false → Good T X (overrideError (p.get "override")))
    {n : Entrance} (hn : n.Spelled g) (hT : ∀ t ∈ destTargets g n.destination, T t)
    (hunmatched : destKind n.destination = none → X (.unended unmatchedText)) :
    AllGood T X (n.lines g p) :=
  allGood_incomingExtension hp hX hn.exten hn.faxExten
    (allGood_fromUniqid hg hn.destination hn.exten hn.readbacknum hn.matched hT hunmatched)

/-- An inclusion of a context in `T`. -/
theorem good_include {context : String} (hne : context.toList ≠ []) (hone : oneLine context = true)
    (hT : T context) : Good T X (.other ("include => " ++ context)) := by
  have hread : readLine ("include => " ++ context).toList = .includes context := by
    have hdrop : ("include => ".toList ++ context.toList).drop 11 = context.toList := rfl
    have hprefix : "include => ".toList.isPrefixOf ("include => ".toList ++ context.toList) = true :=
      List.isPrefixOf_iff_prefix.2 ⟨_, rfl⟩
    rw [String.toList_append, readLine, if_neg (by simp), if_neg (by simp), if_neg (by simp),
      if_pos hprefix, hdrop, if_neg hne, String.ofList_toList]
  left
  constructor
  · rw [Line.proper, oneLine_after _ rfl hone, hread]
    rfl
  · rw [Line.entry, Line.body, hread]
    intro t ht
    rwa [List.mem_singleton.1 ht]

/-- An inclusion of a context with a fixed name. -/
theorem good_includeFixed (cs : List Char) (hcs : (!cs.isEmpty && !cs.contains '\n') = true)
    (hT : T (String.ofList cs)) : Good T X (.other (String.ofList
      ('i' :: 'n' :: 'c' :: 'l' :: 'u' :: 'd' :: 'e' :: ' ' :: '=' :: '>' :: ' ' :: cs))) := by
  simp only [Bool.and_eq_true, Bool.not_eq_true', List.isEmpty_eq_false_iff] at hcs
  have htext : String.ofList
      ('i' :: 'n' :: 'c' :: 'l' :: 'u' :: 'd' :: 'e' :: ' ' :: '=' :: '>' :: ' ' :: cs) =
      "include => " ++ String.ofList cs := by
    rw [← String.toList_inj, String.toList_append, String.toList_ofList, String.toList_ofList,
      String.toList_ofList]
    rfl
  rw [htext]
  apply good_include _ (oneLine_ofList cs hcs.2) hT
  rw [String.toList_ofList]
  exact hcs.1

/-- So do those of the whole context for a provider's incoming calls. -/
theorem allGood_generateProviderIncomingContext (hg : Unbroken g.config)
    (hp : ProviderSpelled g p) (hland : ProviderLanding T g p) (hT : T "public-direct-dial")
    (hX : overrideKnown (p.get "override") = false →
      Good T X (overrideError (p.get "override")))
    (hunmatched : ∀ e ∈ (grouppedMapping p).entries, destKind (destinationOf e) = none →
      X (.unended unmatchedText)) :
    AllGood T X (generateProviderIncomingContext g p) := by
  have hname := oneLine_get hp.unbroken "name"
  have hnoop : ∀ (cs ds : List Char) (e : String), named e = true →
      (opensChars cs && quietChars cs && !cs.contains '\n') = true → ds.contains '\n' = false →
      Good T X (.exten e (String.ofList cs ++ (p.get "name").toStr ++ String.ofList ds ++
        var "EXTEN" ++ ")")) := by
    intro cs ds e he hcs hds
    exact good_step he ((((opening_fixed cs hcs).text hname).fixed ds hds).text
      (oneLine_varOf (oneLine_ofList _ rfl))) _ rfl
  unfold generateProviderIncomingContext
  refine AllGood.append (AllGood.append (AllGood.append ?_ ?_) ?_) ?_
  · refine allGood_cons.2 ⟨good_context ?_, allGood_cons.2 ⟨?_, allGood_nil⟩⟩
    · exact headerName_append hp.uniqid _ rfl
    · exact good_includeFixed _ rfl hT
  -- the header with its include, the default fax, the mappings, the hangup logic
  · split_ifs with hfax
    · obtain ⟨hmatched, hplain⟩ := hp.defaultfax hfax
      have hname' : named "fax" = true := named_ofList _ rfl
      refine allGood_cons.2 ⟨hnoop _ _ _ hname' rfl rfl, allGood_steps hname' ?_⟩
      exact steps_fromUniqid hg (hp.unbroken.get _) (fun r hr => by cases hr) (oneLine_ofList _ rfl)
        hmatched fun t ht => ⟨hplain t ht, hland.defaultfax hfax t ht⟩
    · exact allGood_nil
  · apply allGood_flatMap
    intro e he
    rw [incomingPattern_eq_flatMap]
    apply allGood_flatMap
    intro n hn
    have hdestination := destination_of_mem_entrancesOf hn
    apply allGood_entrance hg hp.unbroken hX (spelled_entrances hp he n hn)
    · rw [hdestination]
      exact hland.destination e he
    · rw [hdestination]
      exact hunmatched e he
  · refine allGood_cons.2 ⟨good_plain _ rfl, allGood_cons.2
      ⟨hnoop _ _ _ (named_ofList _ rfl) rfl rfl, ?_⟩⟩
    exact allGood_cons.2 ⟨good_exten _ _ rfl rfl, allGood_cons.2 ⟨good_plain _ rfl, allGood_nil⟩⟩

/-! ### Outgoing calls -/

/-- Parsing a pattern adds no characters. -/
theorem mem_of_mem_parsePattern {pattern : String} {c : Char}
    (h : c ∈ (parsePattern pattern).pattern.toList) : c ∈ pattern.toList := by
  unfold parsePattern at h
  cases hplus : strpos pattern "+" with
  | none =>
    simp only [hplus] at h
    split at h
    · rw [String.toList_ofList] at h
      exact List.mem_of_mem_filter h
    · exact h
  | some offset =>
    simp only [hplus] at h
    split at h
    · rw [String.toList_ofList] at h
      have h := List.mem_of_mem_filter h
      rw [String.toList_ofList] at h
      exact List.mem_of_mem_drop h
    · rw [String.toList_ofList] at h
      exact List.mem_of_mem_drop h

/-- The pattern that is parsed is one line. -/
theorem oneLine_parsePattern {pattern : String} (h : oneLine pattern = true) :
    oneLine (parsePattern pattern).pattern = true :=
  oneLine_eq_true.2 fun hmem => oneLine_eq_true.1 h (mem_of_mem_parsePattern hmem)

theorem oneLine_toString (n : ℕ) : oneLine (toString n) = true := by
  rw [oneLine_eq_true]
  intro hmem
  exact absurd (Val.isDigit_of_mem_toString_nat hmem) (by decide)

/-- The number that is dialled is put together from a part of the pattern and a part of `EXTEN`. -/
theorem oneLine_parsePattern_dialled {pattern : String} (h : oneLine pattern = true) :
    oneLine ((parsePattern pattern).ins ++ (parsePattern pattern).exten) = true := by
  have hexten : ∀ n : ℕ, oneLine (var ("EXTEN:" ++ toString n)) = true := fun n =>
    oneLine_varOf (oneLine_after _ rfl (oneLine_toString n))
  have hplain : oneLine (var "EXTEN") = true := oneLine_varOf (oneLine_ofList _ rfl)
  have hempty : oneLine "" = true := rfl
  unfold parsePattern
  cases strpos pattern "+" with
  | none =>
    simp only
    split
    · exact oneLine_join hempty (hexten _)
    · exact oneLine_join hempty hplain
  | some offset =>
    have hins : oneLine (String.ofList (pattern.toList.take offset)) = true := by
      rw [oneLine_eq_true, String.toList_ofList]
      exact fun hmem => oneLine_eq_true.1 h (List.mem_of_mem_take hmem)
    simp only
    split
    · exact oneLine_join hins (hexten _)
    · exact oneLine_join hins hplain

/-- A step that goes to another extension of its context. -/
theorem isStep_gotoExten {a : String} (ha : ',' ∉ a.toList) (hone : oneLine a = true) :
    IsStep T ("n,Goto(" ++ a ++ ",1)") := by
  refine ⟨isNext_append (isNext_append (isNext_ofList _ rfl)),
    opens_append (opens_append (opens_ofList _ rfl)), closes_append (closes_ofList _ rfl),
    oneLine_between _ _ rfl rfl hone, ?_⟩
  have hrest : ("n,Goto(" ++ a ++ ",1)").toList =
      'n' :: ",Goto(".toList ++ (a.toList ++ ',' :: ['1']) ++ [')'] := by
    simp
  have hcontext : gotoContext (a.toList ++ ',' :: ['1']) = [] := by
    rw [gotoContext, explodeChars_append, explodeChars_of_not_mem ha]
    rfl
  rw [restTargets_goto hrest (by decide) (by decide), hcontext]
  intro t ht
  cases ht

/-- An id with a fixed end is a name. -/
theorem named_append_fixed {u : String} (h : plainId u = true) (cs : List Char)
    (hcs : (!cs.contains ',' && !cs.contains '\n') = true) :
    named (u ++ String.ofList cs) = true := by
  have hcomma := plainId_ne h (x := ',') (by decide)
  have hone := oneLine_plainId h
  simp only [plainId, Bool.and_eq_true, Bool.not_eq_true'] at h
  simp only [Bool.and_eq_true, Bool.not_eq_true'] at hcs
  apply named_append hcomma
  · rw [String.toList_ofList]
    simpa using hcs.1
  · exact oneLine_join hone (oneLine_ofList cs hcs.2)
  · exact List.isEmpty_eq_false_iff.1 h.1

/-- An outgoing pattern dials, and then goes to the provider to fall back on, if there is one. -/
theorem allGood_outgoingPattern (hg : Unbroken g.config) (hp : OutgoingSpelled g p)
    (hfail : (p.get "failover").truthy = true →
      (pbxGetProvider g (p.get "failover").toStr).truthy = true → T (p.get "failover").toStr)
    {pattern : Val} (hmem : pattern ∈ (p.get "dialpattern").vals) :
    AllGood T X (outgoingPattern g p pattern) := by
  have hpattern := oneLine_toStr ((hp.unbroken.get "dialpattern").mem_vals hmem)
  have hcomma : ',' ∉ (parsePattern pattern.toStr).pattern.toList := fun h =>
    hp.dialpattern pattern hmem (mem_of_mem_parsePattern h)
  have hexten := named_underscore hcomma (oneLine_parsePattern hpattern)
  have hdialled := oneLine_parsePattern_dialled hpattern
  have hname := oneLine_get hp.unbroken "name"
  have hid := oneLine_plainId hp.uniqid
  have hstatus : oneLine (var "DIALSTATUS") = true := oneLine_varOf (oneLine_ofList _ rfl)
  have hfailover := oneLine_get (unbroken_pbxGetProvider hg (p.get "failover").toStr) "name"
  -- the fixed lines, and those with an id or a name in them
  have hfixed : ∀ (e : String) (cs : List Char), named e = true → (opensChars cs && quietChars cs &&
      cs.getLast? == some ')' && !cs.contains '\n') = true →
      Good T X (.exten e (String.ofList cs)) := by
    intro e cs he h
    simp only [Bool.and_eq_true, beq_iff_eq, Bool.not_eq_true'] at h
    exact good_quiet he (opens_ofList cs h.1.1.1) (quiet_ofList cs h.1.1.2)
      (closes_ofList cs h.1.2) (oneLine_ofList cs h.2)
  have hhangup : ∀ cs : List Char, (!cs.contains ',' && !cs.contains '\n') = true →
      Good T X (.exten ((p.get "uniqid").toStr ++ String.ofList cs) "1,Hangup()") :=
    fun cs hcs => hfixed _ _ (named_append_fixed hp.uniqid cs hcs) rfl
  have hvia : ∀ cs : List Char, (!cs.contains ',' && !cs.contains '\n') = true →
      Good T X (.exten ((p.get "uniqid").toStr ++ String.ofList cs)
        ("1" ++ (",NoOp(Failover needed, now using : " ++
          ((pbxGetProvider g (p.get "failover").toStr).get "name").toStr ++ ")"))) := by
    intro cs hcs
    have htext : "1" ++ ",NoOp(Failover needed, now using : " =
      "1,NoOp(Failover needed, now using : " := by decide
    rw [← String.append_assoc, ← String.append_assoc, htext]
    exact good_step (named_append_fixed hp.uniqid cs hcs) ((opening_fixed _ rfl).text hfailover)
      _ rfl
  unfold outgoingPattern
  refine AllGood.append (AllGood.append ?_ ?_) ?_
  · refine allGood_cons.2 ⟨good_step hexten ((opening_fixed _ rfl).text hname) _ rfl, ?_⟩
    exact allGood_cons.2 ⟨hfixed _ _ hexten rfl, allGood_nil⟩
  · -- the line that dials, for each of the three technologies
    rcases hp.technology with htech | htech | htech
    · rw [htech]
      refine allGood_cons.2 ⟨good_step hexten ?_ _ rfl, allGood_nil⟩
      exact (((opening_fixed _ rfl).text hdialled).fixed _ rfl).text hid
    · rw [htech]
      refine allGood_cons.2 ⟨good_step hexten ?_ _ rfl, allGood_nil⟩
      exact (((opening_fixed _ rfl).text hid).fixed _ rfl).text hdialled
    · rw [htech]
      refine allGood_cons.2 ⟨good_step hexten ?_ _ rfl, allGood_nil⟩
      exact (((opening_fixed _ rfl).text (oneLine_dahdiGetGnumber hg _)).fixed _ rfl).text hdialled
  · -- with a failover that is stored, the two statuses it is for jump to it
    split_ifs with hset
    · rw [Bool.and_eq_true] at hset
      have hgoto : IsStep T ("n,Goto(" ++ (p.get "failover").toStr ++ "," ++ var "ORIGEXTENSION" ++
          ",1)") :=
        isStep_goto (wordId_of_plainId (hp.failover hset.1 hset.2)) (by decide) (oneLine_varOf (oneLine_ofList _ rfl))
          (hfail hset.1 hset.2)
      have hjump : Good T X (.exten ("_" ++ (parsePattern pattern.toStr).pattern)
          ("n,Goto(" ++ (p.get "uniqid").toStr ++ "-" ++ var "DIALSTATUS" ++ ",1)")) := by
        have htext : "n,Goto(" ++ (p.get "uniqid").toStr ++ "-" ++ var "DIALSTATUS" ++ ",1)" =
            "n,Goto(" ++ ((p.get "uniqid").toStr ++ "-" ++ var "DIALSTATUS") ++ ",1)" := by
          simp only [String.append_assoc]
        rw [htext]
        apply good_of_isStep hexten
        apply isStep_gotoExten
        · have hcommaId := plainId_ne hp.uniqid (x := ',') (by decide)
          have hcommaVar : ',' ∉ (var "DIALSTATUS").toList := by decide
          simp [hcommaId, hcommaVar]
        · exact oneLine_join (oneLine_join hid (oneLine_ofList _ rfl)) hstatus
      refine allGood_cons.2 ⟨good_step hexten ((opening_fixed _ rfl).text hstatus) _ rfl,
        allGood_cons.2 ⟨hjump, allGood_cons.2 ⟨hhangup _ rfl, allGood_cons.2 ⟨hhangup _ rfl,
        allGood_cons.2 ⟨hhangup _ rfl, ?_⟩⟩⟩⟩⟩
      exact allGood_cons.2 ⟨hvia _ rfl, allGood_cons.2
        ⟨good_of_isStep (named_append_fixed hp.uniqid _ rfl) hgoto, allGood_cons.2 ⟨hvia _ rfl,
        allGood_cons.2 ⟨good_of_isStep (named_append_fixed hp.uniqid _ rfl) hgoto,
        allGood_nil⟩⟩⟩⟩
    · exact allGood_cons.2 ⟨hfixed _ _ hexten rfl, allGood_nil⟩

/-- The context for a provider's outgoing calls consists of these. -/
theorem allGood_generateProviderOutgoingContext (hg : Unbroken g.config)
    (hp : OutgoingSpelled g p) (hfail : (p.get "dialpattern").vals ≠ [] →
      (p.get "failover").truthy = true →
      (pbxGetProvider g (p.get "failover").toStr).truthy = true → T (p.get "failover").toStr) :
    AllGood T X (generateProviderOutgoingContext g p) := by
  refine allGood_cons.2 ⟨good_context (headerName_of_plainId hp.uniqid), allGood_flatMap ?_⟩
  intro pattern hmem
  exact allGood_outgoingPattern hg hp (hfail (List.ne_nil_of_mem hmem)) hmem

end Providers

/-! ## Labels -/

section Labels

variable {x : Val}

/-- A label made of two fields. -/
theorem oneLine_label (hx : Unbroken x) (a b : String) :
    oneLine ((x.get a).toStr ++ " - <" ++ (x.get b).toStr ++ ">") = true := by
  refine oneLine_join (oneLine_join (oneLine_join ?_ ?_) ?_) ?_
  · exact oneLine_get hx a
  · exact oneLine_ofList _ rfl
  · exact oneLine_get hx b
  · exact oneLine_ofList _ rfl

/-- The label of a phone is made of its caller id and its extension. -/
theorem oneLine_phoneLabel (hx : Unbroken x) : oneLine (phoneLabel x) = true :=
  oneLine_label hx _ _

/-- The label of a group is made of its name and its extension. -/
theorem oneLine_groupLabel (hx : Unbroken x) : oneLine (groupLabel x) = true :=
  oneLine_label hx _ _

/-- The label of a room is made of its name and its number. -/
theorem oneLine_roomLabel (hx : Unbroken x) : oneLine (roomLabel x) = true :=
  oneLine_label hx _ _

end Labels

/-! ## Phones -/

section Phones

variable {T : String → Prop} {X : Line → Prop} {g : Globals} {phone provider : Val}

/-- The caller id for a call is one of three that are stored. -/
theorem unbroken_cidOverride (hphone : Unbroken phone) (hprovider : Unbroken provider)
    {cidoverride : Val} (hc : Unbroken cidoverride) :
    Unbroken (cidOverride phone provider cidoverride) := by
  have hstart : Unbroken (if is (provider.get "calleridsource") "string" &&
      (provider.get "calleridstring").truthy then provider.get "calleridstring"
      else cidoverride) := by
    split_ifs
    · exact hprovider.get _
    · exact hc
  -- the last mapping for this provider decides, and all of them are unbroken
  have hfold : ∀ (maps : List Val) (c : Val), (∀ x ∈ maps, Unbroken x) → Unbroken c →
      Unbroken (maps.foldl (fun c map =>
        if (map.get "provideruniqid").looseEq (provider.get "uniqid") then map.get "cidstring"
        else c) c) := by
    intro maps
    induction maps with
    | nil => exact fun c _ hc => hc
    | cons x r ih =>
      intro c hx hc
      apply ih _ fun y hy => hx y (List.mem_cons_of_mem _ hy)
      beta_reduce
      split_ifs
      · exact (hx x List.mem_cons_self).get _
      · exact hc
  unfold cidOverride
  simp only
  split_ifs
  all_goals first
    | exact hfold _ _ (fun x hx => (hphone.get _).mem_vals hx) (hprovider.get _)
    | exact hfold _ _ (fun x hx => (hphone.get _).mem_vals hx) hc
    | exact hprovider.get _
    | exact hc

/-- A phone's pattern sets the caller id and goes to the provider. -/
theorem allGood_phonePattern (hp : ProviderSpelled g provider) {cidoverride pattern : Val}
    (hc : Unbroken cidoverride) (hmem : pattern ∈ (provider.get "dialpattern").vals)
    (hT : T (provider.get "uniqid").toStr) :
    AllGood T X (phonePattern provider cidoverride pattern) := by
  have hpattern := oneLine_toStr ((hp.unbroken.get "dialpattern").mem_vals hmem)
  have hcomma : ',' ∉ (parsePattern pattern.toStr).pattern.toList := fun h =>
    hp.dialpattern pattern hmem (mem_of_mem_parsePattern h)
  have hexten := named_underscore hcomma (oneLine_parsePattern hpattern)
  have hvar : ∀ cs : List Char, cs.contains '\n' = false → oneLine (var (String.ofList cs)) = true :=
    fun cs hcs => oneLine_varOf (oneLine_ofList cs hcs)
  have hcid := oneLine_toStr hc
  unfold phonePattern
  refine AllGood.append (AllGood.append ?_ ?_) ?_
  · refine allGood_cons.2 ⟨good_step hexten ((opening_fixed _ rfl).text
      (oneLine_get hp.unbroken "name")) _ rfl, ?_⟩
    exact allGood_cons.2 ⟨good_step hexten ((opening_fixed _ rfl).text (hvar _ rfl)) _ rfl,
      allGood_cons.2 ⟨good_step hexten ((opening_fixed _ rfl).text (hvar _ rfl)) _ rfl,
      allGood_nil⟩⟩
  · split_ifs
    · exact allGood_cons.2 ⟨good_step hexten ((opening_fixed _ rfl).text hcid) _ rfl,
        allGood_cons.2 ⟨good_step hexten ((opening_fixed _ rfl).text hcid) _ rfl, allGood_nil⟩⟩
    · exact allGood_cons.2 ⟨good_of_isStep hexten (isStep_fixed _ rfl), allGood_nil⟩
  · exact allGood_cons.2 ⟨good_of_isStep hexten (isStep_goto (wordId_of_plainId hp.uniqid) (by decide) (hvar _ rfl) hT),
      allGood_nil⟩

/-- The patterns of all providers a phone may use, whatever caller id an earlier one left behind. -/
theorem allGood_phoneProviders (hphone : Unbroken phone) {providers : List Val}
    (hp : ∀ provider ∈ enabled providers, ProviderSpelled g provider)
    (hT : ∀ provider ∈ enabled providers, (provider.get "dialpattern").vals ≠ [] →
      T (provider.get "uniqid").toStr) {cidoverride : Val} (hc : Unbroken cidoverride) :
    AllGood T X (phoneProviders phone providers cidoverride) := by
  -- the caller id found for one provider is left for the next one
  induction providers generalizing cidoverride with
  | nil => exact allGood_nil
  | cons provider r ih =>
    have hmono : ∀ x ∈ enabled r, x ∈ enabled (provider :: r) := by
      intro x hx
      unfold enabled at hx ⊢
      rw [List.mem_filter] at hx ⊢
      exact ⟨List.mem_cons_of_mem _ hx.1, hx.2⟩
    have hrest : ∀ c, Unbroken c → AllGood T X (phoneProviders phone r c) := fun c hc =>
      ih (fun x hx => hp x (hmono x hx)) (fun x hx => hT x (hmono x hx)) hc
    rw [phoneProviders]
    split_ifs with huse
    · have hmem : provider ∈ enabled (provider :: r) := by
        unfold enabled
        rw [List.mem_filter]
        rw [Bool.and_eq_true] at huse
        exact ⟨List.mem_cons_self, huse.1⟩
      have hspelled := hp provider hmem
      have hcid := unbroken_cidOverride hphone hspelled.unbroken hc
      apply AllGood.append _ (hrest _ hcid)
      apply allGood_flatMap
      intro pattern hpattern
      exact allGood_phonePattern hspelled hcid hpattern
        (hT provider hmem (List.ne_nil_of_mem hpattern))
    · exact hrest _ hc

/-- The two contexts of a phone or an analog fax. -/
theorem allGood_phoneContexts (hphone : Unbroken phone)
    (hid : plainId (phone.get "uniqid").toStr = true) {providers : List Val} {includeUri : Bool}
    (hp : ∀ provider ∈ enabled providers, ProviderSpelled g provider)
    (hT : ∀ provider ∈ enabled providers, (provider.get "dialpattern").vals ≠ [] →
      T (provider.get "uniqid").toStr)
    (hinternal : T "internal") (hout : T ((phone.get "uniqid").toStr ++ "-outgoing"))
    (huri : T "outgoing-uri") :
    AllGood T X (phoneContexts providers includeUri phone) := by
  have hone := oneLine_plainId hid
  have houtgoing : AllGood T X (generatePhoneOutgoingContext providers phone) := by
    refine allGood_cons.2 ⟨good_context (headerName_append hid _ rfl), ?_⟩
    exact allGood_phoneProviders hphone hp hT unbroken_null
  have hblank : AllGood T X [.other ""] := allGood_cons.2 ⟨good_plain _ rfl, allGood_nil⟩
  unfold phoneContexts
  refine AllGood.append (AllGood.append (AllGood.append (AllGood.append ?_ ?_) hblank) houtgoing)
    hblank
  · refine allGood_cons.2 ⟨good_comment ?_, allGood_cons.2
      ⟨good_context (headerName_of_plainId hid), allGood_cons.2
      ⟨good_includeFixed _ rfl hinternal, allGood_cons.2 ⟨?_, allGood_nil⟩⟩⟩⟩
    · exact oneLine_phoneLabel hphone
    · have htext : "include => " ++ (phone.get "uniqid").toStr ++ "-outgoing" =
          "include => " ++ ((phone.get "uniqid").toStr ++ "-outgoing") := String.append_assoc
      rw [htext]
      apply good_include _ (oneLine_join hone (oneLine_ofList _ rfl)) hout
      rw [String.toList_append]
      exact List.append_ne_nil_of_right_ne_nil _ (by decide)
  · apply allGood_linesIf
    exact allGood_cons.2 ⟨good_includeFixed _ rfl huri, allGood_nil⟩

end Phones

/-! ## Shared contexts -/

/-- The texts of a phone, a call group, an application, a room or a fax that has an extension. -/
structure ElementSpelled (field : String) (x : Val) : Prop where
  unbroken : Unbroken x
  extension : named (x.get field).toStr = true
  publicname : ∀ name ∈ publicname x, named name = true

section Shared

variable {T : String → Prop} {X : Line → Prop} {g : Globals} {x : Val}

/-- The name an element has outside, or else its number. -/
theorem ElementSpelled.getD {field : String} (h : ElementSpelled field x) :
    named ((Dialplan.publicname x).getD (x.get field).toStr) = true := by
  cases hname : Dialplan.publicname x with
  | none => exact h.extension
  | some name => exact h.publicname name hname

/-- The name an element has outside is one line. -/
theorem oneLine_publicname {field : String} (h : ElementSpelled field x) :
    ∀ e ∈ Dialplan.publicname x, oneLine e = true :=
  fun e he => oneLine_of_named (h.publicname e he)

/-- A comment with a stored text. -/
theorem good_commentText (cs : List Char) (hcs : cs.contains '\n' = false) {text : String}
    (h : oneLine text = true) : Good T X (.other (String.ofList (';' :: cs) ++ text)) := by
  have hread : readLine (String.ofList (';' :: cs) ++ text).toList = .comment := by
    rw [String.toList_append, String.toList_ofList]
    rfl
  have hfixed : (';' :: cs).contains '\n' = false := by
    rw [List.contains_cons, hcs]
    rfl
  left
  constructor
  · rw [Line.proper, oneLine_after _ hfixed h, hread]
    rfl
  · rw [Line.entry, Line.body, hread]
    intro t ht
    cases ht

/-- The comment and the first step of an extension. -/
theorem allGood_head (as cs : List Char) {exten comment label : String}
    (hcomment : oneLine comment = true) (hlabel : oneLine label = true) (hexten : named exten = true)
    (has : as.contains '\n' = false)
    (hcs : (opensChars cs && quietChars cs && !cs.contains '\n') = true) :
    AllGood T X [.other (String.ofList (';' :: as) ++ comment),
      .exten exten (String.ofList cs ++ label ++ ")")] :=
  allGood_cons.2 ⟨good_commentText as has hcomment, allGood_cons.2
    ⟨good_step hexten ((opening_fixed cs hcs).text hlabel) _ rfl, allGood_nil⟩⟩

/-- The extension by which an internal phone is called from outside reads well. -/
theorem allGood_publicInternalPhone (hg : Unbroken g.config) (h : ElementSpelled "extension" x)
    (htech : HasTechnology x) : AllGood T X (publicInternalPhone g x) := by
  have hlabel := oneLine_phoneLabel h.unbroken
  have hext := oneLine_get h.unbroken "extension"
  have hnoop : ∀ e, named e = true → Good T X (.exten e
      ("1,NoOp(public calling internal phone: " ++ phoneLabel x ++ ")")) :=
    fun e he => good_step he ((opening_fixed _ rfl).text hlabel) _ rfl
  have hmark : Good T X (.exten (x.get "extension").toStr
      ("n,Set(_PICKUPMARK=" ++ (x.get "extension").toStr ++ ")")) :=
    good_step h.extension ((opening_fixed _ rfl).text hext) _ rfl
  unfold publicInternalPhone
  refine allGood_cons.2 ⟨good_commentText _ rfl hlabel, ?_⟩
  cases hname : Dialplan.publicname x with
  | none =>
    refine AllGood.append (allGood_cons.2 ⟨hnoop _ h.extension, allGood_cons.2 ⟨hmark,
      allGood_nil⟩⟩) (allGood_steps h.extension ?_)
    exact steps_generateInternalPhoneExtension hg h.unbroken (fun r hr => by cases hr)
      (fun e he => by cases he) htech
  | some name =>
    have hnamed := h.publicname name hname
    refine AllGood.append (allGood_cons.2 ⟨hnoop _ hnamed, allGood_cons.2 ⟨hmark, allGood_nil⟩⟩)
      (allGood_steps hnamed ?_)
    refine steps_generateInternalPhoneExtension hg h.unbroken (fun r hr => by cases hr) ?_ htech
    rintro _ ⟨⟩
    exact oneLine_of_named hnamed

theorem allGood_publicExternalPhone (hg : Unbroken g.config) (h : ElementSpelled "extension" x)
    (hdialled : Dialled x) : AllGood T X (publicExternalPhone g x) := by
  have hlabel := oneLine_phoneLabel h.unbroken
  refine AllGood.append (allGood_head _ _ hlabel hlabel h.getD rfl rfl) ?_
  exact allGood_steps h.getD (steps_generateExternalPhoneExtension hg h.unbroken
    (fun r hr => by cases hr) (oneLine_publicname h) hdialled)

theorem allGood_publicCallgroup (hg : Unbroken g.config) (h : ElementSpelled "extension" x) :
    AllGood T X (publicCallgroup g x) := by
  have hlabel := oneLine_groupLabel h.unbroken
  refine AllGood.append (allGood_head _ _ hlabel hlabel h.getD rfl rfl) ?_
  exact allGood_steps h.getD (steps_generateCallgroupExtension hg h.unbroken
    (fun r hr => by cases hr))

theorem allGood_publicConferenceRoom (h : ElementSpelled "number" x) :
    AllGood T X (publicConferenceRoom x) := by
  have hlabel := oneLine_roomLabel h.unbroken
  refine AllGood.append (allGood_head _ _ hlabel hlabel h.getD rfl rfl) ?_
  exact allGood_steps h.getD (steps_generateConferenceRoomExtension h.unbroken)

/-- An application is called by a number or a pattern. -/
theorem named_patternify (h : named (x.get "extension").toStr = true) :
    named (extensionsPatternify (x.get "extension").toStr) = true := by
  unfold extensionsPatternify
  split_ifs
  · exact h
  · exact named_underscore (comma_not_mem_of_named h) (oneLine_of_named h)

/-- The texts of an element that has an extension and a context of its own. -/
structure IdSpelled (x : Val) : Prop extends ElementSpelled "extension" x where
  uniqid : plainId (x.get "uniqid").toStr = true

/-- An application that can be called from outside. -/
theorem allGood_publicApplication (h : IdSpelled x) (hT : T (x.get "uniqid").toStr) :
    AllGood T X (publicApplication x) := by
  have hname := oneLine_get h.unbroken "name"
  have hexten : named ((Dialplan.publicname x).getD
      (extensionsPatternify (x.get "extension").toStr)) = true := by
    cases hpublic : Dialplan.publicname x with
    | none => exact named_patternify h.extension
    | some name => exact h.publicname name hpublic
  refine AllGood.append (allGood_head _ _ hname hname hexten rfl rfl) ?_
  exact allGood_steps hexten (steps_generateApplicationExtension (wordId_of_plainId h.uniqid) hT)

/-- The comment and the first step of an extension in `internal`. -/
theorem allGood_internalHead {comment exten what : String} (hcomment : oneLine comment = true)
    (hwhat : oneLine what = true) (hexten : named exten = true) :
    AllGood T X (internalHead comment exten what) :=
  allGood_head _ _ hcomment hwhat hexten rfl rfl

/-- The extension by which an internal phone is called from inside reads well. -/
theorem allGood_internalInternalPhone (hg : Unbroken g.config) (h : ElementSpelled "extension" x)
    (htech : HasTechnology x) : AllGood T X (internalInternalPhone g x) := by
  have hlabel := oneLine_phoneLabel h.unbroken
  refine AllGood.append (allGood_internalHead (oneLine_after _ rfl hlabel)
    (oneLine_after _ rfl hlabel) h.extension) (allGood_steps h.extension ?_)
  exact steps_generateInternalPhoneExtension hg h.unbroken (fun r hr => by cases hr)
    (fun e he => by cases he) htech

theorem allGood_internalExternalPhone (hg : Unbroken g.config) (h : ElementSpelled "extension" x)
    (hdialled : Dialled x) : AllGood T X (internalExternalPhone g x) := by
  have hlabel := oneLine_phoneLabel h.unbroken
  refine AllGood.append (allGood_internalHead (oneLine_after _ rfl hlabel)
    (oneLine_after _ rfl hlabel) h.extension) (allGood_steps h.extension ?_)
  exact steps_generateExternalPhoneExtension hg h.unbroken (fun r hr => by cases hr)
    (fun e he => by cases he) hdialled

theorem allGood_internalCallgroup (hg : Unbroken g.config) (h : ElementSpelled "extension" x) :
    AllGood T X (internalCallgroup g x) := by
  have hlabel := oneLine_groupLabel h.unbroken
  refine AllGood.append (allGood_internalHead (oneLine_after _ rfl hlabel)
    (oneLine_after _ rfl hlabel) h.extension) (allGood_steps h.extension ?_)
  exact steps_generateCallgroupExtension hg h.unbroken (fun r hr => by cases hr)

theorem allGood_internalApplication (h : IdSpelled x) (hT : T (x.get "uniqid").toStr) :
    AllGood T X (internalApplication x) := by
  have hname := oneLine_get h.unbroken "name"
  have hexten := named_patternify h.extension
  refine AllGood.append (allGood_internalHead (oneLine_after _ rfl hname)
    (oneLine_after _ rfl hname) hexten) (allGood_steps hexten ?_)
  exact steps_generateApplicationExtension (wordId_of_plainId h.uniqid) hT

theorem allGood_internalConferenceRoom (h : ElementSpelled "number" x) :
    AllGood T X (internalConferenceRoom x) := by
  have hlabel := oneLine_roomLabel h.unbroken
  refine AllGood.append (allGood_internalHead (oneLine_after _ rfl hlabel)
    (oneLine_after _ rfl hlabel) h.extension) (allGood_steps h.extension ?_)
  exact steps_generateConferenceRoomExtension h.unbroken

theorem allGood_internalVirtualFax (h : IdSpelled x) (hT : T (x.get "uniqid").toStr) :
    AllGood T X (internalVirtualFax x) := by
  have hlabel := oneLine_phoneLabel h.unbroken
  refine AllGood.append (allGood_internalHead (oneLine_after _ rfl hlabel)
    (oneLine_after _ rfl hlabel) h.extension) (allGood_steps h.extension ?_)
  exact steps_generateVirtualFaxExtension (wordId_of_plainId h.uniqid) hT

theorem allGood_internalAnalogFax (hg : Unbroken g.config) (h : ElementSpelled "extension" x) :
    AllGood T X (internalAnalogFax g x) := by
  have hlabel := oneLine_phoneLabel h.unbroken
  refine AllGood.append (allGood_internalHead (oneLine_after _ rfl hlabel)
    (oneLine_after _ rfl hlabel) h.extension) (allGood_steps h.extension ?_)
  exact steps_generateAnalogFaxExtension hg

end Shared

/-! ## The dialplan -/

/-- The first parking position. -/
def parkStart (g : Globals) : String :=
  let pc := (g.config.get "dialplan").get "callparking"
  if (pc.get "parkposstart").isset then (pc.get "parkposstart").toStr else "701"

/-- The texts of the configuration are as the forms and the system make them. -/
structure Spelled (env : Env) (l : Lists) (g : Globals) : Prop where
  config : Unbroken g.config
  productName : oneLine env.productName = true
  newFax : oneLine (env.gettext "New Fax from") = true
  internalPhones : ∀ p ∈ enabled l.internalPhones, IdSpelled p ∧ HasTechnology p
  externalPhones : ∀ p ∈ enabled l.externalPhones, ElementSpelled "extension" p ∧ Dialled p
  callgroups : ∀ cg ∈ withExtension l.callgroups, ElementSpelled "extension" cg
  applications : ∀ a ∈ enabled l.applications, IdSpelled a
  conferenceRooms : ∀ r ∈ l.conferenceRooms, ElementSpelled "number" r
  virtualFaxes : ∀ f ∈ enabled l.virtualFaxes, IdSpelled f
  analogFaxes : ∀ f ∈ enabled l.analogFaxes, IdSpelled f
  sipPhones : ∀ p ∈ enabled l.sipPhones, named (p.get "extension").toStr = true
  providers : ∀ p ∈ enabled l.providers, ProviderSpelled g p
  hosts : ∀ e ∈ sipGetHostsWithMultipleAccounts l.sipProviders,
    headerName ("SIP-PROVIDER-" ++ e.1.toStr ++ "-incoming") = true
  accounts : ∀ e ∈ sipGetHostsWithMultipleAccounts l.sipProviders, ∀ id ∈ e.2.vals,
    named ((getElement g (.provider .sip) id.toStr).get "username").toStr = true ∧
      plainId ((getElement g (.provider .sip) id.toStr).get "uniqid").toStr = true
  parking : named (parkStart g) = true

/-- The messages of a generator that falls through its cases. -/
structure Messages (T : String → Prop) (X : Line → Prop) (l : Lists) : Prop where
  override : ∀ p ∈ enabled l.providers, overrideKnown (p.get "override") = false →
    Good T X (overrideError (p.get "override"))
  unmatched : ∀ p ∈ enabled l.providers, ∀ e ∈ (grouppedMapping p).entries,
    destKind (destinationOf e) = none → X (.unended unmatchedText)

/-- What the lines that are not the generator's own may be: lines typed into applications, and the
messages about a way to replace the caller id and about a destination. -/
structure Exempt (T : String → Prop) (X : Line → Prop) (l : Lists) : Prop extends Messages T X l where
  typed : ∀ a ∈ enabled l.applications, isPlaintext a = true → ∀ s ∈ typedLines a,
    if isInclude s then X (.other s) else Good T X (.exten anyExten s) ∧ Good T X (.exten "s" s)

/-- The contexts the generator names are in `T`. -/
structure Landing (T : String → Prop) (l : Lists) (g : Globals) : Prop where
  internal : T "internal"
  publicDirectDial : T "public-direct-dial"
  outgoingUri : T "outgoing-uri"
  parkedcalls : T "parkedcalls"
  outgoing : ∀ p ∈ enabled l.internalPhones ++ enabled l.analogFaxes,
    T ((p.get "uniqid").toStr ++ "-outgoing")
  dialled : ∀ p ∈ enabled l.providers, (p.get "dialpattern").vals ≠ [] → T (p.get "uniqid").toStr
  virtualFaxes : ∀ f ∈ enabled l.virtualFaxes, T (f.get "uniqid").toStr
  applications : ∀ a ∈ enabled l.applications, T (a.get "uniqid").toStr
  providers : ∀ p ∈ enabled l.providers, ProviderLanding T g p
  accounts : ∀ e ∈ sipGetHostsWithMultipleAccounts l.sipProviders, ∀ id ∈ e.2.vals,
    T (((getElement g (.provider .sip) id.toStr).get "uniqid").toStr ++ "-incoming")

/-- The lines after the contexts of the applications. -/
def afterApplications (env : Env) (l : Lists) (g : Globals) : List Line :=
  [.other ""] ++
  (enabled l.virtualFaxes).flatMap (fun f => generateVirtualFaxContext env g f ++ [.other ""]) ++
  [.other ""] ++
  publicDirectDial g l ++ internalContext g l ++
  (enabled l.providers).flatMap (providerContexts g) ++
  (sipGetHostsWithMultipleAccounts l.sipProviders).flatMap (multiContext g) ++
  [.other ""] ++
  (enabled l.internalPhones).flatMap (phoneContexts l.providers true) ++
  (enabled l.analogFaxes).flatMap (phoneContexts l.providers false) ++
  outgoingUri

/-- The lines before the contexts of the providers. -/
def linesBeforeProviders (env : Env) (l : Lists) (g : Globals) : List Line :=
  macros env g ++
  (enabled l.applications).flatMap (fun a => generateApplicationContext2 a ++ [.other ""]) ++
  [.other ""] ++
  (enabled l.virtualFaxes).flatMap (fun f => generateVirtualFaxContext env g f ++ [.other ""]) ++
  [.other ""] ++
  publicDirectDial g l ++ internalContext g l

/-- The lines after the contexts of the providers. -/
def linesAfterProviders (l : Lists) (g : Globals) : List Line :=
  (sipGetHostsWithMultipleAccounts l.sipProviders).flatMap (multiContext g) ++
  [.other ""] ++
  (enabled l.internalPhones).flatMap (phoneContexts l.providers true) ++
  (enabled l.analogFaxes).flatMap (phoneContexts l.providers false) ++
  outgoingUri

section Conf

variable {T : String → Prop} {X : Line → Prop} {env : Env} {l : Lists} {g : Globals}

/-- The text is that of the lines for the lists that are fetched first. -/
theorem extensionsConfGenerate_text (usort : Usort) (env : Env) (g : Globals) :
    (extensionsConfGenerate usort env g).1 =
      render (confLines env (fetchLists usort g).1 (fetchLists usort g).2) := by
  unfold extensionsConfGenerate
  generalize fetchLists usort g = fetched
  cases fetched with
  | mk l g => dsimp only

/-- The macros, the contexts of the applications, and the rest. -/
theorem confLines_eq (env : Env) (l : Lists) (g : Globals) :
    confLines env l g = macros env g ++
      (enabled l.applications).flatMap (fun a => generateApplicationContext2 a ++ [.other ""]) ++
      afterApplications env l g := by
  unfold confLines afterApplications
  simp only [List.append_assoc]

/-- The contexts of the providers, and the lines before and after them. -/
theorem confLines_providers (env : Env) (l : Lists) (g : Globals) :
    confLines env l g = linesBeforeProviders env l g ++
      ((enabled l.providers).flatMap (providerContexts g) ++ linesAfterProviders l g) := by
  unfold confLines linesBeforeProviders linesAfterProviders
  simp only [List.append_assoc]

/-- A hint is no step of a call. -/
theorem good_hint {name : String} (hname : named name = true) (cs : List Char) {text : String}
    (hcs : cs.contains '\n' = false) (h : oneLine text = true) :
    Good T X (.exten name (String.ofList ('h' :: 'i' :: 'n' :: 't' :: ',' :: cs) ++ text)) := by
  have hfixed : ('h' :: 'i' :: 'n' :: 't' :: ',' :: cs).contains '\n' = false := by
    simpa using hcs
  have hhint : isHint (String.ofList ('h' :: 'i' :: 'n' :: 't' :: ',' :: cs) ++ text) = true := by
    rw [isHint, String.toList_append, String.toList_ofList, String.toList_ofList]
    simp
  left
  constructor
  · rw [Line.proper, hname, oneLine_after _ hfixed h, hhint, Bool.or_true]
    rfl
  · have hcut : cutAt ',' (String.ofList ('h' :: 'i' :: 'n' :: 't' :: ',' :: cs) ++ text).toList =
        some (['h', 'i', 'n', 't'], cs ++ text.toList) := by
      rw [String.toList_append, String.toList_ofList]
      rfl
    rw [targets_exten hname, restTargets, readStep, hcut]
    simp only
    rw [if_pos (by rw [String.toList_ofList])]
    intro t ht
    cases ht

theorem named_toString (n : ℕ) : named (toString n) = true := by
  have hdigit : ∀ c ∈ (toString n).toList, c.isDigit = true := fun c hc =>
    Val.isDigit_of_mem_toString_nat hc
  have hne : (toString n).toList ≠ [] := Val.toString_ne_nil
  have hcomma : ',' ∉ (toString n).toList := fun h => absurd (hdigit _ h) (by decide)
  unfold named
  rw [oneLine_toString, Bool.and_true, Bool.and_eq_true, Bool.not_eq_true', Bool.not_eq_true',
    List.isEmpty_eq_false_iff, List.contains_eq_mem, decide_eq_false_iff_not]
  exact ⟨hne, hcomma⟩

/-- The positions of the parking lot count up from a name. -/
theorem named_positions {start stop : String} (hstart : named start = true) :
    ∀ i ∈ positions start stop, named i = true := by
  intro i hi
  unfold positions at hi
  simp only at hi
  split_ifs at hi
  · rcases List.mem_cons.1 hi with rfl | hi
    · exact hstart
    · obtain ⟨n, -, rfl⟩ := List.mem_map.1 hi
      exact named_toString n
  · cases hi

/-- The parking lot has an extension for each position, and its own context. -/
theorem allGood_generateParkinglot (hstart : named (parkStart g) = true) (hT : T "parkedcalls") :
    AllGood T X (generateParkinglot g) := by
  refine allGood_cons.2 ⟨good_includeFixed _ rfl hT, allGood_flatMap ?_⟩
  intro i hi
  have hname : named i = true := named_positions hstart i hi
  have hone := oneLine_of_named hname
  refine allGood_cons.2 ⟨good_step hname ((opening_fixed _ rfl).text hone) _ rfl, ?_⟩
  refine allGood_cons.2 ⟨?_, allGood_nil⟩
  rw [String.append_assoc]
  exact good_hint hname _ rfl (oneLine_join hone (oneLine_ofList _ rfl))

/-- The hints of the phones read well. -/
theorem allGood_generateHints {phones : List Val}
    (h : ∀ p ∈ enabled phones, named (p.get "extension").toStr = true) :
    AllGood T X (generateHints phones) := by
  refine AllGood.append ?_ (allGood_cons.2 ⟨good_plain _ rfl, allGood_nil⟩)
  intro line hl
  obtain ⟨p, hp, rfl⟩ := List.mem_map.1 hl
  exact good_hint (h p hp) _ rfl (oneLine_of_named (h p hp))

/-- The context for calls to an address dials what was entered. -/
theorem allGood_outgoingUri : AllGood T X outgoingUri := by
  have huri : oneLine (var "EXTEN" ++ "@" ++ var "SIPDOMAIN") = true :=
    oneLine_join (oneLine_join (oneLine_varOf (oneLine_ofList _ rfl)) (oneLine_ofList _ rfl))
      (oneLine_varOf (oneLine_ofList _ rfl))
  have hname : named "_[0-9a-zA-Z*#]." = true := named_ofList _ rfl
  have hheader : headerName "outgoing-uri" = true := by decide
  unfold outgoingUri
  exact allGood_cons.2 ⟨good_context hheader, allGood_cons.2
    ⟨good_step hname ((opening_fixed _ rfl).text huri) _ rfl, allGood_cons.2
    ⟨good_step hname ((opening_fixed _ rfl).text huri) _ rfl, allGood_cons.2
    ⟨good_plain _ rfl, allGood_nil⟩⟩⟩⟩

/-- What the jump to an account of a shared host names. -/
theorem restTargets_account {u : String} (h : plainId u = true) :
    restTargets ("1,Goto(" ++ u ++ "-incoming,s,1)") = [u ++ "-incoming"] := by
  have hcomma := plainId_ne h (x := ',') (by decide)
  have hrest : ("1,Goto(" ++ u ++ "-incoming,s,1)").toList = '1' :: ",Goto(".toList ++
      ((u ++ "-incoming").toList ++ ',' :: (['s'] ++ ',' :: ['1'])) ++ [')'] := by
    simp
  rw [restTargets_goto hrest (by decide) (by decide), gotoContext_eq _ (by decide) (by decide),
    String.ofList_toList]
  simp [hcomma]

/-- The context of a host with several accounts goes on to the context of one of them. -/
theorem allGood_multiContext (hs : Spelled env l g) (hland : Landing T l g) {e : Key × Val}
    (he : e ∈ sipGetHostsWithMultipleAccounts l.sipProviders) :
    AllGood T X (multiContext g e) := by
  have hheader := hs.hosts e he
  have hone : oneLine e.1.toStr = true := by
    have h := hheader
    simp only [headerName, Bool.and_eq_true, oneLine_append] at h
    exact h.2.1.2
  refine AllGood.append (allGood_cons.2 ⟨good_commentText _ rfl hone, allGood_cons.2
    ⟨good_context hheader, allGood_nil⟩⟩) ?_
  intro line hl
  obtain ⟨id, hid, rfl⟩ := List.mem_map.1 hl
  obtain ⟨hname, hplain⟩ := hs.accounts e he id hid
  have hT := hland.accounts e he id hid
  have hid' := oneLine_plainId hplain
  left
  constructor
  · rw [Line.proper, hname, oneLine_between _ _ rfl rfl hid',
      opens_append (opens_append (opens_ofList _ rfl)), closes_append (closes_ofList _ rfl)]
    rfl
  · rw [targets_exten hname, restTargets_account hplain]
    intro t ht
    rw [List.mem_singleton.1 ht]
    exact hT

theorem mem_of_mem_publicOnes {xs : List Val} {x : Val} (h : x ∈ publicOnes xs) : x ∈ xs :=
  List.mem_of_mem_filter h

/-- The context for calls from outside, section by section. -/
theorem allGood_publicDirectDial (hs : Spelled env l g) (hland : Landing T l g) :
    AllGood T X (publicDirectDial g l) := by
  have hheader : headerName "public-direct-dial" = true := by decide
  unfold publicDirectDial
  refine AllGood.append (AllGood.append (AllGood.append (AllGood.append (AllGood.append
    (AllGood.append (allGood_cons.2 ⟨good_context hheader, allGood_nil⟩) ?_) ?_) ?_) ?_) ?_)
    (allGood_cons.2 ⟨good_plain _ rfl, allGood_nil⟩)
  · apply allGood_flatMap
    intro p hp
    obtain ⟨hspelled, htech⟩ := hs.internalPhones p (mem_of_mem_publicOnes hp)
    exact allGood_publicInternalPhone hs.config hspelled.toElementSpelled htech
  · apply allGood_flatMap
    intro p hp
    obtain ⟨hspelled, hdialled⟩ := hs.externalPhones p (mem_of_mem_publicOnes hp)
    exact allGood_publicExternalPhone hs.config hspelled hdialled
  · apply allGood_flatMap
    intro cg hcg
    exact allGood_publicCallgroup hs.config (hs.callgroups cg (mem_of_mem_publicOnes hcg))
  · apply allGood_flatMap
    intro a ha
    have hmem := mem_of_mem_publicOnes ha
    exact allGood_publicApplication (hs.applications a hmem) (hland.applications a hmem)
  · apply allGood_flatMap
    intro r hr
    exact allGood_publicConferenceRoom (hs.conferenceRooms r (mem_of_mem_publicOnes hr))

/-- The context for calls from inside, section by section. -/
theorem allGood_internalContext (hs : Spelled env l g) (hland : Landing T l g) :
    AllGood T X (internalContext g l) := by
  have hheader : headerName "internal" = true := by decide
  have hplain : ∀ cs : List Char, (!cs.contains '\n' && isPlain (readLine cs)) = true →
      AllGood T X [.other (String.ofList cs)] := fun cs hcs =>
    allGood_cons.2 ⟨good_plain cs hcs, allGood_nil⟩
  have hend : AllGood T X [.other "", .other "; hangup logic",
      .exten "h" "1,NoOp(Entering the internal context hangup extension)",
      .exten "h" "n,Macro(missedcallmail)", .other ""] :=
    allGood_cons.2 ⟨good_plain _ rfl, allGood_cons.2 ⟨good_plain _ rfl, allGood_cons.2
      ⟨good_exten _ _ rfl rfl, allGood_cons.2 ⟨good_exten _ _ rfl rfl, hplain _ rfl⟩⟩⟩⟩
  unfold internalContext
  -- one list after the other, as the source writes them
  refine (((((((((((AllGood.append (allGood_cons.2 ⟨good_context hheader, allGood_nil⟩)
    ?_).append ?_).append ?_).append ?_).append ?_).append ?_).append ?_).append
    (hplain _ rfl)).append ?_).append (hplain _ rfl)).append ?_).append hend
  · apply allGood_flatMap
    intro p hp
    obtain ⟨hspelled, htech⟩ := hs.internalPhones p hp
    exact allGood_internalInternalPhone hs.config hspelled.toElementSpelled htech
  · apply allGood_flatMap
    intro p hp
    obtain ⟨hspelled, hdialled⟩ := hs.externalPhones p hp
    exact allGood_internalExternalPhone hs.config hspelled hdialled
  · apply allGood_flatMap
    intro cg hcg
    exact allGood_internalCallgroup hs.config (hs.callgroups cg hcg)
  · apply allGood_flatMap
    intro a ha
    exact allGood_internalApplication (hs.applications a ha) (hland.applications a ha)
  · apply allGood_flatMap
    intro r hr
    exact allGood_internalConferenceRoom (hs.conferenceRooms r hr)
  · apply allGood_flatMap
    intro f hf
    exact allGood_internalVirtualFax (hs.virtualFaxes f hf) (hland.virtualFaxes f hf)
  · apply allGood_flatMap
    intro f hf
    exact allGood_internalAnalogFax hs.config (hs.analogFaxes f hf).toElementSpelled
  · exact allGood_generateParkinglot hs.parking hland.parkedcalls
  · exact allGood_generateHints hs.sipPhones

/-- The two contexts of a provider. -/
theorem allGood_providerContexts (hs : Spelled env l g) (hland : Landing T l g)
    (hX : Messages T X l) {p : Val} (hp : p ∈ enabled l.providers) :
    AllGood T X (providerContexts g p) := by
  have hspelled := hs.providers p hp
  have hname := oneLine_get hspelled.unbroken "name"
  unfold providerContexts
  refine AllGood.append (AllGood.append ?_ ?_) (allGood_cons.2 ⟨good_plain _ rfl, allGood_nil⟩)
  · split_ifs
    · refine allGood_cons.2 ⟨good_commentText _ rfl hname, ?_⟩
      exact allGood_generateProviderIncomingContext hs.config hspelled (hland.providers p hp)
        hland.publicDirectDial (hX.override p hp) (hX.unmatched p hp)
    · exact allGood_nil
  · split_ifs
    · refine allGood_cons.2 ⟨good_commentText _ rfl hname, ?_⟩
      exact allGood_generateProviderOutgoingContext hs.config hspelled.toOutgoingSpelled
        (hland.providers p hp).failover
    · exact allGood_nil

theorem allGood_blank : AllGood T X [.other ""] := allGood_cons.2 ⟨good_plain _ rfl, allGood_nil⟩

/-- Everything that comes after the applications. -/
theorem allGood_afterApplications (hs : Spelled env l g) (hland : Landing T l g) (hX : Messages T X l) :
    AllGood T X (afterApplications env l g) := by
  unfold afterApplications
  refine ((((((((((AllGood.append allGood_blank ?_).append allGood_blank).append
    ?_).append ?_).append ?_).append ?_).append allGood_blank).append ?_).append ?_).append
    allGood_outgoingUri)
  · apply allGood_flatMap
    intro f hf
    have hspelled := hs.virtualFaxes f hf
    exact (allGood_generateVirtualFaxContext hs.config hspelled.unbroken hs.productName hs.newFax
      hspelled.uniqid).append allGood_blank
  · exact allGood_publicDirectDial hs hland
  · exact allGood_internalContext hs hland
  · apply allGood_flatMap
    intro p hp
    exact allGood_providerContexts hs hland hX hp
  · apply allGood_flatMap
    intro e he
    exact allGood_multiContext hs hland he
  · apply allGood_flatMap
    intro p hp
    have hspelled := (hs.internalPhones p hp).1
    exact allGood_phoneContexts hspelled.unbroken hspelled.uniqid hs.providers hland.dialled
      hland.internal (hland.outgoing p (List.mem_append_left _ hp)) hland.outgoingUri
  · apply allGood_flatMap
    intro f hf
    have hspelled := hs.analogFaxes f hf
    exact allGood_phoneContexts hspelled.unbroken hspelled.uniqid hs.providers hland.dialled
      hland.internal (hland.outgoing f (List.mem_append_right _ hf)) hland.outgoingUri

/-- Every line of `extensions.conf` is read as it is meant and names only contexts in `T`, the lines
in `X` apart. -/
theorem allGood_confLines (hs : Spelled env l g) (hland : Landing T l g) (hX : Exempt T X l) :
    AllGood T X (confLines env l g) := by
  rw [confLines_eq]
  refine AllGood.append (AllGood.append ?_ ?_) (allGood_afterApplications hs hland hX.toMessages)
  · exact allGood_macros hs.config hs.productName hland.internal
  · apply allGood_flatMap
    intro a ha
    have hspelled := hs.applications a ha
    exact (allGood_generateApplicationContext2 hspelled.unbroken hspelled.uniqid
      (hX.typed a ha)).append allGood_blank

end Conf

end Dialplan
end Askozia
