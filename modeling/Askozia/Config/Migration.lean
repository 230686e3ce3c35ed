import Askozia.Config.Convert

/-!
# What converting preserves

The steps of `convert_config` put together, for every configuration of an older version.

* `migrates`: what the configuration is after `convert_config`, and that a second call changes
  nothing.
-/

namespace Askozia
namespace Config

open Php XmlParse Pbx

/-! ## What converting is for -/

/-- A configuration of an older version: a tree as a load produces it, with sections where the code
expects sections, and applications with names of their own. -/
structure OldConfig (config : Val) : Prop where
  canonical : Canonical (fun _ => True) config
  version : config.get "version" ∈ [.str "2.0", .str "2.01", .str "2.02"]
  sections : ∀ n ∈ ["system", "dialplan"], ∀ s, config.get n = .str s → s = ""
  mappings : ∀ t, ∀ p ∈ elements config (.provider t), ∀ x ∈ (p.get "incomingextensionmap").vals,
    ∀ s, x = .str s → s = ""
  uniqids : ∀ a ∈ elements config .application, ∃ u, a.get "uniqid" = .str u ∧ u ≠ "" ∧ number? u = none
  distinct : ((elements config .application).map (·.get "uniqid")).Nodup

/-- What comes before a separator. -/
def beforeBar (v : Val) : Val := .str ((explode '|' v.toStr).headD "")

/-- The notifications after the step from 2.0. -/
def notificationsAfter (version : Val) (notifications : Val) : Val :=
  if version = .str "2.0" ∧ (notifications.get "email").get "tls" = .str "yes" then
    notifications.mapAt (.str "email") fun email =>
      (email.set (.str "enctype") (.str "tls")).unset (.str "tls")
  else notifications

/-- The system settings after the step from 2.01. -/
def systemAfter (version : Val) (system : Val) : Val :=
  if version ≠ .str "2.02" ∧ (system.get "timezone").truthy = true then
    system.mapAt (.str "timezone") beforeBar
  else system

/-- A provider whose incoming mappings go elsewhere. -/
def redirected (rename : Val → Val) : Val → Val :=
  Val.mapAt (.str "incomingextensionmap") (Val.mapItems (Val.mapAt (.str "destinationid") rename))

/-- The value under a key of the configuration, if there is one. -/
def under (config : Val) (n : String) : Option Val := config.entries.lookup (.str n)

/-- The applications after the step from 2.02. -/
def applicationsAfter (fresh : ℕ → String) (config : Val) : List Val :=
  elements config .application2 ++
    (elements config .application).zipIdx.map (fun a => applicationV2 (fresh a.2) a.1) ++
    stockApplications

/-- A configuration and what it is converted to. -/
structure Migrated (fresh : ℕ → String) (config config' : Val) : Prop where
  version : under config' "version" = some (.str "2.1")
  applications : listOf config' .application = .ofList (applicationsAfter fresh config)
  application2 : Key.str "application2" ∉ (config'.get "dialplan").entries.map Prod.fst
  dialplan : ∀ k, k ≠ .str "application" → k ≠ .str "application2" →
    (config'.get "dialplan").entries.lookup k = (config.get "dialplan").entries.lookup k
  providers : ∃ rename, Renames fresh (elements config .application) rename ∧
    ∀ t : Tech, under config' t.name =
      (under config t.name).map (Val.mapAt (.str "provider") (Val.mapItems (redirected rename)))
  notifications : under config' "notifications" =
    (under config "notifications").map (notificationsAfter (config.get "version"))
  system : under config' "system" = (under config "system").map (systemAfter (config.get "version"))
  others : ∀ k, k ∉ (["version", "dialplan", "notifications", "system"] ++
      technologies.map Tech.name).map Key.str →
    config'.entries.lookup k = config.entries.lookup k

/-! ## The steps one by one -/

section Steps

variable {config : Val} {fresh : ℕ → String}

theorem canonical_get_of {v : Val} {n : String} (h : v = .null ∨ Canonical (fun _ => True) v)
    (hn : n ∉ listtags) : v.get n = .null ∨ Canonical (fun _ => True) (v.get n) := by
  rcases h with rfl | h
  · exact .inl rfl
  · exact canonical_get h hn

theorem OldConfig.isArray (h : OldConfig config) : config.isArray = true := by
  cases config with
  | arr es => rfl
  | str s =>
    have hversion := h.version
    simp only [Val.get, Val.idx, List.mem_cons, Val.str.injEq, List.not_mem_nil, or_false] at hversion
    have hlong : ∀ v ∈ ["2.0", "2.01", "2.02"], String.ofList s.toList.head?.toList ≠ v := by
      intro v hv heq
      have hlength := congrArg String.length heq
      have hthree : ∀ v ∈ ["2.0", "2.01", "2.02"], 3 ≤ v.length := by decide
      have hshort : s.toList.head?.toList.length ≤ 1 := by cases s.toList.head? <;> simp
      rw [String.length_ofList] at hlength
      have hv := hthree v hv
      omega
    rcases hversion with hv | hv | hv
    · exact absurd hv (hlong "2.0" (by decide))
    · exact absurd hv (hlong "2.01" (by decide))
    · exact absurd hv (hlong "2.02" (by decide))
  | _ => exact absurd h.canonical (by rintro ⟨⟩)

/-- Versions are compared as numbers, and no two of them are the same number. -/
theorem isVersion_eq {v w : String} (h : config.get "version" = .str v)
    (hv : v ∈ ["2.0", "2.01", "2.02", "2.1"]) (hw : w ∈ ["2.0", "2.01", "2.02", "2.1"]) :
    isVersion w config = decide (v = w) := by
  have hall : ∀ v ∈ ["2.0", "2.01", "2.02", "2.1"], ∀ w ∈ ["2.0", "2.01", "2.02", "2.1"],
      (Val.str v).looseEq (.str w) = decide (v = w) := by decide +kernel
  rw [isVersion, h, hall v hv w hw]

theorem get_setVersion (v : String) (config : Val) : (setVersion v config).get "version" = .str v :=
  Val.idx_set_self _ _ _

/-- Assigning to a section that is there. -/
theorem under_set_of_get {n : String} {F : Val → Val} (harr : config.isArray = true)
    (h : config.get n ≠ .null) :
    under (config.set (.str n) (F (config.get n))) n = (under config n).map F := by
  have hself : under (config.set (.str n) (F (config.get n))) n = some (F (config.get n)) :=
    Val.lookup_setEntry_self
  rw [hself]
  rw [get_of_isArray harr] at h ⊢
  unfold under
  cases hx : config.entries.lookup (.str n) with
  | none =>
    rw [hx] at h
    exact absurd rfl h
  | some x => rfl

theorem under_map_eq_self {n : String} {F : Val → Val} (harr : config.isArray = true)
    (h : F (config.get n) = config.get n) : (under config n).map F = under config n := by
  rw [get_of_isArray harr] at h
  unfold under
  cases hx : config.entries.lookup (.str n) with
  | none => rfl
  | some x =>
    rw [hx] at h
    exact congrArg some h

theorem convertEmail_spec (harr : config.isArray = true) (h : Canonical (fun _ => True) config) :
    (convertEmail config).isArray = true ∧
    under (convertEmail config) "notifications" =
      (under config "notifications").map (notificationsAfter (.str "2.0")) ∧
    ∀ k, k ≠ .str "version" → k ≠ .str "notifications" →
      (convertEmail config).entries.lookup k = config.entries.lookup k := by
  refine ⟨rfl, ?_, ?_⟩
  · have htls : (((config.get "notifications").get "email").get "tls").looseEq (.str "yes") =
        isText "yes" (((config.get "notifications").get "email").get "tls") := by
      apply looseEq_eq_isText (by decide) (by decide)
      exact canonical_get_of (canonical_get_of (canonical_get h (by decide)) (by decide)) (by decide)
    have hversion : ∀ c, under (setVersion "2.01" c) "notifications" = under c "notifications" :=
      fun c => Val.lookup_setEntry_of_ne (by decide)
    unfold convertEmail
    dsimp only
    rw [hversion, htls]
    split_ifs with hyes
    · have hyes : ((config.get "notifications").get "email").get "tls" = .str "yes" := by
        simpa [isText] using hyes
      -- a string at `email` would give one letter at `tls`, which is not `yes`
      have hemail : ((config.get "notifications").get "email").isArray = true := by
        cases hx : (config.get "notifications").get "email" with
        | arr es => rfl
        | str s =>
          rw [hx] at hyes
          have hlength := congrArg String.length (Val.str.inj hyes)
          have hshort : s.toList.head?.toList.length ≤ 1 := by cases s.toList.head? <;> simp
          rw [String.length_ofList, show "yes".length = 3 by decide] at hlength
          omega
        | _ =>
          rw [hx] at hyes
          cases hyes
      have hafter : notificationsAfter (.str "2.0") (config.get "notifications") =
          (config.get "notifications").set (.str "email")
            ((((config.get "notifications").get "email").set (.str "enctype") (.str "tls")).unset
              (.str "tls")) := by
        rw [notificationsAfter, if_pos ⟨rfl, hyes⟩]
        exact (Val.set_eq_mapAt (k := .str "email")
          (f := fun email => (email.set (.str "enctype") (.str "tls")).unset (.str "tls")) hemail).symm
      rw [← hafter]
      apply under_set_of_get harr
      intro hnull
      rw [hnull] at hemail
      cases hemail
    · -- nothing to convert
      symm
      apply under_map_eq_self harr
      apply if_neg
      rintro ⟨-, hc⟩
      exact hyes (by simpa [isText] using hc)
  · intro k hversion hnotifications
    unfold convertEmail
    dsimp only
    rw [setVersion, show (Val.set _ _ _).entries = Val.setEntry _ _ _ from rfl,
      Val.lookup_setEntry_of_ne hversion]
    split_ifs
    · exact Val.lookup_setEntry_of_ne hnotifications
    · rfl

theorem convertTimezone_spec (version : Val) (hv : version ≠ .str "2.02") (harr : config.isArray = true)
    (h : ∀ s, config.get "system" = .str s → s = "") :
    (convertTimezone config).isArray = true ∧
    under (convertTimezone config) "system" = (under config "system").map (systemAfter version) ∧
    ∀ k, k ≠ .str "version" → k ≠ .str "system" →
      (convertTimezone config).entries.lookup k = config.entries.lookup k := by
  refine ⟨rfl, ?_, ?_⟩
  · have hversion : ∀ c, under (setVersion "2.02" c) "system" = under c "system" :=
      fun c => Val.lookup_setEntry_of_ne (by decide)
    unfold convertTimezone
    dsimp only
    rw [hversion]
    split_ifs with htimezone
    · -- a section that is a string is empty, and has no time zone
      have hstr : ∀ s, config.get "system" ≠ .str s := by
        intro s hs
        obtain rfl := h s hs
        rw [hs] at htimezone
        exact absurd htimezone (by decide)
      have hafter : systemAfter version (config.get "system") = (config.get "system").set
          (.str "timezone") (beforeBar ((config.get "system").get "timezone")) := by
        rw [systemAfter, if_pos ⟨hv, htimezone⟩]
        symm
        apply Val.set_eq_mapAt_of_ne_null hstr
        intro hnull
        rw [Val.get, hnull] at htimezone
        cases htimezone
      unfold beforeBar at hafter
      rw [← hafter]
      apply under_set_of_get harr
      intro hnull
      rw [hnull] at htimezone
      cases htimezone
    · -- without a time zone the section stays as it is
      symm
      apply under_map_eq_self harr
      apply if_neg
      rintro ⟨-, hc⟩
      exact htimezone hc
  · intro k hversion hsystem
    unfold convertTimezone
    dsimp only
    rw [setVersion, show (Val.set _ _ _).entries = Val.setEntry _ _ _ from rfl,
      Val.lookup_setEntry_of_ne hversion]
    split_ifs
    · exact Val.lookup_setEntry_of_ne hsystem
    · rfl

/-- Every older version comes to the last step. -/
theorem convertConfig_cases (h : OldConfig config) (fresh : ℕ → String) :
    ∃ c, convertConfig fresh config = convertApplications fresh c ∧ c.isArray = true ∧
      under c "notifications" =
        (under config "notifications").map (notificationsAfter (config.get "version")) ∧
      under c "system" = (under config "system").map (systemAfter (config.get "version")) ∧
      ∀ k, k ≠ .str "version" → k ≠ .str "notifications" → k ≠ .str "system" →
        c.entries.lookup k = config.entries.lookup k := by
  have harr := h.isArray
  have hsystem := h.sections "system" (by decide)
  have hnotifications : ∀ v, v ≠ Val.str "2.0" →
      (under config "notifications").map (notificationsAfter v) = under config "notifications" := by
    intro v hv
    apply under_map_eq_self harr
    apply if_neg
    rintro ⟨hc, -⟩
    exact hv hc
  have hversion := h.version
  simp only [List.mem_cons, List.not_mem_nil, or_false] at hversion
  -- the conversions fall through: from each version the later ones follow
  rcases hversion with hv | hv | hv
  · obtain ⟨harr₁, hnot₁, hother₁⟩ := convertEmail_spec harr h.canonical
    have hsystem₁ : ∀ s, (convertEmail config).get "system" = .str s → s = "" := by
      intro s hs
      rw [get_of_isArray harr₁, hother₁ _ (by decide) (by decide), ← get_of_isArray harr] at hs
      exact hsystem s hs
    obtain ⟨harr₂, hsys₂, hother₂⟩ :=
      convertTimezone_spec (.str "2.0") (by decide) harr₁ hsystem₁
    refine ⟨convertTimezone (convertEmail config), ?_, harr₂, ?_, ?_, ?_⟩
    · have hlatest : isVersion latestConfig config = false := isVersion_eq hv (by decide) (by decide)
      have hfirst : isVersion "2.0" config = true := isVersion_eq hv (by decide) (by decide)
      have hsecond : isVersion "2.01" (convertEmail config) = true :=
        isVersion_eq (v := "2.01") (get_setVersion _ _) (by decide) (by decide)
      have hthird : isVersion "2.02" (convertTimezone (convertEmail config)) = true :=
        isVersion_eq (v := "2.02") (get_setVersion _ _) (by decide) (by decide)
      simp only [convertConfig, hlatest, hfirst, hsecond, hthird, Bool.false_eq_true, if_true, if_false]
    · rw [hv, ← hnot₁]
      exact hother₂ _ (by decide) (by decide)
    · rw [hv, hsys₂]
      congr 1
      exact hother₁ _ (by decide) (by decide)
    · intro k hk₁ hk₂ hk₃
      rw [hother₂ k hk₁ hk₃, hother₁ k hk₁ hk₂]
  · obtain ⟨harr₁, hsys₁, hother₁⟩ :=
      convertTimezone_spec (.str "2.01") (by decide) harr hsystem
    refine ⟨convertTimezone config, ?_, harr₁, ?_, ?_, ?_⟩
    · have hlatest : isVersion latestConfig config = false := isVersion_eq hv (by decide) (by decide)
      have hfirst : isVersion "2.0" config = false := isVersion_eq hv (by decide) (by decide)
      have hsecond : isVersion "2.01" config = true := isVersion_eq hv (by decide) (by decide)
      have hthird : isVersion "2.02" (convertTimezone config) = true :=
        isVersion_eq (v := "2.02") (get_setVersion _ _) (by decide) (by decide)
      simp only [convertConfig, hlatest, hfirst, hsecond, hthird, Bool.false_eq_true, if_true, if_false]
    · rw [hv, hnotifications _ (by decide)]
      exact hother₁ _ (by decide) (by decide)
    · rw [hv, hsys₁]
    · intro k hk₁ _ hk₃
      exact hother₁ k hk₁ hk₃
  · refine ⟨config, ?_, harr, ?_, ?_, fun k _ _ _ => rfl⟩
    · have hlatest : isVersion latestConfig config = false := isVersion_eq hv (by decide) (by decide)
      have hfirst : isVersion "2.0" config = false := isVersion_eq hv (by decide) (by decide)
      have hsecond : isVersion "2.01" config = false := isVersion_eq hv (by decide) (by decide)
      have hthird : isVersion "2.02" config = true := isVersion_eq hv (by decide) (by decide)
      simp only [convertConfig, hlatest, hfirst, hsecond, hthird, Bool.false_eq_true, if_true, if_false]
    · rw [hv, hnotifications _ (by decide)]
    · rw [hv]
      symm
      apply under_map_eq_self harr
      apply if_neg
      rintro ⟨hc, -⟩
      exact hc rfl

end Steps

/-! ## The step of the applications -/

section Applications

variable {config : Val} {fresh : ℕ → String}

theorem idx_unset_of_ne {v : Val} {k k' : Key} (h : k' ≠ k) : (v.unset k).idx k' = v.idx k' := by
  cases v with
  | arr es =>
    show ((es.filter fun e => e.1 != k).lookup k').getD .null = (es.lookup k').getD .null
    rw [Val.lookup_filter_ne h]
  | _ => rfl

/-- Unsetting what is not there. -/
theorem unset_eq_self {v : Val} {k : Key} (h : k ∉ v.entries.map Prod.fst) : v.unset k = v := by
  cases v with
  | arr es =>
    rw [Val.unset]
    congr 1
    rw [List.filter_eq_self]
    intro e he
    have hne : e.1 ≠ k := fun hc => h (List.mem_map.2 ⟨e, he, hc⟩)
    simpa using hne
  | _ => rfl

/-- What is there under a list tag is an array. -/
theorem not_mem_of_not_isArray {v : Val} {n : String} (h : v = .null ∨ Canonical (fun _ => True) v)
    (hn : n ∈ listtags) (hv : (v.get n).isArray = false) : Key.str n ∉ v.entries.map Prod.fst := by
  rcases h with rfl | h
  · exact List.not_mem_nil
  · cases h with
    | str _ => exact List.not_mem_nil
    | @map es _ hnodup hes =>
      intro hmem
      obtain ⟨⟨k, x⟩, hx, rfl⟩ := List.mem_map.1 hmem
      have hlookup : es.lookup (.str n) = some x := Val.lookup_of_mem hnodup hx
      rw [Val.get, Val.idx_arr, hlookup] at hv
      generalize hentry : ((Key.str n, x) : Key × Val) = e at hx
      cases hes e hx with
      | list _ _ _ _ =>
        obtain ⟨-, rfl⟩ := Prod.mk.inj hentry
        cases hv
      | single _ hl _ =>
        obtain ⟨hkey, -⟩ := Prod.mk.inj hentry
        exact hl (Key.str.inj hkey ▸ hn)

/-- Appending to a list of elements again and again. -/
theorem foldl_push (config : Val) (k : Kind) (xs items : List Val) :
    items.foldl (fun config a => setList config k ((listOf config k).push a))
      (setList config k (.ofList xs)) = setList config k (.ofList (xs ++ items)) := by
  induction items generalizing xs with
  | nil => rw [List.foldl_nil, List.append_nil]
  | cons a r ih =>
    rw [List.foldl_cons, listOf_setList_self, Val.push_ofList, setList_setList, ih, List.append_assoc]
    rfl

/-- What the last step does to the configuration. -/
theorem convertApplications_spec (fresh : ℕ → String) (harr : config.isArray = true)
    (hdialplan : config.get "dialplan" = .null ∨ Canonical (fun _ => True) (config.get "dialplan"))
    (hproviders : ∀ t, Editable config (.provider t))
    (hu : ∀ a ∈ elements config .application, ∃ u, a.get "uniqid" = .str u ∧ u ≠ "" ∧ number? u = none) :
    (convertApplications fresh config).isArray = true ∧
    under (convertApplications fresh config) "version" = some (.str "2.1") ∧
    (convertApplications fresh config).get "dialplan" =
      ((config.get "dialplan").unset (.str "application2")).set (.str "application")
        (.ofList (applicationsAfter fresh config)) ∧
    ∀ k, k ≠ .str "version" → k ≠ .str "dialplan" →
      (convertApplications fresh config).entries.lookup k = (config.entries.lookup k).map
        (sectionEdit (Val.mapAt (.str "incomingextensionmap") (Val.mapItems
          (redirectAll fresh (elements config .application).zipIdx))) k) := by
  -- the applications of the second version are taken out of the dialplan
  obtain ⟨c, hc, hcarr, hcdialplan, hcother⟩ : ∃ c,
      (if (listOf config .application2).isArray then
        (listOf config .application2,
          config.set (.str "dialplan") ((config.get "dialplan").unset (.str "application2")))
      else (.arr [], config)) = (.ofList (elements config .application2), c) ∧ c.isArray = true ∧
      c.get "dialplan" = (config.get "dialplan").unset (.str "application2") ∧
      ∀ k, k ≠ .str "dialplan" → c.entries.lookup k = config.entries.lookup k := by
    split_ifs with hexisting
    · have hlist : listOf config .application2 = .ofList (elements config .application2) := by
        rcases hdialplan with hnull | hcanonical
        · rw [listOf, show Kind.application2.sectionName = "dialplan" from rfl, hnull] at hexisting
          cases hexisting
        · obtain ⟨items, hitems, -⟩ := canonical_get_list hcanonical (by decide) hexisting
          have hitems : listOf config .application2 = .ofList items := hitems
          rw [elements, hitems, Val.vals_ofList]
      exact ⟨_, by rw [← hlist], rfl, Val.idx_set_self _ _ _, fun k hk => Val.lookup_setEntry_of_ne hk⟩
    · have hnone : (listOf config .application2).isArray = false := by simpa using hexisting
      have helements : elements config .application2 = [] := by
        unfold elements Val.vals
        cases hl : listOf config .application2 with
        | arr es =>
          rw [hl] at hnone
          cases hnone
        | _ => rfl
      rw [helements]
      refine ⟨config, rfl, harr, ?_, fun k _ => rfl⟩
      exact (unset_eq_self (not_mem_of_not_isArray hdialplan (by decide) hnone)).symm
  have happlications : listOf c .application = listOf config .application := by
    show (c.get "dialplan").get "application" = (config.get "dialplan").get "application"
    rw [hcdialplan]
    exact idx_unset_of_ne (by decide)
  have hcproviders : ∀ t, Editable c (.provider t) := by
    intro t
    have hlist : listOf c (.provider t) = listOf config (.provider t) := by
      show (c.get t.name).get "provider" = (config.get t.name).get "provider"
      rw [get_of_isArray hcarr, get_of_isArray harr, hcother]
      cases t <;> decide
    unfold Editable
    rw [hlist]
    exact hproviders t
  -- those of the first version are converted
  have hloop : (if (listOf c .application).isArray then
      updateApplications fresh (listOf c .application).vals.zipIdx
        (.ofList (elements config .application2)) c
      else (.ofList (elements config .application2), c)) =
      updateApplications fresh (elements config .application).zipIdx
        (.ofList (elements config .application2)) c := by
    rw [happlications]
    split_ifs with happ
    · rfl
    · have helements : elements config .application = [] := by
        unfold elements Val.vals
        cases hl : listOf config .application with
        | arr es =>
          rw [hl] at happ
          exact absurd rfl happ
        | _ => rfl
      rw [helements]
      rfl
  obtain ⟨c', hrun, hswept⟩ := updateApplications_spec fresh
    (elements config .application).zipIdx (elements config .application2)
    (fun a ha => hu a.1 (List.fst_mem_of_mem_zipIdx ha)) hcarr hcproviders
  -- and the list is stored
  have hresult : convertApplications fresh config =
      setVersion "2.1" (setList c' .application (.ofList (applicationsAfter fresh config))) := by
    unfold convertApplications
    dsimp only
    rw [hc]
    dsimp only
    rw [hloop, hrun]
    dsimp only
    rw [foldl_push]
    rfl
  rw [hresult]
  refine ⟨rfl, Val.lookup_setEntry_self, ?_, ?_⟩
  · have hget : (setVersion "2.1" (setList c' .application (.ofList (applicationsAfter fresh config)))).get
        "dialplan" = (setList c' .application (.ofList (applicationsAfter fresh config))).get "dialplan" :=
      Val.idx_set_of_ne _ (by decide) (by rintro s ⟨⟩)
    rw [hget, setList, Val.get, show Kind.application.sectionName = "dialplan" from rfl, Val.idx_set_self,
      hswept.get_dialplan hcarr, hcdialplan]
    rfl
  · intro k hversion hdial
    have hlookup : (setVersion "2.1" (setList c' .application
        (.ofList (applicationsAfter fresh config)))).entries.lookup k = c'.entries.lookup k :=
      (Val.lookup_setEntry_of_ne hversion).trans (Val.lookup_setEntry_of_ne hdial)
    rw [hlookup, hswept.lookup, hcother k hdial]

end Applications

/-! ## The whole conversion -/

section Whole

variable {config : Val} {fresh : ℕ → String}

/-- The sweeps over one section amount to a substitution. -/
theorem sectionEdit_eq (h : OldConfig config) (t : Tech) :
    (under config t.name).map (sectionEdit (Val.mapAt (.str "incomingextensionmap") (Val.mapItems
        (redirectAll fresh (elements config .application).zipIdx))) (.str t.name)) =
      (under config t.name).map (Val.mapAt (.str "provider") (Val.mapItems
        (redirected (renameAll fresh (elements config .application).zipIdx)))) := by
  have hkey : Key.str t.name ∈ techKeys := by cases t <;> decide
  rw [sectionEdit, if_pos hkey]
  cases hsection : under config t.name with
  | none => rfl
  | some v =>
    have hget : config.get t.name = v := by
      rw [get_of_isArray h.isArray]
      unfold under at hsection
      rw [hsection]
      rfl
    rw [Option.map_some, Option.map_some, Option.some.injEq]
    apply Val.mapAt_congr
    apply Val.mapItems_congr
    intro p hp
    apply Val.mapAt_congr
    apply Val.mapItems_congr
    intro x hx
    -- one mapping: the chain of replacements is one simultaneous replacement
    apply redirectAll_eq
    · intro a ha
      obtain ⟨u, hu, hne, -⟩ := h.uniqids a.1 (List.fst_mem_of_mem_zipIdx ha)
      exact ⟨u, hu, hne⟩
    · apply h.mappings t p _ x hx
      show p ∈ ((config.get t.name).get "provider").vals
      rw [hget]
      exact hp

/-- Converting an older configuration gives version 2.1, with the applications of both versions and
the new ones in one list, the incoming mappings following the applications, and the rest as it was;
converting again changes nothing. -/
theorem migrates (h : OldConfig config)
    (hfresh : ∀ i, ∀ a ∈ elements config .application, a.get "uniqid" ≠ applicationUniqid (fresh i)) :
    Migrated fresh config (convertConfig fresh config) ∧
      ∀ fresh', convertConfig fresh' (convertConfig fresh config) = convertConfig fresh config := by
  obtain ⟨c, hc, hcarr, hnotifications, hsystem, hother⟩ := convertConfig_cases h fresh
  have harr := h.isArray
  have hget : ∀ n, n ≠ "version" → n ≠ "notifications" → n ≠ "system" → c.get n = config.get n := by
    intro n h₁ h₂ h₃
    rw [get_of_isArray hcarr, get_of_isArray harr,
      hother _ (by simpa using h₁) (by simpa using h₂) (by simpa using h₃)]
  have hdialplan : c.get "dialplan" = config.get "dialplan" := hget _ (by decide) (by decide) (by decide)
  have happlications : ∀ k : Kind, k.sectionName = "dialplan" → elements c k = elements config k := by
    intro k hk
    rw [elements, elements, listOf, listOf, hk, hdialplan]
  have hproviders : ∀ t, Editable c (.provider t) := by
    intro t
    have hlist : listOf c (.provider t) = listOf config (.provider t) := by
      show (c.get t.name).get "provider" = (config.get t.name).get "provider"
      rw [hget _ (by cases t <;> decide) (by cases t <;> decide) (by cases t <;> decide)]
    unfold Editable
    rw [hlist]
    exact canonical_listOf h.canonical _
  have hcanonical : c.get "dialplan" = .null ∨ Canonical (fun _ => True) (c.get "dialplan") := by
    rw [hdialplan]
    exact canonical_get h.canonical (by decide)
  have hafter : applicationsAfter fresh c = applicationsAfter fresh config := by
    unfold applicationsAfter
    rw [happlications _ rfl, happlications _ rfl]
  -- the last conversion, of applications, over what the first two have left
  obtain ⟨harr', hversion', hdialplan', hother'⟩ := convertApplications_spec fresh hcarr
    hcanonical hproviders (by rw [happlications _ rfl]; exact h.uniqids)
  rw [← hc] at harr' hversion' hdialplan' hother'
  rw [hafter, hdialplan] at hdialplan'
  rw [happlications _ rfl] at hother'
  have hkept : ∀ k, k ≠ .str "version" → k ≠ .str "dialplan" → k ∉ techKeys →
      (convertConfig fresh config).entries.lookup k = c.entries.lookup k := by
    intro k h₁ h₂ h₃
    rw [hother' k h₁ h₂, sectionEdit, if_neg h₃, Option.map_id, id]
  -- the applications, both old lists, the mappings, the two other sections, and all the rest
  refine ⟨⟨hversion', ?_, ?_, ?_, ?_, ?_, ?_, ?_⟩, ?_⟩
  · show ((convertConfig fresh config).get "dialplan").get "application" = _
    rw [hdialplan']
    exact Val.idx_set_self _ _ _
  · rw [hdialplan']
    intro hmem
    obtain ⟨e, he, hkey⟩ := List.mem_map.1 hmem
    rcases Val.mem_setEntry he with rfl | he
    · exact absurd (Key.str.inj hkey) (by decide)
    · cases hd : config.get "dialplan" with
      | arr es =>
        rw [hd] at he
        have hne := (List.mem_filter.1 he).2
        rw [hkey] at hne
        exact absurd hne (by decide)
      | _ =>
        rw [hd] at he
        cases he
  · intro k hk₁ hk₂
    rw [hdialplan']
    refine (Val.lookup_setEntry_of_ne hk₁).trans ?_
    cases config.get "dialplan" with
    | arr es => exact Val.lookup_filter_ne hk₂
    | _ => rfl
  · refine ⟨_, renames_renameAll h.distinct hfresh, fun t => ?_⟩
    rw [← sectionEdit_eq h t]
    have hlookup := hother' (.str t.name) (by cases t <;> decide) (by cases t <;> decide)
    rw [hother _ (by cases t <;> decide) (by cases t <;> decide) (by cases t <;> decide)] at hlookup
    exact hlookup
  · rw [← hnotifications]
    exact hkept _ (by decide) (by decide) (by decide)
  · rw [← hsystem]
    exact hkept _ (by decide) (by decide) (by decide)
  · intro k hk
    simp only [List.map_append, List.mem_append, not_or] at hk
    obtain ⟨hnames, htech⟩ := hk
    simp only [List.map_cons, List.map_nil, List.mem_cons, List.not_mem_nil, or_false, not_or] at hnames
    obtain ⟨h₁, h₂, h₃, h₄⟩ := hnames
    rw [hkept k h₁ h₂ htech, hother k h₁ h₃ h₄]
  · -- at the latest version nothing is converted again
    intro fresh'
    have hlatest : (convertConfig fresh config).get "version" = .str "2.1" := by
      rw [get_of_isArray harr']
      unfold under at hversion'
      rw [hversion']
      rfl
    have hsame : isVersion latestConfig (convertConfig fresh config) = true :=
      isVersion_eq hlatest (by decide) (by decide)
    rw [convertConfig.eq_def fresh', if_pos hsame]

end Whole

/-- An application of the first version. -/
def firstVersion (name extension uniqid : String) (commands : List String) : Val :=
  .arr [(.str "name", .str name), (.str "extension", .str extension), (.str "uniqid", .str uniqid),
    (.str "app-command", .ofList (commands.map .str))]

/-- An application of the second version. -/
def weather : Val :=
  .arr [(.str "name", .str "Weather"), (.str "extension", .str "610"),
    (.str "uniqid", .str "DIALPLAN-APPLICATION-4df9cf4ca35a9"), (.str "applicationlogic", .str "MSxBbnN3ZXIoKQ==")]

/-- An office of version 2.0 with applications of both versions, and a provider whose calls go to the
second of the first version and to a phone. -/
def oldOffice : Val :=
  .arr [(.str "version", .str "2.0"),
    (.str "system", .arr [(.str "timezone", .str "Berlin|Europe")]),
    (.str "notifications", .arr [(.str "email", .arr [(.str "tls", .str "yes")])]),
    (.str "sip", .arr [(.str "provider", .ofList [providerTo
      [incoming "1" "APPLICATION-2", incoming "2" "SIP-PHONE-1"] []])]),
    (.str "dialplan", .arr [
      (.str "application", .ofList [
        firstVersion "Echo" "600" "APPLICATION-1" ["QW5zd2VyKCk=", "RWNobygp"],
        firstVersion "Clock" "601" "APPLICATION-2" ["U2F5VW5peFRpbWUoKQ=="]]),
      (.str "application2", .ofList [weather])])]

theorem uniqids_oldOffice : (elements oldOffice .application).map (·.get "uniqid") =
    [.str "APPLICATION-1", .str "APPLICATION-2"] := by
  decide

theorem oldConfig_oldOffice : OldConfig oldOffice := by
  have hmappings : ∀ t ∈ technologies, ∀ p ∈ elements oldOffice (.provider t),
      ∀ x ∈ (p.get "incomingextensionmap").vals, x.isArray = true := by decide
  refine ⟨canonical_of_isCanonical (by decide), by decide, ?_, ?_, ?_, by decide⟩
  · have hsections : ∀ n ∈ ["system", "dialplan"], (oldOffice.get n).isArray = true := by decide
    intro n hn s hs
    have harr := hsections n hn
    rw [hs] at harr
    cases harr
  · intro t p hp x hx s hs
    have harr := hmappings t (by cases t <;> decide) p hp x hx
    rw [hs] at harr
    cases harr
  · intro a ha
    have hmem := List.mem_map_of_mem (f := (·.get "uniqid")) ha
    rw [uniqids_oldOffice, List.mem_cons, List.mem_singleton] at hmem
    rcases hmem with hu | hu
    · exact ⟨"APPLICATION-1", hu, by decide, by decide⟩
    · exact ⟨"APPLICATION-2", hu, by decide, by decide⟩

/-- Converting the office: the second version's application stays first, the two others follow it, and
the provider's calls go to the second of them. -/
theorem migrates_oldOffice : OldConfig oldOffice ∧
    Migrated (fun i => "4df9cf4ca35a" ++ toString i) oldOffice
      (convertConfig (fun i => "4df9cf4ca35a" ++ toString i) oldOffice) := by
  refine ⟨oldConfig_oldOffice, (migrates oldConfig_oldOffice ?_).1⟩
  intro i a ha huniqid
  have hmem := List.mem_map_of_mem (f := (·.get "uniqid")) ha
  rw [uniqids_oldOffice, List.mem_cons, List.mem_singleton, huniqid] at hmem
  rcases hmem with hu | hu
  · have hhead := congrArg (fun s => s.toList.head?) (Val.str.inj hu)
    simp at hhead
  · have hhead := congrArg (fun s => s.toList.head?) (Val.str.inj hu)
    simp at hhead

end Config
end Askozia
