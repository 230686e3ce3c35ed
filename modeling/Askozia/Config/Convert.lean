import Askozia.Pbx.Delete
import Askozia.Pbx.Verify

/-!
# Converting older configurations (`config.inc`)

A configuration of an older version goes through one step after another. The last one makes the
applications of the first version applications of the second and gives them new `uniqid`s, so that
the incoming mappings of the providers have to follow.

* `updateApplications_spec`, `redirectAll_eq`, `renames_renameAll`: the sweeps over all providers, one
  for each application, amount to one substitution.
-/

namespace Askozia
namespace Config

open Php XmlParse Pbx

/-! ## The steps -/

/-- `$g['latest_config']` -/
def latestConfig : String := "2.1"

/-- `$config['version'] == $version` -/
def isVersion (version : String) (config : Val) : Bool := (config.get "version").looseEq (.str version)

/-- `$config['version'] = $version` -/
def setVersion (version : String) (config : Val) : Val := config.set (.str "version") (.str version)

/-- The step from 2.0: smtps is supported. -/
def convertEmail (config : Val) : Val :=
  let notifications := config.get "notifications"
  let email := notifications.get "email"
  let config :=
    if (email.get "tls").looseEq (.str "yes") then
      config.set (.str "notifications") (notifications.set (.str "email")
        ((email.set (.str "enctype") (.str "tls")).unset (.str "tls")))
    else config
  setVersion "2.01" config

/-- The step from 2.01: only the id of the timezone is stored. -/
def convertTimezone (config : Val) : Val :=
  let system := config.get "system"
  let config :=
    if (system.get "timezone").truthy then
      config.set (.str "system") (system.set (.str "timezone")
        (.str ((explode '|' (system.get "timezone").toStr).headD "")))
    else config
  setVersion "2.02" config

/-- `dialplan_replace_incomingextensionmap_reference_from_providers($removed_id, $new_id)` -/
def dialplanReplaceIncomingextensionmapReferenceFromProviders (removedId newId : Val) (config : Val) :
    Val :=
  (technologies.map Kind.provider).foldl
    (editElements fun p =>
      if (p.get "incomingextensionmap").isArray then
        some (p.set (.str "incomingextensionmap") ((p.get "incomingextensionmap").updateEach fun x =>
          if (x.get "destinationid").looseEq removedId then some (x.set (.str "destinationid") newId)
          else none))
      else none) config

/-- `"DIALPLAN-APPLICATION-" . uniqid(rand())` -/
def applicationUniqid (fresh : String) : Val := .str ("DIALPLAN-APPLICATION-" ++ fresh)

/-- `$application_v2`, with what `uniqid(rand())` returned. -/
def applicationV2 (fresh : String) (applicationV1 : Val) : Val :=
  let decodedLogic := (applicationV1.get "app-command").vals.map fun ac => base64Decode ac.toStr
  .arr [(.str "name", applicationV1.get "name"), (.str "extension", applicationV1.get "extension"),
    (.str "uniqid", applicationUniqid fresh), (.str "type", .str "plaintext"),
    (.str "applicationlogic", .str (base64Encode (implode "\n" decodedLogic)))]

/-- The new applications. -/
def stockApplications : List Val :=
  [.arr [(.str "name", .str "Voicemail system"), (.str "descr", .str "0000VM"),
      (.str "extension", .str "000086"),
      (.str "applicationlogic", .str
        "MSxBbnN3ZXIoKQoyLFZvaWNlbWFpbE1haW4oJHtDQUxMRVJJRChudW0pfSkKMyxIYW5ndXAoKQ=="),
      (.str "uniqid", .str "DIALPLAN-APPLICATION-7643526674dde509b64232"),
      (.str "type", .str "plaintext")],
    .arr [(.str "name", .str "Call Forwarding"), (.str "descr", .str "0000CF"),
      (.str "extension", .str "000023"),
      (.str "applicationlogic", .str (
        "MSxBbnN3ZXIoKQoyLEdvdG9JZigkWyIke0RCKENGLyR7Q0FMTEVSSUQobnVtKX0pfSIgIT0gIiJdP3JlbW92ZWNm" ++
        "OnNldGNmbnVtYmVyKQozKHNldGNmbnVtYmVyKSxQbGF5YmFjayh2bS1lbnRlci1udW0tdG8tY2FsbCkKNCxSZWFk" ++
        "KENGX0RFU1RJTkFUSU9OLGJlZXAsLCwsNSkKNSxHb3RvSWYoJFske0NGX0RFU1RJTkFUSU9OfSA9ICR7RVhURU59" ++
        "XT8xMCkKNixTZXQoREIoQ0YvJHtDQUxMRVJJRChudW0pfSk9JHtDRl9ERVNUSU5BVElPTn0pCjcsU2F5RGlnaXRz" ++
        "KCR7Q0ZfREVTVElOQVRJT059KQo4LFBsYXliYWNrKGF1dGgtdGhhbmt5b3UpCjksSGFuZ3VwKCkKMTAsUGxheWJh" ++
        "Y2soaW52YWxpZCkKMTEsSGFuZ3VwKCkKMTIocmVtb3ZlY2YpLFNldChvbGQ9JHtJRigke0RCX0VYSVNUUyhDRi8k" ++
        "e0NBTExFUklEKG51bSl9KX0pPyR7REJfREVMRVRFKENGLyR7Q0FMTEVSSUQobnVtKX0pfX0pCjEzLFBsYXliYWNr" ++
        "KGFza296aWEtbXVzaWMvYXNrb3ppYV9qaW5nbGVfc2hvcnQpCjE0LEdvdG9JZigkWyIke1BMQVlCQUNLU1RBVFVT" ++
        "fSIgPSAiU1VDQ0VTUyJdP2hhbmd1cDpwbGF5YWx0ZXJuYXRpdmUpCjE1KHBsYXlhbHRlcm5hdGl2ZSksUGxheVRv" ++
        "bmVzKCE1MDAvMTAwLDAvMTAwLCE1MDAvMTAwKQoxNixXYWl0KDEpCjE3KGhhbmd1cCksSGFuZ3VwKCk=")),
      (.str "uniqid", .str "DIALPLAN-APPLICATION-14778225794decb30253418"),
      (.str "type", .str "plaintext")],
    .arr [(.str "name", .str "Weasels"), (.str "extension", .str "00009327357"),
      (.str "descr", .str "0000WEASELS"),
      (.str "applicationlogic", .str "MSxBbnN3ZXIoKQoyLFBsYXliYWNrKHR0LXdlYXNlbHMpCjMsSGFuZ3VwKCk="),
      (.str "uniqid", .str "DIALPLAN-APPLICATION-13903502574df9cf4ca35a0"),
      (.str "type", .str "plaintext")]]

/-- The loop over the applications of the first version: `$updated_applications` and `$config` after
it. `fresh i` is what the call of `uniqid(rand())` for the application at `i` returns. -/
def updateApplications (fresh : ℕ → String) (applications : List (Val × ℕ)) (updated config : Val) :
    Val × Val :=
  applications.foldl (fun s a =>
    (s.1.push (applicationV2 (fresh a.2) a.1),
      dialplanReplaceIncomingextensionmapReferenceFromProviders (a.1.get "uniqid")
        (applicationUniqid (fresh a.2)) s.2)) (updated, config)

/-- The step from 2.02: applications of the first version become those of the second. -/
def convertApplications (fresh : ℕ → String) (config : Val) : Val :=
  let existing := listOf config .application2
  -- applications of the second version are the beginning of the new list
  let s :=
    if existing.isArray then
      (existing, config.set (.str "dialplan") ((config.get "dialplan").unset (.str "application2")))
    else (.arr [], config)
  let s :=
    if (listOf s.2 .application).isArray then
      updateApplications fresh (listOf s.2 .application).vals.zipIdx s.1 s.2
    else s
  let config := setList s.2 .application s.1
  -- three more applications, whatever was there before
  let config := stockApplications.foldl
    (fun config a => setList config .application ((listOf config .application).push a)) config
  setVersion "2.1" config

/-- `convert_config()`, up to `write_config`. -/
def convertConfig (fresh : ℕ → String) (config : Val) : Val :=
  if isVersion latestConfig config then config
  else
    let config := if isVersion "2.0" config then convertEmail config else config
    let config := if isVersion "2.01" config then convertTimezone config else config
    if isVersion "2.02" config then convertApplications fresh config else config

/-! ## One sweep over the providers -/

/-- Sends a mapping elsewhere if it leads to a `uniqid`. -/
def redirect (u : String) (new : Val) (x : Val) : Val :=
  if isText u (x.get "destinationid") then x.set (.str "destinationid") new else x

/-- The names of the sections that have providers. -/
def techKeys : List Key := (technologies.map Tech.name).map Key.str

/-- What a change of all providers does to a section. -/
def sectionEdit (F : Val → Val) (k : Key) : Val → Val :=
  if k ∈ techKeys then Val.mapAt (.str "provider") (Val.mapItems F) else id

/-- One configuration is the other with all providers changed. -/
structure Swept (F : Val → Val) (config config' : Val) : Prop where
  isArray : config'.isArray = true
  lookup : ∀ k, config'.entries.lookup k = (config.entries.lookup k).map (sectionEdit F k)

section Sweeps

variable {config config' : Val} {F G : Val → Val}

theorem lookup_editList {k : Kind} (key : Key) :
    (editList F config k).entries.lookup key = (config.entries.lookup key).map
      (if key = .str k.sectionName then Val.mapAt (.str k.tagName) F else id) := by
  cases config with
  | arr es =>
    show (Val.mapEntry _ _ es).lookup key = (es.lookup key).map _
    split_ifs with h
    · rw [h, Val.lookup_mapEntry_self]
    · rw [Val.lookup_mapEntry_of_ne h, Option.map_id, id]
  | _ => rfl

theorem isArray_editList {k : Kind} : (editList F config k).isArray = config.isArray := by
  cases config <;> rfl

/-- Each technology has a section of its own. -/
theorem lookup_foldl_editList {ts : List Tech} (hts : (ts.map Tech.name).Nodup) (key : Key) :
    ((ts.map Kind.provider).foldl (editList F) config).entries.lookup key =
      (config.entries.lookup key).map
        (if key ∈ (ts.map Tech.name).map Key.str then Val.mapAt (.str "provider") F else id) := by
  induction ts generalizing config with
  | nil => simp
  | cons t r ih =>
    rw [List.map_cons, List.nodup_cons] at hts
    rw [List.map_cons, List.foldl_cons, ih hts.2, lookup_editList, Option.map_map]
    congr 1
    by_cases hkey : key = .str t.name
    · have hrest : key ∉ (r.map Tech.name).map Key.str := by
        intro hmem
        obtain ⟨n, hn, hk⟩ := List.mem_map.1 hmem
        rw [hkey] at hk
        exact hts.1 (Key.str.inj hk ▸ hn)
      rw [if_neg hrest, if_pos (show key = .str (Kind.provider t).sectionName from hkey),
        if_pos (by rw [hkey]; exact List.mem_cons_self)]
      rfl
    · rw [if_neg (show key ≠ .str (Kind.provider t).sectionName from hkey)]
      have hiff : key ∈ ((t :: r).map Tech.name).map Key.str ↔ key ∈ (r.map Tech.name).map Key.str := by
        rw [List.map_cons, List.map_cons, List.mem_cons]
        exact or_iff_right hkey
      simp only [hiff, Function.comp_id]

theorem isArray_foldl_editList {ks : List Kind} :
    (ks.foldl (editList F) config).isArray = config.isArray := by
  induction ks generalizing config with
  | nil => rfl
  | cons k r ih => rw [List.foldl_cons, ih, isArray_editList]

theorem swept_foldl (h : config.isArray = true) :
    Swept F config ((technologies.map Kind.provider).foldl (editList (Val.mapItems F)) config) :=
  ⟨isArray_foldl_editList.trans h, lookup_foldl_editList (by decide)⟩

theorem Swept.refl (h : config.isArray = true) : Swept id config config := by
  refine ⟨h, fun k => ?_⟩
  have hid : sectionEdit id k = id := by
    unfold sectionEdit
    split_ifs
    · funext v
      apply Val.mapAt_eq_self
      cases v.idx (.str "provider") with
      | arr es => simp [Val.mapItems]
      | _ => rfl
    · rfl
  rw [hid, Option.map_id, id]

theorem Swept.trans {config'' : Val} (h : Swept F config config') (h' : Swept G config' config'') :
    Swept (fun x => G (F x)) config config'' := by
  refine ⟨h'.isArray, fun k => ?_⟩
  rw [h'.lookup, h.lookup, Option.map_map]
  congr 1
  unfold sectionEdit
  split_ifs
  · funext v
    rw [Function.comp_apply, Val.mapAt_mapAt]
    congr 1
    funext x
    exact Val.mapItems_mapItems F G x
  · rfl

theorem get_of_isArray (h : config.isArray = true) (n : String) :
    config.get n = (config.entries.lookup (.str n)).getD .null := by
  cases config with
  | arr es => rfl
  | _ => cases h

theorem Swept.listOf (h : Swept F config config') (harr : config.isArray = true) (t : Tech) :
    listOf config' (.provider t) = (Config.listOf config (.provider t)).mapItems F := by
  have hkey : Key.str t.name ∈ techKeys := by cases t <;> decide
  show (config'.get t.name).get "provider" = ((config.get t.name).get "provider").mapItems F
  rw [get_of_isArray h.isArray, get_of_isArray harr, h.lookup, sectionEdit, if_pos hkey]
  cases config.entries.lookup (.str t.name) with
  | none => rfl
  | some v =>
    cases v with
    | arr es => exact Val.idx_mapAt_self (v := .arr es) (by simp) rfl
    | _ => rfl

theorem Swept.get_dialplan (h : Swept F config config') (harr : config.isArray = true) :
    config'.get "dialplan" = config.get "dialplan" := by
  rw [get_of_isArray h.isArray, get_of_isArray harr, h.lookup, sectionEdit, if_neg (by decide),
    Option.map_id, id]

/-- Changing elements as a load produces them keeps the lists editable. -/
theorem Swept.editable (h : Swept F config config') (harr : config.isArray = true)
    (hF : ∀ x, Canonical (fun _ => True) x → Canonical (fun _ => True) (F x)) {t : Tech}
    (he : Editable config (.provider t)) : Editable config' (.provider t) := by
  intro hlist
  rw [h.listOf harr] at hlist ⊢
  have hlist : (Config.listOf config (.provider t)).isArray = true := by
    cases hl : Config.listOf config (.provider t) with
    | arr es => rfl
    | _ =>
      rw [hl] at hlist
      cases hlist
  obtain ⟨items, hitems, hcanonical⟩ := he hlist
  rw [hitems, Val.mapItems_ofList]
  refine ⟨_, rfl, fun x hx => ?_⟩
  obtain ⟨y, hy, rfl⟩ := List.mem_map.1 hx
  exact hF y (hcanonical y hy)

end Sweeps

/-! ## Trees stay trees -/

section Trees

variable {v x : Val} {n : String} {f : Val → Val}

theorem canonical_set (hv : Canonical (fun _ => True) v) (hname : LowerName n) (hn : n ∉ listtags)
    (hx : Canonical (fun _ => True) x) : Canonical (fun _ => True) (v.set (.str n) x) :=
  canonical_assign (.inr hv) (.single hname hn hx)

/-- Changing the items of a list below an element. -/
theorem canonical_mapAt_mapItems (hv : Canonical (fun _ => True) v) (hn : n ∈ listtags)
    (hf : ∀ x, Canonical (fun _ => True) x → Canonical (fun _ => True) (f x)) :
    Canonical (fun _ => True) (v.mapAt (.str n) (Val.mapItems f)) := by
  cases hv with
  | str _ => exact .str trivial
  | @map es hne hnodup hes =>
    have hkeys := @Val.keys_mapEntry (.str n) (Val.mapItems f) es
    refine .map ?_ (hkeys ▸ hnodup) fun e he => ?_
    · intro hnil
      rw [hnil] at hkeys
      exact hne (List.map_eq_nil_iff.1 hkeys.symm)
    · rcases Val.mem_mapEntry he with he | ⟨y, hy, rfl⟩
      · exact hes e he
      · generalize hentry : ((Key.str n, y) : Key × Val) = e at hy
        cases hes e hy with
        | list hname hl hitems hcanonical =>
          obtain ⟨hkey, rfl⟩ := Prod.mk.inj hentry
          rw [hkey, Val.mapItems_ofList]
          refine .list hname hl ?_ fun z hz => ?_
          · simpa using hitems
          · obtain ⟨w, hw, rfl⟩ := List.mem_map.1 hz
            exact hf w (hcanonical w hw)
        | single _ hl _ =>
          obtain ⟨hkey, -⟩ := Prod.mk.inj hentry
          exact absurd (Key.str.inj hkey ▸ hn) hl

theorem canonical_redirect {u new : String} (hx : Canonical (fun _ => True) x) :
    Canonical (fun _ => True) (redirect u (.str new) x) := by
  unfold redirect
  split_ifs
  · exact canonical_set hx ⟨by decide, by decide⟩ (by decide) (.str trivial)
  · exact hx

end Trees

/-! ## All sweeps -/

section Renaming

variable {config config' : Val} {fresh : ℕ → String}

/-- A sweep, on a mapping of one of the providers. -/
theorem replace_swept {u : String} (new : String) (hu : number? u = none) (hne : u ≠ "")
    (harr : config.isArray = true) (h : ∀ t, Editable config (.provider t)) :
    Swept (Val.mapAt (.str "incomingextensionmap") (Val.mapItems (redirect u (.str new)))) config
      (dialplanReplaceIncomingextensionmapReferenceFromProviders (.str u) (.str new) config) := by
  unfold dialplanReplaceIncomingextensionmapReferenceFromProviders
  rw [foldl_editElements_eq (by decide) _ _]
  · exact swept_foldl harr
  · intro k hk
    obtain ⟨t, -, rfl⟩ := List.mem_map.1 hk
    exact h t
  · -- one provider: an array of mappings is rewritten in place, anything else is left alone
    intro p hp
    split_ifs with hmaps
    · obtain ⟨items, hitems, hcanonical⟩ := canonical_get_list hp (by decide) hmaps
      rw [Option.getD_some]
      unfold Val.get at hmaps hitems
      rw [Val.get, Val.set_eq_mapAt (f := Val.updateEach _) hmaps]
      apply Val.mapAt_congr
      rw [hitems, Val.updateEach_ofList, Val.mapItems_ofList]
      congr 1
      apply List.map_congr_left
      intro x hx
      unfold redirect
      -- the loose comparison is one of texts, since the old uniqid is no number
      rw [looseEq_eq_isText hu hne (canonical_get (hcanonical x hx) (by decide))]
      split_ifs
      · rfl
      · rfl
    · rw [Option.getD_none]
      symm
      apply Val.mapAt_eq_self
      unfold Val.get at hmaps
      cases hfield : p.idx (.str "incomingextensionmap") with
      | arr es =>
        rw [hfield] at hmaps
        exact absurd rfl hmaps
      | _ => rfl

/-- What all sweeps do to a mapping. -/
def redirectAll (fresh : ℕ → String) (applications : List (Val × ℕ)) (x : Val) : Val :=
  applications.foldl (fun x a => redirect (a.1.get "uniqid").toStr (applicationUniqid (fresh a.2)) x) x

/-- The loop over the applications. -/
theorem updateApplications_spec (fresh : ℕ → String) (applications : List (Val × ℕ)) (xs : List Val)
    (hu : ∀ a ∈ applications, ∃ u, a.1.get "uniqid" = .str u ∧ u ≠ "" ∧ number? u = none)
    (harr : config.isArray = true) (h : ∀ t, Editable config (.provider t)) :
    ∃ config', updateApplications fresh applications (.ofList xs) config =
        (.ofList (xs ++ applications.map fun a => applicationV2 (fresh a.2) a.1), config') ∧
      Swept (Val.mapAt (.str "incomingextensionmap")
        (Val.mapItems (redirectAll fresh applications))) config config' := by
  -- the sweeps follow one another, each over the configuration the one before has left
  induction applications generalizing config xs with
  | nil =>
    refine ⟨config, by simp [updateApplications], ?_⟩
    have hid : Val.mapAt (.str "incomingextensionmap") (Val.mapItems (redirectAll fresh [])) = id := by
      funext p
      apply Val.mapAt_eq_self
      cases p.idx (.str "incomingextensionmap") with
      | arr es => simp [Val.mapItems, redirectAll]
      | _ => rfl
    rw [hid]
    exact Swept.refl harr
  | cons a r ih =>
    obtain ⟨u, hua, hne, hnumber⟩ := hu a List.mem_cons_self
    have hfirst := replace_swept ("DIALPLAN-APPLICATION-" ++ fresh a.2) hnumber hne harr h
    -- the lists that the next sweep goes through are still lists
    have heditable : ∀ t, Editable (dialplanReplaceIncomingextensionmapReferenceFromProviders (.str u)
        (applicationUniqid (fresh a.2)) config) (.provider t) := by
      intro t
      refine hfirst.editable harr (fun x hx => ?_) (h t)
      exact canonical_mapAt_mapItems hx (by decide) fun y hy => canonical_redirect hy
    obtain ⟨config', hrun, hswept⟩ := ih (xs ++ [applicationV2 (fresh a.2) a.1])
      (fun b hb => hu b (List.mem_cons_of_mem _ hb)) hfirst.isArray heditable
    refine ⟨config', ?_, ?_⟩
    · rw [updateApplications, List.foldl_cons, Val.push_ofList, hua]
      rw [List.append_assoc] at hrun
      exact hrun
    · have hboth := hfirst.trans hswept
      convert hboth using 1
      funext p
      rw [Val.mapAt_mapAt]
      congr 1
      funext v
      rw [Val.mapItems_mapItems]
      congr 1
      funext x
      rw [redirectAll, List.foldl_cons, hua]
      rfl

/-- What all sweeps do to the destination of a mapping. -/
def renameAll (fresh : ℕ → String) (applications : List (Val × ℕ)) (d : Val) : Val :=
  applications.foldl (fun d a => if d = a.1.get "uniqid" then applicationUniqid (fresh a.2) else d) d

theorem redirect_eq_mapAt {u : String} {new x : Val} (hne : u ≠ "") (hx : ∀ s, x = .str s → s = "") :
    redirect u new x = x.mapAt (.str "destinationid") fun d => if d = .str u then new else d := by
  unfold redirect isText Val.get
  split_ifs with h
  · have hd : x.idx (.str "destinationid") = .str u := by simpa using h
    have hstr : ∀ s, x ≠ .str s := by
      rintro s rfl
      obtain rfl := hx s rfl
      exact hne (Val.str.inj hd).symm
    rw [← Val.set_eq_mapAt_of_ne_null hstr (by rw [hd]; simp), hd, if_pos rfl]
  · have hd : x.idx (.str "destinationid") ≠ .str u := by simpa using h
    symm
    apply Val.mapAt_eq_self
    rw [if_neg hd]

/-- The sweeps amount to one change of the destinations. -/
theorem redirectAll_eq {applications : List (Val × ℕ)} {x : Val}
    (hu : ∀ a ∈ applications, ∃ u, a.1.get "uniqid" = .str u ∧ u ≠ "")
    (hx : ∀ s, x = .str s → s = "") :
    redirectAll fresh applications x =
      x.mapAt (.str "destinationid") (renameAll fresh applications) := by
  induction applications generalizing x with
  | nil =>
    symm
    apply Val.mapAt_eq_self
    rfl
  | cons a r ih =>
    obtain ⟨u, hua, hne⟩ := hu a List.mem_cons_self
    rw [redirectAll, List.foldl_cons, hua, Val.toStr, redirect_eq_mapAt hne hx]
    have hx' : ∀ s, x.mapAt (.str "destinationid")
        (fun d => if d = .str u then applicationUniqid (fresh a.2) else d) = .str s → s = "" := by
      intro s hs
      cases x with
      | arr es => cases hs
      | _ => exact hx s hs
    have hrest := ih (fun b hb => hu b (List.mem_cons_of_mem _ hb)) hx'
    rw [redirectAll] at hrest
    rw [hrest, Val.mapAt_mapAt]
    congr 1
    funext d
    rw [renameAll, renameAll, List.foldl_cons, hua]

/-- A destination that is none of the applications stays. -/
theorem renameAll_of_ne {applications : List (Val × ℕ)} {d : Val}
    (h : ∀ a ∈ applications, a.1.get "uniqid" ≠ d) : renameAll fresh applications d = d := by
  induction applications with
  | nil => rfl
  | cons a r ih =>
    rw [renameAll, List.foldl_cons, if_neg (h a List.mem_cons_self).symm]
    exact ih fun b hb => h b (List.mem_cons_of_mem _ hb)

/-- A destination is renamed once: what it becomes is none of the applications. -/
theorem renameAll_of_mem {applications : List (Val × ℕ)} {a : Val × ℕ} (ha : a ∈ applications)
    (hdistinct : (applications.map fun a => a.1.get "uniqid").Nodup)
    (hfresh : ∀ i, ∀ a ∈ applications, a.1.get "uniqid" ≠ applicationUniqid (fresh i)) :
    renameAll fresh applications (a.1.get "uniqid") = applicationUniqid (fresh a.2) := by
  induction applications with
  | nil => cases ha
  | cons b r ih =>
    rw [List.map_cons, List.nodup_cons] at hdistinct
    have hrest := fun i c hc => hfresh i c (List.mem_cons_of_mem b hc)
    rw [renameAll, List.foldl_cons]
    rcases List.mem_cons.1 ha with rfl | har
    · rw [if_pos rfl]
      exact renameAll_of_ne (hrest a.2)
    · have hne : a.1.get "uniqid" ≠ b.1.get "uniqid" := by
        intro heq
        exact hdistinct.1 (heq ▸ List.mem_map_of_mem (f := fun a : Val × ℕ => a.1.get "uniqid") har)
      rw [if_neg hne]
      exact ih har hdistinct.2 hrest

/-- A substitution of the `uniqid`s of applications, all at once. -/
structure Renames (fresh : ℕ → String) (applications : List Val) (rename : Val → Val) : Prop where
  application : ∀ i a, applications[i]? = some a → rename (a.get "uniqid") = applicationUniqid (fresh i)
  other : ∀ d, (∀ a ∈ applications, a.get "uniqid" ≠ d) → rename d = d

theorem renames_renameAll {applications : List Val}
    (hdistinct : (applications.map (·.get "uniqid")).Nodup)
    (hfresh : ∀ i, ∀ a ∈ applications, a.get "uniqid" ≠ applicationUniqid (fresh i)) :
    Renames fresh applications (renameAll fresh applications.zipIdx) := by
  have hmem : ∀ a ∈ applications.zipIdx, a.1 ∈ applications := fun a ha => List.fst_mem_of_mem_zipIdx ha
  have huniqids : (applications.zipIdx.map fun a => a.1.get "uniqid") =
      applications.map (·.get "uniqid") := by
    rw [← List.zipIdx_map_fst 0 applications, List.map_map, List.zipIdx_map_fst]
    rfl
  constructor
  · intro i a ha
    have hpair : (a, i) ∈ applications.zipIdx := List.mk_mem_zipIdx_iff_getElem?.2 ha
    exact renameAll_of_mem hpair (huniqids ▸ hdistinct) fun j b hb => hfresh j b.1 (hmem b hb)
  · intro d hd
    exact renameAll_of_ne fun a ha => hd a.1 (hmem a ha)

end Renaming

end Config
end Askozia
