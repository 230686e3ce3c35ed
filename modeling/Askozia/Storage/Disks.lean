import Askozia.Dahdi.GroupNumbers
import Askozia.Www.ExtensionRuns

/-!
# Disks and the services on them (`storage.inc`)

The form of a disk has a box for every service that no other disk has. What is sent is not checked
for that, and the form may have been opened before another disk got the service.

* `services_exclusive`: in every run whose saves give no disk a service of another one, every service
  is on one disk at most, and both lookups agree on it.
-/

namespace Askozia
namespace Storage

open Php Config Pbx XmlParse

/-! ## Services and forms -/

/-- `$g['storage_services']` -/
def storageServices : List String := ["media", "persistence", "astlogs", "faxarchive", "voicemailarchive"]

/-- `v_checkbox($field, &$element, &$post)` -/
def vCheckbox (field : String) (f : Form) : Form := f.put field (.bool (f.post.get field).isset)

/-- One disk in the loop of `storage_get_assigned_services`. -/
def assignServices (disk assignedservices : Val) : Val :=
  storageServices.foldl (fun assignedservices servicetype =>
    if (disk.get servicetype).isset then assignedservices.set (.str servicetype) (disk.get "name")
    else assignedservices) assignedservices

/-- `storage_get_assigned_services($ignorethisdiskuniqid)`: the names of the disks, by service. -/
def storageGetAssignedServices (g : Globals) (ignorethisdiskuniqid : Val) : Val :=
  (storageGetDisks g).foldl (fun assignedservices disk =>
    if (disk.get "uniqid").looseEq ignorethisdiskuniqid then assignedservices
    else assignServices disk assignedservices) (.arr [])

section Forms

variable (gettext : String → String)

/-- `storage_verify_disk($post, $errors)`: the disk, and what is wrong. -/
def storageVerifyDisk (post : Val) : Val × List String :=
  let f : Form := { element := .arr [], post := post, errors := [] }
  let f := vCleanliness gettext f
  let f := vRequired gettext "name" (gettext "Name") f
  let f := vRequired gettext "device" (gettext "Disk Device") f
  let f := vRequired gettext "mountpoint" (gettext "Mount Point") f
  let f := vCheckbox "media" f
  let f := vCheckbox "persistence" f
  let f := vCheckbox "astlogs" f
  let f := vCheckbox "faxarchive" f
  let f := vCheckbox "voicemailarchive" f
  let f := putTrusted ["uniqid"] f
  (f.element, f.errors)

/-! ## Runs -/

/-- A request of a browser. -/
inductive Request where
  /-- `storage_save_disk(storage_verify_disk($_POST))`, if nothing is wrong -/
  | save (post : Val)
  /-- `storage_forget_disk($uniqid)` -/
  | forget (uniqid : String)

/-- The configuration after a request. -/
def Request.apply (config : Val) : Request → Val
  | save post => Www.saveVerified .disk (storageVerifyDisk gettext post) config
  | forget uniqid => Dahdi.forgetElement .disk uniqid config

/-- A form has the `uniqid` that was made for a disk, now or earlier. -/
def Request.Allowed : Request → Prop
  | save post => ∃ u, "STORAGE-DISK-".toList <+: u.toList ∧ post.get "uniqid" = .str u ∧ normText u = u
  | forget _ => True

/-- The condition on a request, in the state before it: no disk with another `uniqid` has a service
that is checked. -/
def Request.Meets (config : Val) : Request → Prop
  | save post => (storageVerifyDisk gettext post).2 = [] → ∀ service ∈ storageServices,
      (post.get service).isset = true → ∀ disk ∈ elements config .disk,
        disk.get "uniqid" ≠ post.get "uniqid" → (disk.get service).isset = false
  | forget _ => True

/-- The configurations that requests lead to which all meet a condition. -/
inductive Requested (meets : Val → Request → Prop) (start : Val) : Val → Prop
  | start : Requested meets start start
  | step {config : Val} {r : Request} : Requested meets start config → r.Allowed → meets config r →
      Requested meets start (r.apply gettext config)

end Forms

/-- Every service is on one disk at most, and the disk that is found for it is the one that is shown. -/
def ServicesExclusive (config : Val) : Prop :=
  ∀ service ∈ storageServices,
    ((elements config .disk).filter fun disk => (disk.get service).isset).length ≤ 1 ∧
    (storageGetAssignedServices (indexed config) (.bool false)).get service =
      (storageServiceIsActive (indexed config) service).get "name"

/-- Two disks with the same service are the same. -/
structure Apart (config : Val) : Prop extends Named config where
  services : ∀ service ∈ storageServices, ∀ disk ∈ elements config .disk, ∀ disk' ∈ elements config .disk,
    (disk.get service).isset = true → (disk'.get service).isset = true →
      disk.get "uniqid" = disk'.get "uniqid"

/-! ## What a form leaves -/

section Verified

variable {gettext : String → String} {f : Form} {post : Val}

theorem failIf_element (wrong : Bool) (error : String) : (f.failIf wrong error).element = f.element := by
  unfold Form.failIf
  split_ifs <;> rfl

theorem failIf_post (wrong : Bool) (error : String) : (f.failIf wrong error).post = f.post := by
  unfold Form.failIf
  split_ifs <;> rfl

/-- Looking for bad characters changes nothing but the errors. -/
theorem vCleanliness_fields :
    (vCleanliness gettext f).element = f.element ∧ (vCleanliness gettext f).post = f.post := by
  unfold vCleanliness
  generalize f.post.entries = es
  induction es generalizing f with
  | nil => exact ⟨rfl, rfl⟩
  | cons e r ih =>
    rw [List.foldl_cons]
    rw [ih.1, ih.2, failIf_element, failIf_post]
    exact ⟨rfl, rfl⟩

theorem vRequired_element (field name : String) :
    (vRequired gettext field name f).element = f.element.set (.str field) (f.post.get field) := by
  unfold vRequired Form.put
  dsimp only
  rw [failIf_element]

theorem vRequired_post (field name : String) : (vRequired gettext field name f).post = f.post := by
  unfold vRequired Form.put
  dsimp only
  rw [failIf_post]

/-- The disk of a form. -/
theorem storageVerifyDisk_disk : (storageVerifyDisk gettext post).1 =
    .arr [(.str "name", post.get "name"), (.str "device", post.get "device"),
      (.str "mountpoint", post.get "mountpoint"), (.str "media", .bool (post.get "media").isset),
      (.str "persistence", .bool (post.get "persistence").isset),
      (.str "astlogs", .bool (post.get "astlogs").isset),
      (.str "faxarchive", .bool (post.get "faxarchive").isset),
      (.str "voicemailarchive", .bool (post.get "voicemailarchive").isset),
      (.str "uniqid", post.get "uniqid")] := by
  unfold storageVerifyDisk putTrusted vCheckbox Form.put
  simp only [List.foldl_cons, List.foldl_nil, vRequired_element, vRequired_post, vCleanliness_fields]
  rfl

/-- The boxes of a form, in the configuration. -/
theorem isset_disk {service : String} (hservice : service ∈ storageServices) :
    ((readBack normText (storageVerifyDisk gettext post).1).get service).isset =
      (post.get service).isset := by
  rw [storageVerifyDisk_disk]
  apply isset_readBack
  · simp only [List.map_cons, List.map_nil]
    decide
  · simp only [storageServices, List.mem_cons, List.not_mem_nil, or_false] at hservice
    rcases hservice with rfl | rfl | rfl | rfl | rfl <;> rfl

end Verified

/-! ## Every run keeps the services apart -/

section Run

variable {gettext : String → String} {config start : Val}

theorem apart_save (h : Apart config) {post : Val} (hallowed : (Request.save post).Allowed)
    (hmeets : (Request.save post).Meets gettext config) :
    Apart ((Request.save post).apply gettext config) := by
  show Apart (Www.saveVerified .disk (storageVerifyDisk gettext post) config)
  unfold Www.saveVerified
  split_ifs with herrors
  · obtain ⟨u, hprefix, hu, hnorm⟩ := hallowed
    have hnew : (readBack normText (storageVerifyDisk gettext post).1).get "uniqid" = .str u := by
      rw [get_readBack (s := u) (by rw [storageVerifyDisk_disk]; rfl), hnorm]
      rw [storageVerifyDisk_disk]
      exact hu
    have hne : u ≠ "" ∧ u ≠ "0" := ne_of_start (k := .disk) (.inl rfl) hprefix
    have hown : ∀ k', ∀ e ∈ elements config k', e.get "uniqid" = .str u → k' = .disk :=
      fun k' e he heu => h.toNamed.own (by decide) (.inl rfl) hprefix he heu
    refine ⟨named_saveElement h.toNamed (by decide) (.inl rfl) hprefix hnew, ?_⟩
    intro service hservice disk hdisk disk' hdisk' hon hon'
    rw [mem_elements_saveElement h.wellFormed hnew hne hown] at hdisk hdisk'
    have hfree := hmeets herrors service hservice
    rw [hu] at hfree
    -- either both disks were there, or the form gives one a service that the other has
    rcases hdisk with ⟨-, rfl⟩ | ⟨hdisk, hother⟩ <;> rcases hdisk' with ⟨-, rfl⟩ | ⟨hdisk', hother'⟩
    · rfl
    · rw [isset_disk hservice] at hon
      rw [hfree hon disk' hdisk' hother'] at hon'
      cases hon'
    · rw [isset_disk hservice] at hon'
      rw [hfree hon' disk hdisk hother] at hon
      cases hon
    · exact h.services service hservice disk hdisk disk' hdisk' hon hon'
  · exact h

theorem apart_apply (h : Apart config) {r : Request} (hallowed : r.Allowed)
    (hmeets : r.Meets gettext config) : Apart (r.apply gettext config) := by
  cases r with
  | save post => exact apart_save h hallowed hmeets
  | forget u =>
    have hmem : ∀ {e : Val}, e ∈ elements (Dahdi.forgetElement .disk u config) .disk →
        e ∈ elements config .disk := fun he => Dahdi.mem_elements_forget h.wellFormed he
    exact ⟨Dahdi.named_forget h.toNamed .disk u, fun service hservice disk hdisk disk' hdisk' =>
      h.services service hservice disk (hmem hdisk) disk' (hmem hdisk')⟩

/-- What the loop over services does to one of them. -/
theorem get_assignServices (disk : Val) (service : String) {assigned : Val}
    (hassigned : assigned.isArray = true) :
    (assignServices disk assigned).isArray = true ∧
      (assignServices disk assigned).get service =
        if service ∈ storageServices ∧ (disk.get service).isset = true then disk.get "name"
        else assigned.get service := by
  unfold assignServices
  generalize storageServices = services
  -- the services are assigned one by one, each under a key of its own
  induction services generalizing assigned with
  | nil => exact ⟨hassigned, by simp⟩
  | cons s r ih =>
    rw [List.foldl_cons]
    by_cases hs : (disk.get s).isset = true
    · rw [if_pos hs]
      have hnext : (assigned.set (.str s) (disk.get "name")).isArray = true := rfl
      obtain ⟨harray, hget⟩ := ih hnext
      refine ⟨harray, ?_⟩
      rw [hget]
      by_cases heq : service = s
      · subst heq
        rw [if_pos (⟨List.mem_cons_self, hs⟩ : service ∈ service :: r ∧ _)]
        split_ifs
        · rfl
        · exact Val.idx_set_self _ _ _
      · have hne : Key.str service ≠ .str s := fun h => heq (Key.str.inj h)
        have hkept : (assigned.set (.str s) (disk.get "name")).get service = assigned.get service :=
          Val.idx_set_of_ne _ hne (ne_str_of_isArray hassigned)
        rw [hkept]
        simp only [List.mem_cons, heq, false_or]
    · rw [if_neg hs]
      obtain ⟨harray, hget⟩ := ih hassigned
      refine ⟨harray, ?_⟩
      rw [hget]
      by_cases heq : service = s
      · subst heq
        simp only [hs, Bool.false_eq_true, and_false, if_false]
      · simp only [List.mem_cons, heq, false_or]

/-- The disk that is shown for a service is the last one that has it. -/
theorem get_assigned {service : String} (hservice : service ∈ storageServices) {disks : List Val}
    (hdisks : ∀ disk ∈ disks, (disk.get "uniqid").looseEq (.bool false) = false) :
    ∀ {assigned : Val}, assigned.isArray = true →
      (disks.foldl (fun assigned disk =>
          if (disk.get "uniqid").looseEq (.bool false) then assigned
          else assignServices disk assigned) assigned).get service =
        (((disks.filter fun disk => (disk.get service).isset).getLast?).map (·.get "name")).getD
          (assigned.get service) := by
  induction disks with
  | nil =>
    intro assigned hassigned
    rfl
  | cons disk r ih =>
    intro assigned hassigned
    have hdisk := hdisks disk List.mem_cons_self
    rw [List.foldl_cons, hdisk, if_neg Bool.false_ne_true]
    obtain ⟨harray, hget⟩ := get_assignServices disk service hassigned
    rw [ih (fun d hd => hdisks d (List.mem_cons_of_mem _ hd)) harray, hget, List.filter_cons]
    split_ifs with hon hmem
    · rw [List.getLast?_cons]
      cases (r.filter fun disk => (disk.get service).isset).getLast? <;> rfl
    · exact absurd hon.2 hmem
    · exact absurd ⟨hservice, ‹_›⟩ hon
    · rfl

/-- The `uniqid` of a disk is not `false`. -/
theorem not_false_uniqid (h : Named config) {disk : Val} (hdisk : disk ∈ elements config .disk) :
    (disk.get "uniqid").looseEq (.bool false) = false := by
  obtain ⟨u, -, hu⟩ := h.wellFormed.uniqids .disk disk hdisk
  obtain ⟨start, hstart, hprefix⟩ := h.starts .disk disk hdisk u hu
  have hne : u ≠ "" ∧ u ≠ "0" := ne_of_start hstart hprefix
  rw [hu]
  unfold Val.looseEq Val.truthy
  simp [hne.1, hne.2]

/-- One disk at most has a service. -/
theorem length_service (h : Apart config) {service : String} (hservice : service ∈ storageServices) :
    ((elements config .disk).filter fun disk => (disk.get service).isset).length ≤ 1 := by
  have hnodup : ((elements config .disk).map (·.get "uniqid")).Nodup :=
    (List.nodup_flatMap.1 h.wellFormed.distinct).1 .disk Kind.disk.mem_all
  have hmem : ∀ disk ∈ (elements config .disk).filter fun disk => (disk.get service).isset,
      disk ∈ elements config .disk ∧ (disk.get service).isset = true := fun disk => List.mem_filter.1
  have hsub := hnodup.sublist (List.filter_sublist
    (p := fun disk => (disk.get service).isset) (l := elements config .disk) |>.map (·.get "uniqid"))
  cases hfilter : (elements config .disk).filter fun disk => (disk.get service).isset with
  | nil => exact Nat.zero_le 1
  | cons disk r =>
    cases r with
    | nil => exact le_refl 1
    | cons disk' r =>
      rw [hfilter] at hmem hsub
      have hdisk := hmem disk (by simp)
      have hdisk' := hmem disk' (by simp)
      have heq := h.services service hservice disk hdisk.1 disk' hdisk'.1 hdisk.2 hdisk'.2
      rw [List.map_cons, List.map_cons, List.nodup_cons] at hsub
      exact absurd (List.mem_cons.2 (.inl heq)) hsub.1

theorem exclusive_of_apart (h : Apart config) : ServicesExclusive config := by
  intro service hservice
  have hlength := length_service h hservice
  refine ⟨hlength, ?_⟩
  have huniqids : ∀ disk ∈ elements config .disk, (disk.get "uniqid").looseEq (.bool false) = false :=
    fun disk hdisk => not_false_uniqid h.toNamed hdisk
  have hempty : (Val.arr []).isArray = true := rfl
  have hassigned := get_assigned hservice huniqids hempty
  unfold storageGetAssignedServices storageServiceIsActive storageGetDisks indexed
  dsimp only
  rw [hassigned, ← List.head?_filter]
  cases hfilter : (elements config .disk).filter fun disk => (disk.get service).isset with
  | nil => rfl
  | cons disk r =>
    rw [hfilter] at hlength
    have hr : r = [] := by
      apply List.eq_nil_of_length_eq_zero
      rw [List.length_cons] at hlength
      omega
    subst hr
    rfl

/-- **Every service is on one disk at most** -/
theorem services_exclusive (hstart : Named start) (hdisks : elements start .disk = [])
    (hrun : Requested gettext (fun config r => r.Meets gettext config) start config) :
    ServicesExclusive config := by
  apply exclusive_of_apart
  induction hrun with
  | start =>
    refine ⟨hstart, ?_⟩
    intro service _ disk hdisk
    rw [hdisks] at hdisk
    cases hdisk
  | step _ hallowed hmeets ih => exact apart_apply ih hallowed hmeets

end Run

/-! ## Two disks -/

theorem named_nothing : Named (.arr []) := by
  refine ⟨Www.empty_nothing.wellFormed, ?_⟩
  intro k e he
  rw [Www.empty_nothing.elements k] at he
  cases he

/-- A form for a disk with a service. -/
def diskForm (n service : String) : Val :=
  .arr [(.str "name", .str n), (.str "mountpoint", .str "/storage"), (.str "device", .str "/dev/sdb"),
    (.str service, .str "yes"), (.str "uniqid", .str ("STORAGE-DISK-" ++ n))]

/-- The configuration with a first disk, which has the sound files. -/
def oneDisk : Val := (Request.save (diskForm "1" "media")).apply id (.arr [])

/-- The configuration with two disks. -/
def twoDisks (service : String) : Val := (Request.save (diskForm "2" service)).apply id oneDisk

/-- Both are saved, if the condition holds of the second. -/
theorem requested_twoDisks {meets : Val → Request → Prop} (service : String)
    (hfirst : meets (.arr []) (.save (diskForm "1" "media")))
    (hsecond : meets oneDisk (.save (diskForm "2" service))) (hservice : service ∈ storageServices) :
    Requested id meets (.arr []) (twoDisks service) := by
  refine .step (.step .start ⟨"STORAGE-DISK-1", by decide, rfl, by decide⟩ hfirst)
    ⟨"STORAGE-DISK-2", by decide, ?_, by decide⟩ hsecond
  simp only [storageServices, List.mem_cons, List.not_mem_nil, or_false] at hservice
  rcases hservice with rfl | rfl | rfl | rfl | rfl <;> rfl

/-- The second disk has another service. -/
theorem services_exclusive_twoDisks :
    Named (.arr []) ∧ elements (.arr []) .disk = [] ∧ ServicesExclusive (twoDisks "faxarchive") := by
  refine ⟨named_nothing, rfl, services_exclusive named_nothing rfl
    (requested_twoDisks "faxarchive" ?_ ?_ (by decide))⟩
  · intro _ service _ _ disk hdisk
    cases hdisk
  · unfold Request.Meets
    dsimp only
    decide

/-- Both disks have the sound files. The first is used, and the second is shown. -/
theorem not_services_exclusive :
    ¬ ∀ start config : Val, Named start → elements start .disk = [] →
      Requested id (fun _ _ => True) start config → ServicesExclusive config := by
  intro h
  have hexclusive := h (.arr []) (twoDisks "media") named_nothing rfl
    (requested_twoDisks "media" trivial trivial (by decide))
  -- one look-up takes the first disk that has the service, the other the last
  have hactive : (storageServiceIsActive (indexed (twoDisks "media")) "media").get "name" = .str "1" ∧
      (storageGetAssignedServices (indexed (twoDisks "media")) (.bool false)).get "media" = .str "2" := by
    decide
  have hsame := (hexclusive "media" (by decide)).2
  rw [hactive.1, hactive.2] at hsame
  exact absurd hsame (by decide)

end Storage
end Askozia
