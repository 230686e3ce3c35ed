import Askozia.Config.Convert
import Askozia.Pbx.Delete
import Askozia.Pbx.Forms

/-!
# Changing the PIN of a mailbox (`external_voicemail_passwordchange.php`)

The voicemail system calls a script with a mailbox, the old and the new PIN. The script looks for the
phone in the lists of all technologies, and writes the new PIN to the offset that the index has for
`$uniqid`, a variable that is not set. Under the empty text the index has nothing, or `0` when a
section is empty.

* `pin_change_iff`: when the PIN of that phone is all that changes.
-/

namespace Askozia
namespace Pbx

open Php Config XmlParse

/-! ## The script -/

/-- The phone is not disabled, and its extension and PIN are the given ones. -/
def fits (mailbox oldpass : String) (p : Val) : Bool :=
  !(p.get "disabled").isset && (p.get "extension").looseEq (.str mailbox) &&
    (p.get "vmpin").looseEq (.str oldpass)

/-- `$config[$phone_type]['phone'][$uniqid_map[$uniqid]]['vmpin'] = $newpass;`, where `$uniqid` is
`null`. -/
def assignVmpin (phoneType newpass : String) (g : Globals) : Val :=
  let offset := (g.uniqidMap.idx Val.null.key).key
  let phones := (g.config.get phoneType).get "phone"
  g.config.set (.str phoneType) ((g.config.get phoneType).set (.str "phone")
    (phones.set offset ((phones.idx offset).set (.str "vmpin") (.str newpass))))

section Script

variable (usort : Usort) (mailbox oldpass newpass : String)

/-- What the script prints, and the configuration that is stored afterwards. `write_config` drops the
empty lists that `pbx_get_phones` has made, and numbers the phones anew. -/
def externalVoicemailPasswordchange (g : Globals) : String × Val :=
  let (phones, g') := pbxGetPhones usort g
  match phones.find? (fits mailbox oldpass) with
  | some p =>
    if vIsPin (.str newpass) then
      let phoneType := strtolower ((explode '-' (p.get "uniqid").toStr).headD "")
      ("VALID", compact (assignVmpin phoneType newpass g'))
    else ("INVALID", g.config)
  | none => ("", g.config)

/-! ## What the script is for -/

/-- The configuration with another PIN for the element of a kind that has a `uniqid`. -/
def withVmpin (k : Kind) (u : String) (config : Val) : Val :=
  editList (Val.mapItems fun e =>
    if isText u (e.get "uniqid") then e.set (.str "vmpin") (.str newpass) else e) config k

/-- The first phone that fits, in the order of `pbx_get_phones`. -/
def firstPhone (config : Val) : Option Val :=
  (pbxGetPhones usort (indexed config)).1.find? (fits mailbox oldpass)

/-- If `VALID` is printed the PIN of the first phone that fits is the new one, and nothing else
changes. If not, nothing changes. -/
def ChangesOnePin (config : Val) : Prop :=
  let result := externalVoicemailPasswordchange usort mailbox oldpass newpass (indexed config)
  if result.1 = "VALID" then
    ∃ t, ∃ p ∈ elements config (.phone t), firstPhone usort mailbox oldpass config = some p ∧
      result.2 = withVmpin newpass (.phone t) (p.get "uniqid").toStr config
  else result.2 = config

/-- The phone is the first one of its list, or it and the first one have the new PIN already. -/
def FirstOfList (config : Val) : Prop :=
  ∃ t, ∃ p ∈ elements config (.phone t), firstPhone usort mailbox oldpass config = some p ∧
    ∃ q, (elements config (.phone t)).head? = some q ∧
      (q = p ∨ (q.get "vmpin" = .str newpass ∧ p.get "vmpin" = .str newpass))

/-- No phone fits, or the new PIN is none, or it is written to the right place by chance: some section
is empty, none of a technology is missing, and the phone is the first one. -/
def MeetsPinChange (config : Val) : Prop :=
  (∀ t, ∀ p ∈ elements config (.phone t), fits mailbox oldpass p = false) ∨
    vIsPin (.str newpass) = false ∨
    (∃ k : Kind, config.get k.sectionName = .str "") ∧ (∀ t : Tech, config.get t.name ≠ .null) ∧
      FirstOfList usort mailbox oldpass newpass config

end Script

/-! ## The lists of phones -/

/-- The technologies in the order of `pbx_get_phones`. -/
def phoneTechs : List Tech := [.sip, .iax, .isdn, .skinny, .analog]

section Phones

variable {usort : Usort} {config : Val} {k k' : Kind} {g : Globals}

/-- What `pbx_get_phones` does to the configuration. -/
theorem pbxGetPhones_config (g : Globals) :
    (pbxGetPhones usort g).2 =
      { g with config := (phoneTechs.map Kind.phone).foldl initConfig g.config } := by
  unfold pbxGetPhones sipGetPhones iaxGetPhones isdnGetPhones skinnyGetPhones analogGetPhones getSortedCopy
  simp only [initList_eq]
  rfl

theorem mem_pbxGetPhones {p : Val} :
    p ∈ (pbxGetPhones usort g).1 ↔ ∃ t, p ∈ elements g.config (.phone t) := by
  unfold pbxGetPhones sipGetPhones iaxGetPhones isdnGetPhones skinnyGetPhones analogGetPhones getSortedCopy
  simp only [initList_eq, elements_initConfig, (usort.perm _ _).mem_iff, List.mem_append]
  constructor
  · rintro ((((h | h) | h) | h) | h)
    · exact ⟨_, h⟩
    · exact ⟨_, h⟩
    · exact ⟨_, h⟩
    · exact ⟨_, h⟩
    · exact ⟨_, h⟩
  · rintro ⟨t, h⟩
    cases t <;> simp only [h, true_or, or_true]

/-- The type in the `uniqid` of a phone is its technology. -/
theorem phoneType_eq (h : Named config) {t : Tech} {p : Val} (hp : p ∈ elements config (.phone t)) :
    strtolower ((explode '-' (p.get "uniqid").toStr).headD "") = t.name := by
  obtain ⟨u, -, hu⟩ := h.wellFormed.uniqids (.phone t) p hp
  obtain ⟨start, hstart, hprefix⟩ := h.starts (.phone t) p hp u hu
  have htypes : Kind.phone t ∈ phoneTypes := by
    cases t <;> decide
  have hword : ("PHONE", phoneTypes) ∈ accountTypes := by decide
  have hfind := (find_of_start hword htypes hstart hprefix).1
  have hname := List.find?_some hfind
  rw [hu]
  exact (of_decide_eq_true hname).symm

end Phones

/-! ## Writing what was made -/

/-- An entry that is written as another one with the same key. -/
structure Expands (e e' : Key × Val) : Prop where
  key : e'.1 = e.1
  written : compactEntry e'.1 e'.2 = [e]

section Expanded

variable {config : Val} {es es' : List (Key × Val)} {k : Key} {x x' : Val}

theorem compactSub_of_expands (h : List.Forall₂ Expands es es') : compactSub es' = es := by
  induction h with
  | nil => rw [compactSub_nil]
  | cons he _ ih => rw [compactSub_cons, he.written, ih, List.singleton_append]

theorem expands_setEntry (h : List.Forall₂ Expands es es') (hx : Expands (k, x) (k, x')) :
    List.Forall₂ Expands (Val.setEntry k x es) (Val.setEntry k x' es') := by
  induction h with
  | nil => exact .cons hx .nil
  | @cons e e' r r' he hr ih =>
    obtain ⟨key, v⟩ := e
    obtain ⟨key', v'⟩ := e'
    obtain rfl : key' = key := he.key
    unfold Val.setEntry
    split_ifs
    · exact .cons hx hr
    · exact .cons he ih

theorem expands_self (h : Canonical (fun _ => True) (.arr es)) : List.Forall₂ Expands es es := by
  cases h with
  | map _ _ hes =>
    apply List.forall₂_same.2
    intro e he
    exact ⟨rfl, (hes e he).compact⟩

/-- A section with an empty list in it is written as it was. -/
theorem compact_init (h : Loaded config) {t : Tech} (hsection : config.get t.name ≠ .null)
    (harr : (listOf config (.phone t)).isArray = false) :
    compact ((config.get t.name).set (.str "phone") (.arr [])) = config.get t.name := by
  -- an empty list of phones is not written
  have hempty : compactEntry (.str "phone") (.arr []) = [] := by
    rw [compactEntry_list (by decide)]
    rfl
  unfold listOf at harr
  rcases section_cases h.wellFormed h.canonical (.phone t) with hnull | hstr | ⟨fs, hmap, hcanonical⟩
  · exact absurd hnull hsection
  · replace hstr : config.get t.name = .str "" := hstr
    rw [hstr]
    show compact (.arr [(.str "phone", .arr [])]) = _
    rw [compact_arr, compactSub_cons, hempty, compactSub_nil]
    rfl
  · replace hmap : config.get t.name = .arr fs := hmap
    change (Val.get (config.get t.name) "phone").isArray = false at harr
    rw [hmap] at harr ⊢
    have hnone : Key.str "phone" ∉ fs.map Prod.fst := by
      intro hmem
      obtain ⟨⟨key, x⟩, hx, hkey⟩ := List.mem_map.1 hmem
      obtain rfl : key = .str "phone" := hkey
      cases hcanonical with
      | map _ hnodup hes =>
        rw [Val.get, Val.idx_arr, Val.lookup_of_mem hnodup hx] at harr
        generalize he : ((Key.str "phone", x) : Key × Val) = e at hx
        have hentry := hes e hx
        cases hentry with
        | list _ _ _ _ =>
          obtain ⟨-, rfl⟩ := Prod.mk.inj he
          cases harr
        | single _ hl _ =>
          obtain ⟨hkey, -⟩ := Prod.mk.inj he
          exact absurd (Key.str.inj hkey ▸ (by decide : "phone" ∈ listtags)) hl
    show compact (.arr (Val.setEntry (.str "phone") (.arr []) fs)) = .arr fs
    have hwritten : compactSub (fs ++ [(.str "phone", .arr [])]) = fs := by
      have hsplit : ∀ gs : List (Key × Val),
          compactSub (gs ++ [(.str "phone", .arr [])]) = compactSub gs := by
        intro gs
        induction gs with
        | nil => rw [List.nil_append, compactSub_cons, hempty, compactSub_nil]; rfl
        | cons e r ih =>
          obtain ⟨key, x⟩ := e
          rw [List.cons_append, compactSub_cons, compactSub_cons, ih]
      rw [hsplit, hcanonical.compactSub]
    rw [Val.setEntry_of_not_mem hnone, compact_arr, hwritten]
    cases hcanonical with
    | map hne _ _ => exact wrap_ne_nil hne

end Expanded

/-! ## The configuration before the assignment -/

/-- A section with a list of phones. -/
def initSection (v : Val) : Val :=
  if (v.get "phone").isArray then v else v.set (.str "phone") (.arr [])

section Initialised

variable {config c : Val} {es : List (Key × Val)} {t : Tech}

theorem isArray_initConfig (h : c.isArray = true) (k : Kind) : (initConfig c k).isArray = true := by
  unfold initConfig
  split_ifs
  · exact h
  · rfl

theorem get_initConfig_of_ne (h : c.isArray = true) {n : String} (hn : n ≠ t.name) :
    (initConfig c (.phone t)).get n = c.get n := by
  unfold initConfig
  split_ifs
  · rfl
  · have hkey : Key.str n ≠ .str t.name := fun heq => hn (Key.str.inj heq)
    exact Val.idx_set_of_ne _ hkey (ne_str_of_isArray h)

theorem Tech.name_injective {t t' : Tech} (h : t.name = t'.name) : t = t' := by
  cases t <;> cases t' <;> first | rfl | exact absurd h (by decide)

/-- Sections of other technologies stay. -/
theorem get_initPhones_of_not_mem {ts : List Tech} (ht : t ∉ ts) (h : c.isArray = true) :
    ((ts.map Kind.phone).foldl initConfig c).get t.name = c.get t.name := by
  induction ts generalizing c with
  | nil => rfl
  | cons t' r ih =>
    rw [List.mem_cons, not_or] at ht
    rw [List.map_cons, List.foldl_cons, ih ht.2 (isArray_initConfig h _)]
    apply get_initConfig_of_ne h
    intro hname
    exact ht.1 (Tech.name_injective hname)

theorem get_initConfig_self (c : Val) (t : Tech) :
    (initConfig c (.phone t)).get t.name = initSection (c.get t.name) := by
  unfold initConfig initSection
  split_ifs with harr harr'
  · rfl
  · exact absurd harr harr'
  · exact absurd ‹_› harr
  · exact Val.idx_set_self _ _ _

/-- Sections with phones stay, and those without get a list. -/
theorem get_initPhones {ts : List Tech} (hts : ts.Nodup) (h : c.isArray = true) (ht : t ∈ ts) :
    ((ts.map Kind.phone).foldl initConfig c).get t.name = initSection (c.get t.name) := by
  induction ts generalizing c with
  | nil => cases ht
  | cons t' r ih =>
    rw [List.nodup_cons] at hts
    rw [List.map_cons, List.foldl_cons]
    by_cases heq : t = t'
    · subst heq
      rw [get_initPhones_of_not_mem hts.1 (isArray_initConfig h _), get_initConfig_self]
    · have hmem : t ∈ r := (List.mem_cons.1 ht).resolve_left heq
      rw [ih hts.2 (isArray_initConfig h _) hmem,
        get_initConfig_of_ne h fun hname => heq (Tech.name_injective hname)]

/-- What the lists of phones make of a configuration with all sections is written as it was. -/
theorem expands_initPhones (hloaded : Loaded (.arr es))
    (hsections : ∀ t : Tech, (Val.arr es).get t.name ≠ .null) {ts : List Tech} (hts : ts.Nodup) :
    ∀ {es' : List (Key × Val)}, (∀ t ∈ ts, (Val.arr es').get t.name = (Val.arr es).get t.name) →
      List.Forall₂ Expands es es' →
      ∃ es₁, (ts.map Kind.phone).foldl initConfig (.arr es') = .arr es₁ ∧ List.Forall₂ Expands es es₁ := by
  -- each technology has a section of its own, so the lists are added one by one
  induction ts with
  | nil =>
    intro es' _ h
    exact ⟨es', rfl, h⟩
  | cons t r ih =>
    intro es' hsame h
    rw [List.nodup_cons] at hts
    rw [List.map_cons, List.foldl_cons]
    have hrest : ∀ t' ∈ r, (initConfig (.arr es') (.phone t)).get t'.name = (Val.arr es).get t'.name := by
      intro t' ht'
      rw [get_initConfig_of_ne rfl, hsame t' (List.mem_cons_of_mem _ ht')]
      intro hname
      exact hts.1 (Tech.name_injective hname ▸ ht')
    have hown := hsame t List.mem_cons_self
    unfold initConfig at hrest ⊢
    split_ifs at hrest ⊢ with harr
    · exact ih hts.2 hrest h
    · apply ih hts.2 hrest
      have hlist : (listOf (.arr es) (.phone t)).isArray = false := by
        unfold listOf at harr ⊢
        rw [Bool.not_eq_true] at harr
        rw [← harr]
        exact congrArg (fun v => (Val.get v "phone").isArray) hown.symm
      have hwritten := compact_init hloaded (hsections t) hlist
      have hlookup : es.lookup (.str t.name) = some ((Val.arr es).get t.name) := by
        have hne := hsections t
        rw [Val.get, Val.idx_arr] at hne ⊢
        cases hx : es.lookup (.str t.name) with
        | none =>
          rw [hx] at hne
          exact absurd rfl hne
        | some x => rfl
      rw [← Val.setEntry_of_lookup hlookup]
      apply expands_setEntry h
      have hname : ∀ t ∈ technologies, t.name ∉ listtags := by decide
      refine ⟨rfl, ?_⟩
      show compactEntry (.str t.name) (((Val.arr es').get t.name).set (.str "phone") (.arr [])) = _
      rw [compactEntry_single (k := .str t.name) (hname t (by cases t <;> decide)), hown, hwritten]

end Initialised

/-! ## The configuration after the assignment -/

/-- The configuration with the phones as `pbx_get_phones` leaves it. -/
def initPhones (config : Val) : Val := (phoneTechs.map Kind.phone).foldl initConfig config

section Assigned

variable {usort : Usort} {mailbox oldpass newpass : String} {config p : Val} {t : Tech}
  {es fs : List (Key × Val)}

/-- A phone is in a section, under a list. -/
theorem section_of_phone (h : Loaded config) (hp : p ∈ elements config (.phone t)) :
    ∃ es fs, config = .arr es ∧ config.get t.name = .arr fs ∧ Canonical (fun _ => True) (.arr fs) ∧
      (Val.arr fs).get "phone" = .ofList (elements config (.phone t)) := by
  have hlist : listOf config (.phone t) = .ofList (elements config (.phone t)) :=
    contiguous_of_mem h.wellFormed.lists hp
  rcases section_cases h.wellFormed h.canonical (.phone t) with hnull | hstr | ⟨fs, hmap, hcanonical⟩
  · rw [listOf, hnull] at hlist
    cases hlist
  · rw [listOf, hstr] at hlist
    cases hlist
  · refine ⟨config.entries, fs, ?_, hmap, hcanonical, ?_⟩
    · cases hconfig : config with
      | arr es => rfl
      | str s =>
        rw [hconfig] at hmap
        cases hmap
      | _ =>
        rw [hconfig] at hmap
        cases hmap
    · rw [← hlist, listOf, hmap]
      rfl

/-- Where the new PIN is written. -/
theorem assignVmpin_eq (h : Loaded (.arr es)) (hp : p ∈ elements (.arr es) (.phone t))
    (hsection : (Val.arr es).get t.name = .arr fs) {offset : Key}
    (hlist : (Val.arr fs).get "phone" = .ofList (elements (.arr es) (.phone t)))
    (hoffset : ((configBuildUniqidMap (.arr es)).idx Val.null.key).key = offset) :
    assignVmpin (strtolower ((explode '-' (p.get "uniqid").toStr).headD "")) newpass
        (pbxGetPhones usort (indexed (.arr es))).2 =
      (initPhones (.arr es)).set (.str t.name) ((Val.arr fs).set (.str "phone")
        ((Val.ofList (elements (.arr es) (.phone t))).set offset
          (((Val.ofList (elements (.arr es) (.phone t))).idx offset).set (.str "vmpin") (.str newpass)))) := by
  have harr : ((Val.arr fs).get "phone").isArray = true := by
    rw [hlist]
    rfl
  have hget : (initPhones (.arr es)).get t.name = .arr fs := by
    unfold initPhones
    rw [get_initPhones (by decide) rfl (by cases t <;> decide), hsection]
    unfold initSection
    rw [if_pos harr]
  rw [phoneType_eq h.toNamed hp, pbxGetPhones_config]
  unfold assignVmpin indexed
  dsimp only
  unfold initPhones at hget ⊢
  rw [hget, hlist, hoffset]

/-- Writing to a phone that is there, in a configuration with all sections. -/
theorem compact_assigned (h : Loaded (.arr es)) (hsections : ∀ t : Tech, (Val.arr es).get t.name ≠ .null)
    (hsection : (Val.arr es).get t.name = .arr fs) (hfs : Canonical (fun _ => True) (.arr fs))
    {xs : List Val} (hne : xs ≠ []) (hxs : ∀ x ∈ xs, Canonical (fun _ => True) x) :
    compact ((initPhones (.arr es)).set (.str t.name) ((Val.arr fs).set (.str "phone") (.ofList xs))) =
      setList (.arr es) (.phone t) (.ofList xs) := by
  have hnodup : phoneTechs.Nodup := by decide
  obtain ⟨es₁, hinit, hexpands⟩ := expands_initPhones h hsections hnodup (fun _ _ => rfl)
    (expands_self h.canonical)
  have hname : ∀ t ∈ technologies, t.name ∉ listtags := by decide
  have hcanonical : Canonical (fun _ => True) ((Val.arr fs).set (.str "phone") (.ofList xs)) := by
    have hentry : CanonicalEntry (fun _ => True) (.str "phone", .ofList xs) :=
      .list ⟨by decide, by decide⟩ (by decide) hne hxs
    exact canonical_assign (.inr hfs) hentry
  have hentry : Expands (.str t.name, (Val.arr fs).set (.str "phone") (.ofList xs))
      (.str t.name, (Val.arr fs).set (.str "phone") (.ofList xs)) := by
    refine ⟨rfl, ?_⟩
    dsimp only
    rw [compactEntry_single (k := .str t.name) (hname t (by cases t <;> decide)), hcanonical.compact]
  unfold initPhones
  rw [hinit]
  show compact (.arr (Val.setEntry (.str t.name) _ es₁)) = _
  rw [compact_arr, compactSub_of_expands (expands_setEntry hexpands hentry)]
  unfold setList
  simp only [Kind.sectionName, Kind.tagName]
  rw [hsection, wrap_ne_nil Val.setEntry_ne_nil]
  rfl

theorem nodup_initPhones (hnodup : (es.map Prod.fst).Nodup) (ts : List Tech) :
    ∃ es₁, (ts.map Kind.phone).foldl initConfig (.arr es) = .arr es₁ ∧ (es₁.map Prod.fst).Nodup := by
  induction ts generalizing es with
  | nil => exact ⟨es, rfl, hnodup⟩
  | cons t r ih =>
    rw [List.map_cons, List.foldl_cons]
    unfold initConfig
    split_ifs
    · exact ih hnodup
    · exact ih (Val.nodup_setEntry hnodup)

/-- The section of a technology after the write. -/
theorem get_compact_assigned (hnodup : (es.map Prod.fst).Nodup) (t t' : Tech) (x : Val) :
    (compact ((initPhones (.arr es)).set (.str t.name) x)).get t'.name =
      compact (((initPhones (.arr es)).set (.str t.name) x).get t'.name) := by
  have hname : ∀ t ∈ technologies, t.name ∉ listtags := by decide
  have hsingle : ∀ t : Tech, t.name ∉ listtags := fun t => hname t (by cases t <;> decide)
  obtain ⟨es₁, hinit, hnodup₁⟩ := nodup_initPhones hnodup phoneTechs
  unfold initPhones
  rw [hinit]
  apply get_compact_single (Val.nodup_setEntry hnodup₁) (hsingle t')
  exact compactSub_ne_nil (hsingle t) (Val.mem_of_lookup Val.lookup_setEntry_self)

/-- A section that was missing is there afterwards. -/
theorem get_assigned_of_missing (hnodup : (es.map Prod.fst).Nodup) {t' : Tech}
    (hmissing : (Val.arr es).get t'.name = .null) (hne : t' ≠ t) (x : Val) :
    (compact ((initPhones (.arr es)).set (.str t.name) x)).get t'.name ≠ .null := by
  obtain ⟨es₁, hinit, -⟩ := nodup_initPhones hnodup phoneTechs
  have hkey : Key.str t'.name ≠ .str t.name := fun heq => hne (Tech.name_injective (Key.str.inj heq))
  have hkept : ((initPhones (.arr es)).set (.str t.name) x).get t'.name = initSection .null := by
    have hget : (initPhones (.arr es)).get t'.name = initSection .null := by
      unfold initPhones
      rw [get_initPhones (by decide) rfl (by cases t' <;> decide), hmissing]
    rw [← hget]
    apply Val.idx_set_of_ne _ hkey
    unfold initPhones
    rw [hinit]
    exact ne_str_of_isArray rfl
  rw [get_compact_assigned hnodup, hkept]
  show compact (.arr [(.str "phone", .arr [])]) ≠ _
  rw [compact_arr, compactSub_cons, compactEntry_list (by decide), compactSub_nil]
  exact Val.noConfusion

/-- The number of phones after the write. -/
theorem length_assigned (hnodup : (es.map Prod.fst).Nodup) (hfs : (fs.map Prod.fst).Nodup)
    (items : List (Key × Val)) :
    (elements (compact ((initPhones (.arr es)).set (.str t.name)
      ((Val.arr fs).set (.str "phone") (.arr items)))) (.phone t)).length = items.length := by
  unfold elements listOf
  simp only [Kind.sectionName, Kind.tagName]
  rw [get_compact_assigned hnodup]
  have hself : ((initPhones (.arr es)).set (.str t.name)
      ((Val.arr fs).set (.str "phone") (.arr items))).get t.name =
        .arr (Val.setEntry (.str "phone") (.arr items) fs) := Val.idx_set_self _ _ _
  rw [hself, vals_compact_list (Val.nodup_setEntry hfs) (by decide), List.length_map]
  · rw [Val.get, Val.idx_arr, Val.lookup_setEntry_self]
    exact List.length_map _
  · intro v hv
    rw [Val.lookup_setEntry_self] at hv
    obtain rfl := Option.some.inj hv
    rfl

end Assigned

/-! ## When one PIN changes -/

section Change

variable {usort : Usort} {mailbox oldpass newpass : String} {config p : Val} {t : Tech}

/-- The list of phones with another PIN. -/
theorem withVmpin_eq (h : Loaded config) (hp : p ∈ elements config (.phone t)) (u : String) :
    withVmpin newpass (.phone t) u config =
      setList config (.phone t) (.ofList ((elements config (.phone t)).map fun e =>
        if isText u (e.get "uniqid") then e.set (.str "vmpin") (.str newpass) else e)) := by
  have hlist : listOf config (.phone t) = .ofList (elements config (.phone t)) :=
    contiguous_of_mem h.wellFormed.lists hp
  unfold withVmpin
  rw [← setList_eq_editList (by rw [hlist]; rfl)]
  conv_lhs => rw [hlist]
  rw [Val.mapItems_ofList]

/-- A phone with the PIN it has. -/
theorem set_vmpin_eq_self_iff {q : Val} (hq : q.isArray = true) :
    q.set (.str "vmpin") (.str newpass) = q ↔ q.get "vmpin" = .str newpass := by
  constructor
  · intro h
    rw [← h]
    exact Val.idx_set_self _ _ _
  · intro h
    cases q with
    | arr es =>
      have hlookup : es.lookup (.str "vmpin") = some (.str newpass) := by
        rw [Val.get, Val.idx_arr] at h
        cases hx : es.lookup (.str "vmpin") with
        | none =>
          rw [hx] at h
          cases h
        | some x =>
          rw [hx] at h
          exact congrArg some h
      show Val.arr (Val.setEntry _ _ es) = _
      rw [Val.setEntry_of_lookup hlookup]
    | _ => cases hq

/-- Writing to the first phone of a list, and writing to another one. -/
theorem write_first_iff {q : Val} {r : List Val} (hnodup : ((q :: r).map (·.get "uniqid")).Nodup)
    (harrays : ∀ x ∈ q :: r, x.isArray = true) {u : String} (hp : p ∈ q :: r)
    (hu : p.get "uniqid" = .str u) :
    q.set (.str "vmpin") (.str newpass) :: r =
        (q :: r).map (fun e =>
          if isText u (e.get "uniqid") then e.set (.str "vmpin") (.str newpass) else e) ↔
      q = p ∨ (q.get "vmpin" = .str newpass ∧ p.get "vmpin" = .str newpass) := by
  rw [List.map_cons, List.nodup_cons] at hnodup
  -- the phones after the first one that are not the one in question
  have hother : ∀ x ∈ r, x.get "uniqid" ≠ .str u →
      (if isText u (x.get "uniqid") then x.set (.str "vmpin") (.str newpass) else x) = x := by
    intro x _ hx
    rw [if_neg]
    simpa [isText] using hx
  rw [List.map_cons, List.cons.injEq]
  by_cases hq : q = p
  · subst hq
    rw [hu, isText, beq_self_eq_true, if_pos rfl]
    refine iff_of_true ⟨rfl, ?_⟩ (.inl rfl)
    symm
    refine (List.map_congr_left ?_).trans (List.map_id' r)
    intro x hx
    apply hother x hx
    intro hxu
    apply hnodup.1
    rw [hu, ← hxu]
    exact List.mem_map_of_mem (f := (·.get "uniqid")) hx
  · have hmem : p ∈ r := (List.mem_cons.1 hp).resolve_left (Ne.symm hq)
    have hqu : q.get "uniqid" ≠ .str u := by
      intro hqu
      apply hnodup.1
      rw [hqu, ← hu]
      exact List.mem_map_of_mem (f := (·.get "uniqid")) hmem
    have hqkept : (if isText u (q.get "uniqid") then q.set (.str "vmpin") (.str newpass) else q) = q := by
      rw [if_neg]
      simpa [isText] using hqu
    rw [hqkept, set_vmpin_eq_self_iff (harrays q List.mem_cons_self), or_iff_right hq,
      ← set_vmpin_eq_self_iff (harrays p hp)]
    refine and_congr_right fun _ => ?_
    constructor
    · intro hmap
      obtain ⟨i, hi, hpi⟩ := List.getElem_of_mem hmem
      have hsame := congrArg (·[i]?) hmap
      simp only [List.getElem?_map, List.getElem?_eq_getElem hi, Option.map_some, hpi, hu, isText,
        beq_self_eq_true, if_true] at hsame
      exact (Option.some.inj hsame).symm
    · intro hset
      symm
      refine (List.map_congr_left ?_).trans (List.map_id' r)
      intro x hx
      by_cases hxu : x.get "uniqid" = .str u
      · obtain rfl : x = p := List.inj_on_of_nodup_map hnodup.2 hx hmem (hxu.trans hu.symm)
        rw [hu, isText, beq_self_eq_true, if_pos rfl, hset]
      · exact hother x hx hxu

/-- What the script does with a phone that fits. -/
theorem result_of_fits (hfirst : firstPhone usort mailbox oldpass config = some p)
    (hpin : vIsPin (.str newpass) = true) :
    externalVoicemailPasswordchange usort mailbox oldpass newpass (indexed config) =
      ("VALID", compact (assignVmpin (strtolower ((explode '-' (p.get "uniqid").toStr).headD "")) newpass
        (pbxGetPhones usort (indexed config)).2)) := by
  unfold firstPhone at hfirst
  unfold externalVoicemailPasswordchange
  dsimp only
  rw [hfirst]
  dsimp only
  rw [if_pos hpin]

/-- A phone is in one list. -/
theorem tech_of_mem (h : WellFormed config) {t' : Tech} (hp : p ∈ elements config (.phone t))
    (hp' : p ∈ elements config (.phone t')) : t' = t := by
  obtain ⟨i, hi, rfl⟩ := List.getElem_of_mem hp
  obtain ⟨j, hj, heq⟩ := List.getElem_of_mem hp'
  have hkind := (h.eq_of_uniqid hj hi (congrArg (·.get "uniqid") heq)).1
  exact Kind.phone.inj hkind

/-- The condition for a phone that fits. -/
theorem meets_iff_of_fits (h : WellFormed config) (hp : p ∈ elements config (.phone t))
    (hfirst : firstPhone usort mailbox oldpass config = some p) (hpin : vIsPin (.str newpass) = true) :
    MeetsPinChange usort mailbox oldpass newpass config ↔
      (∃ k : Kind, config.get k.sectionName = .str "") ∧ (∀ t : Tech, config.get t.name ≠ .null) ∧
        ∃ q, (elements config (.phone t)).head? = some q ∧
          (q = p ∨ (q.get "vmpin" = .str newpass ∧ p.get "vmpin" = .str newpass)) := by
  unfold MeetsPinChange FirstOfList
  constructor
  · rintro (hnone | hno | ⟨hempty, hsections, t', p', hp', hfirst', hq⟩)
    · have hfits := List.find?_some hfirst
      rw [hnone t p hp] at hfits
      cases hfits
    · rw [hpin] at hno
      cases hno
    · obtain rfl : p = p' := Option.some.inj (hfirst.symm.trans hfirst')
      obtain rfl := tech_of_mem h hp hp'
      exact ⟨hempty, hsections, hq⟩
  · rintro ⟨hempty, hsections, hq⟩
    exact .inr (.inr ⟨hempty, hsections, t, p, hp, hfirst, hq⟩)

/-- What is to be shown for a phone that fits. -/
theorem changes_iff_of_fits (h : WellFormed config) (hp : p ∈ elements config (.phone t))
    (hfirst : firstPhone usort mailbox oldpass config = some p) (hpin : vIsPin (.str newpass) = true) :
    ChangesOnePin usort mailbox oldpass newpass config ↔
      compact (assignVmpin (strtolower ((explode '-' (p.get "uniqid").toStr).headD "")) newpass
          (pbxGetPhones usort (indexed config)).2) =
        withVmpin newpass (.phone t) (p.get "uniqid").toStr config := by
  unfold ChangesOnePin
  dsimp only
  rw [result_of_fits hfirst hpin, if_pos rfl]
  dsimp only
  constructor
  · rintro ⟨t', p', hp', hfirst', heq⟩
    obtain rfl : p = p' := Option.some.inj (hfirst.symm.trans hfirst')
    obtain rfl := tech_of_mem h hp hp'
    exact heq
  · intro heq
    exact ⟨t, p, hp, hfirst, heq⟩

/-- An empty section makes the index have an offset under the empty text. -/
theorem offset_empty (h : Loaded config) :
    ((∃ k : Kind, config.get k.sectionName = .str "") ∧
      (configBuildUniqidMap config).idx Val.null.key = .int 0) ∨
    ((∀ k : Kind, config.get k.sectionName ≠ .str "") ∧
      (configBuildUniqidMap config).idx Val.null.key = .null) := by
  have hkey : Val.null.key = (Val.str "").key := by decide
  -- a list reads as the empty string where its whole section is that string
  have hlists : ∀ k, listOf config k = .str "" ↔ config.get k.sectionName = .str "" := by
    intro k
    constructor
    · intro hlist
      rcases section_cases h.wellFormed h.canonical k with hnull | hstr | ⟨fs, hmap, hcanonical⟩
      · rw [listOf, hnull] at hlist
        cases hlist
      · exact hstr
      · have hnames : ∀ k ∈ Kind.all, k.tagName ∈ listtags := by decide
        rw [listOf, hmap] at hlist
        rw [Val.get, Val.idx_arr] at hlist
        cases hx : fs.lookup (.str k.tagName) with
        | none =>
          rw [hx] at hlist
          cases hlist
        | some x =>
          rw [hx] at hlist
          obtain rfl : x = .str "" := hlist
          generalize he : ((Key.str k.tagName, Val.str "") : Key × Val) = e
          have hentry := canonical_entry hcanonical hx
          rw [he] at hentry
          cases hentry with
          | list _ _ _ _ => cases (Prod.mk.inj he).2
          | single _ hl _ => exact absurd (Key.str.inj (Prod.mk.inj he).1 ▸ hnames k k.mem_all) hl
    · intro hstr
      rw [listOf, hstr]
      rfl
  rw [hkey]
  rcases offset_cases h.wellFormed "" with ⟨k, i, hi, hu, -⟩ | ⟨-, -, ⟨k, hk⟩, hoffset⟩ |
    ⟨-, hsections, hoffset⟩
  · obtain ⟨u, hne, hu'⟩ := h.wellFormed.uniqids k _ (List.getElem_mem hi)
    rw [hu] at hu'
    exact absurd (Val.str.inj hu').symm hne
  · exact .inl ⟨⟨k, (hlists k).1 hk⟩, hoffset⟩
  · refine .inr ⟨?_, hoffset⟩
    intro k hk
    rcases hsections with hne | hnone
    · exact hne rfl
    · exact hnone k ((hlists k).2 hk)

/-- A section that is missing stays so when only a PIN changes. -/
theorem get_withVmpin_of_missing {t' : Tech} (hmissing : config.get t'.name = .null) (hne : t' ≠ t)
    (u : String) : (withVmpin newpass (.phone t) u config).get t'.name = .null := by
  have hkey : Key.str t'.name ≠ .str t.name := fun heq => hne (Tech.name_injective (Key.str.inj heq))
  rw [← hmissing]
  exact Val.idx_mapAt_of_ne hkey

/-- Elements of a loaded configuration are arrays. -/
theorem isArray_of_named (h : Named config) {k : Kind} (hp : p ∈ elements config k) :
    p.isArray = true := by
  obtain ⟨u, -, hu⟩ := h.wellFormed.uniqids k p hp
  obtain ⟨start, hstart, hprefix⟩ := h.starts k p hp u hu
  exact isArray_of_uniqid hstart hprefix hu

theorem setList_inj {k : Kind} {xs ys : List Val} :
    setList config k (.ofList xs) = setList config k (.ofList ys) ↔ xs = ys := by
  constructor
  · intro heq
    have hlist : elements (setList config k (.ofList xs)) k = elements (setList config k (.ofList ys)) k := by
      rw [heq]
    rwa [elements_setList, elements_setList] at hlist
  · intro heq
    rw [heq]

/-- The write changes one PIN only. -/
theorem change_iff (h : Loaded config) (hp : p ∈ elements config (.phone t)) :
    compact (assignVmpin (strtolower ((explode '-' (p.get "uniqid").toStr).headD "")) newpass
          (pbxGetPhones usort (indexed config)).2) =
        withVmpin newpass (.phone t) (p.get "uniqid").toStr config ↔
      (∃ k : Kind, config.get k.sectionName = .str "") ∧ (∀ t : Tech, config.get t.name ≠ .null) ∧
        ∃ q, (elements config (.phone t)).head? = some q ∧
          (q = p ∨ (q.get "vmpin" = .str newpass ∧ p.get "vmpin" = .str newpass)) := by
  obtain ⟨es, fs, rfl, hsection, hfs, hlist⟩ := section_of_phone h hp
  have hnodup : (es.map Prod.fst).Nodup := by
    cases h.canonical with
    | map _ hnodup _ => exact hnodup
  rw [assignVmpin_eq h hp hsection hlist rfl]
  by_cases hsections : ∀ t : Tech, (Val.arr es).get t.name ≠ .null
  · -- the element is looked up without a name: at position zero, or nowhere
    rcases offset_empty h with ⟨hempty, hoffset⟩ | ⟨hnone, hoffset⟩
    · rw [hoffset]
      have hnames := (List.nodup_flatMap.1 h.wellFormed.distinct).1 (.phone t) (Kind.mem_all _)
      have hitems := (canonical_listOf h.canonical (.phone t)
        (by rw [contiguous_of_mem h.wellFormed.lists hp]; rfl))
      obtain ⟨items, hitems, hcanonical⟩ := hitems
      have hxs : elements (.arr es) (.phone t) = items := by
        rw [elements, hitems, Val.vals_ofList]
      have harrays : ∀ x ∈ elements (.arr es) (.phone t), x.isArray = true :=
        fun x hx => isArray_of_named h.toNamed hx
      obtain ⟨u, -, hu⟩ := h.wellFormed.uniqids (.phone t) p hp
      have hname : (p.get "uniqid").toStr = u := by
        rw [hu]
        rfl
      rw [withVmpin_eq h hp, hname]
      rw [hxs] at hnames harrays hp ⊢
      cases items with
      | nil => cases hp
      | cons q r =>
        -- the first phone of the list gets the PIN
        have hset : (Val.ofList (q :: r)).set (Val.int 0).key
            (((Val.ofList (q :: r)).idx (Val.int 0).key).set (.str "vmpin") (.str newpass)) =
              .ofList (q.set (.str "vmpin") (.str newpass) :: r) := by
          have hidx : (Val.ofList (q :: r)).idx (.int (0 : ℕ)) = q := by
            rw [Val.idx_ofList]
            rfl
          show (Val.ofList (q :: r)).set (.int (0 : ℕ)) (((Val.ofList (q :: r)).idx (.int (0 : ℕ))).set _ _) = _
          rw [hidx, Val.set_ofList (by simp)]
          rfl
        have hq : Canonical (fun _ => True) (q.set (.str "vmpin") (.str newpass)) :=
          canonical_set (hcanonical q List.mem_cons_self) ⟨by decide, by decide⟩ (by decide) (.str trivial)
        have hnew : ∀ x ∈ q.set (.str "vmpin") (.str newpass) :: r, Canonical (fun _ => True) x := by
          intro x hx
          rcases List.mem_cons.1 hx with rfl | hx
          · exact hq
          · exact hcanonical x (List.mem_cons_of_mem _ hx)
        rw [hset, compact_assigned h hsections hsection hfs (List.cons_ne_nil _ _) hnew, setList_inj,
          write_first_iff hnames harrays hp hu]
        constructor
        · intro hwrite
          exact ⟨hempty, hsections, q, rfl, hwrite⟩
        · rintro ⟨-, -, q', hq', hwrite⟩
          obtain rfl : q = q' := Option.some.inj hq'
          exact hwrite
    · -- a phone is added
      refine iff_of_false ?_ ?_
      · rw [hoffset]
        intro heq
        have hcount := congrArg (fun c => (elements c (.phone t)).length) heq
        have hkeys : Key.str "" ∉ (Val.ofList (elements (.arr es) (.phone t))).entries.map Prod.fst := by
          rw [Val.ofList_entries, List.map_map]
          intro hmem
          obtain ⟨_, -, hkey⟩ := List.mem_map.1 hmem
          cases hkey
        have hpush : ∀ x : Val, (Val.ofList (elements (.arr es) (.phone t))).set Val.null.key x =
            .arr ((Val.ofList (elements (.arr es) (.phone t))).entries ++ [(.str "", x)]) :=
          fun x => congrArg Val.arr (Val.setEntry_of_not_mem hkeys)
        have hfsnodup : (fs.map Prod.fst).Nodup := by
          cases hfs with
          | map _ hnodup _ => exact hnodup
        rw [hpush, length_assigned hnodup hfsnodup, withVmpin_eq h hp, elements_setList, List.length_map,
          List.length_append, Val.ofList_entries, List.length_map, List.length_zipIdx] at hcount
        simp at hcount
      · rintro ⟨⟨k, hk⟩, -, -⟩
        exact hnone k hk
  · refine iff_of_false ?_ fun hmeets => hsections hmeets.2.1
    push Not at hsections
    -- a technology without a section gets one, which the document did not have
    obtain ⟨t', hmissing⟩ := hsections
    have hne : t' ≠ t := by
      rintro rfl
      rw [hsection] at hmissing
      cases hmissing
    intro heq
    apply get_assigned_of_missing hnodup hmissing hne
    rw [heq]
    exact get_withVmpin_of_missing hmissing hne _

/-- **The PIN of one phone changes** -/
theorem pin_change_iff (usort : Usort) (mailbox oldpass newpass : String) {config : Val}
    (h : Loaded config) :
    ChangesOnePin usort mailbox oldpass newpass config ↔
      MeetsPinChange usort mailbox oldpass newpass config := by
  -- nobody has this mailbox and PIN, the new PIN is none, or it is stored
  cases hfirst : firstPhone usort mailbox oldpass config with
  | none =>
    have hresult : externalVoicemailPasswordchange usort mailbox oldpass newpass (indexed config) =
        ("", config) := by
      unfold firstPhone at hfirst
      unfold externalVoicemailPasswordchange
      dsimp only
      rw [hfirst]
      rfl
    refine iff_of_true ?_ (.inl ?_)
    · unfold ChangesOnePin
      dsimp only
      rw [hresult, if_neg (show "" ≠ "VALID" by decide)]
    · intro t p hp
      have hno := List.find?_eq_none.1 hfirst p (mem_pbxGetPhones.2 ⟨t, hp⟩)
      exact Bool.eq_false_of_not_eq_true hno
  | some p =>
    cases hpin : vIsPin (.str newpass) with
    | false =>
      have hresult : externalVoicemailPasswordchange usort mailbox oldpass newpass (indexed config) =
          ("INVALID", config) := by
        unfold firstPhone at hfirst
        unfold externalVoicemailPasswordchange
        dsimp only
        rw [hfirst]
        dsimp only
        rw [if_neg (by rw [hpin]; exact Bool.false_ne_true)]
        rfl
      refine iff_of_true ?_ (.inr (.inl hpin))
      unfold ChangesOnePin
      dsimp only
      rw [hresult, if_neg (show "INVALID" ≠ "VALID" by decide)]
    | true =>
      obtain ⟨t, hp⟩ := mem_pbxGetPhones.1 (List.mem_of_find?_eq_some hfirst)
      replace hp : p ∈ elements config (.phone t) := hp
      rw [meets_iff_of_fits h.wellFormed hp hfirst hpin, changes_iff_of_fits h.wellFormed hp hfirst hpin]
      exact change_iff h hp

end Change

/-! ## A phone with a mailbox -/

/-- A phone. -/
def mailboxPhone (vmpin : String) : Val :=
  .arr [(.str "uniqid", .str "SIP-PHONE-1"), (.str "extension", .str "101"), (.str "vmpin", .str vmpin)]

/-- One phone, and what else there is. -/
def oneMailbox (others : List (Key × Val)) : Val :=
  .arr ((.str "sip", .arr [(.str "phone", .ofList [mailboxPhone "1234"])]) :: others)

/-- The sections of the other technologies, without anything in them. -/
def emptySections : List (Key × Val) :=
  [(.str "iax", .str ""), (.str "isdn", .str ""), (.str "analog", .str ""), (.str "skinny", .str "")]

theorem loaded_oneMailbox {others : List (Key × Val)} (hothers : others = [] ∨ others = emptySections) :
    Loaded (oneMailbox others) := by
  have hall : ∀ others ∈ [[], emptySections],
      (∀ k ∈ Kind.all, listOf (oneMailbox others) k = .null ∨ listOf (oneMailbox others) k = .str "" ∨
        listOf (oneMailbox others) k = Val.ofList (listOf (oneMailbox others) k).vals) ∧
      (∀ k ∈ Kind.all, ∀ e ∈ elements (oneMailbox others) k,
        k = .phone .sip ∧ e.get "uniqid" = .str "SIP-PHONE-1") ∧
      (Kind.all.flatMap fun k => (elements (oneMailbox others) k).map (·.get "uniqid")) =
        [.str "SIP-PHONE-1"] ∧ isCanonical (oneMailbox others) = true := by decide
  obtain ⟨hlists, helements, hnames, hcanonical⟩ := hall others (by
    rcases hothers with rfl | rfl <;> simp)
  refine ⟨⟨⟨fun k => hlists k k.mem_all, ?_, ?_⟩, ?_⟩, canonical_of_isCanonical hcanonical⟩
  · intro k e he
    exact ⟨"SIP-PHONE-1", by decide, (helements k k.mem_all e he).2⟩
  · rw [hnames]
    exact List.nodup_singleton _
  · intro k e he u hu
    obtain ⟨rfl, hname⟩ := helements k k.mem_all e he
    rw [hname] at hu
    obtain rfl := Val.str.inj hu
    exact ⟨"SIP-PHONE-", .inl rfl, by decide⟩

theorem firstPhone_oneMailbox {others : List (Key × Val)} (hothers : others = [] ∨ others = emptySections) :
    firstPhone insertionUsort "101" "1234" (oneMailbox others) = some (mailboxPhone "1234") := by
  have hphones : ∀ others ∈ [[], emptySections],
      (pbxGetPhones insertionUsort (indexed (oneMailbox others))).1 = [mailboxPhone "1234"] := by decide
  have hfits : fits "101" "1234" (mailboxPhone "1234") = true := by
    show (true && (Val.str "101").looseEq (.str "101") && (Val.str "1234").looseEq (.str "1234")) = true
    rw [Val.looseEq_self, Val.looseEq_self]
    rfl
  unfold firstPhone
  rw [hphones others (by rcases hothers with rfl | rfl <;> simp), List.find?_cons, hfits]

/-- With empty sections the PIN is written to the first phone. -/
theorem pin_change_oneMailbox : Loaded (oneMailbox emptySections) ∧
    ChangesOnePin insertionUsort "101" "1234" "5678" (oneMailbox emptySections) := by
  refine ⟨loaded_oneMailbox (.inr rfl),
    (pin_change_iff insertionUsort "101" "1234" "5678" (loaded_oneMailbox (.inr rfl))).2
      (.inr (.inr ⟨⟨.phone .iax, rfl⟩, ?_, .sip, mailboxPhone "1234", List.mem_cons_self,
        firstPhone_oneMailbox (.inr rfl), mailboxPhone "1234", rfl, .inl rfl⟩))⟩
  intro t
  cases t <;> decide

/-- Without them a phone is added, with nothing but a PIN. -/
theorem not_pin_change :
    ¬ ∀ (config : Val) (mailbox oldpass newpass : String), Loaded config →
      ChangesOnePin insertionUsort mailbox oldpass newpass config := by
  intro h
  have hchange := h (oneMailbox []) "101" "1234" "5678" (loaded_oneMailbox (.inl rfl))
  rw [changes_iff_of_fits (loaded_oneMailbox (.inl rfl)).wellFormed (t := .sip) List.mem_cons_self
    (firstPhone_oneMailbox (.inl rfl)) (by decide)] at hchange
  revert hchange
  decide

end Pbx
end Askozia
