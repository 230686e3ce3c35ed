import Askozia.Dahdi.Autoconfigure
import Askozia.Www.Extensions

/-!
# Phones for the ports of the cards (`analog.inc`, `isdn.inc`)

At every boot, after the ports have been configured, each analog port for a phone and each ISDN port
for phones with three channels that is marked `unused` gets a phone with a new extension. The loop
goes through the ports as they were before it; each round writes the configuration twice, and the
next extension is looked for in what the rounds before have left.

* `next_extension_unused`: the search for an extension ends, at one that is not in use;
* `autoconfigure_phones`: every such port gets one phone, under an extension of its own, and
  nothing else changes.
-/

namespace Askozia
namespace Dahdi

open Php Config Pbx Www XmlParse

/-! ## The next extension -/

/-- A text is converted to a number, and numbers are compared as doubles. -/
def equalsNumber (n : ℕ) : Val → Bool
  | .str s => toNumber s == double n
  | v => v.looseEq (.int n)

/-- `in_array($new_extension, $all_extensions)` -/
def taken (all : Val) (n : ℕ) : Bool := all.vals.any (equalsNumber n)

/-- `while (in_array($new_extension, $all_extensions)) $new_extension++;`. The first argument bounds
the number of rounds. -/
def nextFree (all : Val) : ℕ → ℕ → ℕ
  | 0, n => n
  | fuel + 1, n => if taken all n then nextFree all fuel (n + 1) else n

/-- A number above all extensions and above where the loop starts. -/
def largest (all : Val) : ℕ := (all.vals.map fun x => ⌈toNumber x.toStr⌉.toNat).foldr max 101

/-- `pbx_get_next_default_phone_extension()`, from
`$defaults['accounts']['phones']['default-extension-start']` on. -/
def pbxGetNextDefaultPhoneExtension (config : Val) : ℕ :=
  nextFree (pbxGetExtensions config) (2 ^ ((largest (pbxGetExtensions config)).log2 + 1)) 101

/-! ## New phones -/

/-- What `uniqid(rand())` and `rand(1000, 9999)` give for one phone. -/
structure Draw where
  id : String
  vmpin : ℤ

/-- The ports that phones are made for, and the list these are kept in. -/
structure PortKind where
  tech : Tech
  type : String
  totalchannels : Option ℤ
  start : String

/-- The ports of `analog_autoconfigure_phones`. -/
def analogPorts : PortKind := ⟨.analog, "fxs", none, "ANALOG-PHONE-"⟩

/-- The ports of `isdn_autoconfigure_phones`. -/
def isdnPorts : PortKind := ⟨.isdn, "nt", some 3, "ISDN-PHONE-"⟩

/-- `dahdi_get_ports($techfilter, $typefilter, $chancountfilter)` -/
def dahdiGetPortsWith (a : PortKind) (g : Globals) : List Val :=
  (dahdiGetPortsOf a.tech.name a.type g).filter fun port =>
    a.totalchannels.all fun n => (port.get "totalchannels").looseEq (.int n)

/-- The body of `analog_generate_default_phone` and `isdn_generate_default_phone`. There is no
default for `publicaccess`. -/
def generateDefaultPhone (a : PortKind) (d : Draw) (config : Val) : Val :=
  .arr [(.str "extension", .int (pbxGetNextDefaultPhoneExtension config)),
    (.str "callerid", .str "Default Extension"), (.str "language", .str "en-us"),
    (.str "ringlength", .str "indefinitely"), (.str "publicaccess", .null),
    (.str "uniqid", .str (a.start ++ d.id)), (.str "vmpin", .int d.vmpin)]

/-- `analog_generate_default_phone()` -/
def analogGenerateDefaultPhone : Draw → Val → Val := generateDefaultPhone analogPorts

/-- `isdn_generate_default_phone()` -/
def isdnGenerateDefaultPhone : Draw → Val → Val := generateDefaultPhone isdnPorts

/-- The body of `analog_save_phone` and `isdn_save_phone`. -/
def savePhone (a : PortKind) (phone : Val) (g : Globals) : Globals :=
  indexed (saveElement (.phone a.tech) (stored phone) g)

/-- `analog_save_phone($phone)` -/
def analogSavePhone : Val → Globals → Globals := savePhone analogPorts

/-- `isdn_save_phone($phone)` -/
def isdnSavePhone : Val → Globals → Globals := savePhone isdnPorts

/-- The body of the loops over the ports. -/
def configurePhone (a : PortKind) (d : Draw) (g : Globals) (port : Val) : Globals :=
  if (port.get "unused").isset then
    let phone := generateDefaultPhone a d g.config
    let phone := phone.set (.str "port") (port.get "uniqid")
    let g := savePhone a phone g
    dahdiSavePort (port.unset (.str "unused")) g
  else g

/-- The loops over the ports that were there before. -/
def autoconfigurePhones (a : PortKind) (draws : ℕ → Draw) (g : Globals) : Globals :=
  (dahdiGetPortsWith a g).zipIdx.foldl (fun g x => configurePhone a (draws x.2) g x.1) g

/-- `analog_autoconfigure_phones()` -/
def analogAutoconfigurePhones : (ℕ → Draw) → Globals → Globals := autoconfigurePhones analogPorts

/-- `isdn_autoconfigure_phones()` -/
def isdnAutoconfigurePhones : (ℕ → Draw) → Globals → Globals := autoconfigurePhones isdnPorts

/-! ## What the loops are for -/

/-- The port is one of those that phones are made for. -/
def PortKind.takes (a : PortKind) (port : Val) : Bool :=
  (port.get "technology").looseEq (.str a.tech.name) && (port.get "type").looseEq (.str a.type) &&
    a.totalchannels.all fun n => (port.get "totalchannels").looseEq (.int n)

/-- The port is to get a phone. -/
def PortKind.waits (a : PortKind) (port : Val) : Bool := a.takes port && (port.get "unused").isset

/-- The number is none of the extensions in use that are made of digits. -/
def Unused (config : Val) (n : ℕ) : Prop :=
  ∀ kf ∈ extensionFields, ∀ e ∈ elements config kf.1, ∀ s : String, e.get kf.2 = .str s → s ≠ "" →
    (∀ c ∈ s.toList, c.isDigit = true) → Val.digitsValue s.toList ≠ n

/-- Every waiting port has got one phone, under an extension of its own, and waits no longer. The
other ports and elements are what they were. -/
structure Configured (a : PortKind) (config config' : Val) : Prop where
  ports : elements config' .dahdiPort = (elements config .dahdiPort).map fun port =>
    if a.waits port then port.unset (.str "unused") else port
  phones : ∃ (new : List Val) (extensions : List ℕ),
    elements config' (.phone a.tech) = elements config (.phone a.tech) ++ new ∧
    new.map (·.get "port") = ((elements config .dahdiPort).filter a.waits).map (·.get "uniqid") ∧
    (∀ port ∈ elements config .dahdiPort, a.waits port = true →
      (new.map (·.get "port")).count (port.get "uniqid") = 1) ∧
    new.map (·.get "extension") = extensions.map (fun n : ℕ => .str (toString n)) ∧
    extensions.Nodup ∧ ∀ n ∈ extensions, Unused config n
  others : ∀ k, k ≠ .dahdiPort → k ≠ .phone a.tech → elements config' k = elements config k

/-- The new names are new. -/
structure Fresh (a : PortKind) (draws : ℕ → Draw) (config : Val) : Prop where
  unused : ∀ i, ∀ k, ∀ e ∈ elements config k, e.get "uniqid" ≠ .str (a.start ++ (draws i).id)
  distinct : ∀ i j, (draws i).id = (draws j).id → i = j

/-! ## Finding an extension -/

section Extension

variable {all : Val} {n : ℕ}

/-- A power of two is a double. -/
theorem double_two_pow (k : ℕ) : double ((2 ^ k : ℕ) : ℚ) = ((2 ^ k : ℕ) : ℚ) := by
  have hne : ((2 ^ k : ℕ) : ℚ) ≠ 0 := by exact_mod_cast (Nat.two_pow_pos k).ne'
  have hlog : Int.log 2 |((2 ^ k : ℕ) : ℚ)| = k := by
    rw [Nat.abs_cast, Int.log_natCast, Nat.log_pow one_lt_two]
  have hquot : ((2 ^ k : ℕ) : ℚ) / (2 : ℚ) ^ ((k : ℤ) - 52) = ((2 ^ 52 : ℤ) : ℚ) := by
    rw [zpow_sub₀ two_ne_zero]
    push_cast
    field_simp
    norm_num
  unfold double
  rw [if_neg hne]
  dsimp only
  rw [hlog, hquot, roundEven_intCast, ← hquot, div_mul_cancel₀ _ (zpow_pos two_pos _).ne']

/-- Below 2^53 this is the comparison `in_array` makes elsewhere. -/
theorem taken_eq_inArray (hn : n < 2 ^ 53) : taken all n = inArray (.int n) all := by
  unfold taken inArray
  congr 1
  funext x
  cases x with
  | str s =>
    rw [equalsNumber, double_natCast hn, Val.looseEq]
    exact Bool.beq_comm
  | bool b => exact Bool.beq_comm
  | int m => exact Bool.beq_comm
  | _ => rfl

theorem le_largest {x : Val} (hx : x ∈ all.vals) : ⌈toNumber x.toStr⌉.toNat ≤ largest all :=
  List.le_max_of_le' 101 (List.mem_map_of_mem hx) le_rfl

/-- The number the loop would stop at in the end. -/
theorem not_taken_two_pow (hall : ∀ x ∈ all.vals, x ≠ .bool true) :
    taken all (2 ^ ((largest all).log2 + 1)) = false := by
  unfold taken
  rw [List.any_eq_false]
  intro x hx
  have hbelow := le_largest hx
  have hlt : largest all < 2 ^ ((largest all).log2 + 1) := Nat.lt_log2_self
  have hdouble := double_two_pow ((largest all).log2 + 1)
  revert hlt hdouble
  generalize hn : 2 ^ ((largest all).log2 + 1) = n
  intro hlt hdouble
  have htrue : (Val.int n).truthy = true := by
    rw [Val.truthy, bne_iff_ne]
    exact_mod_cast (show n ≠ 0 by omega)
  -- what reads as the number is not among the texts, all of which read as smaller ones
  have hreads : toNumber x.toStr ≠ n := by
    intro heq
    rw [heq, Int.ceil_natCast, Int.toNat_natCast] at hbelow
    omega
  cases x with
  | null => simp [equalsNumber, Val.looseEq, htrue]
  | bool b =>
    cases b with
    | false => simp [equalsNumber, Val.looseEq, htrue]
    | true => exact absurd rfl (hall _ hx)
  | int i =>
    show ¬ (i == (n : ℤ)) = true
    rw [beq_iff_eq]
    rintro rfl
    apply hreads
    exact (toNumber_toString n).trans hdouble
  | str s =>
    rw [equalsNumber, hdouble, beq_iff_eq]
    exact hreads
  | arr es => simp [equalsNumber, Val.looseEq]

/-- The loop stops at the first number that is not taken. -/
theorem nextFree_eq {fuel rounds : ℕ} (htaken : ∀ i < rounds, taken all (n + i) = true)
    (hfree : taken all (n + rounds) = false) (hfuel : rounds < fuel) :
    nextFree all fuel n = n + rounds := by
  induction rounds generalizing fuel n with
  | zero =>
    obtain ⟨fuel, rfl⟩ : ∃ m, fuel = m + 1 := ⟨fuel - 1, by omega⟩
    rw [Nat.add_zero] at hfree
    rw [nextFree, hfree, Nat.add_zero]
    exact if_neg Bool.false_ne_true
  | succ rounds ih =>
    obtain ⟨fuel, rfl⟩ : ∃ m, fuel = m + 1 := ⟨fuel - 1, by omega⟩
    have hfirst : taken all n = true := htaken 0 (by omega)
    have hshift : ∀ i, n + 1 + i = n + (i + 1) := fun i => by omega
    rw [nextFree, if_pos hfirst, ih, hshift]
    · intro i hi
      rw [hshift]
      exact htaken (i + 1) (by omega)
    · rw [hshift]
      exact hfree
    · omega

/-- There is a first number that is not taken. -/
theorem exists_rounds {m : ℕ} (hm : n ≤ m) (hfree : taken all m = false) :
    ∃ rounds ≤ m - n, (∀ i < rounds, taken all (n + i) = true) ∧ taken all (n + rounds) = false := by
  have hex : ∃ i, taken all (n + i) = false := ⟨m - n, by rw [Nat.add_sub_cancel' hm]; exact hfree⟩
  refine ⟨Nat.find hex, Nat.find_min' hex ?_, fun i hi => ?_, Nat.find_spec hex⟩
  · rw [Nat.add_sub_cancel' hm]
    exact hfree
  · exact Bool.eq_true_of_not_eq_false (Nat.find_min hex hi)

theorem log2_largest (all : Val) : 101 < 2 ^ ((largest all).log2 + 1) := by
  have hstart : ∀ ns : List ℕ, 101 ≤ ns.foldr max 101 := by
    intro ns
    induction ns with
    | nil => exact le_rfl
    | cons n r ih => exact le_max_of_le_right ih
  have hle : 101 ≤ largest all := hstart _
  have hlt : largest all < 2 ^ ((largest all).log2 + 1) := Nat.lt_log2_self
  omega

end Extension

/-! ## Elements of a canonical configuration -/

section Canonical

variable {config e : Val} {k : Kind}

theorem canonical_of_mem (hwf : WellFormed config) (h : Canonical (fun _ => True) config)
    (he : e ∈ elements config k) : Canonical (fun _ => True) e := by
  have hlist : listOf config k = .ofList (elements config k) := contiguous_of_mem hwf.lists he
  obtain ⟨items, hitems, hall⟩ := canonical_listOf h k (by rw [hlist]; rfl)
  have heq : elements config k = items := by rw [elements, hitems, Val.vals_ofList]
  exact hall e (heq ▸ he)

/-- What the extensions have to be for the next one to be found. -/
structure Listable (config : Val) : Prop where
  keys : DistinctKeys config
  texts : ∀ kf ∈ extensionFields, ∀ e ∈ elements config kf.1, e.get kf.2 ≠ .bool true

theorem listable_of_canonical (hwf : WellFormed config) (h : Canonical (fun _ => True) config) :
    Listable config := by
  refine ⟨distinctKeys hwf, fun kf hkf e he heq => ?_⟩
  have hfields : ∀ kf ∈ extensionFields, kf.2 ∉ listtags := by decide
  rcases canonical_get (canonical_of_mem hwf h he) (hfields kf hkf) with hnull | hcanonical
  · rw [hnull] at heq
    cases heq
  · rw [heq] at hcanonical
    cases hcanonical

/-- The loop for the next extension comes to an end. -/
theorem next_rounds (h : Listable config) : ∃ rounds,
    taken (pbxGetExtensions config) (101 + rounds) = false ∧
    pbxGetNextDefaultPhoneExtension config = 101 + rounds ∧
    ∀ fuel, rounds < fuel → nextFree (pbxGetExtensions config) fuel 101 = 101 + rounds := by
  have htexts : ∀ x ∈ (pbxGetExtensions config).vals, x ≠ .bool true := by
    intro x hx
    obtain ⟨kf, hkf, e, he, rfl⟩ := (mem_vals_extensions h.keys).1 hx
    exact h.texts kf hkf e he
  have hreach := log2_largest (pbxGetExtensions config)
  obtain ⟨rounds, hle, htaken, hfree⟩ := exists_rounds hreach.le (not_taken_two_pow htexts)
  exact ⟨rounds, hfree, nextFree_eq htaken hfree (by omega), fun fuel => nextFree_eq htaken hfree⟩

/-- The next extension is not in use. -/
theorem not_taken_next (h : Listable config) :
    taken (pbxGetExtensions config) (pbxGetNextDefaultPhoneExtension config) = false := by
  obtain ⟨rounds, hfree, heq, -⟩ := next_rounds h
  rw [heq]
  exact hfree

theorem unused_of_not_taken (h : DistinctKeys config) {n : ℕ}
    (hn : taken (pbxGetExtensions config) n = false) : Unused config n := by
  intro kf hkf e he s hs hne hdigits hvalue
  have hmem : Val.str s ∈ (pbxGetExtensions config).vals :=
    (mem_vals_extensions h).2 ⟨kf, hkf, e, he, hs⟩
  have hother := List.any_eq_false.1 hn _ hmem
  have hnumber : toNumber s = double (Val.digitsValue s.toList) := by
    have hne' : s.toList ≠ [] := fun hnil => hne (String.toList_eq_nil_iff.1 hnil)
    have hspell := toNumber_of_digits hne' hdigits
    rwa [String.ofList_toList] at hspell
  apply hother
  rw [equalsNumber, hnumber, hvalue, beq_self_eq_true]

/-- The loop for the next extension comes to an end, at a number from 101 on that is none of the
extensions made of digits. -/
theorem next_extension_unused {config : Val} (h : Listable config) :
    (∃ rounds, ∀ fuel, rounds < fuel →
      nextFree (pbxGetExtensions config) fuel 101 = pbxGetNextDefaultPhoneExtension config) ∧
    101 ≤ pbxGetNextDefaultPhoneExtension config ∧
    Unused config (pbxGetNextDefaultPhoneExtension config) := by
  obtain ⟨rounds, hfree, heq, hend⟩ := next_rounds h
  refine ⟨⟨rounds, fun fuel hfuel => ?_⟩, by omega, unused_of_not_taken h.keys (not_taken_next h)⟩
  rw [heq]
  exact hend fuel hfuel

/-- A phone with the first extension, a room whose number begins with digits, and a fax without an
extension. -/
def threeExtensions : Val :=
  .arr [(.str "sip", .arr [(.str "phone", .ofList [
      .arr [(.str "uniqid", .str "SIP-PHONE-1"), (.str "extension", .str "0101")]])]),
    (.str "conferencing", .arr [(.str "room", .ofList [
      .arr [(.str "uniqid", .str "CONFERENCE-ROOM-1"), (.str "number", .str "102x")]])]),
    (.str "virtual", .arr [(.str "fax", .ofList [
      .arr [(.str "uniqid", .str "VIRTUAL-FAX-1")]])])]

theorem next_extension_unused_three :
    (∃ rounds, ∀ fuel, rounds < fuel → nextFree (pbxGetExtensions threeExtensions) fuel 101 =
      pbxGetNextDefaultPhoneExtension threeExtensions) ∧
    101 ≤ pbxGetNextDefaultPhoneExtension threeExtensions ∧
    Unused threeExtensions (pbxGetNextDefaultPhoneExtension threeExtensions) := by
  have hkeys : DistinctKeys threeExtensions := by
    unfold DistinctKeys
    decide
  exact next_extension_unused ⟨hkeys, by decide⟩

/-- What is canonical is stored as it is. -/
theorem stored_canonical (h : Canonical (fun _ => True) e) (harray : e.isArray = true) :
    stored e = e := by
  cases h with
  | str _ => cases harray
  | @map es _ _ hes =>
    have hvalue : ∀ x ∈ es, x.2 ≠ .bool false ∧ asStored x.2 = x.2 := by
      intro x hx
      have hentry := hes x hx
      cases hentry with
      | list _ _ _ _ => exact ⟨by simp [Val.ofList], rfl⟩
      | single _ _ hv =>
        cases hv with
        | str _ => exact ⟨by simp, rfl⟩
        | map _ _ _ => exact ⟨by simp, rfl⟩
    have hfilter : es.filter (fun x => x.2 != .bool false) = es := by
      rw [List.filter_eq_self]
      intro x hx
      simpa using (hvalue x hx).1
    have hmap : es.map (fun x => (x.1, asStored x.2)) = es := by
      rw [List.map_congr_left fun x hx => by rw [(hvalue x hx).2]]
      simp
    show Val.arr ((es.filter fun x => x.2 != .bool false).map fun x => (x.1, asStored x.2)) = _
    rw [hfilter, hmap]

/-- Removing a field of an element that has others. -/
theorem canonical_unset (h : Canonical (fun _ => True) e) {field other : String} (hne : other ≠ field)
    (hother : e.get other ≠ .null) : Canonical (fun _ => True) (e.unset (.str field)) := by
  cases h with
  | str _ => exact .str trivial
  | @map es _ hnodup hes =>
    refine .map ?_ ?_ fun x hx => hes x (List.mem_of_mem_filter hx)
    · intro hnil
      have hkey : Key.str other ≠ .str field := fun hk => hne (Key.str.inj hk)
      have hlookup : (es.filter fun x => x.1 != .str field).lookup (.str other) =
          es.lookup (.str other) := Val.lookup_filter_ne hkey
      rw [hnil] at hlookup
      apply hother
      rw [Val.get, Val.idx_arr, ← hlookup]
      rfl
    · exact hnodup.sublist (List.filter_sublist.map Prod.fst)

end Canonical

/-! ## One port -/

section Port

variable {a : PortKind} {config port : Val} {u : String}

/-- The entry of a new phone. -/
def phoneEntry (a : PortKind) (d : Draw) (config port : Val) : Val :=
  stored ((generateDefaultPhone a d config).set (.str "port") (port.get "uniqid"))

theorem phoneEntry_eq (d : Draw) (hu : port.get "uniqid" = .str u) :
    phoneEntry a d config port =
      .arr [(.str "extension", .str (toString (pbxGetNextDefaultPhoneExtension config : ℤ))),
        (.str "callerid", .str "Default Extension"), (.str "language", .str "en-us"),
        (.str "ringlength", .str "indefinitely"), (.str "publicaccess", .str ""),
        (.str "uniqid", .str (a.start ++ d.id)), (.str "vmpin", .str (toString d.vmpin)),
        (.str "port", .str u)] := by
  unfold phoneEntry generateDefaultPhone
  rw [hu]
  rfl

/-- The fields of a new phone. -/
def phoneFields : List String :=
  ["extension", "callerid", "language", "ringlength", "publicaccess", "uniqid", "vmpin", "port"]

theorem canonical_phoneEntry (d : Draw) (hu : port.get "uniqid" = .str u) :
    Canonical (fun _ => True) (phoneEntry a d config port) := by
  rw [phoneEntry_eq d hu]
  have hfields : ∀ field ∈ phoneFields, (Xml.isName field = true ∧ strtolower field = field) ∧
      field ∉ listtags := by decide
  have hnodup : (phoneFields.map Key.str).Nodup := by decide
  refine .map (by simp) hnodup ?_
  intro e he
  have hentry : ∃ field ∈ phoneFields, ∃ s, e = (.str field, .str s) := by
    simp only [List.mem_cons, List.not_mem_nil, or_false] at he
    rcases he with rfl | rfl | rfl | rfl | rfl | rfl | rfl | rfl
    all_goals exact ⟨_, by simp [phoneFields], _, rfl⟩
  obtain ⟨field, hfield, s, rfl⟩ := hentry
  exact .single (hfields field hfield).1 (hfields field hfield).2 (.str trivial)

/-- A port of a technology is no text: the first letter of a text is no technology. -/
theorem isArray_of_takes (hport : Canonical (fun _ => True) port) (h : a.takes port = true) :
    port.isArray = true := by
  cases hport with
  | map _ _ _ => rfl
  | @str s _ =>
    unfold PortKind.takes at h
    rw [Bool.and_eq_true, Bool.and_eq_true] at h
    have htech : ∀ t ∈ technologies, (number? t.name).isNone = true ∧ 1 < t.name.toList.length := by
      decide
    obtain ⟨hnumber, hlong⟩ := htech a.tech (by cases a.tech <;> decide)
    have hfirst := h.1.1
    change (Val.str (String.ofList s.toList.head?.toList)).looseEq (.str a.tech.name) = true at hfirst
    have hshort : s.toList.head?.toList.length ≤ 1 := by cases s.toList.head? <;> simp
    rw [Val.looseEq, Option.isNone_iff_eq_none.1 hnumber] at hfirst
    have heq : String.ofList s.toList.head?.toList = a.tech.name := by
      cases hn : number? (String.ofList s.toList.head?.toList) with
      | none =>
        rw [hn] at hfirst
        exact beq_iff_eq.1 hfirst
      | some q =>
        rw [hn] at hfirst
        exact beq_iff_eq.1 hfirst
    rw [← heq, String.toList_ofList] at hlong
    omega

theorem nodup_elements (hwf : WellFormed config) (k : Kind) : (elements config k).Nodup := by
  obtain ⟨hnodup, -⟩ := List.nodup_flatMap.1 hwf.distinct
  exact List.Nodup.of_map _ (hnodup k k.mem_all)

/-- Replacing one item of a list without repetitions. -/
theorem set_eq_map {xs : List Val} (hxs : xs.Nodup) {i : ℕ} (hi : i < xs.length) (f : Val → Val) :
    xs.set i (f xs[i]) = xs.map fun x => if x = xs[i] then f x else x := by
  apply List.ext_getElem
  · rw [List.length_set, List.length_map]
  · intro j hj hj'
    rw [List.length_set] at hj
    rw [List.getElem_set, List.getElem_map]
    by_cases hij : i = j
    · subst hij
      rw [if_pos rfl, if_pos rfl]
    · have hne : xs[j] ≠ xs[i] := fun heq => hij (hxs.getElem_inj_iff.1 heq).symm
      rw [if_neg hij, if_neg hne]

/-- A waiting port gets its phone, and waits no longer. -/
theorem configurePhone_spec (ha : a.start ≠ "") (hwf : WellFormed config)
    (h : Canonical (fun _ => True) config) (hport : port ∈ elements config .dahdiPort)
    (hwaits : a.waits port = true) {d : Draw}
    (hfresh : ∀ k, ∀ e ∈ elements config k, e.get "uniqid" ≠ .str (a.start ++ d.id)) :
    ∃ config', configurePhone a d (indexed config) port = indexed config' ∧ WellFormed config' ∧
      Canonical (fun _ => True) config' ∧
      elements config' .dahdiPort = (elements config .dahdiPort).map
        (fun q => if q = port then q.unset (.str "unused") else q) ∧
      elements config' (.phone a.tech) =
        elements config (.phone a.tech) ++ [phoneEntry a d config port] ∧
      ∀ k, k ≠ .dahdiPort → k ≠ .phone a.tech → elements config' k = elements config k := by
  obtain ⟨htakes, hunused⟩ := (Bool.and_eq_true _ _ ▸ hwaits : _ ∧ _)
  have hcport := canonical_of_mem hwf h hport
  have harray := isArray_of_takes hcport htakes
  obtain ⟨u, hne, hu⟩ := hwf.uniqids .dahdiPort port hport
  -- the phone is appended
  have hentry : (phoneEntry a d config port).get "uniqid" = .str (a.start ++ d.id) := by
    rw [phoneEntry_eq d hu]
    rfl
  have hname : a.start ++ d.id ≠ "" := fun hc => ha (String.append_eq_empty_iff.1 hc).1
  have hsave := @saveElement_absent config (.phone a.tech) _ _ hwf hfresh hname hentry
  have hwf₁ := @wellFormed_append config (.phone a.tech) _ _ hwf hfresh hname hentry
  have hitems : ∀ x ∈ elements config (.phone a.tech) ++ [phoneEntry a d config port],
      Canonical (fun _ => True) x := by
    intro x hx
    rcases List.mem_append.1 hx with hx | hx
    · exact canonical_of_mem hwf h hx
    · rw [List.mem_singleton.1 hx]
      exact canonical_phoneEntry d hu
  have h₁ := canonical_setList hwf h (k := .phone a.tech) (by simp) hitems
  generalize hconfig₁ : setList config (.phone a.tech)
    (.ofList (elements config (.phone a.tech) ++ [phoneEntry a d config port])) = config₁ at hsave hwf₁ h₁
  have hports₁ : elements config₁ .dahdiPort = elements config .dahdiPort := by
    rw [← hconfig₁]
    exact elements_setList_of_ne (by simp) _
  have hphones₁ : elements config₁ (.phone a.tech) =
      elements config (.phone a.tech) ++ [phoneEntry a d config port] := by
    rw [← hconfig₁]
    exact elements_setList _ _ _
  -- the port takes its place
  have hmem₁ : port ∈ elements config₁ .dahdiPort := hports₁.symm ▸ hport
  obtain ⟨i, hi, hget⟩ := List.getElem_of_mem hmem₁
  have hcleared : Canonical (fun _ => True) (port.unset (.str "unused")) :=
    @canonical_unset port hcport "unused" "uniqid" (by decide) (by rw [hu]; simp)
  have hstored : stored (port.unset (.str "unused")) = port.unset (.str "unused") := by
    apply stored_canonical hcleared
    cases port with
    | arr es => rfl
    | _ => cases harray
  have hu' : (port.unset (.str "unused")).get "uniqid" = .str u := by
    rw [get_unset_of_ne port (by decide), hu]
  have hiu : ((elements config₁ .dahdiPort)[i]).get "uniqid" = .str u := by rw [hget, hu]
  have htrue : ((elements config₁ .dahdiPort)[i]).truthy = true := by
    rw [hget]
    exact truthy_of_isArray harray hu
  have hsave₂ := saveElement_present hwf₁ hi hiu htrue hu'
  have hwf₂ := wellFormed_replace hwf₁ hi hiu hu'
  have hset := set_eq_map (nodup_elements hwf₁ .dahdiPort) hi (fun q => q.unset (.str "unused"))
  rw [hget] at hset
  have hitems₂ : ∀ x ∈ (elements config₁ .dahdiPort).set i (port.unset (.str "unused")),
      Canonical (fun _ => True) x := by
    intro x hx
    rcases List.mem_or_eq_of_mem_set hx with hx | rfl
    · exact canonical_of_mem hwf₁ h₁ hx
    · exact hcleared
  have hnonempty : (elements config₁ .dahdiPort).set i (port.unset (.str "unused")) ≠ [] := by
    intro hnil
    have hlength := congrArg List.length hnil
    rw [List.length_set, List.length_nil] at hlength
    omega
  have h₂ := canonical_setList hwf₁ h₁ (k := .dahdiPort) hnonempty hitems₂
  refine ⟨_, ?_, hwf₂, h₂, ?_, ?_, ?_⟩
  · unfold configurePhone
    rw [if_pos hunused]
    show indexed (saveElement .dahdiPort (stored (port.unset (.str "unused")))
      (indexed (saveElement (.phone a.tech) (phoneEntry a d config port) (indexed config)))) = _
    rw [hsave, hstored, hsave₂]
  · rw [elements_setList, hset, hports₁]
  · rw [elements_setList_of_ne (by simp), hphones₁]
  · intro k hk hk'
    rw [elements_setList_of_ne hk, ← hconfig₁, elements_setList_of_ne hk']

end Port

/-! ## All ports -/

section Ports

variable {a : PortKind} {config : Val} {draws : ℕ → Draw}

/-- What the rounds for some ports make of a port. -/
def clearIn (ports : List Val) (q : Val) : Val :=
  if q ∈ ports ∧ (q.get "unused").isset = true then q.unset (.str "unused") else q

/-- One round after the other. -/
theorem clearIn_cons {p : Val} {r : List Val} (harray : p.isArray = true)
    (hunused : (p.get "unused").isset = true) (q : Val) : (clearIn r ∘ fun q => if q = p then q.unset (.str "unused") else q) q =
      clearIn (p :: r) q := by
  rw [Function.comp_apply]
  by_cases hq : q = p
  · subst hq
    have hnone : ¬ ((q.unset (.str "unused")).get "unused").isset = true := by
      rw [get_unset_self harray]
      simp [Val.isset]
    rw [if_pos rfl, clearIn, if_neg fun hc => hnone hc.2, clearIn, if_pos ⟨List.mem_cons_self, hunused⟩]
  · rw [if_neg hq]
    unfold clearIn
    simp [hq]

/-- What is unused with more elements is unused with fewer. -/
theorem unused_of_append {config' : Val} {new : List Val} {k : Kind}
    (hphones : elements config' k = elements config k ++ new)
    (hothers : ∀ k', k' ≠ .dahdiPort → k' ≠ k → elements config' k' = elements config k') {n : ℕ}
    (h : Unused config' n) : Unused config n := by
  have hkinds : ∀ kf ∈ extensionFields, kf.1 ≠ .dahdiPort := by decide
  intro kf hkf e he
  apply h kf hkf e
  by_cases hown : kf.1 = k
  · rw [hown, hphones, ← hown]
    exact List.mem_append_left _ he
  · rw [hothers kf.1 (hkinds kf hkf) hown]
    exact he

/-- The extension of a new phone is in use. -/
theorem ne_of_unused {config' port : Val} {u : String} {d : Draw} (hu : port.get "uniqid" = .str u)
    (hmem : phoneEntry a d config port ∈ elements config' (.phone a.tech)) {n : ℕ}
    (h : Unused config' n) : pbxGetNextDefaultPhoneExtension config ≠ n := by
  have hfield : ∀ t : Tech, (Kind.phone t, "extension") ∈ extensionFields := by
    intro t
    cases t <;> decide
  have hvalue := Val.digitsValue_toString (pbxGetNextDefaultPhoneExtension config)
  rw [← hvalue]
  refine h _ (hfield a.tech) _ hmem (toString (pbxGetNextDefaultPhoneExtension config)) ?_ ?_ ?_
  · rw [phoneEntry_eq d hu]
    rfl
  · intro hnil
    rw [hnil] at hvalue
    rw [← hvalue] at hnil
    exact absurd hnil (by decide)
  · intro c hc
    exact Val.isDigit_of_mem_toString_nat hc

/-- What the rounds for some ports leave. -/
theorem configurePhones_spec (ha : a.start ≠ "") (hdistinct : ∀ i j, (draws i).id = (draws j).id → i = j)
    {ports : List Val} (hnodup : ports.Nodup) (m : ℕ) (hwf : WellFormed config)
    (h : Canonical (fun _ => True) config)
    (hports : ∀ p ∈ ports, p ∈ elements config .dahdiPort ∧ a.takes p = true)
    (hfresh : ∀ i, m ≤ i → ∀ k, ∀ e ∈ elements config k,
      e.get "uniqid" ≠ .str (a.start ++ (draws i).id)) :
    ∃ config' new, ∃ extensions : List ℕ,
      (ports.zipIdx m).foldl (fun g x => configurePhone a (draws x.2) g x.1) (indexed config) =
        indexed config' ∧
      WellFormed config' ∧ Canonical (fun _ => True) config' ∧
      elements config' .dahdiPort = (elements config .dahdiPort).map (clearIn ports) ∧
      elements config' (.phone a.tech) = elements config (.phone a.tech) ++ new ∧
      new.map (·.get "port") =
        (ports.filter fun p => (p.get "unused").isset).map (·.get "uniqid") ∧
      new.map (·.get "extension") = extensions.map (fun n : ℕ => .str (toString n)) ∧
      extensions.Nodup ∧ (∀ n ∈ extensions, Unused config n) ∧
      ∀ k, k ≠ .dahdiPort → k ≠ .phone a.tech → elements config' k = elements config k := by
  -- the invariant speaks of the ports still to come: they are stored as they were, and their ids unused
  induction ports generalizing config m with
  | nil =>
    have hnone : ∀ q, clearIn [] q = q := fun q => if_neg fun hc => List.not_mem_nil hc.1
    refine ⟨config, [], [], rfl, hwf, h, ?_, by simp, rfl, rfl, List.nodup_nil, by simp, fun _ _ _ => rfl⟩
    rw [List.map_congr_left fun q _ => hnone q, List.map_id']
  | cons p r ih =>
    obtain ⟨hp, hr⟩ := List.nodup_cons.1 hnodup
    obtain ⟨hmem, htakes⟩ := hports p List.mem_cons_self
    have hrest : ∀ q ∈ r, q ∈ elements config .dahdiPort ∧ a.takes q = true :=
      fun q hq => hports q (List.mem_cons_of_mem _ hq)
    rw [List.zipIdx_cons, List.foldl_cons]
    dsimp only
    by_cases hunused : (p.get "unused").isset = true
    · have hwaits : a.waits p = true := by rw [PortKind.waits, htakes, hunused]; rfl
      obtain ⟨config₁, hstep, hwf₁, h₁, hports₁, hphones₁, hothers₁⟩ :=
        configurePhone_spec ha hwf h hmem hwaits (hfresh m le_rfl)
      obtain ⟨u, hne, hu⟩ := hwf.uniqids .dahdiPort p hmem
      -- the other ports keep their mark, since only this one's is cleared
      have hrest₁ : ∀ q ∈ r, q ∈ elements config₁ .dahdiPort ∧ a.takes q = true := by
        intro q hq
        refine ⟨?_, (hrest q hq).2⟩
        have hqp : q ≠ p := fun heq => hp (heq ▸ hq)
        rw [hports₁]
        exact List.mem_map.2 ⟨q, (hrest q hq).1, if_neg hqp⟩
      -- the ids still to be drawn differ from the one just stored
      have hfresh₁ : ∀ i, m + 1 ≤ i → ∀ k, ∀ e ∈ elements config₁ k,
          e.get "uniqid" ≠ .str (a.start ++ (draws i).id) := by
        intro i hi k e he
        have hold := hfresh i (by omega)
        by_cases hk : k = .dahdiPort
        · subst hk
          rw [hports₁] at he
          obtain ⟨q, hq, rfl⟩ := List.mem_map.1 he
          split_ifs
          · rw [get_unset_of_ne q (by decide)]
            exact hold .dahdiPort q hq
          · exact hold .dahdiPort q hq
        · by_cases hk' : k = .phone a.tech
          · subst hk'
            rw [hphones₁] at he
            rcases List.mem_append.1 he with he | he
            · exact hold _ e he
            · rw [List.mem_singleton.1 he, phoneEntry_eq _ hu]
              intro heq
              have hid : a.start ++ (draws m).id = a.start ++ (draws i).id := Val.str.inj heq
              have hsame := hdistinct m i (String.append_right_inj a.start |>.1 hid)
              omega
          · rw [hothers₁ k hk hk'] at he
            exact hold k e he
      obtain ⟨config', new, extensions, hrun, hwf', h', hcleared, hphones, hrefers, hext, hnodups,
        hunuseds, hothers⟩ := ih hr (m + 1) hwf₁ h₁ hrest₁ hfresh₁
      -- the new phone takes its extension, so no later one gets it
      have hentry : phoneEntry a (draws m) config p ∈ elements config₁ (.phone a.tech) := by
        rw [hphones₁]
        exact List.mem_append_right _ List.mem_cons_self
      refine ⟨config', phoneEntry a (draws m) config p :: new,
        pbxGetNextDefaultPhoneExtension config :: extensions, ?_, hwf', h', ?_, ?_, ?_, ?_, ?_, ?_, ?_⟩
      · rw [hstep, hrun]
      · rw [hcleared, hports₁, List.map_map]
        refine List.map_congr_left fun q _ => ?_
        exact clearIn_cons (isArray_of_takes (canonical_of_mem hwf h hmem) htakes) hunused q
      · rw [hphones, hphones₁, List.append_assoc]
        rfl
      · have hfilter : ((p :: r).filter fun p => (p.get "unused").isset) =
            p :: r.filter fun p => (p.get "unused").isset := by
          rw [List.filter_cons, if_pos hunused]
        have hfirst : (phoneEntry a (draws m) config p).get "port" = p.get "uniqid" := by
          rw [phoneEntry_eq _ hu, hu]
          rfl
        rw [hfilter, List.map_cons, List.map_cons, hrefers, hfirst]
      · have hfirst : (phoneEntry a (draws m) config p).get "extension" =
            .str (toString (pbxGetNextDefaultPhoneExtension config)) := by
          rw [phoneEntry_eq _ hu]
          rfl
        rw [List.map_cons, List.map_cons, hext, hfirst]
      · refine List.nodup_cons.2 ⟨fun hagain => ?_, hnodups⟩
        exact ne_of_unused hu hentry (hunuseds _ hagain) rfl
      · intro n hn
        rcases List.mem_cons.1 hn with rfl | hn
        · exact unused_of_not_taken (distinctKeys hwf) (not_taken_next (listable_of_canonical hwf h))
        · exact unused_of_append hphones₁ hothers₁ (hunuseds n hn)
      · intro k hk hk'
        rw [hothers k hk hk', hothers₁ k hk hk']
    · have hskip : configurePhone a (draws m) (indexed config) p = indexed config := by
        unfold configurePhone
        rw [if_neg hunused]
      rw [hskip]
      obtain ⟨config', new, extensions, hrun, hwf', h', hcleared, hphones, hrefers, hext⟩ :=
        ih hr (m + 1) hwf h hrest fun i hi => hfresh i (by omega)
      refine ⟨config', new, extensions, hrun, hwf', h', ?_, hphones, ?_, hext⟩
      · rw [hcleared]
        refine List.map_congr_left fun q _ => ?_
        unfold clearIn
        by_cases hq : q = p
        · subst hq
          simp [hunused]
        · simp [hq]
      · have hfilter : ((p :: r).filter fun p => (p.get "unused").isset) =
            r.filter fun p => (p.get "unused").isset := by
          rw [List.filter_cons, if_neg hunused]
        rw [hrefers, hfilter]

/-- The ports of the loops are the stored ones that phones are made for. -/
theorem dahdiGetPortsWith_eq (g : Globals) :
    dahdiGetPortsWith a g = (elements g.config .dahdiPort).filter a.takes := by
  unfold dahdiGetPortsWith dahdiGetPortsOf dahdiGetPorts
  rw [List.filter_filter]
  refine List.filter_congr fun port _ => ?_
  unfold PortKind.takes
  rw [Bool.and_comm]

/-- Rounds for ports that do not wait do nothing. -/
theorem foldl_skip {ports : List (Val × ℕ)} (hnone : ∀ x ∈ ports, (x.1.get "unused").isset = false)
    (g : Globals) :
    ports.foldl (fun g x => configurePhone a (draws x.2) g x.1) g = g := by
  induction ports with
  | nil => rfl
  | cons x r ih =>
    have hskip : configurePhone a (draws x.2) g x.1 = g := by
      unfold configurePhone
      rw [hnone x List.mem_cons_self]
      rfl
    rw [List.foldl_cons, hskip]
    exact ih fun y hy => hnone y (List.mem_cons_of_mem _ hy)

/-- A run over the ports of a kind. -/
theorem configured (ha : a.start ≠ "") (hwf : WellFormed config)
    (h : Canonical (fun _ => True) config) (hfresh : Fresh a draws config) :
    ∃ config', autoconfigurePhones a draws (indexed config) = indexed config' ∧
      Configured a config config' ∧
      ∀ draws', autoconfigurePhones a draws' (indexed config') = indexed config' := by
  have hnodup : ((elements config .dahdiPort).filter a.takes).Nodup :=
    (nodup_elements hwf .dahdiPort).filter _
  have hports : ∀ p ∈ (elements config .dahdiPort).filter a.takes,
      p ∈ elements config .dahdiPort ∧ a.takes p = true := fun p hp => List.mem_filter.1 hp
  obtain ⟨config', new, extensions, hrun, hwf', h', hcleared, hphones, hrefers, hext, hnodups, hunuseds,
    hothers⟩ := configurePhones_spec ha hfresh.distinct hnodup 0 hwf h hports
      fun i _ => hfresh.unused i
  have hclear : ∀ q ∈ elements config .dahdiPort,
      clearIn ((elements config .dahdiPort).filter a.takes) q =
        if a.waits q then q.unset (.str "unused") else q := by
    intro q hq
    unfold clearIn PortKind.waits
    simp [List.mem_filter, hq]
  have hwaiting : ((elements config .dahdiPort).filter a.takes).filter (fun p => (p.get "unused").isset) =
      (elements config .dahdiPort).filter a.waits := by
    rw [List.filter_filter]
    refine List.filter_congr fun port _ => ?_
    unfold PortKind.waits
    rw [Bool.and_comm]
  rw [List.map_congr_left hclear] at hcleared
  rw [hwaiting] at hrefers
  -- each waiting port has one phone: the names of the ports are distinct
  have hone : ∀ port ∈ elements config .dahdiPort, a.waits port = true →
      (new.map (·.get "port")).count (port.get "uniqid") = 1 := by
    intro port hport hwaits
    obtain ⟨hnames, -⟩ := List.nodup_flatMap.1 hwf.distinct
    have hdistinct := hnames .dahdiPort (Kind.mem_all _)
    rw [hrefers]
    refine List.count_eq_one_of_mem ?_ (List.mem_map_of_mem (List.mem_filter.2 ⟨hport, hwaits⟩))
    exact hdistinct.sublist (List.filter_sublist.map _)
  refine ⟨config', ?_, ⟨hcleared, ⟨new, extensions, hphones, hrefers, hone, hext, hnodups, hunuseds⟩,
    hothers⟩, ?_⟩
  · unfold autoconfigurePhones
    rw [dahdiGetPortsWith_eq]
    exact hrun
  · -- a second run finds no mark left
    intro draws'
    unfold autoconfigurePhones
    apply foldl_skip
    intro x hx
    have hmem : x.1 ∈ dahdiGetPortsWith a (indexed config') := List.fst_mem_of_mem_zipIdx hx
    rw [dahdiGetPortsWith_eq] at hmem
    obtain ⟨hport, htakes⟩ := List.mem_filter.1 hmem
    change x.1 ∈ elements config' .dahdiPort at hport
    rw [hcleared] at hport
    obtain ⟨q, hq, heq⟩ := List.mem_map.1 hport
    by_cases hwaits : a.waits q = true
    · rw [if_pos hwaits] at heq
      have hqtakes : a.takes q = true := (Bool.and_eq_true _ _ ▸ hwaits : _ ∧ _).1
      rw [← heq, get_unset_self (isArray_of_takes (canonical_of_mem hwf h hq) hqtakes)]
      rfl
    · rw [if_neg hwaits] at heq
      rw [PortKind.waits, heq, htakes, Bool.true_and, Bool.not_eq_true] at hwaits
      exact hwaits

end Ports

/-- Every analog port for a phone and every ISDN port for phones with three channels that is marked
`unused` gets one phone, under an extension of its own, and nothing else changes. -/
theorem autoconfigure_phones {config : Val} (hwf : WellFormed config)
    (h : Canonical (fun _ => True) config) {draws : ℕ → Draw} (hanalog : Fresh analogPorts draws config)
    (hisdn : Fresh isdnPorts draws config) :
    (∃ config', analogAutoconfigurePhones draws (indexed config) = indexed config' ∧
      Configured analogPorts config config' ∧
      ∀ draws', analogAutoconfigurePhones draws' (indexed config') = indexed config') ∧
    ∃ config', isdnAutoconfigurePhones draws (indexed config) = indexed config' ∧
      Configured isdnPorts config config' ∧
      ∀ draws', isdnAutoconfigurePhones draws' (indexed config') = indexed config' :=
  ⟨configured (by decide) hwf h hanalog, configured (by decide) hwf h hisdn⟩

/-- An analog and an ISDN port that wait for phones, and a phone that has the first extension. -/
def twoPorts : Val :=
  .arr [(.str "interfaces", .arr [(.str "dahdi-port", .ofList [
      .arr [(.str "uniqid", .str "DAHDIPORT-ANALOG-1"), (.str "technology", .str "analog"),
        (.str "type", .str "fxs"), (.str "unused", .str "")],
      .arr [(.str "uniqid", .str "DAHDIPORT-ISDN-1"), (.str "technology", .str "isdn"),
        (.str "type", .str "nt"), (.str "totalchannels", .str "3"), (.str "unused", .str "")]])]),
    (.str "sip", .arr [(.str "phone", .ofList [
      .arr [(.str "uniqid", .str "SIP-PHONE-1"), (.str "extension", .str "101")]])])]

/-- Draws without repetitions. -/
def countedDraws (i : ℕ) : Draw := ⟨toString i, 1000⟩

theorem fresh_twoPorts {a : PortKind} (ha : a.start = "ANALOG-PHONE-" ∨ a.start = "ISDN-PHONE-") :
    Fresh a countedDraws twoPorts := by
  constructor
  · intro i k e he hu
    have hstarts : ∀ k ∈ Kind.all, ∀ e ∈ elements twoPorts k,
        "ANALOG-PHONE-".toList.isPrefixOf (e.get "uniqid").toStr.toList = false ∧
          "ISDN-PHONE-".toList.isPrefixOf (e.get "uniqid").toStr.toList = false := by decide
    have hother := hstarts k k.mem_all e he
    have hstart : a.start.toList.isPrefixOf (e.get "uniqid").toStr.toList = true := by
      rw [hu, List.isPrefixOf_iff_prefix]
      show a.start.toList <+: (a.start ++ (countedDraws i).id).toList
      rw [String.toList_append]
      exact List.prefix_append _ _
    rcases ha with ha | ha
    · rw [ha, hother.1] at hstart
      cases hstart
    · rw [ha, hother.2] at hstart
      cases hstart
  · intro i j hij
    have hvalue := congrArg (fun s => Val.digitsValue (String.toList s)) hij
    have hi : Val.digitsValue (countedDraws i).id.toList = i := Val.digitsValue_toString i
    have hj : Val.digitsValue (countedDraws j).id.toList = j := Val.digitsValue_toString j
    rw [hi, hj] at hvalue
    exact hvalue

theorem autoconfigure_phones_twoPorts :
    (∃ config', analogAutoconfigurePhones countedDraws (indexed twoPorts) = indexed config' ∧
      Configured analogPorts twoPorts config' ∧
      ∀ draws', analogAutoconfigurePhones draws' (indexed config') = indexed config') ∧
    ∃ config', isdnAutoconfigurePhones countedDraws (indexed twoPorts) = indexed config' ∧
      Configured isdnPorts twoPorts config' ∧
      ∀ draws', isdnAutoconfigurePhones draws' (indexed config') = indexed config' :=
  autoconfigure_phones (wellFormed_of_all (by decide) (by decide) (by decide))
    (canonical_of_isCanonical (by decide)) (fresh_twoPorts (.inl rfl)) (fresh_twoPorts (.inr rfl))

end Dahdi
end Askozia
