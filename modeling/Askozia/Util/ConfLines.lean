import Askozia.Asterisk.Sections
import Askozia.Dialplan.Arrivals
import Askozia.Network.Subnets
import Askozia.Pbx.Verify

/-!
# Lines of accounts (`util.inc`)

The generators of `sip.conf` and `iax.conf` paste fields into lines in the same ways: as they are, with
a default, as codecs, or as attributes that were typed in and are kept in base64.
-/

namespace Askozia
namespace Util

open Php Pbx Network Dialplan Asterisk

/-- What the generators ask PHP and the system. -/
structure ConfEnv where
  /-- `network_get_interface($name)` -/
  networkGetInterface : String → Val
  /-- How a number is printed. -/
  number : ℚ → String

/-! ## Lines -/

/-- `util_gen_manual_attributes($ma_array)` -/
def utilGenManualAttributes (maArray : Val) : List ConfLine :=
  if maArray.isArray then
    .comment "manual attributes" :: maArray.vals.map fun ma => .raw (base64Decode ma.toStr)
  else []

/-- A field, or a default if it is false. -/
def fieldOr (p : Val) (field other : String) : String :=
  if (p.get field).truthy then (p.get field).toStr else other

/-- A line for a field, if it is not false. -/
def optionalLine (p : Val) (field : String) : List ConfLine :=
  if (p.get field).truthy then [.setting field (p.get field).toStr] else []

/-- The qualify options of a provider. -/
def qualify (env : ConfEnv) (p : Val) : String :=
  if (p.get "qualify").looseEq (.str "0") then "no"
  else if (p.get "qualify").truthy then env.number (double (toNumber (p.get "qualify").toStr * 1000))
  else "yes"

/-- A line for a codec. -/
def allowLine (codec : Val) : List ConfLine := if strlen codec then [.setting "allow" codec.toStr] else []

/-- The lines for an array of codecs. -/
def allowLines (codec : Val) : List ConfLine := if codec.isArray then codec.vals.flatMap allowLine else []

/-- The attributes that were typed in for an account. -/
def attributeLines (p : Val) : List ConfLine :=
  if (p.get "manualattributes").truthy then
    [.comment "manual attributes", .raw (base64Decode (p.get "manualattributes").toStr),
      .comment "end manual attributes"]
  else []

/-- What a provider is registered with. -/
def registration (registerLine : Val → String) (p : Val) : String :=
  if (p.get "manualregister").truthy then (p.get "manualregister").toStr else registerLine p

/-- The lines of a registration. -/
def registrationLines (registerLine : Val → String) (p : Val) : List ConfLine :=
  if (p.get "noregister").truthy then []
  else [.comment (p.get "name").toStr, .raw (registration registerLine p), .blank]

/-- What stands before the section of a phone. -/
def phoneComments (p : Val) : List ConfLine :=
  [ConfLine.comment ("Caller ID: " ++ (p.get "callerid").toStr)] ++
  if (p.get "descr").truthy then [ConfLine.comment ("Description: " ++ (p.get "descr").toStr)] else []

/-! ## Clean values -/

/-- No text in the value has a semicolon, or a control character but blanks. -/
def Clean (v : Val) : Prop := ∀ c ∈ v.chars, isClean c = true

instance (v : Val) : Decidable (Clean v) := inferInstanceAs (Decidable (∀ c ∈ v.chars, isClean c = true))

section CleanValues

variable {v x : Val} {a b : String}

/-- What is read from a clean value is clean. -/
theorem Clean.idx (h : Clean v) (k : Key) : Clean (v.idx k) := fun c hc => h c (Val.chars_idx hc)

/-- So is each of its fields. -/
theorem Clean.get (h : Clean v) (f : String) : Clean (v.get f) := h.idx _

/-- And each of its elements. -/
theorem Clean.mem_vals (h : Clean v) (hx : x ∈ v.vals) : Clean x := fun c hc => h c (Val.chars_of_mem_vals hx hc)

/-- A digit means nothing to the loader. -/
theorem isClean_of_isDigit {c : Char} (h : c.isDigit = true) : isClean c = true := by
  have hcontrol : ∀ n < 32, (Char.ofNat n).isDigit = false := by decide
  have hlt : ¬ c < ' ' := by
    intro hlt
    have hfalse := hcontrol c.toNat hlt
    rw [Char.ofNat_toNat, h] at hfalse
    cases hfalse
  have hsemicolon : c ≠ ';' := by
    rintro rfl
    revert h
    decide
  unfold isClean
  rw [decide_eq_false hlt, bne_iff_ne.2 hsemicolon]
  rfl

/-- What is printed is a text of the value, or a number or a word. -/
theorem clean_toStr (h : Clean v) : clean v.toStr = true := by
  have hwords : ∀ c ∈ "Array".toList ++ "1".toList, isClean c = true := by decide
  rw [clean_eq_true]
  intro c hc
  by_contra hnot
  refine hnot (h c (Val.mem_chars_of_mem_toStr (fun hmem => hnot (hwords c hmem)) ?_ ?_ hc))
  · rw [← Bool.not_eq_true]
    exact fun hdigit => hnot (isClean_of_isDigit hdigit)
  · rintro rfl
    exact hnot (by decide)

/-- The text of a field of a clean value. -/
theorem clean_get (h : Clean v) (f : String) : clean (v.get f).toStr = true := clean_toStr (h.get f)

/-- Integers are written with digits and a minus. -/
theorem clean_int (n : ℤ) : clean (toString n) = true :=
  clean_toStr (v := .int n) fun _ hc => absurd hc List.not_mem_nil

/-- Natural numbers are written with digits. -/
theorem clean_toString (n : ℕ) : clean (toString n) = true := by
  rw [clean_eq_true]
  exact fun c hc => isClean_of_isDigit (Val.isDigit_of_mem_toString_nat hc)

/-- The key of a value is as clean as what is printed of it. -/
theorem clean_key (h : Clean v) : clean v.key.toStr = true := by
  have hstr := clean_toStr h
  cases v with
  | bool b => cases b <;> decide
  | str s =>
    rcases Val.key_str_cases s with ⟨n, hn, hs⟩ | hs
    · rw [hn]
      show clean (toString n) = true
      rw [hs]
      exact hstr
    · rw [hs]
      exact hstr
  | _ => exact hstr

/-- Either of two texts is clean. -/
theorem clean_if {c : Prop} [Decidable c] (ha : clean a = true) (hb : clean b = true) :
    clean (if c then a else b) = true := by
  split_ifs
  · exact ha
  · exact hb

/-- Clean texts joined with a clean separator. -/
theorem clean_implode {sep : String} (hsep : clean sep = true) {pieces : List String}
    (h : ∀ s ∈ pieces, clean s = true) : clean (implode sep pieces) = true := by
  induction pieces with
  | nil => rfl
  | cons s r ih =>
    cases r with
    | nil => exact h s List.mem_cons_self
    | cons t r =>
      rw [implode, clean_append, clean_append, h s List.mem_cons_self, hsep,
        ih fun x hx => h x (List.mem_cons_of_mem _ hx)]
      · rfl
      · exact fun h => by cases h

/-- The name of a provider's context is made of a fixed text and its `uniqid`. -/
theorem clean_incomingName (h : Clean v) : clean (incomingName v) = true := by
  rw [incomingName, clean_append, clean_get h]
  rfl

end CleanValues

/-! ## Tidy lines -/

/-- The answers of the system and of PHP are clean. -/
structure ConfEnv.Clean (env : ConfEnv) : Prop where
  interface : ∀ name, Util.Clean (env.networkGetInterface name)
  number : ∀ q, clean (env.number q) = true

/-- The attributes that were typed in for an account begin no section, and have nothing foreign in them. -/
def Typed (p : Val) : Prop :=
  (p.get "manualattributes").truthy = true → (ConfLine.raw (base64Decode (p.get "manualattributes").toStr)).Tidy

/-- The texts of an account, the name of its section and what is typed in for it. -/
structure AccountSpelled (field : String) (p : Val) : Prop where
  clean : Clean p
  bracket : ']' ∉ (p.get field).toStr.toList
  typed : Typed p

/-- A registration that is typed in begins no section, and has nothing foreign in it. -/
def RegisterTyped (p : Val) : Prop :=
  (p.get "manualregister").truthy = true → (ConfLine.raw (p.get "manualregister").toStr).Tidy

/-- A line that registers an account. -/
structure RegisterLine (line : String) : Prop where
  clean : clean line = true
  start : ∃ r, line.toList = "register => ".toList ++ r

section Tidy

variable {env : ConfEnv} {p : Val} {option value : String}

/-- A text of one line is pasted in as it is. -/
theorem tidy_raw (h : clean value = true) (hheading : heading? value.toList = none)
    (hcode : isDirective (trimChars blanks value.toList) = false) : (ConfLine.raw value).Tidy := by
  intro line hline
  rw [explodeChars_of_not_mem (newline_not_mem_of_clean h), List.mem_singleton] at hline
  rw [hline]
  exact ⟨hheading, isForeign_of_clean (clean_eq_true.1 h) hcode⟩

/-- The option of a text of one line. -/
theorem options_raw (h : clean value = true) : (ConfLine.raw value).options = (assignment? value.toList).toList := by
  show (explodeChars '\n' value.toList).filterMap assignment? = _
  rw [explodeChars_of_not_mem (newline_not_mem_of_clean h)]
  cases hline : assignment? value.toList with
  | none => exact List.filterMap_cons_none hline
  | some s => exact List.filterMap_cons_some hline

/-- A field with a colon in front, as in a register line. -/
theorem clean_colon (hp : Clean p) (field : String) : clean (":" ++ (p.get field).toStr) = true := by
  rw [clean_append, clean_get hp field]
  rfl

/-- A caller id is made of the name and the extension of a phone. -/
theorem clean_callerid (hp : Clean p) :
    clean ((p.get "callerid").toStr ++ " <" ++ (p.get "extension").toStr ++ ">") = true := by
  rw [clean_append, clean_append, clean_append, clean_get hp, clean_get hp]
  rfl

/-- A field, or what stands in its place when it is not set. -/
theorem clean_fieldOr (hp : Clean p) (field : String) (hother : clean value = true) :
    clean (fieldOr p field value) = true := clean_if (clean_get hp field) hother

/-- The value of `qualify` is a setting of the environment. -/
theorem clean_qualify (henv : env.Clean) : clean (qualify env p) = true := by
  unfold qualify
  split_ifs
  · rfl
  · exact henv.number _
  · rfl

/-- A setting in front of a body, if the loader reads its name and its value as they are. -/
theorem body_setting {a : List ConfLine} (h : ConfLine.isOptionName option = true) (hvalue : clean value = true)
    (ha : Body a) : Body (.setting option value :: a) := body_cons ⟨h, hvalue⟩ rfl ha

/-- A comment in front of a body. -/
theorem body_comment {a : List ConfLine} (h : clean value = true) (ha : Body a) : Body (.comment value :: a) :=
  body_cons h rfl ha

/-- An option that is written only when it is set. -/
theorem body_optionalLine (hp : Clean p) (h : ConfLine.isOptionName option = true) :
    Body (optionalLine p option) :=
  body_ite (fun _ => body_setting h (clean_get hp option) body_nil) fun _ => body_nil

/-- The codecs of an account can be written on one line. -/
theorem body_allowLine (hp : Clean p) : Body (allowLine p) :=
  body_ite (fun _ => body_setting rfl (clean_toStr hp) body_nil) fun _ => body_nil

/-- They can be written on a line each. -/
theorem body_allowLines (hp : Clean p) : Body (allowLines p) :=
  body_ite (fun _ => body_flatMap fun _ hx => body_allowLine (hp.mem_vals hx)) fun _ => body_nil

/-- The manual attributes of an account, which are what was typed. -/
theorem body_attributeLines (h : Typed p) : Body (attributeLines p) :=
  body_ite (fun htruthy => body_comment (by decide) (body_cons (h htruthy) rfl (body_comment (by decide) body_nil)))
    fun _ => body_nil

/-- The same where each is written as a line of its own. -/
theorem body_utilGenManualAttributes
    (h : ∀ ma ∈ p.vals, (ConfLine.raw (base64Decode ma.toStr)).Tidy) : Body (utilGenManualAttributes p) :=
  body_ite (fun _ => body_comment (by decide) (body_map fun ma hma => ⟨h ma hma, rfl⟩)) fun _ => body_nil

/-- An account has the heading its name asks for. -/
theorem tidy_heading (h : AccountSpelled option p) : (ConfLine.heading (p.get option).toStr).Tidy :=
  ⟨clean_get h.clean option, h.bracket⟩

/-- A register line is one line of the file. -/
theorem tidy_registration {registerLine : Val → String} (hline : RegisterLine (registerLine p))
    (h : RegisterTyped p) : (ConfLine.raw (registration registerLine p)).Tidy := by
  unfold registration
  by_cases hmanual : (p.get "manualregister").truthy = true
  · rw [if_pos hmanual]
    exact h hmanual
  · -- a line that begins with an option begins no section, and is no directive
    obtain ⟨r, hr⟩ := hline.start
    have hsplit : "register => ".toList ++ r = "register ".toList ++ '=' :: ('>' :: ' ' :: r) := rfl
    rw [if_neg hmanual]
    apply tidy_raw hline.clean
    · rw [hr]
      exact heading?_of_head (by decide) (by decide)
    · obtain ⟨v, hv⟩ := trimChars_append (a := "register ".toList) (x := '=') (b := '>' :: ' ' :: r)
        (by rintro c ⟨⟩; decide) (by decide)
      rw [hr, hsplit, hv]
      rfl

/-- The register lines stand before the first account. -/
theorem body_registrationLines {registerLine : Val → String} (hp : Clean p)
    (hline : RegisterLine (registerLine p)) (h : RegisterTyped p) : Body (registrationLines registerLine p) :=
  body_ite (fun _ => body_nil) fun _ => body_comment (clean_get hp _)
    (body_cons (tidy_registration hline h) rfl (body_cons trivial rfl body_nil))

/-- What is written above a phone is a comment. -/
theorem body_phoneComments (hp : Clean p) : Body (phoneComments p) := by
  have hcomment : ∀ before field : String, clean before = true → clean (before ++ (p.get field).toStr) = true := by
    intro before field hbefore
    rw [clean_append, hbefore, clean_get hp field]
    rfl
  exact .append (body_comment (hcomment _ _ (by decide)) body_nil)
    (body_ite (fun _ => body_comment (hcomment _ _ (by decide)) body_nil) fun _ => body_nil)

/-- A comment sets nothing. -/
theorem options_phoneComments : (phoneComments p).flatMap ConfLine.options = [] := by
  unfold phoneComments
  split_ifs <;> rfl

end Tidy

/-! ## Options that are left alone -/

/-- The attributes that were typed in for an account do not set the option. -/
def TypedLeaves (option : String) (p : Val) : Prop :=
  (p.get "manualattributes").truthy = true →
    option ∉ (ConfLine.raw (base64Decode (p.get "manualattributes").toStr)).options.map Prod.fst

section Leaves

variable {p : Val} {option field : String}

/-- A setting leaves every other option alone. -/
theorem leaves_setting {value : String} (h : option ≠ field) : Leaves option [.setting field value] :=
  leaves_cons.2 ⟨fun hmem => h (mem_options_setting.1 hmem), leaves_nil⟩

/-- So does one that may be left out. -/
theorem leaves_optionalLine (h : option ≠ field) : Leaves option (optionalLine p field) :=
  leaves_ite (fun _ => leaves_setting h) fun _ => leaves_nil

/-- So do the lines of the codecs. -/
theorem leaves_allowLines (h : option ≠ "allow") : Leaves option (allowLines p) :=
  leaves_ite (fun _ => leaves_flatMap fun _ _ => leaves_ite (fun _ => leaves_setting h) fun _ => leaves_nil)
    fun _ => leaves_nil

/-- So do manual attributes that do not name the option. -/
theorem leaves_attributeLines (h : TypedLeaves option p) : Leaves option (attributeLines p) := by
  refine leaves_ite (fun htruthy => ?_) fun _ => leaves_nil
  exact leaves_cons.2 ⟨List.not_mem_nil, leaves_cons.2 ⟨h htruthy, leaves_cons.2 ⟨List.not_mem_nil, leaves_nil⟩⟩⟩

/-- The registration that is typed in does not set the option. -/
def RegisterLeaves (option : String) (p : Val) : Prop :=
  (p.get "manualregister").truthy = true →
    option ∉ (ConfLine.raw (p.get "manualregister").toStr).options.map Prod.fst

/-- A registration sets `register`. -/
theorem leaves_registrationLines {registerLine : Val → String} (hoption : option ≠ "register")
    (hline : RegisterLine (registerLine p)) (h : RegisterLeaves option p) :
    Leaves option (registrationLines registerLine p) := by
  have hregistration : option ∉ (ConfLine.raw (registration registerLine p)).options.map Prod.fst := by
    unfold registration
    by_cases hmanual : (p.get "manualregister").truthy = true
    · rw [if_pos hmanual]
      exact h hmanual
    · have hassigned : ∃ value, assignment? (registerLine p).toList = some ("register", value) := by
        obtain ⟨r, hr⟩ := hline.start
        rw [hr]
        exact ⟨_, rfl⟩
      obtain ⟨value, hvalue⟩ := hassigned
      rw [if_neg hmanual, options_raw hline.clean, hvalue]
      simpa using hoption
  refine leaves_ite (fun _ => leaves_nil) fun _ => ?_
  simp [hregistration]

/-- The same where each is written as a line of its own. -/
theorem leaves_utilGenManualAttributes
    (h : ∀ ma ∈ p.vals, option ∉ (ConfLine.raw (base64Decode ma.toStr)).options.map Prod.fst) :
    Leaves option (utilGenManualAttributes p) := by
  refine leaves_ite (fun _ => leaves_cons.2 ⟨List.not_mem_nil, fun line hline => ?_⟩) fun _ => leaves_nil
  obtain ⟨ma, hma, rfl⟩ := List.mem_map.1 hline
  exact h ma hma

end Leaves

/-- A network card, and numbers without fractions. -/
def oneCard : ConfEnv where
  networkGetInterface _ := .arr [(.str "ipaddr", .str "192.168.1.2"), (.str "subnet", .int 24), (.str "up", .bool true)]
  number q := toString ⌊q⌋

theorem clean_oneCard : oneCard.Clean where
  interface _ := by
    show Clean (.arr _)
    decide
  number q := clean_int ⌊q⌋

end Util
end Askozia
