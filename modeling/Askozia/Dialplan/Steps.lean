import Askozia.Dialplan.Reading
import Askozia.Php.Chars

/-!
# Steps of extensions

The generators of `Askozia.Dialplan.Extensions` write steps of one extension, each with priority
`n`, when the texts stored in the configuration have no line breaks and no generator falls through
all of its cases.

* `Steps` says that some lines are such steps, and names only certain contexts;
* `steps_fromUniqid` is what the generator for a destination writes.
-/

namespace Askozia
namespace Dialplan

open Php Config Pbx Asterisk

/-- No text in the value has a line break. -/
def Unbroken (v : Val) : Prop := '\n' ∉ v.chars

instance (v : Val) : Decidable (Unbroken v) := inferInstanceAs (Decidable ('\n' ∉ v.chars))

/-! ## Values -/

section Values

variable {v x : Val} {g : Globals}

/-- What stands under a key of an unbroken value is unbroken. -/
theorem Unbroken.idx (h : Unbroken v) (k : Key) : Unbroken (v.idx k) :=
  fun hmem => h (Val.chars_idx hmem)

/-- A field of an unbroken value is unbroken. -/
theorem Unbroken.get (h : Unbroken v) (f : String) : Unbroken (v.get f) := h.idx _

/-- The elements of an unbroken list are unbroken. -/
theorem Unbroken.mem_vals (h : Unbroken v) (hx : x ∈ v.vals) : Unbroken x :=
  fun hmem => h (Val.chars_of_mem_vals hx hmem)

/-- An unbroken value is written on one line. -/
theorem oneLine_toStr (h : Unbroken v) : oneLine v.toStr = true := by
  rw [oneLine_eq_true]
  intro hmem
  exact h (Val.mem_chars_of_mem_toStr (by decide) (by decide) (by decide) hmem)

/-- So is each of its fields. -/
theorem oneLine_get (h : Unbroken v) (f : String) : oneLine (v.get f).toStr = true :=
  oneLine_toStr (h.get f)

/-- Whatever the index leads to, it comes from the configuration. -/
theorem unbroken_getElement (h : Unbroken g.config) (k : Kind) (u : String) :
    Unbroken (getElement g k u) :=
  ((h.get _).get _).idx _

theorem unbroken_null : Unbroken .null := by simp [Unbroken]

/-- The provider that is looked up is unbroken when the configuration is. -/
theorem unbroken_pbxGetProvider (h : Unbroken g.config) (u : String) :
    Unbroken (pbxGetProvider g u) := by
  unfold pbxGetProvider
  split_ifs
  · exact unbroken_getElement h _ _
  · exact unbroken_getElement h _ _
  · exact unbroken_getElement h _ _
  · exact unbroken_getElement h _ _
  · exact unbroken_null

/-- The phone that is looked up, or the error text in its place, is unbroken. -/
theorem unbroken_pbxGetPhone (h : Unbroken g.config) (u : String) :
    Unbroken (pbxGetPhone g u) := by
  unfold pbxGetPhone
  split_ifs
  · exact unbroken_getElement h _ _
  · exact unbroken_getElement h _ _
  · exact unbroken_getElement h _ _
  · exact unbroken_getElement h _ _
  · exact unbroken_getElement h _ _
  · exact unbroken_getElement h _ _
  · rw [Unbroken, Val.chars_str]
    decide

/-- The number of a port or a port group is read from the configuration. -/
theorem oneLine_dahdiGetGnumber (h : Unbroken g.config) (u : String) :
    oneLine (dahdiGetGnumber g u) = true := by
  unfold dahdiGetGnumber
  split_ifs
  · exact oneLine_get (unbroken_getElement h _ _) _
  · exact oneLine_get (unbroken_getElement h _ _) _
  · decide

/-- Writing `${name}` adds no end of line. -/
@[simp] theorem oneLine_var (name : String) : oneLine (var name) = oneLine name := by
  have hopen : oneLine "$\x7b" = true := oneLine_ofList _ rfl
  have hclose : oneLine "\x7d" = true := oneLine_ofList _ rfl
  rw [var, oneLine_append, oneLine_append, hopen, hclose, Bool.true_and, Bool.and_true]

theorem oneLine_varOf {name : String} (h : oneLine name = true) : oneLine (var name) = true := by
  rwa [oneLine_var]

/-- The ring length of a phone is one of its fields or a default. -/
theorem oneLine_ringlength (h : Unbroken v) : oneLine (ringlength v) = true := by
  unfold ringlength
  split_ifs
  · decide
  · exact oneLine_get h _

end Values

/-! ## Steps -/

/-- A step after the first one of its extension, which names only contexts in `T`. -/
structure IsStep (T : String → Prop) (rest : String) : Prop where
  next : isNext rest = true
  opens : opens rest = true
  closes : closes rest = true
  oneLine : oneLine rest = true
  targets : ∀ t ∈ restTargets rest, T t

/-- Steps of one extension, each after its first. -/
def Steps (T : String → Prop) (exten : String) (lines : List Line) : Prop :=
  ∀ line ∈ lines, ∃ rest, line = .exten exten rest ∧ IsStep T rest

section Steps

variable {T : String → Prop} {exten rest : String} {a b : List Line}

/-- A line without an application that could go elsewhere is a step. -/
theorem isStep_calm (hcalm : calm rest = true) (hcloses : Dialplan.closes rest = true)
    (hone : Dialplan.oneLine rest = true) : IsStep T rest := by
  simp only [calm, Bool.and_eq_true] at hcalm
  refine ⟨hcalm.1.1, hcalm.1.2, hcloses, hone, ?_⟩
  rw [restTargets_of_quiet hcalm.2]
  intro t ht
  cases ht

/-- A step with a fixed text. -/
theorem isStep_fixed (cs : List Char) (h : (isNextChars cs && opensChars cs && quietChars cs &&
    cs.getLast? == some ')' && !cs.contains '\n') = true) : IsStep T (String.ofList cs) := by
  simp only [Bool.and_eq_true, beq_iff_eq, Bool.not_eq_true'] at h
  obtain ⟨⟨⟨⟨hnext, hopens⟩, hquiet⟩, hlast⟩, hone⟩ := h
  apply isStep_calm _ (closes_ofList cs hlast) (oneLine_ofList cs hone)
  exact calm_ofList cs (by rw [hnext, hopens, hquiet]; rfl)

theorem steps_nil : Steps T exten [] := by
  intro line h
  cases h

/-- An extension consists of steps line by line. -/
theorem steps_cons : Steps T exten (.exten exten rest :: a) ↔ IsStep T rest ∧ Steps T exten a := by
  unfold Steps
  constructor
  · intro h
    obtain ⟨rest', heq, hstep⟩ := h _ List.mem_cons_self
    rw [Line.exten.injEq] at heq
    rw [heq.2]
    exact ⟨hstep, fun line hl => h line (List.mem_cons_of_mem _ hl)⟩
  · rintro ⟨hstep, h⟩ line hl
    rcases List.mem_cons.1 hl with rfl | hl
    · exact ⟨rest, rfl, hstep⟩
    · exact h line hl

theorem steps_singleton (h : IsStep T rest) : Steps T exten [.exten exten rest] :=
  steps_cons.2 ⟨h, steps_nil⟩

/-- Two runs of steps of one extension make one. -/
theorem Steps.append (ha : Steps T exten a) (hb : Steps T exten b) : Steps T exten (a ++ b) := by
  intro line hl
  rcases List.mem_append.1 hl with hl | hl
  · exact ha line hl
  · exact hb line hl

/-- Lines that are written under a condition are steps if they are when it holds. -/
theorem steps_linesIf {c : Bool} (h : Steps T exten a) : Steps T exten (linesIf c a) := by
  unfold linesIf
  split_ifs
  · exact h
  · exact steps_nil

end Steps

/-! ## Extensions -/

section Extensions

variable {T : String → Prop} {g : Globals} {p : Val} {exten : String} {fromPublic : Bool}
  {readbacknum extension : Option String}

/-- Setting the variables for the notification of calls is made of steps. -/
theorem steps_generateCallNotificationVariables (hp : Unbroken p) :
    Steps T exten (generateCallNotificationVariables exten p) := by
  unfold generateCallNotificationVariables
  apply Steps.append
  · apply steps_linesIf
    exact steps_singleton (isStep_fixed _ rfl)
  · apply steps_linesIf
    refine steps_cons.2 ⟨isStep_fixed _ rfl, steps_singleton ?_⟩
    exact isStep_calm (calm_append (calm_append (calm_ofList _ rfl)))
      (closes_append (closes_ofList _ rfl)) (oneLine_between _ _ rfl rfl (oneLine_get hp _))

/-- A call of the main macro is a step, whatever number is read back. -/
theorem isStep_macroMain {dial phoneExten ring : String} {readbacknum : String}
    (hd : oneLine dial = true) (hp : oneLine phoneExten = true) (hr : oneLine readbacknum = true)
    (hring : oneLine ring = true) :
    IsStep T (macroMain dial phoneExten readbacknum fromPublic ring) := by
  have hflags : oneLine (transferFlags fromPublic) = true := by
    cases fromPublic <;> decide
  unfold macroMain
  apply isStep_calm
  · simp only [String.append_assoc]
    exact calm_append (calm_ofList _ rfl)
  · exact closes_append (closes_ofList _ rfl)
  · simp only [oneLine_append, hd, hp, hr, hring, hflags, Bool.and_eq_true, and_true]
    and_intros <;> exact oneLine_ofList _ rfl

theorem oneLine_getD {x : String} {o : Option String} (ho : ∀ y ∈ o, oneLine y = true)
    (hx : oneLine x = true) : oneLine (o.getD x) = true := by
  cases o with
  | none => exact hx
  | some y => exact ho y rfl

/-- The extension of an internal phone consists of steps, if its id names a technology. -/
theorem steps_generateInternalPhoneExtension (hg : Unbroken g.config) (hp : Unbroken p)
    (hr : ∀ r ∈ readbacknum, oneLine r = true) (he : ∀ e ∈ extension, oneLine e = true)
    (htech : ∀ u, pbxUniqidToTechnology (p.get "uniqid").toStr ≠ .failed u) :
    Steps T (extension.getD (p.get "extension").toStr)
      (generateInternalPhoneExtension g p fromPublic readbacknum extension) := by
  have hext := oneLine_get hp "extension"
  have hback := oneLine_getD hr (oneLine_getD he hext)
  have hmain : ∀ dial back, oneLine dial = true → oneLine back = true →
      Steps T (extension.getD (p.get "extension").toStr)
        [.exten (extension.getD (p.get "extension").toStr)
          (macroMain dial (p.get "extension").toStr back fromPublic (ringlength p))] :=
    fun dial back hd hb => steps_singleton (isStep_macroMain hd hext hb (oneLine_ringlength hp))
  -- the number read back is the given one or the phone's own
  have hnum : oneLine (if verifyIsNumericint
      (readbacknum.getD (extension.getD (p.get "extension").toStr)) = true then
      readbacknum.getD (extension.getD (p.get "extension").toStr)
      else (p.get "extension").toStr) = true := by
    split_ifs
    · exact hback
    · exact hext
  unfold generateInternalPhoneExtension
  apply Steps.append
  · apply Steps.append _ (steps_generateCallNotificationVariables hp)
    refine steps_cons.2 ⟨isStep_fixed _ rfl, steps_singleton ?_⟩
    apply isStep_calm
    · simp only [String.append_assoc]
      exact calm_append (calm_ofList _ rfl)
    · exact closes_append (closes_ofList _ rfl)
    · simp only [oneLine_append, oneLine_var, hext, Bool.and_eq_true, and_true]
      and_intros <;> exact oneLine_ofList _ rfl
  · cases htec : pbxUniqidToTechnology (p.get "uniqid").toStr with
    | failed u => exact absurd htec (htech u)
    | sip => exact hmain _ _ (oneLine_after _ rfl hext) hnum
    | iax2 => exact hmain _ _ (oneLine_after _ rfl hext) hnum
    | skinny =>
      apply hmain _ _ _ hnum
      rw [oneLine_append, oneLine_between _ _ rfl rfl hext, hext]
      rfl
    | dahdi => exact hmain _ _ (oneLine_after _ rfl (oneLine_dahdiGetGnumber hg _)) hnum

/-- The extension of an external phone consists of steps, if its dial provider can dial. -/
theorem steps_generateExternalPhoneExtension (hg : Unbroken g.config) (hp : Unbroken p)
    (hr : ∀ r ∈ readbacknum, oneLine r = true) (he : ∀ e ∈ extension, oneLine e = true)
    (htech : (externalTechnology p).1 = .sip ∨ (externalTechnology p).1 = .iax2 ∨
      (externalTechnology p).1 = .dahdi) :
    Steps T (extension.getD (p.get "extension").toStr)
      (generateExternalPhoneExtension g p fromPublic readbacknum extension) := by
  have hext := oneLine_get hp "extension"
  have hdial := oneLine_get hp "dialstring"
  have hprov := oneLine_get hp "dialprovider"
  have hback := oneLine_getD hr (oneLine_getD he hext)
  have hmain : ∀ dial back, oneLine dial = true → oneLine back = true →
      Steps T (extension.getD (p.get "extension").toStr)
        [.exten (extension.getD (p.get "extension").toStr)
          (macroMain dial (p.get "extension").toStr back fromPublic (ringlength p))] :=
    fun dial back hd hb => steps_singleton (isStep_macroMain hd hext hb (oneLine_ringlength hp))
  have hnum : oneLine (if verifyIsNumericint
      (readbacknum.getD (extension.getD (p.get "extension").toStr)) = true then
      (p.get "extension").toStr
      else readbacknum.getD (extension.getD (p.get "extension").toStr)) = true := by
    split_ifs
    · exact hext
    · exact hback
  unfold generateExternalPhoneExtension
  apply Steps.append (steps_generateCallNotificationVariables hp)
  rcases htec : externalTechnology p with ⟨tech, direct⟩
  rw [htec] at htech
  -- through a provider the channel is its id and the dial string
  have hthrough : ∀ (cs : List Char) (s : String), cs.contains '\n' = false → oneLine s = true →
      oneLine (String.ofList cs ++ s ++ "/" ++ (p.get "dialstring").toStr) = true := by
    intro cs s hcs hs
    rw [oneLine_append, oneLine_between cs _ hcs rfl hs, hdial]
    rfl
  rcases htech with rfl | rfl | rfl
  · cases direct with
    | true => exact hmain _ _ (oneLine_after _ rfl hdial) hnum
    | false => exact hmain _ _ (hthrough _ _ rfl hprov) hnum
  · cases direct with
    | true => exact hmain _ _ (oneLine_after _ rfl hdial) hnum
    | false => exact hmain _ _ (hthrough _ _ rfl hprov) hnum
  · exact hmain _ _ (hthrough _ _ rfl (oneLine_dahdiGetGnumber hg _)) hnum

/-- The name of a technology is one line; an error repeats the id that failed. -/
theorem oneLine_technology {t : Technology} (h : ∀ u, t = .failed u → oneLine u = true) :
    oneLine t.toStr = true := by
  cases t with
  | failed u =>
    show oneLine ("ERROR:UNIQID_TO_TECHNOLOGY_FAILED(" ++ u ++ ")") = true
    exact oneLine_between _ _ rfl rfl (h u rfl)
  | _ => exact oneLine_ofList _ rfl

theorem oneLine_pbxUniqidToTechnology {u : String} (h : oneLine u = true) :
    oneLine (pbxUniqidToTechnology u).toStr = true := by
  apply oneLine_technology
  intro v hv
  unfold pbxUniqidToTechnology at hv
  split at hv
  all_goals cases hv
  exact h

/-- The dialstring of a phone is put together from fields of the configuration. -/
theorem oneLine_phoneUniqidToDialstring (hg : Unbroken g.config) (u : String) :
    oneLine (phoneUniqidToDialstring g u) = true := by
  have hphone := unbroken_pbxGetPhone hg u
  have hext := oneLine_get hphone "extension"
  have hdial := oneLine_get hphone "dialstring"
  have hprov := oneLine_get hphone "dialprovider"
  unfold phoneUniqidToDialstring
  simp only
  split_ifs
  · exact oneLine_after _ rfl hext
  · exact oneLine_after _ rfl hext
  · exact oneLine_after _ rfl hext
  · exact oneLine_after _ rfl (oneLine_get (unbroken_getElement hg _ _) _)
  · exact oneLine_after _ rfl hdial
  · exact oneLine_after _ rfl hdial
  · rw [oneLine_append, oneLine_between _ _ rfl rfl (oneLine_dahdiGetGnumber hg _), hdial]
    rfl
  · rw [oneLine_append, oneLine_append, oneLine_append, oneLine_append, hdial, hprov,
      oneLine_pbxUniqidToTechnology hprov, oneLine_ofList _ rfl]
    rfl
  · exact oneLine_ofList _ rfl

/-- Joining lines with a separator on one line gives one line. -/
theorem oneLine_implode {sep : String} (hsep : oneLine sep = true) {pieces : List String}
    (h : ∀ s ∈ pieces, oneLine s = true) : oneLine (implode sep pieces) = true := by
  induction pieces with
  | nil => rfl
  | cons s r ih =>
    cases r with
    | nil => exact h s List.mem_cons_self
    | cons t r =>
      rw [implode, oneLine_append, oneLine_append, h s List.mem_cons_self, hsep,
        ih fun x hx => h x (List.mem_cons_of_mem _ hx)]
      rfl
      exact fun h => by cases h

/-- The dialstring of several phones is one line. -/
theorem oneLine_phoneUniqidsToDialstring (hg : Unbroken g.config) (members : Val) :
    oneLine (phoneUniqidsToDialstring g members) = true := by
  apply oneLine_implode (oneLine_ofList _ rfl)
  intro s hs
  obtain ⟨u, -, rfl⟩ := List.mem_map.1 hs
  exact oneLine_phoneUniqidToDialstring hg _

/-- The extension of a call group consists of steps. -/
theorem steps_generateCallgroupExtension (hg : Unbroken g.config) (hp : Unbroken p)
    (hr : ∀ r ∈ readbacknum, oneLine r = true) :
    Steps T (extension.getD (p.get "extension").toStr)
      (generateCallgroupExtension g p fromPublic readbacknum extension) := by
  unfold generateCallgroupExtension
  split_ifs
  · exact steps_nil
  · have hphone := unbroken_pbxGetPhone hg (((p.get "groupmember").idx (.int 0)).toStr)
    have hext := oneLine_get hphone "extension"
    apply Steps.append (steps_generateCallNotificationVariables hphone)
    exact steps_singleton (isStep_macroMain (oneLine_phoneUniqidsToDialstring hg _) hext
      (oneLine_getD hr hext) (oneLine_ringlength hp))

end Extensions

/-! ## Destinations -/

/-- A `uniqid` as the system makes them. -/
def plainId (u : String) : Bool := !u.toList.isEmpty && u.toList.all isWordChar

/-- Such a `uniqid`, or none: that of an element that is not stored. -/
def wordId (u : String) : Bool := u.toList.all isWordChar

/-- What a destination is, by the words of its `uniqid`. -/
inductive DestKind where
  | externalPhone
  | phone
  | room
  | virtualFax
  | analogFax
  | impromptu
  | callgroup
  | application
deriving DecidableEq, Repr

/-- The kind of a `uniqid`. -/
def destKindOf (u : String) : Option DestKind :=
  let id := explode '-' u
  if id[0]? = some "EXTERNAL" ∧ id[1]? = some "PHONE" then some .externalPhone
  else if id[1]? = some "PHONE" then some .phone
  else if id[0]? = some "CONFERENCE" ∧ id[1]? = some "ROOM" then some .room
  else if id[0]? = some "VIRTUAL" ∧ id[1]? = some "FAX" then some .virtualFax
  else if id[0]? = some "ANALOG" ∧ id[1]? = some "FAX" then some .analogFax
  else if id[0]? = some "CALLGROUP" ∧ id[1]? = some "PARALLEL" ∧ id[2]? = some "impromptu" then
    some .impromptu
  else if id[0]? = some "CALLGROUP" ∧ id[1]? = some "PARALLEL" then some .callgroup
  else if id[0]? = some "DIALPLAN" ∧ id[1]? = some "APPLICATION" then some .application
  else none

/-- The kind of a destination: several of them are an impromptu group. -/
def destKind (d : Val) : Option DestKind :=
  if d.isArray then some .impromptu else destKindOf d.toStr

/-- An external phone is dialled with a technology that can dial it. -/
def Dialled (p : Val) : Prop :=
  (externalTechnology p).1 = .sip ∨ (externalTechnology p).1 = .iax2 ∨
    (externalTechnology p).1 = .dahdi

instance (p : Val) : Decidable (Dialled p) := inferInstanceAs (Decidable (_ ∨ _ ∨ _))

/-- An internal phone has a technology. -/
def HasTechnology (p : Val) : Prop :=
  ∀ u, pbxUniqidToTechnology (p.get "uniqid").toStr ≠ .failed u

/-- No generator falls through its cases for the destination. -/
def Matched (g : Globals) (d : Val) : Prop :=
  match destKind d with
  | none => False
  | some .externalPhone =>
    ((pbxGetPhone g d.toStr).get "disabled").isset = false → Dialled (pbxGetPhone g d.toStr)
  | some .phone =>
    ((pbxGetPhone g d.toStr).get "disabled").isset = false → HasTechnology (pbxGetPhone g d.toStr)
  | _ => True

/-- The context the destination is in, if it has one of its own. -/
def destTargets (g : Globals) (d : Val) : List String :=
  match destKind d with
  | some .virtualFax => [((getElement g (.fax .virtual) d.toStr).get "uniqid").toStr]
  | some .application => [((getElement g .application d.toStr).get "uniqid").toStr]
  | _ => []

section Destinations

variable {T : String → Prop} {g : Globals} {p d : Val} {exten : String} {fromPublic : Bool}
  {readbacknum extension : Option String}

/-- The generator for a destination, by its kind. -/
theorem generateExtensionFromUniqid_eq (d : Val) (fromPublic : Bool)
    (readbacknum extension : Option String) :
    generateExtensionFromUniqid g d fromPublic readbacknum extension =
      match destKind d with
      | none => [.unended "ERROR: unmatched case in extensions_generate_extension_from_uniqid!"]
      | some .externalPhone =>
        if ((pbxGetPhone g d.toStr).get "disabled").isset then []
        else generateExternalPhoneExtension g (pbxGetPhone g d.toStr) fromPublic readbacknum
          extension
      | some .phone =>
        if ((pbxGetPhone g d.toStr).get "disabled").isset then []
        else generateInternalPhoneExtension g (pbxGetPhone g d.toStr) fromPublic readbacknum
          extension
      | some .room => generateConferenceRoomExtension (getElement g .room d.toStr) extension
      | some .virtualFax =>
        generateVirtualFaxExtension (getElement g (.fax .virtual) d.toStr) extension
      | some .analogFax =>
        generateAnalogFaxExtension g (getElement g (.fax .analog) d.toStr) extension
      | some .impromptu =>
        generateCallgroupExtension g (if d.isArray then impromptuGroup d else .null) fromPublic
          readbacknum extension
      | some .callgroup =>
        if !((getElement g .callgroup d.toStr).get "extension").isset && extension.isNone then []
        else generateCallgroupExtension g (getElement g .callgroup d.toStr) fromPublic readbacknum
          extension
      | some .application =>
        generateApplicationExtension (getElement g .application d.toStr) extension := by
  -- a list of members is made a call group with a fixed name, which is read as any other
  cases harr : d.isArray with
  | true =>
    have hkind : destKind d = some .impromptu := by simp [destKind, harr]
    have himp : ∀ words : List String, words = ["CALLGROUP", "PARALLEL", "impromptu"] →
        explode '-' "CALLGROUP-PARALLEL-impromptu" = words := by
      rintro _ rfl
      decide
    rw [hkind]
    unfold generateExtensionFromUniqid
    simp [harr, himp _ rfl]
  | false =>
    unfold generateExtensionFromUniqid destKind destKindOf
    simp only [harr, Bool.false_eq_true, if_false]
    split_ifs <;> rfl

/-- A character of an id is none of those that divide a line. -/
theorem isWordChar_ne {c x : Char} (h : isWordChar c = true) (hx : isWordChar x = false) :
    c ≠ x := by
  rintro rfl
  rw [h] at hx
  cases hx

theorem wordId_of_plainId {u : String} (h : plainId u = true) : wordId u = true := by
  simp only [plainId, Bool.and_eq_true] at h
  exact h.2

/-- Words have none of the characters that divide a line. -/
theorem wordId_ne {u : String} (h : wordId u = true) {x : Char} (hx : isWordChar x = false) :
    x ∉ u.toList := by
  intro hmem
  simp only [wordId, List.all_eq_true] at h
  exact isWordChar_ne (h x hmem) hx rfl

theorem oneLine_wordId {u : String} (h : wordId u = true) : oneLine u = true :=
  oneLine_eq_true.2 (wordId_ne h (by decide))

/-- Nor has a plain id. -/
theorem plainId_ne {u : String} (h : plainId u = true) {x : Char} (hx : isWordChar x = false) :
    x ∉ u.toList := wordId_ne (wordId_of_plainId h) hx

theorem oneLine_plainId {u : String} (h : plainId u = true) : oneLine u = true :=
  oneLine_wordId (wordId_of_plainId h)

/-- What a `Goto` to an extension of a context names. -/
theorem restTargets_gotoContext {context a : String} (hc : ',' ∉ context.toList)
    (ha : ',' ∉ a.toList) : restTargets ("n,Goto(" ++ context ++ "," ++ a ++ ",1)") = [context] := by
  have hrest : ("n,Goto(" ++ context ++ "," ++ a ++ ",1)").toList =
      'n' :: ",Goto(".toList ++ (context.toList ++ ',' :: (a.toList ++ ',' :: ['1'])) ++ [')'] := by
    simp
  rw [restTargets_goto hrest (by decide) (by decide), gotoContext_eq hc ha (by decide), String.ofList_toList]

/-- A jump to a context is a step for any `T` that holds of the context. -/
theorem isStep_goto {context a : String} (hc : wordId context = true) (ha : ',' ∉ a.toList)
    (hone : oneLine a = true) (hT : T context) :
    IsStep T ("n,Goto(" ++ context ++ "," ++ a ++ ",1)") := by
  have hopen : isNext "n,Goto(" = true ∧ opens "n,Goto(" = true :=
    ⟨isNext_ofList _ rfl, opens_ofList _ rfl⟩
  refine ⟨?_, ?_, closes_append (closes_ofList _ rfl), ?_, ?_⟩
  · simp only [String.append_assoc]
    exact isNext_append hopen.1
  · simp only [String.append_assoc]
    exact opens_append hopen.2
  · simp only [oneLine_append, oneLine_wordId hc, hone, Bool.and_eq_true, and_true]
    and_intros <;> exact oneLine_ofList _ rfl
  · rw [restTargets_gotoContext (wordId_ne hc (by decide)) ha]
    intro t ht
    rwa [List.mem_singleton.1 ht]

/-- The extension of an application jumps to the context of its `uniqid`. -/
theorem steps_generateApplicationExtension (hid : wordId (p.get "uniqid").toStr = true)
    (hT : T (p.get "uniqid").toStr) :
    Steps T (extension.getD (p.get "extension").toStr) (generateApplicationExtension p extension) :=
  steps_singleton (isStep_goto hid (by decide) (by decide) hT)

/-- The extension of a conference room consists of steps. -/
theorem steps_generateConferenceRoomExtension (hp : Unbroken p) :
    Steps T (extension.getD (p.get "number").toStr)
      (generateConferenceRoomExtension p extension) := by
  unfold generateConferenceRoomExtension
  refine steps_cons.2 ⟨isStep_fixed _ rfl, steps_cons.2 ⟨?_,
    steps_singleton (isStep_fixed _ rfl)⟩⟩
  exact isStep_calm (calm_append (calm_append (calm_ofList _ rfl)))
    (closes_append (closes_ofList _ rfl)) (oneLine_between _ _ rfl rfl (oneLine_get hp _))

/-- The extension of a virtual fax jumps to the context of its `uniqid`. -/
theorem steps_generateVirtualFaxExtension (hid : wordId (p.get "uniqid").toStr = true)
    (hT : T (p.get "uniqid").toStr) :
    Steps T (extension.getD (p.get "extension").toStr)
      (generateVirtualFaxExtension p extension) := by
  have hopen : isNext "n,Dial(Local/" = true ∧ opens "n,Dial(Local/" = true :=
    ⟨isNext_ofList _ rfl, opens_ofList _ rfl⟩
  have hslash := wordId_ne hid (x := '/') (by decide)
  have hcomma := wordId_ne hid (x := ',') (by decide)
  unfold generateVirtualFaxExtension
  refine steps_singleton ⟨?_, ?_, closes_append (closes_ofList _ rfl), ?_, ?_⟩
  · simp only [String.append_assoc]
    exact isNext_append hopen.1
  · simp only [String.append_assoc]
    exact opens_append hopen.2
  · simp only [oneLine_append, oneLine_var, oneLine_wordId hid, Bool.and_eq_true, and_true]
    and_intros <;> exact oneLine_ofList _ rfl
  · rw [restTargets_local]
    · intro t ht
      rwa [List.mem_singleton.1 ht]
    · intro c hc
      constructor
      · rintro rfl
        exact hslash hc
      · rintro rfl
        exact hcomma hc

/-- The extension of an analog fax dials its port, which is a step. -/
theorem steps_generateAnalogFaxExtension (hg : Unbroken g.config) :
    Steps T (extension.getD (p.get "extension").toStr)
      (generateAnalogFaxExtension g p extension) := by
  unfold generateAnalogFaxExtension
  exact steps_singleton (isStep_calm (calm_append (calm_append (calm_ofList _ rfl)))
    (closes_append (closes_ofList _ rfl))
    (oneLine_between _ _ rfl rfl (oneLine_get (unbroken_getElement hg _ _) _)))

/-- An impromptu group holds only the destinations it is made of. -/
theorem unbroken_impromptuGroup (hd : Unbroken d) : Unbroken (impromptuGroup d) := by
  unfold Unbroken impromptuGroup
  simp only [Val.chars_arr, List.flatMap_cons, List.flatMap_nil, Val.chars_str, List.mem_append]
  rintro (h | h | h)
  · exact hd h
  · exact absurd h (by decide)
  · cases h

/-- What is written for a destination: steps of the extension it is written for. -/
theorem steps_fromUniqid (hg : Unbroken g.config) (hd : Unbroken d)
    (hr : ∀ r ∈ readbacknum, oneLine r = true) (he : oneLine exten = true)
    (hmatched : Matched g d)
    (htargets : ∀ t ∈ destTargets g d, wordId t = true ∧ T t) :
    Steps T exten (generateExtensionFromUniqid g d fromPublic readbacknum (some exten)) := by
  have he' : ∀ e ∈ some exten, oneLine e = true := by
    rintro _ ⟨⟩
    exact he
  rw [generateExtensionFromUniqid_eq]
  unfold Matched at hmatched
  unfold destTargets at htargets
  -- one case for each kind of destination; an unknown one is no matched destination
  cases hkind : destKind d with
  | none =>
    rw [hkind] at hmatched
    exact hmatched.elim
  | some kind =>
    rw [hkind] at hmatched htargets
    cases kind with
    | externalPhone =>
      simp only
      split_ifs with hdis
      · exact steps_nil
      · exact steps_generateExternalPhoneExtension hg (unbroken_pbxGetPhone hg _) hr he'
          (hmatched (Bool.not_eq_true _ ▸ hdis))
    | phone =>
      simp only
      split_ifs with hdis
      · exact steps_nil
      · exact steps_generateInternalPhoneExtension hg (unbroken_pbxGetPhone hg _) hr he'
          (hmatched (Bool.not_eq_true _ ▸ hdis))
    | room => exact steps_generateConferenceRoomExtension (unbroken_getElement hg _ _)
    | virtualFax =>
      obtain ⟨hid, hT⟩ := htargets _ (List.mem_singleton_self _)
      exact steps_generateVirtualFaxExtension hid hT
    | analogFax => exact steps_generateAnalogFaxExtension hg
    | impromptu =>
      simp only
      split_ifs
      · exact steps_generateCallgroupExtension hg (unbroken_impromptuGroup hd) hr
      · exact steps_generateCallgroupExtension hg unbroken_null hr
    | callgroup =>
      simp only [Option.isNone_some, Bool.and_false, Bool.false_eq_true, if_false]
      exact steps_generateCallgroupExtension hg (unbroken_getElement hg _ _) hr
    | application =>
      obtain ⟨hid, hT⟩ := htargets _ (List.mem_singleton_self _)
      exact steps_generateApplicationExtension hid hT

end Destinations

end Dialplan
end Askozia
