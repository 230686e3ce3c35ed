import Askozia.Php.ParseStr
import Askozia.Pbx.Base64
import Askozia.Pbx.Forms
import Askozia.XmlParse.Lacks

/-!
# Phones that can be stored (`sip.inc`, `verify.inc`)

A configuration with a character that XML forbids cannot be read again. `v_cleanliness` looks for such
characters in the fields of a form as they are sent. The lists of codecs are decoded after that, by
`parse_str`, which can make new characters of a field and assign to any variable of `v_codecs`; and the
identifiers of providers in the names of fields are not looked at.

* `phone_storable`: what an accepted phone is written as has no such character, if none is decoded and
  none is in these names.
-/

namespace Askozia
namespace Sip

open Php Config Pbx XmlParse

/-! ## Codecs -/

/-- A parameter that is passed by reference: what it stands for in the function, what the caller sees,
and whether these are still the same. -/
structure Reference where
  inner : Val
  outer : Val
  bound : Bool

/-- `parse_str` assigns to a parameter. Assigning to an index changes what the caller sees too; a new
value for the parameter itself is a variable of its own. -/
def Reference.assign (path : List (Option (List Char))) (x : Val) (r : Reference) : Reference :=
  let inner := assignAt path x r.inner
  if path = [] then { r with inner, bound := false }
  else { r with inner, outer := if r.bound then inner else r.outer }

/-- The variables of `v_codecs`: the two parameters, and the others by name. -/
structure Scope where
  element : Reference
  post : Reference
  others : Val

/-- The variables when `v_codecs` is called. -/
def Scope.enter (f : Form) : Scope :=
  { element := { inner := f.element, outer := f.element, bound := true },
    post := { inner := f.post, outer := f.post, bound := true }, others := .arr [] }

/-- One assignment of `parse_str` in `v_codecs`. -/
def Scope.assign (s : Scope) (a : Assignment) : Scope :=
  if a.name = "element" then { s with element := s.element.assign a.path (.str a.value) }
  else if a.name = "post" then { s with post := s.post.assign a.path (.str a.value) }
  else { s with
    others := s.others.set (.str a.name) (assignAt a.path (.str a.value) (s.others.get a.name)) }

/-- `parse_str($s)` in `v_codecs`. -/
def Scope.parseStr (s : Scope) (text : String) : Scope := (assignments text).foldl Scope.assign s

/-- `(array) $v` -/
def arrayCast (v : Val) : Val :=
  if v.isArray then v else if v = .null then .arr [] else .ofList [v]

/-- `v_codecs(&$element, &$post)` -/
def vCodecs (f : Form) : Form :=
  let s := (Scope.enter f).parseStr (f.post.get "a_codecs").toStr
  let s := s.parseStr (s.post.inner.get "v_codecs").toStr
  let codec := arrayMerge [arrayCast (s.others.get "ace"), arrayCast (s.others.get "vce")]
  { f with
    element := (s.element.assign [some "codec".toList] codec).outer,
    post := (s.post.assign [some "codec".toList] codec).outer }

section Phones

variable (gettext : String → String) (usort : Usort)

/-- `sip_verify_phone($post, $errors)`: the phone, and what is wrong. -/
def sipVerifyPhone (g : Globals) (post : Val) : Val × List String :=
  let f : Form := { element := .arr [], post := post, errors := [] }
  let f := vCleanliness gettext f
  let f := vExtension gettext f
  let f := vCallerid gettext f
  let f := vOptional "descr" f
  let f := vOptional "snom-mac" f
  let f := vPublicAccessEditor gettext f
  let f := vNotificationsEditor gettext f
  let f := vVoicemailEditor gettext f
  let f := vProviderAccessSelector usort g f
  let f := vOutgoingCalleridMap gettext g f
  -- what is read or stored from here on may have been assigned to by the codecs' text
  let f := vCodecs f
  let f := vPassword f
  let f := vManualattributes gettext f
  let f := vNumeric gettext "busylevel" (gettext "Busy level") f
  let f := putTrusted ["uniqid", "language", "ringlength", "natmode", "dtmfmode"] f
  (f.element, f.errors)

end Phones

/-! ## The condition -/

/-- The variables that what is stored comes from. -/
def storedVariables : List String := ["ace", "vce", "element", "post"]

/-- `$post['v_codecs']` when it is decoded, after the assignments of the first list. -/
def videoCodecs (post : Val) : Val :=
  (((assignments (post.get "a_codecs").toStr).filter (·.name = "post")).foldl
    (fun v a => assignAt a.path (.str a.value) v) post).get "v_codecs"

/-- The assignments of both lists. -/
def codecAssignments (post : Val) : List Assignment :=
  assignments (post.get "a_codecs").toStr ++ assignments (videoCodecs post).toStr

/-- The identifier of a provider in the name of a field, if the field is stored, has nothing forbidden. -/
def CleanName (e : Key × Val) : Prop :=
  strstr e.1.toStr "outgoingcalleridmap_" = true → strlen e.2 = true →
    TextLacks isUnclean ((explode '_' e.1.toStr)[1]?.getD "")

/-- The condition on a form: nothing forbidden is decoded from the lists of codecs into what is stored,
and none is in the names. -/
structure Decodes (post : Val) : Prop where
  codecs : ∀ a ∈ codecAssignments post, a.name ∈ storedVariables → a.Lacks isUnclean
  names : ∀ e ∈ post.entries, CleanName e

/-! ## Assignments of `parse_str` -/

section Codecs

variable {r : Reference} {s : Scope} {a : Assignment} {as : List Assignment}
  {path : List (Option (List Char))} {x : Val} {R : Val → Prop}

/-- Assigning to an index makes an array. -/
theorem isArray_assignAt {i : Option (List Char)} {rest : List (Option (List Char))} {v : Val} :
    (assignAt (i :: rest) x v).isArray = true := by
  cases i with
  | none => rfl
  | some index => rfl

/-- What the caller sees stays an array. -/
theorem Reference.isArray_assign (h : r.outer.isArray = true) : (r.assign path x).outer.isArray = true := by
  unfold Reference.assign
  dsimp only
  split_ifs with hpath hbound
  · exact h
  · obtain ⟨i, rest, rfl⟩ := List.exists_cons_of_ne_nil hpath
    exact isArray_assignAt
  · exact h

/-- The assignments to a parameter, one after the other. -/
def assignAll (as : List Assignment) (r : Reference) : Reference :=
  as.foldl (fun r a => r.assign a.path (.str a.value)) r

/-- Until it is replaced, a parameter is what the caller sees. -/
def Reference.Synced (r : Reference) : Prop :=
  r.outer.isArray = true ∧ (r.bound = true → r.inner = r.outer)

/-- An assignment keeps the two the same, or ends the binding. -/
theorem Reference.Synced.assign (h : r.Synced) (path : List (Option (List Char))) (x : Val) :
    (r.assign path x).Synced := by
  refine ⟨Reference.isArray_assign h.1, ?_⟩
  unfold Reference.assign
  dsimp only
  split_ifs with hpath hbound
  · intro hfalse
    cases hfalse
  · intro _
    rfl
  · intro hbound'
    exact absurd hbound' hbound

/-- So do several. -/
theorem Reference.Synced.assignAll (h : r.Synced) (as : List Assignment) : (assignAll as r).Synced := by
  unfold Sip.assignAll
  induction as generalizing r with
  | nil => exact h
  | cons a as ih => exact ih (h.assign a.path (.str a.value))

/-- What holds of what the caller sees, and is kept when something below it is assigned. -/
theorem Reference.Synced.outer_assign (h : r.Synced) (hr : R r.outer)
    (hstep : path ≠ [] → R (assignAt path x r.outer)) : R (r.assign path x).outer := by
  unfold Reference.assign
  dsimp only
  split_ifs with hpath hbound
  · exact hr
  · rw [h.2 hbound]
    exact hstep hpath
  · exact hr

/-- The same for several assignments. -/
theorem Reference.Synced.outer_assignAll (h : r.Synced) (hr : R r.outer)
    (hstep : ∀ a ∈ as, a.path ≠ [] → ∀ v, R v → R (assignAt a.path (.str a.value) v)) :
    R (Sip.assignAll as r).outer := by
  unfold Sip.assignAll
  induction as generalizing r with
  | nil => exact hr
  | cons a as ih =>
    apply ih (h.assign a.path (.str a.value)) _ fun b hb => hstep b (List.mem_cons_of_mem _ hb)
    exact h.outer_assign hr fun hpath => hstep a List.mem_cons_self hpath _ hr

/-- What assignments make of the two parameters. -/
theorem foldl_scope (as : List Assignment) (s : Scope) :
    (as.foldl Scope.assign s).element = assignAll (as.filter (·.name = "element")) s.element ∧
      (as.foldl Scope.assign s).post = assignAll (as.filter (·.name = "post")) s.post := by
  induction as generalizing s with
  | nil => exact ⟨rfl, rfl⟩
  | cons a as ih =>
    rw [List.foldl_cons, (ih _).1, (ih _).2]
    unfold Scope.assign
    by_cases helement : a.name = "element"
    · have hpost : a.name ≠ "post" := by
        rw [helement]
        decide
      rw [if_pos helement, List.filter_cons_of_pos (by simpa using helement),
        List.filter_cons_of_neg (by simpa using hpost)]
      exact ⟨rfl, rfl⟩
    · rw [if_neg helement, List.filter_cons_of_neg (by simpa using helement)]
      by_cases hpost : a.name = "post"
      · rw [if_pos hpost, List.filter_cons_of_pos (by simpa using hpost)]
        exact ⟨rfl, rfl⟩
      · rw [if_neg hpost, List.filter_cons_of_neg (by simpa using hpost)]
        exact ⟨rfl, rfl⟩

/-- What assignments make of another variable. -/
def assignedTo (name : String) (as : List Assignment) (v : Val) : Val :=
  (as.filter (·.name = name)).foldl (fun v a => assignAt a.path (.str a.value) v) v

/-- The other variables are those that were assigned last. -/
theorem others_foldl_scope {name : String} (hname : name ≠ "element" ∧ name ≠ "post")
    (hothers : s.others.isArray = true) :
    (as.foldl Scope.assign s).others.get name = assignedTo name as (s.others.get name) := by
  induction as generalizing s with
  | nil => rfl
  | cons a as ih =>
    have hnext : (s.assign a).others.isArray = true ∧ (s.assign a).others.get name =
        if a.name = name then assignAt a.path (.str a.value) (s.others.get name) else s.others.get name := by
      unfold Scope.assign
      split_ifs with helement hsame hpost hsame hsame
      · exact absurd (hsame.symm.trans helement) hname.1
      · exact ⟨hothers, rfl⟩
      · exact absurd (hsame.symm.trans hpost) hname.2
      · exact ⟨hothers, rfl⟩
      · rw [hsame]
        exact ⟨rfl, Val.idx_set_self _ _ _⟩
      · exact ⟨rfl, Val.idx_set_of_ne _ (fun heq => hsame (Key.str.inj heq).symm)
          (ne_str_of_isArray hothers)⟩
    rw [List.foldl_cons, ih hnext.1, hnext.2]
    unfold assignedTo
    split_ifs with hsame
    · rw [List.filter_cons_of_pos (by simpa using hsame)]
      rfl
    · rw [List.filter_cons_of_neg (by simpa using hsame)]

/-- In the function a parameter is what all assignments make of it. -/
theorem inner_assignAll (as : List Assignment) (r : Reference) :
    (assignAll as r).inner = as.foldl (fun v a => assignAt a.path (.str a.value) v) r.inner := by
  unfold assignAll
  induction as generalizing r with
  | nil => rfl
  | cons a as ih =>
    have hassign : (r.assign a.path (.str a.value)).inner = assignAt a.path (.str a.value) r.inner := by
      unfold Reference.assign
      split_ifs
      · rfl
      · rfl
      · rfl
    rw [List.foldl_cons, List.foldl_cons, ih, hassign]

/-- An assignment below the field. -/
theorem get_assignAt_self {v : Val} {field : String} (hfield : (Val.str field).key = .str field) {r : List (Option (List Char))}
    (hv : v.isArray = true) :
    (assignAt (some field.toList :: r) x v).get field = assignAt r x (v.get field) := by
  show ((if v.isArray then v else .arr []).set (Val.str (String.ofList field.toList)).key
    (assignAt r x ((if v.isArray then v else .arr []).idx
      (Val.str (String.ofList field.toList)).key))).idx (.str field) = _
  rw [if_pos hv, String.ofList_toList, hfield, Val.idx_set_self]
  rfl

/-- Assignments make the same of two arrays with the same field. -/
theorem get_foldl_assignAt {v w : Val} {field : String} (hkey : (Val.str field).key = .str field)
    (h : v = w ∨ (v.isArray = true ∧ w.isArray = true ∧ v.get field = w.get field)) :
    (as.foldl (fun v a => assignAt a.path (.str a.value) v) v).get field =
      (as.foldl (fun v a => assignAt a.path (.str a.value) v) w).get field := by
  induction as generalizing v w with
  | nil =>
    rcases h with rfl | ⟨-, -, h⟩
    · rfl
    · exact h
  | cons a as ih =>
    rw [List.foldl_cons, List.foldl_cons]
    apply ih
    rcases h with rfl | ⟨hv, hw, hget⟩
    · exact .inl rfl
    · cases a.path with
      | nil => exact .inl rfl
      | cons i rest =>
        refine .inr ⟨isArray_assignAt, isArray_assignAt, ?_⟩
        by_cases hi : i = some field.toList
        · rw [hi, get_assignAt_self hkey hv, get_assignAt_self hkey hw, hget]
        · rw [get_assignAt hi (ne_str_of_isArray hv), get_assignAt hi (ne_str_of_isArray hw), hget]

/-- What is assigned depends on the two lists of codecs only. -/
theorem codecAssignments_congr {post post' : Val} (h : post.isArray = true) (h' : post'.isArray = true)
    (haudio : post'.get "a_codecs" = post.get "a_codecs")
    (hvideo : post'.get "v_codecs" = post.get "v_codecs") :
    codecAssignments post' = codecAssignments post := by
  have hlist : videoCodecs post' = videoCodecs post := by
    unfold videoCodecs
    rw [haudio]
    exact get_foldl_assignAt (by decide) (.inr ⟨h', h, hvideo⟩)
  unfold codecAssignments
  rw [hlist, haudio]

/-- The list of codecs that is stored. -/
def codecList (as : List Assignment) : Val :=
  arrayMerge [arrayCast (assignedTo "ace" as .null), arrayCast (assignedTo "vce" as .null)]

/-- A parameter that has just been passed. -/
def passed (v : Val) : Reference := { inner := v, outer := v, bound := true }

/-- A parameter is what the caller passed. -/
theorem synced_passed {v : Val} (h : v.isArray = true) : (passed v).Synced := ⟨h, fun _ => rfl⟩

/-- `v_codecs`, in terms of the assignments of both lists. -/
theorem vCodecs_eq (f : Form) : vCodecs f = { f with
    element := ((assignAll ((codecAssignments f.post).filter (·.name = "element")) (passed f.element)).assign
      [some "codec".toList] (codecList (codecAssignments f.post))).outer,
    post := ((assignAll ((codecAssignments f.post).filter (·.name = "post")) (passed f.post)).assign
      [some "codec".toList] (codecList (codecAssignments f.post))).outer } := by
  have hvideo : ((Scope.enter f).parseStr (f.post.get "a_codecs").toStr).post.inner.get "v_codecs" =
      videoCodecs f.post := by
    unfold Scope.parseStr
    rw [(foldl_scope _ _).2, inner_assignAll]
    rfl
  have hboth : ((Scope.enter f).parseStr (f.post.get "a_codecs").toStr).parseStr
      (((Scope.enter f).parseStr (f.post.get "a_codecs").toStr).post.inner.get "v_codecs").toStr =
      (codecAssignments f.post).foldl Scope.assign (Scope.enter f) := by
    rw [hvideo]
    unfold Scope.parseStr codecAssignments
    rw [List.foldl_append]
  unfold vCodecs
  dsimp only
  rw [hboth, (foldl_scope _ _).1, (foldl_scope _ _).2, others_foldl_scope (by decide) rfl,
    others_foldl_scope (by decide) rfl]
  rfl

/-- What holds of the element and of the form, and is kept by the assignments to them. -/
theorem vCodecs_keeps {E P : Val → Prop} {f : Form} (h : f.Proper) (helement : E f.element) (hpost : P f.post)
    (hsteps : ∀ a ∈ codecAssignments f.post, a.path ≠ [] →
      (a.name = "element" → ∀ v, E v → E (assignAt a.path (.str a.value) v)) ∧
      (a.name = "post" → ∀ v, P v → P (assignAt a.path (.str a.value) v)))
    (hcodec : (∀ v, E v → E (assignAt [some "codec".toList] (codecList (codecAssignments f.post)) v)) ∧
      ∀ v, P v → P (assignAt [some "codec".toList] (codecList (codecAssignments f.post)) v)) :
    E (vCodecs f).element ∧ P (vCodecs f).post := by
  rw [vCodecs_eq]
  have hassigned : ∀ {name : String}, ∀ a ∈ (codecAssignments f.post).filter (·.name = name),
      a ∈ codecAssignments f.post ∧ a.name = name := fun a ha =>
    ⟨(List.mem_filter.1 ha).1, of_decide_eq_true (List.mem_filter.1 ha).2⟩
  have hsyncedE := synced_passed h.element
  have hsyncedP := synced_passed h.post
  constructor
  · apply (hsyncedE.assignAll _).outer_assign
    · exact hsyncedE.outer_assignAll helement fun a ha hpath =>
        (hsteps a (hassigned a ha).1 hpath).1 (hassigned a ha).2
    · exact fun _ => hcodec.1 _ (hsyncedE.outer_assignAll helement fun a ha hpath =>
        (hsteps a (hassigned a ha).1 hpath).1 (hassigned a ha).2)
  · apply (hsyncedP.assignAll _).outer_assign
    · exact hsyncedP.outer_assignAll hpost fun a ha hpath =>
        (hsteps a (hassigned a ha).1 hpath).2 (hassigned a ha).2
    · exact fun _ => hcodec.2 _ (hsyncedP.outer_assignAll hpost fun a ha hpath =>
        (hsteps a (hassigned a ha).1 hpath).2 (hassigned a ha).2)

/-- The form stays one. -/
theorem proper_vCodecs {f : Form} (h : f.Proper) : (vCodecs f).Proper := by
  rw [vCodecs_eq]
  exact ⟨Reference.isArray_assign ((synced_passed h.element).assignAll _).1,
    Reference.isArray_assign ((synced_passed h.post).assignAll _).1⟩

/-- `v_codecs` reports no errors. -/
theorem errors_vCodecs {f : Form} : (vCodecs f).errors = f.errors := by rw [vCodecs_eq]

/-- The list of codecs is made of what is assigned to the two variables. -/
theorem closed_codecList {Q : Val → Prop} {K : Key → Prop} (h : Closed Q K)
    (hfits : ∀ a ∈ as, a.name ∈ storedVariables → a.Fits Q K) 
    (hkeys : ∀ v : Val, Q v → ∀ e ∈ v.entries, K e.1 ∧ Q e.2) : Q (codecList as) := by
  -- the two lists are assigned to, and made arrays before they are merged
  have hvariable : ∀ name ∈ ["ace", "vce"], Q (arrayCast (assignedTo name as .null)) := by
    intro name hname
    have hassigned : Q (assignedTo name as .null) := by
      apply List.foldlRecOn (motive := Q) _ _ h.null
      intro v hv a ha
      obtain ⟨hmem, hsame⟩ := List.mem_filter.1 ha
      have hall : ∀ name ∈ ["ace", "vce"], name ∈ storedVariables := by decide
      have hfit := hfits a hmem (by rw [of_decide_eq_true hsame]; exact hall name hname)
      exact h.assignAt hfit.1 hfit.2 hv
    unfold arrayCast
    split_ifs
    · exact hassigned
    · exact h.empty
    · exact h.set h.empty (h.int _) hassigned
  unfold codecList arrayMerge
  apply List.foldlRecOn (motive := Q) _ _ h.empty
  -- merging keeps text keys and numbers the other values anew
  intro merged hmerged e he
  obtain ⟨v, hv, he⟩ := List.mem_flatMap.1 he
  have hv : Q v := by
    rcases List.mem_cons.1 hv with rfl | hv
    · exact hvariable "ace" (by simp)
    · rw [List.mem_singleton.1 hv]
      exact hvariable "vce" (by simp)
  obtain ⟨hkey, hvalue⟩ := hkeys v hv e he
  split
  · next s hs =>
    rw [hs] at hkey
    exact h.set hmerged hkey hvalue
  · exact h.set hmerged (h.int _) hvalue

end Codecs

/-! ## Fields of the form -/

/-- No field of the form has a forbidden character. -/
def CleanFields (post : Val) : Prop := ∀ k, (post.idx k).Lacks isUnclean

/-- The element has no forbidden character, and something is known of the fields. -/
structure CleanForm (P : Val → Prop) (f : Form) : Prop where
  element : f.element.Lacks isUnclean
  post : P f.post

section Fields

variable {P : Val → Prop} {f : Form} {field : String} {value : Val}

/-- Stripping adds no characters. -/
theorem lacks_vStrip (h : value.Lacks isUnclean) : (vStrip value).Lacks isUnclean := by
  unfold vStrip
  split_ifs
  · exact h
  · exact Val.lacks_bool _
  · exact h
  · exact Val.lacks_bool _

/-- Writing a clean value keeps the element clean. -/
theorem clean_put (h : CleanForm P f) (hfield : TextLacks isUnclean field) (hvalue : value.Lacks isUnclean) :
    CleanForm P (f.put field value) :=
  ⟨Val.lacks_set h.element hfield hvalue, h.post⟩

/-- An error leaves the element and the form. -/
theorem clean_failIf (h : CleanForm P f) (wrong : Bool) (error : String) : CleanForm P (f.failIf wrong error) := by
  unfold Form.failIf
  split_ifs
  · exact ⟨h.element, h.post⟩
  · exact h

/-- What every check keeps is kept by all of them. -/
theorem clean_foldl {α : Type} {check : Form → α → Form} {xs : List α}
    (hcheck : ∀ (f : Form), ∀ x ∈ xs, CleanForm P f → CleanForm P (check f x)) (h : CleanForm P f) :
    CleanForm P (xs.foldl check f) :=
  List.foldlRecOn (motive := CleanForm P) xs check h fun f h x hx => hcheck f x hx h

/-- Writing a clean value into the form keeps it clean. -/
theorem clean_repost (h : CleanForm CleanFields f) (hproper : f.Proper) (hvalue : value.Lacks isUnclean) :
    CleanForm CleanFields (f.repost field value) := by
  refine ⟨h.element, ?_⟩
  intro k
  by_cases hk : k = .str field
  · subst hk
    have hself : (f.repost field value).post.idx (.str field) = value := Val.idx_set_self _ _ _
    rw [hself]
    exact hvalue
  · have hkept : (f.repost field value).post.idx k = f.post.idx k :=
      Val.idx_set_of_ne _ hk (ne_str_of_isArray hproper.post)
    rw [hkept]
    exact h.post k

/-- No error was added by a loop of checks. -/
theorem errors_foldl_failIf {α : Type} {wrong : α → Bool} {error : α → String} {xs : List α} {f : Form}
    (h : (xs.foldl (fun f x => f.failIf (wrong x) (error x)) f).errors = []) :
    f.errors = [] ∧ ∀ x ∈ xs, wrong x = false := by
  induction xs generalizing f with
  | nil => exact ⟨h, fun x hx => absurd hx List.not_mem_nil⟩
  | cons x r ih =>
    obtain ⟨herrors, hr⟩ := ih h
    unfold Form.failIf at herrors
    dsimp only at herrors
    split_ifs at herrors with hx
    · exact absurd herrors (List.append_ne_nil_of_right_ne_nil _ (List.cons_ne_nil _ _))
    · rw [Bool.not_eq_true] at hx
      exact ⟨herrors, List.forall_mem_cons.2 ⟨hx, hr⟩⟩

/-- The texts of a form that `v_cleanliness` accepts. -/
theorem lacks_of_vCleanliness (gettext : String → String)
    (htexts : ∀ e ∈ f.post.entries, ∃ s, e.2 = .str s) (h : (vCleanliness gettext f).errors = []) :
    ∀ e ∈ f.post.entries, e.2.Lacks isUnclean := by
  intro e he
  have hclean := (errors_foldl_failIf h).2 e he
  obtain ⟨s, hs⟩ := htexts e he
  rw [hs] at hclean ⊢
  have hany : s.toList.any isUnclean = false := hclean
  rw [List.any_eq_false] at hany
  apply Val.lacks_str.2
  intro c hc
  rw [← Bool.not_eq_true]
  exact hany c hc

/-- A form whose values are clean has clean fields. -/
theorem cleanFields_of_entries {post : Val} (harray : post.isArray = true)
    (h : ∀ e ∈ post.entries, e.2.Lacks isUnclean) : CleanFields post := by
  intro k
  cases post with
  | arr es =>
    rw [Val.idx_arr]
    cases hx : es.lookup k with
    | none => exact Val.lacks_null
    | some x => exact h _ (Val.mem_of_lookup hx)
  | _ => cases harray

end Fields

/-! ## The checks -/

section Checks

variable {P : Val → Prop} (hP : ∀ v, P v → CleanFields v) {f : Form} {g : Globals}
  (gettext : String → String) (usort : Usort)

include hP

/-- So each field that is read is clean. -/
theorem lacks_get (h : CleanForm P f) (field : String) : (f.post.get field).Lacks isUnclean :=
  hP _ h.post (.str field)

/-- The checks of a phone store fields as they were posted, here the extension. -/
theorem clean_vExtension (h : CleanForm P f) : CleanForm P (vExtension gettext f) :=
  clean_put (clean_failIf (clean_failIf h _ _) _ _) (by decide) (lacks_get hP h "extension")

theorem clean_vCallerid (h : CleanForm P f) : CleanForm P (vCallerid gettext f) :=
  clean_put (clean_failIf h _ _) (by decide) (lacks_get hP h "callerid")

theorem clean_vOptional (h : CleanForm P f) (field : String) (hfield : TextLacks isUnclean field) :
    CleanForm P (vOptional field f) :=
  clean_put h hfield (lacks_vStrip (lacks_get hP h field))

theorem clean_vPublicAccessEditor (h : CleanForm P f) : CleanForm P (vPublicAccessEditor gettext f) := by
  apply clean_vOptional hP _ _ (by decide)
  apply clean_vOptional hP _ _ (by decide)
  exact clean_failIf h _ _

theorem clean_vNotificationsEditor (h : CleanForm P f) : CleanForm P (vNotificationsEditor gettext f) := by
  apply clean_vOptional hP _ _ (by decide)
  apply clean_vOptional hP _ _ (by decide)
  exact clean_failIf h _ _

theorem clean_vVoicemailEditor (h : CleanForm P f) : CleanForm P (vVoicemailEditor gettext f) := by
  apply clean_vOptional hP _ _ (by decide)
  apply clean_vOptional hP _ _ (by decide)
  apply clean_vOptional hP _ _ (by decide)
  exact clean_failIf (clean_failIf h _ _) _ _

theorem clean_vPassword (h : CleanForm P f) : CleanForm P (vPassword f) :=
  clean_put h (by decide) (lacks_get hP h "secret")

theorem clean_vNumeric (h : CleanForm P f) (field : String) (hfield : TextLacks isUnclean field)
    (name : String) : CleanForm P (vNumeric gettext field name f) :=
  clean_put (clean_failIf h _ _) hfield (lacks_vStrip (lacks_get hP h field))

/-- Fields that are not checked at all are stored as they were posted. -/
theorem clean_putTrusted (h : CleanForm P f) {fields : List String}
    (hfields : ∀ field ∈ fields, TextLacks isUnclean field) : CleanForm P (putTrusted fields f) :=
  clean_foldl (fun _ field hfield h => clean_put h (hfields field hfield) (lacks_get hP h field)) h

end Checks

section Stored

variable {f : Form} {g : Globals} {post : Val} (gettext : String → String) (usort : Usort)

/-- A provider that is listed is one of the configuration. -/
theorem mem_pbxGetProviders {p : Val} (hp : p ∈ (pbxGetProviders usort g).1) :
    ∃ t, p ∈ elements g.config (.provider t) := by
  unfold pbxGetProviders sipGetProviders iaxGetProviders isdnGetProviders analogGetProviders
    getSortedCopy at hp
  simp only [initList_eq, elements_initConfig, (usort.perm _ _).mem_iff, List.mem_append] at hp
  rcases hp with ((hp | hp) | hp) | hp
  · exact ⟨_, hp⟩
  · exact ⟨_, hp⟩
  · exact ⟨_, hp⟩
  · exact ⟨_, hp⟩

/-- The elements of a clean configuration are clean. -/
theorem lacks_of_mem_elements {config e : Val} (h : config.Lacks isUnclean) {k : Kind}
    (he : e ∈ elements config k) : e.Lacks isUnclean :=
  Val.lacks_of_mem_vals (Val.lacks_idx (Val.lacks_idx h _) _) he

/-- The identifiers of providers come from the configuration. -/
theorem clean_vProviderAccessSelector {P : Val → Prop} (hg : g.config.Lacks isUnclean) (h : CleanForm P f) :
    CleanForm P (vProviderAccessSelector usort g f) := by
  apply clean_foldl _ h
  intro f provider hprovider h
  obtain ⟨t, ht⟩ := mem_pbxGetProviders usort hprovider
  have huniqid : (provider.get "uniqid").Lacks isUnclean := Val.lacks_idx (lacks_of_mem_elements hg ht) _
  split_ifs
  · exact clean_put h (by decide) (Val.lacks_push (Val.lacks_idx h.element _) huniqid)
  · exact h

/-- The maps are made of names and fields of the form. -/
theorem clean_vOutgoingCalleridMap (hnames : ∀ e ∈ post.entries, CleanName e)
    (hentries : ∀ e ∈ post.entries, e.2.Lacks isUnclean) (hproper : f.Proper) (h : CleanForm (· = post) f) :
    CleanForm CleanFields (vOutgoingCalleridMap gettext g f) := by
  obtain rfl : f.post = post := h.post
  unfold vOutgoingCalleridMap
  generalize hmaps : (f.post.entries.filterMap fun e =>
    if strstr e.1.toStr "outgoingcalleridmap_" && strlen e.2 then
      some (Val.arr [(.str "provideruniqid", .str ((explode '_' e.1.toStr)[1]?.getD "")),
        (.str "cidstring", e.2)])
    else none) = maps
  -- what is stored of a field is its value and the end of its name, both of which are clean
  have hstored : (vStrip (.ofList maps)).Lacks isUnclean := by
    apply lacks_vStrip
    apply Val.lacks_ofList
    intro map hmap
    rw [← hmaps, List.mem_filterMap] at hmap
    obtain ⟨e, he, hmap⟩ := hmap
    split_ifs at hmap with hkey
    rw [Bool.and_eq_true] at hkey
    obtain rfl := Option.some.inj hmap
    apply Val.lacks_arr.2
    intro entry hentry
    rcases List.mem_cons.1 hentry with rfl | hentry
    · exact ⟨show TextLacks isUnclean "provideruniqid" by decide,
        Val.lacks_str.2 (hnames e he hkey.1 hkey.2)⟩
    · rw [List.mem_singleton.1 hentry]
      exact ⟨show TextLacks isUnclean "cidstring" by decide, hentries e he⟩
  have hloop : CleanForm CleanFields (maps.foldl (fun f map =>
      f.failIf (!pbxIsValidCalleridString (map.get "cidstring").toStr)
        (sprintf (gettext "The outgoing Caller ID specified for \"%s\" is invalid.")
          [((pbxGetProvider g (map.get "provideruniqid").toStr).get "name").toStr])) f) :=
    clean_foldl (fun _ _ _ h => clean_failIf h _ _)
      ⟨h.element, cleanFields_of_entries hproper.post hentries⟩
  have hproper' := (@leaves_foldl _ (fun f map => f.failIf
    (!pbxIsValidCalleridString (Val.get map "cidstring").toStr)
    (sprintf (gettext "The outgoing Caller ID specified for \"%s\" is invalid.")
      [((pbxGetProvider g (map.get "provideruniqid").toStr).get "name").toStr]))
    (fun _ _ h => leaves_failIf h _ _) maps f hproper).proper
  exact clean_repost (clean_put hloop (by decide) hstored)
    (leaves_put hproper' "outgoingcalleridmap" _).proper hstored

/-- `v_codecs`, when nothing forbidden is decoded. -/
theorem clean_vCodecs (hcodecs : ∀ a ∈ codecAssignments f.post, a.name ∈ storedVariables → a.Lacks isUnclean)
    (hproper : f.Proper) (h : CleanForm CleanFields f) : CleanForm CleanFields (vCodecs f) := by
  have hclosed := closed_lacks isUnclean
  have hfits : ∀ a ∈ codecAssignments f.post, a.name ∈ storedVariables →
      a.Fits (Val.Lacks isUnclean) (KeyLacks isUnclean) := fun a ha hname => (hcodecs a ha hname).fits
  have hlist : (codecList (codecAssignments f.post)).Lacks isUnclean := by
    apply closed_codecList hclosed hfits
    intro v hv e he
    cases v with
    | arr es => exact Val.lacks_arr.1 hv e he
    | _ => cases he
  have hcodec : ∀ i ∈ [some "codec".toList], ∀ index ∈ i,
      KeyLacks isUnclean (Val.str (String.ofList index)).key := by
    intro i hi index hindex
    rw [List.mem_singleton.1 hi] at hindex
    obtain rfl := Option.some.inj hindex
    exact keyLacks_key (by decide)
  have hkeeps := vCodecs_keeps (E := Val.Lacks isUnclean) (P := CleanFields) hproper h.element h.post
    (fun a ha hpath => ⟨?_, ?_⟩) ⟨fun v hv => hclosed.assignAt hcodec hlist hv,
      fun v hv => hclosed.idx_assignAt hcodec hlist hv⟩
  · exact ⟨hkeeps.1, hkeeps.2⟩
  · intro hname v hv
    have hfit := hfits a ha (by rw [hname]; decide)
    exact hclosed.assignAt hfit.1 hfit.2 hv
  · intro hname v hv
    obtain ⟨hindexes, hvalue⟩ := hfits a ha (by rw [hname]; decide)
    obtain ⟨i, rest, hcons⟩ := List.exists_cons_of_ne_nil hpath
    rw [hcons] at hindexes ⊢
    exact hclosed.idx_assignAt hindexes hvalue hv

/-! ## Base 64 -/

/-- An encoded text is clean, whatever was typed. -/
theorem textLacks_base64Encode (s : String) : TextLacks isUnclean (base64Encode s) :=
  forall_mem_base64Encode (by decide) (by decide) s

/-- So the manual attributes are. -/
theorem clean_vManualattributes (hproper : f.Proper) (h : CleanForm CleanFields f) :
    CleanForm CleanFields (vManualattributes gettext f) := by
  unfold vManualattributes
  dsimp only
  generalize splitAndCleanLines (f.post.get "manualattributes").toStr = lines
  have hstored : (vStrip (.str (base64Encode (implode "\n" lines)))).Lacks isUnclean :=
    lacks_vStrip (Val.lacks_str.2 (textLacks_base64Encode _))
  apply clean_repost _ _ hstored
  · apply clean_put _ (by decide) hstored
    exact clean_foldl (fun _ _ _ h => clean_failIf h _ _) h
  · have hloop := @leaves_foldl _ (fun f (x : String × ℕ) => f.failIf (!isAttribute x.1.toList)
      (sprintf (gettext "Manual Attribute line number %s is invalid.") [toString (x.2 + 1)]))
      (fun _ _ h => leaves_failIf h _ _) lines.zipIdx f hproper
    exact (leaves_put hloop.proper "manualattributes" _).proper

end Stored

/-! ## Accepted phones -/

/-- No value that is not a text is printed with a forbidden character. -/
theorem spares_isUnclean : Spares isUnclean := by
  intro c hc
  have hlow : c.toNat < 32 := by
    unfold isUnclean at hc
    simp only [Bool.or_eq_true, Bool.and_eq_true, decide_eq_true_eq, beq_iff_eq] at hc
    omega
  have hnot : ∀ d : Char, 32 ≤ d.toNat → c ≠ d := by
    intro d hd heq
    rw [heq] at hlow
    omega
  refine ⟨?_, ?_, hnot '-' (by decide)⟩
  · intro hmem
    have hall : ∀ d ∈ "Array".toList ++ "1".toList, 32 ≤ d.toNat := by decide
    exact hnot c (hall c hmem) rfl
  · rw [Bool.eq_false_iff]
    intro hdigit
    have hle : 48 ≤ c.toNat := by
      have hge : 48 ≤ c.val.toNat := by
        have := (Bool.and_eq_true _ _ |>.mp hdigit).1
        exact of_decide_eq_true this
      exact hge
    omega

/-- Nor is one of the texts that the checks write themselves. -/
theorem unwritten_isUnclean : Unwritten isUnclean := by
  refine ⟨spares_isUnclean, ?_⟩
  decide

section Accepted

variable (gettext : String → String) (usort : Usort) {g : Globals} {post : Val} {f : Form}

/-- The checks of `sip_verify_phone` between `v_cleanliness` and `v_codecs`. -/
def beforeCodecs (g : Globals) (f : Form) : Form :=
  let f := vExtension gettext f
  let f := vCallerid gettext f
  let f := vOptional "descr" f
  let f := vOptional "snom-mac" f
  let f := vPublicAccessEditor gettext f
  let f := vNotificationsEditor gettext f
  let f := vVoicemailEditor gettext f
  let f := vProviderAccessSelector usort g f
  vOutgoingCalleridMap gettext g f

/-- The checks of `sip_verify_phone` after `v_codecs`. -/
def afterCodecs (f : Form) : Form :=
  let f := vPassword f
  let f := vManualattributes gettext f
  let f := vNumeric gettext "busylevel" (gettext "Busy level") f
  putTrusted ["uniqid", "language", "ringlength", "natmode", "dtmfmode"] f

/-- `sip_verify_phone`, as the checks before `v_codecs`, `v_codecs`, and those after it. -/
theorem sipVerifyPhone_eq :
    sipVerifyPhone gettext usort g post =
      ((afterCodecs gettext (vCodecs (beforeCodecs gettext usort g
        (vCleanliness gettext { element := .arr [], post := post, errors := [] })))).element,
      (afterCodecs gettext (vCodecs (beforeCodecs gettext usort g
        (vCleanliness gettext { element := .arr [], post := post, errors := [] })))).errors) := rfl

/-- The fields that are written before the codecs. -/
def beforeFields : List String :=
  ["extension", "callerid", "descr", "snom-mac", "publicaccess", "publicname", "emailcallnotify",
    "emailcallnotifyaddress", "vmtoemail", "vmtoemailaddress", "vmpin", "provider", "outgoingcalleridmap"]

/-- The fields that the checks before `v_codecs` write. -/
theorem writes_beforeCodecs (h : f.Proper) :
    Leaves beforeFields ["outgoingcalleridmap"] f (beforeCodecs gettext usort g f) := by
  have h₁ := leaves_vExtension gettext h
  have h₂ := h₁.trans (leaves_vCallerid gettext h₁.proper)
  have h₃ := h₂.trans (leaves_vOptional h₂.proper "descr")
  have h₄ := h₃.trans (leaves_vOptional h₃.proper "snom-mac")
  have h₅ := h₄.trans (leaves_vPublicAccessEditor gettext h₄.proper)
  have h₆ := h₅.trans (leaves_vNotificationsEditor gettext h₅.proper)
  have h₇ := h₆.trans (leaves_vVoicemailEditor gettext h₆.proper)
  have h₈ := h₇.trans (leaves_vProviderAccessSelector h₇.proper usort g)
  exact h₈.trans (leaves_vOutgoingCalleridMap gettext h₈.proper g)

/-- The lists of codecs are as they were sent until they are read. -/
theorem leaves_beforeCodecs (h : f.Proper) :
    (beforeCodecs gettext usort g f).Proper ∧
      ((beforeCodecs gettext usort g f).errors = [] → f.errors = []) ∧
      ∀ b, b ≠ "outgoingcalleridmap" → (beforeCodecs gettext usort g f).post.get b = f.post.get b := by
  have hwrites := @writes_beforeCodecs gettext usort g f h
  refine ⟨hwrites.proper, hwrites.errors, ?_⟩
  intro b hb
  apply hwrites.post
  simpa using hb

/-- The checks before the codecs store what was sent, and identifiers of providers. -/
theorem clean_beforeCodecs (hg : g.config.Lacks isUnclean) (hnames : ∀ e ∈ post.entries, CleanName e)
    (hentries : ∀ e ∈ post.entries, e.2.Lacks isUnclean) (hproper : f.Proper) (h : CleanForm (· = post) f) :
    CleanForm CleanFields (beforeCodecs gettext usort g f) := by
  have hfields : ∀ v, v = post → CleanFields v := by
    intro v hv
    obtain rfl : f.post = post := h.post
    rw [hv]
    exact cleanFields_of_entries hproper.post hentries
  have h₁ := clean_vExtension hfields gettext h
  have h₂ := clean_vCallerid hfields gettext h₁
  have h₃ := clean_vOptional hfields h₂ "descr" (by decide)
  have h₄ := clean_vOptional hfields h₃ "snom-mac" (by decide)
  have h₅ := clean_vPublicAccessEditor hfields gettext h₄
  have h₆ := clean_vNotificationsEditor hfields gettext h₅
  have h₇ := clean_vVoicemailEditor hfields gettext h₆
  have h₈ := clean_vProviderAccessSelector usort hg h₇
  have hproper₁ := (leaves_vExtension gettext hproper).proper
  have hproper₂ := (leaves_vCallerid gettext hproper₁).proper
  have hproper₃ := (leaves_vOptional hproper₂ "descr").proper
  have hproper₄ := (leaves_vOptional hproper₃ "snom-mac").proper
  have hproper₅ := (leaves_vPublicAccessEditor gettext hproper₄).proper
  have hproper₆ := (leaves_vNotificationsEditor gettext hproper₅).proper
  have hproper₇ := (leaves_vVoicemailEditor gettext hproper₆).proper
  have hproper₈ := (leaves_vProviderAccessSelector hproper₇ usort g).proper
  exact clean_vOutgoingCalleridMap gettext hnames hentries hproper₈ h₈

/-- The checks after the codecs. -/
theorem clean_afterCodecs (hproper : f.Proper) (h : CleanForm CleanFields f) :
    CleanForm CleanFields (afterCodecs gettext f) := by
  have hfields : ∀ v, CleanFields v → CleanFields v := fun _ h => h
  have h₁ := clean_vPassword hfields h
  have h₂ := clean_vManualattributes gettext (leaves_vPassword hproper).proper h₁
  have h₃ := clean_vNumeric hfields gettext h₂ "busylevel" (by decide) (gettext "Busy level")
  exact clean_putTrusted hfields h₃ (by decide)

/-- The fields that are written after the codecs. -/
def afterFields : List String :=
  ["secret", "manualattributes", "busylevel", "uniqid", "language", "ringlength", "natmode", "dtmfmode"]

/-- The fields that those after it write. -/
theorem writes_afterCodecs (h : f.Proper) :
    Leaves afterFields ["manualattributes"] f (afterCodecs gettext f) := by
  have hpassword := leaves_vPassword h
  have hattributes := hpassword.trans (leaves_vManualattributes gettext hpassword.proper)
  have hnumeric := hattributes.trans
    (leaves_vNumeric gettext hattributes.proper "busylevel" (gettext "Busy level"))
  exact hnumeric.trans (leaves_putAll id
    ["uniqid", "language", "ringlength", "natmode", "dtmfmode"] hnumeric.proper)

/-- An error before the last checks is still there after them. -/
theorem errors_afterCodecs (hproper : f.Proper) (h : (afterCodecs gettext f).errors = []) :
    f.errors = [] := (writes_afterCodecs gettext hproper).errors h

/-- What is stored of a form of texts that is accepted. -/
theorem sipVerifyPhone_lacks (hg : g.config.Lacks isUnclean) (harray : post.isArray = true)
    (htexts : ∀ e ∈ post.entries, ∃ s, e.2 = .str s) (hdecodes : Decodes post)
    (herrors : (sipVerifyPhone gettext usort g post).2 = []) :
    (sipVerifyPhone gettext usort g post).1.Lacks isUnclean := by
  rw [sipVerifyPhone_eq] at herrors ⊢
  dsimp only at herrors ⊢
  have hsent : Form.Proper { element := .arr [], post := post, errors := [] } := ⟨rfl, harray⟩
  have hcleanliness := leaves_vCleanliness gettext hsent
  have hchecked : CleanForm (· = post) (vCleanliness gettext { element := .arr [], post, errors := [] }) :=
    clean_foldl (fun _ _ _ h => clean_failIf h _ _) ⟨Val.lacks_empty, rfl⟩
  have hbefore := leaves_beforeCodecs gettext usort (g := g) hcleanliness.proper
  have hproper := hbefore.1
  -- no error was added after `v_cleanliness`, nor by it
  have hcodecs := errors_afterCodecs gettext (proper_vCodecs hproper) herrors
  rw [errors_vCodecs] at hcodecs
  have haccepted := hbefore.2.1 hcodecs
  have hentries := lacks_of_vCleanliness gettext htexts haccepted
  have hclean := clean_beforeCodecs gettext usort hg hdecodes.names hentries hcleanliness.proper hchecked
  have hpost : ∀ b, b ≠ "outgoingcalleridmap" → (beforeCodecs gettext usort g
      (vCleanliness gettext { element := .arr [], post, errors := [] })).post.get b = post.get b := by
    intro b hb
    rw [hbefore.2.2 b hb, hcleanliness.post b List.not_mem_nil]
  have hassignments := codecAssignments_congr harray hproper.post (hpost "a_codecs" (by decide))
    (hpost "v_codecs" (by decide))
  have hstored := clean_vCodecs (by rw [hassignments]; exact hdecodes.codecs) hproper hclean
  exact (clean_afterCodecs gettext (proper_vCodecs hproper) hstored).element

end Accepted

/-- **Accepted phones can be stored** -/
theorem phone_storable (gettext : String → String) (usort : Usort) (g : Globals)
    (hg : g.config.Lacks isUnclean) (post : Val) (harray : post.isArray = true)
    (htexts : ∀ e ∈ post.entries, ∃ s, e.2 = .str s) (hdecodes : Decodes post)
    (herrors : (sipVerifyPhone gettext usort g post).2 = []) :
    TextLacks isUnclean (arrayToXml (sipVerifyPhone gettext usort g post).1 xmlRootobj) := by
  have hlacks := sipVerifyPhone_lacks gettext usort hg harray htexts hdecodes herrors
  generalize (sipVerifyPhone gettext usort g post).1 = phone at hlacks
  exact textLacks_arrayToXml unwritten_isUnclean (by decide) hlacks

/-- A phone as it is sent, with a list of codecs. -/
def sentPhone (audio : String) : Val :=
  .arr [(.str "extension", .str "200"), (.str "callerid", .str "Anna"), (.str "secret", .str "s3cret"),
    (.str "a_codecs", .str audio), (.str "v_codecs", .str ""), (.str "uniqid", .str "SIP-PHONE-1")]

/-- Nothing is configured yet. -/
def unconfigured : Globals := { config := .arr [], uniqidMap := .arr [] }

/-- The fields of the request are texts. -/
theorem texts_sentPhone (audio : String) : ∀ e ∈ (sentPhone audio).entries, ∃ s, e.2 = .str s := by
  intro e he
  simp only [sentPhone, Val.entries, List.mem_cons, List.not_mem_nil, or_false] at he
  rcases he with rfl | rfl | rfl | rfl | rfl | rfl <;> exact ⟨_, rfl⟩

theorem decodes_sentPhone : Decodes (sentPhone "ace[]=ulaw") := by
  have hassignments : codecAssignments (sentPhone "ace[]=ulaw") = [⟨"ace", [none], "ulaw"⟩] := by rfl
  refine ⟨?_, ?_⟩
  · intro a ha _
    rw [hassignments] at ha
    rw [List.mem_singleton.1 ha]
    refine ⟨?_, by decide⟩
    intro i hi index hindex
    rw [List.mem_singleton.1 hi] at hindex
    cases hindex
  · intro e he hstored
    have hall : ∀ e ∈ (sentPhone "ace[]=ulaw").entries,
        strstr e.1.toStr "outgoingcalleridmap_" = false := by decide
    rw [hall e he] at hstored
    cases hstored

/-- A phone with one codec. -/
theorem phone_storable_ulaw :
    TextLacks isUnclean
      (arrayToXml (sipVerifyPhone id insertionUsort unconfigured (sentPhone "ace[]=ulaw")).1 xmlRootobj) :=
  phone_storable id insertionUsort unconfigured Val.lacks_empty (sentPhone "ace[]=ulaw") rfl
    (texts_sentPhone _) decodes_sentPhone (by decide +kernel)

/-- A codec that is decoded into a character that XML forbids. -/
theorem not_phone_storable :
    ¬ ∀ (gettext : String → String) (usort : Usort) (g : Globals) (post : Val), g.config.Lacks isUnclean →
      post.isArray = true → (∀ e ∈ post.entries, ∃ s, e.2 = .str s) →
      (sipVerifyPhone gettext usort g post).2 = [] →
      TextLacks isUnclean (arrayToXml (sipVerifyPhone gettext usort g post).1 xmlRootobj) := by
  intro h
  -- the escape is decoded by `parse_str`, after the fields were cleaned
  have haccepted : (sipVerifyPhone id insertionUsort unconfigured (sentPhone "ace[]=%01")).2 = [] := by
    decide +kernel
  have hxml := h id insertionUsort unconfigured (sentPhone "ace[]=%01") Val.lacks_empty rfl
    (texts_sentPhone _) haccepted
  rw [arrayToXml_eq] at hxml
  have hrender := hxml.of_append.1.of_append.1.of_append.1.of_append.2
  have hevery := every_of_textLacks_render hrender
  revert hevery
  decide +kernel

end Sip
end Askozia
