import Askozia.Sip.Stored
import Askozia.Www.Extensions

/-!
# Saving elements with extensions

Six kinds of elements are saved in any order, new ones and edited ones.

* `extensions_unique`: in every run of saves whose extension is not in use where the form does not
  look, or would not see it, no two elements have the same one.
-/

namespace Askozia
namespace Www

open Php Config Pbx XmlParse Sip

/-! ## Saves -/

/-- A form that is sent to be saved. -/
inductive Save where
  | sipPhone (post : Val)
  | analogPhone (post : Val)
  | analogFax (post : Val)
  | application (post : Val)
  | list (p : Page) (id : Option String) (post : Val) (fresh : String)

/-- The field of the extension in the form of a page. -/
def Page.field : Page → String
  | callgroups => "extension"
  | rooms => "number"

/-- An element is saved if nothing is wrong with it. A `uniqid` reads as it is. -/
def saveVerified (k : Kind) (verified : Val × List String) (config : Val) : Val :=
  if verified.2 = [] then saveElement k (readBack normText verified.1) (indexed config) else config

/-- The extension that is stored. The lists of codecs of a SIP phone can assign to it. -/
def Save.extension : Save → String
  | sipPhone post => (storedEarly post "extension" (post.get "extension")).toStr
  | analogPhone post => (post.get "extension").toStr
  | analogFax post => (post.get "extension").toStr
  | application post => (post.get "extension").toStr
  | list p _ post _ => (post.get p.field).toStr

/-- A form of an element, new or not: what is stored of it has a `uniqid` of the kind and a text as its
extension. -/
structure Sent (k : Kind) (post uniqid extension : Val) : Prop where
  isArray : post.isArray = true
  uniqid : ∃ start u, Starts k start ∧ start.toList <+: u.toList ∧ uniqid = .str u ∧ normText u = u
  extension : ∃ x, extension = .str x

/-- Forms have texts in their fields, and a new `uniqid` is new. -/
def Save.Allowed (config : Val) : Save → Prop
  | sipPhone post =>
    Sent (.phone .sip) post (readLate post "uniqid") (storedEarly post "extension" (post.get "extension"))
  | analogPhone post => Sent (.phone .analog) post (post.get "uniqid") (post.get "extension")
  | analogFax post => Sent (.fax .analog) post (post.get "uniqid") (post.get "extension")
  | application post => Sent .application post (post.get "uniqid") (post.get "extension")
  | list p _ post fresh => (∃ x, post.get p.field = .str x) ∧ normText (p.word ++ fresh) = p.word ++ fresh ∧
      ∀ k, ∀ e ∈ elements config k, e.get "uniqid" ≠ .str (p.word ++ fresh)

section Saves

variable (gettext : String → String) (usort : Usort) (phpparsecheck : String → Option String)

/-- What is wrong with a form. -/
def Save.errors (config : Val) : Save → List String
  | sipPhone post => (sipVerifyPhone gettext usort (indexed config) post).2
  | analogPhone post => (analogVerifyPhone gettext usort (indexed config) post).2
  | analogFax post => (analogVerifyFax gettext post).2
  | application post => (applicationsVerifyApplication gettext phpparsecheck (indexed config) post).2
  | list p id post _ => p.errors gettext id.isNone post config

/-- The configuration after a save. -/
def Save.apply (config : Val) : Save → Val
  | sipPhone post =>
    saveVerified (.phone .sip) (sipVerifyPhone gettext usort (indexed config) post) config
  | analogPhone post =>
    saveVerified (.phone .analog) (analogVerifyPhone gettext usort (indexed config) post) config
  | analogFax post => saveVerified (.fax .analog) (analogVerifyFax gettext post) config
  | application post =>
    saveVerified .application (applicationsVerifyApplication gettext phpparsecheck (indexed config) post)
      config
  | list p id post fresh => submit gettext usort p id post fresh config

/-- The `uniqid` of the element that a save replaces, if it does. -/
def Save.owner (config : Val) : Save → Val
  | sipPhone post => readLate post "uniqid"
  | analogPhone post => post.get "uniqid"
  | analogFax post => post.get "uniqid"
  | application post => post.get "uniqid"
  | list p id _ _ => (id.map fun id => (atPosition usort p id config).get "uniqid").getD .null

/-- The form does not see everything that has the extension. The one of an application stops at the
first element with an equal extension, which may be the application itself with another spelling, and
it takes a line break at the end. Of rooms only new ones are looked up. -/
def Save.Unchecked (config : Val) : Save → Prop
  | application post =>
    normText (post.get "extension").toStr ≠ (post.get "extension").toStr ∨
      ∃ e ∈ elements config .application, e.get "uniqid" = post.get "uniqid" ∧
        (e.get "extension").looseEq (post.get "extension") = true
  | list .rooms none _ _ => False
  | _ => True

/-- No other element has the extension that a text is read back as. -/
def Free (config owner : Val) (extension : String) : Prop :=
  ∀ kf ∈ extensionFields, ∀ e ∈ elements config kf.1, e.get "uniqid" ≠ owner →
    e.get kf.2 ≠ .str (normText extension)

/-- The texts of a form assign to nothing else. -/
def Save.Plain : Save → Prop
  | list p _ post _ => p.Plain post
  | _ => True

/-- The condition on a save, in the state before it. -/
structure Save.Meets (config : Val) (s : Save) : Prop where
  plain : s.Plain
  free : s.errors gettext usort phpparsecheck config = [] → s.Unchecked config →
    Free config (s.owner usort config) s.extension

/-- A configuration without elements. -/
structure Empty (config : Val) : Prop where
  wellFormed : WellFormed config
  elements : ∀ k, elements config k = []

/-- The configurations that saves lead to which all meet a condition. -/
inductive Saved (meets : Val → Save → Prop) (start : Val) : Val → Prop
  | start : Saved meets start start
  | step {config : Val} {s : Save} : Saved meets start config → s.Allowed config → meets config s →
      Saved meets start (s.apply gettext usort phpparsecheck config)

end Saves

/-- Different `uniqid`s have different extensions. -/
def ExtensionsUnique (config : Val) : Prop :=
  ∀ k x k' x', (k, x) ∈ (pbxGetExtensions config).entries → (k', x') ∈ (pbxGetExtensions config).entries →
    k ≠ k' → x ≠ x'

/-! ## One element is stored -/

/-- An element is in the place of the one with its `uniqid`, and the others are as they were. -/
structure Stores (config config' : Val) (k : Kind) (u : String) (new : Val) : Prop where
  named : Named config'
  uniqid : new.get "uniqid" = .str u
  mem : ∀ k' e, e ∈ elements config' k' ↔
    (k' = k ∧ e = new) ∨ (e ∈ elements config k' ∧ e.get "uniqid" ≠ .str u)

/-- The elements have names, and different ones have different extensions. -/
structure Distinct (config : Val) : Prop where
  named : Named config
  application2 : elements config .application2 = []
  normal : ∀ k, ∀ e ∈ elements config k, ∀ u, e.get "uniqid" = .str u → normText u = u
  unique : ∀ kf ∈ extensionFields, ∀ e ∈ elements config kf.1, ∀ kf' ∈ extensionFields,
    ∀ e' ∈ elements config kf'.1, e.get "uniqid" ≠ e'.get "uniqid" → e.get kf.2 ≠ e'.get kf'.2

section Stores

variable {config config' : Val} {k : Kind} {u start : String} {new : Val}

/-- Names of a kind belong to elements of that kind. -/
theorem Distinct.own (h : Distinct config) (hk : k ≠ .application2) (hstart : Starts k start)
    (hu : start.toList <+: u.toList) :
    ∀ k', ∀ e ∈ elements config k', e.get "uniqid" = .str u → k' = k := by
  intro k' e he heu
  obtain ⟨start', hstart', hu'⟩ := h.named.starts k' e he u heu
  rcases hstart.same hstart' hu hu' with hsame | ⟨happlication, hother | hother⟩
  · exact hsame
  · rw [hother, happlication.resolve_right hk]
  · rw [hother, h.application2] at he
    cases he

theorem stores_saveElement (h : Distinct config) (hk : k ≠ .application2)
    (hstart : Starts k start) (hu : start.toList <+: u.toList)
    (hnew : new.get "uniqid" = .str u) :
    Stores config (saveElement k new (indexed config)) k u new :=
  ⟨named_saveElement_of_own h.named (h.own hk hstart hu) hstart hu hnew, hnew, fun _ _ =>
    mem_elements_saveElement h.named.wellFormed hnew (ne_of_start hstart hu) (h.own hk hstart hu)⟩

/-- Storing an element whose extension no other one has. -/
theorem distinct_of_stores (h : Distinct config) (hs : Stores config config' k u new) {field : String}
    (hfield : (k, field) ∈ extensionFields) (hnormal : normText u = u)
    (hfree : ∀ kf ∈ extensionFields, ∀ e ∈ elements config kf.1, e.get "uniqid" ≠ .str u →
      e.get kf.2 ≠ new.get field) : Distinct config' := by
  have hone : ∀ kf ∈ extensionFields, ∀ kf' ∈ extensionFields, kf.1 = kf'.1 → kf = kf' := by decide
  have hfieldOf : ∀ kf ∈ extensionFields, kf.1 = k → kf.2 = field := by
    intro kf hkf hkk
    rw [hone kf hkf (k, field) hfield hkk]
  refine ⟨hs.named, ?_, ?_, ?_⟩
  · have hne : ∀ kf ∈ extensionFields, Kind.application2 ≠ kf.1 := by decide
    apply List.eq_nil_iff_forall_not_mem.2
    intro e he
    rcases (hs.mem _ e).1 he with ⟨hc, -⟩ | ⟨he, -⟩
    · exact hne (k, field) hfield hc
    · rw [h.application2] at he
      cases he
  · intro k' e he u' hu'
    rcases (hs.mem k' e).1 he with ⟨-, rfl⟩ | ⟨he, -⟩
    · rw [hs.uniqid] at hu'
      rw [← Val.str.inj hu', hnormal]
    · exact h.normal k' e he u' hu'
  · -- two elements of the new configuration, of which at most one is new
    intro kf hkf e he kf' hkf' e' he' hne
    rcases (hs.mem _ e).1 he with ⟨hkk, rfl⟩ | ⟨he, heu⟩
    · rcases (hs.mem _ e').1 he' with ⟨-, rfl⟩ | ⟨he', heu'⟩
      · exact absurd rfl hne
      · rw [hfieldOf kf hkf hkk]
        exact (hfree kf' hkf' e' he' heu').symm
    · rcases (hs.mem _ e').1 he' with ⟨hkk', rfl⟩ | ⟨he', -⟩
      · rw [hfieldOf kf' hkf' hkk']
        exact hfree kf hkf e he heu
      · exact h.unique kf hkf e he kf' hkf' e' he' hne

end Stores

/-! ## Saving on a page -/

section Pages

variable {usort : Usort} {p : Page} {config : Val} {id : Option String} {element : Val} {fresh u : String}

/-- The configuration with the list in the order of the page. -/
def sorted (usort : Usort) (p : Page) (config : Val) : Val :=
  setList config p.kind (.ofList (shown usort p config))

theorem mem_elements_sorted {k : Kind} {e : Val} :
    e ∈ elements (sorted usort p config) k ↔ e ∈ elements config k := by
  unfold sorted
  by_cases hk : k = p.kind
  · rw [hk, elements_setList, mem_shown]
  · rw [elements_setList_of_ne hk]

theorem named_sorted (usort : Usort) (p : Page) (h : Named config) : Named (sorted usort p config) :=
  named_setList_of_perm h (usort.perm _ _)

theorem kind_ne_application2 (p : Page) : p.kind ≠ .application2 := by
  cases p <;> decide

/-- Saving on a page is saving an element with its `uniqid`, in the list that the page has sorted. -/
theorem saveAt_eq (usort : Usort) (h : Distinct config)
    (hfresh : ∀ k, ∀ e ∈ elements config k, e.get "uniqid" ≠ .str (p.word ++ fresh))
    (hnormal : normText (p.word ++ fresh) = p.word ++ fresh) (id : Option String) (element : Val) :
    ∃ u start, Starts p.kind start ∧ start.toList <+: u.toList ∧ normText u = u ∧
      saveAt usort p id element fresh config =
        saveElement p.kind (written element (.str u)) (indexed (sorted usort p config)) ∧
      ((Save.list p id .null fresh).owner usort config = .str u ∨
        (Save.list p id .null fresh).owner usort config = .null) := by
  have hnamed := named_sorted usort p h.named
  have helements : elements (sorted usort p config) p.kind = shown usort p config := elements_setList _ _ _
  have hown : ∀ {u start : String}, Starts p.kind start → start.toList <+: u.toList →
      ∀ k', ∀ e ∈ elements (sorted usort p config) k', e.get "uniqid" = .str u → k' = p.kind :=
    fun hstart hu k' e he =>
      h.own (kind_ne_application2 p) hstart hu k' e (mem_elements_sorted.1 he)
  rcases saveAt_cases usort p id element fresh config with
    ⟨id', hid, i, hi, hkey, htruthy, hsave⟩ | ⟨hnone, hsave⟩
  · have hmem := mem_shown.1 (List.getElem_mem hi)
    obtain ⟨u, -, hu⟩ := h.named.wellFormed.uniqids _ _ hmem
    obtain ⟨start, hstart, hprefix⟩ := h.named.starts _ _ hmem u hu
    have hnorm := h.normal _ _ hmem u hu
    have hnew : (written element (.str u)).get "uniqid" = .str u := by rw [get_written, hnorm]
    refine ⟨u, start, hstart, hprefix, hnorm, ?_, ?_⟩
    · -- the page goes by the position, saving by the uniqid: both find the same element
      rcases saveElement_cases hnamed.wellFormed hnew (ne_of_start hstart hprefix) (hown hstart hprefix)
        with ⟨j, hj, hju, hstore⟩ | ⟨hother, -⟩
      · have hi' : i < (elements (sorted usort p config) p.kind).length := by rw [helements]; exact hi
        have hij : i = j := by
          apply (hnamed.wellFormed.eq_of_uniqid hi' hj _).2
          rw [hju]
          simp only [helements]
          exact hu
        rw [hsave, hstore, ← hij, helements, hu, sorted, setList_setList]
      · exact absurd hu (hother p.kind _ (mem_elements_sorted.2 hmem))
    · left
      rw [Save.owner, hid, Option.map_some, Option.getD_some, atPosition_of_getElem usort hkey hi,
        hu]
  · have hstart : Starts p.kind p.word := .inl (by cases p <;> rfl)
    have hprefix : p.word.toList <+: (p.word ++ fresh).toList := by
      rw [String.toList_append]
      exact List.prefix_append _ _
    have hnew : (written element (.str (p.word ++ fresh))).get "uniqid" = .str (p.word ++ fresh) := by
      rw [get_written, hnormal]
    refine ⟨p.word ++ fresh, p.word, hstart, hprefix, hnormal, ?_, ?_⟩
    · rcases saveElement_cases hnamed.wellFormed hnew (ne_of_start hstart hprefix) (hown hstart hprefix)
        with ⟨j, hj, hju, -⟩ | ⟨-, hstore⟩
      · exact absurd hju (hfresh _ _ (mem_elements_sorted.1 (List.getElem_mem hj)))
      · rw [hsave, hstore, helements, sorted, setList_setList]
    · -- no element is shown at the position, so nobody owns the extension
      right
      cases id with
      | none => rfl
      | some id' =>
        have hfalse := hnone id' rfl
        rw [Save.owner, Option.map_some, Option.getD_some]
        rcases idx_ofList_cases (shown usort p config) (Val.str id').key with hnull | ⟨i, hi, -, hat⟩
        · rw [atPosition, hnull]
          rfl
        · have hmem := mem_shown.1 (List.getElem_mem hi)
          obtain ⟨u, -, hu⟩ := h.named.wellFormed.uniqids _ _ hmem
          obtain ⟨start, hstart, hprefix⟩ := h.named.starts _ _ hmem u hu
          rw [atPosition, hat, truthy_of_uniqid hu (ne_of_start hstart hprefix)] at hfalse
          cases hfalse

/-- Saving on a page stores one element. -/
theorem stores_saveAt (usort : Usort) (h : Distinct config)
    (hfresh : ∀ k, ∀ e ∈ elements config k, e.get "uniqid" ≠ .str (p.word ++ fresh))
    (hnormal : normText (p.word ++ fresh) = p.word ++ fresh) (id : Option String) (element : Val) :
    ∃ u, Stores config (saveAt usort p id element fresh config) p.kind u (written element (.str u)) ∧
      normText u = u ∧ ((Save.list p id .null fresh).owner usort config = .str u ∨
        (Save.list p id .null fresh).owner usort config = .null) := by
  obtain ⟨u, start, hstart, hprefix, hnorm, hsave, howner⟩ :=
    saveAt_eq usort h hfresh hnormal id element
  have hnamed := named_sorted usort p h.named
  have hown : ∀ k', ∀ e ∈ elements (sorted usort p config) k', e.get "uniqid" = .str u → k' = p.kind :=
    fun k' e he => h.own (kind_ne_application2 p) hstart hprefix k' e (mem_elements_sorted.1 he)
  have hnew : (written element (.str u)).get "uniqid" = .str u := by rw [get_written, hnorm]
  refine ⟨u, ⟨?_, hnew, ?_⟩, hnorm, howner⟩
  · rw [hsave]
    exact named_saveElement_of_own hnamed hown hstart hprefix hnew
  · intro k' e
    rw [hsave, mem_elements_saveElement hnamed.wellFormed hnew (ne_of_start hstart hprefix) hown,
      mem_elements_sorted]

end Pages

/-! ## Texts that are compared -/

section Texts

variable {config : Val}

/-- A number is read back as it is. -/
theorem normText_of_digits {x : String} (h : ∀ c ∈ x.toList, c.isDigit = true) : normText x = x := by
  apply normText_of_plain
  intro c hc
  have hne : ∀ d : Char, d.isDigit = false → c ≠ d := by
    intro d hd heq
    have hdigit := h c hc
    rw [heq, hd] at hdigit
    cases hdigit
  refine ⟨?_, hne _ rfl, hne _ rfl, hne _ rfl⟩
  simp [Xml.isBreak, hne '&' rfl, hne '"' rfl, hne '<' rfl, hne '>' rfl, hne '\n' rfl]

/-- What a new room is looked up with is not in use, if it is not found. -/
theorem free_of_not_inArray (h : Named config) {x : String} (hx : normText x = x)
    (hnone : inArray (.str x) (pbxGetExtensions config) = false) (owner : Val) : Free config owner x := by
  intro kf hkf e he _ heq
  rw [hx] at heq
  have hmem := (mem_extensions h).2 ⟨kf, hkf, e, he, rfl, heq⟩
  have hfound : inArray (.str x) (pbxGetExtensions config) = true :=
    List.any_eq_true.2 ⟨.str x, List.mem_map.2 ⟨_, hmem, rfl⟩, Val.looseEq_self x⟩
  rw [hnone] at hfound
  cases hfound

/-- The first element that is found has the `uniqid` of the form, and with it an extension that is
equal to the one sent. -/
theorem free_of_arraySearch (h : Distinct config) {u x start : String}
    (hstart : Starts .application start) (hu : start.toList <+: u.toList)
    (hfirst : ∀ key, arraySearch (.str x) (pbxGetExtensions config) = some key →
      key.val.looseEq (.str u) = true)
    (hchecked : ¬ (normText x ≠ x ∨ ∃ e ∈ elements config .application, e.get "uniqid" = .str u ∧
      (e.get "extension").looseEq (.str x) = true)) : Free config (.str u) x := by
  rw [not_or, not_not] at hchecked
  obtain ⟨hx, hself⟩ := hchecked
  intro kf hkf e he hne heq
  rw [hx] at heq
  have hmem := (mem_extensions h.named).2 ⟨kf, hkf, e, he, rfl, heq⟩
  unfold arraySearch at hfirst
  cases hfind : (pbxGetExtensions config).entries.find? fun e => e.2.looseEq (.str x) with
  | none =>
    have hall := List.find?_eq_none.1 hfind _ hmem
    exact hall (Val.looseEq_self x)
  | some first =>
    rw [hfind] at hfirst
    have hequal := hfirst first.1 rfl
    obtain ⟨kf₀, hkf₀, e₀, he₀, hkey, hvalue⟩ :=
      (mem_extensions h.named).1 (List.mem_of_find?_eq_some hfind)
    obtain ⟨u₀, hu₀, hkey₀⟩ := Named.key h.named he₀
    -- a name is no number, so that equal names are the same
    have hsame : u₀ = u := by
      rw [← hkey, hkey₀] at hequal
      have hnumber := (number?_of_start hstart hu).1
      have hequal : (Val.str u₀).looseEq (.str u) = true := hequal
      rw [Val.looseEq, hnumber] at hequal
      simpa using hequal
    rw [hsame] at hu₀
    have hkind := h.own (by decide) hstart hu kf₀.1 e₀ he₀ hu₀
    have hfield : ∀ kf ∈ extensionFields, kf.1 = .application → kf.2 = "extension" := by decide
    apply hself
    refine ⟨e₀, hkind ▸ he₀, hu₀, ?_⟩
    have hloose : first.2.looseEq (.str x) = true := by simpa using List.find?_some hfind
    rw [← hfield kf₀ hkf₀ hkind, hvalue]
    exact hloose

end Texts

/-! ## Runs -/

section Runs

variable {gettext : String → String} {usort : Usort} {phpparsecheck : String → Option String}
  {config start : Val}

/-- Saving a form of an account or an application. -/
theorem distinct_saveVerified (h : Distinct config) {k : Kind} {post uniqid extension : Val}
    (hsent : Sent k post uniqid extension) {verified : Val × List String}
    (hdialled : Dialled uniqid extension verified.1) (hfield : (k, "extension") ∈ extensionFields)
    (hfree : verified.2 = [] → Free config uniqid extension.toStr) :
    Distinct (saveVerified k verified config) := by
  unfold saveVerified
  split_ifs with herrors
  · obtain ⟨start, u, hstart, hprefix, hu, hnorm⟩ := hsent.uniqid
    obtain ⟨x, hx⟩ := hsent.extension
    have hk : k ≠ .application2 := by
      have hall : ∀ kf ∈ extensionFields, kf.1 ≠ .application2 := by decide
      exact hall (k, "extension") hfield
    have hnew : (readBack normText verified.1).get "uniqid" = .str u := by
      rw [get_readBack hdialled.isArray (hdialled.uniqid.trans hu), hnorm]
    have hextension : (readBack normText verified.1).get "extension" = .str (normText x) :=
      get_readBack hdialled.isArray (hdialled.extension.trans hx)
    have hfree := hfree herrors
    rw [hu, hx] at hfree
    apply distinct_of_stores h (stores_saveElement h hk hstart hprefix hnew) hfield hnorm
    rw [hextension]
    exact hfree
  · exact h

theorem get_element (p : Page) (post : Val) : (p.element post).get p.field = post.get p.field := by
  cases p <;> rfl

/-- Saving a form of a page. -/
theorem distinct_submit (h : Distinct config) {p : Page} {id : Option String} {post : Val}
    {fresh : String} (hallowed : (Save.list p id post fresh).Allowed config)
    (hfree : p.errors gettext id.isNone post config = [] →
      Free config ((Save.list p id post fresh).owner usort config) (post.get p.field).toStr) :
    Distinct (submit gettext usort p id post fresh config) := by
  unfold submit
  split_ifs with herrors
  · obtain ⟨⟨x, hx⟩, hnormal, hfresh⟩ := hallowed
    obtain ⟨u, hstores, hnorm, howner⟩ :=
      stores_saveAt usort h hfresh hnormal id (p.element post)
    have hfield : (p.kind, p.field) ∈ extensionFields := by cases p <;> decide
    have hne : p.field ≠ "uniqid" := by cases p <;> decide
    -- what is stored is the field as it is read back from the file
    have hextension : (written (p.element post) (.str u)).get p.field = .str (normText x) := by
      have hother : ((p.element post).set (.str "uniqid") (.str u)).get p.field =
          (p.element post).get p.field := by
        apply Val.idx_set_of_ne _ fun hc => hne (Key.str.inj hc)
        intro s hs
        cases p <;> cases hs
      apply get_readBack rfl
      rw [hother, get_element, hx]
    apply distinct_of_stores h hstores hfield hnorm
    intro kf hkf e he heu
    rw [hextension]
    have hfree := hfree herrors kf hkf e he
    rw [hx] at hfree
    apply hfree
    rcases howner with howner | howner
    · exact fun hc => heu (hc.trans howner)
    · obtain ⟨u', -, hu'⟩ := h.named.wellFormed.uniqids _ e he
      intro hc
      have hnull := hc.trans howner
      rw [hu'] at hnull
      cases hnull
  · exact h

/-- A new room has a number that no other element has. -/
theorem free_of_roomErrors (h : Named config) {post : Val} {x : String} (hx : post.get "number" = .str x)
    (herrors : roomErrors gettext true post config = []) (owner : Val) : Free config owner x := by
  unfold roomErrors at herrors
  simp only [List.append_eq_nil_iff, Bool.true_and] at herrors
  obtain ⟨⟨⟨⟨-, hnumeric⟩, hfound⟩, -⟩, -⟩ := herrors
  rw [hx] at hnumeric hfound
  have hdigits : verifyIsNumericint x = true := by
    by_contra hc
    rw [Val.toStr, if_neg hc] at hnumeric
    cases hnumeric
  apply free_of_not_inArray h (normText_of_digits (List.all_eq_true.1 hdigits))
  split_ifs at hfound with hroom hother
  simpa using hother

/-- A save that meets the condition. -/
theorem distinct_apply (h : Distinct config) {s : Save} (hallowed : s.Allowed config)
    (hmeets : s.Meets gettext usort phpparsecheck config) :
    Distinct (s.apply gettext usort phpparsecheck config) := by
  -- phones and faxes are not checked against all elements; applications and rooms partly are
  cases s with
  | sipPhone post =>
    exact distinct_saveVerified h hallowed (dialled_sip gettext usort hallowed.isArray) (by decide)
      fun herrors => hmeets.free herrors trivial
  | analogPhone post =>
    exact distinct_saveVerified h hallowed (dialled_analog gettext usort hallowed.isArray) (by decide)
      fun herrors => hmeets.free herrors trivial
  | analogFax post =>
    exact distinct_saveVerified h hallowed (dialled_fax gettext hallowed.isArray) (by decide)
      fun herrors => hmeets.free herrors trivial
  | application post =>
    have hdialled := dialled_application gettext phpparsecheck (g := indexed config) hallowed.isArray
    apply distinct_saveVerified h hallowed hdialled.1 (by decide)
    intro herrors
    by_cases hunchecked : (Save.application post).Unchecked config
    · exact hmeets.free herrors hunchecked
    · obtain ⟨start, u, hstart, hprefix, hu, -⟩ := hallowed.uniqid
      obtain ⟨x, hx⟩ := hallowed.extension
      have hfirst := (hdialled.2 herrors).2
      have hchecked : ¬ (normText (post.get "extension").toStr ≠ (post.get "extension").toStr ∨
          ∃ e ∈ elements config .application, e.get "uniqid" = post.get "uniqid" ∧
            (e.get "extension").looseEq (post.get "extension") = true) := hunchecked
      rw [hu, hx] at hfirst hchecked ⊢
      exact free_of_arraySearch h hstart hprefix hfirst hchecked
  | list p id post fresh =>
    apply distinct_submit h hallowed
    intro herrors
    by_cases hunchecked : (Save.list p id post fresh).Unchecked config
    · exact hmeets.free herrors hunchecked
    · obtain ⟨⟨x, hx⟩, -⟩ := hallowed
      cases p with
      | callgroups => exact absurd trivial hunchecked
      | rooms =>
        cases id with
        | some id => exact absurd trivial hunchecked
        | none =>
          rw [hx]
          exact free_of_roomErrors h.named hx herrors _

theorem distinct_of_empty (h : Empty start) : Distinct start := by
  have hnone : ∀ k, ∀ e, e ∉ elements start k := by
    intro k e he
    rw [h.elements k] at he
    cases he
  refine ⟨⟨h.wellFormed, ?_⟩, h.elements _, ?_, ?_⟩
  · exact fun k e he => absurd he (hnone k e)
  · exact fun k e he => absurd he (hnone k e)
  · exact fun kf _ e he => absurd he (hnone _ e)

/-- In every configuration that saves lead to which meet the condition, different elements have
different extensions. -/
theorem extensions_unique (hstart : Empty start)
    (hrun : Saved gettext usort phpparsecheck
      (fun config s => s.Meets gettext usort phpparsecheck config) start config) :
    ExtensionsUnique config := by
  have hdistinct : Distinct config := by
    -- every save keeps the extensions distinct; only the last step needs its condition
    induction hrun with
    | start => exact distinct_of_empty hstart
    | step _ hallowed hmeets ih => exact distinct_apply ih hallowed hmeets
  intro k x k' x' hmem hmem' hne
  obtain ⟨kf, hkf, e, he, rfl, rfl⟩ := (mem_extensions hdistinct.named).1 hmem
  obtain ⟨kf', hkf', e', he', rfl, rfl⟩ := (mem_extensions hdistinct.named).1 hmem'
  apply hdistinct.unique kf hkf e he kf' hkf' e' he'
  intro hc
  exact hne (by rw [hc])

end Runs

/-! ## A room and a fax -/

theorem empty_nothing : Empty (.arr []) := by
  have helements : ∀ k ∈ Kind.all, elements (.arr []) k = [] := by decide
  exact ⟨wellFormed_of_all (by decide) (by decide) (by decide),
    fun k => helements k k.mem_all⟩

/-- A new room. -/
def officeRoom : Save :=
  .list .rooms none (.arr [(.str "number", .str "100"), (.str "name", .str "Office"),
    (.str "pin", .str ""), (.str "publicaccess", .str ""), (.str "publicname", .str "")]) "1"

/-- A fax. -/
def officeFax (extension : String) : Save :=
  .analogFax (.arr [(.str "uniqid", .str "ANALOG-FAX-1"), (.str "extension", .str extension),
    (.str "callerid", .str "Office"), (.str "port", .str "DAHDIPORT-1")])

/-- The configuration with the room. -/
def roomSaved : Val :=
  officeRoom.apply id insertionUsort (fun _ => none) (.arr [])

/-- The configuration with the room and the fax. -/
def faxSaved (extension : String) : Val :=
  (officeFax extension).apply id insertionUsort (fun _ => none) roomSaved

/-- Both are saved, if the condition holds of the fax. -/
theorem saved_faxSaved {meets : Val → Save → Prop} (extension : String) (hroom : meets (.arr []) officeRoom)
    (hfax : meets roomSaved (officeFax extension)) :
    Saved id insertionUsort (fun _ => none) meets (.arr [])
      (faxSaved extension) := by
  refine .step (.step .start ⟨⟨"100", rfl⟩, by decide, ?_⟩ hroom) ⟨rfl, ?_, extension, rfl⟩ hfax
  · intro k e he
    rw [empty_nothing.elements k] at he
    cases he
  · exact ⟨"ANALOG-FAX-", "ANALOG-FAX-1", .inl rfl, by decide, rfl, by decide⟩

theorem free_roomSaved : Free roomSaved (.str "ANALOG-FAX-1") "101" := by
  unfold Free
  decide

/-- A fax with another number. -/
theorem extensions_unique_office : Empty (.arr []) ∧ ExtensionsUnique (faxSaved "101") :=
  ⟨empty_nothing, extensions_unique empty_nothing
    (saved_faxSaved "101" ⟨trivial, fun _ hc => hc.elim⟩ ⟨trivial, fun _ _ => free_roomSaved⟩)⟩

/-- A fax with the number of a room. -/
theorem not_extensions_unique :
    ¬ ∀ start config : Val, Empty start →
      Saved id insertionUsort (fun _ => none) (fun _ _ => True)
        start config → ExtensionsUnique config := by
  intro h
  have hunique := h (.arr []) (faxSaved "100") empty_nothing (saved_faxSaved "100" trivial trivial)
  have hentries : (.str "CONFERENCE-ROOM-1", .str "100") ∈ (pbxGetExtensions (faxSaved "100")).entries ∧
      (.str "ANALOG-FAX-1", .str "100") ∈ (pbxGetExtensions (faxSaved "100")).entries := by decide
  exact hunique _ _ _ _ hentries.1 hentries.2 (by decide) rfl

end Www
end Askozia
