import Askozia.Config.Saving
import Askozia.Dialplan.Steps
import Askozia.Pbx.Base64
import Askozia.Php.Loops
import Mathlib.Data.List.Perm.Basic

/-!
# Saving providers

A page verifies the fields it was sent, and saves the provider if nothing is wrong.

* `verified_analog`: what is known of a provider that was accepted;
* `unbroken_analog`, `unbroken_saveElement`: its texts have one line, and saving keeps that.
-/

namespace Askozia
namespace Pbx

open Php Config Dialplan

/-! ## Fields of a form -/

/-- Fields that may have several lines. -/
def textareas : List String := ["dialpattern", "manualattributes"]

/-- `$element` and `$post` are arrays. -/
structure Form.Proper (f : Form) : Prop where
  element : f.element.isArray = true
  post : f.post.isArray = true

/-- No text has a line break, but for those that are taken apart into lines. -/
structure Form.Tidy (f : Form) : Prop where
  element : Unbroken f.element
  post : ∀ e ∈ f.post.entries, e.1.toStr ∉ textareas → Unbroken e.2

/-- From `f` to `f'`, only the fields `written` of the element and `reposted` of the form change, and
errors stay. -/
structure Leaves (written reposted : List String) (f f' : Form) : Prop where
  proper : f'.Proper
  element : ∀ b, b ∉ written → f'.element.get b = f.element.get b
  post : ∀ b, b ∉ reposted → f'.post.get b = f.post.get b
  errors : f'.errors = [] → f.errors = []

section Forms

variable {f f' f'' : Form} {written reposted written' reposted' : List String}

/-- A step that does nothing leaves everything. -/
theorem Leaves.refl (h : f.Proper) : Leaves [] [] f f :=
  ⟨h, fun _ _ => rfl, fun _ _ => rfl, id⟩

/-- Two steps leave what both of them leave. -/
theorem Leaves.trans (h : Leaves written reposted f f') (h' : Leaves written' reposted' f' f'') :
    Leaves (written ++ written') (reposted ++ reposted') f f'' := by
  refine ⟨h'.proper, ?_, ?_, fun herrors => h.errors (h'.errors herrors)⟩
  · intro b hb
    rw [List.mem_append, not_or] at hb
    rw [h'.element b hb.2, h.element b hb.1]
  · intro b hb
    rw [List.mem_append, not_or] at hb
    rw [h'.post b hb.2, h.post b hb.1]

/-- An array is no text. -/
theorem ne_str_of_isArray {v : Val} (h : v.isArray = true) (s : String) : v ≠ .str s := by
  intro hs
  rw [hs] at h
  cases h

/-- Writing a field of the element leaves the other fields and the form. -/
theorem leaves_put (h : f.Proper) (field : String) (value : Val) :
    Leaves [field] [] f (f.put field value) := by
  refine ⟨⟨rfl, h.post⟩, ?_, fun _ _ => rfl, id⟩
  intro b hb
  have hne : Key.str b ≠ .str field := fun heq => hb (List.mem_singleton.2 (Key.str.inj heq))
  exact Val.idx_set_of_ne value hne (ne_str_of_isArray h.element)

/-- Writing a field of the form leaves the element. -/
theorem leaves_repost (h : f.Proper) (field : String) (value : Val) :
    Leaves [] [field] f (f.repost field value) := by
  refine ⟨⟨h.element, rfl⟩, fun _ _ => rfl, ?_, id⟩
  intro b hb
  have hne : Key.str b ≠ .str field := fun heq => hb (List.mem_singleton.2 (Key.str.inj heq))
  exact Val.idx_set_of_ne value hne (ne_str_of_isArray h.post)

/-- An error leaves both. -/
theorem leaves_fail (h : f.Proper) (error : String) : Leaves [] [] f (f.fail error) := by
  refine ⟨⟨h.element, h.post⟩, fun _ _ => rfl, fun _ _ => rfl, ?_⟩
  intro herrors
  exact absurd herrors (List.append_ne_nil_of_right_ne_nil _ (List.cons_ne_nil _ _))

/-- So does an error under a condition. -/
theorem leaves_failIf (h : f.Proper) (wrong : Bool) (error : String) :
    Leaves [] [] f (f.failIf wrong error) := by
  unfold Form.failIf
  split_ifs
  · exact leaves_fail h error
  · exact .refl h

/-- A loop that leaves all fields alone. -/
theorem leaves_foldl {α : Type} {check : Form → α → Form}
    (hcheck : ∀ (f : Form) (x : α), f.Proper → Leaves [] [] f (check f x)) (xs : List α) :
    ∀ {f : Form}, f.Proper → Leaves [] [] f (xs.foldl check f) := by
  induction xs with
  | nil => exact fun h => .refl h
  | cons x r ih =>
    intro f h
    have hx := hcheck f x h
    exact hx.trans (ih hx.proper)

/-- A field that was written is read back. -/
@[simp] theorem put_get_self (field : String) (value : Val) :
    (f.put field value).element.get field = value := Val.idx_set_self _ _ _

/-- Writing an unbroken value keeps the element on its lines. -/
theorem Form.Tidy.put (h : f.Tidy) (field : String) {value : Val} (hvalue : Unbroken value) :
    (f.put field value).Tidy := by
  refine ⟨?_, h.post⟩
  intro hmem
  rcases List.mem_append.1 (Val.chars_set hmem) with hmem | hmem
  · exact h.element hmem
  · exact hvalue hmem

/-- Writing it into the form keeps the form on its lines. -/
theorem Form.Tidy.repost (h : f.Tidy) (field : String) {value : Val} (hvalue : Unbroken value) :
    (f.repost field value).Tidy := by
  refine ⟨h.element, ?_⟩
  intro e he hfield
  rcases Val.mem_setEntry he with rfl | he
  · exact hvalue
  · exact h.post e he hfield

/-- An error changes neither. -/
theorem Form.Tidy.failIf (h : f.Tidy) (wrong : Bool) (error : String) : (f.failIf wrong error).Tidy := by
  unfold Form.failIf
  split_ifs
  · exact ⟨h.element, h.post⟩
  · exact h

/-- What every check keeps is kept by all of them. -/
theorem Form.Tidy.foldl {α : Type} {check : Form → α → Form}
    (hcheck : ∀ (f : Form) (x : α), f.Tidy → (check f x).Tidy) (xs : List α) :
    ∀ {f : Form}, f.Tidy → (xs.foldl check f).Tidy := by
  induction xs with
  | nil => exact fun h => h
  | cons x r ih => exact fun h => ih (hcheck _ x h)

/-- A field that is no text area was posted on one line. -/
theorem Form.Tidy.get (h : f.Tidy) (hproper : f.Proper) {field : String} (hfield : field ∉ textareas) :
    Unbroken (f.post.get field) := by
  cases hpost : f.post with
  | arr es =>
    have hentries := h.post
    rw [hpost] at hentries
    rw [Val.get, Val.idx_arr]
    cases hlookup : es.lookup (.str field) with
    | none => exact unbroken_null
    | some x => exact hentries _ (Val.mem_of_lookup hlookup) hfield
  | _ =>
    have harray := hproper.post
    rw [hpost] at harray
    cases harray

theorem unbroken_bool (b : Bool) : Unbroken (.bool b) := by
  simp [Unbroken, Val.chars]

/-- Stripping takes characters away. -/
theorem unbroken_vStrip {v : Val} (h : Unbroken v) : Unbroken (vStrip v) := by
  unfold vStrip
  split_ifs
  · exact h
  · exact unbroken_bool _
  · exact h
  · exact unbroken_bool _

end Forms

/-! ## The checks -/

section Checks

variable {f : Form} (gettext : String → String)

/-- `v_cleanliness` only reports errors. -/
theorem leaves_vCleanliness (h : f.Proper) : Leaves [] [] f (vCleanliness gettext f) :=
  leaves_foldl (fun _ _ h => leaves_failIf h _ _) _ h

/-- `v_required` writes the field it checks. -/
theorem leaves_vRequired (h : f.Proper) (field name : String) :
    Leaves [field] [] f (vRequired gettext field name f) := by
  have hfail := leaves_failIf h (!strlen (f.post.get field))
    (sprintf (gettext "The %s field is required.") [name])
  exact hfail.trans (leaves_put hfail.proper field _)

/-- `v_port` writes the port. -/
theorem leaves_vPort (h : f.Proper) : Leaves ["port"] [] f (vPort gettext f) :=
  (leaves_failIf h _ _).trans (leaves_put (leaves_failIf h _ _).proper "port" _)

/-- `v_numeric` writes the field it checks. -/
theorem leaves_vNumeric (h : f.Proper) (field name : String) :
    Leaves [field] [] f (vNumeric gettext field name f) :=
  (leaves_failIf h _ _).trans (leaves_put (leaves_failIf h _ _).proper field _)

/-- The check of one incoming map only reports errors. -/
theorem leaves_checkIncoming (h : f.Proper) (map : Val) :
    Leaves [] [] f (checkIncoming gettext f map) := by
  unfold checkIncoming
  dsimp only
  split_ifs
  · split
    · exact leaves_fail h _
    · exact .refl h
  · exact .refl h

/-- `v_incomingprovrouting` writes the maps, to the element and back to the form. -/
theorem leaves_vIncomingProvRouting (h : f.Proper) :
    Leaves ["incomingextensionmap"] ["incomingextensionmap"] f (vIncomingProvRouting gettext f) := by
  have hpost := leaves_repost h "incomingextensionmap" (gatherIncomingextensionmaps f.post)
  have hloop := hpost.trans (leaves_foldl (fun _ map h => leaves_checkIncoming gettext h map)
    (gatherIncomingextensionmaps f.post).vals hpost.proper)
  exact hloop.trans (leaves_put hloop.proper "incomingextensionmap" _)

/-- The check of one outgoing pattern only reports errors. -/
theorem leaves_checkOutgoing (h : f.Proper) (pattern : String) :
    Leaves [] [] f (checkOutgoing gettext f pattern) := by
  unfold checkOutgoing
  split
  · exact leaves_fail h _
  · exact .refl h

/-- `v_outgoingprovrouting` writes the patterns, to the element and back to the form. -/
theorem leaves_vOutgoingProvRouting (h : f.Proper) :
    Leaves ["dialpattern"] ["dialpattern"] f (vOutgoingProvRouting gettext f) := by
  have hpost := leaves_repost h "dialpattern"
    (.ofList ((splitAndCleanLines (f.post.get "dialpattern").toStr).map .str))
  have hloop := hpost.trans (leaves_foldl (fun _ pattern h => leaves_checkOutgoing gettext h pattern)
    (splitAndCleanLines (f.post.get "dialpattern").toStr) hpost.proper)
  exact hloop.trans (leaves_put hloop.proper "dialpattern" _)

/-- `v_outgoingprovcallerid` writes the two fields of the caller id. -/
theorem leaves_vOutgoingProvCallerid (h : f.Proper) :
    Leaves ["calleridsource", "calleridstring"] [] f (vOutgoingProvCallerid gettext f) := by
  have hfail := leaves_failIf h ((f.post.get "calleridsource").looseEq (.str "string") &&
    !pbxIsValidCalleridString (f.post.get "calleridstring").toStr)
    (gettext "A valid Caller ID string must be specified.")
  have hsource := hfail.trans (leaves_put hfail.proper "calleridsource" (f.post.get "calleridsource"))
  exact hsource.trans (leaves_put hsource.proper "calleridstring" _)

/-- `v_incomingprovcallerid` writes the two fields of the override. -/
theorem leaves_vIncomingProvCallerid (h : f.Proper) :
    Leaves ["override", "overridestring"] [] f (vIncomingProvCallerid gettext f) := by
  have hfail := leaves_failIf h (((f.post.get "override").looseEq (.str "prepend") ||
    (f.post.get "override").looseEq (.str "replace")) && !(f.post.get "overridestring").truthy)
    (gettext "An incoming Caller ID override string must be specified.")
  have hoverride := hfail.trans (leaves_put hfail.proper "override"
    (if (f.post.get "override").looseEq (.str "disable") then .bool false
      else f.post.get "override"))
  exact hoverride.trans (leaves_put hoverride.proper "overridestring" _)

/-- `v_manualattributes` writes the attributes, to the element and back to the form. -/
theorem leaves_vManualattributes (h : f.Proper) :
    Leaves ["manualattributes"] ["manualattributes"] f (vManualattributes gettext f) := by
  have hloop := @leaves_foldl _ (fun f (x : String × ℕ) => f.failIf (!isAttribute x.1.toList)
    (sprintf (gettext "Manual Attribute line number %s is invalid.") [toString (x.2 + 1)]))
    (fun _ _ h => leaves_failIf h _ _)
    (splitAndCleanLines (f.post.get "manualattributes").toStr).zipIdx f h
  have hput := hloop.trans (leaves_put hloop.proper "manualattributes" (vStrip (.str (base64Encode
    (implode "\n" (splitAndCleanLines (f.post.get "manualattributes").toStr))))))
  exact hput.trans (leaves_repost hput.proper "manualattributes" _)

/-- A loop that writes fields as they were sent, or made of what was sent. -/
theorem leaves_putAll (value : Val → Val) (fields : List String) : ∀ {f : Form}, f.Proper →
    Leaves fields [] f (fields.foldl (fun f o => f.put o (value (f.post.get o))) f) := by
  induction fields with
  | nil => exact fun h => .refl h
  | cons o r ih =>
    intro f h
    have hput := leaves_put h o (value (f.post.get o))
    exact hput.trans (ih hput.proper)

/-- What such a loop writes. -/
theorem get_putAll (value : Val → Val) {fields : List String} {field : String}
    (hfield : field ∈ fields) : ∀ {f : Form}, f.Proper →
    (fields.foldl (fun f o => f.put o (value (f.post.get o))) f).element.get field =
      value (f.post.get field) := by
  induction fields with
  | nil => cases hfield
  | cons o r ih =>
    intro f h
    have hput := leaves_put h o (value (f.post.get o))
    rw [List.foldl_cons]
    by_cases hr : field ∈ r
    · rw [ih hr hput.proper]
      rfl
    · rcases List.mem_cons.1 hfield with rfl | hr'
      · rw [(leaves_putAll value r hput.proper).element field hr, put_get_self]
      · exact absurd hr' hr

end Checks

/-! ## Texts -/

/-- The pieces a text is split into have none of the separators. -/
theorem not_mem_of_mem_pieces {separator : Char → Bool} {c : Char} (hc : separator c = true) :
    ∀ {s p : List Char}, p ∈ pieces separator s → c ∉ p := by
  intro s
  -- on the text, whose first character belongs to the first piece
  induction s with
  | nil =>
    intro p hp
    cases hp
  | cons d r ih =>
    intro p hp
    unfold pieces at hp
    split_ifs at hp with hd
    · exact ih hp
    · have hne : c ≠ d := by
        rintro rfl
        exact hd hc
      cases r with
      | nil =>
        obtain rfl := List.mem_singleton.1 hp
        simp [hne]
      | cons e t =>
        dsimp only at hp
        split_ifs at hp with he
        · rcases List.mem_cons.1 hp with rfl | hp
          · simp [hne]
          · exact ih hp
        · cases hpieces : pieces separator (e :: t) with
          | nil =>
            rw [hpieces] at hp
            obtain rfl := List.mem_singleton.1 hp
            simp [hne]
          | cons q qs =>
            rw [hpieces] at hp ih
            rcases List.mem_cons.1 hp with rfl | hp
            · have hq := ih List.mem_cons_self
              simp [hne, hq]
            · exact ih (List.mem_cons_of_mem _ hp)

/-- The lines a field is taken apart into have no line break. -/
theorem oneLine_splitAndCleanLines {s line : String} (h : line ∈ splitAndCleanLines s) :
    '\n' ∉ line.toList := by
  obtain ⟨piece, hpiece, rfl⟩ := List.mem_map.1 h
  obtain ⟨cs, hcs, rfl⟩ := List.mem_map.1 hpiece
  intro hmem
  rw [trim_toList] at hmem
  have hmem := mem_of_mem_trimChars hmem
  rw [String.toList_ofList] at hmem
  exact not_mem_of_mem_pieces (c := '\n') rfl hcs hmem

/-- Lines without ends of line are stored as an unbroken list. -/
theorem unbroken_lines {lines : List String} (h : ∀ line ∈ lines, '\n' ∉ line.toList) :
    Unbroken (.ofList (lines.map .str)) := by
  intro hmem
  obtain ⟨v, hv, hmem⟩ := List.mem_flatMap.1 (Val.chars_ofList hmem)
  obtain ⟨line, hline, rfl⟩ := List.mem_map.1 hv
  rw [Val.chars_str] at hmem
  exact h line hline hmem

/-- A text that is encoded has no ends of line, whatever was typed. -/
theorem unbroken_base64Encode (s : String) : Unbroken (.str (base64Encode s)) := by
  intro hmem
  rw [Val.chars_str] at hmem
  exact @forall_mem_base64Encode (· ≠ '\n') (by decide) (by decide) s '\n' hmem rfl

/-- The maps that are gathered have only texts of the form. -/
theorem unbroken_gatherIncomingextensionmaps {post : Val}
    (h : ∀ e ∈ post.entries, e.1.toStr ∉ textareas → Unbroken e.2) :
    Unbroken (gatherIncomingextensionmaps post) := by
  -- the fields that are gathered are no text areas, and every other field is unbroken
  have hloop : ∀ (entries : List (Key × Val)) (maps : Val), Unbroken maps →
      (∀ e ∈ entries, e.1.toStr ∉ textareas → Unbroken e.2) →
      Unbroken (entries.foldl (fun maps e =>
        let key := e.1.toStr
        if (strstr key "destinationid_" && e.2.truthy) ||
            (strstr key "incomingpattern_" && strlen e.2) then
          let words := explode '_' key
          let outer := (Val.str (words[1]?.getD "")).key
          let inner := (Val.str (words[0]?.getD "")).key
          maps.set outer ((maps.idx outer).set inner e.2)
        else maps) maps) := by
    intro entries
    induction entries with
    | nil => exact fun maps hmaps _ => hmaps
    | cons e r ih =>
      intro maps hmaps hentries
      rw [List.foldl_cons]
      refine ih _ ?_ fun x hx => hentries x (List.mem_cons_of_mem _ hx)
      dsimp only
      split_ifs with hkey
      · have hfield : e.1.toStr ∉ textareas := by
          intro hmem
          have hfalse : ∀ field ∈ textareas, strstr field "destinationid_" = false ∧
              strstr field "incomingpattern_" = false := by decide
          rw [(hfalse _ hmem).1, (hfalse _ hmem).2] at hkey
          cases hkey
        have he := hentries e List.mem_cons_self hfield
        intro hmem
        rcases List.mem_append.1 (Val.chars_set hmem) with hmem | hmem
        · exact hmaps hmem
        · rcases List.mem_append.1 (Val.chars_set hmem) with hmem | hmem
          · exact hmaps (Val.chars_idx hmem)
          · exact he hmem
      · exact hmaps
  refine hloop _ _ ?_ h
  simp [Unbroken]

section Tidy

variable {f : Form} (gettext : String → String)

/-- `v_cleanliness` keeps the form tidy. -/
theorem tidy_vCleanliness (h : f.Tidy) : (vCleanliness gettext f).Tidy :=
  Form.Tidy.foldl (fun _ _ h => h.failIf _ _) _ h

/-- `v_required` stores the field that was posted. -/
theorem tidy_vRequired (h : f.Tidy) (hproper : f.Proper) (field : String)
    (hfield : field ∉ textareas) (name : String) : (vRequired gettext field name f).Tidy :=
  (h.failIf _ _).put field (h.get hproper hfield)

/-- `v_port` stores the port that was posted, stripped. -/
theorem tidy_vPort (h : f.Tidy) (hproper : f.Proper) : (vPort gettext f).Tidy :=
  (h.failIf _ _).put "port" (unbroken_vStrip (h.get hproper (by decide)))

/-- So does `v_numeric`. -/
theorem tidy_vNumeric (h : f.Tidy) (hproper : f.Proper) (field : String)
    (hfield : field ∉ textareas) (name : String) : (vNumeric gettext field name f).Tidy :=
  (h.failIf _ _).put field (unbroken_vStrip (h.get hproper hfield))

/-- The maps are put together from fields on one line each. -/
theorem tidy_vIncomingProvRouting (h : f.Tidy) : (vIncomingProvRouting gettext f).Tidy := by
  have hmaps := unbroken_gatherIncomingextensionmaps h.post
  refine Form.Tidy.put (Form.Tidy.foldl ?_ _ (h.repost "incomingextensionmap" hmaps)) _ hmaps
  intro f map h
  unfold checkIncoming
  dsimp only
  split_ifs
  · split
    · exact ⟨h.element, h.post⟩
    · exact h
  · exact h

/-- The patterns are the lines of a text area. -/
theorem tidy_vOutgoingProvRouting (h : f.Tidy) : (vOutgoingProvRouting gettext f).Tidy := by
  have hlines : Unbroken
      (.ofList ((splitAndCleanLines (f.post.get "dialpattern").toStr).map .str)) :=
    unbroken_lines fun _ hline => oneLine_splitAndCleanLines hline
  refine Form.Tidy.put (Form.Tidy.foldl ?_ _ (h.repost "dialpattern" hlines)) _ hlines
  intro f pattern h
  unfold checkOutgoing
  split
  · exact ⟨h.element, h.post⟩
  · exact h

/-- The source and the text of the caller id are fields on one line. -/
theorem tidy_vOutgoingProvCallerid (h : f.Tidy) (hproper : f.Proper) :
    (vOutgoingProvCallerid gettext f).Tidy :=
  ((h.failIf _ _).put _ (h.get hproper (by decide))).put _
    (unbroken_vStrip (h.get hproper (by decide)))

/-- The same for the override. -/
theorem tidy_vIncomingProvCallerid (h : f.Tidy) (hproper : f.Proper) :
    (vIncomingProvCallerid gettext f).Tidy := by
  refine ((h.failIf _ _).put _ ?_).put _ (unbroken_vStrip (h.get hproper (by decide)))
  split_ifs
  · exact unbroken_bool _
  · exact h.get hproper (by decide)

/-- The attributes are the lines of a text area, encoded one by one. -/
theorem tidy_vManualattributes (h : f.Tidy) : (vManualattributes gettext f).Tidy := by
  have hstored := unbroken_vStrip (unbroken_base64Encode
    (implode "\n" (splitAndCleanLines (f.post.get "manualattributes").toStr)))
  exact ((Form.Tidy.foldl (fun _ _ h => h.failIf _ _) _ h).put _ hstored).repost _ hstored

/-- Fields that are copied from the form are on one line each. -/
theorem tidy_putAll {value : Val → Val} (hvalue : ∀ v, Unbroken v → Unbroken (value v))
    (fields : List String) : (∀ field ∈ fields, field ∉ textareas) → ∀ {f : Form}, f.Proper → f.Tidy →
    (fields.foldl (fun f o => f.put o (value (f.post.get o))) f).Tidy := by
  induction fields with
  | nil => exact fun _ _ _ h => h
  | cons o r ih =>
    intro hfields f hproper h
    refine ih (fun field hr => hfields field (List.mem_cons_of_mem _ hr))
      (leaves_put hproper o _).proper ?_
    exact h.put o (hvalue _ (h.get hproper (hfields o List.mem_cons_self)))

/-- Optional fields are copied when they were posted. -/
theorem tidy_putOptional (h : f.Tidy) (hproper : f.Proper) (fields : List String)
    (hfields : ∀ field ∈ fields, field ∉ textareas) : (putOptional fields f).Tidy :=
  tidy_putAll (fun _ h => unbroken_vStrip h) fields hfields hproper h

/-- Trusted fields are copied without a check, and stay on one line all the same. -/
theorem tidy_putTrusted (h : f.Tidy) (hproper : f.Proper) (fields : List String)
    (hfields : ∀ field ∈ fields, field ∉ textareas) : (putTrusted fields f).Tidy :=
  @tidy_putAll id (fun _ h => h) fields hfields f hproper h

end Tidy

/-! ## Accepted providers -/

/-- What is stored of a provider, and the patterns that were checked. -/
structure Verified (uniqid failover dialpattern : Val) (patterns : List String) (p : Val) : Prop where
  uniqid : p.get "uniqid" = uniqid
  failover : p.get "failover" = vStrip failover
  dialpattern : p.get "dialpattern" = dialpattern
  valid : ∀ pattern ∈ patterns, pbxIsValidDialpattern pattern false = none

/-- The fields of a form that are stored as they are have no line break. -/
def OneLined (post : Val) : Prop := ∀ e ∈ post.entries, e.1.toStr ∉ textareas → Unbroken e.2

/-- The dial patterns of a form. -/
def dialpatterns (post : Val) : List String := splitAndCleanLines (post.get "dialpattern").toStr

section Accepted

variable (gettext : String → String) {post : Val} {f : Form}

/-- The patterns of a form without errors are valid. -/
theorem valid_vOutgoingProvRouting (h : f.Proper) (herrors : (vOutgoingProvRouting gettext f).errors = []) :
    ∀ pattern ∈ splitAndCleanLines (f.post.get "dialpattern").toStr,
      pbxIsValidDialpattern pattern false = none := by
  have hloop : ∀ (patterns : List String) {f : Form}, f.Proper →
      (patterns.foldl (checkOutgoing gettext) f).errors = [] →
      ∀ pattern ∈ patterns, pbxIsValidDialpattern pattern false = none := by
    intro patterns
    induction patterns with
    | nil =>
      intro f _ _ pattern hpattern
      cases hpattern
    | cons x r ih =>
      intro f hproper herrors pattern hpattern
      have hx := leaves_checkOutgoing gettext hproper x
      rw [List.foldl_cons] at herrors
      rcases List.mem_cons.1 hpattern with rfl | hr
      · have hnone := (leaves_foldl (fun _ pattern h => leaves_checkOutgoing gettext h pattern) r
          hx.proper).errors herrors
        unfold checkOutgoing at hnone
        split at hnone
        · exact absurd hnone (List.append_ne_nil_of_right_ne_nil _ (List.cons_ne_nil _ _))
        · assumption
      · exact ih hx.proper herrors pattern hr
  exact hloop _ (leaves_repost h _ _).proper herrors

/-- The checks of `analog_verify_provider` before the optional fields. -/
def analogChecks (f : Form) : Form :=
  let f := vCleanliness gettext f
  let f := vRequired gettext "name" (gettext "Name") f
  let f := vNumeric gettext "number" (gettext "Number") f
  let f := vIncomingProvRouting gettext f
  let f := vIncomingProvCallerid gettext f
  let f := vOutgoingProvRouting gettext f
  let f := vOutgoingProvCallerid gettext f
  vManualattributes gettext f

/-- What the checks leave of a form, and the patterns. -/
theorem analogChecks_spec (h : f.Proper) : (analogChecks gettext f).Proper ∧
    (∀ b ∈ ["uniqid", "failover"], (analogChecks gettext f).post.get b = f.post.get b) ∧
    (analogChecks gettext f).element.get "dialpattern" = .ofList ((dialpatterns f.post).map .str) ∧
    ((analogChecks gettext f).errors = [] →
      ∀ pattern ∈ dialpatterns f.post, pbxIsValidDialpattern pattern false = none) := by
  have h₁ := leaves_vCleanliness gettext h
  have h₂ := h₁.trans (leaves_vRequired gettext h₁.proper "name" (gettext "Name"))
  have h₃ := h₂.trans (leaves_vNumeric gettext h₂.proper "number" (gettext "Number"))
  have h₄ := h₃.trans (leaves_vIncomingProvRouting gettext h₃.proper)
  have hbefore := h₄.trans (leaves_vIncomingProvCallerid gettext h₄.proper)
  have hrouting := leaves_vOutgoingProvRouting gettext hbefore.proper
  have h₅ := leaves_vOutgoingProvCallerid gettext hrouting.proper
  have hafter := h₅.trans (leaves_vManualattributes gettext h₅.proper)
  have hlines := hbefore.post "dialpattern" (by decide)
  unfold dialpatterns
  rw [← hlines]
  refine ⟨hafter.proper, ?_, ?_, ?_⟩
  · intro b hb
    have hnames : ∀ b ∈ ["uniqid", "failover"],
        b ∉ ["incomingextensionmap"] ∧ b ∉ ["dialpattern"] ∧ b ∉ ["manualattributes"] := by decide
    obtain ⟨hmap, hpattern, hattributes⟩ := hnames b hb
    refine (hafter.post b (by simpa using hattributes)).trans ?_
    exact (hrouting.post b hpattern).trans (hbefore.post b (by simpa using hmap))
  · refine (hafter.element "dialpattern" (by decide)).trans ?_
    unfold vOutgoingProvRouting
    exact put_get_self _ _
  · intro herrors
    exact valid_vOutgoingProvRouting gettext hbefore.proper (hafter.errors herrors)

/-- `analog_verify_provider`, as its checks followed by the fields it copies. -/
theorem analogVerifyProvider_eq : analogVerifyProvider gettext post =
    ((putTrusted ["uniqid", "language", "port"] (putOptional ["failover", "defaultfax"]
      (analogChecks gettext { element := .arr [], post := post, errors := [] }))).element,
    (putTrusted ["uniqid", "language", "port"] (putOptional ["failover", "defaultfax"]
      (analogChecks gettext { element := .arr [], post := post, errors := [] }))).errors) := rfl

/-- An analog provider that was accepted. -/
theorem verified_analog (hpost : post.isArray = true)
    (herrors : (analogVerifyProvider gettext post).2 = []) :
    Verified (post.get "uniqid") (post.get "failover") (.ofList ((dialpatterns post).map .str))
      (dialpatterns post) (analogVerifyProvider gettext post).1 := by
  obtain ⟨hproper, hsent, hpattern, hvalid⟩ := analogChecks_spec gettext
    (f := { element := .arr [], post := post, errors := [] }) ⟨rfl, hpost⟩
  rw [analogVerifyProvider_eq] at herrors ⊢
  generalize analogChecks gettext { element := .arr [], post := post, errors := [] } = f at *
  have hoptional := leaves_putAll vStrip ["failover", "defaultfax"] hproper
  have htrusted := leaves_putAll id ["uniqid", "language", "port"] hoptional.proper
  refine ⟨?_, ?_, ?_, hvalid (hoptional.errors (htrusted.errors herrors))⟩
  · refine (get_putAll id (by decide) hoptional.proper).trans ?_
    exact (hoptional.post "uniqid" (by simp)).trans (hsent "uniqid" (by simp))
  · refine (htrusted.element "failover" (by decide)).trans ?_
    exact (get_putAll vStrip (by decide) hproper).trans (congrArg vStrip (hsent "failover" (by simp)))
  · refine (htrusted.element _ (by decide)).trans ((hoptional.element _ (by decide)).trans hpattern)

/-- A form that was posted on one line is tidy before the first check. -/
theorem tidy_start (h : OneLined post) : Form.Tidy { element := .arr [], post := post, errors := [] } :=
  ⟨by simp [Unbroken], h⟩

/-- What `analog_verify_provider` returns is unbroken. -/
theorem unbroken_analog (hpost : post.isArray = true) (h : OneLined post) :
    Unbroken (analogVerifyProvider gettext post).1 := by
  have h₀ : Form.Proper { element := .arr [], post := post, errors := [] } := ⟨rfl, hpost⟩
  have t₀ := tidy_start h
  have h₁ := leaves_vCleanliness gettext h₀
  have t₁ := tidy_vCleanliness gettext t₀
  have h₂ := h₁.trans (leaves_vRequired gettext h₁.proper "name" (gettext "Name"))
  have t₂ := tidy_vRequired gettext t₁ h₁.proper "name" (by decide) (gettext "Name")
  have h₃ := h₂.trans (leaves_vNumeric gettext h₂.proper "number" (gettext "Number"))
  have t₃ := tidy_vNumeric gettext t₂ h₂.proper "number" (by decide) (gettext "Number")
  have h₄ := h₃.trans (leaves_vIncomingProvRouting gettext h₃.proper)
  have t₄ := tidy_vIncomingProvRouting gettext t₃
  have h₅ := h₄.trans (leaves_vIncomingProvCallerid gettext h₄.proper)
  have t₅ := tidy_vIncomingProvCallerid gettext t₄ h₄.proper
  have h₆ := h₅.trans (leaves_vOutgoingProvRouting gettext h₅.proper)
  have t₆ := tidy_vOutgoingProvRouting gettext t₅
  have h₇ := h₆.trans (leaves_vOutgoingProvCallerid gettext h₆.proper)
  have t₇ := tidy_vOutgoingProvCallerid gettext t₆ h₆.proper
  have h₈ := h₇.trans (leaves_vManualattributes gettext h₇.proper)
  have t₈ := tidy_vManualattributes gettext t₇
  have t₉ := tidy_putOptional t₈ h₈.proper ["failover", "defaultfax"] (by decide)
  have h₉ := leaves_putAll vStrip ["failover", "defaultfax"] h₈.proper
  have t₁₀ := tidy_putTrusted t₉ h₉.proper ["uniqid", "language", "port"] (by decide)
  unfold analogVerifyProvider
  dsimp only
  exact t₁₀.element

end Accepted

/-! ## Saving an element -/

section Saving

variable {k : Kind} {p : Val}

/-- Saving an unbroken element keeps the configuration unbroken. -/
theorem unbroken_saveElement {g : Globals} (h : Unbroken g.config) (hp : Unbroken p) :
    Unbroken (saveElement k p g) := by
  have hlist : ∀ key, Unbroken (setList g.config k ((listOf g.config k).set key p)) := by
    intro key hmem
    rcases List.mem_append.1 (Val.chars_set hmem) with hmem | hmem
    · exact h hmem
    · rcases List.mem_append.1 (Val.chars_set hmem) with hmem | hmem
      · exact h (Val.chars_get hmem)
      · rcases List.mem_append.1 (Val.chars_set hmem) with hmem | hmem
        · exact h (Val.chars_get (Val.chars_get hmem))
        · exact hp hmem
  unfold saveElement
  dsimp only
  split_ifs
  · exact hlist _
  · exact hlist _

end Saving

end Pbx
end Askozia
