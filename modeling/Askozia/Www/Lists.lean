import Askozia.Pbx.Editing
import Askozia.Pbx.Forms
import Askozia.Php.ParseStr
import Askozia.XmlParse.ReadBack

/-!
# Call groups and conference rooms (`dialplan_callgroups.php`, `services_conferencing.php`)

Both kinds of elements have a page that lists them and one to edit them. The pages sort the list and
address an element by its position in it: the links to delete and to edit have the position, and so
has the form.

* `saveAt_cases`, `deleteAt_cases`: what saving and deleting at a position do to the list.
-/

namespace Askozia
namespace Www

open Php Config Pbx XmlParse

/-! ## The pages -/

/-- The two lists. -/
inductive Page where
  | callgroups
  | rooms
deriving DecidableEq, Repr

namespace Page

/-- What is in the list. -/
def kind : Page → Kind
  | callgroups => .callgroup
  | rooms => .room

/-- How the list is sorted: `callgroups_sort_groups()`, `conferencing_sort_rooms()`. -/
def cmp : Page → Val → Val → ℤ
  | callgroups => pbxSortByName
  | rooms => confroomcmp

/-- What a new `uniqid` starts with. -/
def word : Page → String
  | callgroups => "CALLGROUP-PARALLEL-"
  | rooms => "CONFERENCE-ROOM-"

end Page

/-- `verify_non_default($value)` -/
def verifyNonDefault (value : Val) : Val := if strlen value then value else .bool false

/-- `verify_is_public_name($name)`: the message, if there is one. -/
def verifyIsPublicName (name : Val) : Option String :=
  if pregMatchLine (isAllOf publicnameChars) name.toStr.toList then none
  else some "An invalid public name was entered!"

section Forms

variable (gettext : String → String)

/-- `verify_input($_POST, $reqdfields, $reqdfieldsn, &$input_errors)` -/
def verifyInput (reqdfields : List (String × String)) (post : Val) : List String :=
  (post.entries.filter fun e => isUncleanText e.2).map (fun e =>
      sprintf (gettext "The field '%s' contains invalid characters.") [e.1.toStr]) ++
    (reqdfields.filter fun f => !(post.get f.1).isset || post.get f.1 == .str "").map fun f =>
      sprintf (gettext "The field '%s' is required.") [gettext f.2]

/-- `$_POST['publicname'] && ($msg = verify_is_public_name($_POST['publicname']))` -/
def publicnameErrors (post : Val) : List String :=
  if (post.get "publicname").truthy then (verifyIsPublicName (post.get "publicname")).toList else []

/-- What is wrong with a call group. -/
def callgroupErrors (post : Val) : List String :=
  verifyInput gettext [("name", "Name"), ("extension", "Extension")] post ++ publicnameErrors post

/-- What is wrong with a room. Only the number of a new one is looked up. -/
def roomErrors (isNew : Bool) (post config : Val) : List String :=
  verifyInput gettext [("number", "Room Number"), ("name", "Name")] post ++
    (if verifyIsNumericint (post.get "number").toStr then []
      else [gettext "Conference room numbers must be numeric."]) ++
    (if isNew && inArray (post.get "number") (conferencingGetExtensions config) then
      [gettext "Conference number already exists."]
    else if isNew && inArray (post.get "number") (pbxGetExtensions config) then
      [gettext "Conference number matches an existing extension."]
    else []) ++
    (if (post.get "pin").truthy && !verifyIsNumericint (post.get "pin").toStr then
      [gettext "Conference pins must be numeric."]
    else []) ++ publicnameErrors post

/-- What is wrong with a form. -/
def Page.errors (isNew : Bool) (post config : Val) : Page → List String
  | callgroups => callgroupErrors gettext post
  | rooms => roomErrors gettext isNew post config

end Forms

section Elements

/-- What `parse_str($_POST['groupmembers'])` assigns. -/
def memberAssignments (post : Val) : List Assignment := Php.assignments (post.get "groupmembers").toStr

/-- The list of members assigns to nothing but `$gme`. It is read at the top level, where it could
assign to the position, to the form and to the configuration, too. -/
def ListsMembers (post : Val) : Prop := ∀ a ∈ memberAssignments post, a.name = "gme"

/-- `$gme` -/
def gme (post : Val) : Val :=
  (memberAssignments post).foldl (fun v a => assignAt a.path (.str a.value) v) .null

/-- `$gm` -/
def callgroupElement (post : Val) : Val :=
  .arr [(.str "name", post.get "name"), (.str "extension", post.get "extension"),
    (.str "descr", verifyNonDefault (post.get "descr")),
    (.str "groupmember", if (gme post).truthy then gme post else .bool false),
    (.str "publicaccess", post.get "publicaccess"),
    (.str "publicname", verifyNonDefault (post.get "publicname")),
    (.str "ringlength", post.get "ringlength")]

/-- `$room` -/
def roomElement (post : Val) : Val :=
  .arr [(.str "number", post.get "number"), (.str "pin", verifyNonDefault (post.get "pin")),
    (.str "name", post.get "name"), (.str "publicaccess", post.get "publicaccess"),
    (.str "publicname", verifyNonDefault (post.get "publicname"))]

/-- The element of a form, without its `uniqid`. -/
def Page.element (post : Val) : Page → Val
  | callgroups => callgroupElement post
  | rooms => roomElement post

/-- A form whose texts assign to nothing else. -/
def Page.Plain (post : Val) : Page → Prop
  | callgroups => ListsMembers post
  | rooms => True

end Elements

section Requests

variable (gettext : String → String) (usort : Usort)

/-- The list as a page shows it. -/
def shown (p : Page) (config : Val) : List Val := usort.run p.cmp (elements config p.kind)

/-- `$a_callgroups[$id]`, `$a_rooms[$id]` -/
def atPosition (p : Page) (id : String) (config : Val) : Val :=
  (Val.ofList (shown usort p config)).idx (Val.str id).key

/-- An element with its `uniqid`, after it was written and read back. -/
def written (element uniqid : Val) : Val := readBack normText (element.set (.str "uniqid") uniqid)

/-- A saved form without errors: the element at the position is replaced if there is one, and another
one is added if there is none. -/
def saveAt (p : Page) (id : Option String) (element : Val) (fresh : String) (config : Val) : Val :=
  let list := Val.ofList (shown usort p config)
  match id.filter fun id => (atPosition usort p id config).truthy with
  | some id =>
    setList config p.kind (list.set (Val.str id).key
      (written element ((atPosition usort p id config).get "uniqid")))
  | none => setList config p.kind (list.push (written element (.str (p.word ++ fresh))))

/-- A form that is sent to the page. -/
def submit (p : Page) (id : Option String) (post : Val) (fresh : String) (config : Val) : Val :=
  if p.errors gettext id.isNone post config = [] then
    saveAt usort p id (p.element post) fresh config
  else config

/-- The incoming mappings are written without gaps. -/
def closeMappings (config : Val) : Val :=
  (technologies.map Kind.provider).foldl
    (editList (Val.mapItems (Val.mapAt (.str "incomingextensionmap") fun maps =>
      if maps.isArray then .ofList maps.vals else maps))) config

/-- What a page does after it took an element out. -/
def Page.forget (removedId : String) (config : Val) : Page → Val
  | callgroups =>
    closeMappings (dialplanRemoveIncomingextensionmapReferenceFromProviders removedId config)
  | rooms => config

/-- A link to delete an element. The list is written without a gap. -/
def deleteAt (p : Page) (id : String) (config : Val) : Val :=
  if (atPosition usort p id config).truthy then
    let removedId := ((atPosition usort p id config).get "uniqid").toStr
    let list := (Val.ofList (shown usort p config)).unset (Val.str id).key
    p.forget removedId (setList config p.kind (.ofList list.vals))
  else config

end Requests

/-! ## Positions -/

section Positions

variable {xs : List Val} {k : Key} {i : ℕ}

/-- What is found in a list is at a position of it. -/
theorem idx_ofList_cases (xs : List Val) (k : Key) :
    (Val.ofList xs).idx k = .null ∨
      ∃ (i : ℕ) (hi : i < xs.length), k = .int i ∧ (Val.ofList xs).idx k = xs[i] := by
  cases hx : (Val.ofList xs).entries.lookup k with
  | none =>
    left
    rw [Val.ofList, Val.idx_arr]
    rw [Val.ofList_entries] at hx
    rw [hx]
    rfl
  | some x =>
    right
    have hmem := Val.mem_of_lookup hx
    rw [Val.ofList_entries] at hmem
    obtain ⟨⟨y, i⟩, hy, heq⟩ := List.mem_map.1 hmem
    obtain ⟨rfl, rfl⟩ := Prod.mk.inj heq
    obtain ⟨hi, rfl⟩ := List.mk_mem_zipIdx_iff_getElem?.1 hy |> List.getElem?_eq_some_iff.1
    refine ⟨i, hi, rfl, ?_⟩
    rw [Val.idx_ofList, List.getElem?_eq_getElem hi]
    rfl

/-- Unsetting a position of a list. -/
theorem vals_unset_ofList (xs : List Val) (i : ℕ) :
    ((Val.ofList xs).unset (.int i)).vals = xs.eraseIdx i := by
  have hshift : ∀ (xs : List Val) (m i : ℕ),
      (((xs.zipIdx m).map fun p => ((.int p.2, p.1) : Key × Val)).filter
        fun e => e.1 != Key.int (m + i : ℕ)).map Prod.snd = xs.eraseIdx i := by
    intro xs
    induction xs with
    | nil => exact fun m i => by simp
    | cons x r ih =>
      intro m i
      rw [List.zipIdx_cons, List.map_cons, List.filter_cons]
      cases i with
      | zero =>
        -- the other positions are greater
        have hrest : ((r.zipIdx (m + 1)).map fun p => ((.int p.2, p.1) : Key × Val)).filter
            (fun e => e.1 != Key.int (m + 0 : ℕ)) =
            (r.zipIdx (m + 1)).map fun p => ((.int p.2, p.1) : Key × Val) := by
          rw [List.filter_eq_self]
          intro e he
          obtain ⟨⟨y, j⟩, hy, rfl⟩ := List.mem_map.1 he
          have hle := List.le_snd_of_mem_zipIdx hy
          have hne : (j : ℤ) ≠ (m + 0 : ℕ) := by
            simp only at hle
            omega
          simpa using hne
        rw [if_neg (by simp), hrest, List.map_map, List.eraseIdx_cons_zero]
        exact List.zipIdx_map_fst _ _
      | succ i =>
        have hne : ((.int (m : ℕ) : Key) != .int (m + (i + 1) : ℕ)) = true := by
          have : (m : ℤ) ≠ (m + (i + 1) : ℕ) := by omega
          simpa using this
        have hi : m + (i + 1) = m + 1 + i := by omega
        rw [if_pos hne, List.map_cons, List.eraseIdx_cons_succ, hi, ih]
  have h := hshift xs 0 i
  rw [Nat.zero_add] at h
  exact h

end Positions

/-! ## What requests do to the lists -/

section Requests

variable {usort : Usort} {p : Page} {config : Val}

/-- The element at a position is one of the list, or there is none. -/
theorem atPosition_cases (usort : Usort) (p : Page) (id : String) (config : Val) :
    (atPosition usort p id config).truthy = false ∨
      ∃ (i : ℕ) (hi : i < (shown usort p config).length), (Val.str id).key = .int i ∧
        atPosition usort p id config = (shown usort p config)[i] := by
  rcases idx_ofList_cases (shown usort p config) (Val.str id).key with hnull | hfound
  · left
    rw [atPosition, hnull]
    rfl
  · exact .inr hfound

theorem atPosition_of_getElem (usort : Usort) {id : String} {i : ℕ} (hid : (Val.str id).key = .int i)
    (hi : i < (shown usort p config).length) :
    atPosition usort p id config = (shown usort p config)[i] := by
  rw [atPosition, hid, Val.idx_ofList, List.getElem?_eq_getElem hi]
  rfl

/-- Saving replaces the element at the position, or adds one. -/
theorem saveAt_cases (usort : Usort) (p : Page) (id : Option String) (element : Val) (fresh : String)
    (config : Val) :
    (∃ id' ∈ id, ∃ (i : ℕ) (hi : i < (shown usort p config).length), (Val.str id').key = .int i ∧
      ((shown usort p config)[i]).truthy = true ∧
      saveAt usort p id element fresh config = setList config p.kind (.ofList
        ((shown usort p config).set i (written element (((shown usort p config)[i]).get "uniqid"))))) ∨
    ((∀ id' ∈ id, (atPosition usort p id' config).truthy = false) ∧
      saveAt usort p id element fresh config = setList config p.kind (.ofList
        (shown usort p config ++ [written element (.str (p.word ++ fresh))]))) := by
  unfold saveAt
  dsimp only
  -- an id that finds an element, or none: then the element is added
  cases hid : id.filter fun id => (atPosition usort p id config).truthy with
  | none =>
    right
    refine ⟨?_, ?_⟩
    · rw [Option.filter_eq_none_iff] at hid
      intro id' hid'
      simpa using hid id' hid'
    · rw [Val.push_ofList]
  | some id' =>
    left
    obtain ⟨hmem, htruthy⟩ := Option.filter_eq_some_iff.1 hid
    rcases atPosition_cases usort p id' config with hnone | ⟨i, hi, hkey, hat⟩
    · rw [hnone] at htruthy
      cases htruthy
    · refine ⟨id', hmem, i, hi, hkey, ?_, ?_⟩
      · rw [← hat]
        exact htruthy
      · dsimp only
        rw [hkey, hat, Val.set_ofList hi]

/-- No array, or a list without gaps. -/
def Listed (v : Val) : Prop := v.isArray = true → v.Contiguous

/-- A provider without the incoming maps to a destination. -/
def withoutMapsTo (removedId : String) (provider : Val) : Val :=
  provider.mapAt (.str "incomingextensionmap") fun maps =>
    if maps.isArray then
      .ofList (maps.vals.filter fun x => !(x.get "destinationid").looseEq (.str removedId))
    else maps

/-- Taking the maps out of a list of providers and closing the gaps. -/
def withoutMapsToAll (removedId : String) (list : Val) : Val :=
  if list.isArray then .ofList (list.vals.map (withoutMapsTo removedId)) else list

/-- What is left of a provider in the loop, when the gaps are closed. -/
theorem withoutMapsTo_eq {u : String} {provider : Val} (h : Listed (provider.get "incomingextensionmap")) :
    (((unsetItems "incomingextensionmap" (fun x => (x.get "destinationid").looseEq (.str u)) provider).getD
      provider).mapAt (.str "incomingextensionmap") fun maps =>
        if maps.isArray then .ofList maps.vals else maps) = withoutMapsTo u provider := by
  unfold unsetItems withoutMapsTo
  unfold Val.get at *
  split_ifs with harr
  · have hlist : provider.idx (.str "incomingextensionmap") = .ofList _ := h harr
    rw [Option.getD_some, Val.set_eq_mapAt (f := Val.unsetIf _) harr, Val.mapAt_mapAt]
    apply Val.mapAt_congr
    have hvals := Val.vals_dropItems (fun x => (x.idx (.str "destinationid")).looseEq (.str u))
      (provider.idx (.str "incomingextensionmap"))
    generalize (provider.idx (.str "incomingextensionmap")).vals = xs at hlist hvals
    rw [hlist] at hvals ⊢
    have harray : ∀ p, ((Val.ofList xs).dropItems p).isArray = true := fun _ => rfl
    rw [Val.unsetIf_eq_dropItems, if_pos (harray _), if_pos (show (Val.ofList xs).isArray = true from rfl), hvals]
  · rw [Option.getD_none]
    apply Val.mapAt_congr
    rw [if_neg harr, if_neg harr]

/-- The lists after a call group is deleted. Only the providers refer to call groups. -/
theorem listOf_closeMappings {u : String} (k : Kind)
    (hlist : ∀ t, k = .provider t → Listed (listOf config k) ∧
      ∀ e ∈ elements config k, Listed (e.get "incomingextensionmap")) :
    listOf (closeMappings (dialplanRemoveIncomingextensionmapReferenceFromProviders u config)) k =
      if k ∈ technologies.map Kind.provider then withoutMapsToAll u (listOf config k)
      else listOf config k := by
  unfold closeMappings dialplanRemoveIncomingextensionmapReferenceFromProviders
  have hks : (technologies.map Kind.provider).Nodup := by decide
  rw [listOf_foldl (fun _ _ => listOf_editList_self mapItems_of_not_array)
    (fun _ _ _ => listOf_editList_of_ne) hks,
    listOf_foldl (F := fun v => if v.isArray then v.updateEach _ else v)
      (fun _ _ => listOf_editElements_self _ _ _) (fun _ _ _ => listOf_editElements_of_ne _ _ _ _) hks]
  split_ifs with hmem harr
  · obtain ⟨t, -, rfl⟩ := List.mem_map.1 hmem
    obtain ⟨hlisted, hmaps⟩ := hlist t rfl
    have hcontiguous : listOf config (.provider t) = .ofList (elements config (.provider t)) := hlisted harr
    rw [withoutMapsToAll, if_pos harr, hcontiguous, Val.updateEach_ofList, Val.mapItems_ofList, List.map_map,
      Val.vals_ofList]
    congr 1
    exact List.map_congr_left fun e he => withoutMapsTo_eq (hmaps e he)
  · rw [withoutMapsToAll, if_neg harr]
    exact mapItems_of_not_array _ (by simpa using harr)
  · rfl

/-- Deleting takes out the element at the position, if there is one. -/
theorem deleteAt_cases (usort : Usort) (p : Page) (id : String) (config : Val) :
    ((atPosition usort p id config).truthy = false ∧ deleteAt usort p id config = config) ∨
    ∃ (i : ℕ) (hi : i < (shown usort p config).length), (Val.str id).key = .int i ∧
      deleteAt usort p id config = p.forget (((shown usort p config)[i]).get "uniqid").toStr
        (setList config p.kind (.ofList ((shown usort p config).eraseIdx i))) := by
  unfold deleteAt
  rcases atPosition_cases usort p id config with hnone | ⟨i, hi, hkey, hat⟩
  · exact .inl ⟨hnone, by rw [if_neg (by simp [hnone])]⟩
  · by_cases htruthy : (atPosition usort p id config).truthy = true
    · right
      refine ⟨i, hi, hkey, ?_⟩
      rw [if_pos htruthy]
      dsimp only
      rw [hkey, hat, vals_unset_ofList]
    · exact .inl ⟨by simpa using htruthy, by rw [if_neg htruthy]⟩

theorem get_written {element : Val} {u : String} :
    (written element (.str u)).get "uniqid" = .str (normText u) :=
  get_readBack rfl (Val.idx_set_self _ _ _)

theorem truthy_written {element : Val} {u : String} : (written element (.str u)).truthy = true :=
  truthy_readBack "uniqid" (s := u) rfl (Val.idx_set_self _ _ _)

theorem mem_shown {e : Val} : e ∈ shown usort p config ↔ e ∈ elements config p.kind :=
  (usort.perm p.cmp (elements config p.kind)).mem_iff

end Requests

end Www
end Askozia
