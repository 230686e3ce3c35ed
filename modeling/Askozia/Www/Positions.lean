import Askozia.Www.Lists

/-!
# Requests from pages that were shown earlier

A link or a form has the position that its element had when the page was shown. By the time it is
used, requests from other pages may have changed the list.

* `positions_hit`: in every run of such requests, a request hits the element that its page showed if
  the list is as it was, or has no ties and as many elements before that one as it had.
-/

namespace Askozia
namespace Www

open Php Config Pbx XmlParse

/-! ## Lists without ties -/

section Ties

variable {cmp : Val → Val → ℤ} {xs ys : List Val} {e : Val}

/-- The list can be put in an order without ties. -/
def NoTies (cmp : Val → Val → ℤ) (xs : List Val) : Prop := ∃ ys, ys.Perm xs ∧ Ascending cmp ys

/-- How many elements are before one. -/
def before (cmp : Val → Val → ℤ) (e : Val) (xs : List Val) : ℕ := xs.countP fun x => cmp x e < 0

theorem before_getElem (h : Ascending cmp ys) {i : ℕ} (hi : i < ys.length) : before cmp ys[i] ys = i := by
  have hsplit := List.take_append_drop i ys
  have hleft : ∀ x ∈ ys.take i, decide (cmp x ys[i] < 0) = true := by
    intro x hx
    obtain ⟨j, hj, rfl⟩ := List.getElem_of_mem hx
    rw [List.length_take] at hj
    rw [List.getElem_take]
    simpa using (List.pairwise_iff_getElem.1 h.2 j i (by omega) hi (by omega)).1
  have hright : ∀ x ∈ ys.drop i, ¬ decide (cmp x ys[i] < 0) = true := by
    intro x hx
    obtain ⟨j, hj, rfl⟩ := List.getElem_of_mem hx
    rw [List.length_drop] at hj
    rw [List.getElem_drop]
    cases j with
    | zero =>
      have hself := h.1 ys[i] (List.getElem_mem hi)
      simp [hself]
    | succ j =>
      have hlt := (List.pairwise_iff_getElem.1 h.2 i (i + (j + 1)) hi (by omega) (by omega)).2
      have hle : 0 ≤ cmp ys[i + (j + 1)] ys[i] := by omega
      simpa using hle
  have hcount : (ys.take i ++ ys.drop i).countP (fun x => decide (cmp x ys[i] < 0)) = _ :=
    List.countP_append
  rw [hsplit, List.countP_eq_length.2 hleft, List.countP_eq_zero.2 hright, List.length_take] at hcount
  rw [before, hcount]
  omega

/-- Sorting a list without ties gives the one order it has. -/
theorem run_of_perm (usort : Usort) (hperm : ys.Perm xs) (h : Ascending cmp ys) :
    usort.run cmp xs = ys := by
  have hmem : ∀ {a}, a ∈ xs → a ∈ ys := fun ha => hperm.mem_iff.2 ha
  have hs := usort.sorted cmp xs ⟨ys.idxOf, fun a ha b hb => h.idxOf (hmem ha) (hmem hb)⟩
  have hy : ys.Pairwise fun a b => ¬ 0 < cmp a b := h.2.imp fun hab => by omega
  refine ((usort.perm cmp xs).trans hperm.symm).eq_of_pairwise (fun a b ha hb hab hba => ?_) hs hy
  have ha' : a ∈ ys := hmem ((usort.perm cmp xs).subset ha)
  rw [(h.idxOf ha' hb).2] at hab
  rw [(h.idxOf hb ha').2] at hba
  exact (List.idxOf_inj ha').1 (by omega)

/-- The position of an element is the number of those before it. -/
theorem getElem?_run_before (usort : Usort) (h : NoTies cmp xs) (he : e ∈ xs) :
    (usort.run cmp xs)[before cmp e xs]? = some e := by
  obtain ⟨ys, hperm, hascending⟩ := h
  rw [run_of_perm usort hperm hascending, before, ← hperm.countP_eq]
  obtain ⟨i, hi, rfl⟩ := List.getElem_of_mem (hperm.mem_iff.2 he)
  have hbefore := before_getElem hascending hi
  unfold before at hbefore
  rw [hbefore, List.getElem?_eq_getElem hi]

end Ties

/-! ## Sessions -/

/-- A page that was shown, and what was stored at that time. -/
structure View where
  page : Page
  stored : List Val

/-- The configuration, and the pages that have been shown in all browsers. -/
structure Session where
  config : Val
  views : List View

/-- What browsers do. A link or a form belongs to a page that was shown. -/
inductive Action where
  | look (p : Page)
  | add (p : Page) (post : Val) (fresh : String)
  | edit (view : View) (id : String) (post : Val) (fresh : String)
  | delete (view : View) (id : String)

section Sessions

variable (gettext : String → String) (usort : Usort)

/-- The element that a page showed at a position. -/
def View.at (view : View) (id : String) : Val :=
  (Val.ofList (usort.run view.page.cmp view.stored)).idx (Val.str id).key

/-- The effect of a request. -/
def Action.apply (s : Session) : Action → Session
  | look p => { s with views := s.views ++ [{ page := p, stored := elements s.config p.kind }] }
  | add p post fresh => { s with config := submit gettext usort p none post fresh s.config }
  | edit view id post fresh =>
    { s with config := submit gettext usort view.page (some id) post fresh s.config }
  | delete view id => { s with config := deleteAt usort view.page id s.config }

/-- Requests come from pages that were shown, for a position that they showed. -/
def Action.Allowed (s : Session) : Action → Prop
  | edit view id _ _ => view ∈ s.views ∧ ∃ i : ℕ, (Val.str id).key = .int i ∧ i < view.stored.length
  | delete view id => view ∈ s.views ∧ ∃ i : ℕ, (Val.str id).key = .int i ∧ i < view.stored.length
  | _ => True

/-- Runs whose requests all meet a condition. -/
inductive Run (meets : Session → Action → Prop) (start : Val) : Session → Prop
  | start : Run meets start { config := start, views := [] }
  | step {s : Session} {a : Action} : Run meets start s → a.Allowed s → meets s a →
      Run meets start (a.apply gettext usort s)

/-- Of the elements of a page, only the one with a `uniqid` changes, and nothing is added. The providers
lose no more than the incoming maps to that one. -/
structure AffectsOnly (p : Page) (u : Val) (config config' : Val) : Prop where
  lists : ∀ k, (∀ t, k ≠ .provider t) → ∀ e, (k = p.kind → e.get "uniqid" ≠ u) →
    (e ∈ elements config' k ↔ e ∈ elements config k)
  providers : ∀ t, elements config' (.provider t) = elements config (.provider t) ∨
    elements config' (.provider t) = (elements config (.provider t)).map (withoutMapsTo u.toStr)

/-- A request affects the element that its page showed at the position, or nothing. -/
def Hits (s : Session) : Action → Prop
  | .edit view id post fresh => AffectsOnly view.page ((view.at usort id).get "uniqid") s.config
      (submit gettext usort view.page (some id) post fresh s.config)
  | .delete view id => AffectsOnly view.page ((view.at usort id).get "uniqid") s.config
      (deleteAt usort view.page id s.config)
  | _ => True

/-- The stored list is the one the page was made from, or one without ties in which as many elements
as the position says are before the element that was shown. -/
def Keeps (config : Val) (view : View) (id : String) : Prop :=
  elements config view.page.kind = view.stored ∨
    (NoTies view.page.cmp (elements config view.page.kind) ∧
      ∃ e ∈ elements config view.page.kind, e.get "uniqid" = (view.at usort id).get "uniqid" ∧
        (Val.str id).key = .int (before view.page.cmp e (elements config view.page.kind)))

/-- The condition on a request, in the state before it. A form with errors changes nothing, nor does
a link to a position that the list no longer has. -/
def Action.Meets (s : Session) : Action → Prop
  | add p post _ => p.Plain post
  | edit view id post _ => view.page.Plain post ∧
      (view.page.errors gettext false post s.config ≠ [] ∨ Keeps usort s.config view id)
  | delete view id => Keeps usort s.config view id ∨
      ∀ i : ℕ, (Val.str id).key = .int i → (elements s.config view.page.kind).length ≤ i
  | _ => True

end Sessions

/-- An element as a load produces it, with a `uniqid`. -/
def Identified (e : Val) : Prop := e.truthy = true ∧ ∃ u, e.get "uniqid" = .str u ∧ normText u = u

/-- A configuration as a load produces it. -/
structure Sound (config : Val) : Prop where
  identified : ∀ p : Page, ∀ e ∈ elements config p.kind, Identified e
  providers : ∀ t, Listed (listOf config (.provider t))
  maps : ∀ t, ∀ e ∈ elements config (.provider t), Listed (e.get "incomingextensionmap")

/-! ## One request -/

section Requests

variable {gettext : String → String} {usort : Usort} {p : Page} {config : Val}

theorem AffectsOnly.refl (u : Val) : AffectsOnly p u config config :=
  ⟨fun _ _ _ _ => Iff.rfl, fun _ => .inl rfl⟩

theorem kind_ne_provider (p : Page) (t : Tech) : Kind.provider t ≠ p.kind := by
  cases p <;> exact Kind.noConfusion

/-- Writing the list of a page affects what is different in it. -/
theorem affectsOnly_setList (usort : Usort) {u : Val} {xs : List Val}
    (hxs : ∀ e, e.get "uniqid" ≠ u → (e ∈ xs ↔ e ∈ shown usort p config)) :
    AffectsOnly p u config (setList config p.kind (.ofList xs)) where
  lists k _ e he := by
    by_cases hpage : k = p.kind
    · rw [hpage, elements_setList, hxs e (he hpage), mem_shown]
    · rw [elements_setList_of_ne hpage]
  providers t := .inl (elements_setList_of_ne (kind_ne_provider p t) _)

/-- Saving at the position of an element affects only this one. -/
theorem affectsOnly_saveAt (hsound : Sound config) {id fresh : String} {element : Val} {i : ℕ}
    (hid : (Val.str id).key = .int i) (hi : i < (shown usort p config).length) :
    AffectsOnly p (((shown usort p config)[i]).get "uniqid") config
      (saveAt usort p (some id) element fresh config) := by
  obtain ⟨htruthy, u, hu, hnorm⟩ := hsound.identified p _ (mem_shown.1 (List.getElem_mem hi))
  have hat := atPosition_of_getElem usort hid hi
  rcases saveAt_cases usort p (some id) element fresh config with
    ⟨id', hid', j, hj, hkey, -, hsave⟩ | ⟨hnone, -⟩
  · obtain rfl : id = id' := Option.some.inj hid'
    have hij : (i : ℤ) = j := Key.int.inj (hid.symm.trans hkey)
    -- the id is the position that was shown
    obtain rfl : i = j := by omega
    rw [hsave]
    apply affectsOnly_setList usort
    intro e he
    rw [hu] at he ⊢
    constructor
    · intro hmem
      obtain ⟨m, hm, rfl⟩ := List.getElem_of_mem hmem
      rw [List.length_set] at hm
      rw [List.getElem_set] at he ⊢
      split_ifs at he ⊢ with him
      · exact absurd (get_written.trans (by rw [hnorm])) he
      · exact List.getElem_mem hm
    · intro hmem
      obtain ⟨m, hm, rfl⟩ := List.getElem_of_mem hmem
      have him : i ≠ m := by
        rintro rfl
        exact he hu
      refine List.mem_iff_getElem.2 ⟨m, by rw [List.length_set]; exact hm, ?_⟩
      rw [List.getElem_set, if_neg him]
  · have hfalse := hnone id rfl
    rw [hat, htruthy] at hfalse
    cases hfalse

/-- Writing the list of a page keeps the configuration proper. -/
theorem sound_setList (h : Sound config) {xs : List Val} (hxs : ∀ e ∈ xs, Identified e) :
    Sound (setList config p.kind (.ofList xs)) where
  identified q e he := by
    by_cases hq : q.kind = p.kind
    · rw [hq, elements_setList] at he
      exact hxs e he
    · rw [elements_setList_of_ne hq] at he
      exact h.identified q e he
  providers t := by
    rcases @listOf_setList_cases config _ _ (kind_ne_provider p t) (.ofList xs) with hsame | ⟨-, hnull⟩
    · rw [hsame]
      exact h.providers t
    · rw [hnull]
      exact fun harr => Bool.noConfusion harr
  maps t e he := by
    rw [elements_setList_of_ne (kind_ne_provider p t)] at he
    exact h.maps t e he

theorem listed_ofList (xs : List Val) : Listed (.ofList xs) := by
  intro _
  rw [Val.Contiguous, Val.vals_ofList]

/-- The lists after an element is forgotten. -/
theorem listOf_forget (h : Sound config) (p : Page) (removedId : String) (k : Kind) :
    listOf (p.forget removedId config) k = listOf config k ∨
      (k ∈ technologies.map Kind.provider ∧
        listOf (p.forget removedId config) k = withoutMapsToAll removedId (listOf config k)) := by
  cases p with
  | rooms => exact .inl rfl
  | callgroups =>
    have hlists := listOf_closeMappings (u := removedId) k fun t hk => by
      subst hk
      exact ⟨h.providers t, h.maps t⟩
    by_cases hk : k ∈ technologies.map Kind.provider
    · rw [if_pos hk] at hlists
      exact .inr ⟨hk, hlists⟩
    · rw [if_neg hk] at hlists
      exact .inl hlists

/-- The elements after one is forgotten. -/
theorem elements_forget (h : Sound config) (p : Page) (removedId : String) (k : Kind) :
    elements (p.forget removedId config) k = elements config k ∨
      ((∃ t, k = .provider t) ∧
        elements (p.forget removedId config) k = (elements config k).map (withoutMapsTo removedId)) := by
  rcases listOf_forget h p removedId k with hsame | ⟨hk, hlist⟩
  · exact .inl (by rw [elements, hsame, elements])
  · obtain ⟨t, -, rfl⟩ := List.mem_map.1 hk
    refine .inr ⟨⟨t, rfl⟩, ?_⟩
    rw [elements, hlist, withoutMapsToAll]
    split_ifs with harr
    · rw [Val.vals_ofList, elements]
    · rw [elements_of_not_array harr, List.map_nil]
      exact elements_of_not_array harr

/-- What is left of the maps of a provider has no gaps. -/
theorem listed_withoutMapsTo {removedId : String} {e : Val} (h : Listed (e.get "incomingextensionmap")) :
    Listed ((withoutMapsTo removedId e).get "incomingextensionmap") := by
  by_cases hstr : ∃ s, e = .str s
  · obtain ⟨s, rfl⟩ := hstr
    exact h
  · rw [not_exists] at hstr
    unfold withoutMapsTo Val.get at *
    rw [Val.idx_mapAt_self hstr rfl]
    split_ifs
    · exact listed_ofList _
    · exact h

/-- Forgetting an element keeps the configuration proper. -/
theorem sound_forget (h : Sound config) (p : Page) (removedId : String) :
    Sound (p.forget removedId config) where
  identified q e he := by
    rcases elements_forget h p removedId q.kind with hsame | ⟨⟨t, hk⟩, -⟩
    · rw [hsame] at he
      exact h.identified q e he
    · exact absurd hk.symm (kind_ne_provider q t)
  providers t := by
    rcases listOf_forget h p removedId (.provider t) with hsame | ⟨-, hlist⟩
    · rw [hsame]
      exact h.providers t
    · rw [hlist, withoutMapsToAll]
      split_ifs
      · exact listed_ofList _
      · exact h.providers t
  maps t e he := by
    rcases elements_forget h p removedId (.provider t) with hsame | ⟨-, hmap⟩
    · rw [hsame] at he
      exact h.maps t e he
    · rw [hmap] at he
      obtain ⟨e', he', rfl⟩ := List.mem_map.1 he
      exact listed_withoutMapsTo (h.maps t e' he')

/-- Deleting at the position of an element affects only this one. -/
theorem affectsOnly_deleteAt (hsound : Sound config) {id : String} {i : ℕ}
    (hid : (Val.str id).key = .int i) (hi : i < (shown usort p config).length) :
    AffectsOnly p (((shown usort p config)[i]).get "uniqid") config (deleteAt usort p id config) := by
  rcases deleteAt_cases usort p id config with ⟨-, hsame⟩ | ⟨j, hj, hkey, hdelete⟩
  · rw [hsame]
    exact .refl _
  · have hij : (i : ℤ) = j := Key.int.inj (hid.symm.trans hkey)
    obtain rfl : i = j := by omega
    have hlist : AffectsOnly p (((shown usort p config)[i]).get "uniqid") config
        (setList config p.kind (.ofList ((shown usort p config).eraseIdx i))) := by
      apply affectsOnly_setList usort
      intro e he
      rw [List.mem_eraseIdx_iff_getElem]
      constructor
      · rintro ⟨m, hm, -, rfl⟩
        exact List.getElem_mem hm
      · intro hmem
        obtain ⟨m, hm, rfl⟩ := List.getElem_of_mem hmem
        refine ⟨m, hm, ?_, rfl⟩
        rintro rfl
        exact he rfl
    -- after the list is cut, the mappings to the element are taken from the providers
    have hset := @sound_setList p config hsound ((shown usort p config).eraseIdx i) fun e he =>
      hsound.identified p e (mem_shown.1 (List.mem_of_mem_eraseIdx he))
    rw [hdelete]
    constructor
    · intro k hk e he
      rcases elements_forget hset p _ k with hsame | ⟨⟨t, hprovider⟩, -⟩
      · rw [hsame]
        exact hlist.lists k hk e he
      · exact absurd hprovider (hk t)
    · intro t
      have hproviders := @elements_setList_of_ne config _ _ (kind_ne_provider p t)
        (.ofList ((shown usort p config).eraseIdx i))
      rcases elements_forget hset p _ (.provider t) with hsame | ⟨-, hmap⟩
      · exact .inl (hsame.trans hproviders)
      · right
        rw [hmap, hproviders]

/-- An element that kept its position is at it. -/
theorem shown_of_keeps {view : View} {id : String}
    (hpos : ∃ i : ℕ, (Val.str id).key = .int i ∧ i < view.stored.length)
    (h : Keeps usort config view id) :
    ∃ (i : ℕ) (hi : i < (shown usort view.page config).length), (Val.str id).key = .int i ∧
      ((shown usort view.page config)[i]).get "uniqid" = (view.at usort id).get "uniqid" := by
  rcases h with hsame | ⟨hties, e, he, hu, hkey⟩
  · obtain ⟨i, hkey, hi⟩ := hpos
    have hlength : i < (shown usort view.page config).length := by
      rw [shown, (usort.perm _ _).length_eq, hsame]
      exact hi
    refine ⟨i, hlength, hkey, ?_⟩
    rw [View.at, hkey, Val.idx_ofList, ← hsame]
    show _ = ((shown usort view.page config)[i]?.getD .null).get "uniqid"
    rw [List.getElem?_eq_getElem hlength]
    rfl
  · obtain ⟨hi, heq⟩ := List.getElem?_eq_some_iff.1 (getElem?_run_before usort hties he)
    exact ⟨_, hi, hkey, (congrArg (fun e => e.get "uniqid") heq).trans hu⟩

/-- Saving keeps the configuration proper. -/
theorem sound_saveAt (h : Sound config) (id : Option String) (element : Val) (fresh : String) :
    Sound (saveAt usort p id element fresh config) := by
  have hnew : ∀ u, Identified (written element (.str u)) :=
    fun u => ⟨truthy_written, _, get_written, normText_normText u⟩
  have hshown : ∀ e ∈ shown usort p config, Identified e :=
    fun e he => h.identified p e (mem_shown.1 he)
  rcases saveAt_cases usort p id element fresh config with ⟨_, _, i, hi, -, -, hsave⟩ | ⟨-, hsave⟩
  · obtain ⟨-, u, hu, -⟩ := hshown _ (List.getElem_mem hi)
    rw [hsave, hu]
    apply sound_setList h
    intro e he
    rcases List.mem_or_eq_of_mem_set he with he | rfl
    · exact hshown e he
    · exact hnew u
  · rw [hsave]
    apply sound_setList h
    intro e he
    rcases List.mem_append.1 he with he | he
    · exact hshown e he
    · rw [List.mem_singleton.1 he]
      exact hnew _

theorem sound_submit (h : Sound config) (id : Option String) (post : Val) (fresh : String) :
    Sound (submit gettext usort p id post fresh config) := by
  unfold submit
  split_ifs
  · exact sound_saveAt h _ _ _
  · exact h

theorem sound_deleteAt (h : Sound config) (id : String) : Sound (deleteAt usort p id config) := by
  rcases deleteAt_cases usort p id config with ⟨-, hsame⟩ | ⟨i, hi, -, hdelete⟩
  · rwa [hsame]
  · rw [hdelete]
    apply sound_forget
    exact sound_setList h fun e he => h.identified p e (mem_shown.1 (List.mem_of_mem_eraseIdx he))

end Requests

/-! ## Runs -/

section Runs

variable {gettext : String → String} {usort : Usort} {start : Val} {s : Session}
  {a : Action}

theorem sound_apply (h : Sound s.config) (a : Action) : Sound (a.apply gettext usort s).config := by
  cases a with
  | look p => exact h
  | add p post fresh => exact sound_submit h _ _ _
  | edit view id post fresh => exact sound_submit h _ _ _
  | delete view id => exact sound_deleteAt h id

theorem sound_of_run {meets : Session → Action → Prop} (hstart : Sound start)
    (hrun : Run gettext usort meets start s) : Sound s.config := by
  induction hrun with
  | start => exact hstart
  | step _ _ _ ih => exact sound_apply ih _

/-- One request that meets the condition. -/
theorem hits_of_meets (hsound : Sound s.config) (hallowed : a.Allowed s)
    (hmeets : a.Meets gettext usort s) : Hits gettext usort s a := by
  cases a with
  | look p => trivial
  | add p post fresh => trivial
  | edit view id post fresh =>
    show AffectsOnly _ _ _ (submit gettext usort view.page (some id) post fresh s.config)
    unfold submit
    split_ifs with herrors
    · rcases hmeets.2 with hbad | hkeeps
      · exact absurd herrors hbad
      · obtain ⟨i, hi, hkey, hu⟩ := shown_of_keeps hallowed.2 hkeeps
        rw [← hu]
        exact affectsOnly_saveAt hsound hkey hi
    · exact .refl _
  | delete view id =>
    show AffectsOnly _ _ _ (deleteAt usort view.page id s.config)
    rcases hmeets with hkeeps | hgone
    · obtain ⟨i, hi, hkey, hu⟩ := shown_of_keeps hallowed.2 hkeeps
      rw [← hu]
      exact affectsOnly_deleteAt hsound hkey hi
    · rcases deleteAt_cases usort view.page id s.config with ⟨-, hsame⟩ | ⟨i, hi, hkey, -⟩
      · rw [hsame]
        exact .refl _
      · have hle := hgone i hkey
        rw [shown, (usort.perm _ _).length_eq] at hi
        omega

/-- In every run whose requests meet the condition, each of them affects the element that its page
showed at the position, or nothing. -/
theorem positions_hit (hstart : Sound start)
    (hrun : Run gettext usort (fun s a => a.Meets gettext usort s) start s)
    (hallowed : a.Allowed s) (hmeets : a.Meets gettext usort s) : Hits gettext usort s a :=
  hits_of_meets (sound_of_run hstart hrun) hallowed hmeets

end Runs

/-! ## A call group and another one -/

/-- A form for a call group. -/
def groupForm (name extension : String) : Val :=
  .arr [(.str "name", .str name), (.str "extension", .str extension)]

theorem plain_groupForm (name extension : String) : Page.callgroups.Plain (groupForm name extension) := by
  intro a ha
  cases ha

/-- One call group, and a provider with a map to it. -/
def sales : Val :=
  .arr [(.str "dialplan", .arr [(.str "callgroup", .ofList [.arr [(.str "name", .str "Sales"),
      (.str "extension", .str "200"), (.str "uniqid", .str "CALLGROUP-PARALLEL-1")]])]),
    (.str "sip", .arr [(.str "provider", .ofList [.arr [(.str "incomingextensionmap", .ofList
      [.arr [(.str "destinationid", .str "CALLGROUP-PARALLEL-1")]]),
      (.str "uniqid", .str "SIP-PROVIDER-1")]])])]

theorem sound_sales : Sound sales := by
  have hall : ∀ p ∈ [Page.callgroups, Page.rooms], ∀ e ∈ elements sales p.kind, e.truthy = true ∧
      e.get "uniqid" = .str "CALLGROUP-PARALLEL-1" := by decide
  have hproviders : ∀ t ∈ technologies, Listed (listOf sales (.provider t)) ∧
      ∀ e ∈ elements sales (.provider t), Listed (e.get "incomingextensionmap") := by
    unfold Listed Val.Contiguous
    decide
  have ht : ∀ t, t ∈ technologies := by
    intro t
    cases t <;> decide
  refine ⟨?_, fun t => (hproviders t (ht t)).1, fun t => (hproviders t (ht t)).2⟩
  intro p e he
  have hp : p ∈ [Page.callgroups, Page.rooms] := by cases p <;> decide
  obtain ⟨htruthy, hu⟩ := hall p hp e he
  exact ⟨htruthy, _, hu, by decide⟩

/-- One browser shows the call groups, and another one adds a group. -/
def afterAdd (name : String) : Session :=
  (Action.add .callgroups (groupForm name "300") "2").apply id insertionUsort
    ((Action.look .callgroups).apply id insertionUsort { config := sales, views := [] })

/-- The page that the first browser shows. -/
def salesView : View := { page := .callgroups, stored := elements sales .callgroup }

theorem run_afterAdd {meets : Session → Action → Prop} (hmeets : ∀ s, meets s (.look .callgroups))
    (name : String) (hadd : ∀ s, meets s (.add .callgroups (groupForm name "300") "2")) :
    Run id insertionUsort meets sales (afterAdd name) :=
  .step (.step .start trivial (hmeets _)) trivial (hadd _)

theorem allowed_delete (name : String) : (Action.delete salesView "0").Allowed (afterAdd name) :=
  ⟨List.mem_singleton.2 rfl, 0, by decide, by decide⟩

/-- A group that sorts after the one that was shown does no harm. -/
theorem positions_hit_sales : Sound sales ∧
    Hits id insertionUsort (afterAdd "Support") (.delete salesView "0") := by
  refine ⟨sound_sales, positions_hit sound_sales
    (run_afterAdd (fun _ => trivial) "Support" fun _ => plain_groupForm _ _) (allowed_delete _)
    (.inl (.inr ?_))⟩
  refine ⟨⟨elements (afterAdd "Support").config .callgroup, List.Perm.refl _, ?_⟩,
    (elements (afterAdd "Support").config .callgroup).headD .null, ?_, ?_, ?_⟩
  · decide
  · decide
  · decide
  · decide

/-- A group that sorts before it is deleted in its place. -/
theorem not_positions_hit :
    ¬ ∀ (start : Val) (s : Session) (a : Action), Sound start →
      Run id insertionUsort (fun _ _ => True) start s → a.Allowed s →
      Hits id insertionUsort s a := by
  intro h
  have hhits : AffectsOnly _ _ _ _ := h sales (afterAdd "Accounting") (.delete salesView "0") sound_sales
    (run_afterAdd (fun _ => trivial) "Accounting" fun _ => trivial) (allowed_delete _)
  have hother := hhits.lists .callgroup (by rintro t ⟨⟩)
    ((elements (afterAdd "Accounting").config .callgroup).getLastD .null)
  revert hother
  decide

end Www
end Askozia
