import Askozia.Config.UniqidIndex
import Askozia.Php.Loops
import Askozia.Php.Text
import Askozia.Text.Substitution

/-!
# Names for uniqids

`pbx_replace_uniqids_with_names` looks for `uniqid`s in a text, turns each of them into the name of
its element and replaces one after the other. A name is found by taking the place of the element
from the words of its `uniqid`.
-/

namespace Askozia
namespace Pbx

open Php Config Text

/-! ## Finding uniqids -/

/-- `(SIP|IAX|...){1}` of `$uniqid_regex`. -/
def uniqidTechs : List String :=
  ["SIP", "IAX", "ISDN", "ANALOG", "SKINNY", "CONFERENCE", "CALLGROUP", "EXTERNAL", "VIRTUAL"]

/-- `(PROVIDER|PHONE|...){1}` of `$uniqid_regex`. -/
def uniqidTypes : List String := ["PROVIDER", "PHONE", "ROOM", "PARALLEL", "FAX"]

/-- What stands in front of `[0-9a-zA-Z]+` in `$uniqid_regex`, in the order it is tried. -/
def uniqidStarts : List (List Char) :=
  uniqidTechs.flatMap fun t => uniqidTypes.map fun k => (t ++ "-" ++ k ++ "-").toList

/-- The match of `$uniqid_regex` at the beginning of a text. -/
def uniqidAt (s : List Char) : Option (List Char) :=
  uniqidStarts.findSome? fun p =>
    if p.isPrefixOf s then
      match (s.drop p.length).takeWhile Char.isAlphanum with
      | [] => none
      | tail => some (p ++ tail)
    else none

/-- The matches from left to right, and the characters between them. The first argument bounds
the number of pieces. -/
def uniqidPieces : ℕ → List Char → List (Piece Char)
  | 0, _ => []
  | _ + 1, [] => []
  | n + 1, c :: r =>
    match uniqidAt (c :: r) with
    | some m => .word m :: uniqidPieces n ((c :: r).drop m.length)
    | none => .char c :: uniqidPieces n r

/-- A text with the matches of `$uniqid_regex` marked. -/
def marked (string : String) : List (Piece Char) :=
  uniqidPieces string.toList.length string.toList

/-- `preg_match_all($uniqid_regex, $string, $uniqids)`, then `$uniqids[0]`. -/
def pregMatchAllUniqids (string : String) : List String :=
  (words (marked string)).map String.ofList

/-! ## Names -/

/-- `strrpos($s, $c)` for a single character. -/
def strrpos (s : String) (c : Char) : Option ℕ :=
  (s.toList.reverse.idxOf? c).map fun i => s.toList.length - 1 - i

/-- `explode("-", substr(strtolower($uniqid), 0, strrpos($uniqid, "-")))` -/
def uniqidPair (uniqid : String) : List String :=
  explode '-' (String.ofList ((strtolower uniqid).toList.take ((strrpos uniqid '-').getD 0)))

/-- `$pair[$i]` -/
def pairAt (pair : List String) (i : ℕ) : Val :=
  match pair[i]? with
  | some s => .str s
  | none => .null

/-- `pbx_uniqid_to_name_sub($uniqid)` -/
def pbxUniqidToNameSub (g : Globals) (uniqid : String) : Val :=
  let pair := uniqidPair uniqid
  -- for an unknown name this is the key of null
  let offset := (g.uniqidMap.idx (Val.str uniqid).key).key
  let element := ((g.config.idx (pairAt pair 0).key).idx (pairAt pair 1).key).idx offset
  if pair[1]? = some "phone" ∧ pair[0]? = some "external" then element.get "callerid"
  else if pair[1]? = some "phone" then element.get "callerid"
  else if pair[1]? = some "provider" then element.get "name"
  else if pair[1]? = some "room" then element.get "name"
  else if pair[1]? = some "fax" then element.get "name"
  else if pair[1]? = some "callgroup" then element.get "name"
  else if pair[0]? = some "dahdiport" then
    (((g.config.get "interfaces").get "dahdi-port").idx offset).get "name"
  else if pair[0]? = some "dahdiportgroup" then
    (((g.config.get "interfaces").get "dahdi-portgroup").idx offset).get "name"
  else .str ("ERROR:UNIQID_TO_NAME_FAILED(" ++ uniqid ++ ")")

/-- `pbx_uniqid_to_name($uniqid)`, for one `uniqid` or an array of them. -/
def pbxUniqidToName (g : Globals) (uniqid : Val) : Val :=
  if uniqid.isArray then
    Val.forIndex uniqid.count
      (fun i v => v.set (.int i) (pbxUniqidToNameSub g (v.idx (.int i)).toStr)) uniqid
  else pbxUniqidToNameSub g uniqid.toStr

/-- `array_keys(array_flip($uniqids[0]))`: every match once, in the order they are found. -/
def uniqidsOf (string : String) : List String := (pregMatchAllUniqids string).eraseDups

/-- `pbx_replace_uniqids_with_names($string)` -/
def pbxReplaceUniqidsWithNames (g : Globals) (string : String) : String :=
  String.ofList (replaceEach
    ((uniqidsOf string).map fun u => (u.toList, (pbxUniqidToName g (.str u)).toStr.toList))
    string.toList)

/-! ## What the names should be -/

/-- The field an element is shown by. -/
def displayField : Kind → Option String
  | .phone _ => some "callerid"
  | .externalPhone => some "callerid"
  | .fax _ => some "callerid"
  | .provider _ => some "name"
  | .room => some "name"
  | .callgroup => some "name"
  | _ => none

/-- The display name of the phone, provider, fax, room or call group that has a `uniqid`. -/
def displayName (config : Val) (uniqid : String) : Option String :=
  Kind.all.findSome? fun k => (displayField k).bind fun f =>
    ((elements config k).find? fun e => e.get "uniqid" = .str uniqid).map fun e => (e.get f).toStr

/-- The text with the `uniqid`s of elements replaced by their names. -/
def withNames (config : Val) (string : String) : String :=
  String.ofList ((marked string).flatMap fun
    | .char c => [c]
    | .word m => ((displayName config (String.ofList m)).getD (String.ofList m)).toList)

/-- The names that are shown contain no match of `$uniqid_regex`. -/
def NamesFree (config : Val) : Prop :=
  ∀ k ∈ Kind.all, ∀ f ∈ displayField k, ∀ e ∈ elements config k,
    pregMatchAllUniqids (e.get f).toStr = []

/-- The outcome is the text with the names in it. -/
def ReplacesNames (config : Val) (string : String) : Prop :=
  pbxReplaceUniqidsWithNames ⟨config, configBuildUniqidMap config⟩ string = withNames config string

/-! ## When they are -/

/-- The words of the `uniqid` are those of the place where the elements of the kind are. -/
def Spells (k : Kind) (uniqid : String) : Prop :=
  ∃ tail, '-' ∉ tail ∧ uniqid.toList =
    (strtoupper k.sectionName ++ "-" ++ strtoupper k.tagName).toList ++ '-' :: tail

/-- The field that is read has the display name of the element. -/
def Shown (k : Kind) (e : Val) : Prop :=
  match k with
  | .phone _ => True
  | .externalPhone => True
  | .provider _ => True
  | .fax _ => (e.get "name").toStr = (e.get "callerid").toStr
  | _ => False

/-- The `uniqid` is that of an element which is found and shown by its name. -/
def HasName (config : Val) (uniqid : String) : Prop :=
  ∃ k, ∃ e ∈ elements config k, e.get "uniqid" = .str uniqid ∧ Spells k uniqid ∧ Shown k e

/-- No `uniqid` of the text turns up outside its matches, in the text in which those found before
it have been replaced. -/
def KeptApart (config : Val) (string : String) : Prop :=
  Apart ((uniqidsOf string).map fun u => (u.toList, ((displayName config u).getD u).toList))
    (marked string)

/-! ## Marking a text -/

/-- A match is not empty and stands at the beginning of the text. -/
theorem uniqidAt_some {s m : List Char} (h : uniqidAt s = some m) : m ≠ [] ∧ m <+: s := by
  obtain ⟨p, -, hp⟩ := List.exists_of_findSome?_eq_some h
  split at hp
  · next hpre =>
    obtain ⟨r, rfl⟩ := List.isPrefixOf_iff_prefix.1 hpre
    rw [List.drop_left] at hp
    split at hp
    · cases hp
    · next tail htail =>
      obtain rfl := Option.some.inj hp
      have htake : r.takeWhile Char.isAlphanum <+: r := List.takeWhile_prefix _
      refine ⟨?_, List.prefix_append_right_inj p |>.2 htake⟩
      intro hnil
      exact htail (List.append_eq_nil_iff.1 hnil).2
  · cases hp

theorem text_uniqidPieces {n : ℕ} {s : List Char} (h : s.length ≤ n) :
    text (uniqidPieces n s) = s := by
  induction n generalizing s with
  | zero => rw [List.length_eq_zero_iff.1 (Nat.le_zero.1 h)]; rfl
  | succ n ih =>
    cases s with
    | nil => rfl
    | cons c r =>
      rw [uniqidPieces]
      cases hm : uniqidAt (c :: r) with
      | none =>
        have hr : text (uniqidPieces n r) = r := ih (Nat.le_of_succ_le_succ h)
        show text (.char c :: uniqidPieces n r) = c :: r
        rw [text_cons, hr]
        rfl
      | some m =>
        obtain ⟨hne, t, ht⟩ := uniqidAt_some hm
        have hpos := List.length_pos_iff.2 hne
        have hlen : m.length + t.length = (c :: r).length := by rw [← ht, List.length_append]
        have hdrop : (c :: r).drop m.length = t := by rw [← ht, List.drop_left]
        show text (.word m :: uniqidPieces n ((c :: r).drop m.length)) = c :: r
        rw [text_cons, hdrop, ih (by omega)]
        exact ht

theorem text_marked (string : String) : text (marked string) = string.toList :=
  text_uniqidPieces le_rfl

theorem mem_words {α : Type*} {w : List α} {ps : List (Piece α)} :
    w ∈ words ps ↔ .word w ∈ ps := by
  rw [words, List.mem_filterMap]
  constructor
  · rintro ⟨x, hx, hw⟩
    cases x with
    | char c => cases hw
    | word w' => rwa [← Option.some.inj hw]
  · exact fun h => ⟨_, h, rfl⟩

/-- The marked words are the `uniqid`s of the text. -/
theorem mem_uniqidsOf {string : String} {m : List Char} (h : .word m ∈ marked string) :
    String.ofList m ∈ uniqidsOf string := by
  rw [uniqidsOf, List.mem_eraseDups, pregMatchAllUniqids]
  exact List.mem_map_of_mem (mem_words.2 h)

theorem uniqidsOf_ne_nil {string u : String} (h : u ∈ uniqidsOf string) : u.toList ≠ [] := by
  rw [uniqidsOf, List.mem_eraseDups, pregMatchAllUniqids] at h
  obtain ⟨m, hm, rfl⟩ := List.mem_map.1 h
  rw [String.toList_ofList]
  have hpieces : ∀ n s, ∀ m, .word m ∈ uniqidPieces n s → m ≠ [] := by
    intro n
    induction n with
    | zero => exact fun s m hm => absurd hm List.not_mem_nil
    | succ n ih =>
      intro s m hm
      cases s with
      | nil => exact absurd hm List.not_mem_nil
      | cons c r =>
        rw [uniqidPieces] at hm
        cases hat : uniqidAt (c :: r) with
        | none =>
          rw [hat] at hm
          rcases List.mem_cons.1 hm with hc | hm
          · cases hc
          · exact ih _ _ hm
        | some m' =>
          rw [hat] at hm
          rcases List.mem_cons.1 hm with hc | hm
          · obtain rfl : m = m' := Piece.word.inj hc
            exact (uniqidAt_some hat).1
          · exact ih _ _ hm
  exact hpieces _ _ m (mem_words.1 hm)

/-! ## Looking up a name -/

theorem idxOf_append {x y : List Char} {c : Char} (h : c ∉ x) :
    (x ++ c :: y).idxOf? c = some x.length := by
  induction x with
  | nil => simp [List.idxOf?_cons]
  | cons d r ih =>
    have hne : (d == c) = false := by
      rw [beq_eq_false_iff_ne]
      exact fun hc => h (by simp [hc])
    rw [List.cons_append, List.idxOf?_cons, hne, ih fun hc => h (List.mem_cons_of_mem d hc)]
    simp

theorem strrpos_append {s : String} {x y : List Char} {c : Char} (hs : s.toList = x ++ c :: y)
    (hy : c ∉ y) : strrpos s c = some x.length := by
  have hrev : s.toList.reverse = y.reverse ++ c :: x.reverse := by
    rw [hs, List.reverse_append, List.reverse_cons, List.append_assoc]
    rfl
  have hidx : (y.reverse ++ c :: x.reverse).idxOf? c = some y.length := by
    rw [idxOf_append (by simpa using hy), List.length_reverse]
  rw [strrpos, hrev, hidx, hs, Option.map_some, List.length_append, List.length_cons]
  congr 1
  omega

/-- The `uniqid` of an element that is shown leads to the list the element is in. -/
theorem uniqidPair_of_spells {k : Kind} {uniqid : String} (h : Spells k uniqid)
    (hk : k ≠ .dahdiPort ∧ k ≠ .dahdiPortgroup ∧ k ≠ .redfoneGateway) :
    uniqidPair uniqid = [k.sectionName, k.tagName] := by
  obtain ⟨tail, htail, hu⟩ := h
  have hlow : (strtolower uniqid).toList.take ((strrpos uniqid '-').getD 0) =
      (strtolower (strtoupper k.sectionName ++ "-" ++ strtoupper k.tagName)).toList := by
    rw [strrpos_append hu htail, strtolower, String.toList_ofList, hu, List.map_append,
      Option.getD_some, strtolower, String.toList_ofList, ← List.length_map (f := Char.toLower),
      List.take_left]
  have hwords : ∀ k ∈ Kind.all, k ≠ .dahdiPort ∧ k ≠ .dahdiPortgroup ∧ k ≠ .redfoneGateway →
      explode '-' (strtolower (strtoupper k.sectionName ++ "-" ++ strtoupper k.tagName)) =
        [k.sectionName, k.tagName] := by decide +kernel
  rw [uniqidPair, hlow, String.ofList_toList]
  exact hwords k k.mem_all hk

section Found

variable {config : Val}

/-- Two elements with one `uniqid` are the same. -/
theorem same_of_uniqid (hwf : WellFormed config) {k k' : Kind} {e e' : Val}
    (he : e ∈ elements config k) (he' : e' ∈ elements config k')
    (hu : e.get "uniqid" = e'.get "uniqid") : k = k' ∧ e = e' := by
  obtain ⟨i, hi, rfl⟩ := List.getElem_of_mem he
  obtain ⟨j, hj, rfl⟩ := List.getElem_of_mem he'
  obtain ⟨rfl, rfl⟩ := hwf.eq_of_uniqid hi hj hu
  exact ⟨rfl, rfl⟩

theorem findSome_eq {α β : Type*} {f : α → Option β} {l : List α} {a : α} {b : β} (ha : a ∈ l)
    (hb : f a = some b) (h : ∀ x ∈ l, ∀ y, f x = some y → y = b) : l.findSome? f = some b := by
  cases hl : l.findSome? f with
  | none =>
    have hnone := List.findSome?_eq_none_iff.1 hl a ha
    rw [hb] at hnone
    cases hnone
  | some y =>
    obtain ⟨x, hx, hy⟩ := List.exists_of_findSome?_eq_some hl
    rw [h x hx y hy]

/-- A stored element has its display name under its `uniqid`. -/
theorem displayName_eq (hwf : WellFormed config) {k : Kind} {e : Val} {f uniqid : String}
    (he : e ∈ elements config k) (hu : e.get "uniqid" = .str uniqid)
    (hf : displayField k = some f) : displayName config uniqid = some (e.get f).toStr := by
  have hfound : ∀ {k' e'}, (elements config k').find? (fun e => e.get "uniqid" = .str uniqid) =
      some e' → k = k' ∧ e = e' := by
    intro k' e' h
    have hu' : e'.get "uniqid" = .str uniqid := by simpa using List.find?_some h
    exact same_of_uniqid hwf he (List.mem_of_find?_eq_some h) (hu.trans hu'.symm)
  have hfind : (elements config k).find? (fun e => e.get "uniqid" = .str uniqid) = some e := by
    cases hx : (elements config k).find? (fun e => e.get "uniqid" = .str uniqid) with
    | none =>
      have hnone := List.find?_eq_none.1 hx e he
      exact absurd hu (by simpa using hnone)
    | some e' => rw [(hfound hx).2]
  refine findSome_eq k.mem_all ?_ fun k' _ y hy => ?_
  · rw [hf, Option.bind_some, hfind, Option.map_some]
  · obtain ⟨f', hf', hy⟩ := Option.bind_eq_some_iff.1 hy
    obtain ⟨e', he', rfl⟩ := Option.map_eq_some_iff.1 hy
    obtain ⟨rfl, rfl⟩ := hfound he'
    rw [Option.some.inj (hf.symm.trans hf')]

/-- The offset of an element leads back to it. -/
theorem idx_offset (hwf : WellFormed config) {k : Kind} {e : Val} {uniqid : String}
    (he : e ∈ elements config k) (hu : e.get "uniqid" = .str uniqid) :
    (listOf config k).idx ((configBuildUniqidMap config).idx (Val.str uniqid).key).key = e := by
  obtain ⟨i, hi, rfl⟩ := List.getElem_of_mem he
  have hoff := hwf.offset hi
  rw [hu] at hoff
  rw [hoff]
  show (listOf config k).idx (.int i) = _
  rw [idx_of_contiguous (contiguous_of_mem hwf.lists he), List.getElem?_eq_getElem hi, Option.getD_some]

/-- The value that is found where the words of a `uniqid` lead to. -/
theorem pbxUniqidToNameSub_eq {g : Globals} {uniqid sec tag field : String} {e : Val}
    (hpair : uniqidPair uniqid = [sec, tag])
    (he : ((g.config.idx (Val.str sec).key).idx (Val.str tag).key).idx
      (g.uniqidMap.idx (Val.str uniqid).key).key = e)
    (hfield : tag = "phone" ∧ field = "callerid" ∨
      (tag = "provider" ∨ tag = "fax") ∧ field = "name") :
    pbxUniqidToNameSub g uniqid = e.get field := by
  have h0 : pairAt [sec, tag] 0 = .str sec := rfl
  have h1 : pairAt [sec, tag] 1 = .str tag := rfl
  unfold pbxUniqidToNameSub
  simp only [hpair, h0, h1, he]
  rcases hfield with ⟨rfl, rfl⟩ | ⟨rfl | rfl, rfl⟩
  · simp
  · simp
  · simp

/-- A named `uniqid` is turned into the display name of its element. -/
theorem uniqidToName_eq (hwf : WellFormed config) {uniqid : String} (h : HasName config uniqid) :
    displayName config uniqid =
      some (pbxUniqidToName ⟨config, configBuildUniqidMap config⟩ (.str uniqid)).toStr := by
  obtain ⟨k, e, he, hu, hspells, hshown⟩ := h
  have hkeys : ∀ k ∈ Kind.all, (Val.str k.sectionName).key = .str k.sectionName ∧
      (Val.str k.tagName).key = .str k.tagName := by decide
  have helem : ((config.idx (Val.str k.sectionName).key).idx (Val.str k.tagName).key).idx
      ((configBuildUniqidMap config).idx (Val.str uniqid).key).key = e := by
    rw [(hkeys k k.mem_all).1, (hkeys k k.mem_all).2]
    exact idx_offset hwf he hu
  have hsub : ∀ field, (k.tagName = "phone" ∧ field = "callerid" ∨
      (k.tagName = "provider" ∨ k.tagName = "fax") ∧ field = "name") →
      pbxUniqidToName ⟨config, configBuildUniqidMap config⟩ (.str uniqid) = e.get field := by
    intro field hfield
    have hports : k ≠ .dahdiPort ∧ k ≠ .dahdiPortgroup ∧ k ≠ .redfoneGateway := by
      refine ⟨?_, ?_, ?_⟩
      all_goals
        rintro rfl
        simp [Kind.tagName] at hfield
    rw [pbxUniqidToName, if_neg (by simp [Val.isArray])]
    exact pbxUniqidToNameSub_eq (uniqidPair_of_spells hspells hports) helem hfield
  cases k with
  | phone t => rw [displayName_eq hwf he hu rfl, hsub "callerid" (.inl ⟨rfl, rfl⟩)]
  | externalPhone => rw [displayName_eq hwf he hu rfl, hsub "callerid" (.inl ⟨rfl, rfl⟩)]
  | provider t => rw [displayName_eq hwf he hu rfl, hsub "name" (.inr ⟨.inl rfl, rfl⟩)]
  | fax t =>
    -- the name is read where the caller id is shown
    rw [displayName_eq hwf he hu rfl, hsub "name" (.inr ⟨.inr rfl, rfl⟩)]
    exact congrArg some (Eq.symm hshown)
  | _ => exact absurd hshown id

end Found

/-! ## Replacing -/

theorem lookup_map_of_mem {us : List String} {f : String → List Char} {m : List Char}
    (h : String.ofList m ∈ us) :
    (us.map fun u => (u.toList, f u)).lookup m = some (f (String.ofList m)) := by
  induction us with
  | nil => cases h
  | cons u r ih =>
    rw [List.map_cons, List.lookup_cons]
    by_cases hm : m = u.toList
    · subst hm
      simp
    · have hne : (m == u.toList) = false := beq_eq_false_iff_ne.2 hm
      rw [hne]
      refine ih ((List.mem_cons.1 h).resolve_left fun hc => hm ?_)
      rw [← hc, String.toList_ofList]

/-- Where all `uniqid`s are named and kept apart, they are replaced by the names. -/
theorem replaces_names {config : Val} (hwf : WellFormed config) {string : String}
    (hnamed : ∀ u ∈ pregMatchAllUniqids string, HasName config u) (hapart : KeptApart config string) :
    ReplacesNames config string := by
  have hnames : ∀ u ∈ uniqidsOf string,
      (u.toList, (pbxUniqidToName ⟨config, configBuildUniqidMap config⟩ (.str u)).toStr.toList) =
        (u.toList, ((displayName config u).getD u).toList) := by
    intro u hu
    rw [uniqidsOf, List.mem_eraseDups] at hu
    rw [uniqidToName_eq hwf (hnamed u hu), Option.getD_some]
  have hne : ∀ p ∈ (uniqidsOf string).map
      (fun u => (u.toList, ((displayName config u).getD u).toList)), p.1 ≠ [] := by
    intro p hp
    obtain ⟨u, hu, rfl⟩ := List.mem_map.1 hp
    exact uniqidsOf_ne_nil hu
  rw [ReplacesNames, pbxReplaceUniqidsWithNames, List.map_congr_left hnames, ← text_marked,
    replaceEach_text hne hapart, withNames, text, substituteAll, List.flatMap_assoc]
  refine congrArg String.ofList (List.flatMap_congr fun x hx => ?_)
  -- piece by piece, where each name stands for itself
  cases x with
  | char c => rfl
  | word m =>
    dsimp only
    rw [lookup_map_of_mem (mem_uniqidsOf hx)]
    exact text_chars _

/-! ## Runs -/

instance (config : Val) (string : String) : Decidable (ReplacesNames config string) :=
  inferInstanceAs (Decidable (_ = _))

instance (config : Val) (string : String) : Decidable (KeptApart config string) :=
  inferInstanceAs (Decidable (Apart _ _))

/-- An element with a display name. -/
def namedElement (uniqid field name : String) : Val :=
  .arr [(.str "uniqid", .str uniqid), (.str field, .str name)]

/-- Two phones, a provider, a room, a call group and a fax. -/
def staffed : Val :=
  .arr [(.str "sip", .arr [
      (.str "phone", .ofList [namedElement "SIP-PHONE-1" "callerid" "Anna",
        namedElement "SIP-PHONE-12" "callerid" "Bert"]),
      (.str "provider", .ofList [namedElement "SIP-PROVIDER-3" "name" "Trunk"])]),
    (.str "conferencing", .arr [
      (.str "room", .ofList [namedElement "CONFERENCE-ROOM-4" "name" "Sales"])]),
    (.str "virtual", .arr [
      (.str "fax", .ofList [namedElement "VIRTUAL-FAX-5" "callerid" "Fax"])]),
    (.str "dialplan", .arr [
      (.str "callgroup", .ofList [namedElement "CALLGROUP-PARALLEL-6" "name" "All"])])]

theorem wellFormed_staffed : WellFormed staffed :=
  wellFormed_of_all (by decide) (by decide) (by decide)

theorem replaces_names_staffed :
    ReplacesNames staffed "from SIP-PHONE-12 to SIP-PROVIDER-3" := by
  refine replaces_names wellFormed_staffed ?_ (by decide +kernel)
  have hfound : pregMatchAllUniqids "from SIP-PHONE-12 to SIP-PROVIDER-3" =
      ["SIP-PHONE-12", "SIP-PROVIDER-3"] := by decide +kernel
  rw [hfound]
  intro u hu
  rcases List.mem_cons.1 hu with rfl | hu
  · -- a phone by its caller id, a provider by its name
    exact ⟨.phone .sip, namedElement "SIP-PHONE-12" "callerid" "Bert", by decide, by decide,
      ⟨"12".toList, by decide, by decide⟩, trivial⟩
  · rw [List.mem_singleton] at hu
    subst hu
    exact ⟨.provider .sip, namedElement "SIP-PROVIDER-3" "name" "Trunk", by decide, by decide,
      ⟨"3".toList, by decide, by decide⟩, trivial⟩

/-- Rooms are looked for in the wrong section, call groups fail, faxes are read in the wrong field,
a `uniqid` that is not stored disappears, and one that begins with another is torn apart. -/
theorem not_replaces_names :
    (WellFormed staffed ∧ NamesFree staffed) ∧ ¬ ReplacesNames staffed "CONFERENCE-ROOM-4" ∧
      ¬ ReplacesNames staffed "CALLGROUP-PARALLEL-6" ∧ ¬ ReplacesNames staffed "VIRTUAL-FAX-5" ∧
      ¬ ReplacesNames staffed "SIP-PHONE-7" ∧ ¬ ReplacesNames staffed "SIP-PHONE-1 SIP-PHONE-12" := by
  have hfree : NamesFree staffed := by
    unfold NamesFree
    decide +kernel
  refine ⟨⟨wellFormed_staffed, hfree⟩, ?_⟩
  decide +kernel

end Pbx
end Askozia
