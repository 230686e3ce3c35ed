import Askozia.Config.Store
import Askozia.Pbx.Base64
import Askozia.Php.Edits
import Askozia.XmlParse.RoundTrip

/-!
# Files kept in the configuration (`util.inc`)

`util_file_put` keeps the contents of a file in the list `manual-file` of the configuration, and
`util_file_get` finds them again. A file is replaced by unsetting its entry and appending a new one, which
leaves a gap in the list; `write_config` writes the list and reads it again, and so closes the gap.

* `represents_put`: the list stays a map from paths to contents and modes;
* `manual_files_map`: so a file is read back as it was put last, and puts to different paths do not
  matter to each other.
-/

namespace Askozia
namespace Util

open Php Xml Config Pbx XmlParse

/-! ## The functions -/

/-- What the loops of both functions find: the first offset with the path. -/
def offsetOf (files : Val) (fullpath : String) : Option ℕ :=
  (List.range files.count).find? fun i =>
    ((files.idx (.int i)).get "full-path").looseEq (.str fullpath)

/-- A blank file. -/
def blankFile (fullpath : String) : Val :=
  .arr [(.str "full-path", .str fullpath), (.str "contents", .str ""), (.str "mode", .str "append")]

/-- `util_file_get($fullpath)` -/
def utilFileGet (config : Val) (fullpath : String) : Val :=
  let files := config.get "manual-file"
  match offsetOf files fullpath with
  | some i =>
    let file := files.idx (.int i)
    file.set (.str "contents") (.str (base64Decode (file.get "encoded-contents").toStr))
  | none => blankFile fullpath

/-- An entry of the list. -/
def newFile (fullpath contents mode : String) : Val :=
  .arr [(.str "full-path", .str fullpath), (.str "encoded-contents", .str (base64Encode contents)),
    (.str "mode", .str mode)]

/-- `util_file_put($fullpath, $contents, $mode)`, up to `write_config`. -/
def putFile (config : Val) (fullpath contents mode : String) : Val :=
  let files := config.get "manual-file"
  let config :=
    match offsetOf files fullpath with
    | some i => config.set (.str "manual-file") (files.unset (.int i))
    | none => config
  if contents ≠ "" then
    config.set (.str "manual-file") ((config.get "manual-file").push (newFile fullpath contents mode))
  else config

/-- `util_file_put($fullpath, $contents, $mode)` -/
def utilFilePut (X : Expat) (io : Fopen) (now : ℤ) (s : State) (fullpath contents mode : String) : Outcome :=
  writeConfig X io now { s with config := putFile s.config fullpath contents mode }

/-! ## Files -/

/-- A file: a path that is printable and no number, contents of bytes and a printable mode. -/
structure File where
  fullpath : String
  contents : String
  mode : String
  path_printable : Printable fullpath
  path_word : number? fullpath = none
  bytes : ∀ c ∈ contents.toList, c.toNat < 256
  mode_printable : Printable mode

/-- How a file is stored. -/
def File.stored (f : File) : Val := newFile f.fullpath f.contents f.mode

/-- What `util_file_get` returns of a file. -/
def File.shown (f : File) : Val :=
  .arr [(.str "full-path", .str f.fullpath), (.str "encoded-contents", .str (base64Encode f.contents)),
    (.str "mode", .str f.mode), (.str "contents", .str f.contents)]

/-- The files after a put. -/
def putList (files : List File) (f : File) : List File :=
  files.filter (fun g => g.fullpath ≠ f.fullpath) ++ if f.contents = "" then [] else [f]

/-- A list as it is read from the configuration: an empty one is not there. -/
def readList (xs : List Val) : Val := if xs = [] then .null else .ofList xs

/-- The configuration holds some files, with one entry for each path. -/
structure Represents (config : Val) (files : List File) : Prop where
  canonical : Canonical Printable config
  /-- not all of the configuration are files -/
  more : ∃ k, k ≠ .str "manual-file" ∧ k ∈ config.entries.map Prod.fst
  stored : config.get "manual-file" = readList (files.map File.stored)
  distinct : (files.map File.fullpath).Nodup
  nonempty : ∀ f ∈ files, f.contents ≠ ""

section Lookup

variable {config : Val} {files : List File} {fullpath : String}

theorem count_readList (xs : List Val) : (readList xs).count = xs.length := by
  unfold readList
  split_ifs with h
  · rw [h]
    rfl
  · exact Val.ofList_count xs

theorem idx_readList (xs : List Val) (i : ℕ) : (readList xs).idx (.int i) = xs[i]?.getD .null := by
  unfold readList
  split_ifs with h
  · rw [h]
    rfl
  · exact Val.idx_ofList xs i

theorem vals_readList (xs : List Val) : (readList xs).vals = xs := by
  unfold readList
  split_ifs with h
  · rw [h]
    rfl
  · exact Val.vals_ofList xs

/-- The test of the loops, on a file. -/
theorem looseEq_path (f : File) (fullpath : String) :
    (f.stored.get "full-path").looseEq (.str fullpath) = decide (f.fullpath = fullpath) := by
  show (Val.str f.fullpath).looseEq (.str fullpath) = _
  unfold Val.looseEq
  rw [f.path_word]
  dsimp only
  by_cases h : f.fullpath = fullpath
  · rw [decide_eq_true h, h]
    exact beq_self_eq_true fullpath
  · rw [decide_eq_false h]
    exact beq_eq_false_iff_ne.2 h

/-- What the loops find. -/
theorem offsetOf_cases (files : List File) (fullpath : String) :
    (∃ i, ∃ hi : i < files.length, (files[i]).fullpath = fullpath ∧
      offsetOf (readList (files.map File.stored)) fullpath = some i) ∨
    ((∀ f ∈ files, f.fullpath ≠ fullpath) ∧
      offsetOf (readList (files.map File.stored)) fullpath = none) := by
  -- the loose comparison of the source is one of texts, for a path is no number
  have htest : ∀ i, ∀ hi : i < files.length,
      (((readList (files.map File.stored)).idx (.int i)).get "full-path").looseEq (.str fullpath) =
        decide ((files[i]).fullpath = fullpath) := by
    intro i hi
    rw [idx_readList, List.getElem?_map, List.getElem?_eq_getElem hi]
    exact looseEq_path files[i] fullpath
  cases hfind : offsetOf (readList (files.map File.stored)) fullpath with
  | some i =>
    left
    have hi : i < files.length := by
      have hmem := List.mem_range.1 (List.mem_of_find?_eq_some hfind)
      rwa [count_readList, List.length_map] at hmem
    have hfound := List.find?_some hfind
    rw [htest i hi] at hfound
    exact ⟨i, hi, of_decide_eq_true hfound, rfl⟩
  | none =>
    right
    refine ⟨?_, rfl⟩
    intro f hf heq
    obtain ⟨i, hi, rfl⟩ := List.getElem_of_mem hf
    have hnone := List.find?_eq_none.1 hfind i (by
      rw [count_readList, List.length_map, List.mem_range]
      exact hi)
    rw [htest i hi] at hnone
    exact hnone (decide_eq_true heq)

theorem eq_of_fullpath (h : (files.map File.fullpath).Nodup) {f g : File} (hf : f ∈ files)
    (hg : g ∈ files) (heq : f.fullpath = g.fullpath) : f = g :=
  List.inj_on_of_nodup_map h hf hg heq

theorem shown_stored (f : File) :
    f.stored.set (.str "contents") (.str (base64Decode (f.stored.get "encoded-contents").toStr)) =
      f.shown := by
  show (Val.arr [(.str "full-path", .str f.fullpath), (.str "encoded-contents", .str (base64Encode f.contents)),
    (.str "mode", .str f.mode), (.str "contents", .str (base64Decode (base64Encode f.contents)))]) = _
  rw [base64Decode_encode f.bytes]
  rfl

/-- A path that has a file. -/
theorem utilFileGet_of_mem (h : Represents config files) {f : File} (hf : f ∈ files) :
    utilFileGet config f.fullpath = f.shown := by
  unfold utilFileGet
  rw [h.stored]
  dsimp only
  rcases offsetOf_cases files f.fullpath with ⟨i, hi, hpath, hoffset⟩ | ⟨hnone, -⟩
  · rw [hoffset]
    dsimp only
    rw [idx_readList, List.getElem?_map, List.getElem?_eq_getElem hi]
    show (files[i]).stored.set (.str "contents")
      (.str (base64Decode ((files[i]).stored.get "encoded-contents").toStr)) = f.shown
    rw [eq_of_fullpath h.distinct (List.getElem_mem hi) hf hpath]
    exact shown_stored f
  · exact absurd rfl (hnone f hf)

/-- A path that has none. -/
theorem utilFileGet_of_not_mem (h : Represents config files) (hnone : ∀ f ∈ files, f.fullpath ≠ fullpath) :
    utilFileGet config fullpath = blankFile fullpath := by
  unfold utilFileGet
  rw [h.stored]
  dsimp only
  rcases offsetOf_cases files fullpath with ⟨i, hi, hpath, -⟩ | ⟨-, hoffset⟩
  · exact absurd hpath (hnone _ (List.getElem_mem hi))
  · rw [hoffset]

/-- The map from paths to files. -/
def mapOf (files : List File) (path : String) : Option File := files.find? fun f => f.fullpath = path

/-- `util_file_get` reads the map. -/
theorem utilFileGet_eq (h : Represents config files) (path : String) :
    utilFileGet config path = ((mapOf files path).map File.shown).getD (blankFile path) := by
  cases hfind : mapOf files path with
  | some f =>
    unfold mapOf at hfind
    have hpath : f.fullpath = path := by simpa using List.find?_some hfind
    rw [← hpath, utilFileGet_of_mem h (List.mem_of_find?_eq_some hfind)]
    rfl
  | none =>
    refine utilFileGet_of_not_mem h ?_
    intro f hf hpath
    exact List.find?_eq_none.1 hfind f hf (decide_eq_true hpath)

/-- A put is an update of the map. -/
theorem mapOf_putList (files : List File) (f : File) :
    mapOf (putList files f) =
      Function.update (mapOf files) f.fullpath (if f.contents = "" then none else some f) := by
  funext path
  unfold mapOf putList
  rw [List.find?_append]
  -- the path that is written, and the others
  by_cases hpath : path = f.fullpath
  · subst hpath
    have hnone : (files.filter fun g => g.fullpath ≠ f.fullpath).find?
        (fun g => decide (g.fullpath = f.fullpath)) = none := by
      rw [List.find?_eq_none]
      intro g hg
      simpa using (List.mem_filter.1 hg).2
    rw [hnone, Function.update_self]
    split_ifs
    · rfl
    · simp
  · have hsame : (files.filter fun g => g.fullpath ≠ f.fullpath).find?
        (fun g => decide (g.fullpath = path)) = files.find? fun g => decide (g.fullpath = path) := by
      rw [List.find?_filter]
      congr 1
      funext g
      by_cases hg : g.fullpath = path
      · simp [hg, hpath]
      · simp [hg]
    have hnot : (if f.contents = "" then [] else [f]).find? (fun g => decide (g.fullpath = path)) = none := by
      split_ifs
      · rfl
      · simp [Ne.symm hpath]
    rw [hsame, hnot, Option.or_none, Function.update_of_ne hpath]

end Lookup

/-! ## Putting a file -/

section Putting

variable {config : Val} {files : List File}

/-- Unsetting the entry of a path leaves the other entries, in order. -/
theorem vals_unset (h : (files.map File.fullpath).Nodup) {i : ℕ} (hi : i < files.length) :
    ((Val.ofList (files.map File.stored)).unset (.int i)).isArray = true ∧
      ((Val.ofList (files.map File.stored)).unset (.int i)).vals =
        (files.filter fun g => g.fullpath ≠ (files[i]).fullpath).map File.stored := by
  let p : Val → Bool := fun x => x.get "full-path" = .str (files[i]).fullpath
  have hp : ∀ j (hj : j < (files.map File.stored).length), p (files.map File.stored)[j] = decide (j = i) := by
    intro j hj
    rw [List.length_map] at hj
    rw [List.getElem_map]
    show decide (Val.str (files[j]).fullpath = .str (files[i]).fullpath) = decide (j = i)
    have hiff : (Val.str (files[j]).fullpath = .str (files[i]).fullpath) ↔ j = i := by
      constructor
      · intro heq
        have hsame := eq_of_fullpath h (List.getElem_mem hj) (List.getElem_mem hi) (Val.str.inj heq)
        exact (List.Nodup.of_map _ h).getElem_inj_iff.1 hsame
      · rintro rfl
        rfl
    exact decide_eq_decide.2 hiff
  rw [Val.unset_ofList hp]
  refine ⟨rfl, ?_⟩
  rw [Val.vals_dropItems, Val.vals_ofList, List.filter_map]
  refine congrArg _ (List.filter_congr ?_)
  intro g _
  show (!decide (Val.str g.fullpath = .str (files[i]).fullpath)) = decide (g.fullpath ≠ (files[i]).fullpath)
  rw [← decide_not]
  exact decide_eq_decide.2 (not_congr ⟨Val.str.inj, congrArg Val.str⟩)

/-- A put without contents of a path without a file changes nothing; any other one writes the list. -/
theorem putFile_cases (h : Represents config files) (f : File) :
    (putFile config f.fullpath f.contents f.mode = config ∧ putList files f = files) ∨
    ∃ v, v.isArray = true ∧ v.vals = (putList files f).map File.stored ∧
      putFile config f.fullpath f.contents f.mode = config.set (.str "manual-file") v := by
  unfold putFile
  rw [h.stored]
  dsimp only
  rcases offsetOf_cases files f.fullpath with ⟨i, hi, hpath, hoffset⟩ | ⟨hnone, hoffset⟩
  · -- an old version is removed, and the new one put at the end if it is not empty
    right
    rw [hoffset]
    dsimp only
    have hlist : readList (files.map File.stored) = .ofList (files.map File.stored) := by
      unfold readList
      rw [if_neg]
      intro hnil
      rw [List.map_eq_nil_iff.1 hnil] at hi
      exact absurd hi (Nat.not_lt_zero i)
    obtain ⟨harray, hvals⟩ := vals_unset h.distinct hi
    rw [hpath] at hvals
    rw [hlist]
    split_ifs with hcontents
    · refine ⟨((Val.ofList (files.map File.stored)).unset (.int i)).push f.stored, rfl, ?_, ?_⟩
      · rw [Val.vals_push _ (.inl harray), hvals, putList, if_neg hcontents, List.map_append]
        rfl
      · rw [Val.get, Val.idx_set_self]
        show Val.arr (Val.setEntry _ _ (Val.setEntry _ _ config.entries)) = _
        rw [Val.setEntry_setEntry]
        rfl
    · refine ⟨_, harray, ?_, rfl⟩
      rw [hvals, putList, if_pos (not_not.1 hcontents), List.append_nil]
  · rw [hoffset]
    dsimp only
    -- without an old version nothing is removed
    have hkept : files.filter (fun g => g.fullpath ≠ f.fullpath) = files := by
      rw [List.filter_eq_self]
      intro g hg
      exact decide_eq_true (hnone g hg)
    split_ifs with hcontents
    · right
      refine ⟨(readList (files.map File.stored)).push f.stored, rfl, ?_, ?_⟩
      · have harray : (readList (files.map File.stored)).isArray = true ∨
            readList (files.map File.stored) = .null := by
          unfold readList
          split_ifs
          · exact .inr rfl
          · exact .inl rfl
        rw [Val.vals_push _ harray, vals_readList, putList, hkept, if_neg hcontents, List.map_append]
        rfl
      · rw [h.stored]
        rfl
    · left
      refine ⟨rfl, ?_⟩
      rw [putList, hkept, if_pos (not_not.1 hcontents), List.append_nil]

end Putting

/-! ## Writing -/

section Writing

variable {config : Val} {files : List File}

theorem canonical_stored (f : File) : Canonical Printable f.stored := by
  have hencoded : Printable (base64Encode f.contents) := by
    have hchars : ∀ c ∈ (base64Encode f.contents).toList, (32 ≤ c.toNat ∧ c.toNat < 127) ∧ c ≠ ' ' :=
      forall_mem_base64Encode (by decide) (by decide) f.contents
    refine ⟨fun c hc => (hchars c hc).1, ?_⟩
    intro hhead
    exact (hchars ' ' (List.mem_of_head? hhead)).2 rfl
  have hname : ∀ n ∈ ["full-path", "encoded-contents", "mode"], LowerName n ∧ n ∉ listtags := by
    unfold LowerName
    decide
  have hkeys : ([.str "full-path", .str "encoded-contents", .str "mode"] : List Key).Nodup := by decide
  refine .map (List.cons_ne_nil _ _) hkeys ?_
  intro e he
  simp only [List.mem_cons, List.not_mem_nil, or_false] at he
  rcases he with rfl | rfl | rfl
  · exact .single (hname _ (by simp)).1 (hname _ (by simp)).2 (.str f.path_printable)
  · exact .single (hname _ (by simp)).1 (hname _ (by simp)).2 (.str hencoded)
  · exact .single (hname _ (by simp)).1 (hname _ (by simp)).2 (.str f.mode_printable)

/-- The time of a change is printable. -/
theorem printable_time {now : ℤ} (h : now > clockPlausible) : Printable (toString now) := by
  obtain ⟨n, rfl⟩ := Int.eq_ofNat_of_zero_le (show 0 ≤ now by unfold clockPlausible at h; omega)
  show Printable (toString n)
  have hdigit : ∀ c ∈ (toString n).toList, c.isDigit = true := by
    intro c hc
    rw [Nat.toString_eq_ofList_toDigits, String.toList_ofList] at hc
    exact Nat.isDigit_of_mem_toDigits (by decide) (by decide) hc
  refine ⟨?_, ?_⟩
  · intro c hc
    have hrange := hdigit c hc
    simp only [Char.isDigit, Bool.and_eq_true, decide_eq_true_eq, UInt32.le_iff_toNat_le] at hrange
    show 32 ≤ c.val.toNat ∧ c.val.toNat < 127
    have hlow : 48 ≤ c.val.toNat := hrange.1
    have hhigh : c.val.toNat ≤ 57 := hrange.2
    omega
  · intro hhead
    exact absurd (hdigit ' ' (List.mem_of_head? hhead)) (by decide)

theorem loose_setEntry {es : List (Key × Val)} (h : Loose Printable (.arr es)) {k : Key} {v : Val}
    (he : LooseEntry Printable (k, v)) : Loose Printable (.arr (Val.setEntry k v es)) := by
  cases h with
  | map hnodup hes =>
    refine .map (Val.nodup_setEntry hnodup) ?_
    intro e hmem
    rcases Val.mem_setEntry hmem with rfl | hmem
    · exact he
    · exact hes e hmem

/-- What the list of files is read back as, from a tree that has something else too. -/
theorem normalise_files (X : Expat) {es : List (Key × Val)} (hloose : Loose Printable (.arr es))
    {xs : List Val} (hfiles : (es.lookup (.str "manual-file") = none ∧ xs = []) ∨
      ∃ items, es.lookup (.str "manual-file") = some (.arr items) ∧ items.map (fun e => compact e.2) = xs)
    (hmore : ∃ k v, k ≠ .str "manual-file" ∧ es.lookup k = some v ∧ compactEntry k v ≠ []) :
    ∃ t, normalise X (.arr es) = .ok t ∧ Canonical Printable t ∧
      (∃ k, k ≠ .str "manual-file" ∧ k ∈ t.entries.map Prod.fst) ∧
      t.get "manual-file" = readList xs := by
  have hnodup : (es.map Prod.fst).Nodup := by
    cases hloose with
    | map hnodup _ => exact hnodup
  obtain ⟨k, v, hk, hlookup, hentry⟩ := hmore
  -- something else is written too, so the document has a body
  have hkey : k ∈ (compactSub es).map Prod.fst := by
    have hfound : (compactSub es).lookup k = (compactEntry k v).lookup k := by
      rw [lookup_compactSub hnodup, hlookup]
      rfl
    by_contra hnot
    rw [Val.lookup_eq_none hnot] at hfound
    rcases keys_compactEntry k v with hnil | hone
    · exact hentry (List.map_eq_nil_iff.1 hnil)
    · have hmem : k ∈ (compactEntry k v).map Prod.fst := by
        rw [hone]
        exact List.mem_singleton.2 rfl
      exact absurd hfound.symm (by simpa [List.lookup_eq_none_iff] using hmem)
  have hne : compactSub es ≠ [] := by
    intro hnil
    rw [hnil] at hkey
    cases hkey
  refine ⟨.arr (compactSub es), normalise_loose X hloose hne, canonical_compactSub hloose hne,
    ⟨k, hk, hkey⟩, ?_⟩
  rw [Val.get, Val.idx_arr, lookup_compactSub hnodup]
  rcases hfiles with ⟨hnone, rfl⟩ | ⟨items, hsome, rfl⟩
  · rw [hnone]
    rfl
  · rw [hsome]
    show ((compactEntry (.str "manual-file") (.arr items)).lookup (.str "manual-file")).getD .null = _
    rw [compactEntry_list (k := .str "manual-file") (by decide)]
    cases hitems : items.map fun e => compact e.2 with
    | nil => rfl
    | cons x r =>
      unfold readList
      rw [if_neg (List.cons_ne_nil x r)]
      simp [listEntry]

/-- Writing a list of files and reading it again. -/
theorem normalise_stamp (X : Expat) (now : ℤ) {es : List (Key × Val)} (hloose : Loose Printable (.arr es))
    {xs : List Val} (hfiles : (es.lookup (.str "manual-file") = none ∧ xs = []) ∨
      ∃ items, es.lookup (.str "manual-file") = some (.arr items) ∧ items.map (fun e => compact e.2) = xs)
    (hmore : ∃ k v, k ≠ .str "manual-file" ∧ es.lookup k = some v ∧ compactEntry k v ≠ []) :
    ∃ t, normalise X (stamp now (.arr es)) = .ok t ∧ Canonical Printable t ∧
      (∃ k, k ≠ .str "manual-file" ∧ k ∈ t.entries.map Prod.fst) ∧
      t.get "manual-file" = readList xs := by
  unfold stamp
  split_ifs with hnow
  · -- the time of the change is something else that is written
    have htag : LowerName "lastchange" ∧ "lastchange" ∉ listtags := by
      unfold LowerName
      decide
    have hne : Key.str "manual-file" ≠ .str "lastchange" := by decide
    have hentry : LooseEntry Printable (.str "lastchange", .int now) :=
      .single htag.1 htag.2 (.int (printable_time hnow))
    refine normalise_files X (loose_setEntry hloose hentry) ?_ ?_
    · rw [Val.lookup_setEntry_of_ne hne]
      exact hfiles
    · refine ⟨.str "lastchange", .int now, hne.symm, Val.lookup_setEntry_self, ?_⟩
      rw [compactEntry_single (k := .str "lastchange") htag.2]
      exact List.cons_ne_nil _ _
  · exact normalise_files X hloose hfiles hmore

theorem map_compact_stored (files : List File) :
    (files.map File.stored).map compact = files.map File.stored := by
  rw [List.map_map]
  refine List.map_congr_left ?_
  intro f _
  exact (canonical_stored f).compact

theorem distinct_putList (h : (files.map File.fullpath).Nodup) (f : File) :
    ((putList files f).map File.fullpath).Nodup := by
  have hkept : ((files.filter fun g => g.fullpath ≠ f.fullpath).map File.fullpath).Nodup :=
    h.sublist (List.filter_sublist.map _)
  unfold putList
  split_ifs
  · rw [List.append_nil]
    exact hkept
  · rw [List.map_append, List.nodup_append]
    refine ⟨hkept, List.nodup_singleton _, ?_⟩
    intro path hpath path' hpath' heq
    obtain ⟨g, hg, rfl⟩ := List.mem_map.1 hpath
    rw [List.map_singleton, List.mem_singleton] at hpath'
    exact of_decide_eq_true (List.mem_filter.1 hg).2 (heq.trans hpath')

theorem mem_putList {f g : File} :
    g ∈ putList files f ↔ (g ∈ files ∧ g.fullpath ≠ f.fullpath) ∨ (g = f ∧ f.contents ≠ "") := by
  unfold putList
  rw [List.mem_append, List.mem_filter, decide_eq_true_eq]
  split_ifs with hcontents
  · simp [hcontents]
  · simp [hcontents]

/-- A put of a file, on the list of files. -/
theorem represents_put (X : Expat) (now : ℤ) (h : Represents config files) (f : File) :
    ∃ config', normalise X (stamp now (putFile config f.fullpath f.contents f.mode)) = .ok config' ∧
      Represents config' (putList files f) := by
  obtain ⟨es, rfl⟩ : ∃ es, config = .arr es := by
    obtain ⟨k, -, hk⟩ := h.more
    cases config with
    | arr es => exact ⟨es, rfl⟩
    | _ => cases hk
  have hes : (es.map Prod.fst).Nodup ∧ ∀ e ∈ es, CanonicalEntry Printable e := by
    cases h.canonical with
    | map _ hnodup hes => exact ⟨hnodup, hes⟩
  obtain ⟨k, hk, hmem⟩ := h.more
  obtain ⟨⟨k', w⟩, he, rfl⟩ := List.mem_map.1 hmem
  have hentry : compactEntry k' w ≠ [] := by
    rw [(hes.2 _ he).compact]
    exact List.cons_ne_nil _ _
  have hlookup : es.lookup k' = some w := Val.lookup_of_mem hes.1 he
  -- nothing to write, or a new list of files
  have hwritten : ∃ config', normalise X (stamp now (putFile (.arr es) f.fullpath f.contents f.mode)) =
      .ok config' ∧ Canonical Printable config' ∧
      (∃ k, k ≠ .str "manual-file" ∧ k ∈ config'.entries.map Prod.fst) ∧
      config'.get "manual-file" = readList ((putList files f).map File.stored) := by
    rcases putFile_cases h f with ⟨hput, hlist⟩ | ⟨v, harray, hvals, hput⟩
    · rw [hput, hlist]
      refine normalise_stamp X now h.canonical.loose ?_ ⟨k', w, hk, hlookup, hentry⟩
      have hstored := h.stored
      rw [Val.get, Val.idx_arr] at hstored
      unfold readList at hstored
      cases hfile : es.lookup (.str "manual-file") with
      | none =>
        left
        rw [hfile] at hstored
        split_ifs at hstored with hnil
        · exact ⟨rfl, hnil⟩
        · cases hstored
      | some v =>
        right
        rw [hfile] at hstored
        split_ifs at hstored with hnil
        · cases hes.2 _ (Val.mem_of_lookup hfile) with
          | list _ _ _ _ => cases hstored
          | single _ htag _ => exact absurd (by decide) htag
        · refine ⟨(Val.ofList (files.map File.stored)).entries, congrArg some hstored, ?_⟩
          have hitems : ((Val.ofList (files.map File.stored)).entries.map fun e => compact e.2) =
              ((Val.ofList (files.map File.stored)).entries.map Prod.snd).map compact := by
            rw [List.map_map]
            rfl
          rw [hitems, Val.ofList_vals, map_compact_stored]
    · obtain ⟨items, rfl⟩ : ∃ items, v = .arr items := by
        cases v with
        | arr items => exact ⟨items, rfl⟩
        | _ => cases harray
      rw [hput]
      -- the tag of the files is one of the list tags
      have htag : LowerName "manual-file" ∧ "manual-file" ∈ listtags := by
        unfold LowerName
        decide
      have hitems : ∀ e ∈ items, Loose Printable e.2 := by
        intro e he
        have hval : e.2 ∈ (Val.arr items).vals := List.mem_map_of_mem he
        rw [hvals] at hval
        obtain ⟨g, -, hg⟩ := List.mem_map.1 hval
        rw [← hg]
        exact (canonical_stored g).loose
      refine normalise_stamp X now (loose_setEntry h.canonical.loose (.list htag.1 htag.2 hitems)) ?_ ?_
      · refine .inr ⟨items, Val.lookup_setEntry_self, ?_⟩
        rw [← map_compact_stored, ← hvals, Val.vals, List.map_map]
        rfl
      · refine ⟨k', w, hk, ?_, hentry⟩
        rw [Val.lookup_setEntry_of_ne hk]
        exact hlookup
  obtain ⟨config', hnorm, hcanonical, hmore, hstored⟩ := hwritten
  refine ⟨config', hnorm, hcanonical, hmore, hstored, distinct_putList h.distinct f, ?_⟩
  intro g hg
  rcases mem_putList.1 hg with ⟨hg, -⟩ | ⟨rfl, hcontents⟩
  · exact h.nonempty g hg
  · exact hcontents

end Writing

/-! ## Runs -/

/-- `config.xml` can be written and read. -/
def Fopen.Opens (io : Fopen) : Prop := io.configXmlWrite = true ∧ io.configXmlRead = true

/-- The states that are reached by putting files, from a configuration without any. -/
inductive Reachable (X : Expat) : State → Prop
  | start {s : State} : Canonical Printable s.config → s.config.isArray = true →
      s.config.get "manual-file" = .null → Reachable X s
  | put {s s' : State} (io : Fopen) (now : ℤ) (f : File) : Reachable X s →
      utilFilePut X io now s f.fullpath f.contents f.mode = .returned s' → Reachable X s'

section Runs

variable {X : Expat} {s s' : State} {files : List File}

/-- A put returns, and its files are those of `putList`. -/
theorem utilFilePut_returns (h : Represents s.config files) {io : Fopen} (hio : Fopen.Opens io) (now : ℤ)
    (f : File) :
    ∃ s', utilFilePut X io now s f.fullpath f.contents f.mode = .returned s' ∧
      Represents s'.config (putList files f) := by
  obtain ⟨config', hnorm, hrepresents⟩ := represents_put X now h f
  obtain ⟨l, hwrite⟩ := writeConfig_of_open X now
    { s with config := putFile s.config f.fullpath f.contents f.mode } hio.1 hio.2
  rw [hnorm] at hwrite
  exact ⟨_, hwrite, hrepresents⟩

/-- A put that returns has written `config.xml` and read it. -/
theorem represents_of_returned (h : Represents s.config files) {io : Fopen} {now : ℤ} {f : File}
    (hput : utilFilePut X io now s f.fullpath f.contents f.mode = .returned s') :
    Represents s'.config (putList files f) := by
  have hio : Fopen.Opens io := by
    unfold utilFilePut writeConfig readConfigXml at hput
    constructor
    · by_contra hwrite
      rw [if_neg hwrite] at hput
      cases hput
    · by_contra hread
      simp only [configXmlTree, if_neg hread] at hput
      split_ifs at hput
  obtain ⟨s'', hreturned, hrepresents⟩ := @utilFilePut_returns X s files h io hio now f
  rw [hput] at hreturned
  obtain rfl := Outcome.returned.inj hreturned
  exact hrepresents

/-- In every state that is reached, the list is a map. -/
theorem exists_files (h : Reachable X s) : ∃ files, Represents s.config files := by
  induction h with
  | @start s hcanonical harray hnone =>
    refine ⟨[], hcanonical, ?_, hnone, List.nodup_nil, ?_⟩
    · cases hconfig : s.config with
      | arr es =>
        rw [hconfig] at hcanonical hnone
        cases hcanonical with
        | map hne hnodup hes =>
          obtain ⟨⟨k, v⟩, r, rfl⟩ := List.exists_cons_of_ne_nil hne
          refine ⟨k, ?_, List.mem_cons_self⟩
          rintro rfl
          have hv : v = .null := by
            rw [Val.get, Val.idx_arr, Val.lookup_of_mem hnodup List.mem_cons_self] at hnone
            exact hnone
          cases hes _ List.mem_cons_self with
          | list _ _ _ _ => cases hv
          | single _ htag _ => exact absurd (by decide) htag
      | _ =>
        rw [hconfig] at harray
        cases harray
    · intro f hf
      cases hf
  | put io now f hreach hput ih =>
    obtain ⟨files, hfiles⟩ := ih
    exact ⟨putList files f, represents_of_returned hfiles hput⟩

/-- The states after some puts. -/
inductive Puts (X : Expat) : State → List File → State → Prop
  | nil (s : State) : Puts X s [] s
  | cons {s s' s'' : State} {fs : List File} (io : Fopen) (now : ℤ) (f : File) :
      utilFilePut X io now s f.fullpath f.contents f.mode = .returned s' → Puts X s' fs s'' →
      Puts X s (f :: fs) s''

theorem represents_of_puts (h : Represents s.config files) {fs : List File} (hputs : Puts X s fs s') :
    Represents s'.config (fs.foldl putList files) := by
  induction hputs generalizing files with
  | nil s => exact h
  | cons io now f hput _ ih => exact ih (represents_of_returned h hput)

theorem mapOf_foldl (fs : List File) (files : List File) :
    mapOf (fs.foldl putList files) = fs.foldl (fun (m : String → Option File) f =>
      Function.update m f.fullpath (if f.contents = "" then none else some f)) (mapOf files) := by
  induction fs generalizing files with
  | nil => rfl
  | cons f fs ih => rw [List.foldl_cons, List.foldl_cons, ih, mapOf_putList]

/-- Updates at different paths may be made in any order. -/
theorem mapOf_foldl_perm {fs gs : List File} (hperm : fs.Perm gs) (hpaths : (fs.map File.fullpath).Nodup)
    (files : List File) : mapOf (fs.foldl putList files) = mapOf (gs.foldl putList files) := by
  rw [mapOf_foldl, mapOf_foldl]
  refine hperm.foldl_eq' ?_ (mapOf files)
  intro f hf g hg m
  by_cases hpath : f.fullpath = g.fullpath
  · rw [eq_of_fullpath hpaths hf hg hpath]
  · exact Function.update_comm hpath _ _ m

end Runs

/-- What a put of a file does to the files that are read. -/
structure PutGet (s s' : State) (f : File) : Prop where
  contents : f.contents ≠ "" → (utilFileGet s'.config f.fullpath).get "contents" = .str f.contents
  mode : f.contents ≠ "" → (utilFileGet s'.config f.fullpath).get "mode" = .str f.mode
  blank : f.contents = "" → utilFileGet s'.config f.fullpath = blankFile f.fullpath
  others : ∀ path, path ≠ f.fullpath → utilFileGet s'.config path = utilFileGet s.config path

theorem putGet_of_represents {s s' : State} {files : List File} {f : File} (h : Represents s.config files)
    (h' : Represents s'.config (putList files f)) : PutGet s s' f := by
  have hown : utilFileGet s'.config f.fullpath =
      if f.contents = "" then blankFile f.fullpath else f.shown := by
    rw [utilFileGet_eq h', mapOf_putList, Function.update_self]
    split_ifs
    · rfl
    · rfl
  refine ⟨?_, ?_, ?_, ?_⟩
  · intro hcontents
    rw [hown, if_neg hcontents]
    rfl
  · intro hcontents
    rw [hown, if_neg hcontents]
    rfl
  · intro hcontents
    rw [hown, if_pos hcontents]
  · intro path hpath
    rw [utilFileGet_eq h', utilFileGet_eq h, mapOf_putList, Function.update_of_ne hpath]

/-- **The files are a map** -/
theorem manual_files_map (X : Expat) {s : State} (hs : Reachable X s) :
    ((s.config.get "manual-file").vals.map (·.get "full-path")).Nodup ∧
    (∀ io, Fopen.Opens io → ∀ (now : ℤ) (f : File),
      ∃ s', utilFilePut X io now s f.fullpath f.contents f.mode = .returned s' ∧ PutGet s s' f) ∧
    ∀ fs gs : List File, fs.Perm gs → (fs.map File.fullpath).Nodup → ∀ s₁ s₂, Puts X s fs s₁ →
      Puts X s gs s₂ → ∀ path, utilFileGet s₁.config path = utilFileGet s₂.config path := by
  -- every reachable store represents a list of files with distinct paths
  obtain ⟨files, hfiles⟩ := exists_files hs
  refine ⟨?_, ?_, ?_⟩
  · have hpaths : (s.config.get "manual-file").vals.map (·.get "full-path") =
        (files.map File.fullpath).map Val.str := by
      rw [hfiles.stored, vals_readList, List.map_map, List.map_map]
      rfl
    rw [hpaths]
    exact hfiles.distinct.map fun _ _ heq => Val.str.inj heq
  · intro io hio now f
    obtain ⟨s', hreturned, hrepresents⟩ := @utilFilePut_returns X s files hfiles io hio now f
    exact ⟨s', hreturned, putGet_of_represents hfiles hrepresents⟩
  · intro fs gs hperm hpaths s₁ s₂ h₁ h₂ path
    rw [utilFileGet_eq (represents_of_puts hfiles h₁), utilFileGet_eq (represents_of_puts hfiles h₂),
      mapOf_foldl_perm hperm hpaths]

/-- A configuration without files. -/
def noFiles : State :=
  { disk := ⟨none, none, none, false, false⟩, config := .arr [(.str "language", .str "en")],
    uniqidMap := .null }

/-- A file. -/
def musicOnHold : File where
  fullpath := "/etc/asterisk/musiconhold.conf"
  contents := "[default]"
  mode := "append"
  path_printable := by unfold Printable; decide
  path_word := by decide +kernel
  bytes := by decide
  mode_printable := by unfold Printable; decide

/-- Other contents for a file. -/
def File.quiet (f : File) : File :=
  { f with contents := "[quiet]", bytes := by decide }

/-- No contents for a file, which removes it. -/
def File.removed (f : File) : File :=
  { f with contents := "", bytes := by decide }

/-- Another file. -/
def systemConf : File where
  fullpath := "/etc/dahdi/system.conf"
  contents := "loadzone=us"
  mode := "override"
  path_printable := by unfold Printable; decide
  path_word := by decide +kernel
  bytes := by decide
  mode_printable := by unfold Printable; decide

theorem canonical_noFiles : Canonical Printable noFiles.config := by
  have hname : LowerName "language" ∧ "language" ∉ listtags := by
    unfold LowerName
    decide
  have hprintable : Printable "en" := by
    unfold Printable
    decide
  refine .map (List.cons_ne_nil _ _) (by decide) ?_
  intro e he
  obtain rfl := List.mem_singleton.1 he
  exact .single hname.1 hname.2 (.str hprintable)

/-- A put of a file when `config.xml` can be written and read. -/
def putFrom (X : Expat) (s : State) (f : File) : Outcome :=
  utilFilePut X ⟨true, true, true, true⟩ 0 s f.fullpath f.contents f.mode

/-- Two files are put, then the first is replaced and the second removed. -/
theorem manual_files_map_replaced :
    let X := scanner.toExpat
    ∃ s₁ s₂ s₃ s₄, putFrom X noFiles musicOnHold = .returned s₁ ∧ putFrom X s₁ systemConf = .returned s₂ ∧
      (putFrom X s₂ musicOnHold.quiet = .returned s₃ ∧ PutGet s₂ s₃ musicOnHold.quiet) ∧
      (putFrom X s₃ systemConf.removed = .returned s₄ ∧ PutGet s₃ s₄ systemConf.removed) := by
  intro X
  have hio : Fopen.Opens ⟨true, true, true, true⟩ := ⟨rfl, rfl⟩
  have hreach : Reachable X noFiles := .start canonical_noFiles rfl rfl
  obtain ⟨s₁, h₁, -⟩ := (manual_files_map X hreach).2.1 _ hio 0 musicOnHold
  have hreach := Reachable.put _ _ _ hreach h₁
  obtain ⟨s₂, h₂, -⟩ := (manual_files_map X hreach).2.1 _ hio 0 systemConf
  have hreach := Reachable.put _ _ _ hreach h₂
  -- the first file gets other contents, and the second one none
  have hreplace := (manual_files_map X hreach).2.1 _ hio 0 musicOnHold.quiet
  obtain ⟨s₃, h₃, hget⟩ := hreplace
  have hreach := Reachable.put _ _ _ hreach h₃
  have hremove := (manual_files_map X hreach).2.1 _ hio 0 systemConf.removed
  obtain ⟨s₄, h₄, hblank⟩ := hremove
  exact ⟨s₁, s₂, s₃, s₄, h₁, h₂, ⟨h₃, hget⟩, h₄, hblank⟩

end Util
end Askozia
