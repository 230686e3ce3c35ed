import Askozia.Xml.Document

/-!
# Pieces of character data

Facts about line-end normalisation and about cutting a run of character data at entities and
line feeds. `chunked_of_onePiecePerRun` places that way of cutting among the others.
-/

namespace Askozia
namespace Xml

/-! ## Line ends -/

theorem mem_eol {run : List Char} {c : Char} (h : c ∈ eol run) : c ∈ run ∨ c = '\n' := by
  induction run using eol.induct with
  | case1 => exact absurd h List.not_mem_nil
  | case2 r ih =>
    rw [eol, List.mem_cons] at h
    rcases h with h | h
    · exact .inr h
    · exact (ih h).imp_left fun h => by simp [h]
  | case3 r hr ih =>
    rw [eol, List.mem_cons] at h
    · rcases h with h | h
      · exact .inr h
      · exact (ih h).imp_left fun h => by simp [h]
    · exact hr
  | case4 c' r h₁ h₂ ih =>
    rw [eol, List.mem_cons] at h
    · rcases h with h | h
      · exact .inl (by simp [h])
      · exact (ih h).imp_left fun h => by simp [h]
    · exact h₁
    · exact h₂

theorem eol_eq_self {run : List Char} (h : '\r' ∉ run) : eol run = run := by
  induction run using eol.induct with
  | case1 => rfl
  | case2 r ih => simp at h
  | case3 r hr ih => simp at h
  | case4 c r h₁ h₂ ih =>
    rw [eol, ih fun hm => h (List.mem_cons_of_mem c hm)]
    · exact h₁
    · exact h₂

theorem not_mem_eol (run : List Char) : '\r' ∉ eol run := by
  induction run using eol.induct with
  | case1 => exact List.not_mem_nil
  | case2 r ih => simp [eol, ih]
  | case3 r hr ih =>
    rw [eol]
    · simp [ih]
    · exact hr
  | case4 c r h₁ h₂ ih =>
    rw [eol]
    · have hc : '\r' ≠ c := fun h => h₂ h.symm
      simp [ih, hc]
    · exact h₁
    · exact h₂

/-! ## Cutting at entities and line feeds -/

theorem pieces_cons (c : Char) (u : List Char) : pieces (c :: u) = pieceCons c (pieces u) := rfl

/-- The first piece starts where the text starts. -/
theorem pieces_head (c : Char) (u : List Char) : ∃ r ps, pieces (c :: u) = (c :: r) :: ps := by
  rw [pieces_cons]
  unfold pieceCons
  split
  · split
    · exact ⟨[], _, rfl⟩
    · exact ⟨_, _, rfl⟩
  · exact ⟨[], _, rfl⟩

theorem pieces_cons_cons (c d : Char) (u : List Char) :
    ∃ r ps, pieces (d :: u) = (d :: r) :: ps ∧
      pieces (c :: d :: u) =
        if isBreak c || isBreak d then [c] :: (d :: r) :: ps else (c :: d :: r) :: ps := by
  obtain ⟨r, ps, h⟩ := pieces_head d u
  exact ⟨r, ps, h, by rw [pieces_cons, h]; rfl⟩

theorem pieces_flatten (u : List Char) : (pieces u).flatten = u := by
  induction u with
  | nil => rfl
  | cons c u ih =>
    cases u with
    | nil => rfl
    | cons d u =>
      obtain ⟨r, ps, h, h'⟩ := pieces_cons_cons c d u
      rw [h] at ih
      rw [h']
      split
      · rw [List.flatten_cons, ih]
        rfl
      · rw [← ih]
        rfl

theorem pieces_ne_nil (u : List Char) : ∀ p ∈ pieces u, p ≠ [] := by
  induction u with
  | nil => exact fun p hp => absurd hp List.not_mem_nil
  | cons c u ih =>
    cases u with
    | nil => simp [pieces, pieceCons]
    | cons d u =>
      obtain ⟨r, ps, h, h'⟩ := pieces_cons_cons c d u
      rw [h] at ih
      rw [h']
      intro p hp
      split at hp
      · rcases List.mem_cons.1 hp with rfl | hp
        · simp
        · exact ih p hp
      · rcases List.mem_cons.1 hp with rfl | hp
        · simp
        · exact ih p (List.mem_cons_of_mem _ hp)

/-- A piece is an entity, a line feed, or holds neither. -/
theorem pieces_uniform (u : List Char) :
    ∀ p ∈ pieces u, (∃ c, p = [c] ∧ isBreak c = true) ∨ ∀ c ∈ p, isBreak c = false := by
  -- a piece grows at its front, by a character that is no break
  induction u with
  | nil => exact fun p hp => absurd hp List.not_mem_nil
  | cons c u ih =>
    have hone : ∀ c : Char, (∃ d, [c] = [d] ∧ isBreak d = true) ∨ ∀ d ∈ [c], isBreak d = false := by
      intro c
      cases hc : isBreak c with
      | false => exact .inr fun d hd => List.mem_singleton.1 hd ▸ hc
      | true => exact .inl ⟨c, rfl, hc⟩
    cases u with
    | nil =>
      intro p hp
      obtain rfl : p = [c] := List.mem_singleton.1 hp
      exact hone c
    | cons d u =>
      obtain ⟨r, ps, h, h'⟩ := pieces_cons_cons c d u
      rw [h] at ih
      rw [h']
      intro p hp
      split at hp
      · rcases List.mem_cons.1 hp with rfl | hp
        · exact hone c
        · exact ih p hp
      · next hb =>
        rw [Bool.or_eq_true, not_or, Bool.not_eq_true, Bool.not_eq_true] at hb
        rcases List.mem_cons.1 hp with rfl | hp
        · rcases ih (d :: r) List.mem_cons_self with ⟨e, he, hbe⟩ | hall
          · rw [List.cons.injEq] at he
            rw [he.1, hbe] at hb
            simp at hb
          · refine .inr fun e he => ?_
            rcases List.mem_cons.1 he with rfl | he
            · exact hb.1
            · exact hall e he
        · exact ih p (List.mem_cons_of_mem _ hp)

/-- A text without entities and line feeds is one piece. -/
theorem pieces_of_plain {u : List Char} (hne : u ≠ []) (h : ∀ c ∈ u, isBreak c = false) :
    pieces u = [u] := by
  induction u with
  | nil => exact absurd rfl hne
  | cons c u ih =>
    cases u with
    | nil => rfl
    | cons d u =>
      have hrest := ih (by simp) fun e he => h e (List.mem_cons_of_mem c he)
      rw [pieces_cons, hrest, pieceCons, h c (by simp), h d (by simp)]
      rfl

/-- Going on after a text goes on after its first piece. -/
theorem pieces_append_head {a : List Char} (d : List Char) {p : List Char} {ps : List (List Char)}
    (h : pieces a = p :: ps) : ∃ q qs, pieces (a ++ d) = (p ++ q) :: qs := by
  -- what is appended can only lengthen the last piece of the front
  induction a generalizing p ps with
  | nil => simp [pieces] at h
  | cons c a ih =>
    cases a with
    | nil =>
      obtain ⟨rfl, rfl⟩ : [c] = p ∧ [] = ps := by simpa [pieces, pieceCons] using h
      obtain ⟨r, qs, hr⟩ := pieces_head c d
      exact ⟨r, qs, hr⟩
    | cons b a =>
      obtain ⟨r, rs, hb, hcb⟩ := pieces_cons_cons c b a
      obtain ⟨q, qs, hq⟩ := ih hb
      have happ : pieces (c :: b :: a ++ d) =
          if isBreak c || isBreak b then [c] :: (b :: r ++ q) :: qs
          else (c :: b :: r ++ q) :: qs := by
        show pieceCons c (pieces (b :: a ++ d)) = _
        rw [hq]
        rfl
      rw [hcb] at h
      rw [happ]
      split at h
      · next hbr =>
        rw [if_pos hbr]
        obtain ⟨rfl, -⟩ := List.cons.inj h
        exact ⟨[], _, rfl⟩
      · next hbr =>
        rw [if_neg hbr]
        obtain ⟨rfl, -⟩ := List.cons.inj h
        exact ⟨q, qs, rfl⟩

/-- One piece per run is one way of cutting. -/
theorem chunked_of_onePiecePerRun {run : List Char} {ps : List String}
    (h : OnePiecePerRun run ps) : Chunked run ps := by
  subst h
  have hid : (String.toList ∘ String.ofList) = id := by
    funext l
    exact String.toList_ofList
  refine ⟨by rw [List.map_map, hid, List.map_id, pieces_flatten], fun p hp => ?_⟩
  obtain ⟨l, hl, rfl⟩ := List.mem_map.1 hp
  rw [String.toList_ofList]
  exact pieces_ne_nil _ l hl

end Xml
end Askozia
