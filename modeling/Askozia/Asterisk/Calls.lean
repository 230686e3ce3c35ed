import Mathlib.Data.List.Nodup
import Mathlib.Logic.Relation
import Askozia.Asterisk.Dialplan

/-!
# Following a call

What Asterisk does with a call that enters a context: it finds the extension for what is called,
and follows its steps one by one. `Dial` tries to reach someone and leaves its outcome in
`DIALSTATUS`, `Goto` goes on somewhere else, `Hangup` ends the call, and the other applications
only go on to the next step.

* `Next` is one step of a call;
* `Forwards` says that a call only leaves a context it has dialled in for one further on, and
  `dialled_nodup` that it then dials in no context twice.
-/

namespace Askozia
namespace Asterisk

open Php

/-- What `Dial` leaves in `DIALSTATUS`. -/
inductive DialStatus where
  | chanunavail
  | congestion
  | noanswer
  | busy
  | answer
  | cancel
  | dontcall
  | torture
  | invalidargs
deriving DecidableEq, Repr

/-- The text of `DIALSTATUS`. -/
def DialStatus.text : DialStatus → String
  | chanunavail => "CHANUNAVAIL"
  | congestion => "CONGESTION"
  | noanswer => "NOANSWER"
  | busy => "BUSY"
  | answer => "ANSWER"
  | cancel => "CANCEL"
  | dontcall => "DONTCALL"
  | torture => "TORTURE"
  | invalidargs => "INVALIDARGS"

/-! ## Variables -/

/-- The text with its variables, a dollar sign before a name in braces, replaced by their values.
The first argument bounds the number of characters. -/
def expandChars (value : String → List Char) : ℕ → List Char → List Char
  | 0, _ => []
  | _ + 1, [] => []
  | n + 1, c :: r =>
    if c = '$' ∧ r.head? = some '{' then
      match cutAt '}' r.tail with
      | some (name, rest) => value (String.ofList name) ++ expandChars value n rest
      | none => c :: expandChars value n r
    else c :: expandChars value n r

/-- The text with its variables replaced by their values. -/
def expand (value : String → List Char) (s : String) : List Char :=
  expandChars value s.toList.length s.toList

/-- The value of a variable of a call. -/
def channelValue (number : String) (status : DialStatus) (name : String) : List Char :=
  if name = "DIALSTATUS" then status.text.toList
  else if name = "ORIGEXTENSION" then number.toList
  else []

/-! ## Extensions -/

/-- The applications of the steps of an extension with their arguments, in order. -/
def stepsOf (program : List (String × Entry)) (context exten : String) : List (String × String) :=
  program.filterMap fun x =>
    match x.2 with
    | .step e _ application arguments =>
      if x.1 = context ∧ e = exten then some (application, arguments) else none
    | _ => none

/-- The name is that of a pattern. -/
def isPattern (name : String) : Bool := name.toList.head? == some '_'

/-- The extension of a context for what is called: the one of that name, or else a pattern that
fits. -/
inductive Finds (fits : String → String → Prop) (program : List (String × Entry))
    (context called : String) : String → Prop
  | exact : isPattern called = false → stepsOf program context called ≠ [] →
      Finds fits program context called called
  | pattern (p : String) : (isPattern called = true ∨ stepsOf program context called = []) →
      stepsOf program context ("_" ++ p) ≠ [] → fits p called →
      Finds fits program context called ("_" ++ p)

/-- The context and the extension a `Goto` leads to, from a context. -/
def jumpTo (context : String) (arguments : List Char) : Option (String × String) :=
  match explodeChars ',' arguments with
  | [called, ['1']] => some (context, String.ofList called)
  | [context, called, ['1']] => some (String.ofList context, String.ofList called)
  | _ => none

/-! ## Calls -/

/-- A call: where it is, the steps it has still to take there, the outcome of the last `Dial`, and
the contexts it has dialled in. -/
structure Call where
  context : String
  exten : String
  rest : List (String × String)
  status : DialStatus
  dialled : List String

/-- One step of a call. -/
inductive Next (fits : String → String → Prop) (program : List (String × Entry)) (number : String) :
    Call → Call → Prop
  | pass {k : Call} {application arguments : String} {r : List (String × String)} :
      k.rest = (application, arguments) :: r → application ≠ "Dial" → application ≠ "Goto" →
      application ≠ "Hangup" → Next fits program number k { k with rest := r }
  | dial {k : Call} {arguments : String} {r : List (String × String)} (status : DialStatus) :
      k.rest = ("Dial", arguments) :: r →
      Next fits program number k
        { k with
          rest := if status = .answer then [] else r
          status := status
          dialled := k.dialled ++ [k.context] }
  | goto {k : Call} {arguments context called name : String} {r : List (String × String)} :
      k.rest = ("Goto", arguments) :: r →
      jumpTo k.context (expand (channelValue number k.status) arguments) = some (context, called) →
      Finds fits program context called name →
      Next fits program number k
        { k with context := context, exten := name, rest := stepsOf program context name }

/-- A call that enters a context. -/
def Call.enter (program : List (String × Entry)) (context exten : String) (status : DialStatus) :
    Call :=
  { context, exten, rest := stepsOf program context exten, status, dialled := [] }

/-- What a call for a number that enters a context may become. -/
def Reaches (fits : String → String → Prop) (program : List (String × Entry)) (context number : String)
    (k : Call) : Prop :=
  ∃ exten status, Finds fits program context number exten ∧
    Relation.ReflTransGen (Next fits program number) (Call.enter program context exten status) k

/-! ## Calls that only go forwards -/

/-- The steps do not dial before they jump or end. -/
def settles : List (String × String) → Bool
  | [] => true
  | s :: r => s.1 == "Goto" || s.1 == "Hangup" || (s.1 != "Dial" && settles r)

/-- After a `Dial` a call leaves for a context further on, or ends, without another one. -/
structure Forwards (fits : String → String → Prop) (program : List (String × Entry))
    (further : String → String → Prop) : Prop where
  afterDial : ∀ context exten arguments rest,
    ("Dial", arguments) :: rest <:+ stepsOf program context exten → settles rest = true
  jumps : ∀ context exten arguments, ("Goto", arguments) ∈ stepsOf program context exten →
    ∀ number status context' called name,
      jumpTo context (expand (channelValue number status) arguments) = some (context', called) →
      Finds fits program context' called name →
      further context context' ∨ (context' = context ∧ settles (stepsOf program context name) = true)

/-- The steps jump or end before they dial. -/
def stops : List (String × String) → Bool
  | [] => false
  | s :: r => s.1 == "Goto" || s.1 == "Hangup" || (s.1 != "Dial" && stops r)

/-- Every `Dial` is followed by a jump or an end before the next one. -/
def tame : List (String × String) → Bool
  | [] => true
  | s :: r => (s.1 != "Dial" || stops r) && tame r

section Tame

variable {a b : List (String × String)}

theorem settles_of_stops (h : stops a = true) : settles a = true := by
  induction a with
  | nil => rfl
  | cons s r ih =>
    simp only [stops, Bool.or_eq_true, Bool.and_eq_true] at h
    simp only [settles, Bool.or_eq_true, Bool.and_eq_true]
    exact h.imp_right fun h => ⟨h.1, ih h.2⟩

theorem stops_append (h : stops a = true) : stops (a ++ b) = true := by
  induction a with
  | nil => cases h
  | cons s r ih =>
    simp only [stops, Bool.or_eq_true, Bool.and_eq_true] at h
    simp only [List.cons_append, stops, Bool.or_eq_true, Bool.and_eq_true]
    exact h.imp_right fun h => ⟨h.1, ih h.2⟩

theorem tame_append (ha : tame a = true) (hb : tame b = true) : tame (a ++ b) = true := by
  induction a with
  | nil => exact hb
  | cons s r ih =>
    simp only [tame, Bool.and_eq_true, Bool.or_eq_true] at ha
    simp only [List.cons_append, tame, Bool.and_eq_true, Bool.or_eq_true]
    exact ⟨ha.1.imp_right stops_append, ih ha.2⟩

theorem tame_flatMap {α : Type} {xs : List α} {f : α → List (String × String)}
    (h : ∀ x ∈ xs, tame (f x) = true) : tame (xs.flatMap f) = true := by
  induction xs with
  | nil => rfl
  | cons x r ih =>
    rw [List.flatMap_cons]
    exact tame_append (h x List.mem_cons_self) (ih fun y hy => h y (List.mem_cons_of_mem _ hy))

theorem tame_of_no_dial (h : ∀ s ∈ a, s.1 ≠ "Dial") : tame a = true ∧ settles a = true := by
  induction a with
  | nil => exact ⟨rfl, rfl⟩
  | cons s r ih =>
    have hs := h s List.mem_cons_self
    obtain ⟨htame, hsettles⟩ := ih fun x hx => h x (List.mem_cons_of_mem _ hx)
    simp [tame, settles, hs, htame, hsettles]

theorem settles_of_tame {arguments : String} {rest : List (String × String)} (h : tame a = true)
    (hsuffix : ("Dial", arguments) :: rest <:+ a) : settles rest = true := by
  induction a with
  | nil => cases List.suffix_nil.1 hsuffix
  | cons s r ih =>
    simp only [tame, Bool.and_eq_true, Bool.or_eq_true] at h
    rcases List.suffix_cons_iff.1 hsuffix with heq | hsuffix
    · rw [List.cons.injEq] at heq
      rw [← heq.1, ← heq.2] at h
      rcases h.1 with hne | hstops
      · simp at hne
      · exact settles_of_stops hstops
    · exact ih h.2 hsuffix

end Tame

/-! ### Jumps -/

/-- A text before the first variable is left alone. -/
theorem expand_append (value : String → List Char) {a : String} (b : String) (h : '$' ∉ a.toList) :
    expand value (a ++ b) = a.toList ++ expand value b := by
  have hchars : ∀ (cs : List Char) (n : ℕ), '$' ∉ cs →
      expandChars value (cs.length + n) (cs ++ b.toList) = cs ++ expandChars value n b.toList := by
    intro cs
    induction cs with
    | nil =>
      intro n _
      rw [List.length_nil, Nat.zero_add]
      rfl
    | cons c r ih =>
      intro n hcs
      rw [List.mem_cons, not_or] at hcs
      have hlength : (c :: r).length + n = r.length + n + 1 := by
        rw [List.length_cons]
        omega
      rw [hlength, List.cons_append, expandChars, if_neg fun hc => hcs.1 hc.1.symm, ih n hcs.2,
        List.cons_append]
  rw [expand, String.toList_append, List.length_append, hchars _ _ h, expand]

section Forwards

variable {fits : String → String → Prop} {program : List (String × Entry)} {number : String}
  {further : String → String → Prop} {k k' : Call}

/-- What holds of a call all along. -/
structure Orderly (program : List (String × Entry)) (further : String → String → Prop) (k : Call) :
    Prop where
  rest : k.rest <:+ stepsOf program k.context k.exten
  nodup : k.dialled.Nodup
  behind : ∀ c ∈ k.dialled, c = k.context ∨ Relation.TransGen further c k.context
  settled : k.context ∈ k.dialled → settles k.rest = true
  known : ∀ c ∈ k.dialled, ∃ exten, stepsOf program c exten ≠ []

theorem orderly_enter (context exten : String) (status : DialStatus) :
    Orderly program further (Call.enter program context exten status) := by
  refine ⟨List.suffix_refl _, List.nodup_nil, ?_, ?_, ?_⟩
  · intro c hc
    cases hc
  · intro hc
    cases hc
  · intro c hc
    cases hc

theorem orderly_next (hf : Forwards fits program further)
    (hacyclic : ∀ c, ¬ Relation.TransGen further c c) (h : Orderly program further k)
    (hnext : Next fits program number k k') : Orderly program further k' := by
  cases hnext with
  | pass hrest hdial hgoto hhangup =>
    refine ⟨?_, h.nodup, h.behind, ?_, h.known⟩
    · exact (List.suffix_cons _ _).trans (hrest ▸ h.rest)
    · intro hmem
      have hsettled := h.settled hmem
      rw [hrest] at hsettled
      simpa [settles, hdial, hgoto, hhangup] using hsettled
  | @dial arguments r status hrest =>
    have hsuffix := h.rest
    rw [hrest] at hsuffix
    -- a call that has dialled here has no other `Dial` before it leaves
    have hnew : k.context ∉ k.dialled := by
      intro hmem
      have hsettled := h.settled hmem
      rw [hrest] at hsettled
      simp [settles] at hsettled
    refine ⟨?_, ?_, ?_, ?_, ?_⟩
    · split_ifs
      · exact List.nil_suffix
      · exact (List.suffix_cons _ _).trans hsuffix
    · rw [List.nodup_append]
      refine ⟨h.nodup, List.nodup_singleton _, ?_⟩
      intro c hc d hd heq
      rw [List.mem_singleton] at hd
      rw [heq, hd] at hc
      exact hnew hc
    · intro c hc
      rcases List.mem_append.1 hc with hc | hc
      · exact h.behind c hc
      · exact .inl (List.mem_singleton.1 hc)
    · intro _
      split_ifs
      · rfl
      · exact hf.afterDial _ _ _ _ hsuffix
    · intro c hc
      rcases List.mem_append.1 hc with hc | hc
      · exact h.known c hc
      · rw [List.mem_singleton.1 hc]
        refine ⟨k.exten, ?_⟩
        intro hnil
        rw [hnil] at hsuffix
        cases List.suffix_nil.1 hsuffix
  | @goto arguments context called name r hrest hjump hfinds =>
    have hsuffix := h.rest
    rw [hrest] at hsuffix
    have hmem : ("Goto", arguments) ∈ stepsOf program k.context k.exten :=
      hsuffix.subset List.mem_cons_self
    rcases hf.jumps _ _ _ hmem _ _ _ _ _ hjump hfinds with hfurther | ⟨rfl, hsettles⟩
    · have hbehind : ∀ c ∈ k.dialled, Relation.TransGen further c context := by
        intro c hc
        rcases h.behind c hc with rfl | htrans
        · exact .single hfurther
        · exact htrans.tail hfurther
      refine ⟨List.suffix_refl _, h.nodup, fun c hc => .inr (hbehind c hc), ?_, h.known⟩
      intro hc
      exact absurd (hbehind context hc) (hacyclic context)
    · exact ⟨List.suffix_refl _, h.nodup, h.behind, fun _ => hsettles, h.known⟩

/-- A call that only goes forwards dials in no context twice. -/
theorem dialled_nodup (hf : Forwards fits program further)
    (hacyclic : ∀ c, ¬ Relation.TransGen further c c) {context : String}
    (h : Reaches fits program context number k) :
    k.dialled.Nodup ∧ ∀ c ∈ k.dialled, ∃ exten, stepsOf program c exten ≠ [] := by
  obtain ⟨exten, status, -, hrun⟩ := h
  have horderly : Orderly program further k := by
    induction hrun with
    | refl => exact orderly_enter context exten status
    | tail _ hnext ih => exact orderly_next hf hacyclic ih hnext
  exact ⟨horderly.nodup, horderly.known⟩

end Forwards

/-! ## Adding a link -/

section Links

variable {α : Type} {r s : α → α → Prop} {x : α}

/-- A relation stays without cycles when only what leaves `x` changes, and nothing `x` now leads to
leads back to it. -/
theorem acyclic_of_links (hr : ∀ c, ¬ Relation.TransGen r c c) (hkept : ∀ c d, c ≠ x → s c d → r c d)
    (hnew : ∀ d, s x d → ¬ Relation.ReflTransGen (fun c e => c ≠ x ∧ r c e) d x) :
    ∀ c, ¬ Relation.TransGen s c c := by
  -- a path up to the first time it comes to `x` only uses kept links
  have hfirst : ∀ c d, Relation.ReflTransGen s c d → d = x →
      Relation.ReflTransGen (fun c e => c ≠ x ∧ r c e) c x := by
    intro c d hpath hd
    induction hpath using Relation.ReflTransGen.head_induction_on with
    | refl =>
      rw [hd]
    | @head c e hlink _ ih =>
      by_cases hc : c = x
      · rw [hc]
      · exact ih.head ⟨hc, hkept c e hc hlink⟩
  have hx : ¬ Relation.TransGen s x x := by
    intro hcycle
    obtain ⟨d, hlink, hpath⟩ := Relation.TransGen.head'_iff.1 hcycle
    exact hnew d hlink (hfirst d x hpath rfl)
  intro c hcycle
  by_cases hpass : Relation.ReflTransGen s c x ∧ Relation.ReflTransGen s x c
  · obtain ⟨hto, hback⟩ := hpass
    rcases Relation.reflTransGen_iff_eq_or_transGen.1 hto with h | h
    · rw [h] at hx
      exact hx hcycle
    · exact hx (Relation.TransGen.trans_right hback h)
  · -- a cycle that does not come to `x` is one of the kept links
    apply hr c
    have hkeep : ∀ d, Relation.TransGen s c d → Relation.ReflTransGen s d c →
        Relation.TransGen r c d := by
      intro d hpath
      induction hpath with
      | single hlink =>
        intro hback
        refine .single (hkept _ _ ?_ hlink)
        rintro rfl
        exact hpass ⟨.refl, .refl⟩
      | @tail d e hpath hlink ih =>
        intro hback
        refine (ih (hback.head hlink)).tail (hkept _ _ ?_ hlink)
        rintro rfl
        exact hpass ⟨hpath.to_reflTransGen, hback.head hlink⟩
    exact hkeep c hcycle .refl

end Links

end Asterisk
end Askozia
