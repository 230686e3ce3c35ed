import Askozia.Dialplan.Conf

/-!
# Caller ids of outgoing calls (`extensions.inc`)

The context of a phone has a part for every provider the phone may use, in the order of their names.
`$cidoverride` is not reset between two of them.

* `callerId_same_iff`: when two lists of providers give the calls through a provider the same caller id.
-/

namespace Askozia
namespace Dialplan

open Php Pbx

/-! ## Caller ids of a provider -/

/-- A phone may use a provider. -/
def usable (phone provider : Val) : Bool :=
  !(provider.get "disabled").isset &&
    (!(phone.get "provider").isset || !inArray (provider.get "uniqid") (phone.get "provider"))

/-- The entries of a phone for a provider. -/
def callerIdEntries (phone provider : Val) : List Val :=
  if (phone.get "outgoingcalleridmap").truthy then
    (phone.get "outgoingcalleridmap").vals.filter fun map =>
      (map.get "provideruniqid").looseEq (provider.get "uniqid")
  else []

/-- The caller id of a provider for a phone: the last entry of the phone for it, else its own text. -/
def ownCallerId (phone provider : Val) : Option Val :=
  match (callerIdEntries phone provider).getLast? with
  | some map => some (map.get "cidstring")
  | none =>
    if is (provider.get "calleridsource") "string" && (provider.get "calleridstring").truthy then
      some (provider.get "calleridstring")
    else none

/-- The last caller id of some providers. -/
def lastCallerId (phone : Val) (providers : List Val) : Option Val :=
  ((providers.filter (usable phone)).filterMap (ownCallerId phone)).getLast?

/-- A caller id as it is sent, if it is. -/
def sent (callerId : Option Val) : Option String :=
  callerId.bind fun c => if c.truthy then some c.toStr else none

/-- The line sets the caller id. -/
def setsCallerId : Line → Bool
  | .exten _ text => "n,Set(CALLERID(all)=".toList.isPrefixOf text.toList
  | _ => false

/-- The lines a provider adds to the context of a phone, after some providers. -/
def providerPart (phone : Val) (before : List Val) (provider : Val) : List Line :=
  (generatePhoneOutgoingContext (before ++ [provider]) phone).drop
    (generatePhoneOutgoingContext before phone).length

/-! ## The loop -/

section Loop

variable (phone : Val)

/-- A loop that keeps the last match. -/
theorem foldl_keep {α β : Type} (p : α → Bool) (f : α → β) (xs : List α) (c : β) :
    xs.foldl (fun c x => if p x then f x else c) c = ((xs.filter p).getLast?.map f).getD c := by
  induction xs generalizing c with
  | nil => rfl
  | cons x r ih =>
    rw [List.foldl_cons, ih]
    by_cases hx : p x = true
    · rw [if_pos hx, List.filter_cons_of_pos hx, List.getLast?_cons]
      cases (r.filter p).getLast? with
      | none => rfl
      | some y => rfl
    · rw [if_neg hx, List.filter_cons_of_neg hx]

/-- The variable is set by a provider that has a caller id, and kept by the others. -/
theorem cidOverride_eq (provider c : Val) :
    cidOverride phone provider c = (ownCallerId phone provider).getD c := by
  unfold cidOverride ownCallerId callerIdEntries
  dsimp only
  by_cases hmap : (phone.get "outgoingcalleridmap").truthy = true
  · rw [if_pos hmap, if_pos hmap, foldl_keep]
    cases List.getLast? _ with
    | none =>
      split_ifs
      · rfl
      · rfl
    | some map => rfl
  · rw [if_neg hmap, if_neg hmap]
    show _ = Option.getD (if _ then _ else _) c
    split_ifs
    · rfl
    · rfl

theorem lastCallerId_cons_of_usable {provider : Val} {r : List Val} (h : usable phone provider = true)
    (c : Val) : (lastCallerId phone (provider :: r)).getD c =
      (lastCallerId phone r).getD ((ownCallerId phone provider).getD c) := by
  unfold lastCallerId
  rw [List.filter_cons_of_pos h]
  cases hown : ownCallerId phone provider with
  | none => rw [List.filterMap_cons_none hown, Option.getD_none]
  | some d =>
    rw [List.filterMap_cons_some hown, List.getLast?_cons, Option.getD_some, Option.getD_some]

theorem phoneProviders_of_usable {provider : Val} (h : usable phone provider = true) (r : List Val)
    (c : Val) : phoneProviders phone (provider :: r) c =
      (provider.get "dialpattern").vals.flatMap
        (phonePattern provider ((ownCallerId phone provider).getD c)) ++
      phoneProviders phone r ((ownCallerId phone provider).getD c) := by
  rw [phoneProviders, ← cidOverride_eq]
  exact if_pos h

theorem phoneProviders_of_not_usable {provider : Val} (h : ¬ usable phone provider = true) (r : List Val)
    (c : Val) : phoneProviders phone (provider :: r) c = phoneProviders phone r c := by
  rw [phoneProviders]
  exact if_neg h

/-- What is generated for some providers stays when more follow. -/
theorem phoneProviders_append (before after : List Val) (c : Val) :
    phoneProviders phone (before ++ after) c = phoneProviders phone before c ++
      phoneProviders phone after ((lastCallerId phone before).getD c) := by
  induction before generalizing c with
  | nil => rfl
  | cons provider r ih =>
    rw [List.cons_append]
    by_cases huse : usable phone provider = true
    · rw [phoneProviders_of_usable phone huse, phoneProviders_of_usable phone huse, ih,
        lastCallerId_cons_of_usable phone huse, List.append_assoc]
    · have hlast : lastCallerId phone (provider :: r) = lastCallerId phone r := by
        rw [lastCallerId, List.filter_cons_of_neg huse, lastCallerId]
      rw [phoneProviders_of_not_usable phone huse, phoneProviders_of_not_usable phone huse, ih, hlast]

theorem generatePhoneOutgoingContext_append (before after : List Val) :
    generatePhoneOutgoingContext (before ++ after) phone = generatePhoneOutgoingContext before phone ++
      phoneProviders phone after ((lastCallerId phone before).getD .null) := by
  rw [generatePhoneOutgoingContext, phoneProviders_append, generatePhoneOutgoingContext,
    List.cons_append]

/-- The part of a provider depends on the caller id that is left over. -/
theorem providerPart_eq (before : List Val) (provider : Val) :
    providerPart phone before provider =
      phoneProviders phone [provider] ((lastCallerId phone before).getD .null) := by
  rw [providerPart, generatePhoneOutgoingContext_append, List.drop_left]

/-- The context of a phone is made of the parts. -/
theorem providerPart_spec (before after : List Val) (provider : Val) :
    ∃ rest, generatePhoneOutgoingContext (before ++ provider :: after) phone =
      generatePhoneOutgoingContext before phone ++ providerPart phone before provider ++ rest := by
  have hsplit : before ++ provider :: after = (before ++ [provider]) ++ after := by simp
  rw [hsplit, generatePhoneOutgoingContext_append, generatePhoneOutgoingContext_append, providerPart_eq]
  exact ⟨_, rfl⟩

end Loop

/-! ## Lines that set the caller id -/

section Lines

variable {phone provider : Val}

/-- The line for a caller id that is sent. -/
def callerIdLine (pattern : Val) (text : String) : Line :=
  .exten ("_" ++ (parsePattern pattern.toStr).pattern) ("n,Set(CALLERID(all)=" ++ text ++ ")")

theorem setsCallerId_line (exten text : String) :
    setsCallerId (.exten exten ("n,Set(CALLERID(all)=" ++ text)) = true := by
  rw [setsCallerId, String.toList_append]
  exact List.isPrefixOf_iff_prefix.2 (List.prefix_append _ _)

theorem setsCallerId_other {s : String}
    (h : ∀ r, "n,Set(CALLERID(all)=".toList.isPrefixOf (s.toList ++ r) = false) (exten text : String) :
    setsCallerId (.exten exten (s ++ text)) = false := by
  rw [setsCallerId, String.toList_append]
  exact h text.toList

theorem filter_phonePattern (provider c pattern : Val) :
    (phonePattern provider c pattern).filter setsCallerId =
      (sent (some c)).toList.map (callerIdLine pattern) := by
  have hfirst := setsCallerId_other (s := "1,NoOp(pre-processing for outgoing call to provider: ")
    fun _ => rfl
  have horig := setsCallerId_other (s := "n,Set(ORIGEXTENSION=") fun _ => rfl
  have hnoop := setsCallerId_other (s := "n,NoOp( - original extension = ") fun _ => rfl
  have hset := setsCallerId_other (s := "n,NoOp( - caller id set = ") fun _ => rfl
  have hphone : ∀ exten, setsCallerId (.exten exten "n,NoOp( - sending phone caller id)") = false :=
    fun _ => rfl
  have hgoto := setsCallerId_other (s := "n,Goto(") fun _ => rfl
  unfold phonePattern
  by_cases hc : c.truthy = true
  · have hsent : sent (some c) = some c.toStr := if_pos hc
    rw [hsent]
    simp only [hc, if_true, List.filter_append, List.filter_cons, List.filter_nil, String.append_assoc,
      setsCallerId_line, hfirst, horig, hnoop, hset, hgoto, Bool.false_eq_true, if_false]
    rw [Option.toList_some, List.map_singleton, callerIdLine, String.append_assoc]
    rfl
  · have hsent : sent (some c) = none := if_neg hc
    rw [hsent]
    simp only [hc, List.filter_append, List.filter_cons, List.filter_nil, String.append_assoc, hfirst,
      horig, hnoop, hphone, hgoto, Bool.false_eq_true, if_false]
    rfl

/-- The lines of a provider that set the caller id. -/
theorem filter_providerPart (huse : usable phone provider = true) (before : List Val) :
    (providerPart phone before provider).filter setsCallerId =
      (provider.get "dialpattern").vals.flatMap fun pattern =>
        (sent ((ownCallerId phone provider).or (lastCallerId phone before))).toList.map
          (callerIdLine pattern) := by
  have hnull : ∀ o : Option Val, sent (some (o.getD .null)) = sent o := by
    intro o
    cases o with
    | none => rfl
    | some c => rfl
  have hor : (ownCallerId phone provider).getD ((lastCallerId phone before).getD .null) =
      ((ownCallerId phone provider).or (lastCallerId phone before)).getD .null := by
    cases ownCallerId phone provider with
    | none => rfl
    | some c => rfl
  rw [providerPart_eq, phoneProviders_of_usable phone huse, phoneProviders, List.append_nil,
    List.filter_flatMap, hor]
  congr 1
  funext pattern
  rw [filter_phonePattern, hnull]

theorem callerIdLine_injective (pattern : Val) : Function.Injective (callerIdLine pattern) := by
  intro a b h
  have htext : "n,Set(CALLERID(all)=" ++ a ++ ")" = "n,Set(CALLERID(all)=" ++ b ++ ")" :=
    (Line.exten.inj h).2
  have hlist := congrArg String.toList htext
  simp only [String.toList_append, List.append_left_inj, List.append_right_inj] at hlist
  exact String.toList_inj.1 hlist

/-- Two caller ids give the same lines only if they are sent as the same text. -/
theorem flatMap_callerIdLine_iff (patterns : List Val) (a b : Option String) :
    (patterns.flatMap fun pattern => a.toList.map (callerIdLine pattern)) =
      (patterns.flatMap fun pattern => b.toList.map (callerIdLine pattern)) ↔
    patterns = [] ∨ a = b := by
  constructor
  · intro h
    cases patterns with
    | nil => exact .inl rfl
    | cons pattern r =>
      right
      rw [List.flatMap_cons, List.flatMap_cons] at h
      cases a with
      | none =>
        cases b with
        | none => rfl
        | some t =>
          have hlength := congrArg List.length h
          simp at hlength
      | some s =>
        cases b with
        | none =>
          have hlength := congrArg List.length h
          simp at hlength
        | some t => rw [callerIdLine_injective pattern (List.cons.inj h).1]
  · rintro (rfl | rfl)
    · rfl
    · rfl

/-- A provider's calls have the same caller id after two lists of providers exactly if it has a caller
id of its own, or the ones that are left over are the same. -/
theorem callerId_same_iff (phone provider : Val) (before before' after after' : List Val) :
    (∃ rest, generatePhoneOutgoingContext (before ++ provider :: after) phone =
      generatePhoneOutgoingContext before phone ++ providerPart phone before provider ++ rest) ∧
    (∃ rest, generatePhoneOutgoingContext (before' ++ provider :: after') phone =
      generatePhoneOutgoingContext before' phone ++ providerPart phone before' provider ++ rest) ∧
    ((providerPart phone before provider).filter setsCallerId =
        (providerPart phone before' provider).filter setsCallerId ↔
      usable phone provider = false ∨ (provider.get "dialpattern").vals = [] ∨
        (ownCallerId phone provider).isSome = true ∨
        sent (lastCallerId phone before) = sent (lastCallerId phone before')) := by
  refine ⟨providerPart_spec phone before after provider, providerPart_spec phone before' after' provider,
    ?_⟩
  -- a provider that the phone may not use has no lines
  by_cases huse : usable phone provider = true
  · rw [filter_providerPart huse, filter_providerPart huse, flatMap_callerIdLine_iff, huse]
    -- with a caller id of its own nothing is left over from the one before
    cases ownCallerId phone provider with
    | none => simp
    | some c => simp
  · rw [providerPart_eq, providerPart_eq, phoneProviders_of_not_usable phone huse,
      phoneProviders_of_not_usable phone huse, phoneProviders, phoneProviders]
    simp [huse]

/-- A provider without a caller id sends the one of the provider before it. -/
theorem not_callerId_same :
    let phone : Val := .arr [(.str "uniqid", .str "SIP-PHONE-1")]
    let office : Val := .arr [(.str "uniqid", .str "SIP-PROVIDER-1"), (.str "name", .str "A"),
      (.str "calleridsource", .str "string"), (.str "calleridstring", .str "5551234"),
      (.str "dialpattern", .arr [(.int 0, .str "1X.")])]
    let home : Val := .arr [(.str "uniqid", .str "SIP-PROVIDER-2"), (.str "name", .str "B"),
      (.str "dialpattern", .arr [(.int 0, .str "2X.")])]
    (providerPart phone [office] home).filter setsCallerId =
      [.exten "_2X." "n,Set(CALLERID(all)=5551234)"] ∧
    (providerPart phone [] home).filter setsCallerId = [] := by
  decide

end Lines

end Dialplan
end Askozia
