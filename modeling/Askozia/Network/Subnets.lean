import Askozia.Bits.Prefixes
import Askozia.Php.Compare
import Mathlib.Algebra.Order.Floor.Semiring
import Mathlib.Data.List.TFAE

/-!
# Subnets

Addresses are dotted quads, converted to words of 32 bits and back. A subnet is given by one of
its addresses and the number of bits its addresses begin with.

Main result: `subnets_agree`.
-/

namespace Askozia
namespace Network

open Php Bits

/-! ## Addresses -/

/-- A number of a dotted quad: at most 255, in decimal and without leading zeros. -/
def octet? (text : String) : Option ℕ :=
  let digits := text.toList
  if digits ≠ [] ∧ digits.all Char.isDigit = true ∧ (digits.head? = some '0' → digits = ['0'])
      ∧ Val.digitsValue digits ≤ 255 then some (Val.digitsValue digits)
  else none

/-- `ip2long($ip)`, as `inet_pton` reads it; `none` is `false`. -/
def ip2long (ip : String) : Option (BitVec 32) :=
  match explode '.' ip with
  | [a, b, c, d] => do
    let a ← octet? a
    let b ← octet? b
    let c ← octet? c
    let d ← octet? d
    return BitVec.ofNat 32 (((a * 256 + b) * 256 + c) * 256 + d)
  | _ => none

/-- `ip2long($ip)` where a number is needed: `false` is `0`. -/
def long (ip : String) : BitVec 32 := (ip2long ip).getD 0

/-- `long2ip($long)` -/
def long2ip (long : BitVec 32) : String :=
  let n := long.toNat
  implode "." [toString (n / 2 ^ 24), toString (n / 2 ^ 16 % 256), toString (n / 2 ^ 8 % 256),
    toString (n % 256)]

/-- `verify_is_ipaddress($ipaddr)`. What `long2ip` returns is not numeric, so that `==` compares
the texts. -/
def verifyIsIpaddress (ipaddr : String) : Bool := ipaddr == long2ip (long ipaddr)

/-! ## Subnets -/

/-- The number that `is_numeric($bits)` accepts. -/
def numeric? : Val → Option ℚ
  | .int n => some n
  | .str s => number? s
  | _ => none

/-- `$sm` after some rounds of the loop of `gen_subnet_mask_long`. -/
def subnetMaskLoop : ℕ → BitVec 32
  | 0 => 0
  | i + 1 => (subnetMaskLoop i).sshiftRight 1 ||| 0x80000000

/-- `gen_subnet_mask_long($bits)` -/
def genSubnetMaskLong (bits : ℚ) : BitVec 32 := subnetMaskLoop ⌈bits⌉₊

/-- `gen_subnet($ipaddr, $bits)` -/
def genSubnet (ipaddr : String) (bits : Val) : String :=
  if !verifyIsIpaddress ipaddr then ""
  else
    match numeric? bits with
    | none => ""
    | some bits => long2ip (long ipaddr &&& genSubnetMaskLong bits)

/-- `gen_subnet_max($ipaddr, $bits)` -/
def genSubnetMax (ipaddr : String) (bits : Val) : String :=
  if !verifyIsIpaddress ipaddr then ""
  else
    match numeric? bits with
    | none => ""
    | some bits => long2ip (long ipaddr ||| ~~~genSubnetMaskLong bits)

/-- `check_subnets_overlap($subnet1, $bits1, $subnet2, $bits2)` -/
def checkSubnetsOverlap (subnet1 : String) (bits1 : Val) (subnet2 : String) (bits2 : Val) : Bool :=
  let bits1 := (numeric? bits1).getD 32
  let bits2 := (numeric? bits2).getD 32
  let relbits := if bits1 < bits2 then bits1 else bits2
  let sn1 := genSubnetMaskLong relbits &&& long subnet1
  let sn2 := genSubnetMaskLong relbits &&& long subnet2
  sn1 == sn2

/-- `ip_in_subnet($addr, $subnet)`. The shift is by less than 32 for the prefix lengths from 1. -/
def ipInSubnet (addr subnet : String) : Bool :=
  let pieces := explode '/' subnet
  let ip := pieces[0]?.getD ""
  let mask := 0xffffffff#32 <<< ⌊32 - toNumber (pieces[1]?.getD "")⌋.toNat
  (long addr &&& mask) == (long ip &&& mask)

/-- The addresses from `gen_subnet($ipaddr, $bits)` to `gen_subnet_max($ipaddr, $bits)`, as
unsigned numbers. -/
def addressRange (ipaddr : String) (bits : Val) : Set ℕ :=
  Set.Icc (long (genSubnet ipaddr bits)).toNat (long (genSubnetMax ipaddr bits)).toNat

section Addresses

variable {n : BitVec 32}

set_option maxRecDepth 4000 in
theorem octet?_toString {n : ℕ} (hn : n ≤ 255) : octet? (toString n) = some n := by
  have hvalue := Val.digitsValue_toString n
  have hall : (toString n).toList.all Char.isDigit = true :=
    List.all_eq_true.2 fun c hc => Val.isDigit_of_mem_toString_nat hc
  have hhead : (toString n).toList ≠ [] ∧
      ((toString n).toList.head? = some '0' → (toString n).toList = ['0']) := by
    have hsmall : ∀ m < 256, (toString m).toList ≠ [] ∧
        ((toString m).toList.head? = some '0' → (toString m).toList = ['0']) := by decide
    exact hsmall n (by omega)
  unfold octet?
  rw [if_pos ⟨hhead.1, hall, hhead.2, by omega⟩, hvalue]

theorem not_mem_toString {c : Char} (hc : c.isDigit = false) (n : ℕ) :
    c ∉ (toString n).toList := by
  intro h
  rw [Val.isDigit_of_mem_toString_nat h] at hc
  cases hc

/-- Addresses that are written are read back. -/
@[simp] theorem ip2long_long2ip : ip2long (long2ip n) = some n := by
  have hlt := n.isLt
  have hpieces : explode '.' (implode "." [toString (n.toNat / 2 ^ 24),
      toString (n.toNat / 2 ^ 16 % 256), toString (n.toNat / 2 ^ 8 % 256),
      toString (n.toNat % 256)]) = [toString (n.toNat / 2 ^ 24),
      toString (n.toNat / 2 ^ 16 % 256), toString (n.toNat / 2 ^ 8 % 256),
      toString (n.toNat % 256)] := by
    apply explode_implode rfl (List.cons_ne_nil _ _)
    simp only [List.forall_mem_cons, List.not_mem_nil, false_implies, implies_true, and_true]
    exact ⟨not_mem_toString rfl _, not_mem_toString rfl _, not_mem_toString rfl _,
      not_mem_toString rfl _⟩
  unfold ip2long long2ip
  rw [hpieces]
  simp only [octet?_toString (show n.toNat / 2 ^ 24 ≤ 255 by omega),
    octet?_toString (show n.toNat / 2 ^ 16 % 256 ≤ 255 by omega),
    octet?_toString (show n.toNat / 2 ^ 8 % 256 ≤ 255 by omega),
    octet?_toString (show n.toNat % 256 ≤ 255 by omega)]
  have hvalue : ((n.toNat / 2 ^ 24 * 256 + n.toNat / 2 ^ 16 % 256) * 256
      + n.toNat / 2 ^ 8 % 256) * 256 + n.toNat % 256 = n.toNat := by omega
  show some (BitVec.ofNat 32 _) = some n
  rw [hvalue, BitVec.ofNat_toNat, BitVec.setWidth_eq]

@[simp] theorem long_long2ip : long (long2ip n) = n := by
  rw [long, ip2long_long2ip, Option.getD_some]

theorem long2ip_injective : Function.Injective long2ip := by
  intro m n h
  rw [← long_long2ip (n := m), h, long_long2ip]

/-- An address is written with digits and dots. -/
theorem slash_not_mem_long2ip : '/' ∉ (long2ip n).toList := by
  simp only [long2ip, implode, String.toList_append, List.mem_append, not_or]
  have hdot : '/' ∉ ".".toList := by decide
  have hnumber : ∀ m : ℕ, '/' ∉ (toString m).toList := not_mem_toString rfl
  exact ⟨⟨hnumber _, hdot⟩, ⟨hnumber _, hdot⟩, ⟨hnumber _, hdot⟩, hnumber _⟩

theorem eq_long2ip {ipaddr : String} (h : verifyIsIpaddress ipaddr = true) :
    ipaddr = long2ip (long ipaddr) := beq_iff_eq.1 h

end Addresses

/-! ## Prefixes -/

section Prefixes

variable {a s : String} {b c : ℕ}

theorem subnetMaskLoop_eq (i : ℕ) : subnetMaskLoop i = highMask 32 i := by
  induction i with
  | zero => rw [subnetMaskLoop, highMask_zero]; rfl
  | succ i ih =>
    have hsign : (0x80000000 : BitVec 32) = BitVec.intMin 32 := by decide
    rw [subnetMaskLoop, ih, hsign, highMask_succ]

theorem genSubnetMaskLong_natCast : genSubnetMaskLong b = highMask 32 b := by
  rw [genSubnetMaskLong, Nat.ceil_natCast, subnetMaskLoop_eq]

theorem numeric?_natCast : numeric? (.int b) = some (b : ℚ) := by
  rw [numeric?, Int.cast_natCast]

theorem genSubnet_of_address (h : verifyIsIpaddress a = true) :
    genSubnet a (.int b) = long2ip (long a &&& highMask 32 b) := by
  simp only [genSubnet, h, numeric?_natCast, genSubnetMaskLong_natCast]
  rfl

theorem genSubnetMax_of_address (h : verifyIsIpaddress a = true) :
    genSubnetMax a (.int b) = long2ip (long a ||| ~~~highMask 32 b) := by
  simp only [genSubnetMax, h, numeric?_natCast, genSubnetMaskLong_natCast]
  rfl

theorem addressRange_of_address (h : verifyIsIpaddress a = true) :
    addressRange a (.int b) = block b (long a) := by
  rw [addressRange, genSubnet_of_address h, genSubnetMax_of_address h, long_long2ip,
    long_long2ip, block]

theorem genSubnet_eq_iff (ha : verifyIsIpaddress a = true) (hs : verifyIsIpaddress s = true) :
    genSubnet a (.int b) = genSubnet s (.int b) ↔ Agree b (long a) (long s) := by
  rw [genSubnet_of_address ha, genSubnet_of_address hs, long2ip_injective.eq_iff,
    and_highMask_eq_iff]

theorem checkSubnetsOverlap_iff :
    checkSubnetsOverlap a (.int b) s (.int c) = true ↔ Agree (min b c) (long a) (long s) := by
  have hmin : (if (b : ℚ) < c then (b : ℚ) else c) = (min b c : ℕ) := by
    rw [Nat.cast_min, min_def]
    split_ifs with hlt hle hle
    · rfl
    · exact absurd hlt.le hle
    · exact le_antisymm (not_lt.1 hlt) hle
    · rfl
  simp only [checkSubnetsOverlap, numeric?_natCast, Option.getD_some, hmin,
    genSubnetMaskLong_natCast]
  rw [beq_iff_eq, BitVec.and_comm, BitVec.and_comm (highMask 32 _), and_highMask_eq_iff]

theorem ipInSubnet_iff (hs : verifyIsIpaddress s = true) (hb : b ≤ 32) :
    ipInSubnet a (s ++ "/" ++ toString b) = true ↔ Agree b (long a) (long s) := by
  have hslash : '/' ∉ s.toList := by
    rw [eq_long2ip hs]
    exact slash_not_mem_long2ip
  have hpieces : explode '/' (s ++ "/" ++ toString b) = [s, toString b] := by
    have hjoin : s ++ "/" ++ toString b = implode "/" [s, toString b] := rfl
    rw [hjoin]
    apply explode_implode rfl (List.cons_ne_nil _ _)
    simp only [List.forall_mem_cons, List.not_mem_nil, false_implies, implies_true, and_true]
    exact ⟨hslash, not_mem_toString rfl b⟩
  have hcount : ⌊32 - toNumber (toString b)⌋.toNat = 32 - b := by
    have hlt : b < 2 ^ 53 := by omega
    have hcast : (32 : ℚ) - b = ((32 - b : ℕ) : ℤ) := by
      rw [Int.cast_natCast, Nat.cast_sub hb]
      norm_num
    rw [toNumber_toString, double_natCast hlt, hcast, Int.floor_intCast, Int.toNat_natCast]
  have hones : 0xffffffff#32 = BitVec.allOnes 32 := by decide
  unfold ipInSubnet
  simp only [hpieces, List.getElem?_cons_zero, List.getElem?_cons_succ, Option.getD_some, hcount,
    hones]
  rw [beq_iff_eq, ← highMask, and_highMask_eq_iff]

end Prefixes

/-! ## Agreement -/

/-- For the prefix lengths that are used, membership, overlap with one address, the same subnet
and the range of addresses are one notion, and subnets overlap if they share an address. -/
theorem subnets_agree {a s : String} (ha : verifyIsIpaddress a = true)
    (hs : verifyIsIpaddress s = true) :
    (∀ b : ℕ, 1 ≤ b → b ≤ 32 → List.TFAE [
      ipInSubnet a (s ++ "/" ++ toString b) = true,
      checkSubnetsOverlap a (.int 32) s (.int b) = true,
      genSubnet a (.int b) = genSubnet s (.int b),
      (long a).toNat ∈ addressRange s (.int b)]) ∧
    ∀ b c : ℕ, 1 ≤ b → b ≤ 32 → 1 ≤ c → c ≤ 32 →
      (checkSubnetsOverlap a (.int b) s (.int c) = true ↔
        (addressRange a (.int b) ∩ addressRange s (.int c)).Nonempty) := by
  constructor
  · intro b _ hb
    -- an address is a subnet of 32 bits
    have hoverlap : checkSubnetsOverlap a (.int 32) s (.int b) = true ↔
        Agree b (long a) (long s) := by
      have hmin : min 32 b = b := min_eq_right hb
      have h := checkSubnetsOverlap_iff (a := a) (s := s) (b := 32) (c := b)
      rwa [hmin] at h
    rw [ipInSubnet_iff hs hb, hoverlap, genSubnet_eq_iff ha hs, addressRange_of_address hs,
      ← agree_iff_mem_block]
    tfae_finish
  · intro b c _ _ _ _
    rw [checkSubnetsOverlap_iff, addressRange_of_address ha, addressRange_of_address hs,
      block_inter_nonempty_iff]

/-- Neighbours in one subnet of 24 bits, and two subnets of which one contains the other. -/
theorem subnets_agree_neighbours :
    List.TFAE [
      ipInSubnet "10.0.0.7" ("10.0.0.1" ++ "/" ++ toString 24) = true,
      checkSubnetsOverlap "10.0.0.7" (.int 32) "10.0.0.1" (.int (24 : ℕ)) = true,
      genSubnet "10.0.0.7" (.int (24 : ℕ)) = genSubnet "10.0.0.1" (.int (24 : ℕ)),
      (long "10.0.0.7").toNat ∈ addressRange "10.0.0.1" (.int (24 : ℕ))] ∧
    (checkSubnetsOverlap "10.0.0.7" (.int (8 : ℕ)) "10.0.0.1" (.int (24 : ℕ)) = true ↔
      (addressRange "10.0.0.7" (.int (8 : ℕ)) ∩
        addressRange "10.0.0.1" (.int (24 : ℕ))).Nonempty) := by
  have hfirst : verifyIsIpaddress "10.0.0.7" = true := by decide
  have hsecond : verifyIsIpaddress "10.0.0.1" = true := by decide
  have hagree := subnets_agree hfirst hsecond
  exact ⟨hagree.1 24 (by decide) (by decide),
    hagree.2 8 24 (by decide) (by decide) (by decide) (by decide)⟩

end Network
end Askozia
