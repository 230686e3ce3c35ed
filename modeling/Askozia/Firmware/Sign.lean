import Askozia.Firmware.VerifySig
import Mathlib.Data.UInt

/-!
# Signing firmware images (`sign.c`)

`sign_file` reads the file up to its end, in blocks of 65536 bytes, and appends the signature, its
length and the magic number, where the end of the reading has left the position. `verifysig` reads
the data with the same loop, but it cuts the trailer off behind the buffer of its stream.

* `verifysig_signFile_iff`: exactly when `verifysig` accepts what was signed and leaves the file that was
  there before; a file without the magic number it leaves alone.
-/

namespace Askozia
namespace Firmware

open Stdio

/-- The low byte of a number. -/
def lowByte (n : ℕ) : UInt8 := UInt8.ofNat (n % 256)

/-- `fwrite` of a `u_int16_t`, in Intel byte order. -/
def bytes16 (n : ℕ) : List UInt8 := [lowByte n, lowByte (n / 256)]

/-- `fwrite` of a `u_int32_t`, in Intel byte order. -/
def bytes32 (n : ℕ) : List UInt8 :=
  [lowByte n, lowByte (n / 256), lowByte (n / 65536), lowByte (n / 16777216)]

/-- What a signing run depends on besides the file. -/
structure SignEnv where
  libc : Libc
  /-- The file can be opened for update. -/
  opens : Bool
  /-- A read of the file fails. -/
  readError : Bool
  /-- `EVP_SignFinal`, after the updates: the signature, if there is no error -/
  signFinal : List (List UInt8) → Option (List UInt8)
  /-- How many bytes of the signature can be written. -/
  written : List UInt8 → ℕ

/-- `sign_file($fn)`: whether it says so, and the file it leaves. -/
def signFile (env : SignEnv) (file : List UInt8) : Bool × List UInt8 :=
  if !env.opens then (false, file)
  else if env.readError then (false, file)
  else
    match env.signFinal (readLoop env.libc file File.opened) with
    | none => (false, file)
    | some sig =>
      if env.written sig < sig.length then (false, file ++ sig.take (env.written sig))
      else (true, file ++ sig ++ bytes16 (sig.length % 2 ^ 16) ++ bytes32 sigMagic)

/-! ## Bytes -/

theorem toNat_lowByte (n : ℕ) : (lowByte n).toNat = n % 256 := by
  unfold lowByte
  rw [UInt8.toNat_ofNat']
  omega

theorem littleEndian_bytes16 {n : ℕ} (h : n < 2 ^ 16) : littleEndian (bytes16 n) = n := by
  simp only [bytes16, littleEndian, toNat_lowByte]
  omega

theorem littleEndian_magic : littleEndian (bytes32 sigMagic) = sigMagic := by decide

/-- Four bytes with the value of the magic number are its bytes. -/
theorem eq_magic {bs : List UInt8} (hlen : bs.length = 4) (h : littleEndian bs = sigMagic) :
    bs = bytes32 sigMagic := by
  obtain ⟨a, b, c, d, rfl⟩ : ∃ a b c d, bs = [a, b, c, d] := by
    match bs, hlen with
    | [a, b, c, d], _ => exact ⟨a, b, c, d, rfl⟩
  simp only [littleEndian, sigMagic] at h
  have ha := a.toNat_lt
  have hb := b.toNat_lt
  have hc := c.toNat_lt
  have hd := d.toNat_lt
  have hbytes : a.toNat = 0xcb ∧ b.toNat = 0x77 ∧ c.toNat = 0x4d ∧ d.toNat = 0xe1 := by omega
  obtain ⟨ha, hb, hc, hd⟩ := hbytes
  have hbyte : ∀ (x : UInt8) (n : ℕ), x.toNat = n → x = UInt8.ofNat n := by
    intro x n hx
    rw [← hx, UInt8.ofNat_toNat]
  rw [hbyte a _ ha, hbyte b _ hb, hbyte c _ hc, hbyte d _ hd]
  decide

/-! ## Signed files -/

section Signed

variable {Key : Type} {env : Env Key} {d sig : List UInt8}

/-- The trailer of a signed file. -/
def trailer (sig : List UInt8) : List UInt8 := bytes16 (sig.length % 2 ^ 16) ++ bytes32 sigMagic

theorem length_trailer (sig : List UInt8) : (trailer sig).length = 6 := rfl

theorem fill_of_length {old new : List UInt8} (h : old.length ≤ new.length) : fill old new = new := by
  unfold fill
  rw [List.drop_eq_nil_of_le h, List.append_nil]

theorem magicOf_signed (hmagic : env.magic.length = 4) :
    magicOf env (d ++ sig ++ trailer sig) = sigMagic := by
  have hlast : (d ++ sig ++ trailer sig).drop ((d ++ sig ++ trailer sig).length - 4) =
      bytes32 sigMagic := by
    have hlen : (d ++ sig ++ trailer sig).length - 4 = (d ++ sig ++ bytes16 (sig.length % 2 ^ 16)).length := by
      simp [trailer, bytes16, bytes32]
      omega
    rw [hlen, trailer, ← List.append_assoc, List.drop_left]
  unfold magicOf
  rw [hlast, fill_of_length (Nat.le_of_eq hmagic), littleEndian_magic]

theorem siglenOf_signed (hsiglen : env.siglen.length = 2) (hsig : sig.length < 2 ^ 16) :
    siglenOf env (d ++ sig ++ trailer sig) = sig.length := by
  have hlen : 6 ≤ (d ++ sig ++ trailer sig).length := by
    rw [List.length_append, length_trailer]
    omega
  have hlast : ((d ++ sig ++ trailer sig).drop ((d ++ sig ++ trailer sig).length - 6)).take 2 =
      bytes16 (sig.length % 2 ^ 16) := by
    have hbefore : (d ++ sig ++ trailer sig).length - 6 = (d ++ sig).length := by
      rw [List.length_append, length_trailer]
      omega
    rw [hbefore, List.drop_left]
    rfl
  unfold siglenOf
  rw [if_pos hlen, hlast, fill_of_length (Nat.le_of_eq hsiglen), Nat.mod_eq_of_lt hsig,
    littleEndian_bytes16 hsig]

/-- The signature is read from where it was written. -/
theorem signatureOf_signed (hlen : siglenOf env (d ++ sig ++ trailer sig) = sig.length) :
    signatureOf env (d ++ sig ++ trailer sig) = sig := by
  have hall : (d ++ sig ++ trailer sig).length = d.length + sig.length + 6 := by
    rw [List.length_append, List.length_append, length_trailer]
  have hpos : (d ++ sig ++ trailer sig).length - (6 + sig.length) = d.length := by
    rw [hall]
    omega
  unfold signatureOf
  rw [hlen, if_pos (by rw [hall]; omega), hpos, List.append_assoc, List.drop_left, List.take_left]

theorem strip_signed : strip sig.length (d ++ sig ++ trailer sig) = d := by
  have hlen : (d ++ sig ++ trailer sig).length = d.length + sig.length + 6 := by
    rw [List.length_append, List.length_append, length_trailer]
  unfold strip
  rw [if_pos (by rw [hlen]; omega)]
  have htake : (d ++ sig ++ trailer sig).length - (6 + sig.length) = d.length := by
    rw [hlen]
    omega
  rw [htake, List.append_assoc, List.take_left]

end Signed

/-- Nothing fails while the file is signed. -/
structure SignEnv.Healthy (env : SignEnv) : Prop where
  opens : env.opens = true
  readError : env.readError = false
  written : ∀ sig, sig.length ≤ env.written sig

/-- Nothing fails while the signature is verified, and the variables have their sizes. -/
structure Env.Healthy {Key : Type} (env : Env Key) (pkey : Key) : Prop where
  opens : env.opens = true
  magic : env.magic.length = 4
  siglen : env.siglen.length = 2
  pubkey : env.pubkey = .key pkey
  sigbuf : env.sigbuf = true
  inbuf : env.inbuf = true
  readError : env.readError = false

/-- The key verifies what was signed, however the data is split into updates, and the signatures
have a length the key and the buffer allow. -/
structure Matching {Key : Type} (evp : Evp Key) (pkey : Key) (senv : SignEnv) : Prop where
  signs : ∀ chunks, ∃ sig, senv.signFinal chunks = some sig
  verifies : ∀ chunks sig, senv.signFinal chunks = some sig → evp.verifyFinal pkey chunks.flatten sig = 1
  length : ∀ chunks sig, senv.signFinal chunks = some sig →
    1 ≤ sig.length ∧ sig.length ≤ min (evp.pkeySize pkey) 4096

/-- A file that was signed is accepted and is what it was before exactly when the stream does not verify
the trailer, too, or the signature is good for that as well; a file that does not end with the magic
number is not signed and stays as it is. -/
theorem verifysig_signFile_iff {Key : Type} (evp : Evp Key) (pkey : Key) (senv : SignEnv) (env : Env Key)
    (hsign : senv.Healthy) (hverify : env.Healthy pkey) (hkeys : Matching evp pkey senv) :
    (∀ d sig, senv.signFinal (readLoop senv.libc d File.opened) = some sig →
      ((signFile senv d).1 = true ∧ verifysig evp env (signFile senv d).2 = (0, d) ↔
        (env.libc.keeps = true → d.length + sig.length + 6 < env.libc.bufsiz →
          evp.verifyFinal pkey (d ++ sig ++ trailer sig) sig = 1))) ∧
      ∀ (env : Env Key) (file : List UInt8), env.opens = true → env.magic.length = 4 →
        4 ≤ file.length → file.drop (file.length - 4) ≠ bytes32 sigMagic →
        verifysig evp env file = (2, file) := by
  constructor
  · intro d sig hsig
    obtain ⟨hpos, hmax⟩ := hkeys.length _ sig hsig
    have haccepted := hkeys.verifies _ sig hsig
    rw [readLoop, flatten_updates, File.ahead_opened] at haccepted
    rw [Nat.le_min] at hmax
    have hfile : signFile senv d = (true, d ++ sig ++ trailer sig) := by
      unfold signFile
      rw [hsign.opens, hsign.readError, hsig]
      simp only [Bool.not_true, Bool.false_eq_true, if_false]
      rw [if_neg (Nat.not_lt.2 (hsign.written sig)), trailer, List.append_assoc, List.append_assoc]
    have hlen : siglenOf env (d ++ sig ++ trailer sig) = sig.length :=
      siglenOf_signed hverify.siglen (by omega)
    have hall : (d ++ sig ++ trailer sig).length = d.length + sig.length + 6 := by
      rw [List.length_append, List.length_append, length_trailer]
    -- what is verified is the file with or without its trailer
    have hdata : verifiedData env (d ++ sig ++ trailer sig) =
        if env.libc.keeps = true ∧ d.length + sig.length + 6 < env.libc.bufsiz then d ++ sig ++ trailer sig
        else d := by
      have hstale : File.Stale env.libc (d ++ sig ++ trailer sig) ↔
          env.libc.keeps = true ∧ d.length + sig.length + 6 < env.libc.bufsiz := by
        unfold File.Stale
        rw [hall]
      unfold verifiedData
      rw [hlen, strip_signed]
      exact if_congr hstale rfl rfl
    have hrun : verifysig evp env (d ++ sig ++ trailer sig) = (0, d) ↔
        evp.verifyFinal pkey (verifiedData env (d ++ sig ++ trailer sig)) sig = 1 := by
      rw [verifysig_eq, hverify.opens, hverify.pubkey, hverify.sigbuf, hverify.inbuf, hverify.readError,
        magicOf_signed hverify.magic, signatureOf_signed hlen, hlen]
      simp only [Bool.not_true, Bool.false_eq_true, if_false, ne_eq, not_true_eq_false]
      rw [if_neg (by omega), strip_signed]
      split_ifs with hone hzero
      · exact iff_of_true rfl hone
      · exact iff_of_false (by simp) hone
      · exact iff_of_false (by simp) hone
    rw [hfile, hrun, hdata]
    split_ifs with hstale
    · simp [hstale]
    · simp only [haccepted, and_self, true_iff]
      exact fun hkeeps hshort => absurd ⟨hkeeps, hshort⟩ hstale
  · intro env file hopens hsize hlen hmagic
    have hdrop : (file.drop (file.length - 4)).length = 4 := by
      rw [List.length_drop]
      omega
    have hother : magicOf env file ≠ sigMagic := by
      intro heq
      unfold magicOf at heq
      rw [fill_of_length (Nat.le_of_eq (hsize.trans hdrop.symm))] at heq
      exact hmagic (eq_magic hdrop heq)
    rw [verifysig_eq, hopens]
    simp only [Bool.not_true, Bool.false_eq_true, if_false]
    rw [if_pos hother]

/-- A signature of one byte, the sum of the bytes that are signed. -/
def sumEvp : Evp Unit where
  pkeySize := fun _ => 128
  verifyFinal := fun _ data sig => if sig = [data.sum] then 1 else 0

/-- Signing with that signature. -/
def sumSigner : SignEnv where
  libc := glibc
  opens := true
  readError := false
  signFinal := fun chunks => some [chunks.flatten.sum]
  written := fun sig => sig.length

/-- Verifying with it. -/
def sumVerifier : Env Unit where
  libc := glibc
  opens := true
  magic := [0, 0, 0, 0]
  siglen := [0, 0]
  pubkey := .key ()
  sigbuf := true
  inbuf := true
  readError := false

theorem healthy_sumSigner : sumSigner.Healthy := ⟨rfl, rfl, fun _ => Nat.le_refl _⟩

theorem healthy_sumVerifier : sumVerifier.Healthy () := ⟨rfl, rfl, rfl, rfl, rfl, rfl, rfl⟩

theorem matching_sum : Matching sumEvp () sumSigner := by
  refine ⟨fun chunks => ⟨_, rfl⟩, ?_, ?_⟩
  · intro chunks sig hsig
    rw [← Option.some.inj hsig]
    exact if_pos rfl
  · intro chunks sig hsig
    rw [← Option.some.inj hsig]
    exact ⟨Nat.le_refl 1, show 1 ≤ min 128 4096 by decide⟩

/-- What `sumSigner` signs a file with. -/
theorem signFinal_sum (d : List UInt8) :
    sumSigner.signFinal (readLoop sumSigner.libc d File.opened) = some [d.sum] := by
  show some [(readLoop sumSigner.libc d File.opened).flatten.sum] = _
  rw [readLoop, flatten_updates, File.ahead_opened]

/-- A file of one byte: its signature is verified against the file with the trailer. -/
theorem not_verifysig_signFile_short : sumSigner.Healthy ∧ sumVerifier.Healthy () ∧
    Matching sumEvp () sumSigner ∧ (signFile sumSigner [1]).1 = true ∧
    verifysig sumEvp sumVerifier (signFile sumSigner [1]).2 = (1, [1]) := by
  have hfile : signFile sumSigner [1] = (true, [1, 1, 1, 0, 0xcb, 0x77, 0x4d, 0xe1]) := by
    have hsig := signFinal_sum [1]
    unfold signFile
    rw [hsig]
    decide
  refine ⟨healthy_sumSigner, healthy_sumVerifier, matching_sum, by rw [hfile], ?_⟩
  rw [hfile, verifysig_eq]
  decide

/-- A file of a block, one that ends with the magic number already where the seek drops the buffer, and one
that is too short for a buffer that is kept. -/
theorem verifysig_signFile_sum :
    (∀ r, verifysig sumEvp sumVerifier (signFile sumSigner (List.replicate 4096 r)).2 =
        (0, List.replicate 4096 r)) ∧
      verifysig sumEvp { sumVerifier with libc := uclibc }
        (signFile sumSigner (bytes32 sigMagic)).2 = (0, bytes32 sigMagic) ∧
      verifysig sumEvp sumVerifier (signFile sumSigner [1]).2 ≠ (0, [1]) ∧
      verifysig sumEvp sumVerifier [1, 2, 3, 4] = (2, [1, 2, 3, 4]) := by
  obtain ⟨hsigned, hunsigned⟩ := verifysig_signFile_iff sumEvp () sumSigner sumVerifier
    healthy_sumSigner healthy_sumVerifier matching_sum
  obtain ⟨hdropped, -⟩ := verifysig_signFile_iff sumEvp () sumSigner
    { sumVerifier with libc := uclibc } healthy_sumSigner
    ⟨rfl, rfl, rfl, rfl, rfl, rfl, rfl⟩ matching_sum
  refine ⟨fun r => ((hsigned _ _ (signFinal_sum _)).2 fun _ hshort => ?_).2,
    ((hdropped _ _ (signFinal_sum _)).2 fun hkeeps => absurd hkeeps (by decide)).2, fun haccepted => ?_,
    hunsigned sumVerifier _ rfl rfl (by decide) (by decide)⟩
  · -- these files are not shorter than a block of the buffer
    rw [List.length_replicate] at hshort
    exact absurd hshort (by show ¬ (4096 + 1 + 6 < 4096); decide)
  · have hsaid : (signFile sumSigner [1]).1 = true := by
      unfold signFile
      rw [signFinal_sum]
      decide
    -- this one is, and the check reads the signature with it
    have hgood := (hsigned _ _ (signFinal_sum [1])).1 ⟨hsaid, haccepted⟩ rfl (by decide)
    revert hgood
    decide

end Firmware
end Askozia
