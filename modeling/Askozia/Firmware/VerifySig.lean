import Askozia.Stdio.Streams
import Mathlib.Data.Int.Notation

/-!
# The signature check of firmware images (`verifysig.c`)

An image ends with a trailer: a signature, its length in two bytes and a magic number in four.
`verifysig` reads the trailer from the end of the file, cuts it off and verifies the rest. Here it
runs with two arguments, the key and the image (`argc == 3`).

A seek to before the start of the file fails and leaves the position where it was, and nothing
checks it; a read at the end of the file leaves the variable as it was. The trailer is cut off through
the descriptor, behind the buffer of the stream.

* `verifysig_spec`: exactly when the exit status is one of the five that are documented, and when
  the trailer is cut off;
* `verifysig_eq`: what is verified, the buffer being what it is.
-/

namespace Askozia
namespace Firmware

open Stdio

/-! ## Variables -/

/-- A variable of which the first bytes have been read. -/
def fill (old new : List UInt8) : List UInt8 := new ++ old.drop new.length

/-- The number in some bytes, in Intel byte order. -/
def littleEndian : List UInt8 → ℕ
  | [] => 0
  | b :: r => b.toNat + 256 * littleEndian r

/-! ## The program -/

/-- `SIG_MAGIC` -/
def sigMagic : ℕ := 0xe14d77cb

/-- `SIG_INBUFLEN` -/
def sigInbuflen : ℕ := 65536

theorem sigInbuflen_pos : 0 < sigInbuflen := by decide

/-- The loop that reads a file up to its end in blocks of `SIG_INBUFLEN` bytes. -/
def readLoop (libc : Libc) (file : List UInt8) (f : File UInt8) : List (List UInt8) :=
  updates libc file sigInbuflen sigInbuflen_pos f

/-- What becomes of the file with the public key. -/
inductive Pubkey (Key : Type) where
  /-- It cannot be opened. -/
  | missing
  /-- `PEM_read_PUBKEY` finds no key in it. -/
  | unreadable
  | key (pkey : Key)
deriving DecidableEq, Repr

/-- The functions of the crypto library. -/
structure Evp (Key : Type) where
  /-- `EVP_PKEY_size` -/
  pkeySize : Key → ℕ
  /-- `EVP_VerifyFinal`, after updates with the given data -/
  verifyFinal : Key → List UInt8 → List UInt8 → ℤ

/-- `SDECFGSET_LIBC='glibc'`: buffers of a block of the file system, which a seek keeps. -/
def glibc : Libc := ⟨4096, true, by decide⟩

/-- `SDECFGSET_LIBC='uclibc'` -/
def uclibc : Libc := ⟨4096, false, by decide⟩

/-- What a run depends on besides the image. -/
structure Env (Key : Type) where
  libc : Libc
  /-- The image can be opened for update. -/
  opens : Bool
  /-- What `magic` holds before it is read. -/
  magic : List UInt8
  /-- What `siglen` holds before it is read. -/
  siglen : List UInt8
  pubkey : Pubkey Key
  /-- There is memory for the signature. -/
  sigbuf : Bool
  /-- There is memory for the data. -/
  inbuf : Bool
  /-- A read of the data fails. -/
  readError : Bool

/-- `ftruncate` to what is before the trailer; a negative length is refused. -/
def strip (siglen : ℕ) (image : List UInt8) : List UInt8 :=
  if 6 + siglen ≤ image.length then image.take (image.length - (6 + siglen)) else image

/-- `main` of `verifysig.c`: the exit status and the file it leaves. -/
def verifysig {Key : Type} (evp : Evp Key) (env : Env Key) (image : List UInt8) :
    ℕ × List UInt8 :=
  if !env.opens then (5, image)
  else
    let fin := File.opened.seekEnd env.libc image 4
    let magic := littleEndian (fill env.magic (fin.fread env.libc image 4).1)
    let fin := (fin.fread env.libc image 4).2
    if magic ≠ sigMagic then (2, image)
    else
      let fin := fin.seekEnd env.libc image 6
      let siglen := littleEndian (fill env.siglen (fin.fread env.libc image 2).1)
      let fin := (fin.fread env.libc image 2).2
      match env.pubkey with
      | .missing => (7, image)
      | .unreadable => (8, image)
      | .key pkey =>
        if siglen = 0 ∨ siglen > evp.pkeySize pkey then (3, image)
        else if !env.sigbuf then (9, image)
        else
          let fin := fin.seekEnd env.libc image (6 + siglen)
          let sigbuf := (fin.fread env.libc image siglen).1
          let fin := (fin.fread env.libc image siglen).2
          if sigbuf.length ≠ siglen then (10, image)
          else
            let fin := fin.seekEnd env.libc image 0
            -- from here on the trailer is gone
            let data := strip siglen image
            if !env.inbuf then (13, data)
            else
              let fin := fin.rewind env.libc data
              if env.readError then (14, data)
              else
                let verified := (readLoop env.libc data fin).flatten
                if evp.verifyFinal pkey verified sigbuf = 1 then (0, data)
                else if evp.verifyFinal pkey verified sigbuf = 0 then (1, data)
                else (3, data)

/-! ## The trailer -/

section Trailer

variable {Key : Type} (evp : Evp Key) (env : Env Key) (image : List UInt8)

/-- The magic number; a file that is too short leaves part of the variable as it was. -/
def magicOf : ℕ := littleEndian (fill env.magic (image.drop (image.length - 4)))

/-- The length of the signature; a file that is too short leaves the variable as it was. -/
def siglenOf : ℕ :=
  if 6 ≤ image.length then
    littleEndian (fill env.siglen ((image.drop (image.length - 6)).take 2))
  else littleEndian env.siglen

/-- The signature can be read: it is in the file, or so short that the bytes of the magic number,
where the failed seek leaves the position, are enough. -/
def SignatureReadable : Prop :=
  6 + siglenOf env image ≤ image.length ∨ (6 ≤ image.length ∧ siglenOf env image ≤ 4)

/-- The length of the signature is not out of the question for a key. -/
def SiglenSane (pkey : Key) : Prop :=
  siglenOf env image ≠ 0 ∧ siglenOf env image ≤ evp.pkeySize pkey

/-- Nothing keeps `verifysig` from coming to a verdict. -/
def Checkable : Prop :=
  env.opens = true ∧
    (magicOf env image = sigMagic → ∃ pkey, env.pubkey = .key pkey ∧
      (SiglenSane evp env image pkey → env.sigbuf = true ∧ SignatureReadable env image ∧
        env.inbuf = true ∧ env.readError = false))

/-- The trailer is cut off. -/
def Stripped : Prop :=
  env.opens = true ∧ magicOf env image = sigMagic ∧
    ∃ pkey, env.pubkey = .key pkey ∧ SiglenSane evp env image pkey ∧ env.sigbuf = true ∧
      SignatureReadable env image

/-- The signature that is read: what is before the length if there is enough, else what follows the
length. -/
def signatureOf : List UInt8 :=
  (if 6 + siglenOf env image ≤ image.length then image.drop (image.length - (6 + siglenOf env image))
    else if 6 ≤ image.length then image.drop (image.length - 4) else []).take (siglenOf env image)

/-- The data that is verified: the image without the trailer, or all of it if it is still in the
buffer. -/
def verifiedData : List UInt8 :=
  if File.Stale env.libc image then image else strip (siglenOf env image) image

end Trailer

/-! ## Reading the trailer -/

section Reading

variable {Key : Type} {env : Env Key} {image : List UInt8}

/-- The stream after the magic number has been read. -/
def afterMagic (env : Env Key) (image : List UInt8) : File UInt8 :=
  ((File.opened.seekEnd env.libc image 4).fread env.libc image 4).2

/-- The stream after the length has been read. -/
def afterSiglen (env : Env Key) (image : List UInt8) : File UInt8 :=
  (((afterMagic env image).seekEnd env.libc image 6).fread env.libc image 2).2

/-- The magic number is read from the end of the file. -/
theorem fread_magic : ((File.opened.seekEnd env.libc image 4).fread env.libc image 4).1 =
    image.drop (image.length - 4) := by
  have hopened : File.Fresh image File.opened := File.fresh_opened
  have hseek := (File.seekEnd_spec env.libc 4 hopened).2
  rw [File.fread_eq.1, hseek, File.ahead_opened]
  split_ifs with h
  · apply List.take_of_length_le
    rw [List.length_drop]
    omega
  · have hzero : image.length - 4 = 0 := by omega
    rw [hzero, List.drop_zero]
    exact List.take_of_length_le (by omega)

theorem afterMagic_spec : (afterMagic env image).Fresh image ∧ (afterMagic env image).ahead image = [] := by
  have hopened : File.Fresh image File.opened := File.fresh_opened
  obtain ⟨hfresh, hseek⟩ := File.seekEnd_spec env.libc 4 hopened
  refine ⟨File.fresh_fread hfresh, ?_⟩
  unfold afterMagic
  rw [File.fread_eq.2, hseek, File.ahead_opened]
  split_ifs with h
  · apply List.drop_eq_nil_of_le
    rw [List.length_drop]
    omega
  · exact List.drop_eq_nil_of_le (by omega)

/-- What is ahead once the stream is at the length. -/
theorem seek_siglen : ((afterMagic env image).seekEnd env.libc image 6).Fresh image ∧
    ((afterMagic env image).seekEnd env.libc image 6).ahead image =
      if 6 ≤ image.length then image.drop (image.length - 6) else [] := by
  have hseek := File.seekEnd_spec env.libc 6 (@afterMagic_spec Key env image).1
  rwa [afterMagic_spec.2] at hseek

theorem fread_siglen :
    littleEndian (fill env.siglen (((afterMagic env image).seekEnd env.libc image 6).fread env.libc image 2).1) =
      siglenOf env image := by
  rw [File.fread_eq.1, seek_siglen.2]
  unfold siglenOf
  split_ifs
  · rfl
  · simp [fill]

theorem afterSiglen_spec : (afterSiglen env image).Fresh image ∧ (afterSiglen env image).ahead image =
    if 6 ≤ image.length then image.drop (image.length - 4) else [] := by
  refine ⟨File.fresh_fread seek_siglen.1, ?_⟩
  unfold afterSiglen
  rw [File.fread_eq.2, seek_siglen.2]
  split_ifs with h
  · rw [List.drop_drop]
    congr 1
    omega
  · rfl

theorem fread_signature :
    (((afterSiglen env image).seekEnd env.libc image (6 + siglenOf env image)).fread env.libc image
      (siglenOf env image)).1 = signatureOf env image := by
  have hseek := File.seekEnd_spec env.libc (6 + siglenOf env image) (@afterSiglen_spec Key env image).1
  rw [File.fread_eq.1, hseek.2, afterSiglen_spec.2]
  rfl

theorem length_strip_le {siglen : ℕ} : (strip siglen image).length ≤ image.length := by
  unfold strip
  split_ifs
  · rw [List.length_take]
    omega
  · exact Nat.le_refl _

/-- What the loop reads. -/
theorem read_data {f : File UInt8} (h : f.Fresh image) :
    (readLoop env.libc (strip (siglenOf env image) image)
      ((f.seekEnd env.libc image 0).rewind env.libc (strip (siglenOf env image) image))).flatten =
      verifiedData env image := by
  unfold readLoop
  rw [flatten_updates, File.ahead_cut h length_strip_le]
  rfl

/-- The signature is read completely exactly when it can be. -/
theorem length_signatureOf (h : siglenOf env image ≠ 0) :
    (signatureOf env image).length = siglenOf env image ↔ SignatureReadable env image := by
  unfold signatureOf SignatureReadable
  by_cases hfit : 6 + siglenOf env image ≤ image.length
  · rw [if_pos hfit]
    simp only [List.length_take, List.length_drop, hfit, true_or, iff_true]
    omega
  · -- the position is still where the length ended
    rw [if_neg hfit]
    by_cases hlen : 6 ≤ image.length
    · rw [if_pos hlen]
      simp only [List.length_take, List.length_drop, hfit, false_or]
      omega
    · rw [if_neg hlen, List.take_nil, List.length_nil]
      omega

end Reading

/-! ## Exit statuses -/

section Status

variable {Key : Type} (evp : Evp Key) (env : Env Key) (image : List UInt8)

/-- `main`, in terms of the trailer. -/
theorem verifysig_eq :
    verifysig evp env image =
      if !env.opens then (5, image)
      else if magicOf env image ≠ sigMagic then (2, image)
      else
        match env.pubkey with
        | .missing => (7, image)
        | .unreadable => (8, image)
        | .key pkey =>
          if siglenOf env image = 0 ∨ siglenOf env image > evp.pkeySize pkey then (3, image)
          else if !env.sigbuf then (9, image)
          else if (signatureOf env image).length ≠ siglenOf env image then (10, image)
          else
            let data := strip (siglenOf env image) image
            if !env.inbuf then (13, data)
            else if env.readError then (14, data)
            else if evp.verifyFinal pkey (verifiedData env image) (signatureOf env image) = 1 then (0, data)
            else if evp.verifyFinal pkey (verifiedData env image) (signatureOf env image) = 0 then (1, data)
            else (3, data) := by
  have hseek := File.seekEnd_spec env.libc (6 + siglenOf env image) (@afterSiglen_spec Key env image).1
  have hlast := @File.fresh_fread _ env.libc image _ (siglenOf env image) hseek.1
  have hdata := @read_data Key env image _ hlast
  have hmagic : ((File.opened.seekEnd env.libc image 4).fread env.libc image 4).2 = afterMagic env image := rfl
  have hsiglen : (((afterMagic env image).seekEnd env.libc image 6).fread env.libc image 2).2 =
      afterSiglen env image := rfl
  unfold verifysig
  simp only [fread_magic, hmagic, fread_siglen, hsiglen, fread_signature, hdata]
  rfl

/-- The exit status is a documented one exactly when the image can be checked, and the trailer is
cut off exactly when it has been read. -/
theorem verifysig_spec :
    ((verifysig evp env image).1 ≤ 4 ↔ Checkable evp env image) ∧
      (Stripped evp env image → (verifysig evp env image).2 = strip (siglenOf env image) image) ∧
      (¬ Stripped evp env image → (verifysig evp env image).2 = image) := by
  rw [verifysig_eq]
  unfold Checkable Stripped
  -- the tests in their order; each one that fails leaves the image as it is
  cases hopens : env.opens with
  | false => simp
  | true =>
    by_cases hmagic : magicOf env image = sigMagic
    · cases hkey : env.pubkey with
      | missing => simp [hmagic]
      | unreadable => simp [hmagic]
      | key pkey =>
        by_cases hsane : SiglenSane evp env image pkey
        · have hcond : ¬ (siglenOf env image = 0 ∨ siglenOf env image > evp.pkeySize pkey) := by
            obtain ⟨hne, hle⟩ := hsane
            omega
          have hread := @length_signatureOf _ env image hsane.1
          simp only [Bool.not_true, Bool.false_eq_true, if_false, hmagic, ne_eq, not_true_eq_false,
            hcond, true_and, true_implies, Pubkey.key.injEq, exists_eq_left', hsane]
          cases env.sigbuf with
          | false => simp
          | true =>
            by_cases hr : SignatureReadable env image
            · rw [hread.2 hr]
              cases env.inbuf with
              | false => simp [hr]
              | true =>
                cases env.readError with
                | true => simp [hr]
                | false =>
                  simp only [Bool.not_true, Bool.false_eq_true, if_false, not_true_eq_false, hr,
                    and_self, iff_true, true_implies, false_implies]
                  split_ifs <;> simp
            · have hshort := mt hread.1 hr
              simp [hshort, hr]
        · have hcond : siglenOf env image = 0 ∨ siglenOf env image > evp.pkeySize pkey := by
            unfold SiglenSane at hsane
            omega
          simp [hmagic, hcond, hsane]
    · simp [hmagic]

end Status

end Firmware
end Askozia
