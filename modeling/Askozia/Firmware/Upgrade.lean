import Askozia.Firmware.VerifySig
import Askozia.Php.Text

/-!
# The firmware page (`system_firmware.php`)

A request that uploads an image and asks for the upgrade is checked in several ways; when nothing
was found wrong, `rc.firmware upgrade` is started in the background. The signature check warns for
the exit statuses `1` to `4` of `verifysig` and takes any other for success.

* `gate_iff`: exactly which requests without `sig_override` start the upgrade only after
  `verifysig` has exited with `0`.
-/

namespace Askozia
namespace Firmware

open Php

/-! ## The request -/

/-- `chop($s)` -/
def chop (s : String) : String :=
  String.ofList (s.toList.rdropWhile (" \t\n\r\x00\x0b".toList.contains ·))

/-- `stristr($s, $needle)` as a condition; an empty needle is not found. -/
def stristr (s needle : String) : Bool :=
  needle != "" && strstr (strtolower s) (strtolower needle)

/-- The posted fields. -/
structure Post where
  /-- `Submit` is set. -/
  submitted : Bool
  submit : String
  sigOverride : Bool
  /-- `$_FILES['ulfile']['tmp_name']` has a length. -/
  hasFile : Bool
  /-- `is_uploaded_file` -/
  isUploadedFile : Bool
  /-- The name the file had. -/
  name : String
  /-- The file is still there. -/
  fileExists : Bool
  image : List UInt8

/-- What the page uses of the system. -/
structure System (Key : Type) where
  platform : String
  /-- The content of `firmwarepattern`. -/
  pattern : String
  evp : Evp Key
  env : Env Key
  /-- `gunzip -t` succeeds. -/
  gunzip : List UInt8 → Bool

/-- What a request has led to. -/
structure Outcome where
  inputErrors : List String
  sigWarning : Option String
  /-- The exit status of `verifysig`, if it was run. -/
  sigchk : Option ℕ
  /-- `rc.firmware upgrade` was started. -/
  started : Bool
deriving DecidableEq, Repr

/-- The warning for an exit status of `verifysig`. -/
def sigWarning : ℕ → Option String
  | 1 => some "The digital signature on this image is invalid."
  | 2 => some "This image is not digitally signed."
  | 3 => some "There has been an error verifying the signature on this image."
  | 4 => some "There has been an error verifying the signature on this image."
  | _ => none

section Page

variable {Key : Type} (sys : System Key) (post : Post)

/-- The request asks for the upgrade. -/
def upgrading : Bool := post.hasFile && (post.submitted || post.sigOverride)

/-- The name of the file is accepted. -/
def nameAccepted : Bool :=
  !(post.submit.toList.getLast? != some '*' && !stristr post.name (chop sys.pattern) &&
    !post.sigOverride)

/-- The checks of an upgrade: errors, warning and the exit status of `verifysig`. -/
def sanityCheck : List String × Option String × Option ℕ :=
  if post.isUploadedFile then
    if !nameAccepted sys post then
      (["The uploaded image file is not for this platform (" ++ sys.platform ++ ")."], none, none)
    else if !post.fileExists then (["Image upload failed (out of memory?)"], none, none)
    else
      let (sigchk, file) := verifysig sys.evp sys.env post.image
      (if sys.gunzip file then [] else ["The image file is corrupt."], sigWarning sigchk, some sigchk)
  else ([], none, none)

/-- The request. -/
def firmwareUpgrade : Outcome :=
  if upgrading post then
    let (errors, warning, sigchk) := sanityCheck sys post
    { inputErrors := errors
      sigWarning := warning
      sigchk := sigchk
      started := errors.isEmpty && (warning.isNone || post.sigOverride) }
  else { inputErrors := [], sigWarning := none, sigchk := none, started := false }

/-! ## The gate -/

/-- The upgrade is started only after `verifysig` has exited with `0`. -/
def Gated : Prop :=
  (firmwareUpgrade sys post).started = true → (firmwareUpgrade sys post).sigchk = some 0

open Classical in
/-- What `verifysig` leaves of the image. -/
noncomputable def leftover : List UInt8 :=
  if Stripped sys.evp sys.env post.image then strip (siglenOf sys.env post.image) post.image
  else post.image

/-- The file comes from the request, and unless it is refused for another reason `verifysig` can
check it. -/
def Sound : Prop :=
  upgrading post = true → post.isUploadedFile = true ∧
    (nameAccepted sys post = true → post.fileExists = true →
      sys.gunzip (leftover sys post) = true → Checkable sys.evp sys.env post.image)

end Page

section Gate

variable {Key : Type} {sys : System Key} {post : Post}

theorem verifysig_leftover :
    (verifysig sys.evp sys.env post.image).2 = leftover sys post := by
  obtain ⟨-, hstrip, hkeep⟩ := verifysig_spec sys.evp sys.env post.image
  unfold leftover
  split_ifs with h
  · exact hstrip h
  · exact hkeep h

/-- Without a warning, a documented exit status is `0`. -/
theorem sigWarning_eq_none {n : ℕ} : sigWarning n = none ↔ n = 0 ∨ 4 < n := by
  match n with
  | 0 => simp [sigWarning]
  | 1 => simp [sigWarning]
  | 2 => simp [sigWarning]
  | 3 => simp [sigWarning]
  | 4 => simp [sigWarning]
  | n + 5 => simp [sigWarning]

/-- A request without `sig_override` passes the gate exactly when it is sound. -/
theorem gate_iff (h : post.sigOverride = false) : Gated sys post ↔ Sound sys post := by
  unfold Gated Sound firmwareUpgrade
  -- the tests of the page in their order; only the last two look at the image
  cases hup : upgrading post with
  | false => simp
  | true =>
    unfold sanityCheck
    cases hfile : post.isUploadedFile with
    | false => simp
    | true =>
      cases hname : nameAccepted sys post with
      | false => simp
      | true =>
        cases hexists : post.fileExists with
        | false => simp
        | true =>
          simp only [if_true, Bool.not_true, Bool.false_eq_true, if_false, true_implies, true_and]
          rw [verifysig_leftover, ← (verifysig_spec sys.evp sys.env post.image).1]
          cases hzip : sys.gunzip (leftover sys post) with
          | false => simp
          | true =>
            simp only [if_true, List.isEmpty_nil, h, Bool.or_false, Bool.true_and,
              Option.isNone_iff_eq_none, sigWarning_eq_none, Option.some.injEq, true_implies]
            omega

end Gate

/-! ## A trailer without a signature -/

/-- An empty gzip file. -/
def emptyGzip : List UInt8 :=
  [0x1f, 0x8b, 0x08, 0, 0, 0, 0, 0, 0, 0x03, 0x03, 0, 0, 0, 0, 0, 0, 0, 0, 0]

/-- A system in order, with a key of 1024 bits that has signed nothing. -/
def inOrder : System Unit where
  platform := "generic-pc"
  pattern := "pbx\n"
  evp := { pkeySize := fun _ => 128, verifyFinal := fun _ _ _ => 0 }
  env := { libc := glibc, opens := true, magic := [0, 0, 0, 0], siglen := [0, 0], pubkey := .key (), sigbuf := true,
           inbuf := true, readError := false }
  gunzip := fun file => emptyGzip.isPrefixOf file

/-- An upload of an image. -/
def upload (image : List UInt8) : Post where
  submitted := true
  submit := "Upgrade firmware"
  sigOverride := false
  hasFile := true
  isUploadedFile := true
  name := "pbx-2.2.img"
  fileExists := true
  image := image

/-- The magic number and a length, but no signature: reading it ends early, with status `10`. -/
theorem not_gated_of_short_trailer :
    ¬ Gated inOrder (upload (emptyGzip ++ [128, 0, 0xcb, 0x77, 0x4d, 0xe1])) := by
  intro h
  have hstarted := h (by decide)
  revert hstarted
  decide

/-- An image without the magic number is refused. -/
theorem gate_iff_unsigned : (upload emptyGzip).sigOverride = false ∧
    Gated inOrder (upload emptyGzip) := by
  refine ⟨rfl, (gate_iff rfl).2 fun _ => ⟨rfl, fun _ _ _ => ⟨rfl, fun hmagic => ?_⟩⟩⟩
  exact absurd hmagic (by decide)

end Firmware
end Askozia
