import Askozia.Zaphfc.Fifo

/-!
# Frames of the D channel

The card puts frames into the FIFO of the D channel. An interrupt takes at most one of them that is
long enough into a buffer, and hands 32 bytes of the buffer to DAHDI.

Main result: `delivers`.
-/

namespace Askozia
namespace Zaphfc

open Cyclic

/-! ## Frames in the FIFO -/

/-- The frames from number `f` and position `z` on: each has its last byte at the `z1` of its number.
The last byte of a frame is its status. -/
def FramesAt (l : Layout) (mem : ℕ → UInt8) (z1 : ℕ → ℕ) (f1 : ℕ) : ℕ → ℕ → List (List UInt8) → Prop
  | f, _, [] => f = f1
  | f, z, x :: xs => f ≠ f1 ∧ x ≠ [] ∧ x.length ≤ l.fifoSize ∧
      z1 f = l.circle.after z (x.length - 1) ∧ l.circle.read mem z x.length = x ∧
      FramesAt l mem z1 f1 (fInc l f 1) (l.circle.after z x.length) xs

/-- The frames that wait for the driver. -/
def Holds (c : Simplex) (xs : List (List UInt8)) : Prop :=
  c.Wf ∧ FramesAt c.layout c.mem c.z1 c.f1 c.f2 (c.z2 c.f2) xs

section Frames

variable {c : Simplex} {x : List UInt8} {xs : List (List UInt8)}

/-- A frame counter stays in its range. -/
theorem fInc_mem {l : Layout} {f : ℕ} (h : l.fMin ≤ f ∧ f ≤ l.fMax) :
    l.fMin ≤ fInc l f 1 ∧ fInc l f 1 ≤ l.fMax := by
  have hle := l.fMin_le
  have hlt := l.fMax_lt
  have hnum : l.fNum = l.fMax - l.fMin + 1 := rfl
  unfold fInc
  dsimp only
  split_ifs <;> omega

/-- The FIFO has frames if it holds any. -/
theorem Holds.hasFrames (h : Holds c (x :: xs)) : c.f1 ≠ c.f2 := fun heq => h.2.1 heq.symm

/-- It has none if it holds none. -/
theorem Holds.hasFrames_nil (h : Holds c []) : hfcFifoHasFrames c = false := by
  have heq : c.f2 = c.f1 := h.2
  unfold hfcFifoHasFrames
  rw [heq, bne_self_eq_false]

/-- No frame is empty. -/
theorem Holds.length_pos (h : Holds c (x :: xs)) : 0 < x.length := List.length_pos_iff.2 h.2.2.1

/-- The bytes in use are those of the first frame, less one. -/
theorem Holds.used (h : Holds c (x :: xs)) : hfcFifoUsedRx c = x.length - 1 := by
  have hpos := h.length_pos
  obtain ⟨hw, -, -, hlen, hlast, -⟩ := h
  unfold hfcFifoUsedRx
  rw [usedBytes_eq (hw.z1_mem _) (hw.z2_mem _), hlast]
  apply Circle.gap_after (hw.z2_mem _)
  show x.length - 1 < c.layout.fifoSize
  omega

/-- So its size is its length. -/
theorem Holds.frameSize (h : Holds c (x :: xs)) : hfcFifoGetFrameSize c = x.length := by
  have hpos := h.length_pos
  unfold hfcFifoGetFrameSize
  rw [h.used]
  omega

/-- The FIFO without its first frame, whatever the statistics are. -/
theorem Holds.next (h : Holds c (x :: xs)) {c' : Simplex} (hlayout : c'.layout = c.layout)
    (hmem : c'.mem = c.mem) (hz1 : c'.z1 = c.z1) (hf1 : c'.f1 = c.f1)
    (hf2 : c'.f2 = fInc c.layout c.f2 1) (hz2 : c'.z2 = Function.update c.z2 (fInc c.layout c.f2 1)
      (zInc c.layout (c.z2 c.f2) x.length)) : Holds c' xs := by
  obtain ⟨hw, -, -, hlen, -, -, hrest⟩ := h
  have hpos : c'.z2 c'.f2 = c.layout.circle.after (c.z2 c.f2) x.length := by
    rw [hz2, hf2, Function.update_self, zInc_eq (hw.z2_mem _) hlen]
  refine ⟨⟨?_, ?_, ?_, fun f => ?_⟩, ?_⟩
  · rw [hlayout, hf1]
    exact hw.f1_mem
  · rw [hlayout, hf2]
    exact fInc_mem hw.f2_mem
  · rw [hlayout, hz1]
    exact hw.z1_mem
  · rcases eq_or_ne f c'.f2 with rfl | hf
    · rw [hlayout, hpos]
      exact Circle.has_after (hw.z2_mem _) hlen
    · rw [hlayout, hz2, Function.update_of_ne (by rw [← hf2]; exact hf)]
      exact hw.z2_mem f
  · rw [hpos, hlayout, hmem, hz1, hf1, hf2]
    exact hrest

/-- Dropping a frame leaves the others. -/
theorem Holds.dropFrame (h : Holds c (x :: xs)) : Holds (hfcFifoDropFrame c) xs := by
  have hpos := h.length_pos
  have hsize : hfcFifoUsedRx c + 1 = x.length := h.frameSize
  unfold hfcFifoDropFrame
  rw [if_neg h.hasFrames]
  exact h.next rfl rfl rfl rfl rfl (by rw [hsize])

/-- A frame is copied and taken out, whether its status is right or not; the result tells. -/
theorem Holds.getFrame (h : Holds c (x :: xs)) {maxSize : ℕ} (hmax : maxSize ≤ x.length) :
    (hfcFifoGetFrame c maxSize).1 = (if x.getLast? = some 0 then (x.length : ℤ) else -1, x.take maxSize) ∧
      Holds (hfcFifoGetFrame c maxSize).2 xs := by
  have hpos := h.length_pos
  have hsize := h.frameSize
  have hframe := h.2.2.2.2.2.1
  have hlen : x.length ≤ c.layout.fifoSize := h.2.2.2.1
  have hz := h.1.z2_mem c.f2
  -- the status is the last byte of a frame
  have hstatus : x.getLast? = some (c.mem (zInc c.layout (c.z2 c.f2) (x.length - 1))) := by
    rw [zInc_eq hz (by omega), List.getLast?_eq_getElem?]
    conv_lhs => rw [← hframe]
    rw [Circle.length_read, Circle.getElem?_read (by omega)]
  have hdata : ∀ n ≤ x.length, hfcFifoMemRead { c with bytes := c.bytes + .ofNat (x.length - 1) }
      (c.z2 c.f2) n = x.take n := by
    intro n hn
    refine (hfcFifoMemRead_eq hz (Nat.le_trans hn hlen)).trans ?_
    show c.layout.circle.read c.mem (c.z2 c.f2) n = _
    rw [← Circle.take_read hn, hframe]
  have hmin : (if x.length < maxSize then x.length else maxSize) = maxSize := if_neg (Nat.not_lt.2 hmax)
  unfold hfcFifoGetFrame
  rw [if_neg h.hasFrames]
  dsimp only
  rw [hsize, hmin, hdata maxSize hmax, hstatus]
  split_ifs with hbad hgood hgood
  · exact absurd (Option.some.inj hgood) hbad
  · refine ⟨rfl, ?_⟩
    exact Holds.dropFrame (c := { c with bytes := _, crc := c.crc + 1 }) ⟨⟨h.1.f1_mem, h.1.f2_mem, h.1.z1_mem,
      h.1.z2_mem⟩, h.2⟩
  · exact ⟨rfl, h.next rfl rfl rfl rfl rfl rfl⟩
  · exact absurd (congrArg some (not_not.1 hbad)) hgood

end Frames

/-! ## The interrupt -/

/-- The D channel of a card, receiving: the FIFO, `ugly_framebuf` with its size and the offset up to
which it has been handed over. `zaptel` is `open_by_zaptel`. -/
structure Receiver where
  rx : Simplex
  zaptel : Bool
  frameBuf : ℕ → UInt8
  frameSize : ℕ
  frameOff : ℕ

/-- What DAHDI is called with. -/
inductive Handed
  | putbuf (bytes : List UInt8)
  | finish
deriving DecidableEq

/-- The loop of `hfc_frame_arrived`. `skb` tells for each round whether `dev_alloc_skb` succeeds.
The frame is in the buffer also if `hfc_fifo_get_frame` fails. -/
def frameArrivedLoop (skb : ℕ → Bool) : ℕ → Receiver → Receiver
  | 0, r => r
  | antiloop + 1, r =>
    if hfcFifoHasFrames r.rx then
      let frameSize := hfcFifoGetFrameSize r.rx
      -- nothing but the checksum and the status
      if frameSize ≤ 3 then
        frameArrivedLoop skb antiloop { r with rx := hfcFifoDropFrame r.rx }
      -- the buffer still holds a frame, so this one stays in the FIFO
      else if r.zaptel && r.frameSize != 0 then r
      -- without memory the frame is lost
      else if !skb antiloop then
        frameArrivedLoop skb antiloop { r with rx := hfcFifoDropFrame r.rx }
      else if r.zaptel then
        let got := hfcFifoGetFrame r.rx (frameSize - 1)
        frameArrivedLoop skb antiloop { r with
          frameSize := frameSize - 1, rx := got.2, frameBuf := copyIn r.frameBuf 0 got.1.2 }
      else frameArrivedLoop skb antiloop { r with rx := (hfcFifoGetFrame r.rx (frameSize - 3)).2 }
    else r

/-- `hfc_frame_arrived`. `antiloop` starts with 16 and is counted down before each round. -/
def hfcFrameArrived (skb : ℕ → Bool) (r : Receiver) : Receiver := frameArrivedLoop skb 15 r

/-- How many bytes are handed over at once (`hfc_HDLC_BUF_LEN`). -/
def hfcHdlcBufLen : ℕ := 32

/-- The part of `hfc_handle_voice` about received frames. -/
def handleFrames (skb : ℕ → Bool) (r : Receiver) : List Handed × Receiver :=
  let r := if hfcFifoHasFrames r.rx then hfcFrameArrived skb r else r
  if r.frameSize != 0 then
    let frameLeft := r.frameSize - r.frameOff
    if frameLeft > hfcHdlcBufLen then
      ([.putbuf (copyOut r.frameBuf r.frameOff hfcHdlcBufLen)],
        { r with frameOff := (r.frameOff + hfcHdlcBufLen) % 2 ^ 16 })
    else
      ([.putbuf (copyOut r.frameBuf r.frameOff frameLeft), .finish],
        { r with frameSize := 0, frameOff := 0 })
  else ([], r)

/-- The frames that DAHDI has, and the beginning of the next. -/
def assemble : List UInt8 → List Handed → List (List UInt8) × List UInt8
  | part, [] => ([], part)
  | part, .putbuf bytes :: hs => assemble (part ++ bytes) hs
  | part, .finish :: hs => (part :: (assemble [] hs).1, (assemble [] hs).2)

/-- Pieces are put together in two runs. -/
theorem assemble_append (part : List UInt8) (hs hs' : List Handed) :
    assemble part (hs ++ hs') = ((assemble part hs).1 ++ (assemble (assemble part hs).2 hs').1,
      (assemble (assemble part hs).2 hs').2) := by
  induction hs generalizing part with
  | nil => rfl
  | cons h hs ih =>
    cases h with
    | putbuf bytes => exact ih (part ++ bytes)
    | finish =>
      show (part :: (assemble [] (hs ++ hs')).1, (assemble [] (hs ++ hs')).2) = _
      rw [ih]
      rfl

/-! ## Runs -/

/-- The card puts a frame behind the others. -/
def Arrives (c c' : Simplex) (x : List UInt8) : Prop := ∀ xs, Holds c xs → Holds c' (xs ++ [x])

/-- A run of interrupts, between which frames arrive: all that have arrived, what `dev_alloc_skb` did
in each interrupt and what was handed over. -/
inductive Run (r : Receiver) : List (List UInt8) → List (ℕ → Bool) → List Handed → Receiver → Prop
  | start : Run r [] [] [] r
  | arrive {xs skbs hs r' x c} : Run r xs skbs hs r' → Arrives r'.rx c x →
      Run r (xs ++ [x]) skbs hs { r' with rx := c }
  | interrupt {xs skbs hs r'} (skb : ℕ → Bool) : Run r xs skbs hs r' →
      Run r xs (skbs ++ [skb]) (hs ++ (handleFrames skb r').1) (handleFrames skb r').2

/-- What DAHDI gets of frames: those of more than three bytes, without the status. -/
def payloads (xs : List (List UInt8)) : List (List UInt8) :=
  (xs.filter fun x => 3 < x.length).map List.dropLast

/-- The frame in the buffer. -/
def pending (r : Receiver) : List (List UInt8) :=
  if r.frameSize = 0 then [] else [copyOut r.frameBuf 0 r.frameSize]

section Receiving

variable {r : Receiver} {x : List UInt8} {xs : List (List UInt8)} {skb : ℕ → Bool}

/-- What is copied out can be copied out in two parts. -/
theorem copyOut_add {m : ℕ → UInt8} {a j k : ℕ} :
    copyOut m a (j + k) = copyOut m a j ++ copyOut m (a + j) k := by
  unfold copyOut
  rw [List.range_add, List.map_append, List.map_map]
  congr 1
  apply List.map_congr_left
  intro i _
  rw [Function.comp_apply, Nat.add_assoc]

/-- What was copied in is copied out. -/
theorem copyOut_copyIn (m : ℕ → UInt8) (data : List UInt8) :
    copyOut (copyIn m 0 data) 0 data.length = data := by
  apply List.ext_getElem
  · simp [copyOut]
  · intro i hi hi'
    have hget := copyIn_add (m := m) (z := 0) hi'
    simp only [copyOut, List.getElem_map, List.getElem_range]
    rw [hget]
    simp [hi']

/-- A frame of at most three bytes is not handed on. -/
theorem payloads_cons_short (h : x.length ≤ 3) : payloads (x :: xs) = payloads xs := by
  unfold payloads
  rw [List.filter_cons_of_neg (by simpa using h)]

/-- Any other is, without its last byte. -/
theorem payloads_cons_long (h : 3 < x.length) : payloads (x :: xs) = x.dropLast :: payloads xs := by
  unfold payloads
  rw [List.filter_cons_of_pos (by simpa using h), List.map_cons]

/-- The last of some frames. -/
theorem payloads_append : payloads (xs ++ [x]) = payloads xs ++ payloads [x] := by
  unfold payloads
  rw [List.filter_append, List.map_append]

/-- A state of the receiver between interrupts: the frames that wait, and the buffer, of which less
than all has been handed over. -/
structure Ready (r : Receiver) (xs : List (List UInt8)) : Prop where
  zaptel : r.zaptel = true
  holds : Holds r.rx xs
  frameSize_le : r.frameSize < 2 ^ 15
  frameOff_lt : r.frameSize = 0 ∧ r.frameOff = 0 ∨ r.frameOff < r.frameSize

/-- How many bytes are still to be handed over or dropped. -/
def left (r : Receiver) (xs : List (List UInt8)) : ℕ :=
  (r.frameSize - r.frameOff) + (xs.map List.length).sum

/-- What is left counts every frame. -/
theorem left_cons : left r (x :: xs) = left r xs + x.length := by
  unfold left
  rw [List.map_cons, List.sum_cons]
  omega

/-- Frames are taken out of the FIFO and nothing is handed over: those of at most three bytes are dropped, and
if there is memory for the others they go into the buffer. -/
structure TakesOut (skb : ℕ → Bool) (r : Receiver) (xs : List (List UInt8)) (r' : Receiver)
    (ys : List (List UInt8)) : Prop where
  ready : Ready r' ys
  frameOff : r'.frameOff = r.frameOff
  handed : copyOut r'.frameBuf 0 r.frameOff = copyOut r.frameBuf 0 r.frameOff
  sublist : (pending r' ++ payloads ys).Sublist (pending r ++ payloads xs)
  whole : (∀ k, skb k = true) → pending r' ++ payloads ys = pending r ++ payloads xs
  left_le : left r' ys ≤ left r xs

/-- Doing nothing takes out nothing. -/
theorem TakesOut.refl (h : Ready r xs) : TakesOut skb r xs r xs :=
  ⟨h, rfl, rfl, .refl _, fun _ => rfl, Nat.le_refl _⟩

/-- Two runs take out what both do. -/
theorem TakesOut.trans {r' r'' : Receiver} {ys zs : List (List UInt8)} (h₁ : TakesOut skb r xs r' ys)
    (h₂ : TakesOut skb r' ys r'' zs) : TakesOut skb r xs r'' zs where
  ready := h₂.ready
  frameOff := h₂.frameOff.trans h₁.frameOff
  handed := by
    have hsame := h₂.handed
    rw [h₁.frameOff] at hsame
    exact hsame.trans h₁.handed
  sublist := h₂.sublist.trans h₁.sublist
  whole := fun hall => (h₂.whole hall).trans (h₁.whole hall)
  left_le := Nat.le_trans h₂.left_le h₁.left_le

/-- Dropping a frame leaves less. -/
theorem left_dropFrame (h : Ready r (x :: xs)) :
    left { r with rx := hfcFifoDropFrame r.rx } xs < left r (x :: xs) := by
  rw [left_cons]
  exact Nat.lt_add_of_pos_right h.holds.length_pos

/-- A frame is dropped that is too short, or that there is no memory for. -/
theorem takesOut_dropFrame (h : Ready r (x :: xs)) (hdropped : x.length ≤ 3 ∨ ∃ k, skb k = false) :
    TakesOut skb r (x :: xs) { r with rx := hfcFifoDropFrame r.rx } xs where
  ready := ⟨h.zaptel, h.holds.dropFrame, h.frameSize_le, h.frameOff_lt⟩
  frameOff := rfl
  handed := rfl
  sublist := by
    refine (List.Sublist.refl (pending r)).append ?_
    rcases Nat.lt_or_ge 3 x.length with hlong | hshort
    · rw [payloads_cons_long hlong]
      exact List.sublist_cons_self _ _
    · rw [payloads_cons_short hshort]
  whole := by
    intro hall
    rcases hdropped with hshort | ⟨k, hk⟩
    · rw [payloads_cons_short hshort]
      rfl
    · rw [hall k] at hk
      cases hk
  left_le := Nat.le_of_lt (left_dropFrame h)

/-- The first frame is taken into the buffer. -/
def takeFrame (r : Receiver) (x : List UInt8) : Receiver :=
  { r with
    frameSize := x.length - 1
    rx := (hfcFifoGetFrame r.rx (x.length - 1)).2
    frameBuf := copyIn r.frameBuf 0 (hfcFifoGetFrame r.rx (x.length - 1)).1.2 }

/-- So does taking a piece of one. -/
theorem left_takeFrame (h : Ready r (x :: xs)) : left (takeFrame r x) xs < left r (x :: xs) := by
  have hpos := h.holds.length_pos
  rw [left_cons]
  unfold left takeFrame
  dsimp only
  omega

/-- The buffer takes a frame, when there is nothing in it. -/
theorem takesOut_takeFrame (h : Ready r (x :: xs)) (hempty : r.frameSize = 0) (hlong : 3 < x.length) :
    TakesOut skb r (x :: xs) (takeFrame r x) xs := by
  have hoff : r.frameOff = 0 := by
    have hlt := h.frameOff_lt
    omega
  have hlen : x.length ≤ r.rx.layout.fifoSize := h.holds.2.2.2.1
  have hsize := r.rx.layout.fifoSize_le
  obtain ⟨hgot, hrest⟩ := h.holds.getFrame (Nat.sub_le x.length 1)
  have hdata : (hfcFifoGetFrame r.rx (x.length - 1)).1.2 = x.dropLast := by
    rw [hgot, List.dropLast_eq_take]
  have hready : Ready (takeFrame r x) xs := by
    refine ⟨h.zaptel, hrest, ?_, .inr ?_⟩
    · show x.length - 1 < 2 ^ 15
      omega
    · show r.frameOff < x.length - 1
      omega
  have hpending : pending (takeFrame r x) ++ payloads xs = pending r ++ payloads (x :: xs) := by
    have hcopy := copyOut_copyIn r.frameBuf x.dropLast
    rw [List.length_dropLast] at hcopy
    unfold pending takeFrame
    dsimp only
    rw [hdata, if_neg (by omega), if_pos hempty, hcopy, payloads_cons_long hlong]
    rfl
  refine ⟨hready, rfl, ?_, by rw [hpending], fun _ => hpending, Nat.le_of_lt (left_takeFrame h)⟩
  rw [hoff]
  rfl

/-- Frames are taken out of the FIFO: those that are too short are dropped, and one is taken into an
empty buffer. -/
theorem frameArrivedLoop_takesOut (n : ℕ) (h : Ready r xs) :
    ∃ ys, TakesOut skb r xs (frameArrivedLoop skb n r) ys ∧
      (n = 0 ∨ left (frameArrivedLoop skb n r) ys < left r xs ∨
        (frameArrivedLoop skb n r).frameSize ≠ 0 ∨ ys = []) := by
  induction n generalizing r xs with
  | zero => exact ⟨xs, .refl h, .inl rfl⟩
  | succ n ih =>
    -- a round that takes a frame out, and those after it
    have hround : ∀ {r' : Receiver} {ys : List (List UInt8)} {P : Prop}, TakesOut skb r xs r' ys →
        left r' ys < left r xs → ∃ zs, TakesOut skb r xs (frameArrivedLoop skb n r') zs ∧
          (P ∨ left (frameArrivedLoop skb n r') zs < left r xs ∨
            (frameArrivedLoop skb n r').frameSize ≠ 0 ∨ zs = []) := by
      intro r' ys P hout hless
      obtain ⟨zs, hrest, -⟩ := ih hout.ready
      exact ⟨zs, hout.trans hrest, .inr (.inl (Nat.lt_of_le_of_lt hrest.left_le hless))⟩
    cases xs with
    | nil =>
      have hstop : frameArrivedLoop skb (n + 1) r = r := by
        rw [frameArrivedLoop, if_neg (by rw [h.holds.hasFrames_nil]; exact Bool.false_ne_true)]
      rw [hstop]
      exact ⟨[], .refl h, .inr (.inr (.inr rfl))⟩
    | cons x xs =>
      have hhas : hfcFifoHasFrames r.rx = true := by
        unfold hfcFifoHasFrames
        exact bne_iff_ne.2 h.holds.hasFrames
      rw [frameArrivedLoop, if_pos hhas]
      dsimp only
      rw [h.holds.frameSize]
      split_ifs with hshort hbusy hskb hzaptel
      · exact hround (takesOut_dropFrame h (.inl hshort)) (left_dropFrame h)
      · have hsome : r.frameSize ≠ 0 := by
          rw [h.zaptel, Bool.true_and] at hbusy
          simpa using hbusy
        exact ⟨x :: xs, .refl h, .inr (.inr (.inl hsome))⟩
      · -- the frame for which there is no memory is lost
        exact hround (takesOut_dropFrame h (.inr ⟨n, by simpa using hskb⟩)) (left_dropFrame h)
      · have hempty : r.frameSize = 0 := by
          rw [h.zaptel, Bool.true_and] at hbusy
          simpa using hbusy
        exact hround (takesOut_takeFrame h hempty (Nat.not_le.1 hshort)) (left_takeFrame h)
      · exact absurd h.zaptel hzaptel

/-- So it is in an interrupt, before anything is handed over. -/
theorem hfcFrameArrived_takesOut (skb : ℕ → Bool) (h : Ready r xs) :
    ∃ ys, TakesOut skb r xs (if hfcFifoHasFrames r.rx then hfcFrameArrived skb r else r) ys ∧
      (left (if hfcFifoHasFrames r.rx then hfcFrameArrived skb r else r) ys < left r xs ∨
        (if hfcFifoHasFrames r.rx then hfcFrameArrived skb r else r).frameSize ≠ 0 ∨ ys = []) := by
  split_ifs with hhas
  · obtain ⟨ys, hout, hless⟩ := frameArrivedLoop_takesOut 15 h
    exact ⟨ys, hout, hless.resolve_left (by decide)⟩
  · refine ⟨xs, .refl h, .inr (.inr ?_)⟩
    cases xs with
    | nil => rfl
    | cons x xs => exact absurd (bne_iff_ne.2 h.holds.hasFrames) hhas

/-- What an interrupt hands over continues what DAHDI has of the frame in the buffer. -/
theorem handleFrames_ready (skb : ℕ → Bool) (h : Ready r xs) : ∃ ys, Ready (handleFrames skb r).2 ys ∧
    (assemble (copyOut r.frameBuf 0 r.frameOff) (handleFrames skb r).1).2 =
      copyOut (handleFrames skb r).2.frameBuf 0 (handleFrames skb r).2.frameOff ∧
    ((assemble (copyOut r.frameBuf 0 r.frameOff) (handleFrames skb r).1).1 ++
      (pending (handleFrames skb r).2 ++ payloads ys)).Sublist (pending r ++ payloads xs) ∧
    ((∀ k, skb k = true) →
      (assemble (copyOut r.frameBuf 0 r.frameOff) (handleFrames skb r).1).1 ++
        (pending (handleFrames skb r).2 ++ payloads ys) = pending r ++ payloads xs) ∧
    (left (handleFrames skb r).2 ys < left r xs ∨ (handleFrames skb r).2.frameSize = 0 ∧ ys = []) := by
  obtain ⟨ys, ⟨hready, hoff, hbuf, hsub, heq, hle⟩, hless⟩ := hfcFrameArrived_takesOut skb h
  unfold handleFrames
  dsimp only
  generalize (if hfcFifoHasFrames r.rx then hfcFrameArrived skb r else r) = r₁ at *
  rw [← hbuf, ← hoff]
  have hoff_lt := hready.frameOff_lt
  have hlt := hready.frameSize_le
  split_ifs with hsome hleft
  · -- a part of the frame
    have hmod : (r₁.frameOff + hfcHdlcBufLen) % 2 ^ 16 = r₁.frameOff + hfcHdlcBufLen :=
      Nat.mod_eq_of_lt (by unfold hfcHdlcBufLen at *; omega)
    refine ⟨ys, ⟨hready.zaptel, hready.holds, hlt, ?_⟩, ?_, hsub, heq, .inl ?_⟩
    · right
      show (r₁.frameOff + hfcHdlcBufLen) % 2 ^ 16 < r₁.frameSize
      omega
    · show copyOut r₁.frameBuf 0 r₁.frameOff ++ copyOut r₁.frameBuf r₁.frameOff hfcHdlcBufLen =
        copyOut r₁.frameBuf 0 ((r₁.frameOff + hfcHdlcBufLen) % 2 ^ 16)
      rw [hmod, copyOut_add, Nat.zero_add]
    · refine Nat.lt_of_lt_of_le ?_ hle
      unfold left hfcHdlcBufLen at *
      dsimp only
      omega
  · -- the end of the frame
    have hne : r₁.frameSize ≠ 0 := by simpa using hsome
    have hwhole : copyOut r₁.frameBuf 0 r₁.frameOff ++
        copyOut r₁.frameBuf r₁.frameOff (r₁.frameSize - r₁.frameOff) =
          copyOut r₁.frameBuf 0 r₁.frameSize := by
      have hle : r₁.frameOff ≤ r₁.frameSize := by omega
      conv_rhs => rw [← Nat.add_sub_cancel' hle, copyOut_add, Nat.zero_add]
    have hpending : pending r₁ = [copyOut r₁.frameBuf 0 r₁.frameSize] := if_neg hne
    rw [hpending] at hsub heq
    refine ⟨ys, ⟨hready.zaptel, hready.holds, by show 0 < 2 ^ 15; omega, .inl ⟨rfl, rfl⟩⟩, rfl, ?_, ?_,
      .inl (Nat.lt_of_lt_of_le ?_ hle)⟩
    · show ([copyOut r₁.frameBuf 0 r₁.frameOff ++ _] ++ ([] ++ payloads ys)).Sublist _
      rw [hwhole]
      exact hsub
    · intro hall
      show [copyOut r₁.frameBuf 0 r₁.frameOff ++ _] ++ ([] ++ payloads ys) = _
      rw [hwhole]
      exact heq hall
    · unfold left
      dsimp only
      omega
  · -- nothing is in the buffer, so that nothing is handed over
    have hnone : r₁.frameSize = 0 := by simpa using hsome
    refine ⟨ys, hready, rfl, hsub, heq, ?_⟩
    rcases hless with hless | hne | hys
    · exact .inl hless
    · exact absurd hnone hne
    · exact .inr ⟨hnone, hys⟩

/-- A frame that arrives finds the receiver ready. -/
theorem Ready.arrive (h : Ready r xs) {c : Simplex} (hc : Arrives r.rx c x) :
    Ready { r with rx := c } (xs ++ [x]) :=
  ⟨h.zaptel, hc xs h.holds, h.frameSize_le, h.frameOff_lt⟩

/-- In every run, the frames that DAHDI has got, the one in the buffer and those in the FIFO are
frames that have arrived, in their order and each once. Frames of at most three bytes are left out,
and frames for which there was no memory; if there always was, all others are there. The status of a
frame makes no difference: a frame that the card has found broken is handed over like the others. -/
theorem delivers {r' : Receiver} {skbs : List (ℕ → Bool)} {hs : List Handed} (h : Ready r [])
    (hidle : r.frameSize = 0) (hrun : Run r xs skbs hs r') : ∃ ys, Holds r'.rx ys ∧
      (assemble [] hs).2 = copyOut r'.frameBuf 0 r'.frameOff ∧
      ((assemble [] hs).1 ++ (pending r' ++ payloads ys)).Sublist (payloads xs) ∧
      ((∀ skb ∈ skbs, ∀ k, skb k = true) →
        (assemble [] hs).1 ++ (pending r' ++ payloads ys) = payloads xs) := by
  suffices hinv : ∃ ys, Ready r' ys ∧ (assemble [] hs).2 = copyOut r'.frameBuf 0 r'.frameOff ∧
      ((assemble [] hs).1 ++ (pending r' ++ payloads ys)).Sublist (payloads xs) ∧
      ((∀ skb ∈ skbs, ∀ k, skb k = true) →
        (assemble [] hs).1 ++ (pending r' ++ payloads ys) = payloads xs) by
    obtain ⟨ys, hready, hrest⟩ := hinv
    exact ⟨ys, hready.holds, hrest⟩
  -- what has been handed over ends with the beginning of the frame in the buffer
  induction hrun with
  | start =>
    have hoff : r.frameOff = 0 := by
      have hlt := h.frameOff_lt
      omega
    have hnone : pending r = [] := if_pos hidle
    rw [hnone, hoff]
    exact ⟨[], h, rfl, .refl _, fun _ => rfl⟩
  | @arrive xs skbs hs r' x c hrun hc ih =>
    obtain ⟨ys, hready, hpart, hsub, heq⟩ := ih
    refine ⟨ys ++ [x], hready.arrive hc, hpart, ?_, fun hall => ?_⟩
    · rw [payloads_append, payloads_append, ← List.append_assoc (pending _), ← List.append_assoc]
      exact hsub.append (.refl _)
    · rw [payloads_append, payloads_append, ← heq hall]
      show _ ++ (pending r' ++ _) = _
      rw [List.append_assoc, List.append_assoc]
  | @interrupt xs skbs hs r' skb hrun ih =>
    obtain ⟨ys, hready, hpart, hsub, heq⟩ := ih
    obtain ⟨zs, hready', hpart', hsub', heq', -⟩ := handleFrames_ready skb hready
    rw [assemble_append, hpart]
    refine ⟨zs, hready', hpart', ?_, fun hall => ?_⟩
    · rw [List.append_assoc]
      exact ((List.Sublist.refl _).append hsub').trans hsub
    · rw [List.append_assoc, heq' (hall skb (List.mem_append_right _ List.mem_cons_self))]
      exact heq fun s hs' => hall s (List.mem_append_left _ hs')

end Receiving

/-- The D channel before anything arrives. -/
def emptyReceiver : Receiver := ⟨emptySimplex dLayout, true, fun _ => 0, 0, 0⟩

/-- An empty receiver is ready. -/
theorem ready_emptyReceiver : Ready emptyReceiver [] :=
  ⟨rfl, ⟨wf_emptySimplex dLayout, rfl⟩, by decide, .inl ⟨rfl, rfl⟩⟩

/-- A frame with the bytes 1 and 2, two bytes of the checksum and the status. -/
def oneFrame : Simplex :=
  { emptySimplex dLayout with
    mem := fun p => [1, 2, 9, 9, 0].getD p 0
    z1 := fun f => if f = 0x10 then 4 else 5
    f1 := 0x11 }

/-- The bytes of the frame, with its checksum and its status. -/
theorem arrives_oneFrame : Arrives emptyReceiver.rx oneFrame [1, 2, 9, 9, 0] := by
  intro xs hxs
  cases xs with
  | nil =>
    have hzero : dLayout.circle.Has 0 := ⟨by decide, by decide⟩
    refine ⟨⟨by decide, by decide, fun f => ?_, fun _ => hzero⟩, by decide, by decide, by decide,
      by decide, by decide, ?_⟩
    · show dLayout.circle.Has (if f = 0x10 then 4 else 5)
      split_ifs <;> exact ⟨by decide, by decide⟩
    · show fInc dLayout 0x10 1 = 0x11
      decide
  | cons x xs => exact absurd rfl hxs.hasFrames

theorem delivers_oneFrame : ∃ ys, Holds (handleFrames (fun _ => true)
    { emptyReceiver with rx := oneFrame }).2.rx ys ∧ (assemble [] (handleFrames (fun _ => true)
      { emptyReceiver with rx := oneFrame }).1).1 ++ (pending (handleFrames (fun _ => true)
        { emptyReceiver with rx := oneFrame }).2 ++ payloads ys) = [[1, 2, 9, 9]] := by
  obtain ⟨ys, hholds, -, -, hall⟩ := delivers ready_emptyReceiver rfl
    (.interrupt (fun _ => true) (.arrive .start arrives_oneFrame))
  exact ⟨ys, hholds, hall fun skb hskb k => by rw [List.mem_singleton.1 hskb]⟩

section Draining

variable {r : Receiver} {xs : List (List UInt8)}

/-- Interrupts between which no frame arrives. -/
def interrupts : List (ℕ → Bool) → Receiver → List Handed × Receiver
  | [], r => ([], r)
  | skb :: skbs, r => ((handleFrames skb r).1 ++ (interrupts skbs (handleFrames skb r).2).1,
      (interrupts skbs (handleFrames skb r).2).2)

/-- After as many interrupts as there are bytes, nothing is left: DAHDI has the frame that was in the
buffer and those that were in the FIFO. -/
theorem drains {skbs : List (ℕ → Bool)} (h : Ready r xs) (hlen : left r xs ≤ skbs.length) :
    Holds (interrupts skbs r).2.rx [] ∧ (interrupts skbs r).2.frameSize = 0 ∧
      ((∀ skb ∈ skbs, ∀ k, skb k = true) →
        assemble (copyOut r.frameBuf 0 r.frameOff) (interrupts skbs r).1 =
          (pending r ++ payloads xs, [])) := by
  -- each interrupt leaves less to hand over, so there are enough of them
  induction skbs generalizing r xs with
  | nil =>
    have hlt := h.frameOff_lt
    have hnil : xs = [] := by
      cases xs with
      | nil => rfl
      | cons x xs =>
        have hpos := h.holds.length_pos
        rw [left_cons, List.length_nil] at hlen
        omega
    have hsize : r.frameSize = 0 ∧ r.frameOff = 0 := by
      unfold left at hlen
      rw [List.length_nil] at hlen
      omega
    have hnone : pending r = [] := if_pos hsize.1
    obtain rfl := hnil
    refine ⟨h.holds, hsize.1, fun _ => ?_⟩
    rw [hnone, hsize.2]
    rfl
  | cons skb skbs ih =>
    obtain ⟨ys, hready, hpart, -, heq, hless⟩ := handleFrames_ready skb h
    have hnext : left (handleFrames skb r).2 ys ≤ skbs.length := by
      rw [List.length_cons] at hlen
      rcases hless with hless | ⟨hnone, rfl⟩
      · omega
      · unfold left
        rw [hnone]
        simp
    obtain ⟨hholds, hsize, hall⟩ := ih hready hnext
    refine ⟨hholds, hsize, fun hskb => ?_⟩
    have hrest := hall fun s hs => hskb s (List.mem_cons_of_mem _ hs)
    show assemble _ ((handleFrames skb r).1 ++ (interrupts skbs (handleFrames skb r).2).1) = _
    rw [assemble_append, hpart, hrest, ← heq (hskb skb List.mem_cons_self)]

end Draining

theorem drains_oneFrame :
    (interrupts (List.replicate 5 fun _ => true) { emptyReceiver with rx := oneFrame }).2.frameSize = 0 ∧
      assemble [] (interrupts (List.replicate 5 fun _ => true)
        { emptyReceiver with rx := oneFrame }).1 = ([[1, 2, 9, 9]], []) := by
  obtain ⟨-, hsize, hall⟩ := @drains _ _ (List.replicate 5 fun _ => true)
    (ready_emptyReceiver.arrive arrives_oneFrame) (by decide)
  exact ⟨hsize, hall fun skb hskb k => by rw [List.eq_of_mem_replicate hskb]⟩

end Zaphfc
end Askozia
