import Askozia.Cyclic.Buffer
import Mathlib.Data.UInt
import Mathlib.Logic.Function.Basic

/-!
# The FIFOs of the ISDN cards (`zaphfc/fifo.c`)

A channel has, in each direction, a circle of bytes on the card. Two counters `f1` and `f2` number
the frames that have been put in and fetched, and each number has its own pair of positions `z1` (of
the side that puts in) and `z2` (of the side that fetches). A channel of voice stays on one number.
-/

namespace Askozia
namespace Zaphfc

/-! ## Positions -/

/-- Where the FIFO of a channel lies (`hfc_probe`): `z_min`, `z_max`, `f_min` and `f_max`. The card
has 32 KiB, and the FIFO is larger than what `hfc_clear_fifo_tx` puts in; `chunk` is
`DAHDI_CHUNKSIZE`. -/
structure Layout where
  zMin : ℕ
  zMax : ℕ
  fMin : ℕ
  fMax : ℕ
  chunk : ℕ
  zMax_lt : zMax < 2 ^ 15
  fMin_le : fMin ≤ fMax
  fMax_lt : fMax < 2 ^ 8
  preload_lt : zMin + (2 * chunk + 6) ≤ zMax

/-- `fifo_size` -/
def Layout.fifoSize (l : Layout) : ℕ := l.zMax - l.zMin + 1

/-- `f_num` -/
def Layout.fNum (l : Layout) : ℕ := l.fMax - l.fMin + 1

/-- The bytes of the FIFO. -/
def Layout.circle (l : Layout) : Cyclic.Circle := ⟨l.zMin, l.fifoSize, Nat.succ_pos _⟩

/-- `Z_inc` -/
def zInc (l : Layout) (z inc : ℕ) : ℕ :=
  let newz := z + inc % 2 ^ 16
  (if newz > l.zMax then newz - l.fifoSize else newz) % 2 ^ 16

/-- `F_inc` -/
def fInc (l : Layout) (f inc : ℕ) : ℕ :=
  let newf := f + inc % 2 ^ 8
  (if newf > l.fMax then newf - l.fNum else newf) % 2 ^ 8

/-- `struct hfc_chan_simplex`: the memory from `z_base` on, the tables of positions, the counters of
frames and the statistics. `voice` says that the channel is `open_voice`. -/
structure Simplex where
  layout : Layout
  voice : Bool
  mem : ℕ → UInt8
  z1 : ℕ → ℕ
  z2 : ℕ → ℕ
  f1 : ℕ
  f2 : ℕ
  frames : UInt64
  bytes : UInt64
  fifoFull : UInt64
  crc : UInt64
  fifoUnderrun : UInt64

/-- `(z1 - z2 + fifo_size) % fifo_size`, as the `u16` that is returned. -/
def usedBytes (l : Layout) (z1 z2 : ℕ) : ℕ :=
  (((z1 : ℤ) - z2 + l.fifoSize).tmod l.fifoSize % 2 ^ 16).toNat

/-- `hfc_fifo_used_rx` -/
def hfcFifoUsedRx (c : Simplex) : ℕ := usedBytes c.layout (c.z1 c.f2) (c.z2 c.f2)

/-- `hfc_fifo_used_tx` -/
def hfcFifoUsedTx (c : Simplex) : ℕ := usedBytes c.layout (c.z1 c.f1) (c.z2 c.f1)

/-- `hfc_fifo_free_tx`. The difference is a `u16`, so that it is positive unless it is 0. -/
def hfcFifoFreeTx (c : Simplex) : ℕ :=
  let freeBytes := (((c.z2 c.f1 : ℤ) - c.z1 c.f1) % 2 ^ 16).toNat
  if freeBytes > 0 then freeBytes else (freeBytes + c.layout.fifoSize) % 2 ^ 16

/-- `hfc_fifo_get_frame_size` -/
def hfcFifoGetFrameSize (c : Simplex) : ℕ := hfcFifoUsedRx c + 1

/-- `hfc_fifo_has_frames` -/
def hfcFifoHasFrames (c : Simplex) : Bool := c.f1 != c.f2

/-! ## Bytes -/

/-- `memcpy` out of the card. -/
def copyOut (m : ℕ → UInt8) (a size : ℕ) : List UInt8 := (List.range size).map fun i => m (a + i)

/-- `memcpy` into the card. -/
def copyIn (m : ℕ → UInt8) (a : ℕ) (data : List UInt8) : ℕ → UInt8 := fun p =>
  if a ≤ p ∧ p < a + data.length then data.getD (p - a) 0 else m p

/-- `hfc_fifo_mem_read`. `fifo_base` is `z_min` bytes behind `z_base`. -/
def hfcFifoMemRead (c : Simplex) (zStart size : ℕ) : List UInt8 :=
  let bytesToBoundary := c.layout.zMax + 1 - zStart
  if bytesToBoundary ≥ size then copyOut c.mem zStart size
  else copyOut c.mem zStart bytesToBoundary ++ copyOut c.mem c.layout.zMin (size - bytesToBoundary)

/-- `hfc_fifo_mem_write` -/
def hfcFifoMemWrite (c : Simplex) (data : List UInt8) : Simplex :=
  let z1 := c.z1 c.f1
  let bytesToBoundary := c.layout.zMax + 1 - z1
  { c with mem :=
      if bytesToBoundary ≥ data.length then copyIn c.mem z1 data
      else copyIn (copyIn c.mem z1 (data.take bytesToBoundary)) c.layout.zMin (data.drop bytesToBoundary) }

/-- `hfc_clear_fifo_tx` for a channel that is not `open_voice`. -/
def resetTx (c : Simplex) : Simplex :=
  { c with f1 := c.f2, z1 := Function.update c.z1 c.f2 (c.z2 c.f2) }

/-- The bytes that `hfc_clear_fifo_tx` puts in for voice: 0x7f is mute audio. -/
def emptyFifo (l : Layout) : List UInt8 := List.replicate ((l.chunk + 2) + l.chunk + 4) 0x7f

/-- The end of `hfc_fifo_put`: the bytes are written and counted, and the position moves on. -/
def storeBytes (c : Simplex) (data : List UInt8) : Simplex :=
  let c := hfcFifoMemWrite c data
  { c with bytes := c.bytes + .ofNat data.length,
           z1 := Function.update c.z1 c.f1 (zInc c.layout (c.z1 c.f1) data.length) }

/-- The warning of `hfc_fifo_put` about an empty FIFO. -/
def noteEmpty (c : Simplex) : Simplex :=
  { c with fifoUnderrun := if hfcFifoUsedTx c = 0 then c.fifoUnderrun + 1 else c.fifoUnderrun }

/-- `hfc_fifo_put`. It calls `hfc_clear_fifo_tx`, which calls it again; the number says how many
times at most. A FIFO that has been cleared is not full, so that it is called again once. -/
def hfcFifoPut : ℕ → Simplex → List UInt8 → Simplex
  | calls, c, data =>
    let freeBytes := hfcFifoFreeTx c
    let c := noteEmpty c
    let c := if freeBytes < data.length then
        let c := resetTx { c with fifoFull := c.fifoFull + 1 }
        match calls with
        | 0 => c
        | calls + 1 => if c.voice then hfcFifoPut calls c (emptyFifo c.layout) else c
      else c
    storeBytes c data

/-- `hfc_fifo_get`: what is returned and the bytes that are copied to `data`. -/
def hfcFifoGet (c : Simplex) (size : ℕ) : (ℤ × List UInt8) × Simplex :=
  let c := { c with bytes := c.bytes + .ofNat size }
  let availableBytes := hfcFifoUsedRx c
  if availableBytes < size ∧ c.fifoUnderrun = 0 then
    ((-1, []), { c with fifoUnderrun := c.fifoUnderrun + 1 })
  else
    let c := { c with
      fifoUnderrun := if availableBytes < size then c.fifoUnderrun + 1 else c.fifoUnderrun }
    ((availableBytes - size, hfcFifoMemRead c (c.z2 c.f2) size),
      { c with z2 := Function.update c.z2 c.f2 (zInc c.layout (c.z2 c.f2) size) })

/-! ## Frames -/

/-- `hfc_fifo_drop_frame` -/
def hfcFifoDropFrame (c : Simplex) : Simplex :=
  if c.f1 = c.f2 then c
  else
    let newz2 := zInc c.layout (c.z2 c.f2) (hfcFifoUsedRx c + 1)
    let f2 := fInc c.layout c.f2 1
    { c with f2 := f2, z2 := Function.update c.z2 f2 newz2 }

/-- `hfc_fifo_get_frame`: what is returned and the bytes that are copied to `data`, which are copied
before the status is looked at. -/
def hfcFifoGetFrame (c : Simplex) (maxSize : ℕ) : (ℤ × List UInt8) × Simplex :=
  if c.f1 = c.f2 then ((-1, []), c)
  else
    let frameSize := hfcFifoGetFrameSize c
    let c := { c with bytes := c.bytes + .ofNat (frameSize - 1) }
    let newz2 := zInc c.layout (c.z2 c.f2) frameSize
    let data := hfcFifoMemRead c (c.z2 c.f2) (if frameSize < maxSize then frameSize else maxSize)
    if c.mem (zInc c.layout (c.z2 c.f2) (frameSize - 1)) ≠ 0 then
      ((-1, data), hfcFifoDropFrame { c with crc := c.crc + 1 })
    else
      let f2 := fInc c.layout c.f2 1
      ((frameSize, data),
        { c with frames := c.frames + 1, f2 := f2, z2 := Function.update c.z2 f2 newz2 })

/-! ## What the operations do -/

/-- The counters and the positions are in their ranges. -/
structure Simplex.Wf (c : Simplex) : Prop where
  f1_mem : c.layout.fMin ≤ c.f1 ∧ c.f1 ≤ c.layout.fMax
  f2_mem : c.layout.fMin ≤ c.f2 ∧ c.f2 ≤ c.layout.fMax
  z1_mem : ∀ f, c.layout.circle.Has (c.z1 f)
  z2_mem : ∀ f, c.layout.circle.Has (c.z2 f)

/-- The FIFO of a B channel (`hfc_probe`), for a chunk of 8 bytes. -/
def bLayout : Layout := ⟨0x0200, 0x1FFF, 0x00, 0x1F, 8, by decide, by decide, by decide, by decide⟩

/-- The FIFO of the D channel. -/
def dLayout : Layout := ⟨0x0000, 0x01FF, 0x10, 0x1F, 8, by decide, by decide, by decide, by decide⟩

/-- A FIFO with nothing in it. -/
def emptySimplex (l : Layout) : Simplex :=
  ⟨l, true, fun _ => 0, fun _ => l.zMin, fun _ => l.zMin, l.fMin, l.fMin, 0, 0, 0, 0, 0⟩

theorem wf_emptySimplex (l : Layout) : (emptySimplex l).Wf := by
  have hzero : l.circle.Has l.zMin := ⟨Nat.le_refl _, Nat.lt_add_of_pos_right l.circle.size_pos⟩
  exact ⟨⟨Nat.le_refl _, l.fMin_le⟩, ⟨Nat.le_refl _, l.fMin_le⟩, fun _ => hzero, fun _ => hzero⟩

section Positions

variable {l : Layout} {z z' k : ℕ}

theorem Layout.fifoSize_le : l.fifoSize ≤ 2 ^ 15 := by
  have hmax := l.zMax_lt
  unfold Layout.fifoSize
  omega

theorem Layout.preload_lt_fifoSize : (emptyFifo l).length < l.fifoSize := by
  have hsize := l.preload_lt
  unfold Layout.fifoSize emptyFifo
  rw [List.length_replicate]
  omega

/-- The positions are those up to `z_max`. -/
theorem Layout.zMax_eq : l.circle.lo + l.circle.size = l.zMax + 1 := by
  have hsize := l.preload_lt
  show l.zMin + (l.zMax - l.zMin + 1) = l.zMax + 1
  omega

theorem Layout.has_lt (h : l.circle.Has z) : z < l.zMax + 1 := l.zMax_eq ▸ h.2

theorem Layout.has_sub_lt (h : l.circle.Has z) (h' : l.circle.Has z') : z < z' + l.fifoSize := by
  have hlt : z < l.zMin + l.fifoSize := h.2
  have hle : l.zMin ≤ z' := h'.1
  omega

theorem zInc_eq (h : l.circle.Has z) (hk : k ≤ l.fifoSize) : zInc l z k = l.circle.after z k := by
  have hmax := l.zMax_lt
  have hsize := l.fifoSize_le
  have hz := l.has_lt h
  have hend := l.zMax_eq
  have hcircle : l.circle.size = l.fifoSize := rfl
  unfold zInc
  dsimp only
  rw [Nat.mod_eq_of_lt (by omega : k < 2 ^ 16)]
  by_cases hle : z + k ≤ l.zMax
  · rw [Cyclic.Circle.after_of_lt (by omega), if_neg (by omega), Nat.mod_eq_of_lt (by omega)]
  · rw [Cyclic.Circle.after_of_le (by omega), if_pos (by omega)]
    exact Nat.mod_eq_of_lt (by omega)

theorem usedBytes_eq (h : l.circle.Has z) (h' : l.circle.Has z') :
    usedBytes l z z' = l.circle.gap z' z := by
  have hsize := l.fifoSize_le
  have hlt := l.has_sub_lt h h'
  have hlt' := l.has_sub_lt h' h
  unfold usedBytes
  rw [Int.tmod_eq_emod_of_nonneg (by omega)]
  rcases Nat.lt_or_ge z z' with hzz | hzz
  · have hmod : ((z : ℤ) - z' + l.fifoSize) % l.fifoSize = z - z' + l.fifoSize :=
      Int.emod_eq_of_lt (by omega) (by omega)
    have hcircle : l.circle.size = l.fifoSize := rfl
    rw [Cyclic.Circle.gap_of_lt hzz, hmod]
    omega
  · have hmod : ((z : ℤ) - z' + l.fifoSize) % l.fifoSize = z - z' := by
      rw [Int.add_emod_right]
      exact Int.emod_eq_of_lt (by omega) (by omega)
    rw [Cyclic.Circle.gap_of_le hzz, hmod]
    omega

/-- The free bytes as they are computed: too many if the positions are in order. -/
theorem hfcFifoFreeTx_eq {c : Simplex} (hw : c.Wf) : hfcFifoFreeTx c =
    if c.z1 c.f1 = c.z2 c.f1 then c.layout.fifoSize
    else if c.z1 c.f1 < c.z2 c.f1 then c.z2 c.f1 - c.z1 c.f1
    else 2 ^ 16 - (c.z1 c.f1 - c.z2 c.f1) := by
  have hsize := c.layout.fifoSize_le
  have hlt := c.layout.has_sub_lt (hw.z1_mem c.f1) (hw.z2_mem c.f1)
  have hlt' := c.layout.has_sub_lt (hw.z2_mem c.f1) (hw.z1_mem c.f1)
  unfold hfcFifoFreeTx
  dsimp only
  split_ifs <;> omega

end Positions

section Bytes

variable {c : Simplex} {m : ℕ → UInt8} {z k : ℕ} {data : List UInt8}

theorem copyIn_add (hk : k < data.length) : copyIn m z data (z + k) = data.getD k 0 := by
  unfold copyIn
  rw [if_pos (by omega), Nat.add_sub_cancel_left]

theorem copyIn_other {p : ℕ} (hp : p < z ∨ z + data.length ≤ p) : copyIn m z data p = m p :=
  if_neg (by omega)

variable {r : Cyclic.Circle}

theorem copyOut_eq (hz : z + k ≤ r.lo + r.size) : copyOut m z k = r.read m z k := by
  apply List.map_congr_left
  intro i hi
  rw [r.after_of_lt (by have := List.mem_range.1 hi; omega)]

/-- Up to the end of the FIFO, the bytes of the circle are written as they lie. -/
theorem wrote_copyIn (hz : r.Has z) (hend : z + data.length ≤ r.lo + r.size) :
    r.Wrote m (copyIn m z data) z data where
  written := by
    apply List.ext_getElem
    · rw [Cyclic.Circle.length_read]
    · intro i hi hi'
      have hget := r.getElem?_read (m := copyIn m z data) (p := z) hi'
      rw [List.getElem?_eq_getElem hi, r.after_of_lt (by omega), copyIn_add hi'] at hget
      rw [Option.some.inj hget]
      simp [hi']
  kept i hi hle := by
    apply copyIn_other
    have hbegin : r.lo ≤ z := hz.1
    rcases Nat.lt_or_ge (z + i) (r.lo + r.size) with hlt | hge
    · rw [r.after_of_lt hlt]
      omega
    · rw [r.after_of_le hge]
      omega

/-- Reading goes on at the beginning of the circle. -/
theorem hfcFifoMemRead_eq (hz : c.layout.circle.Has z) (hk : k ≤ c.layout.fifoSize) :
    hfcFifoMemRead c z k = c.layout.circle.read c.mem z k := by
  have hend := c.layout.zMax_eq
  have hlt := c.layout.has_lt hz
  have hlo : c.layout.circle.lo = c.layout.zMin := rfl
  have hsize : c.layout.circle.size = c.layout.fifoSize := rfl
  unfold hfcFifoMemRead
  dsimp only
  split_ifs with hfit
  · exact copyOut_eq (by omega)
  · have hstart : c.layout.circle.after z (c.layout.zMax + 1 - z) = c.layout.zMin := by
      rw [Cyclic.Circle.after_of_le (by omega)]
      omega
    have hsum : k = (c.layout.zMax + 1 - z) + (k - (c.layout.zMax + 1 - z)) := by omega
    rw [copyOut_eq (r := c.layout.circle) (by omega), copyOut_eq (r := c.layout.circle) (by omega)]
    conv_rhs => rw [hsum, Cyclic.Circle.read_add hz (by omega), hstart]

/-- Writing goes on at the beginning of the circle. -/
theorem wrote_hfcFifoMemWrite {data : List UInt8} (hz : c.layout.circle.Has (c.z1 c.f1))
    (hdata : data.length ≤ c.layout.fifoSize) :
    c.layout.circle.Wrote c.mem (hfcFifoMemWrite c data).mem (c.z1 c.f1) data := by
  have hend := c.layout.zMax_eq
  have hlt := c.layout.has_lt hz
  have hlo : c.layout.circle.lo = c.layout.zMin := rfl
  have hsize : c.layout.circle.size = c.layout.fifoSize := rfl
  unfold hfcFifoMemWrite
  dsimp only
  split_ifs with hfit
  · exact wrote_copyIn hz (by omega)
  · set b := c.layout.zMax + 1 - c.z1 c.f1 with hb
    have htake : (data.take b).length = b := List.length_take_of_le (by omega)
    have hdrop : (data.drop b).length = data.length - b := List.length_drop
    have hstart : c.layout.circle.after (c.z1 c.f1) (data.take b).length = c.layout.zMin := by
      rw [htake, Cyclic.Circle.after_of_le (by omega)]
      omega
    have hfront : c.layout.circle.Wrote c.mem (copyIn c.mem (c.z1 c.f1) (data.take b)) (c.z1 c.f1)
        (data.take b) := wrote_copyIn hz (by omega)
    have hback : c.layout.circle.Wrote (copyIn c.mem (c.z1 c.f1) (data.take b))
        (copyIn (copyIn c.mem (c.z1 c.f1) (data.take b)) c.layout.zMin (data.drop b)) c.layout.zMin
        (data.drop b) := wrote_copyIn ⟨by omega, by omega⟩ (by omega)
    rw [← hstart] at hback
    have hboth := hfront.append hback hz (by omega)
    rw [List.take_append_drop, hstart] at hboth
    exact hboth

end Bytes

end Zaphfc
end Askozia
