import Askozia.Zaphfc.Fifo

/-!
# Voice through the FIFOs

What waits in a FIFO is a queue. The driver and the card take turns in any order; as long as the
queue stays shorter than the FIFO, what the card fetches is what the driver has put in.

* `sends_in_order`: the FIFO behaves as a queue;
* `put_too_much`: what becomes of the queue when it does not fit;
* `starves_unnoticed`: what a reader gets when there is nothing to read.
-/

namespace Askozia
namespace Zaphfc

open Cyclic

/-- The bytes that wait for the card. -/
def queueTx (c : Simplex) : List UInt8 := c.layout.circle.read c.mem (c.z2 c.f1) (hfcFifoUsedTx c)

/-- The bytes that wait for the driver. -/
def queueRx (c : Simplex) : List UInt8 := c.layout.circle.read c.mem (c.z2 c.f2) (hfcFifoUsedRx c)

/-- The card fetches bytes to send. -/
def cardFetch (c : Simplex) (k : ℕ) : List UInt8 × Simplex :=
  (c.layout.circle.read c.mem (c.z2 c.f1) k,
    { c with z2 := Function.update c.z2 c.f1 (c.layout.circle.after (c.z2 c.f1) k) })

/-- What the card fetches in a run in which the driver puts bytes in, and the FIFO after it. -/
def runTx (calls : ℕ) : Simplex → List (Move UInt8) → List UInt8 × Simplex
  | c, [] => ([], c)
  | c, .put data :: ms => runTx calls (hfcFifoPut calls c data) ms
  | c, .fetch k :: ms =>
    ((cardFetch c k).1 ++ (runTx calls (cardFetch c k).2 ms).1, (runTx calls (cardFetch c k).2 ms).2)

section Sending

variable {c : Simplex} {data : List UInt8} {k : ℕ} (calls : ℕ)

theorem hfcFifoUsedTx_eq (hw : c.Wf) :
    hfcFifoUsedTx c = c.layout.circle.gap (c.z2 c.f1) (c.z1 c.f1) :=
  usedBytes_eq (hw.z1_mem _) (hw.z2_mem _)

theorem hfcFifoUsedTx_lt (hw : c.Wf) : hfcFifoUsedTx c < c.layout.fifoSize := by
  rw [hfcFifoUsedTx_eq hw]
  exact Circle.gap_lt (hw.z2_mem _) (hw.z1_mem _)

theorem length_queueTx : (queueTx c).length = hfcFifoUsedTx c := Circle.length_read

/-- The side that puts in is behind the queue. -/
theorem z1_eq_after (hw : c.Wf) :
    c.z1 c.f1 = c.layout.circle.after (c.z2 c.f1) (hfcFifoUsedTx c) := by
  rw [hfcFifoUsedTx_eq hw, Circle.after_gap (hw.z2_mem _) (hw.z1_mem _)]

theorem Simplex.Wf.storeBytes (hw : c.Wf) (hdata : data.length ≤ c.layout.fifoSize) :
    (storeBytes c data).Wf where
  f1_mem := hw.f1_mem
  f2_mem := hw.f2_mem
  z2_mem := hw.z2_mem
  z1_mem f := by
    show c.layout.circle.Has (Function.update c.z1 c.f1 (zInc c.layout (c.z1 c.f1) data.length) f)
    rw [zInc_eq (hw.z1_mem _) hdata]
    rcases eq_or_ne f c.f1 with rfl | hf
    · rw [Function.update_self]
      exact Circle.has_after (hw.z1_mem _) hdata
    · rw [Function.update_of_ne hf]
      exact hw.z1_mem f

/-- The length of the queue goes around with the position. -/
theorem used_storeBytes (hw : c.Wf) (hdata : data.length ≤ c.layout.fifoSize) :
    hfcFifoUsedTx (storeBytes c data) =
      if hfcFifoUsedTx c + data.length < c.layout.fifoSize then hfcFifoUsedTx c + data.length
      else hfcFifoUsedTx c + data.length - c.layout.fifoSize := by
  have hpos : (storeBytes c data).z1 c.f1 = c.layout.circle.after (c.z1 c.f1) data.length := by
    show Function.update c.z1 c.f1 (zInc c.layout (c.z1 c.f1) data.length) c.f1 = _
    rw [Function.update_self, zInc_eq (hw.z1_mem _) hdata]
  rw [hfcFifoUsedTx_eq (hw.storeBytes hdata), hfcFifoUsedTx_eq hw]
  show c.layout.circle.gap (c.z2 c.f1) ((storeBytes c data).z1 c.f1) = _
  rw [hpos, Circle.gap_after_right (hw.z2_mem _) (hw.z1_mem _) hdata]
  rfl

/-- Bytes that fit are at the end of the queue. -/
theorem queueTx_storeBytes (hw : c.Wf) (hfit : hfcFifoUsedTx c + data.length < c.layout.fifoSize) :
    queueTx (storeBytes c data) = queueTx c ++ data := by
  have hdata : data.length ≤ c.layout.fifoSize := by omega
  have hwrote := wrote_hfcFifoMemWrite (hw.z1_mem c.f1) hdata
  rw [z1_eq_after hw] at hwrote
  unfold queueTx
  rw [used_storeBytes hw (by omega), if_pos hfit]
  exact hwrote.read_append (hw.z2_mem _) (Nat.le_of_lt hfit)

/-- If they do not fit, as much as the FIFO holds is lost at the front. -/
theorem queueTx_storeBytes_of_le (hw : c.Wf) (hdata : data.length ≤ c.layout.fifoSize)
    (hfull : c.layout.fifoSize ≤ hfcFifoUsedTx c + data.length) :
    queueTx (storeBytes c data) = (queueTx c ++ data).drop c.layout.fifoSize := by
  have hwrote := wrote_hfcFifoMemWrite (hw.z1_mem c.f1) hdata
  have hused := hfcFifoUsedTx_lt hw
  -- once the free bytes are written, the writer is where the reader is
  have hstart : c.layout.circle.after (c.z1 c.f1) (c.layout.fifoSize - hfcFifoUsedTx c) =
      c.z2 c.f1 := by
    have haround := Circle.after_after_sub (j := 0) (hw.z2_mem c.f1) (Nat.zero_le _) (Nat.le_of_lt hused)
    rw [← z1_eq_after hw, Nat.add_zero, Circle.after_zero (hw.z2_mem _)] at haround
    exact haround
  have hsplit : data.length = (c.layout.fifoSize - hfcFifoUsedTx c) +
      (hfcFifoUsedTx c + data.length - c.layout.fifoSize) := by omega
  have hread := hwrote.written
  rw [hsplit] at hread
  have hdrop := Circle.drop_read (m := (hfcFifoMemWrite c data).mem) (hw.z1_mem c.f1)
    (by rw [← hsplit]; exact hdata)
  rw [hread, hstart] at hdrop
  rw [List.drop_append, List.drop_eq_nil_of_le (by rw [length_queueTx]; omega), List.nil_append,
    length_queueTx, hdrop]
  unfold queueTx
  rw [used_storeBytes hw hdata, if_neg (by omega)]
  rfl

/-- The queue after bytes have been written, whether they fit or not. -/
theorem queueTx_storeBytes_eq (hw : c.Wf) (hdata : data.length ≤ c.layout.fifoSize) :
    queueTx (storeBytes c data) = Move.wrap c.layout.fifoSize (queueTx c ++ data) := by
  unfold Move.wrap
  rw [List.length_append, length_queueTx]
  split_ifs with hfit
  · exact queueTx_storeBytes hw hfit
  · exact queueTx_storeBytes_of_le hw hdata (Nat.not_lt.1 hfit)

/-- The warning about an empty FIFO changes its statistics only. -/
theorem Simplex.Wf.noteEmpty (hw : c.Wf) : (noteEmpty c).Wf :=
  ⟨hw.f1_mem, hw.f2_mem, hw.z1_mem, hw.z2_mem⟩

/-- A FIFO that is not found full keeps what it has. -/
theorem hfcFifoPut_of_le (h : data.length ≤ hfcFifoFreeTx c) : hfcFifoPut calls c data =
    storeBytes (noteEmpty c) data := by
  cases calls <;> exact congrArg (storeBytes · data) (if_neg (Nat.not_lt.2 h))

/-- A FIFO is found full only if the side that puts in has come around. -/
theorem freeTx_lt_iff (hw : c.Wf) (hdata : data.length ≤ c.layout.fifoSize) :
    hfcFifoFreeTx c < data.length ↔
      c.z1 c.f1 < c.z2 c.f1 ∧ c.layout.fifoSize < hfcFifoUsedTx c + data.length := by
  have hsize := c.layout.fifoSize_le
  have hcircle : c.layout.circle.size = c.layout.fifoSize := rfl
  have hlt := c.layout.has_sub_lt (hw.z1_mem c.f1) (hw.z2_mem c.f1)
  have hlt' := c.layout.has_sub_lt (hw.z2_mem c.f1) (hw.z1_mem c.f1)
  rw [hfcFifoFreeTx_eq hw, hfcFifoUsedTx_eq hw]
  -- the difference is unsigned: with the writer in front of the reader it never seems too small
  rcases Nat.lt_trichotomy (c.z1 c.f1) (c.z2 c.f1) with hz | hz | hz
  · rw [if_neg (by omega), if_pos hz, Circle.gap_of_lt hz]
    omega
  · rw [if_pos hz, hz, Circle.gap_self]
    omega
  · rw [if_neg (by omega), if_neg (by omega)]
    omega

theorem hfcFifoPut_of_fits (hw : c.Wf) (hfit : hfcFifoUsedTx c + data.length < c.layout.fifoSize) :
    hfcFifoPut calls c data = storeBytes (noteEmpty c) data := by
  apply hfcFifoPut_of_le
  rw [← Nat.not_lt, freeTx_lt_iff hw (by omega)]
  omega

theorem queueTx_put_of_fits (hw : c.Wf) (hfit : hfcFifoUsedTx c + data.length < c.layout.fifoSize) :
    queueTx (hfcFifoPut calls c data) = queueTx c ++ data := by
  rw [hfcFifoPut_of_fits calls hw hfit]
  exact queueTx_storeBytes hw.noteEmpty hfit

theorem cardFetch_queue (hw : c.Wf) (hk : k ≤ hfcFifoUsedTx c) : (cardFetch c k).2.Wf ∧
    (cardFetch c k).1 = (queueTx c).take k ∧ queueTx (cardFetch c k).2 = (queueTx c).drop k := by
  have hlt := hfcFifoUsedTx_lt hw
  have hpos : (cardFetch c k).2.z2 c.f1 = c.layout.circle.after (c.z2 c.f1) k :=
    Function.update_self ..
  have hwf : (cardFetch c k).2.Wf := by
    refine ⟨hw.f1_mem, hw.f2_mem, hw.z1_mem, fun f => ?_⟩
    rcases eq_or_ne f c.f1 with rfl | hf
    · rw [hpos]
      exact Circle.has_after (hw.z2_mem _) (by show k ≤ c.layout.fifoSize; omega)
    · show c.layout.circle.Has (Function.update c.z2 c.f1 _ f)
      rw [Function.update_of_ne hf]
      exact hw.z2_mem f
  have hused : hfcFifoUsedTx (cardFetch c k).2 = hfcFifoUsedTx c - k := by
    rw [hfcFifoUsedTx_eq hwf, hfcFifoUsedTx_eq hw] at *
    show c.layout.circle.gap ((cardFetch c k).2.z2 c.f1) (c.z1 c.f1) = _
    rw [hpos, Circle.gap_after_left (hw.z2_mem _) (hw.z1_mem _) hk]
  refine ⟨hwf, (Circle.take_read hk).symm, ?_⟩
  have hdrop := Circle.drop_read (m := c.mem) (j := k) (k := hfcFifoUsedTx c - k) (hw.z2_mem c.f1)
    (by show _ ≤ c.layout.fifoSize; omega)
  rw [Nat.add_sub_cancel' hk] at hdrop
  unfold queueTx
  rw [hdrop, hused]
  show c.layout.circle.read c.mem ((cardFetch c k).2.z2 c.f1) _ = _
  rw [hpos]

theorem resetTx_queue (hw : c.Wf) : (resetTx c).Wf ∧ queueTx (resetTx c) = [] := by
  have hpos : (resetTx c).z1 c.f2 = c.z2 c.f2 := Function.update_self ..
  have hwf : (resetTx c).Wf := by
    refine ⟨hw.f2_mem, hw.f2_mem, fun f => ?_, hw.z2_mem⟩
    rcases eq_or_ne f c.f2 with rfl | hf
    · rw [hpos]
      exact hw.z2_mem _
    · show c.layout.circle.Has (Function.update c.z1 c.f2 _ f)
      rw [Function.update_of_ne hf]
      exact hw.z1_mem f
  have hused : hfcFifoUsedTx (resetTx c) = 0 := by
    rw [hfcFifoUsedTx_eq hwf]
    show c.layout.circle.gap (c.z2 c.f2) ((resetTx c).z1 c.f2) = 0
    rw [hpos, Circle.gap_self]
  refine ⟨hwf, ?_⟩
  unfold queueTx
  rw [hused, Circle.read_zero]

/-- The bytes for voice that a FIFO has after it has been cleared. -/
def preload (c : Simplex) : List UInt8 := if c.voice = true then emptyFifo c.layout else []

/-- What becomes of the queue when bytes are put in. The FIFO is found full only if the side that
puts in has come around; then it is cleared. Otherwise, bytes that do not fit go around the queue:
it loses a round, the bytes that were put in last being left. -/
theorem put_too_much (hw : c.Wf) (hdata : data.length ≤ c.layout.fifoSize) :
    (hfcFifoFreeTx c < data.length ↔
      c.z1 c.f1 < c.z2 c.f1 ∧ c.layout.fifoSize < hfcFifoUsedTx c + data.length) ∧
    queueTx (hfcFifoPut (calls + 1) c data) = Move.wrap c.layout.fifoSize
      ((if hfcFifoFreeTx c < data.length then preload c else queueTx c) ++ data) := by
  refine ⟨freeTx_lt_iff hw hdata, ?_⟩
  split_ifs with hfull
  · obtain ⟨hwf, hempty⟩ := resetTx_queue (c := { noteEmpty c with fifoFull := c.fifoFull + 1 })
      ⟨hw.f1_mem, hw.f2_mem, hw.z1_mem, hw.z2_mem⟩
    set c₀ := resetTx { noteEmpty c with fifoFull := c.fifoFull + 1 } with hc₀
    have hput : hfcFifoPut (calls + 1) c data =
        storeBytes (if c.voice = true then hfcFifoPut calls c₀ (emptyFifo c.layout) else c₀) data :=
      congrArg (storeBytes · data) (if_pos hfull)
    rw [hput]
    unfold preload
    split_ifs with hvoice
    · -- the call for the silence finds an empty FIFO, and calls no further
      have hfit : hfcFifoUsedTx c₀ + (emptyFifo c.layout).length < c₀.layout.fifoSize := by
        rw [← length_queueTx, hempty]
        show 0 + (emptyFifo c.layout).length < c.layout.fifoSize
        rw [Nat.zero_add]
        exact c.layout.preload_lt_fifoSize
      have hqueue := queueTx_put_of_fits calls hwf hfit
      have hnext := hfcFifoPut_of_fits calls hwf hfit
      rw [hempty, List.nil_append, hnext] at hqueue
      have hwf' : (storeBytes (noteEmpty c₀) (emptyFifo c.layout)).Wf :=
        hwf.noteEmpty.storeBytes (Nat.le_of_lt c.layout.preload_lt_fifoSize)
      have hlast := queueTx_storeBytes_eq hwf' hdata
      rw [hqueue] at hlast
      rw [hnext]
      exact hlast
    · rw [← hempty]
      exact queueTx_storeBytes_eq hwf hdata
  · rw [hfcFifoPut_of_le _ (Nat.not_lt.1 hfull)]
    exact queueTx_storeBytes_eq hw.noteEmpty hdata

/-- As long as what is put in fits, the FIFO behaves as a queue: in any order of turns of the driver
and the card, the bytes are fetched in the order in which they have been put in, each once. -/
theorem sends_in_order (hw : c.Wf) {ms : List (Move UInt8)}
    (hfits : Move.Fits c.layout.fifoSize (queueTx c) ms) :
    (runTx calls c ms).1 = (Move.run (queueTx c) ms).1 ∧
      queueTx (runTx calls c ms).2 = (Move.run (queueTx c) ms).2 ∧
      (runTx calls c ms).1 ++ queueTx (runTx calls c ms).2 = queueTx c ++ Move.puts ms := by
  have hrun : (runTx calls c ms).1 = (Move.run (queueTx c) ms).1 ∧
      queueTx (runTx calls c ms).2 = (Move.run (queueTx c) ms).2 := by
    -- each turn does to the FIFO what it does to the queue
    induction ms generalizing c with
    | nil => exact ⟨rfl, rfl⟩
    | cons m ms ih =>
      cases m with
      | put data =>
        obtain ⟨hlt, hrest⟩ := hfits
        rw [length_queueTx] at hlt
        rw [← queueTx_put_of_fits calls hw hlt] at hrest
        have hnext := hfcFifoPut_of_fits calls hw hlt
        have hwf : (hfcFifoPut calls c data).Wf := by
          rw [hnext]
          exact hw.noteEmpty.storeBytes (Nat.le_of_lt (Nat.lt_of_le_of_lt (Nat.le_add_left ..) hlt))
        have hlayout : (hfcFifoPut calls c data).layout = c.layout := by rw [hnext]; rfl
        have hgo := ih hwf (by rw [hlayout]; exact hrest)
        rw [queueTx_put_of_fits calls hw hlt] at hgo
        exact hgo
      | fetch k =>
        obtain ⟨hle, hrest⟩ := hfits
        rw [length_queueTx] at hle
        obtain ⟨hwf, htake, hdrop⟩ := cardFetch_queue hw hle
        rw [← hdrop] at hrest
        have hgo := ih hwf hrest
        rw [hdrop] at hgo
        exact ⟨congrArg₂ (· ++ ·) htake hgo.1, hgo.2⟩
  exact ⟨hrun.1, hrun.2, by rw [hrun.1, hrun.2, Move.run_append]⟩

end Sending

theorem sends_in_order_empty :
    (runTx 1 (emptySimplex bLayout) [.put [1, 2, 3], .fetch 2]).1 = [1, 2] ∧
      queueTx (runTx 1 (emptySimplex bLayout) [.put [1, 2, 3], .fetch 2]).2 = [3] := by
  have hempty : queueTx (emptySimplex bLayout) = [] := by
    have hused : hfcFifoUsedTx (emptySimplex bLayout) = 0 := by decide
    unfold queueTx
    rw [hused, Circle.read_zero]
  have hgo := @sends_in_order _ 1 (wf_emptySimplex bLayout) [.put [1, 2, 3], .fetch 2]
    (by rw [hempty]; exact ⟨by decide, by decide, trivial⟩)
  rw [hempty] at hgo
  exact ⟨hgo.1, hgo.2.1⟩

/-- The FIFO of a B channel with the writer at `z1` and the reader at `z2`. -/
def bSimplex (z1 z2 : ℕ) : Simplex :=
  { emptySimplex bLayout with z1 := fun _ => z1, z2 := fun _ => z2 }

theorem wf_bSimplex {z1 z2 : ℕ} (h1 : bLayout.circle.Has z1) (h2 : bLayout.circle.Has z2) :
    (bSimplex z1 z2).Wf :=
  ⟨(wf_emptySimplex bLayout).f1_mem, (wf_emptySimplex bLayout).f2_mem, fun _ => h1, fun _ => h2⟩

/-- Eight bytes for a FIFO that has room for one: with the writer come around to just behind the
reader, what waits is given up for silence; with the reader at the start, a round is lost. -/
theorem put_too_much_oneFree :
    queueTx (hfcFifoPut 1 (bSimplex 766 767) [1, 2, 3, 4, 5, 6, 7, 8]) =
      emptyFifo bLayout ++ [1, 2, 3, 4, 5, 6, 7, 8] ∧
    queueTx (hfcFifoPut 1 (bSimplex 0x1FFF 0x0200) [1, 2, 3, 4, 5, 6, 7, 8]) = [2, 3, 4, 5, 6, 7, 8] := by
  have haround := @put_too_much (bSimplex 766 767) [1, 2, 3, 4, 5, 6, 7, 8] 0
    (wf_bSimplex ⟨by decide, by decide⟩ ⟨by decide, by decide⟩) (by decide)
  have hround := @put_too_much (bSimplex 0x1FFF 0x0200) [1, 2, 3, 4, 5, 6, 7, 8] 0
    (wf_bSimplex ⟨by decide, by decide⟩ ⟨by decide, by decide⟩) (by decide)
  refine ⟨haround.2.trans ?_, hround.2.trans ?_⟩
  · -- one free byte in a FIFO that has gone around: reset, silence and the new bytes
    rw [if_pos (by decide)]
    exact if_pos (by decide)
  · -- here there is room by the count of the source, and a whole round is lost
    have hlength : (queueTx (bSimplex 0x1FFF 0x0200)).length = 7679 := by
      rw [length_queueTx]
      decide
    have hsize : bLayout.fifoSize = 7680 := rfl
    rw [if_neg (by decide), Move.wrap, if_neg (by
      rw [List.length_append, hlength]
      decide)]
    show ((queueTx (bSimplex 0x1FFF 0x0200)) ++ _).drop bLayout.fifoSize = _
    rw [List.drop_append, hlength, hsize, List.drop_eq_nil_of_le (by rw [hlength]; decide)]
    rfl

/-! ## Receiving -/

/-- The results of reading several times, and the FIFO after it. -/
def runRx : Simplex → List ℕ → List (ℤ × List UInt8) × Simplex
  | c, [] => ([], c)
  | c, size :: sizes =>
    ((hfcFifoGet c size).1 :: (runRx (hfcFifoGet c size).2 sizes).1, (runRx (hfcFifoGet c size).2 sizes).2)

section Receiving

variable {c : Simplex} {size k : ℕ} {sizes : List ℕ}

theorem hfcFifoUsedRx_eq (hw : c.Wf) :
    hfcFifoUsedRx c = c.layout.circle.gap (c.z2 c.f2) (c.z1 c.f2) :=
  usedBytes_eq (hw.z1_mem _) (hw.z2_mem _)

theorem hfcFifoUsedRx_lt (hw : c.Wf) : hfcFifoUsedRx c < c.layout.fifoSize := by
  rw [hfcFifoUsedRx_eq hw]
  exact Circle.gap_lt (hw.z2_mem _) (hw.z1_mem _)

/-- A reader that is not turned away gets the bytes behind its position, whatever they are. -/
theorem hfcFifoGet_eq (hw : c.Wf) (hsize : size ≤ c.layout.fifoSize)
    (hgo : size ≤ hfcFifoUsedRx c ∨ c.fifoUnderrun ≠ 0) :
    (hfcFifoGet c size).1 =
      ((hfcFifoUsedRx c : ℤ) - size, c.layout.circle.read c.mem (c.z2 c.f2) size) ∧
    (hfcFifoGet c size).2 = { c with
      bytes := c.bytes + .ofNat size
      fifoUnderrun := if hfcFifoUsedRx c < size then c.fifoUnderrun + 1 else c.fifoUnderrun
      z2 := Function.update c.z2 c.f2 (c.layout.circle.after (c.z2 c.f2) size) } := by
  have hno : ¬ (hfcFifoUsedRx { c with bytes := c.bytes + .ofNat size } < size ∧ c.fifoUnderrun = 0) := by
    rintro ⟨hlt, hzero⟩
    rcases hgo with hle | hne
    · exact absurd hlt (Nat.not_lt.2 hle)
    · exact hne hzero
  unfold hfcFifoGet
  dsimp only
  rw [if_neg hno, zInc_eq (hw.z2_mem _) hsize]
  refine ⟨congrArg (Prod.mk _) ?_, rfl⟩
  exact hfcFifoMemRead_eq (hw.z2_mem _) hsize

theorem hfcFifoGet_wf (hw : c.Wf) (hsize : size ≤ c.layout.fifoSize)
    (hgo : size ≤ hfcFifoUsedRx c ∨ c.fifoUnderrun ≠ 0) : (hfcFifoGet c size).2.Wf := by
  rw [(hfcFifoGet_eq hw hsize hgo).2]
  refine ⟨hw.f1_mem, hw.f2_mem, hw.z1_mem, fun f => ?_⟩
  rcases eq_or_ne f c.f2 with rfl | hf
  · show c.layout.circle.Has (Function.update c.z2 c.f2 _ c.f2)
    rw [Function.update_self]
    exact Circle.has_after (hw.z2_mem _) hsize
  · show c.layout.circle.Has (Function.update c.z2 c.f2 _ f)
    rw [Function.update_of_ne hf]
    exact hw.z2_mem f

theorem z2_hfcFifoGet (hw : c.Wf) (hsize : size ≤ c.layout.fifoSize)
    (hgo : size ≤ hfcFifoUsedRx c ∨ c.fifoUnderrun ≠ 0) :
    (hfcFifoGet c size).2.z2 c.f2 = c.layout.circle.after (c.z2 c.f2) size := by
  rw [(hfcFifoGet_eq hw hsize hgo).2]
  exact Function.update_self ..

/-- What was there is read in order, in any pieces: no piece is reported missing, and the statistics
of underruns stay. -/
theorem runRx_of_le (hw : c.Wf) (hle : sizes.sum ≤ hfcFifoUsedRx c) :
    (runRx c sizes).2.fifoUnderrun = c.fifoUnderrun ∧
    (∀ result ∈ (runRx c sizes).1, 0 ≤ result.1) ∧
    ((runRx c sizes).1.map Prod.snd).flatten = c.layout.circle.read c.mem (c.z2 c.f2) sizes.sum := by
  induction sizes generalizing c with
  | nil => exact ⟨rfl, fun _ h => absurd h List.not_mem_nil, rfl⟩
  | cons size sizes ih =>
    have hlt := hfcFifoUsedRx_lt hw
    rw [List.sum_cons] at hle
    have hgo : size ≤ hfcFifoUsedRx c ∨ c.fifoUnderrun ≠ 0 := .inl (by omega)
    obtain ⟨hfirst, hnext⟩ := hfcFifoGet_eq hw (by omega) hgo
    have hwf := hfcFifoGet_wf hw (by omega) hgo
    have hpos := z2_hfcFifoGet hw (by omega) hgo
    -- what is left is enough for the pieces that follow
    have hused : hfcFifoUsedRx (hfcFifoGet c size).2 = hfcFifoUsedRx c - size := by
      have hleft := Circle.gap_after_left (hw.z2_mem c.f2) (hw.z1_mem c.f2) (k := size)
        (by rw [← hfcFifoUsedRx_eq hw]; omega)
      rw [hfcFifoUsedRx_eq hwf, hfcFifoUsedRx_eq hw, ← hleft, ← hpos, hnext]
    obtain ⟨hunderrun, hresults, hread⟩ := ih hwf (by rw [hused]; omega)
    rw [hnext] at hunderrun hread
    refine ⟨?_, ?_, ?_⟩
    · show (runRx (hfcFifoGet c size).2 sizes).2.fifoUnderrun = _
      rw [hnext, hunderrun]
      exact if_neg (by omega)
    · intro result hresult
      rcases List.mem_cons.1 hresult with rfl | hresult
      · rw [hfirst]
        show (0 : ℤ) ≤ hfcFifoUsedRx c - size
        omega
      · exact hresults result hresult
    · show (hfcFifoGet c size).1.2 ++ ((runRx (hfcFifoGet c size).2 sizes).1.map Prod.snd).flatten = _
      rw [hnext, hread, hfirst, List.sum_cons, Circle.read_add (hw.z2_mem _) (by
        show _ ≤ c.layout.fifoSize
        omega)]
      show _ ++ c.layout.circle.read c.mem (Function.update c.z2 c.f2 _ c.f2) _ = _
      rw [Function.update_self]

/-- The first time that bytes are missing, nothing happens but a warning. From then on the reader
gets what is behind its position, and once it has passed the other side, the FIFO seems to be nearly
full: a round of old bytes is read, and nothing is reported. -/
theorem starves_unnoticed (hw : c.Wf) (hsize : size ≤ c.layout.fifoSize)
    (hstarve : hfcFifoUsedRx c < size) :
    (c.fifoUnderrun = 0 → (hfcFifoGet c size).1 = (-1, []) ∧
      (hfcFifoGet c size).2 = { c with bytes := c.bytes + .ofNat size, fifoUnderrun := 1 } ∧
      queueRx (hfcFifoGet c size).2 = queueRx c) ∧
    (c.fifoUnderrun ≠ 0 →
      hfcFifoUsedRx (hfcFifoGet c size).2 = c.layout.fifoSize - (size - hfcFifoUsedRx c) ∧
      ∀ sizes : List ℕ, sizes.sum ≤ c.layout.fifoSize - (size - hfcFifoUsedRx c) →
        (runRx (hfcFifoGet c size).2 sizes).2.fifoUnderrun = c.fifoUnderrun + 1 ∧
        (∀ result ∈ (runRx (hfcFifoGet c size).2 sizes).1, 0 ≤ result.1) ∧
        ((runRx (hfcFifoGet c size).2 sizes).1.map Prod.snd).flatten =
          c.layout.circle.read c.mem (c.layout.circle.after (c.z2 c.f2) size) sizes.sum) := by
  constructor
  · intro hzero
    have hno : hfcFifoUsedRx { c with bytes := c.bytes + .ofNat size } < size ∧ c.fifoUnderrun = 0 :=
      ⟨hstarve, hzero⟩
    unfold hfcFifoGet
    dsimp only
    rw [if_pos hno, hzero]
    exact ⟨rfl, rfl, rfl⟩
  · intro hne
    obtain ⟨-, hnext⟩ := hfcFifoGet_eq hw hsize (.inr hne)
    have hwf := hfcFifoGet_wf hw hsize (.inr hne)
    have hpos := z2_hfcFifoGet hw hsize (.inr hne)
    -- the reader is past the writer, almost a round behind it
    have hused : hfcFifoUsedRx (hfcFifoGet c size).2 = c.layout.fifoSize - (size - hfcFifoUsedRx c) := by
      have hpast := Circle.gap_after_left_of_lt (hw.z2_mem c.f2) (hw.z1_mem c.f2) (k := size)
        (by rw [← hfcFifoUsedRx_eq hw]; exact hstarve) hsize
      rw [hfcFifoUsedRx_eq hwf, hfcFifoUsedRx_eq hw]
      refine Eq.trans ?_ hpast
      rw [← hpos, hnext]
    refine ⟨hused, fun sizes hsum => ?_⟩
    obtain ⟨hunderrun, hresults, hread⟩ := runRx_of_le hwf (by rw [hused]; exact hsum)
    refine ⟨?_, hresults, ?_⟩
    · rw [hunderrun, hnext]
      exact if_pos hstarve
    · rw [hread, ← hpos, hnext]

end Receiving

/-- Eight bytes are asked for twice of a FIFO that has none, and then another 24. -/
theorem starves_unnoticed_twice :
    let first := hfcFifoGet (emptySimplex bLayout) 8
    let second := hfcFifoGet first.2 8
    first.1 = (-1, []) ∧ first.2.fifoUnderrun = 1 ∧ hfcFifoUsedRx second.2 = 7672 ∧
      (runRx second.2 [8, 16]).2.fifoUnderrun = 2 ∧
      (∀ result ∈ (runRx second.2 [8, 16]).1, 0 ≤ result.1) ∧
      ((runRx second.2 [8, 16]).1.map Prod.snd).flatten = List.replicate 24 0 := by
  obtain ⟨hresult, hfirst, -⟩ :=
    (@starves_unnoticed _ 8 (wf_emptySimplex bLayout) (by decide) (by decide)).1 rfl
  have hwf : (hfcFifoGet (emptySimplex bLayout) 8).2.Wf := by
    rw [hfirst]
    obtain ⟨hf1, hf2, hz1, hz2⟩ := wf_emptySimplex bLayout
    exact ⟨hf1, hf2, hz1, hz2⟩
  have hlayout : (hfcFifoGet (emptySimplex bLayout) 8).2.layout = bLayout := by rw [hfirst]; rfl
  have hnone : hfcFifoUsedRx (hfcFifoGet (emptySimplex bLayout) 8).2 = 0 := by
    rw [hfirst]
    decide
  -- after the first read `z2` is ahead, and the second one counts almost a whole round
  obtain ⟨hused, hrest⟩ := (@starves_unnoticed _ 8 hwf (by rw [hlayout]; decide) (by
    rw [hnone]
    decide)).2 (by rw [hfirst]; decide)
  rw [hlayout, hnone] at hused hrest
  obtain ⟨hcount, hresults, hread⟩ := hrest [8, 16] (by decide)
  refine ⟨hresult, by rw [hfirst], hused, hcount.trans (by rw [hfirst]; rfl), hresults,
    hread.trans ?_⟩
  rw [hfirst]
  decide

end Zaphfc
end Askozia
