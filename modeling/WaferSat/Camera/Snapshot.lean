import WaferSat.Camera.InitDma
import WaferSat.DcmiDma.Words

/-!
`OV5640_Snapshot2RAM`. The length of a picture is not counted anywhere: it is read off the
memory registers, rounded up to whole blocks, and the zeros behind the data are trimmed.
-/
namespace WaferSat.Camera
open DcmiDma GuardedRun ByteMemory

variable {τ : Type*}

structure RamState (τ : Type*) where
  board : Board τ
  mem : ℕ → BitVec 8
  ramBufferLength : BitVec 32

/-- `TIME_MS2I(5000)` at ten ticks a millisecond. -/
def captureTimeout : BitVec 32 := 50000#32

/-- The wait loop. Each reading is the capture bit of the DCMI and the system time, which is
looked at only while the bit is set. -/
def waitCapture (timeout : BitVec 32) : List (Bool × BitVec 32) → Option Bool
  | [] => none
  | (captureBit, now) :: readings =>
    if captureBit = false then some true
    else if now < timeout then waitCapture timeout readings
    else some false

/-- The buffer is cleared and the stream started; `acts` is what the camera, the engine and the
interrupts then do until the stream is stopped. -/
def duringCapture (A : StreamAllocator τ) (buf : RamBuffer) (acts : List WordAct)
    (r : RamState τ) : Option WordState :=
  let mem := writeBytes buf.base.toNat (List.replicate buf.size.toNat 0#8) r.mem
  let b := (ov5640InitDMA A buf r.board).2
  (A.installed b.hal).bind fun handler => run (wordStep handler) ⟨b.dma, false, 0, [], mem⟩ acts

/-- The picture `noCameraFound` replaces the capture after a timeout. Disabling the stream
flushes its FIFO. -/
def ov5640Snapshot2RAM (A : StreamAllocator τ) (buf : RamBuffer)
    (noCameraFound : List (BitVec 8)) (acts : List WordAct) (start : BitVec 32)
    (readings : List (Bool × BitVec 32)) (r : RamState τ) : Option (Bool × RamState τ) :=
  (duringCapture A buf acts r).bind fun s =>
  (waitCapture (start + captureTimeout) readings).map fun finished =>
  let dma := s.dma.dcmiDmaOpenEndedStop
  let board := ⟨dma, (ov5640InitDMA A buf r.board).2.hal⟩
  let mem := s.settled
  if finished = false then
    (false, ⟨board, writeBytes buf.base.toNat noCameraFound mem,
      BitVec.ofNat 32 noCameraFound.length⟩)
  else
    let length := dma.dcmiDmaBytesReceived.toNat
    (true, ⟨board, mem,
      BitVec.ofNat 32 (trimLength 0#8 (fun i => mem (buf.base.toNat + i)) length)⟩)

def ClearsBefore (timeout : BitVec 32) (readings : List (Bool × BitVec 32)) : Prop :=
  ∃ before now after, readings = before ++ (false, now) :: after ∧
    ∀ p ∈ before, p.1 = true ∧ p.2 < timeout

theorem waitCapture_eq_true {timeout : BitVec 32} {readings : List (Bool × BitVec 32)}
    (h : ClearsBefore timeout readings) : waitCapture timeout readings = some true := by
  obtain ⟨before, now, after, rfl, hbefore⟩ := h
  induction before with
  | nil => simp [waitCapture]
  | cons p before ih =>
    obtain ⟨hbit, hnow⟩ := hbefore p (by simp)
    simp only [List.cons_append, waitCapture, hbit, hnow, ↓reduceIte]
    exact ih fun q hq => hbefore q (by simp [hq])

theorem ov5640InitDMA_armed (A : StreamAllocator τ) (buf : RamBuffer) (b : Board τ) :
    ∃ d, (ov5640InitDMA A buf b).2.dma = d.dcmiDmaArm ∧ Configured d ∧
      d.dcmiDmaBuffer = buf.base ∧ d.blockSize.toNat = openEndedBytes ∧
      d.numBlocks = buf.size / 262136#32 - 1#32 ∧
      ∃ handler, A.installed (ov5640InitDMA A buf b).2.hal = some handler := by
  have h0 : (ov5640InitDMA A buf b).1 = 0 := by
    simp [ov5640InitDMA, thenArm, Board.dcmiDmaInitOpenEnded, requestJPEG, buf.base_ne, buf.size_ne]
  have hinit : Board.dcmiDmaInitOpenEnded A { b with dma := requestJPEG buf b.dma } =
      (0, (Board.dcmiDmaInitOpenEnded A { b with dma := requestJPEG buf b.dma }).2) :=
    Prod.ext h0 rfl
  obtain ⟨hb, -, -, hsize, hn⟩ := openEnded_geometry hinit
  refine ⟨_, rfl, @Board.configured_of_init _ A .shuffleOpenEnded _ _ hinit, hb, hsize, hn, ?_⟩
  have hfor : initDMAFor A buf .shuffleOpenEnded b = (0, (ov5640InitDMA A buf b).2) :=
    Prod.ext h0 rfl
  exact ⟨_, installed_init hfor⟩

theorem openEnded_room {size : BitVec 32} (h : 1 ≤ (size / 262136#32 - 1#32).toInt) :
    (size / 262136#32 - 1#32).toNat < 2 ^ 31 ∧
    ((size / 262136#32 - 1#32).toNat + 1) * openEndedBytes ≤ size.toNat := by
  have hsmall : (size / 262136#32 - 1#32).toNat < 2 ^ 31 := by
    by_contra hge
    rw [BitVec.toInt_eq_toNat_cond, if_neg (by omega)] at h
    have hlt := (size / 262136#32 - 1#32).isLt
    omega
  have hroom : openEndedBytes ≤ size.toNat := by
    by_contra hlt
    have hz : size / 262136#32 = 0#32 := by
      apply BitVec.eq_of_toNat_eq
      rw [BitVec.toNat_udiv]
      exact Nat.div_eq_of_lt (not_le.mp hlt)
    rw [hz] at h
    simp at h
  refine ⟨hsmall, ?_⟩
  rw [openEnded_count hroom]
  exact Nat.div_mul_le_self _ _

/-- The set-up of a capture on the buffer `buf` with a count of at least one. -/
structure Ready (A : StreamAllocator τ) (buf : RamBuffer) (b : Board τ) (d : Dma)
    (handler : Isr) : Prop where
  dma : (ov5640InitDMA A buf b).2.dma = d.dcmiDmaArm
  installed : A.installed (ov5640InitDMA A buf b).2.hal = some handler
  configured : Configured d
  buffer : d.dcmiDmaBuffer = buf.base
  small : d.numBlocks.toNat < 2 ^ 31
  room : d.numBlocks.toNat * d.blockSize.toNat + d.blockSize.toNat ≤ buf.size.toNat
  fit : d.dcmiDmaBuffer.toNat + d.numBlocks.toNat * d.blockSize.toNat < 2 ^ 32

theorem exists_ready {A : StreamAllocator τ} {buf : RamBuffer} {b : Board τ}
    (hn : 1 ≤ (ov5640InitDMA A buf b).2.dma.numBlocks.toInt) :
    ∃ d handler, Ready A buf b d handler := by
  obtain ⟨d, hd, hc, hbase, hsize, hcount, handler, hh⟩ := ov5640InitDMA_armed A buf b
  rw [hd, Dma.arm_numBlocks, hcount] at hn
  obtain ⟨hsmall, hroom⟩ := openEnded_room hn
  rw [← hcount] at hsmall
  rw [← hcount, ← hsize, Nat.add_mul, Nat.one_mul] at hroom
  have hpos : 0 < d.blockSize.toNat := by rw [hsize]; decide
  have hfits := buf.fits
  exact ⟨d, handler, hd, hh, hc, hbase, hsmall, hroom, by rw [hbase]; omega⟩

theorem Ready.duringCapture_eq {A : StreamAllocator τ} {buf : RamBuffer} {r : RamState τ} {d : Dma}
    {handler : Isr} (h : Ready A buf r.board d handler) (acts : List WordAct) :
    duringCapture A buf acts r = run (wordStep handler) (armedWords d
      (writeBytes buf.base.toNat (List.replicate buf.size.toNat 0#8) r.mem)) acts := by
  simp [duringCapture, h.installed, h.dma, armedWords]

/-- A capture that ends in time leaves exactly the bytes of the camera in the buffer, without
the zeros at their end. -/
theorem snapshot2RAM_delivers {A : StreamAllocator τ} {buf : RamBuffer} {r : RamState τ}
    {acts : List WordAct} {s : WordState} {start : BitVec 32}
    {readings : List (Bool × BitVec 32)} (noCameraFound : List (BitVec 8))
    (hn : 1 ≤ (ov5640InitDMA A buf r.board).2.dma.numBlocks.toInt)
    (hs : duringCapture A buf acts r = some s) (hserved : s.unserved = false)
    (hD : (delivered acts).length < (ov5640InitDMA A buf r.board).2.dma.numBlocks.toNat *
      (ov5640InitDMA A buf r.board).2.dma.blockSize.toNat)
    (hbit : ClearsBefore (start + captureTimeout) readings) :
    ∃ r', ov5640Snapshot2RAM A buf noCameraFound acts start readings r = some (true, r') ∧
      r'.ramBufferLength.toNat ≤ buf.size.toNat ∧
      readBytes r'.mem buf.base.toNat r'.ramBufferLength.toNat =
        (delivered acts).rdropWhile (· = 0#8) := by
  obtain ⟨d, handler, hready⟩ := exists_ready hn
  rw [hready.dma, Dma.arm_numBlocks, Dma.arm_blockSize] at hD
  have hrun := (hready.duringCapture_eq acts).symm.trans hs
  have hc := hready.configured
  have hroom := hready.room
  obtain ⟨stored, hf⟩ := filling_run hc hready.small hready.fit.le (filling_armed hc handler _)
    (by simpa using hD.le) hrun
  rw [List.nil_append] at hf
  have hlength := hf.bytesReceived hc hready.small hready.fit hD hserved
  have hk := Nat.mul_le_mul_right d.blockSize.toNat
    (show stored.length + 1 ≤ _ from hf.stored_lt hD)
  have hdata : (delivered acts).length ≤ (stored.length + 1) * d.blockSize.toNat := by
    have hlen := hf.length_eq
    have hlt := hf.filled_lt
    rw [Nat.add_mul, Nat.one_mul, hc.blockSize_toNat] at *
    omega
  have hle := trimLength_le 0#8 (fun i => s.settled (buf.base.toNat + i))
    s.dma.dcmiDmaOpenEndedStop.dcmiDmaBytesReceived.toNat
  have htrim (n : ℕ) (h : n ≤ (stored.length + 1) * d.blockSize.toNat) :
      (BitVec.ofNat 32 n).toNat = n := by
    have hlt := buf.size.isLt
    rw [BitVec.toNat_ofNat]
    omega
  rw [hlength] at hle
  refine ⟨_, by simp only [ov5640Snapshot2RAM, hs, waitCapture_eq_true hbit]; rfl, ?_, ?_⟩
  · dsimp only
    rw [hlength, htrim _ hle]
    omega
  · dsimp only
    rw [hlength, htrim _ hle, readBytes_trimLength, hf.settled, hready.buffer,
      readBytes_over_clear r.mem hdata (by omega), rdropWhile_append_replicate]

def shortCapture : RamState (Option Isr) := ⟨⟨Dma.boot, none⟩, fun _ => 0xAA#8, 7#32⟩

def shortActs : List WordAct :=
  [.word 0xFF#8 0xD8#8 0x00#8 0x11#8, .interrupt htif, .word 0xD9#8 0x00#8 0x00#8 0x00#8, .drain]

theorem shortCapture_delivers : ∃ r',
    ov5640Snapshot2RAM tableEntry Mode.mode2048x1536.ramBuffer [] shortActs 0#32
      [(true, 10#32), (true, 20#32), (false, 30#32)] shortCapture = some (true, r') ∧
    readBytes r'.mem 0xD0000000 r'.ramBufferLength.toNat =
      [0xFF#8, 0xD8#8, 0x00#8, 0x11#8, 0xD9#8] := by
  have hs : ∃ s, duringCapture tableEntry Mode.mode2048x1536.ramBuffer shortActs shortCapture =
      some s ∧ s.unserved = false := ⟨_, rfl, rfl⟩
  obtain ⟨s, hs, hserved⟩ := hs
  have hbit : ClearsBefore (0#32 + captureTimeout)
      [(true, 10#32), (true, 20#32), (false, 30#32)] := by
    refine ⟨[(true, 10#32), (true, 20#32)], 30#32, [], rfl, fun p hp => ?_⟩
    rw [List.mem_cons, List.mem_singleton] at hp
    rcases hp with rfl | rfl
    · exact ⟨rfl, by decide⟩
    · exact ⟨rfl, by decide⟩
  obtain ⟨r', hr, -, hread⟩ :=
    snapshot2RAM_delivers [] (by decide) hs hserved (by decide) hbit
  exact ⟨r', hr, hread.trans (by decide)⟩

theorem exists_capture {A : StreamAllocator τ} {buf : RamBuffer} {r : RamState τ}
    (hn : 1 ≤ (ov5640InitDMA A buf r.board).2.dma.numBlocks.toInt)
    (ws : List (BitVec 8 × BitVec 8 × BitVec 8 × BitVec 8))
    (hD : 4 * ws.length < (ov5640InitDMA A buf r.board).2.dma.numBlocks.toNat *
      (ov5640InitDMA A buf r.board).2.dma.blockSize.toNat) :
    ∃ acts s, duringCapture A buf acts r = some s ∧ s.unserved = false ∧
      delivered acts = ws.flatMap fun w => [w.1, w.2.1, w.2.2.1, w.2.2.2] := by
  obtain ⟨d, handler, hready⟩ := exists_ready hn
  rw [hready.dma, Dma.arm_numBlocks, Dma.arm_blockSize] at hD
  obtain ⟨acts, s, hws, hrun, hserved⟩ := exists_run_delivering hready.configured hready.small
    hready.fit.le (filling_armed hready.configured handler _) rfl ws (by simpa using hD.le)
  exact ⟨acts, s, (hready.duringCapture_eq acts).trans hrun, hserved, hws⟩

end WaferSat.Camera
