import WaferSat.Camera.SnapshotRGB
import WaferSat.DcmiDma.Frame

/-!
`OV5640_Snapshot2RAM_RGB` on an armed stream: the statements of the thread, the words of the
camera, the FIFO of the stream and the interrupts in any order. A call that returns `true` has
seen the flag of the done callback, and the callback runs only when the whole frame is in.
-/
namespace WaferSat.Camera
open DcmiDma GuardedRun ByteMemory

/-- The capturing thread and the stream; the driver is the one of the stream. -/
structure FrameState where
  thread : Capture
  words : WordState

inductive FrameAct where
  | thread (now : BitVec 32)
  | dma (a : WordAct)
  deriving DecidableEq, Repr

/-- An activation of the handler makes its callbacks; everything else that the stream does goes
unnoticed by the thread. -/
def frameStep (s : FrameState) : FrameAct → Option FrameState
  | .thread now => some { s with thread := s.thread.thread now }
  | .dma a =>
    (wordStep .shuffle s.words a).bind fun words =>
      match a with
      | .interrupt flags => (s.thread.interrupt flags).map fun thread => ⟨thread, words⟩
      | _ => some ⟨{ s.thread with dma := words.dma }, words⟩

def streamActs (acts : List FrameAct) : List WordAct :=
  acts.filterMap fun
    | .thread _ => none
    | .dma a => some a

def clockReadings (acts : List FrameAct) : List (BitVec 32) :=
  acts.filterMap fun
    | .thread now => some now
    | .dma _ => none

def frameBytes (acts : List FrameAct) : List (BitVec 8) := delivered (streamActs acts)

def frameStart (d : Dma) (mem : ℕ → BitVec 8) (samplingFinished : Bool) : FrameState where
  thread := ⟨.initDCMI, samplingFinished, 0#32, none, d, false⟩
  words := ⟨d, false, 0, [], mem⟩

/-- All the bytes of the frame have come in and the last block has been served. -/
def Arrived (d : Dma) (D : List (BitVec 8)) (s : WordState) : Prop :=
  D.length = d.numBlocks.toNat * d.blockSize.toNat ∧ s.unserved = false

/-- The bytes `D` have come in and the clock has been read up to `t₀`. Once the flag has been
cleared it stands for the whole frame, and the wait ends by the flag or by the clock. -/
structure Framed (d : Dma) (mem : ℕ → BitVec 8) (D : List (BitVec 8)) (t₀ : BitVec 32)
    (s : FrameState) : Prop where
  dma : s.thread.dma = s.words.dma
  filling : ∃ stored, Filling .shuffle d mem D s.words stored
  flag : s.thread.result ≠ none ∨ s.thread.next ≠ .initDCMI ∧ s.thread.next ≠ .clearFlag →
    s.thread.samplingFinished = true → Arrived d D s.words
  leaving : s.thread.next = .check → s.thread.samplingFinished = true ∨ s.thread.timeout ≤ t₀
  returned : s.thread.result = some true → Arrived d D s.words

variable {d : Dma} {mem : ℕ → BitVec 8} {D : List (BitVec 8)} {t₀ : BitVec 32} {s t : FrameState}
  {acts : List FrameAct}

theorem framed_thread (h : Framed d mem D t₀ s) {now : BitVec 32} (hnow : t₀ ≤ now) :
    Framed d mem D now { s with thread := s.thread.thread now } := by
  have hflag := h.flag
  unfold Capture.thread
  cases hn : s.thread.next with
  | initDCMI =>
    refine ⟨h.dma, h.filling, fun hres hset => hflag (.inl ?_) hset, by simp, h.returned⟩
    simpa using hres
  | clearFlag => exact ⟨h.dma, h.filling, by simp, by simp, h.returned⟩
  | setDeadline =>
    exact ⟨h.dma, h.filling, fun _ hset => hflag (.inr (by simp [hn])) hset, by simp, h.returned⟩
  | poll =>
    dsimp only
    split_ifs with hwait
    · exact ⟨h.dma, h.filling, hflag, by simp [hn], h.returned⟩
    · refine ⟨h.dma, h.filling, fun _ hset => hflag (.inr (by simp [hn])) hset, fun _ => ?_,
        h.returned⟩
      by_cases hset : s.thread.samplingFinished = true
      · exact .inl hset
      · exact .inr (BitVec.not_lt.mp fun hlt => hwait ⟨Bool.eq_false_iff.mpr hset, hlt⟩)
  | check =>
    refine ⟨h.dma, h.filling, fun _ hset => hflag (.inr (by simp [hn])) hset, by simp,
      fun hres => ?_⟩
    have hearly : ¬now ≥ s.thread.timeout := by simpa using hres
    rcases h.leaving hn with hset | hlate
    · exact hflag (.inr (by simp [hn])) hset
    · exact absurd (BitVec.le_trans hlate hnow) hearly

theorem Arrived.step {w w' : WordState} {a : WordAct} (h : Arrived d D w)
    (hD : (D ++ delivered [a]).length ≤ d.numBlocks.toNat * d.blockSize.toNat)
    (ht : wordStep .shuffle w a = some w') : Arrived d (D ++ delivered [a]) w' := by
  have hnone : delivered [a] = [] := by
    rw [List.length_append, h.1] at hD
    exact List.length_eq_zero_iff.mp (by omega)
  rw [hnone, List.append_nil]
  refine ⟨h.1, ?_⟩
  cases a with
  | word => simp [delivered] at hnone
  | drain => exact (wordStep_drain ht).2.trans h.2
  | interrupt flags =>
    obtain ⟨-, rfl⟩ | ⟨-, hu, -⟩ := wordStep_interrupt ht
    · exact h.2
    · exact absurd (h.2.symm.trans hu) (by decide)

theorem arrived_of_avail {w w' : WordState} {stored : List Block} {flags : BitVec 32}
    (hc : Configured d) (hf : Filling .shuffle d mem D w stored)
    (hD : D.length ≤ d.numBlocks.toNat * d.blockSize.toNat)
    (ht : wordStep .shuffle w (.interrupt flags) = some w')
    (hcall : Capture.calls .dmaAvail flags w.dma = true) : Arrived d D w' := by
  obtain ⟨hk, -⟩ | ⟨hk, hu, rfl⟩ := wordStep_interrupt ht
  · simp [Capture.calls, Dma.dcmiDmaShuffleIsr, Dma.isr_of_half hk] at hcall
  · have hlast : w.dma.blocksDone + 1#32 = w.dma.numBlocks := by
      by_contra hne
      simp [Capture.calls, Dma.dcmiDmaShuffleIsr, Dma.isr_of_clean hk, hne] at hcall
    exact ⟨(hf.last_iff hc hD hu).mp hlast, rfl⟩

theorem framed_dma (hc : Configured d) (hn : d.numBlocks.toNat < 2 ^ 31)
    (hfit : d.dcmiDmaBuffer.toNat + d.numBlocks.toNat * d.blockSize.toNat ≤ 2 ^ 32)
    (h : Framed d mem D t₀ s) {a : WordAct}
    (hD : (D ++ delivered [a]).length ≤ d.numBlocks.toNat * d.blockSize.toNat)
    (ht : frameStep s (.dma a) = some t) : Framed d mem (D ++ delivered [a]) t₀ t := by
  obtain ⟨w, hw, ht⟩ := Option.bind_eq_some_iff.mp ht
  obtain ⟨stored, hf⟩ := h.filling
  have hfill := filling_step hc hn hfit hf hD hw
  have hquiet : Framed d mem (D ++ delivered [a]) t₀
      ⟨{ s.thread with dma := w.dma }, w⟩ :=
    ⟨rfl, hfill, fun hr hset => (h.flag hr hset).step hD hw, h.leaving,
      fun hr => (h.returned hr).step hD hw⟩
  cases a with
  | word | drain =>
    obtain rfl := Option.some.inj ht
    exact hquiet
  | interrupt flags =>
    have hdma : (s.thread.dma.dcmiDmaShuffleIsr flags).1 = w.dma := by
      rw [h.dma]
      obtain ⟨-, rfl⟩ | ⟨-, -, rfl⟩ := wordStep_interrupt hw <;> rfl
    obtain ⟨c, hcap, rfl⟩ := Option.map_eq_some_iff.mp ht
    unfold Capture.interrupt at hcap
    dsimp only at hcap
    rw [hdma] at hcap
    split_ifs at hcap with _ havail
    · obtain rfl := Option.some.inj hcap
      rw [h.dma] at havail
      have hall : Arrived d (D ++ delivered [.interrupt flags]) w := by
        have hnone : delivered [.interrupt flags] = [] := rfl
        rw [hnone, List.append_nil] at hD ⊢
        exact arrived_of_avail hc hf hD hw havail
      exact ⟨rfl, hfill, fun _ _ => hall, fun _ => .inl rfl, fun _ => hall⟩
    · obtain rfl := Option.some.inj hcap
      exact hquiet

theorem framed_run (hc : Configured d) (hn : d.numBlocks.toNat < 2 ^ 31)
    (hfit : d.dcmiDmaBuffer.toNat + d.numBlocks.toNat * d.blockSize.toNat ≤ 2 ^ 32)
    (h : Framed d mem D t₀ s) (hclock : (t₀ :: clockReadings acts).Pairwise (· ≤ ·))
    (hD : (D ++ frameBytes acts).length ≤ d.numBlocks.toNat * d.blockSize.toNat)
    (hr : run frameStep s acts = some t) : ∃ t₁, Framed d mem (D ++ frameBytes acts) t₁ t := by
  induction acts generalizing s D t₀ with
  | nil =>
    obtain rfl := Option.some.inj hr
    exact ⟨t₀, by simpa [frameBytes, streamActs, delivered] using h⟩
  | cons a acts ih =>
    obtain ⟨u, hu, hrest⟩ := run_cons_eq_some.mp hr
    cases a with
    | thread now =>
      have hreadings : clockReadings (.thread now :: acts) = now :: clockReadings acts := rfl
      rw [hreadings] at hclock
      obtain rfl := Option.some.inj hu
      have hnow : t₀ ≤ now := (List.pairwise_cons.mp hclock).1 now (by simp)
      exact ih (framed_thread h hnow) (List.pairwise_cons.mp hclock).2 hD hrest
    | dma a =>
      have hbytes : frameBytes (.dma a :: acts) = delivered [a] ++ frameBytes acts :=
        delivered_cons a (streamActs acts)
      rw [hbytes, ← List.append_assoc] at hD ⊢
      exact ih (framed_dma hc hn hfit h (by rw [List.length_append] at hD; omega) hu) hclock hD
        hrest

theorem framed_start (hc : Configured d) (mem : ℕ → BitVec 8) (flag : Bool) :
    Framed d mem [] 0#32 (frameStart d.dcmiDmaArm mem flag) :=
  ⟨rfl, ⟨[], filling_armed hc .shuffle mem⟩, by simp [frameStart], by simp [frameStart],
    by simp [frameStart]⟩

/-- `OV5640_InitDMA_RGB` and a call of `OV5640_Snapshot2RAM_RGB` after it. The stream keeps the
handler it was allocated with, so the capture runs only if that is the fixed-size one. -/
def captureRGB {τ : Type*} (A : StreamAllocator τ) (buf : RamBuffer) (acts : List FrameAct)
    (b : Board τ) (mem : ℕ → BitVec 8) (samplingFinished : Bool) : Option FrameState :=
  let b := (ov5640InitDMARGB A buf b).2
  if A.installed b.hal = some .shuffle then
    run frameStep (frameStart b.dma mem samplingFinished) acts
  else none

/-- The set-up of a capture of the whole buffer. -/
structure FrameReady {τ : Type*} (A : StreamAllocator τ) (buf : RamBuffer) (b : Board τ)
    (d : Dma) : Prop where
  dma : (ov5640InitDMARGB A buf b).2.dma = d.dcmiDmaArm
  configured : Configured d
  buffer : d.dcmiDmaBuffer = buf.base
  done : d.dcmiDmaDoneCallback = some .dmaAvail
  pos : 1 ≤ d.numBlocks.toNat
  small : d.numBlocks.toNat < 2 ^ 31
  size : d.numBlocks.toNat * d.blockSize.toNat = buf.size.toNat

theorem exists_frameReady {τ : Type*} {A : StreamAllocator τ} {buf : RamBuffer} {b : Board τ}
    (hinit : (ov5640InitDMARGB A buf b).1 = 0) : ∃ d, FrameReady A buf b d := by
  have h0 : Board.dcmiDmaInit A { b with dma := requestRGB buf b.dma } =
      (0, (Board.dcmiDmaInit A { b with dma := requestRGB buf b.dma }).2) := Prod.ext hinit rfl
  obtain ⟨hbase, hpos, hsize, -⟩ := fixedSize_geometry h0
  exact ⟨_, rfl, @Board.configured_of_init _ A .shuffle _ _ h0, hbase,
    (@Board.initFor_keeps _ A .shuffle _ _ h0).2.1, hpos, fixedSize_small h0, hsize⟩

theorem FrameReady.fit {τ : Type*} {A : StreamAllocator τ} {buf : RamBuffer} {b : Board τ}
    (h : FrameReady A buf b d) :
    d.dcmiDmaBuffer.toNat + d.numBlocks.toNat * d.blockSize.toNat ≤ 2 ^ 32 := by
  rw [h.buffer, h.size]
  exact buf.fits

/-- A call that returns `true` leaves the whole frame in the buffer, each byte in its place, and
the stream off. The camera is taken to send no more than a frame, and the system time not to
wrap during the call. -/
theorem captureRGB_delivers {τ : Type*} {A : StreamAllocator τ} {buf : RamBuffer} {b : Board τ}
    {flag : Bool} (hinit : (ov5640InitDMARGB A buf b).1 = 0)
    (hclock : (clockReadings acts).Pairwise (· ≤ ·))
    (hD : (frameBytes acts).length ≤ buf.size.toNat)
    (hrun : captureRGB A buf acts b mem flag = some s) (htrue : s.thread.result = some true) :
    (frameBytes acts).length = buf.size.toNat ∧
      s.words.settled = writeBytes buf.base.toNat (frameBytes acts) mem ∧
      s.words.dma.stream.cr.en = false := by
  obtain ⟨d, h⟩ := exists_frameReady hinit
  rw [captureRGB, Option.ite_none_right_eq_some, h.dma] at hrun
  have hclock0 : (0#32 :: clockReadings acts).Pairwise (· ≤ ·) :=
    List.pairwise_cons.mpr ⟨fun now _ => Nat.zero_le now.toNat, hclock⟩
  obtain ⟨t₁, hframed⟩ := framed_run h.configured h.small h.fit
    (framed_start h.configured mem flag) hclock0 (by rw [h.size]; exact hD) hrun.2
  rw [List.nil_append] at hframed
  obtain ⟨stored, hf⟩ := hframed.filling
  have hall := hframed.returned htrue
  exact ⟨hall.1.trans h.size, h.buffer ▸ hf.settled, hf.off h.configured h.pos hall.1 hall.2⟩

def SameCall (c c' : Capture) : Prop :=
  c'.next = c.next ∧ c'.timeout = c.timeout ∧ c'.result = c.result

theorem calls_dmaError_of_clean {flags : BitVec 32} {e : Dma} (hk : flagKind flags ≠ .error)
    (hdone : e.dcmiDmaDoneCallback = some .dmaAvail) :
    Capture.calls .dmaError flags e = false := by
  cases hf : flagKind flags with
  | error => exact absurd hf hk
  | half => simp [Capture.calls, Dma.dcmiDmaShuffleIsr, Dma.isr_of_half hf]
  | clean =>
    by_cases hlast : e.blocksDone + 1#32 = e.numBlocks <;>
      simp [Capture.calls, Dma.dcmiDmaShuffleIsr, Dma.isr_of_clean hf, hlast, Dma.callDone,
        Dma.count, hdone]

theorem exists_frame_step (hc : Configured d) (hn : d.numBlocks.toNat < 2 ^ 31)
    (hdone : d.dcmiDmaDoneCallback = some .dmaAvail)
    {stored : List Block} (hf : Filling .shuffle d mem D s.words stored)
    (hdma : s.thread.dma = s.words.dma)
    (hflag : Arrived d D s.words → s.thread.samplingFinished = true) {a : WordAct} {w : WordState}
    (hD : (D ++ delivered [a]).length ≤ d.numBlocks.toNat * d.blockSize.toNat)
    (hw : wordStep .shuffle s.words a = some w) :
    ∃ c, frameStep s (.dma a) = some ⟨c, w⟩ ∧ c.dma = w.dma ∧ SameCall s.thread c ∧
      (Arrived d (D ++ delivered [a]) w → c.samplingFinished = true) := by
  cases a with
  | word b₀ b₁ b₂ b₃ =>
    refine ⟨{ s.thread with dma := w.dma }, by simp [frameStep, hw], rfl, ⟨rfl, rfl, rfl⟩, ?_⟩
    rintro ⟨hlen, hserved⟩
    have hbytes : delivered [.word b₀ b₁ b₂ b₃] = [b₀, b₁, b₂, b₃] := rfl
    rw [hbytes, List.length_append] at hlen
    exact absurd ((hf.last_word hc hn hlen hw).symm.trans hserved) (by decide)
  | drain =>
    refine ⟨{ s.thread with dma := w.dma }, by simp [frameStep, hw], rfl, ⟨rfl, rfl, rfl⟩, ?_⟩
    have hnone : delivered [.drain] = [] := rfl
    rw [hnone, List.append_nil]
    rintro ⟨hlen, hserved⟩
    exact hflag ⟨hlen, (wordStep_drain hw).2.symm.trans hserved⟩
  | interrupt flags =>
    have hnone : delivered [.interrupt flags] = [] := rfl
    rw [hnone, List.append_nil] at hD ⊢
    have hcallback : s.words.dma.dcmiDmaDoneCallback = some .dmaAvail :=
      hf.reach.counted.done.trans hdone
    have hkind : flagKind flags ≠ .error := by
      obtain ⟨hk, -⟩ | ⟨hk, -⟩ := wordStep_interrupt hw <;> simp [hk]
    have hisr : (s.thread.dma.dcmiDmaShuffleIsr flags).1 = w.dma := by
      rw [hdma]
      obtain ⟨-, rfl⟩ | ⟨-, -, rfl⟩ := wordStep_interrupt hw <;> rfl
    have herror := calls_dmaError_of_clean hkind hcallback
    by_cases havail : Capture.calls .dmaAvail flags s.words.dma = true
    · refine ⟨{ s.thread with dma := w.dma, samplingFinished := true, completed := true }, ?_,
        rfl, ⟨rfl, rfl, rfl⟩, fun _ => rfl⟩
      simp only [frameStep, hw, Option.bind_some, Capture.interrupt, hisr]
      simp [hdma, herror, havail]
    · refine ⟨{ s.thread with dma := w.dma }, ?_, rfl, ⟨rfl, rfl, rfl⟩, ?_⟩
      · simp only [frameStep, hw, Option.bind_some, Capture.interrupt, hisr]
        simp [hdma, herror, havail]
      · rintro ⟨hlen, hserved⟩
        obtain ⟨-, rfl⟩ | ⟨hk, hu, -⟩ := wordStep_interrupt hw
        · exact hflag ⟨hlen, hserved⟩
        · have hlast := (hf.last_iff hc hD hu).mpr hlen
          refine absurd ?_ havail
          simp [Capture.calls, Dma.dcmiDmaShuffleIsr, Dma.isr_of_clean hk, hlast, Dma.callDone,
            Dma.count, hcallback]

/-- Whatever the stream does next to a waiting thread, the flag is set once the frame has
arrived. -/
theorem exists_frame_run (hc : Configured d) (hn : d.numBlocks.toNat < 2 ^ 31)
    (hfit : d.dcmiDmaBuffer.toNat + d.numBlocks.toNat * d.blockSize.toNat ≤ 2 ^ 32)
    (hdone : d.dcmiDmaDoneCallback = some .dmaAvail)
    {stored : List Block} (hf : Filling .shuffle d mem D s.words stored)
    (hdma : s.thread.dma = s.words.dma)
    (hflag : Arrived d D s.words → s.thread.samplingFinished = true) {was : List WordAct}
    {w : WordState} (hD : (D ++ delivered was).length ≤ d.numBlocks.toNat * d.blockSize.toNat)
    (hw : run (wordStep .shuffle) s.words was = some w) :
    ∃ c, run frameStep s (was.map .dma) = some ⟨c, w⟩ ∧ SameCall s.thread c ∧
      (Arrived d (D ++ delivered was) w → c.samplingFinished = true) := by
  induction was generalizing s D stored with
  | nil =>
    obtain rfl := Option.some.inj hw
    refine ⟨s.thread, rfl, ⟨rfl, rfl, rfl⟩, ?_⟩
    simpa [delivered] using hflag
  | cons a was ih =>
    obtain ⟨u, hu, hrest⟩ := run_cons_eq_some.mp hw
    rw [delivered_cons, ← List.append_assoc] at hD ⊢
    have hD' : (D ++ delivered [a]).length ≤ d.numBlocks.toNat * d.blockSize.toNat := by
      rw [List.length_append] at hD
      omega
    obtain ⟨c, hc₁, hcdma, hsame, hcflag⟩ :=
      exists_frame_step hc hn hdone hf hdma hflag hD' hu
    obtain ⟨stored', hf'⟩ := filling_step hc hn hfit hf hD' hu
    obtain ⟨c', hrun, hsame', hc'flag⟩ := @ih _ ⟨c, u⟩ _ hf' hcdma hcflag hD hrest
    refine ⟨c', run_cons_eq_some.mpr ⟨_, hc₁, hrun⟩, ?_, hc'flag⟩
    exact ⟨hsame'.1.trans hsame.1, hsame'.2.1.trans hsame.2.1, hsame'.2.2.trans hsame.2.2⟩

theorem length_words (ws : List (BitVec 8 × BitVec 8 × BitVec 8 × BitVec 8)) :
    (ws.flatMap fun w => [w.1, w.2.1, w.2.2.1, w.2.2.2]).length = 4 * ws.length := by
  rw [List.length_flatMap]
  simp [Nat.mul_comm]

theorem exists_captureRGB {τ : Type*} {A : StreamAllocator τ} {buf : RamBuffer} {b : Board τ}
    (mem : ℕ → BitVec 8) (flag : Bool) (hinit : (ov5640InitDMARGB A buf b).1 = 0)
    (hisr : A.installed (ov5640InitDMARGB A buf b).2.hal = some .shuffle)
    (ws : List (BitVec 8 × BitVec 8 × BitVec 8 × BitVec 8)) (hws : 4 * ws.length = buf.size.toNat) :
    ∃ acts s, captureRGB A buf acts b mem flag = some s ∧ s.thread.result = some true ∧
      (clockReadings acts).Pairwise (· ≤ ·) ∧
      frameBytes acts = ws.flatMap fun w => [w.1, w.2.1, w.2.2.1, w.2.2.2] := by
  obtain ⟨d, h⟩ := exists_frameReady hinit
  have hne : buf.size.toNat ≠ 0 := fun hz => buf.size_ne (BitVec.eq_of_toNat_eq hz)
  obtain ⟨was, w, hbytes, hw, hserved⟩ := exists_run_delivering h.configured h.small h.fit
    (filling_armed h.configured .shuffle mem) rfl ws (by
      rw [h.size, List.length_nil]
      omega)
  have hlen : (delivered was).length = buf.size.toNat := by
    rw [hbytes, length_words, hws]
  let waiting : FrameState :=
    ⟨⟨.poll, false, 0#32 + samplingTimeout, none, d.dcmiDmaArm, false⟩, armedWords d mem⟩
  obtain ⟨c, hrun, ⟨hnext, htimeout, hresult⟩, hset⟩ := exists_frame_run (s := waiting)
    h.configured h.small h.fit h.done (filling_armed h.configured .shuffle mem) rfl
    (fun harrived => absurd (harrived.1.trans h.size).symm hne)
    (by rw [List.nil_append, hlen, h.size]) hw
  rw [List.nil_append] at hset
  have hflag : c.samplingFinished = true := hset ⟨hlen.trans h.size.symm, hserved⟩
  have hend : ∃ s, run frameStep ⟨c, w⟩ [.thread 0#32, .thread 0#32] = some s ∧
      s.thread.result = some true := by
    refine ⟨_, rfl, ?_⟩
    simp [Capture.thread, hnext, htimeout, hflag, waiting, samplingTimeout]
  obtain ⟨s, hlast, htrue⟩ := hend
  refine ⟨[.thread 0#32, .thread 0#32, .thread 0#32] ++ (was.map .dma ++
    [.thread 0#32, .thread 0#32]), s, ?_, htrue, ?_, ?_⟩
  · rw [captureRGB, if_pos hisr, h.dma]
    exact run_append_eq_some.mpr ⟨waiting, rfl, run_append_eq_some.mpr ⟨_, hrun, hlast⟩⟩
  · simp [clockReadings, List.filterMap_map]
  · rw [← hbytes, frameBytes]
    have hstream : streamActs ([.thread 0#32, .thread 0#32, .thread 0#32] ++ (was.map .dma ++
        [.thread 0#32, .thread 0#32])) = was := by
      simp [streamActs, List.filterMap_map]
    rw [hstream]

theorem ramBuffer_size (m : Mode) : m.ramBuffer.size.toNat = m.ramBufferBytes := by
  cases m <;> decide

theorem initDMARGB_mode {τ : Type*} (A : StreamAllocator τ) (m : Mode) (b : Board τ) :
    (ov5640InitDMARGB A m.ramBuffer b).1 = 0 := by
  have hsplit : ∃ n, n ∈ splits m.ramBuffer.size.toNat := by
    rw [ramBuffer_size]
    cases m with
    | mode320x240 => exact ⟨1, by decide, 38400, by decide, by decide, by decide⟩
    | mode640x480 => exact ⟨3, by decide, 51200, by decide, by decide, by decide⟩
    | mode1280x960 => exact ⟨10, by decide, 61440, by decide, by decide, by decide⟩
    | mode1280x960x2x2 => exact ⟨10, by decide, 61440, by decide, by decide, by decide⟩
    | mode2048x1536 => exact ⟨32, by decide, 49152, by decide, by decide, by decide⟩
  obtain ⟨n, hn⟩ := hsplit
  obtain ⟨r, hr⟩ := factorBlocks_of_split hn
  have hinit := Board.dcmiDmaInit_of_factorBlocks (A := A)
    (b := { b with dma := requestRGB m.ramBuffer b.dma }) m.ramBuffer.base_ne m.ramBuffer.size_ne hr
  exact congrArg Prod.fst hinit

theorem installed_initDMARGB {τ : Type*} {A : StreamAllocator τ} {b : Board τ} (m : Mode)
    (hfree : A.installed b.hal = none) :
    A.installed (ov5640InitDMARGB A m.ramBuffer b).2.hal = some .shuffle := by
  have hinit : initDMAFor A m.ramBuffer .shuffle b = (0, (ov5640InitDMARGB A m.ramBuffer b).2) :=
    Prod.ext (initDMARGB_mode A m b) rfl
  rw [installed_init hinit, hfree]
  rfl

end WaferSat.Camera
