import WaferSat.Camera.InitDma
import WaferSat.Foundation.GuardedRun

/-!
Captures one after the other. The stream is allocated by the first initialisation and never
released, and later initialisations do not look at the answer of the allocator, so the handler
of the first capture serves all the captures that follow.
-/
namespace WaferSat.Camera
open DcmiDma GuardedRun

variable {τ : Type*} {A : StreamAllocator τ} {buf : RamBuffer}

structure HistoryState (τ : Type*) where
  board : Board τ
  latest : Option Isr

inductive HistoryAct where
  | init (kind : Isr)
  | complete
  | interrupt (flags : BitVec 32)
  | stop
  | deinit
  deriving DecidableEq, Repr

/-- An interrupt goes to whatever handler is installed. Only initialisations that return
zero count. -/
def historyStep (A : StreamAllocator τ) (buf : RamBuffer) (s : HistoryState τ) :
    HistoryAct → Option (HistoryState τ)
  | .init kind =>
    let r := initDMAFor A buf kind s.board
    if r.1 = 0 then some ⟨r.2, some kind⟩ else none
  | .complete =>
    if s.board.dma.stream.cr.en = true then
      some { s with board := { s.board with
        dma := { s.board.dma with stream := s.board.dma.stream.complete } } }
    else none
  | .interrupt flags =>
    (A.installed s.board.hal).map fun handler =>
      { s with board := { s.board with dma := (handler.run flags s.board.dma).1 } }
  | .stop => some { s with board := { s.board with dma := s.board.dma.dcmiDmaOpenEndedStop } }
  | .deinit => some { s with board := ov5640DeinitDMA s.board }

/-- What the last block of a capture is meant to call. -/
def lastBlockCall : Isr → Slot × Option Callback
  | .shuffle => (.done, some .dmaAvail)
  | .shuffleOpenEnded => (.error, some .dmaError)

/-- The handler in place is the one asked for, and the block that reaches the count makes
the call that goes with it. -/
def HandlerCurrent (A : StreamAllocator τ) (s : HistoryState τ) : Prop :=
  ∀ kind, s.latest = some kind →
    A.installed s.board.hal = some kind ∧
    ∀ handler flags, A.installed s.board.hal = some handler → flagKind flags = .clean →
      s.board.dma.blocksDone + 1#32 = s.board.dma.numBlocks →
      (handler.run flags s.board.dma).2.map (fun c => (c.slot, c.callee)) = [lastBlockCall kind]

def CallbacksSet (d : Dma) : Prop :=
  d.dcmiDmaDoneCallback = some .dmaAvail ∧ d.dcmiDmaErrorCallback = some .dmaError

/-- All captures so far were of one kind. -/
def OnlyKind (A : StreamAllocator τ) (kind : Isr) (s : HistoryState τ) : Prop :=
  s.latest = none ∧ A.installed s.board.hal = none ∨
  s.latest = some kind ∧ A.installed s.board.hal = some kind ∧ CallbacksSet s.board.dma

variable {kind : Isr} {s t : HistoryState τ} {a : HistoryAct} {acts : List HistoryAct}

theorem run_callbacksSet {d : Dma} (h : CallbacksSet d) (handler : Isr) (flags : BitVec 32) :
    CallbacksSet (handler.run flags d).1 := by
  obtain ⟨lastBlock, hrun⟩ := handler.run_eq_isr
  obtain ⟨hdone, herror⟩ := Dma.isr_callbacks lastBlock flags d
  rw [hrun]
  exact ⟨hdone.trans h.1, herror.trans h.2⟩

theorem run_lastBlock {d : Dma} (h : CallbacksSet d) {flags : BitVec 32}
    (hk : flagKind flags = .clean) (hn : d.blocksDone + 1#32 = d.numBlocks) :
    (kind.run flags d).2.map (fun c => (c.slot, c.callee)) = [lastBlockCall kind] := by
  have hdone : d.count.dcmiDmaDoneCallback = some .dmaAvail := h.1
  have herror : d.count.dcmiDmaErrorCallback = some .dmaError := h.2
  cases kind with
  | shuffle =>
    simp [Isr.run, Dma.dcmiDmaShuffleIsr, Dma.isr_of_clean hk, hn, hdone, Dma.callDone,
      lastBlockCall]
  | shuffleOpenEnded =>
    simp [Isr.run, Dma.dcmiDmaShuffleIsrOpenEnded, Dma.isr_of_clean hk, hn, hdone, herror,
      Dma.callError, lastBlockCall]

theorem OnlyKind.handlerCurrent (h : OnlyKind A kind s) : HandlerCurrent A s := by
  intro kind' hl
  rcases h with ⟨hn, -⟩ | ⟨hs, hi, hc⟩
  · simp [hn] at hl
  · obtain rfl : kind = kind' := Option.some.inj (hs.symm.trans hl)
    refine ⟨hi, fun handler flags hh hk hn => ?_⟩
    obtain rfl : kind = handler := Option.some.inj (hi.symm.trans hh)
    exact run_lastBlock hc hk hn

theorem historyStep_cases (h : historyStep A buf s a = some t) :
    (∃ kind, a = .init kind ∧ initDMAFor A buf kind s.board = (0, t.board) ∧
      t.latest = some kind) ∨
    (t.latest = s.latest ∧ t.board.hal = s.board.hal ∧
      (CallbacksSet s.board.dma → CallbacksSet t.board.dma)) := by
  cases a with
  | init kind =>
    simp only [historyStep, Option.ite_none_right_eq_some, Option.some.injEq] at h
    obtain ⟨h0, rfl⟩ := h
    exact .inl ⟨kind, rfl, Prod.ext h0 rfl, rfl⟩
  | complete =>
    simp only [historyStep, Option.ite_none_right_eq_some, Option.some.injEq] at h
    obtain ⟨-, rfl⟩ := h
    exact .inr ⟨rfl, rfl, id⟩
  | interrupt flags =>
    obtain ⟨handler, -, rfl⟩ := Option.map_eq_some_iff.mp h
    exact .inr ⟨rfl, rfl, fun hc => run_callbacksSet hc handler flags⟩
  | stop =>
    obtain rfl := Option.some.inj h
    exact .inr ⟨rfl, rfl, id⟩
  | deinit =>
    obtain rfl := Option.some.inj h
    exact .inr ⟨rfl, rfl, id⟩

theorem installed_step {handler : Isr} (hs : A.installed s.board.hal = some handler)
    (h : historyStep A buf s a = some t) : A.installed t.board.hal = some handler := by
  rcases historyStep_cases h with ⟨_, -, hi, -⟩ | ⟨-, hhal, -⟩
  · simpa [hs] using installed_init hi
  · rw [hhal, hs]

theorem onlyKind_step (hs : OnlyKind A kind s) (ha : ∀ kind', a = .init kind' → kind' = kind)
    (h : historyStep A buf s a = some t) : OnlyKind A kind t := by
  rcases historyStep_cases h with ⟨kind', rfl, hi, hl⟩ | ⟨hl, hhal, hc⟩
  · obtain rfl := ha kind' rfl
    obtain ⟨d, -, hd, -, hdone, herror, -⟩ := initDMAFor_eq_zero hi
    refine .inr ⟨hl, ?_, by rw [hd]; exact ⟨hdone, herror⟩⟩
    rcases hs with ⟨-, hn⟩ | ⟨-, hn, -⟩ <;> simpa [hn] using installed_init hi
  · rcases hs with ⟨hn, hi⟩ | ⟨hn, hi, hset⟩
    · exact .inl ⟨hl.trans hn, hhal ▸ hi⟩
    · exact .inr ⟨hl.trans hn, hhal ▸ hi, hc hset⟩

theorem onlyKind_run (hs : OnlyKind A kind s)
    (hacts : ∀ kind', HistoryAct.init kind' ∈ acts → kind' = kind)
    (hr : run (historyStep A buf) s acts = some t) : OnlyKind A kind t := by
  induction acts generalizing s with
  | nil => exact Option.some.inj hr ▸ hs
  | cons a acts ih =>
    obtain ⟨u, hu, hr⟩ := run_cons_eq_some.mp hr
    refine ih (onlyKind_step hs (fun kind' ha => hacts kind' (by simp [ha])) hu) ?_ hr
    exact fun kind' hk => hacts kind' (List.mem_cons_of_mem _ hk)

theorem installed_of_current (hr : run (historyStep A buf) s acts = some t)
    (hcur : ∀ pre post u, acts = pre ++ post → run (historyStep A buf) s pre = some u →
      HandlerCurrent A u) (hk : HistoryAct.init kind ∈ acts) :
    A.installed t.board.hal = some kind := by
  obtain ⟨pre, post, rfl⟩ := List.append_of_mem hk
  obtain ⟨u, hpre, hrest⟩ := run_append_eq_some.mp hr
  obtain ⟨v, hv, hpost⟩ := run_cons_eq_some.mp hrest
  have hreach : run (historyStep A buf) s (pre ++ [.init kind]) = some v :=
    run_append_eq_some.mpr ⟨u, hpre, run_cons_eq_some.mpr ⟨v, hv, rfl⟩⟩
  have hlatest : v.latest = some kind := by
    simp only [historyStep, Option.ite_none_right_eq_some, Option.some.injEq] at hv
    rw [← hv.2]
  have hin := (hcur (pre ++ [.init kind]) post v (by simp) hreach kind hlatest).1
  exact run_invariant (I := fun s => A.installed s.board.hal = some kind)
    (fun _ _ _ hs ht => installed_step hs ht) hin hpost

/-- From a board whose stream has not been allocated, the handler asked for is in place in
every state of a run exactly when the run makes captures of one kind only. -/
theorem handlerCurrent_iff_one_kind {b : Board τ} (hfree : A.installed b.hal = none)
    (hr : run (historyStep A buf) ⟨b, none⟩ acts = some t) :
    (∀ pre post u, acts = pre ++ post → run (historyStep A buf) ⟨b, none⟩ pre = some u →
      HandlerCurrent A u) ↔
    ∀ k k', HistoryAct.init k ∈ acts → HistoryAct.init k' ∈ acts → k = k' := by
  constructor
  · intro hcur k k' hk hk'
    have h := installed_of_current hr hcur hk
    exact Option.some.inj (h.symm.trans (installed_of_current hr hcur hk'))
  · intro hone pre post u hacts hu
    have hbase (kind : Isr) : OnlyKind A kind ⟨b, none⟩ := .inl ⟨rfl, hfree⟩
    by_cases hex : ∃ kind, HistoryAct.init kind ∈ acts
    · obtain ⟨kind, hkind⟩ := hex
      refine (onlyKind_run (hbase kind) (fun kind' hk => ?_) hu).handlerCurrent
      exact hone kind' kind (by simp [hacts, hk]) hkind
    · refine (onlyKind_run (hbase .shuffle) (fun kind' hk => ?_) hu).handlerCurrent
      exact absurd ⟨kind', by simp [hacts, hk]⟩ hex

def bootBoard : Board (Option Isr) := ⟨Dma.boot, none⟩

theorem handlerCurrent_two_jpeg : ∃ t,
    run (historyStep tableEntry Mode.mode2048x1536.ramBuffer) ⟨bootBoard, none⟩
      [.init .shuffleOpenEnded, .complete, .interrupt tcif, .stop, .init .shuffleOpenEnded] =
        some t ∧
    HandlerCurrent tableEntry t := by
  have hrun : ∃ t, run (historyStep tableEntry Mode.mode2048x1536.ramBuffer) ⟨bootBoard, none⟩
      [.init .shuffleOpenEnded, .complete, .interrupt tcif, .stop, .init .shuffleOpenEnded] =
        some t := ⟨_, rfl⟩
  obtain ⟨t, ht⟩ := hrun
  refine ⟨t, ht, (handlerCurrent_iff_one_kind rfl ht).mpr (fun k k' hk hk' => ?_) _ [] t
    (by simp) ht⟩
  simp at hk hk'
  rw [hk, hk']

def afterRGB : ℤ × Board (Option Isr) :=
  thenArm (0, Board.configure tableEntry .shuffle { bootBoard with
    dma := { requestRGB Mode.mode2048x1536.ramBuffer Dma.boot with
      numBlocks := 32#32
      blockSize := 4#32 * 49152#32 } })

theorem afterRGB_eq :
    ov5640InitDMARGB tableEntry Mode.mode2048x1536.ramBuffer bootBoard = afterRGB := by
  have hf : factorBlocks 6291456#32 1#32 = some (32#32, 49152#32) := by simp [factorBlocks]
  exact congrArg thenArm (Board.dcmiDmaInit_of_factorBlocks (by decide) (by decide) hf)

def jpegOverrun : List HistoryAct :=
  .init .shuffleOpenEnded ::
    (List.replicate 22 [.complete, .interrupt tcif]).flatten ++ [.complete]

/-- After an RGB capture the overrun of a JPEG capture is reported as a complete picture. -/
theorem jpeg_after_rgb_reports_done : ∃ t,
    run (historyStep tableEntry Mode.mode2048x1536.ramBuffer) ⟨bootBoard, none⟩
      (.init .shuffle :: jpegOverrun) = some t ∧
    t.latest = some .shuffleOpenEnded ∧ t.board.hal = some .shuffle ∧
    t.board.dma.blocksDone + 1#32 = t.board.dma.numBlocks ∧
    (Isr.shuffle.run tcif t.board.dma).2.map (fun c => (c.slot, c.callee)) =
      [(.done, some .dmaAvail)] ∧
    ¬HandlerCurrent tableEntry t := by
  have hstep : historyStep tableEntry Mode.mode2048x1536.ramBuffer ⟨bootBoard, none⟩
      (.init .shuffle) = some ⟨afterRGB.2, some .shuffle⟩ := by
    simp only [historyStep, initDMAFor, afterRGB_eq]
    rfl
  have hrest : ∃ t, run (historyStep tableEntry Mode.mode2048x1536.ramBuffer)
      ⟨afterRGB.2, some .shuffle⟩ jpegOverrun = some t ∧
      t.latest = some .shuffleOpenEnded ∧ t.board.hal = some .shuffle ∧
      t.board.dma.blocksDone + 1#32 = t.board.dma.numBlocks ∧
      (Isr.shuffle.run tcif t.board.dma).2.map (fun c => (c.slot, c.callee)) =
        [(.done, some .dmaAvail)] := ⟨_, rfl, rfl, rfl, rfl, rfl⟩
  obtain ⟨t, ht, hl, hi, hn, hcall⟩ := hrest
  refine ⟨t, run_cons_eq_some.mpr ⟨_, hstep, ht⟩, hl, hi, hn, hcall, fun hcur => ?_⟩
  exact absurd (hi.symm.trans (hcur _ hl).1) (by decide)

end WaferSat.Camera
