import WaferSat.Camera.Snapshot
import WaferSat.Image.WriteJpeg

/-!
The shell command `cmd_image` from the camera to the card: capture a picture, give up if no file
system is mounted, otherwise store the picture under the next free name and start again. Every
file that the loop reports written keeps the picture of its own capture to the end of the run.
-/
namespace WaferSat.Commands
open Camera DcmiDma ByteMemory Image

variable {τ φ : Type*}

/-- A volume that can be mounted, on which a write that reports success has stored its data and
a successful close keeps them. -/
structure StoringVolume (φ : Type*) extends Volume φ where
  fMount : φ → FResult × φ
  mount_keeps : ∀ s, content (fMount s).2 = content s
  write_stores : ∀ name data s, (fWrite (some name) data s).1 = .ok →
    data.length ≤ (fWrite (some name) data s).2.1 →
    content (fWrite (some name) data s).2.2 name = (content s name).map (· ++ data)
  close_keeps : ∀ name s, (fClose (some name) s).1 = .ok →
    content (fClose (some name) s).2 = content s

/-- What one turn of the loop meets: the words, interrupts and clock readings of its capture, and
the flag of the card monitor after it. -/
structure Turn where
  acts : List WordAct
  start : BitVec 32
  readings : List (Bool × BitVec 32)
  fsReady : Bool

structure ImageState (τ φ : Type*) where
  ram : RamState τ
  store : Store φ

/-- A turn that came to `write_jpeg`: the state it found, the value of its capture, the call, and
the result of `f_close` if it came to that. The loop looks at none of these values. -/
structure Shot (τ φ : Type*) where
  turn : Turn
  before : RamState τ
  captured : Bool
  call : Call φ
  closed : Option FResult

structure ImageRun (τ φ : Type*) where
  shots : List (Shot τ φ)
  state : ImageState τ φ
  returned : Bool

/-- The result of `f_close` that `write_jpeg` drops. -/
def closeResult (V : Volume φ) (data : List (BitVec 8)) (s : Store φ) : Option FResult :=
  let (fr, index, card) := openUnused V s
  let fil := if fr = .ok then some (filename index) else none
  let (fr, bw, card) := V.fWrite fil data card
  if fr ≠ .ok ∨ bw < data.length then none else some (V.fClose fil card).1

section Loop

variable (A : StreamAllocator τ) (V : StoringVolume φ) (buf : RamBuffer)
  (noCameraFound : List (BitVec 8))

/-- The first turns of the endless loop; it ends early with the turn that finds no file system. -/
def imageLoop : List Turn → ImageState τ φ → Option (ImageRun τ φ)
  | [], s => some ⟨[], s, false⟩
  | x :: xs, s =>
    (ov5640Snapshot2RAM A buf noCameraFound x.acts x.start x.readings s.ram).bind fun shot =>
    if x.fsReady = false then some ⟨[], { s with ram := shot.2 }, true⟩
    else
      let data := readBytes shot.2.mem buf.base.toNat shot.2.ramBufferLength.toNat
      let store : Store φ := ⟨(V.fMount s.store.card).2, s.store.imageIndex⟩
      (imageLoop xs ⟨shot.2, (writeJpeg V.toVolume data store).2⟩).map fun r =>
        { r with shots := ⟨x, s.ram, shot.1, callOf V.toVolume data store,
          closeResult V.toVolume data store⟩ :: r.shots }

def cmdImage (argc : ℕ) (turns : List Turn) (s : ImageState τ φ) : Option (ImageRun τ φ) :=
  if argc > 0 then some ⟨[], s, true⟩ else imageLoop A V buf noCameraFound turns s

end Loop

variable {A : StreamAllocator τ} {V : StoringVolume φ} {buf : RamBuffer}
  {noCameraFound : List (BitVec 8)}

/-- The bytes below the block count of an open-ended capture. -/
def captureLimit (buf : RamBuffer) : ℕ := (buf.size / 262136#32 - 1#32).toNat * openEndedBytes

/-- The picture of a capture: the bytes of the camera without the zeros at their end, or the
picture that stands for a missing camera. -/
def Shot.picture (noCameraFound : List (BitVec 8)) (x : Shot τ φ) : List (BitVec 8) :=
  if x.captured = true then (delivered x.turn.acts).rdropWhile (· = 0#8) else noCameraFound

/-- The camera sent less than the block count of the capture holds, and the interrupt of each
completed block was served before the stream was stopped. -/
structure Shot.Regular (A : StreamAllocator τ) (buf : RamBuffer) (x : Shot τ φ) : Prop where
  short : (delivered x.turn.acts).length < captureLimit buf
  served : ∀ s, duringCapture A buf x.turn.acts x.before = some s → s.unserved = false

theorem snapshot2RAM_cases {acts : List WordAct} {start : BitVec 32}
    {readings : List (Bool × BitVec 32)} {r r' : RamState τ} {captured : Bool}
    (h : ov5640Snapshot2RAM A buf noCameraFound acts start readings r = some (captured, r')) :
    ∃ s, duringCapture A buf acts r = some s ∧
      ((captured = false ∧ r'.mem = writeBytes buf.base.toNat noCameraFound s.settled ∧
        r'.ramBufferLength = BitVec.ofNat 32 noCameraFound.length) ∨
      (captured = true ∧ r'.mem = s.settled ∧ r'.ramBufferLength = BitVec.ofNat 32
        (trimLength 0#8 (fun i => s.settled (buf.base.toNat + i))
          s.dma.dcmiDmaOpenEndedStop.dcmiDmaBytesReceived.toNat))) := by
  obtain ⟨s, hs, h⟩ := Option.bind_eq_some_iff.mp h
  obtain ⟨finished, -, h⟩ := Option.map_eq_some_iff.mp h
  refine ⟨s, hs, ?_⟩
  cases finished with
  | false =>
    obtain ⟨rfl, rfl⟩ := Prod.mk.inj h
    exact .inl ⟨rfl, rfl, rfl⟩
  | true =>
    obtain ⟨rfl, rfl⟩ := Prod.mk.inj h
    exact .inr ⟨rfl, rfl, rfl⟩

theorem trimmed_settled {r : RamState τ} {acts : List WordAct} {s : WordState}
    (hn : 1 ≤ (buf.size / 262136#32 - 1#32).toInt) (hs : duringCapture A buf acts r = some s)
    (hserved : s.unserved = false) (hshort : (delivered acts).length < captureLimit buf) :
    s.dma.dcmiDmaOpenEndedStop.dcmiDmaBytesReceived.toNat ≤ buf.size.toNat ∧
    readBytes s.settled buf.base.toNat
      (trimLength 0#8 (fun i => s.settled (buf.base.toNat + i))
        s.dma.dcmiDmaOpenEndedStop.dcmiDmaBytesReceived.toNat) =
      (delivered acts).rdropWhile (· = 0#8) := by
  obtain ⟨d₁, hd₁, -, -, hsize, hcount, -⟩ := ov5640InitDMA_armed A buf r.board
  have hblocks : 1 ≤ (ov5640InitDMA A buf r.board).2.dma.numBlocks.toInt := by
    rw [hd₁, Dma.arm_numBlocks, hcount]
    exact hn
  obtain ⟨d, handler, h⟩ := exists_ready hblocks
  have hlimit : captureLimit buf = d.numBlocks.toNat * d.blockSize.toNat := by
    have hsame : d.dcmiDmaArm = d₁.dcmiDmaArm := h.dma.symm.trans hd₁
    have hnum : d.numBlocks = d₁.numBlocks := by
      rw [← Dma.arm_numBlocks d, hsame, Dma.arm_numBlocks]
    have hbytes : d.blockSize = d₁.blockSize := by
      rw [← Dma.arm_blockSize d, hsame, Dma.arm_blockSize]
    rw [captureLimit, hnum, hbytes, hsize, hcount]
  rw [hlimit] at hshort
  have hrun := (h.duringCapture_eq acts).symm.trans hs
  obtain ⟨stored, hf⟩ := filling_run h.configured h.small h.fit.le
    (filling_armed h.configured handler _) (by simpa using hshort.le) hrun
  rw [List.nil_append] at hf
  have hreceived := hf.bytesReceived h.configured h.small h.fit hshort hserved
  have hblocks := Nat.mul_le_mul_right d.blockSize.toNat
    (show stored.length + 1 ≤ _ from hf.stored_lt hshort)
  have hroom := h.room
  have hdata : (delivered acts).length ≤ (stored.length + 1) * d.blockSize.toNat := by
    have hlen := hf.length_eq
    have hlt := hf.filled_lt
    have hwords := h.configured.blockSize_toNat
    rw [Nat.add_mul, Nat.one_mul]
    omega
  rw [hreceived]
  refine ⟨by omega, ?_⟩
  rw [readBytes_trimLength, hf.settled, h.buffer, readBytes_over_clear r.mem hdata (by omega),
    rdropWhile_append_replicate]

theorem snapshot2RAM_picture (hn : 1 ≤ (buf.size / 262136#32 - 1#32).toInt)
    (hpicture : noCameraFound.length < 2 ^ 32) {x : Turn} {r r' : RamState τ} {captured : Bool}
    (h : ov5640Snapshot2RAM A buf noCameraFound x.acts x.start x.readings r = some (captured, r'))
    (hregular : captured = true → (delivered x.acts).length < captureLimit buf ∧
      ∀ s, duringCapture A buf x.acts r = some s → s.unserved = false) :
    readBytes r'.mem buf.base.toNat r'.ramBufferLength.toNat =
      if captured = true then (delivered x.acts).rdropWhile (· = 0#8) else noCameraFound := by
  obtain ⟨s, hs, ⟨rfl, hmem, hlen⟩ | ⟨rfl, hmem, hlen⟩⟩ := snapshot2RAM_cases h
  · rw [hmem, hlen, BitVec.toNat_ofNat, Nat.mod_eq_of_lt hpicture, readBytes_writeBytes]
    rfl
  · obtain ⟨hshort, hserved⟩ := hregular rfl
    obtain ⟨hreceived, hread⟩ := trimmed_settled hn hs (hserved s hs) hshort
    have htrim := (trimLength_le 0#8 (fun i => s.settled (buf.base.toNat + i))
      s.dma.dcmiDmaOpenEndedStop.dcmiDmaBytesReceived.toNat).trans hreceived
    rw [hmem, hlen, BitVec.toNat_ofNat, Nat.mod_eq_of_lt (htrim.trans_lt buf.size.isLt), hread]
    rfl

theorem writeJpeg_stores (V : StoringVolume φ) (data : List (BitVec 8)) (s : Store φ)
    (hreported : (callOf V.toVolume data s).reported = true)
    (hclosed : closeResult V.toVolume data s = some .ok) :
    V.content (callOf V.toVolume data s).after.card
      (filename (callOf V.toVolume data s).written) = some data := by
  have hopen := opened_openUnused V.toVolume s
  simp only [callOf, Call.written, writeJpeg, closeResult] at hreported hclosed ⊢
  generalize openUnused V.toVolume s = r at hopen hreported hclosed ⊢
  obtain ⟨fr, index, card⟩ := r
  simp only at hopen hreported hclosed ⊢
  by_cases hok : fr = .ok
  · simp only [hok, if_true] at hreported hclosed ⊢
    split_ifs at hreported hclosed ⊢ with hfail
    rw [not_or, not_not, not_lt] at hfail
    have hcreated := (hopen.creates hok).2
    rw [Nat.add_sub_cancel, V.close_keeps _ _ (Option.some.inj hclosed),
      V.write_stores _ _ _ hfail.1 hfail.2, hcreated, Function.update_self]
    rfl
  · have hfail := (V.write_invalid data card).1
    simp [hok, hfail] at hreported

theorem turn_untouched (V : StoringVolume φ) (data : List (BitVec 8)) (s : Store φ) {name : Name}
    {content : List (BitVec 8)} (h : V.content s.card name = some content) :
    V.content (writeJpeg V.toVolume data ⟨(V.fMount s.card).2, s.imageIndex⟩).2.card name =
      some content := by
  have hmount : V.content (V.fMount s.card).2 name = some content := by
    rw [V.mount_keeps, h]
  have hkeeps := (keepsFiles_callOf V.toVolume data ⟨(V.fMount s.card).2, s.imageIndex⟩).untouched
    name (by simp [callOf, hmount])
  exact hkeeps.trans hmount

theorem imageLoop_untouched {turns : List Turn} {s : ImageState τ φ} {out : ImageRun τ φ}
    (h : imageLoop A V buf noCameraFound turns s = some out) {name : Name}
    {content : List (BitVec 8)} (hfile : V.content s.store.card name = some content) :
    V.content out.state.store.card name = some content := by
  induction turns generalizing s out with
  | nil =>
    obtain rfl := Option.some.inj h
    exact hfile
  | cons x xs ih =>
    obtain ⟨shot, -, h⟩ := Option.bind_eq_some_iff.mp h
    split_ifs at h with hready
    · obtain rfl := Option.some.inj h
      exact hfile
    · obtain ⟨r, hr, rfl⟩ := Option.map_eq_some_iff.mp h
      show V.content r.state.store.card name = some content
      exact ih hr (turn_untouched V _ s.store hfile)

theorem imageLoop_turns {turns : List Turn} {s : ImageState τ φ} {out : ImageRun τ φ}
    (h : imageLoop A V buf noCameraFound turns s = some out) :
    out.shots.map (·.turn) = turns.takeWhile (·.fsReady) ∧
      (out.returned = true ↔ ∃ x ∈ turns, x.fsReady = false) := by
  induction turns generalizing s out with
  | nil =>
    obtain rfl := Option.some.inj h
    simp
  | cons x xs ih =>
    obtain ⟨shot, -, h⟩ := Option.bind_eq_some_iff.mp h
    split_ifs at h with hready
    · obtain rfl := Option.some.inj h
      simp [hready]
    · obtain ⟨r, hr, rfl⟩ := Option.map_eq_some_iff.mp h
      obtain ⟨hturns, hreturned⟩ := ih hr
      simp [hready, hturns, hreturned]

theorem imageLoop_files (hn : 1 ≤ (buf.size / 262136#32 - 1#32).toInt)
    (hpicture : noCameraFound.length < 2 ^ 32) {turns : List Turn} {s : ImageState τ φ}
    {out : ImageRun τ φ} (h : imageLoop A V buf noCameraFound turns s = some out)
    (hregular : ∀ x ∈ out.shots, x.captured = true → x.Regular A buf) :
    ∀ x ∈ out.shots, x.call.reported = true → x.closed = some .ok →
      V.content out.state.store.card (filename x.call.written) =
        some (x.picture noCameraFound) := by
  induction turns generalizing s out with
  | nil =>
    obtain rfl := Option.some.inj h
    simp
  | cons x xs ih =>
    obtain ⟨⟨captured, ram⟩, hcapture, h⟩ := Option.bind_eq_some_iff.mp h
    split_ifs at h with hready
    · obtain rfl := Option.some.inj h
      simp
    · obtain ⟨r, hr, rfl⟩ := Option.map_eq_some_iff.mp h
      intro y hy hreported hclosed
      rcases List.mem_cons.mp hy with rfl | hy
      · have hshot := hregular _ (List.mem_cons_self ..)
        have hdata := snapshot2RAM_picture hn hpicture hcapture fun hcaptured =>
          ⟨(hshot hcaptured).short, (hshot hcaptured).served⟩
        have hstored := writeJpeg_stores V _ _ hreported hclosed
        exact (imageLoop_untouched hr hstored).trans (congrArg some hdata)
      · exact ih hr (fun z hz => hregular z (List.mem_cons_of_mem _ hz)) y hy hreported hclosed

def appendTo (file : Option Name) (data : List (BitVec 8)) (s : Name → Option (List (BitVec 8))) :
    FResult × ℕ × (Name → Option (List (BitVec 8))) :=
  match file with
  | none => (.invalidObject, 0, s)
  | some name => (.ok, data.length, Function.update s name ((s name).map (· ++ data)))

theorem appendTo_touches (name : Name) (data : List (BitVec 8))
    (s : Name → Option (List (BitVec 8))) : TouchesOnly name s (appendTo (some name) data s).2.2 :=
  ⟨fun _ hother => Function.update_of_ne hother _ _, fun h => by simpa [appendTo] using h⟩

/-- A card on which every call that can succeed does. -/
def roomyCard : StoringVolume (Name → Option (List (BitVec 8))) where
  content := id
  fOpen := roomyVolume.fOpen
  fWrite := appendTo
  fClose := roomyVolume.fClose
  fMount s := (.ok, s)
  open_exist := roomyVolume.open_exist
  open_creates := roomyVolume.open_creates
  open_fails := roomyVolume.open_fails
  write_invalid _ _ := ⟨nofun, rfl⟩
  write_touches := appendTo_touches
  close_touches := roomyVolume.close_touches
  mount_keeps _ := rfl
  write_stores name _ s _ _ := Function.update_self name _ s
  close_keeps _ _ _ := rfl

theorem roomyCard_writeJpeg (data : List (BitVec 8)) :
    (callOf roomyCard.toVolume data ⟨fun _ => none, 0⟩).reported = true ∧
    (callOf roomyCard.toVolume data ⟨fun _ => none, 0⟩).written = 0 ∧
    closeResult roomyCard.toVolume data ⟨fun _ => none, 0⟩ = some .ok := by
  simp [callOf, Call.written, writeJpeg, closeResult, openUnused, roomyCard, roomyVolume, appendTo]

end WaferSat.Commands
