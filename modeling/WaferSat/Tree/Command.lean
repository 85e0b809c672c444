import WaferSat.Foundation.DecimalText
import WaferSat.Tree.ScanFiles

/-! The `tree` command. It starts `scan_files` on the 1024 bytes of `fbuff` with the empty path.
Nothing checks the length of the path, so the command stays in its buffer only on cards whose
directories are not nested too deep. -/
namespace WaferSat.Tree
open CString DecimalText

def ascii (text : String) : Text := text.toList.map fun c => BitVec.ofNat 8 c.toNat

/-- What the command finds: the number of its arguments, `fs_ready`, and the free clusters and the
sectors in a cluster if `f_getfree` succeeds. -/
structure TreeCall where
  argc : ℤ
  fsReady : Bool
  free : Option (BitVec 32 × BitVec 16)

def freeLine (freClust : BitVec 32) (csize : BitVec 16) : Text :=
  ascii "FS: " ++ padded 1 freClust.toNat ++ ascii " free clusters with " ++
    padded 1 csize.toNat ++ ascii " sectors (" ++ padded 1 (csize.setWidth 32 * 512#32).toNat ++
    ascii " bytes) per cluster\r\n"

def cmdTree (vol : Volume) (fuel : ℕ) (call : TreeCall) (s : State) : Except Stop State :=
  if call.argc > 0 then .ok (s.chprintf (ascii "Usage: tree\r\n"))
  else if !call.fsReady then .ok (s.chprintf (ascii "File System not mounted\r\n"))
  else
    match call.free with
    | none => .ok (s.chprintf (ascii "FS: f_getfree() failed\r\n"))
    | some (freClust, csize) => do
      let s ← (s.chprintf (freeLine freClust csize)).store 0 [0]
      let (_, s) ← scanFiles vol fuel s
      return s

/-- Whatever the calls return and however the command is called, no write leaves `fbuff`. -/
def StaysInBuffer (root : Dir) (hv : root.Valid) : Prop :=
  ∀ result fuel call (s : State), s.path.length = 1024 →
    cmdTree ⟨root, hv, result⟩ fuel call s ≠ .error .overrun

variable {s : State}

theorem store_zero (hsize : s.path.length = 1024) :
    ∃ buf, s.store 0 [0] = .ok (s.setPath buf) ∧ buf.length = 1024 ∧ Holds buf [] := by
  obtain ⟨buf, hwrite, hlen, hknown⟩ :=
    write_after (List.nil_prefix (l := s.path)) [0] (by simp [hsize])
  exact ⟨buf, State.store_of_write hwrite, hlen.trans hsize, List.not_mem_nil, hknown⟩

theorem cmdTree_scans (vol : Volume) (fuel : ℕ) {argc : ℤ} (hargc : ¬argc > 0)
    (free : BitVec 32 × BitVec 16) (hsize : s.path.length = 1024) :
    ∃ t : State,
      Outcome vol t [] (vol.root.listing []) (vol.root.Fits 1024 []) (vol.root.depth < fuel)
        (scanFiles vol fuel t) ∧
      (cmdTree vol fuel ⟨argc, true, some free⟩ s = .error .overrun ↔
        scanFiles vol fuel t = .error .overrun) := by
  obtain ⟨buf, hstore, hlen, hholds⟩ :=
    store_zero (s := s.chprintf (freeLine free.1 free.2)) hsize
  refine ⟨(s.chprintf (freeLine free.1 free.2)).setPath buf, ?_, ?_⟩
  · rw [← hlen]
    exact scanFiles_outcome vol fuel _ [] vol.root hholds rfl
  · simp only [cmdTree, hargc, if_false, Bool.not_true, Bool.false_eq_true, hstore]
    dsimp only [bind, Except.bind]
    generalize scanFiles vol fuel ((s.chprintf (freeLine free.1 free.2)).setPath buf) = r
    cases r with
    | error stop => simp
    | ok r => simp [pure, Except.pure]

/-- The command leaves its buffer on a card with a directory whose path does not fit, if there is
no failure in its way. -/
theorem cmdTree_overruns {root : Dir} (hv : root.Valid) (hno : ¬root.Fits 1024 [])
    (argc : ℤ) (hargc : ¬argc > 0) (free : BitVec 32 × BitVec 16)
    (hsize : s.path.length = 1024) {fuel : ℕ} (hfuel : root.depth < fuel) :
    cmdTree ⟨root, hv, fun _ => .ok⟩ fuel ⟨argc, true, some free⟩ s = .error .overrun := by
  obtain ⟨t, houtcome, hiff⟩ := cmdTree_scans ⟨root, hv, fun _ => .ok⟩ fuel hargc free hsize
  rw [hiff]
  generalize scanFiles ⟨root, hv, fun _ => .ok⟩ fuel t = r at houtcome ⊢
  match r with
  | .error .overrun => rfl
  | .error .outOfFuel => exact absurd hfuel houtcome
  | .ok (res, u) =>
    obtain ⟨-, -, hrep, hfits⟩ := houtcome
    cases hrep with
    | complete => exact absurd (hfits rfl) hno
    | broken _ _ _ _ hfail _ => simp at hfail

/-- The `tree` command stays in its buffer exactly on the cards where the full path of every
directory, with its terminator, fits the 1024 bytes. -/
theorem staysInBuffer_iff (root : Dir) (hv : root.Valid) :
    StaysInBuffer root hv ↔ ∀ q ∈ root.dirPaths [], q.length + 1 ≤ 1024 := by
  constructor
  · intro h
    by_contra hno
    exact h (fun _ => .ok) (root.depth + 1) ⟨0, true, some (0, 0)⟩ blankState
      List.length_replicate (cmdTree_overruns hv hno 0 (by decide) _ List.length_replicate
        (Nat.lt_succ_self _))
  · intro hfits result fuel call s hsize hover
    obtain ⟨argc, fsReady, free⟩ := call
    by_cases hargc : argc > 0
    · simp [cmdTree, hargc] at hover
    cases fsReady with
    | false => simp [cmdTree, hargc] at hover
    | true =>
      cases free with
      | none => simp [cmdTree, hargc] at hover
      | some free =>
        obtain ⟨t, houtcome, hiff⟩ := cmdTree_scans ⟨root, hv, result⟩ fuel hargc free hsize
        rw [hiff.mp hover] at houtcome
        exact houtcome hfits

theorem twoFiles_staysInBuffer : StaysInBuffer twoFiles.root twoFiles.valid :=
  (staysInBuffer_iff twoFiles.root twoFiles.valid).mpr (by decide)

def longName : Text := List.replicate 255 97

def deepTree : Dir :=
  .sub longName (.sub longName (.sub longName (.sub longName .empty .empty) .empty) .empty) .empty

theorem length_longName : longName.length = 255 := List.length_replicate

theorem isName_longName : IsName longName where
  length_pos := by simp [length_longName]
  length_le := by simp [length_longName]
  no_zero h := absurd (List.eq_of_mem_replicate h) (by decide)
  no_separator c hc := by
    rw [List.eq_of_mem_replicate hc]
    rfl

theorem deepTree_valid : deepTree.Valid := by
  simp [deepTree, Dir.Valid, Dir.names, isName_longName]

theorem deepTree_not_fits : ¬deepTree.Fits 1024 [] := by
  simp [Dir.Fits, deepTree, Dir.dirPaths, Dir.join, length_longName]

theorem deepTree_overruns :
    cmdTree ⟨deepTree, deepTree_valid, fun _ => .ok⟩ 5 ⟨0, true, some (0, 0)⟩ blankState =
      .error .overrun ∧ ¬StaysInBuffer deepTree deepTree_valid := by
  have hover := cmdTree_overruns (s := blankState) deepTree_valid deepTree_not_fits 0 (by decide)
    (0, 0) List.length_replicate (show deepTree.depth < 5 by decide)
  exact ⟨hover, fun h => h _ _ _ blankState List.length_replicate hover⟩

end WaferSat.Tree
