import WaferSat.Tree.Volume

/-!
`scan_files`. All levels of the recursion share one path buffer and one static `FILINFO`: a level
appends the name of a subdirectory to the path, calls itself and puts the terminator back where it
was. Whatever the calls of FatFs return, each level leaves the path as it found it.
-/
namespace WaferSat.Tree
open CString

/-- The path buffer, the static `FILINFO`, the texts printed, one for each `chprintf`, and the
number of calls of FatFs so far. -/
structure State where
  path : Text
  fno : FileInfo
  out : List Text
  calls : ℕ

/-- What ends the model other than a return: a write outside the buffer, and a nesting deeper than
the calls that are allowed for. -/
inductive Stop where
  | overrun
  | outOfFuel
  deriving DecidableEq, Repr

namespace State

def called (s : State) : State := { s with calls := s.calls + 1 }

def found (info : FileInfo) (s : State) : State := { s.called with fno := info }

def setPath (path : Text) (s : State) : State := { s with path := path }

def chprintf (text : Text) (s : State) : State := { s with out := s.out ++ [text] }

def store (offset : ℕ) (data : Text) (s : State) : Except Stop State :=
  match write s.path offset data with
  | some path => .ok (s.setPath path)
  | none => .error .overrun

end State

/-- The directory object is the list of the entries to come. -/
def fOpendir (vol : Volume) (s : State) : FResult × List FileInfo × State :=
  match vol.result s.calls with
  | .ok =>
    match vol.root.follow (string s.path) with
    | .ok d => (.ok, d.infos, s.called)
    | .error code => (.failed code, [], s.called)
  | .failed code => (.failed code, [], s.called)

/-- The next entry goes to the static `FILINFO`, an empty name at the end. After a failure nothing
reads it. -/
def fReaddir (vol : Volume) (dir : List FileInfo) (s : State) : FResult × State :=
  match vol.result s.calls with
  | .ok => (.ok, s.found (dir.headD ⟨[], 0⟩))
  | .failed code => (.failed code, s.called)

/-- The loop of `scan_files`; `FF_FS_RPATH` is 0, so no entry is skipped. -/
def readLoop (vol : Volume) (scan : State → Except Stop (FResult × State)) (i : ℕ) :
    List FileInfo → State → Except Stop (FResult × State)
  | [], s => .ok (fReaddir vol [] s)
  | info :: dir, s =>
    let (res, s) := fReaddir vol (info :: dir) s
    if res ≠ .ok ∨ s.fno.fname = [] then .ok (res, s)
    else if s.fno.fattrib &&& amDir ≠ 0 then do
      let s ← s.store i [slash]
      let s ← s.store (i + 1) (s.fno.fname ++ [0])
      let (res, s) ← scan s
      let s ← s.store i [0]
      if res ≠ .ok then return (res, s) else readLoop vol scan i dir s
    else readLoop vol scan i dir (s.chprintf (string s.path ++ slash :: s.fno.fname ++ [13, 10]))

/-- `fuel` bounds the nesting of the calls. -/
def scanFiles (vol : Volume) : ℕ → State → Except Stop (FResult × State)
  | 0, _ => .error .outOfFuel
  | fuel + 1, s =>
    let (res, dir, t) := fOpendir vol s
    if res = .ok then readLoop vol (scanFiles vol fuel) (strlen s.path) dir t else .ok (res, t)

/-- From `calls` calls and the output `out` on, the lines `full` were to be printed. Either they
all were and no call failed, or the last call failed with the code returned and an initial part of
the lines was printed. -/
inductive Reported (vol : Volume) (calls : ℕ) (out full : List Text) : FResult → State → Prop
  | complete {t : State} (hout : t.out = out ++ full) (hcalls : calls ≤ t.calls)
      (hok : ∀ k, calls ≤ k → k < t.calls → vol.result k = .ok) :
      Reported vol calls out full .ok t
  | broken {t : State} {code : ℕ} {shown : List Text} (hshown : shown <+: full)
      (hout : t.out = out ++ shown) {last : ℕ} (hlast : t.calls = last + 1) (hcalls : calls ≤ last)
      (hfail : vol.result last = .failed code)
      (hok : ∀ k, calls ≤ k → k < last → vol.result k = .ok) :
      Reported vol calls out full (.failed code) t

namespace Reported

variable {vol : Volume} {calls : ℕ} {out full more : List Text} {res : FResult} {t u : State}

theorem of_call (hcall : vol.result calls = .ok) (hcalls : t.calls = calls + 1)
    (hout : t.out = out ++ full) : Reported vol calls out full .ok t := by
  refine complete hout (by omega) fun k hk hlt => ?_
  obtain rfl : k = calls := by omega
  exact hcall

theorem after_print {lines : List Text} (h : Reported vol calls (out ++ lines) full res t) :
    Reported vol calls out (lines ++ full) res t := by
  cases h with
  | complete hout hcalls hok =>
    exact complete (by rw [hout, List.append_assoc]) hcalls hok
  | broken hshown hout hlast hcalls hfail hok =>
    refine broken ((List.prefix_append_right_inj lines).mpr hshown) ?_ hlast hcalls hfail hok
    rw [hout, List.append_assoc]

theorem trans (h : Reported vol calls out full .ok t)
    (h' : Reported vol t.calls t.out more res u) : Reported vol calls out (full ++ more) res u := by
  cases h with
  | complete hout hcalls hok =>
    rw [hout] at h'
    have hbefore {k : ℕ} (hk : calls ≤ k) (hnext : t.calls ≤ k → vol.result k = .ok) :
        vol.result k = .ok := by
      rcases Nat.lt_or_ge k t.calls with hlt | hge
      · exact hok k hk hlt
      · exact hnext hge
    cases h'.after_print with
    | complete hout' hcalls' hok' =>
      exact complete hout' (by omega) fun k hk hlt => hbefore hk fun hge => hok' k hge hlt
    | broken hshown hout' hlast hcalls' hfail hok' =>
      exact broken hshown hout' hlast (by omega) hfail fun k hk hlt =>
        hbefore hk fun hge => hok' k hge hlt

theorem with_path (h : Reported vol calls out full res t) (path : Text) :
    Reported vol calls out full res (t.setPath path) := by
  cases h with
  | complete hout hcalls hok => exact complete hout hcalls hok
  | broken hshown hout hlast hcalls hfail hok =>
    exact broken hshown hout hlast hcalls hfail hok

theorem append {code : ℕ} (h : Reported vol calls out full (.failed code) t) (more : List Text) :
    Reported vol calls out (full ++ more) (.failed code) t := by
  cases h with
  | broken hshown hout hlast hcalls hfail hok =>
    exact broken (hshown.trans (List.prefix_append _ _)) hout hlast hcalls hfail hok

end Reported

/-- The outcome of a part of the scan that starts in `s` with `path` in the buffer: it returns with
the path as it was, or it leaves the buffer, which it does not if the paths fit, or the calls are
nested too deep, which they are not if there is enough fuel. -/
def Outcome (vol : Volume) (s : State) (path : Text) (full : List Text) (fits enough : Prop) :
    Except Stop (FResult × State) → Prop
  | .ok (res, t) =>
    Holds t.path path ∧ t.path.length = s.path.length ∧
      Reported vol s.calls s.out full res t ∧ (res = .ok → fits)
  | .error .overrun => ¬fits
  | .error .outOfFuel => ¬enough

theorem Outcome.trans {vol : Volume} {s t : State} {path : Text} {full more : List Text}
    {fits fits' enough enough' : Prop} {r : Except Stop (FResult × State)}
    (h : Reported vol s.calls s.out full .ok t) (hlen : t.path.length = s.path.length)
    (hfits : fits ↔ fits') (henough : enough → enough')
    (h' : Outcome vol t path more fits' enough' r) :
    Outcome vol s path (full ++ more) fits enough r := by
  match r with
  | .ok (res, u) =>
    obtain ⟨hp, hu, hrep, hok⟩ := h'
    exact ⟨hp, hu.trans hlen, h.trans hrep, fun hres => hfits.mpr (hok hres)⟩
  | .error .overrun => exact fun hf => h' (hfits.mp hf)
  | .error .outOfFuel => exact fun he => h' (henough he)

/-- Every directory below the one with path `path` has a path that fits with its terminator. -/
def Dir.Fits (size : ℕ) (path : Text) (d : Dir) : Prop :=
  ∀ q ∈ d.dirPaths path, q.length + 1 ≤ size

theorem Dir.fits_sub {size : ℕ} {path name : Text} {entries next : Dir} :
    (Dir.sub name entries next).Fits size path ↔
      (join path name).length + 1 ≤ size ∧ entries.Fits size (join path name) ∧
      next.Fits size path := by
  simp [Fits, dirPaths, or_imp, forall_and]

section Loop

variable {vol : Volume} {scan : State → Except Stop (FResult × State)} {i : ℕ}
  {dir : List FileInfo} {s : State} {name : Text}

theorem State.store_of_write {offset : ℕ} {data buf : Text}
    (h : write s.path offset data = some buf) :
    s.store offset data = .ok (s.setPath buf) := by
  rw [store, h]

theorem readLoop_of_failed {code : ℕ} (h : vol.result s.calls = .failed code) :
    readLoop vol scan i dir s = .ok (.failed code, s.called) := by
  cases dir with
  | nil => simp [readLoop, fReaddir, h]
  | cons info dir => simp [readLoop, fReaddir, h]

theorem readLoop_file (h : vol.result s.calls = .ok) (hname : name ≠ []) :
    readLoop vol scan i (⟨name, amArc⟩ :: dir) s = readLoop vol scan i dir
      ((s.found ⟨name, amArc⟩).chprintf (string s.path ++ slash :: name ++ [13, 10])) := by
  have hattrib : amArc &&& amDir = 0 := by decide
  simp [readLoop, fReaddir, h, hname, hattrib, State.found, State.called]

/-- The name just read appended to the path: the separator, then `strcpy`. -/
def enter (i : ℕ) (s : State) : Except Stop State := do
  let s ← s.store i [slash]
  s.store (i + 1) (s.fno.fname ++ [0])

theorem readLoop_sub (h : vol.result s.calls = .ok) (hname : name ≠ []) :
    readLoop vol scan i (⟨name, amDir⟩ :: dir) s = (do
      let t ← enter i (s.found ⟨name, amDir⟩)
      let (res, t) ← scan t
      let t ← t.store i [0]
      if res ≠ .ok then return (res, t) else readLoop vol scan i dir t) := by
  have hattrib : amDir &&& amDir ≠ 0 := by decide
  rw [readLoop]
  simp only [fReaddir, h, List.headD_cons, ne_eq, not_true_eq_false, hname, or_self, if_false,
    hattrib, not_false_eq_true, if_true, enter, bind_assoc, State.found]

end Loop

/-- What `scan_files` does when it is called with the path of a directory. -/
def ScansAs (vol : Volume) (fuel : ℕ) (scan : State → Except Stop (FResult × State)) : Prop :=
  ∀ (s : State) (path : Text) (d : Dir), Holds s.path path →
    vol.root.follow path = .ok d →
    Outcome vol s path (d.listing path) (d.Fits s.path.length path) (d.depth < fuel) (scan s)

section Spec

variable {vol : Volume} {fuel : ℕ} {scan : State → Except Stop (FResult × State)}
  {path name : Text} {s : State}

theorem outcome_of_failed {code : ℕ} {full : List Text} {fits enough : Prop}
    (hp : Holds s.path path) (h : vol.result s.calls = .failed code) :
    Outcome vol s path full fits enough (.ok (.failed code, s.called)) := by
  refine ⟨hp, rfl, ?_, fun hok => absurd hok (by simp)⟩
  exact .broken (List.nil_prefix) (by simp [State.called]) rfl le_rfl h fun k hk hlt => by omega

theorem enter_outcome (hp : Holds s.path path) (hname : IsName s.fno.fname) :
    (enter path.length s = .error .overrun ∧
      ¬(Dir.join path s.fno.fname).length + 1 ≤ s.path.length) ∨
    ∃ buf, enter path.length s = .ok (s.setPath buf) ∧ buf.length = s.path.length ∧
      Holds buf (Dir.join path s.fno.fname) ∧
      (Dir.join path s.fno.fname).length + 1 ≤ s.path.length := by
  generalize hn : s.fno.fname = name at hname ⊢
  have hjoin : path ++ [slash] ++ name = Dir.join path name := by simp [Dir.join]
  have hlen : (path ++ [slash]).length = path.length + 1 := by simp
  have hjoinlen : (Dir.join path name).length = path.length + 1 + name.length := by
    rw [← hjoin, List.length_append, hlen]
  have hzero : 0 ∉ path ++ [slash] ++ name := by
    rw [List.mem_append, List.mem_append, List.mem_singleton]
    rintro ((h | h) | h)
    · exact hp.no_zero h
    · exact absurd h (by decide)
    · exact hname.no_zero h
  obtain ⟨buf, hput, hbuf, hstart⟩ := hp.put slash
  have hsep : enter path.length s =
      (s.setPath buf).store (path.length + 1) (name ++ [0]) := by
    rw [enter, State.store_of_write hput, ← hn]
    rfl
  rw [hsep]
  by_cases hfit : (Dir.join path name).length + 1 ≤ s.path.length
  · right
    obtain ⟨buf', hcopy, hbuf', hholds⟩ := strcpy_after hstart hzero (by omega)
    rw [hlen] at hcopy
    rw [hjoin] at hholds
    exact ⟨buf', State.store_of_write hcopy, hbuf'.trans hbuf, hholds, hfit⟩
  · left
    have hnone : write buf (path.length + 1) (name ++ [0]) = none := by
      apply write_eq_none
      rw [List.length_append, List.length_singleton]
      omega
    refine ⟨?_, hfit⟩
    rw [State.store, State.setPath, hnone]

theorem outcome_of_ok {full : List Text} {fits enough : Prop} {i : ℕ} {dir : List FileInfo}
    (hp : Holds s.path path)
    (h : vol.result s.calls = .ok →
      Outcome vol s path full fits enough (readLoop vol scan i dir s)) :
    Outcome vol s path full fits enough (readLoop vol scan i dir s) := by
  cases hcall : vol.result s.calls with
  | failed code =>
    rw [readLoop_of_failed hcall]
    exact outcome_of_failed hp hcall
  | ok => exact h hcall

theorem readLoop_sub_outcome (hscan : ScansAs vol fuel scan) {entries next : Dir}
    (hcall : vol.result s.calls = .ok) (hname : IsName name)
    (hsub : vol.root.follow (Dir.join path name) = .ok entries)
    (ih : ∀ t : State, Holds t.path path →
      Outcome vol t path (next.listing path) (next.Fits t.path.length path) (next.depth ≤ fuel)
        (readLoop vol scan path.length next.infos t))
    (hp : Holds s.path path) :
    Outcome vol s path ((Dir.sub name entries next).listing path)
      ((Dir.sub name entries next).Fits s.path.length path)
      ((Dir.sub name entries next).depth ≤ fuel)
      (readLoop vol scan path.length (⟨name, amDir⟩ :: next.infos) s) := by
  have hlisting : (Dir.sub name entries next).listing path =
      entries.listing (Dir.join path name) ++ next.listing path := List.map_append
  rw [readLoop_sub hcall (List.ne_nil_of_length_pos hname.length_pos), hlisting, Dir.fits_sub,
    Dir.depth]
  rcases enter_outcome (s := s.found ⟨name, amDir⟩) hp hname with
    ⟨henter, hno⟩ | ⟨buf, henter, hlen, hholds, hfit⟩
  · rw [henter]
    exact fun hf => hno hf.1
  change buf.length = s.path.length at hlen
  rw [henter]
  have hinner :=
    hscan ((s.found ⟨name, amDir⟩).setPath buf) (Dir.join path name) entries hholds hsub
  dsimp only [bind, Except.bind]
  generalize scan ((s.found ⟨name, amDir⟩).setPath buf) = r at hinner ⊢
  match r with
  | .error .overrun => exact fun hf => hinner (hlen ▸ hf.2.1)
  | .error .outOfFuel => exact fun henough => hinner (by omega)
  | .ok (res, t) =>
    obtain ⟨hheld, htlen, hrep, hfits⟩ := hinner
    obtain ⟨buf', hcut, hlen', hback⟩ := hheld.cut
    have hsame : buf'.length = s.path.length := hlen'.trans (htlen.trans hlen)
    have hread : Reported vol s.calls s.out [] .ok (s.found ⟨name, amDir⟩) :=
      .of_call hcall rfl (List.append_nil _).symm
    have hinside := (hread.trans hrep).with_path buf'
    dsimp only
    rw [State.store_of_write hcut]
    cases res with
    | failed code => exact ⟨hback, hsame, hinside.append _, by simp⟩
    | ok =>
      have hentries : entries.Fits s.path.length (Dir.join path name) := hlen ▸ hfits rfl
      refine .trans hinside hsame ?_ (by omega) (ih (t.setPath buf') hback)
      rw [show (t.setPath buf').path.length = s.path.length from hsame]
      exact ⟨fun hf => hf.2.2, fun hf => ⟨hfit, hentries, hf⟩⟩

theorem readLoop_outcome (hscan : ScansAs vol fuel scan) (rest : Dir) (hv : rest.Valid)
    (hsub : ∀ name entries, rest.HasSub name entries →
      vol.root.follow (Dir.join path name) = .ok entries)
    (s : State) (hp : Holds s.path path) :
    Outcome vol s path (rest.listing path) (rest.Fits s.path.length path) (rest.depth ≤ fuel)
      (readLoop vol scan path.length rest.infos s) := by
  induction rest generalizing s with
  | empty =>
    refine outcome_of_ok hp fun hcall => ?_
    have hend : readLoop vol scan path.length Dir.empty.infos s =
        .ok (.ok, s.found ⟨[], 0⟩) := by
      simp [Dir.infos, readLoop, fReaddir, hcall]
    rw [hend]
    refine ⟨hp, rfl, .of_call hcall rfl (List.append_nil _).symm, fun _ q hq => ?_⟩
    exact absurd hq List.not_mem_nil
  | file name next ih =>
    refine outcome_of_ok hp fun hcall => ?_
    have hname : name ≠ [] := List.ne_nil_of_length_pos hv.1.length_pos
    rw [Dir.infos, readLoop_file hcall hname, hp.string_eq]
    generalize hline : path ++ slash :: name ++ [13, 10] = line
    have hprinted : Reported vol s.calls s.out [line] .ok
        ((s.found ⟨name, amArc⟩).chprintf line) := .of_call hcall rfl rfl
    have hlisting : (Dir.file name next).listing path = [line] ++ next.listing path := by
      rw [← hline]
      rfl
    rw [hlisting]
    exact .trans hprinted rfl Iff.rfl id (ih hv.2.2 hsub _ hp)
  | sub name entries next _ ih =>
    refine outcome_of_ok hp fun hcall => ?_
    exact readLoop_sub_outcome hscan hcall hv.1 (hsub name entries (.inl ⟨rfl, rfl⟩))
      (ih hv.2.2.2 fun name' entries' h => hsub name' entries' (.inr h)) hp

theorem scanFiles_outcome (vol : Volume) (fuel : ℕ) : ScansAs vol fuel (scanFiles vol fuel) := by
  induction fuel with
  | zero =>
    intro s path d _ _
    exact Nat.not_lt_zero _
  | succ fuel ih =>
    intro s path d hp hd
    have hv : d.Valid := vol.valid.of_resolve (Dir.resolve_of_follow hd)
    have hsub : ∀ name entries, d.HasSub name entries →
        vol.root.follow (Dir.join path name) = .ok entries :=
      fun name entries h => Dir.follow_join (h.isName hv) hd (h.find_eq hv)
    cases hcall : vol.result s.calls with
    | failed code =>
      have hfail : scanFiles vol (fuel + 1) s = .ok (.failed code, s.called) := by
        simp [scanFiles, fOpendir, hcall]
      rw [hfail]
      exact outcome_of_failed hp hcall
    | ok =>
      have hopen : scanFiles vol (fuel + 1) s =
          readLoop vol (scanFiles vol fuel) path.length d.infos s.called := by
        simp [scanFiles, fOpendir, hcall, hp.string_eq, hp.strlen_eq, hd]
      have hopened : Reported vol s.calls s.out [] .ok s.called :=
        .of_call hcall rfl (List.append_nil _).symm
      rw [hopen]
      exact .trans hopened rfl Iff.rfl Nat.le_of_lt_succ (readLoop_outcome ih d hv hsub _ hp)

end Spec

/-- The listing is exact. Called with the path of a directory whose subdirectories have paths that
fit the buffer, `scan_files` returns with the path as it was. If no call of FatFs failed it returns
`FR_OK` and has printed one line for each file; if a call failed it returns the code of that call
and has printed an initial part of those lines. -/
theorem scanFiles_exact {vol : Volume} {s : State} {path : Text} {d : Dir} {fuel : ℕ}
    (hsize : s.path.length = 1024) (hp : Holds s.path path)
    (hd : vol.root.follow path = .ok d)
    (hfits : ∀ q ∈ d.dirPaths path, q.length + 1 ≤ 1024) (hfuel : d.depth < fuel) :
    ∃ res t, scanFiles vol fuel s = .ok (res, t) ∧ string t.path = string s.path ∧
      ((∀ k, s.calls ≤ k → k < t.calls → vol.result k = .ok) →
        res = .ok ∧ t.out = s.out ++ d.listing path) ∧
      ∀ k code, s.calls ≤ k → k < t.calls → vol.result k = .failed code →
        res = .failed code ∧ ∃ shown, shown <+: d.listing path ∧ t.out = s.out ++ shown := by
  have houtcome := scanFiles_outcome vol fuel s path d hp hd
  rw [hsize] at houtcome
  generalize scanFiles vol fuel s = r at houtcome ⊢
  match r with
  | .error .overrun => exact absurd hfits houtcome
  | .error .outOfFuel => exact absurd hfuel houtcome
  | .ok (res, t) =>
    obtain ⟨hback, -, hrep, -⟩ := houtcome
    refine ⟨res, t, rfl, by rw [hback.string_eq, hp.string_eq], ?_⟩
    cases hrep with
    | complete hout hcalls hok =>
      refine ⟨fun _ => ⟨rfl, hout⟩, fun k code hk hlt hfail => ?_⟩
      exact absurd ((hok k hk hlt).symm.trans hfail) (by simp)
    | @broken _ code shown hshown hout last hlast hcalls hfail hok =>
      refine ⟨fun hnone => ?_, fun k code' hk hlt hfail' => ?_⟩
      · exact absurd ((hnone last hcalls (by omega)).symm.trans hfail) (by simp)
      · obtain rfl : k = last := by
          by_contra hne
          exact absurd ((hok k hk (by omega)).symm.trans hfail') (by simp)
        rw [hfail] at hfail'
        exact ⟨hfail', shown, hshown, hout⟩

def blankState : State := ⟨List.replicate 1024 0, ⟨[], 0⟩, [], 0⟩

theorem holds_blankState : Holds blankState.path [] :=
  ⟨List.not_mem_nil, List.replicate 1023 0, rfl⟩

def twoFiles : Volume where
  root := .sub [100] (.file [98] .empty) (.file [97] .empty)
  valid := by decide
  result _ := .ok

/-- The lines `/d/b` and `/a`. -/
theorem scanFiles_twoFiles : ∃ t, scanFiles twoFiles 2 blankState = .ok (.ok, t) ∧
    t.out = [[47, 100, 47, 98, 13, 10], [47, 97, 13, 10]] := by
  obtain ⟨res, t, hrun, -, hok, -⟩ := @scanFiles_exact twoFiles blankState [] twoFiles.root 2
    List.length_replicate holds_blankState rfl (by decide) (by decide)
  obtain ⟨rfl, hout⟩ := hok fun _ _ _ => rfl
  exact ⟨t, hrun, hout⟩

end WaferSat.Tree
