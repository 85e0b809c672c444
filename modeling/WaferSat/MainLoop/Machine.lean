import WaferSat.Foundation.GuardedRun
import Mathlib.Data.List.Nodup

/-!
The main thread of `main.c`, the card monitor timer and the shell threads. The main thread runs
one statement at a time, so timer ticks and exits of a shell can fall between any two of them.
Events are bits of the main thread's mask: a broadcast sets a bit and `chEvtWaitOneTimeout`
takes the lowest one.
-/
namespace WaferSat.MainLoop

inductive Pc where
  | poll
  | wait
  | insertConnect
  | insertMount
  | insertReady
  | removeDisconnect
  | removeClear
  | shellHandler
  deriving DecidableEq, Repr

/-- `card` is the latest answer of `blkIsInserted`. Shell threads are numbered in the order they
are created. -/
structure Main where
  pc : Pc
  inserted : Bool
  removed : Bool
  shellTerminated : Bool
  cnt : ℕ
  card : Bool
  fsReady : Bool
  shelltp : Option ℕ
  created : ℕ
  terminated : List ℕ
  released : List ℕ
  deriving DecidableEq, Repr

/-- `POLLING_INTERVAL` -/
def pollingInterval : ℕ := 10

/-- After `tmr_init` and the registration of the three events. -/
def Main.boot : Main where
  pc := .poll
  inserted := false
  removed := false
  shellTerminated := false
  cnt := pollingInterval
  card := false
  fsReady := false
  shelltp := none
  created := 0
  terminated := []
  released := []

namespace Main

def tmrfunc (blkIsInserted : Bool) (s : Main) : Main :=
  let s := { s with card := blkIsInserted }
  if s.cnt > 0 then
    if blkIsInserted then
      let s := { s with cnt := s.cnt - 1 }
      if s.cnt = 0 then { s with inserted := true } else s
    else { s with cnt := pollingInterval }
  else if blkIsInserted then s
  else { s with cnt := pollingInterval, removed := true }

/-- `chThdRelease` of the shell and the assignment after it. -/
def releaseShell (s : Main) (tp : ℕ) : Main :=
  { s with released := s.released ++ [tp], shelltp := none }

/-- The test at the top of the loop; `spawned` is whether the heap had room for a shell. -/
def pollShell (spawned : Bool) (s : Main) : Main :=
  match s.shelltp with
  | none => if spawned then { s with shelltp := some s.created, created := s.created + 1 } else s
  | some tp => if tp ∈ s.terminated then s.releaseShell tp else s

/-- `chEvtWaitOneTimeout` and the jump through the handler table; with no event the call
times out. -/
def dispatch (s : Main) : Main :=
  if s.inserted then { s with inserted := false, pc := .insertConnect }
  else if s.removed then { s with removed := false, pc := .removeDisconnect }
  else if s.shellTerminated then { s with shellTerminated := false, pc := .shellHandler }
  else { s with pc := .poll }

/-- One statement of the main thread; `ok` is the outcome of the call it makes, if it can fail.
`InsertHandler` returns when the card cannot be connected or mounted, and `ShellHandler` on a null
pointer has no defined result. -/
def mainStep (ok : Bool) (s : Main) : Option Main :=
  match s.pc with
  | .poll => some { s.pollShell ok with pc := .wait }
  | .wait => some s.dispatch
  | .insertConnect => some { s with pc := if ok then .insertMount else .poll }
  | .insertMount => some { s with pc := if ok then .insertReady else .poll }
  | .insertReady => some { s with fsReady := true, pc := .poll }
  | .removeDisconnect => some { s with pc := .removeClear }
  | .removeClear => some { s with fsReady := false, pc := .poll }
  | .shellHandler =>
    match s.shelltp with
    | none => none
    | some tp => some { if tp ∈ s.terminated then s.releaseShell tp else s with pc := .poll }

/-- A shell that is still running broadcasts `shell_terminated` and enters its final state. -/
def shellExit (tp : ℕ) (s : Main) : Option Main :=
  if tp < s.created ∧ tp ∉ s.terminated ∧ tp ∉ s.released then
    some { s with terminated := s.terminated ++ [tp], shellTerminated := true }
  else none

end Main

inductive Act where
  | tick (blkIsInserted : Bool)
  | main (ok : Bool)
  | exit (tp : ℕ)
  deriving DecidableEq, Repr

def step (s : Main) : Act → Option Main
  | .tick blkIsInserted => some (s.tmrfunc blkIsInserted)
  | .main ok => s.mainStep ok
  | .exit tp => s.shellExit tp

/-- A tick, with its branches read off: ten answers in a row broadcast the insertion, and the first
other answer after them the removal. -/
theorem tmrfunc_eq (s : Main) (b : Bool) : s.tmrfunc b =
    { s with
      card := b
      cnt := if b then s.cnt - 1 else pollingInterval
      inserted := s.inserted || (b && s.cnt == 1)
      removed := s.removed || (!b && s.cnt == 0) } := by
  unfold Main.tmrfunc
  cases b with
  | true =>
    rcases Nat.lt_trichotomy s.cnt 1 with h0 | h1 | hmore
    · obtain h0 : s.cnt = 0 := by omega
      simp [h0]
    · simp [h1]
    · have hpos : s.cnt > 0 := by omega
      have hleft : s.cnt - 1 ≠ 0 := by omega
      simp [hpos, hleft, Nat.ne_of_gt hmore]
  | false =>
    rcases Nat.eq_zero_or_pos s.cnt with h0 | hpos
    · simp [h0]
    · simp [hpos, Nat.ne_of_gt hpos]

theorem tmrfunc_cases (s : Main) (b : Bool) : ∃ c i r,
    s.tmrfunc b = { s with card := b, cnt := c, inserted := i, removed := r } ∧
    ((i = s.inserted ∧ r = s.removed ∧ (c = 0 ↔ s.cnt = 0) ∧ (c = 0 → b = true)) ∨
      (s.cnt = 1 ∧ b = true ∧ c = 0 ∧ i = true ∧ r = s.removed) ∨
      (s.cnt = 0 ∧ c ≠ 0 ∧ i = s.inserted ∧ r = true)) := by
  refine ⟨_, _, _, tmrfunc_eq s b, ?_⟩
  cases b with
  | true =>
    by_cases h1 : s.cnt = 1
    · simp [h1]
    · refine .inl ⟨by simp [h1], by simp, ?_, fun _ => rfl⟩
      simp only [↓reduceIte]
      omega
  | false =>
    by_cases h0 : s.cnt = 0
    · simp [h0, pollingInterval]
    · simp [h0, pollingInterval]

/-- A statement of the main thread is the poll, the wait, a statement of a card handler, which
touches nothing of the shells, or the shell handler. -/
theorem mainStep_cases {s t : Main} {ok : Bool} (ht : s.mainStep ok = some t) :
    (s.pc = .poll ∧ t = { s.pollShell ok with pc := .wait }) ∨
    (s.pc = .wait ∧ t = s.dispatch) ∨
    (∃ pc ready, pc ≠ .shellHandler ∧ t = { s with pc := pc, fsReady := ready }) ∨
    (s.pc = .shellHandler ∧ ∃ tp, s.shelltp = some tp ∧
      t = { if tp ∈ s.terminated then s.releaseShell tp else s with pc := .poll }) := by
  have card {pc : Pc} {ready : Bool} (hpc : pc ≠ .shellHandler)
      (hs : some { s with pc := pc, fsReady := ready } = some t) :
      ∃ pc ready, pc ≠ .shellHandler ∧ t = { s with pc := pc, fsReady := ready } :=
    ⟨pc, ready, hpc, (Option.some.inj hs).symm⟩
  unfold Main.mainStep at ht
  cases hp : s.pc with
  | poll =>
    simp only [hp] at ht
    exact .inl ⟨rfl, (Option.some.inj ht).symm⟩
  | wait =>
    simp only [hp] at ht
    exact .inr (.inl ⟨rfl, (Option.some.inj ht).symm⟩)
  | insertConnect | insertMount =>
    simp only [hp] at ht
    exact .inr (.inr (.inl (card (by split_ifs <;> decide) ht)))
  | insertReady | removeDisconnect | removeClear =>
    simp only [hp] at ht
    exact .inr (.inr (.inl (card (by decide) ht)))
  | shellHandler =>
    simp only [hp] at ht
    split at ht
    · cases ht
    next tp htp => exact .inr (.inr (.inr ⟨rfl, tp, htp, (Option.some.inj ht).symm⟩))

theorem shellExit_cases {s t : Main} {tp : ℕ} (ht : s.shellExit tp = some t) :
    tp < s.created ∧ tp ∉ s.terminated ∧ tp ∉ s.released ∧
      t = { s with terminated := s.terminated ++ [tp], shellTerminated := true } := by
  simp only [Main.shellExit, Option.ite_none_right_eq_some, Option.some.injEq] at ht
  obtain ⟨⟨hcreated, hrunning, hheld⟩, rfl⟩ := ht
  exact ⟨hcreated, hrunning, hheld, rfl⟩

end WaferSat.MainLoop
