import WaferSat.MainLoop.Machine

/-!
The shell thread and its two reapers, the test at the top of the main loop and `ShellHandler`.
When the first of them reaps a shell, the event that announced its end is still pending and
the handler then looks at a null pointer.
-/
namespace WaferSat.MainLoop
open GuardedRun

def Main.LooksAtShell (s : Main) : Prop :=
  s.pc = .shellHandler ∨ s.pc = .poll ∧ s.shelltp ≠ none

/-- The main thread only looks at a shell that has not been released, no shell is released
twice, one that has ended is either released or the current one, and at most the current one is
not released. -/
structure ShellSafe (s : Main) : Prop where
  access : s.LooksAtShell → ∃ tp, s.shelltp = some tp ∧ tp < s.created ∧ tp ∉ s.released
  released_once : s.released.Nodup
  released_ended : ∀ tp ∈ s.released, tp ∈ s.terminated
  reaped : ∀ tp ∈ s.terminated, tp ∈ s.released ∨ s.shelltp = some tp
  one_live : ∀ tp < s.created, tp ∉ s.released → s.shelltp = some tp

/-- The main thread does not go to wait with no shell while the end of a shell is the first
event it will be given. -/
def NoStaleExit (s : Main) : Act → Prop
  | .main _ => s.pc = .wait → s.shelltp = none → s.shellTerminated = true →
      s.inserted = true ∨ s.removed = true
  | _ => True

instance (s : Main) : ∀ a, Decidable (NoStaleExit s a)
  | .main _ => inferInstanceAs (Decidable (s.pc = .wait → s.shelltp = none →
      s.shellTerminated = true → s.inserted = true ∨ s.removed = true))
  | .tick _ => .isTrue trivial
  | .exit _ => .isTrue trivial

/-- The bookkeeping of shells, whether or not the handler is about to fail. -/
structure Tracked (s : Main) : Prop where
  current : ∀ tp, s.shelltp = some tp → tp < s.created ∧ tp ∉ s.released
  released_once : s.released.Nodup
  released_ended : ∀ tp ∈ s.released, tp ∈ s.terminated
  ended_created : ∀ tp ∈ s.terminated, tp < s.created
  one_live : ∀ tp < s.created, tp ∉ s.released → s.shelltp = some tp

structure Reaping (s : Main) : Prop extends Tracked s where
  handler : s.pc = .shellHandler → s.shelltp ≠ none

variable {s t : Main} {a : Act} {acts : List Act}

theorem Reaping.shellSafe (h : Reaping s) : ShellSafe s := by
  refine ⟨fun hlook => ?_, h.released_once, h.released_ended, fun tp htp => ?_, h.one_live⟩
  · have hne : s.shelltp ≠ none := by
      rcases hlook with hp | ⟨-, hne⟩
      · exact h.handler hp
      · exact hne
    obtain ⟨tp, htp⟩ := Option.ne_none_iff_exists'.mp hne
    exact ⟨tp, htp, h.current tp htp⟩
  · by_cases hr : tp ∈ s.released
    · exact .inl hr
    · exact .inr (h.one_live tp (h.ended_created tp htp) hr)

theorem Tracked.of_same (h : Tracked s)
    (hs : (t.shelltp, t.created, t.terminated, t.released) =
      (s.shelltp, s.created, s.terminated, s.released)) : Tracked t := by
  simp only [Prod.mk.injEq] at hs
  obtain ⟨htp, hc, ht, hr⟩ := hs
  constructor
  · rw [htp, hc, hr]
    exact h.current
  · rw [hr]
    exact h.released_once
  · rw [hr, ht]
    exact h.released_ended
  · rw [ht, hc]
    exact h.ended_created
  · rw [hc, hr, htp]
    exact h.one_live

theorem tracked_boot : Tracked Main.boot := by
  constructor <;> simp [Main.boot]

theorem tracked_releaseShell (h : Tracked s) {tp : ℕ} (htp : s.shelltp = some tp)
    (hend : tp ∈ s.terminated) : Tracked (s.releaseShell tp) := by
  obtain ⟨hlt, hnew⟩ := h.current tp htp
  constructor
  · simp [Main.releaseShell]
  · simp only [Main.releaseShell, List.nodup_append]
    refine ⟨h.released_once, List.nodup_singleton tp, ?_⟩
    rintro x hx y hy rfl
    rw [List.mem_singleton.mp hy] at hx
    exact hnew hx
  · intro x hx
    rcases List.mem_append.mp hx with hx | hx
    · exact h.released_ended x hx
    · rwa [List.mem_singleton.mp hx]
  · exact h.ended_created
  · intro x hx hnot
    simp only [Main.releaseShell, List.mem_append, List.mem_singleton, not_or] at hnot
    exact absurd (Option.some.inj (htp.symm.trans (h.one_live x hx hnot.1))) (Ne.symm hnot.2)

theorem tracked_reap (h : Tracked s) {tp : ℕ} (htp : s.shelltp = some tp) :
    Tracked (if tp ∈ s.terminated then s.releaseShell tp else s) := by
  split_ifs with hend
  · exact tracked_releaseShell h htp hend
  · exact h

theorem tracked_pollShell (h : Tracked s) (spawned : Bool) : Tracked (s.pollShell spawned) := by
  unfold Main.pollShell
  split
  next hnone =>
    split_ifs
    · constructor
      · rintro tp ⟨⟩
        refine ⟨Nat.lt_succ_self _, fun hr => ?_⟩
        exact absurd (h.ended_created _ (h.released_ended _ hr)) (Nat.lt_irrefl _)
      · exact h.released_once
      · exact h.released_ended
      · intro tp htp
        exact Nat.lt_succ_of_lt (h.ended_created tp htp)
      · intro tp hlt hr
        rcases Nat.lt_succ_iff_lt_or_eq.mp hlt with hlt | rfl
        · exact absurd (hnone.symm.trans (h.one_live tp hlt hr)) (by simp)
        · rfl
    · exact h
  next tp htp => exact tracked_reap h htp

theorem dispatch_shell (s : Main) :
    (s.dispatch.shelltp, s.dispatch.created, s.dispatch.terminated, s.dispatch.released) =
      (s.shelltp, s.created, s.terminated, s.released) := by
  unfold Main.dispatch
  split_ifs <;> rfl

theorem dispatch_pc_shellHandler :
    s.dispatch.pc = .shellHandler ↔
      s.shellTerminated = true ∧ s.inserted = false ∧ s.removed = false := by
  unfold Main.dispatch
  split_ifs <;> simp_all

theorem tracked_main (h : Tracked s) {ok : Bool} (ht : s.mainStep ok = some t) : Tracked t := by
  rcases mainStep_cases ht with ⟨-, rfl⟩ | ⟨-, rfl⟩ | ⟨pc, ready, -, rfl⟩ | ⟨-, tp, htp, rfl⟩
  · exact (tracked_pollShell h ok).of_same rfl
  · exact h.of_same (dispatch_shell s)
  · exact h.of_same rfl
  · exact (tracked_reap h htp).of_same rfl

theorem mainStep_shellHandler {ok : Bool} (ht : s.mainStep ok = some t)
    (hp : t.pc = .shellHandler) :
    s.pc = .wait ∧ s.shellTerminated = true ∧ s.inserted = false ∧ s.removed = false ∧
      t.shelltp = s.shelltp := by
  rcases mainStep_cases ht with ⟨-, rfl⟩ | ⟨hw, rfl⟩ | ⟨pc, ready, hpc, rfl⟩ | ⟨-, tp, -, rfl⟩
  · cases hp
  · obtain ⟨hs, hi, hr⟩ := dispatch_pc_shellHandler.mp hp
    exact ⟨hw, hs, hi, hr, congrArg Prod.fst (dispatch_shell s)⟩
  · exact absurd hp hpc
  · cases hp

theorem reaping_step (h : Reaping s) (hc : NoStaleExit s a) (ht : step s a = some t) :
    Reaping t := by
  cases a with
  | tick b =>
    obtain ⟨c, i, r, htick, -⟩ := tmrfunc_cases s b
    obtain rfl := Option.some.inj ht
    rw [htick]
    exact ⟨h.toTracked.of_same rfl, h.handler⟩
  | main ok =>
    refine ⟨tracked_main h.toTracked ht, fun hp hnone => ?_⟩
    obtain ⟨hw, hs, hi, hr, htp⟩ := mainStep_shellHandler ht hp
    rcases hc hw (htp.symm.trans hnone) hs with h1 | h1
    · simp [hi] at h1
    · simp [hr] at h1
  | exit tp =>
    obtain ⟨hlt, -, -, rfl⟩ := shellExit_cases ht
    refine ⟨⟨h.current, h.released_once, ?_, ?_, h.one_live⟩, h.handler⟩
    · intro x hx
      exact List.mem_append_left _ (h.released_ended x hx)
    · intro x hx
      rcases List.mem_append.mp hx with hx | hx
      · exact h.ended_created x hx
      · rwa [List.mem_singleton.mp hx]

/-- A step that misses the condition takes the main thread into `ShellHandler` with no shell. -/
theorem stale_exit_unsafe (hc : ¬NoStaleExit s a) (ht : step s a = some t) : ¬ShellSafe t := by
  cases a with
  | tick b => exact absurd trivial hc
  | exit tp => exact absurd trivial hc
  | main ok =>
    simp only [NoStaleExit, Classical.not_imp, not_or, Bool.not_eq_true] at hc
    obtain ⟨hw, hnone, hs, hi, hr⟩ := hc
    simp only [step, Main.mainStep, hw, Option.some.injEq] at ht
    subst ht
    intro hsafe
    have hp : s.dispatch.pc = .shellHandler := dispatch_pc_shellHandler.mpr ⟨hs, hi, hr⟩
    obtain ⟨tp, htp, -⟩ := hsafe.access (.inl hp)
    have hsame : s.dispatch.shelltp = s.shelltp := congrArg Prod.fst (dispatch_shell s)
    rw [hsame, hnone] at htp
    cases htp

/-- The runs in which the shell is handled safely in every state are exactly those in which the
main thread never waits without a shell while the end of one is the first event to come. -/
theorem shell_safe_iff (hr : run step Main.boot acts = some s) :
    Along step ShellSafe Main.boot acts ↔ Meets step NoStaleExit Main.boot acts :=
  along_iff_meets (I := Reaping) (fun _ _ _ hs hc ht => reaping_step hs hc ht)
    (fun _ hs => hs.shellSafe) (fun _ _ _ _ hc ht => stale_exit_unsafe hc ht)
    ⟨tracked_boot, by simp [Main.boot]⟩ hr

def exitWhileWaiting : List Act := [.main true, .exit 0, .main true, .main true, .main true]

theorem shell_safe_exitWhileWaiting : ∃ s, run step Main.boot exitWhileWaiting = some s ∧
    s.released = [0] ∧ s.shelltp = some 1 ∧ Along step ShellSafe Main.boot exitWhileWaiting := by
  have hrun : ∃ s, run step Main.boot exitWhileWaiting = some s ∧
      s.released = [0] ∧ s.shelltp = some 1 := ⟨_, rfl, rfl, rfl⟩
  obtain ⟨s, hs, hreleased, htp⟩ := hrun
  exact ⟨s, hs, hreleased, htp, (shell_safe_iff hs).mpr (by decide)⟩

def exitBeforePoll : List Act := [.main true, .main true, .exit 0, .main true, .main true]

/-- `ShellHandler` runs with a null pointer. -/
theorem exitBeforePoll_null : ∃ s, run step Main.boot exitBeforePoll = some s ∧
    s.released = [0] ∧ s.pc = .shellHandler ∧ s.shelltp = none ∧ ¬ShellSafe s := by
  have hrun : ∃ s, run step Main.boot exitBeforePoll = some s ∧
      s.released = [0] ∧ s.pc = .shellHandler ∧ s.shelltp = none := ⟨_, rfl, rfl, rfl, rfl⟩
  obtain ⟨s, hs, hreleased, hp, hnone⟩ := hrun
  refine ⟨s, hs, hreleased, hp, hnone, fun hsafe => ?_⟩
  obtain ⟨tp, htp, -⟩ := hsafe.access (.inl hp)
  exact absurd (hnone.symm.trans htp) (by simp)

end WaferSat.MainLoop
