import WaferSat.Foundation.Response
import WaferSat.MainLoop.Debounce

/-!
How long the main loop takes to react. A turn of the loop is the test at its top, the wait and the
statements of at most one handler. A pending event is put off by the events with lower numbers only,
and a shell that has ended is replaced within two turns.
-/
namespace WaferSat.MainLoop
open GuardedRun

inductive Event where
  | inserted | removed | shellTerminated
  deriving DecidableEq, Repr

namespace Event

def pending (s : Main) : Event → Bool
  | inserted => s.inserted
  | removed => s.removed
  | shellTerminated => s.shellTerminated

/-- The first statement of the handler in `evhndl`. -/
def handler : Event → Pc
  | inserted => .insertConnect
  | removed => .removeDisconnect
  | shellTerminated => .shellHandler

/-- The number of pending events that `chEvtWaitOneTimeout` takes first. -/
def ahead (s : Main) : Event → ℕ
  | inserted => 0
  | removed => s.inserted.toNat
  | shellTerminated => s.inserted.toNat + s.removed.toNat

/-- The event of the card monitor is taken before this one. -/
def overtaken : Event → Option CardEvent → Bool
  | removed, some .inserted => true
  | shellTerminated, some _ => true
  | _, _ => false

/-- A timer tick that broadcasts an event with a lower number. -/
def disturbs (e : Event) (s : Main) : Act → Bool
  | .tick b => e.overtaken (s.broadcast b)
  | _ => false

end Event

def Act.isMain : Act → Bool
  | .main _ => true
  | _ => false

/-- Statements up to the next wait. -/
def Pc.toWait : Pc → ℕ
  | .wait => 0
  | .poll => 1
  | .insertReady | .removeClear | .shellHandler => 2
  | .insertMount | .removeDisconnect => 3
  | .insertConnect => 4

def Pc.toPoll : Pc → ℕ
  | .poll => 0
  | .insertReady | .removeClear | .shellHandler => 1
  | .insertMount | .removeDisconnect => 2
  | .insertConnect => 3
  | .wait => 4

variable {s t : Main} {e : Event} {acts : List Act} {ok : Bool}

theorem tmrfunc_events (s : Main) (b : Bool) :
    (s.tmrfunc b).pc = s.pc ∧ (s.tmrfunc b).shellTerminated = s.shellTerminated ∧
    (s.tmrfunc b).inserted = (s.inserted || s.broadcast b == some .inserted) ∧
    (s.tmrfunc b).removed = (s.removed || s.broadcast b == some .removed) := by
  rw [broadcast_eq, tmrfunc_eq]
  cases b with
  | true => by_cases h : s.cnt = 1 <;> simp [h]
  | false => by_cases h : s.cnt = 0 <;> simp [h]

theorem pollShell_events (s : Main) (ok : Bool) :
    (s.pollShell ok).inserted = s.inserted ∧ (s.pollShell ok).removed = s.removed ∧
      (s.pollShell ok).shellTerminated = s.shellTerminated := by
  unfold Main.pollShell
  split
  · split_ifs <;> exact ⟨rfl, rfl, rfl⟩
  · split_ifs <;> exact ⟨rfl, rfl, rfl⟩

/-- A statement of a handler takes no event, creates no shell, at most releases the one there is,
and brings the main thread nearer to the test and to the wait. -/
theorem mainStep_handler (ht : s.mainStep ok = some t) (hpoll : s.pc ≠ .poll)
    (hwait : s.pc ≠ .wait) :
    (t.inserted = s.inserted ∧ t.removed = s.removed ∧ t.shellTerminated = s.shellTerminated) ∧
    (t.created = s.created ∧ t.terminated = s.terminated ∧
      (t.shelltp = s.shelltp ∨ t.shelltp = none)) ∧
    t.pc.toWait < s.pc.toWait ∧ t.pc.toPoll < s.pc.toPoll := by
  unfold Main.mainStep at ht
  cases hpc : s.pc with
  | poll => exact absurd hpc hpoll
  | wait => exact absurd hpc hwait
  | insertConnect | insertMount =>
    simp only [hpc] at ht
    obtain rfl := Option.some.inj ht
    refine ⟨⟨rfl, rfl, rfl⟩, ⟨rfl, rfl, .inl rfl⟩, ?_⟩
    cases ok <;> simp [Pc.toWait, Pc.toPoll]
  | insertReady | removeDisconnect | removeClear =>
    simp only [hpc] at ht
    obtain rfl := Option.some.inj ht
    exact ⟨⟨rfl, rfl, rfl⟩, ⟨rfl, rfl, .inl rfl⟩, by simp [Pc.toWait], by simp [Pc.toPoll]⟩
  | shellHandler =>
    simp only [hpc] at ht
    split at ht
    · cases ht
    · obtain rfl := Option.some.inj ht
      refine ⟨?_, ?_, by simp [Pc.toWait], by simp [Pc.toPoll]⟩
      · split_ifs <;> exact ⟨rfl, rfl, rfl⟩
      · split_ifs
        · exact ⟨rfl, rfl, .inr rfl⟩
        · exact ⟨rfl, rfl, .inl rfl⟩

theorem mainStep_toWait (ht : s.mainStep ok = some t) (hwait : s.pc ≠ .wait) :
    (t.inserted = s.inserted ∧ t.removed = s.removed ∧ t.shellTerminated = s.shellTerminated) ∧
      t.pc.toWait < s.pc.toWait := by
  by_cases hpoll : s.pc = .poll
  · simp only [Main.mainStep, hpoll] at ht
    obtain rfl := Option.some.inj ht
    exact ⟨pollShell_events s ok, by simp [hpoll, Pc.toWait]⟩
  · obtain ⟨hevents, -, hless, -⟩ := mainStep_handler ht hpoll hwait
    exact ⟨hevents, hless⟩

theorem dispatch_takes (hpend : e.pending s = true) :
    (s.dispatch.pc = e.handler ∧ e.pending s.dispatch = false) ∨
    (e.pending s.dispatch = true ∧ e.ahead s.dispatch + 1 = e.ahead s ∧
      s.dispatch.pc.toWait ≤ 4) := by
  cases e with
  | inserted =>
    have hi : s.inserted = true := hpend
    simp [Main.dispatch, hi, Event.handler, Event.pending]
  | removed =>
    have hr : s.removed = true := hpend
    cases hi : s.inserted <;>
      simp [Main.dispatch, hi, hr, Event.handler, Event.pending, Event.ahead, Pc.toWait]
  | shellTerminated =>
    have hs : s.shellTerminated = true := hpend
    cases hi : s.inserted <;> cases hr : s.removed <;>
      simp [Main.dispatch, hi, hr, hs, Event.handler, Event.pending, Event.ahead, Pc.toWait]

theorem tick_ahead (s : Main) (e : Event) (b : Bool) :
    (e.pending s = true → e.pending (s.tmrfunc b) = true) ∧
      e.ahead (s.tmrfunc b) ≤ e.ahead s + (e.overtaken (s.broadcast b)).toNat := by
  obtain ⟨-, hs, hi, hr⟩ := tmrfunc_events s b
  cases e with
  | inserted =>
    refine ⟨fun h => ?_, Nat.zero_le _⟩
    rw [Event.pending, hi, show s.inserted = true from h, Bool.true_or]
  | removed =>
    refine ⟨fun h => ?_, ?_⟩
    · rw [Event.pending, hr, show s.removed = true from h, Bool.true_or]
    · rw [Event.ahead, hi, Event.ahead]
      cases s.inserted <;> cases s.broadcast b with
      | none => decide
      | some c => cases c <;> decide
  | shellTerminated =>
    refine ⟨fun h => hs.trans h, ?_⟩
    rw [Event.ahead, hi, hr, Event.ahead]
    cases s.inserted <;> cases s.removed <;> cases s.broadcast b with
    | none => decide
    | some c => cases c <;> decide

/-- Statements until the event is taken, if no other comes in between. -/
def Event.rank (e : Event) (s : Main) : ℕ := s.pc.toWait + 5 * e.ahead s

theorem rank_step {a : Act} (hpend : e.pending s = true) (ht : step s a = some t) :
    (t.pc = e.handler ∧ e.pending t = false) ∨
    (e.pending t = true ∧ e.rank t + a.isMain.toNat ≤ e.rank s + 5 * (e.disturbs s a).toNat) := by
  cases a with
  | tick b =>
    obtain rfl := Option.some.inj ht
    obtain ⟨hstays, hahead⟩ := tick_ahead s e b
    refine .inr ⟨hstays hpend, ?_⟩
    rw [Event.rank, Event.rank, (tmrfunc_events s b).1]
    simp only [Event.disturbs, Act.isMain, Bool.toNat_false]
    omega
  | main ok =>
    by_cases hp : s.pc = .wait
    · simp only [step, Main.mainStep, hp] at ht
      obtain rfl := Option.some.inj ht
      rcases dispatch_takes hpend with hgoal | ⟨hstays, hahead, hwait⟩
      · exact .inl hgoal
      · refine .inr ⟨hstays, ?_⟩
        simp only [Event.rank, Event.disturbs, Act.isMain, Bool.toNat_true, Bool.toNat_false]
        omega
    · obtain ⟨⟨hi, hr, hs⟩, hwait⟩ := mainStep_toWait ht hp
      have hstays : e.pending t = e.pending s := by
        cases e <;> assumption
      have hahead : e.ahead t = e.ahead s := by
        cases e <;> simp only [Event.ahead, hi, hr]
      refine .inr ⟨hstays.trans hpend, ?_⟩
      simp only [Event.rank, Event.disturbs, Act.isMain, hahead, Bool.toNat_true, Bool.toNat_false]
      omega
  | exit tp =>
    obtain ⟨-, -, -, rfl⟩ := shellExit_cases ht
    refine .inr ⟨?_, ?_⟩
    · cases e <;> first | exact hpend | rfl
    · cases e <;> exact Nat.le_refl _

theorem toWait_le (pc : Pc) : pc.toWait ≤ 4 := by
  cases pc <;> decide

/-- In every run, whatever the calls of the handlers return, a pending event is taken by its handler
after at most five statements of the main thread for each event ahead of it, each event that
overtakes it and itself. -/
theorem event_served (hpend : e.pending s = true) (hr : run step s acts = some t)
    (hlong : 5 * (e.ahead s + countSteps step e.disturbs s acts + 1) ≤ acts.countP Act.isMain) :
    ∃ as bs u, acts = as ++ bs ∧ run step s as = some u ∧ u.pc = e.handler ∧
      e.pending u = false := by
  have hwait := toWait_le s.pc
  refine exists_goal_of_rank e.rank Act.isMain e.disturbs 5
    (fun _ _ _ hpend ht => rank_step hpend ht) hpend hr ?_
  rw [Event.rank]
  omega

/-- A card that goes in and out before the main thread looks: the removal is the second event. -/
theorem event_served_short_visit :
    let s := Main.boot.polled (List.replicate 10 true ++ [false])
    ∃ as bs u, List.replicate 10 (Act.main true) = as ++ bs ∧ run step s as = some u ∧
      u.pc = .removeDisconnect ∧ u.removed = false := by
  intro s
  obtain ⟨t, ht⟩ := Option.isSome_iff_exists.mp
    (show (run step s (List.replicate 10 (Act.main true))).isSome = true by decide)
  exact event_served (e := .removed) rfl ht (by decide)

/-- There is no shell, or the one there is has ended. -/
def Main.Shellless (s : Main) : Prop := ∀ tp, s.shelltp = some tp → tp ∈ s.terminated

/-- The heap has no room for a shell. -/
def spawnFails (s : Main) : Act → Bool
  | .main ok => s.pc = .poll && s.shelltp = none && !ok
  | _ => false

/-- Statements until there is a new shell, if there is room for it. -/
def Main.spawnRank (s : Main) : ℕ := s.pc.toPoll + 5 * s.shelltp.isSome.toNat

theorem mainStep_toPoll (ht : s.mainStep ok = some t) (hpoll : s.pc ≠ .poll) :
    (t.created = s.created ∧ t.terminated = s.terminated ∧
      (t.shelltp = s.shelltp ∨ t.shelltp = none)) ∧ t.pc.toPoll < s.pc.toPoll := by
  by_cases hwait : s.pc = .wait
  · simp only [Main.mainStep, hwait] at ht
    obtain rfl := Option.some.inj ht
    rw [hwait]
    unfold Main.dispatch
    split_ifs <;> exact ⟨⟨rfl, rfl, .inl rfl⟩, by simp [Pc.toPoll]⟩
  · obtain ⟨-, hshell, -, hless⟩ := mainStep_handler ht hpoll hwait
    exact ⟨hshell, hless⟩

theorem spawnRank_step {a : Act} {n : ℕ} (hs : s.Shellless ∧ s.created = n)
    (ht : step s a = some t) :
    (t.shelltp = some n ∧ t.created = n + 1) ∨
    ((t.Shellless ∧ t.created = n) ∧
      t.spawnRank + a.isMain.toNat ≤ s.spawnRank + 5 * (spawnFails s a).toNat) := by
  obtain ⟨hended, rfl⟩ := hs
  cases a with
  | tick b =>
    obtain ⟨c, i, r, htick, -⟩ := tmrfunc_cases s b
    obtain rfl := Option.some.inj ht
    rw [htick]
    exact .inr ⟨⟨hended, rfl⟩, Nat.le_refl _⟩
  | exit tp =>
    obtain ⟨-, -, -, rfl⟩ := shellExit_cases ht
    exact .inr ⟨⟨fun tp htp => List.mem_append_left _ (hended tp htp), rfl⟩, Nat.le_refl _⟩
  | main ok =>
    by_cases hp : s.pc = .poll
    · simp only [step, Main.mainStep, hp] at ht
      obtain rfl := Option.some.inj ht
      cases htp : s.shelltp with
      | none =>
        cases ok with
        | true => exact .inl (by simp [Main.pollShell, htp])
        | false =>
          refine .inr ?_
          simp [Main.pollShell, htp, Main.Shellless, Main.spawnRank, spawnFails, hp, Pc.toPoll,
            Act.isMain]
      | some tp =>
        refine .inr ?_
        simp [Main.pollShell, htp, hended tp htp, Main.releaseShell, Main.Shellless,
          Main.spawnRank, spawnFails, hp, Pc.toPoll, Act.isMain]
    · obtain ⟨⟨hcreated, hterminated, htp⟩, hpoll⟩ := mainStep_toPoll ht hp
      refine .inr ⟨⟨fun tp h => ?_, hcreated⟩, ?_⟩
      · rcases htp with htp | htp
        · rw [hterminated]
          exact hended tp (htp.symm.trans h)
        · rw [htp] at h
          cases h
      · have hsome : t.shelltp.isSome.toNat ≤ s.shelltp.isSome.toNat := by
          rcases htp with htp | htp
          · rw [htp]
          · rw [htp]
            exact Nat.zero_le _
        simp only [Main.spawnRank, Act.isMain, Bool.toNat_true]
        omega

theorem toPoll_le (pc : Pc) : pc.toPoll ≤ 4 := by
  cases pc <;> decide

/-- In every run, when a shell has ended there is a new one after at most two turns of the
loop, and one more for each time that the heap has no room for it. -/
theorem shell_replaced (hended : s.Shellless) (hr : run step s acts = some t)
    (hlong : 5 * (countSteps step spawnFails s acts + 2) ≤ acts.countP Act.isMain) :
    ∃ as bs u, acts = as ++ bs ∧ run step s as = some u ∧ u.shelltp = some s.created ∧
      u.created = s.created + 1 := by
  have hpoll := toPoll_le s.pc
  have hsome := s.shelltp.isSome.toNat_le
  refine exists_goal_of_rank Main.spawnRank Act.isMain spawnFails 5
    (fun _ _ _ hs ht => spawnRank_step hs ht) ⟨hended, rfl⟩ hr ?_
  rw [Main.spawnRank]
  omega

theorem shell_replaced_first :
    let s := { Main.boot with
      pc := .wait, shelltp := some 0, created := 1, terminated := [0], shellTerminated := true }
    ∃ as bs u, List.replicate 10 (Act.main true) = as ++ bs ∧ run step s as = some u ∧
      u.shelltp = some 1 ∧ u.created = 2 := by
  intro s
  obtain ⟨t, ht⟩ := Option.isSome_iff_exists.mp
    (show (run step s (List.replicate 10 (Act.main true))).isSome = true by decide)
  refine shell_replaced (fun tp htp => ?_) ht (by decide)
  obtain rfl := Option.some.inj htp
  exact List.mem_cons_self

end WaferSat.MainLoop
