import WaferSat.MainLoop.Machine

/-!
`fs_ready` and the card. The two card events are served in the order of their bits, not in the
order in which they came, so an insertion that is broadcast while a removal is still pending is
served first and undone by the removal. Without such an insertion `fs_ready` follows the card.
-/
namespace WaferSat.MainLoop
open GuardedRun

inductive Phase where
  | idle | inserting | removing
  deriving DecidableEq, Repr

/-- The card handler that is running, if any. -/
def Pc.phase : Pc → Phase
  | .insertConnect | .insertMount | .insertReady => .inserting
  | .removeDisconnect | .removeClear => .removing
  | .poll | .wait | .shellHandler => .idle

/-- With no card event pending and no handler running, `fs_ready` is set exactly if the
monitor takes the card to be inserted. -/
def FsFollowsCard (s : Main) : Prop :=
  (s.pc = .poll ∨ s.pc = .wait) → s.inserted = false → s.removed = false →
    (s.fsReady = true ↔ s.cnt = 0)

/-- The tick that ends a debounced insertion does not find a removal pending. -/
def NoStaleRemoval (s : Main) (a : Act) : Prop :=
  a = .tick true → s.cnt = 1 → s.removed = false

instance (s : Main) (a : Act) : Decidable (NoStaleRemoval s a) :=
  inferInstanceAs (Decidable (a = .tick true → s.cnt = 1 → s.removed = false))

/-- A card that is there can be connected and mounted. -/
def CardWorks (s : Main) (a : Act) : Prop :=
  s.pc = .insertConnect ∨ s.pc = .insertMount → s.card = true → a ≠ .main false

instance (s : Main) (a : Act) : Decidable (CardWorks s a) :=
  inferInstanceAs (Decidable (_ → s.card = true → a ≠ .main false))

/-- What ties the pending events to the debounced state in each phase of the main thread. -/
structure Follows (s : Main) : Prop where
  card_of_cnt : s.cnt = 0 → s.card = true
  removed_pending : s.removed = true → s.cnt ≠ 0
  inserted_pending : s.inserted = true → s.removed = false → s.cnt = 0
  inserting : s.pc.phase = .inserting → s.removed = false → s.cnt = 0
  removing : s.pc.phase = .removing → s.inserted = false → s.removed = false → s.cnt ≠ 0
  settled : s.pc.phase = .idle → s.inserted = false → s.removed = false →
    (s.fsReady = true ↔ s.cnt = 0)

variable {s t : Main} {a : Act} {acts : List Act}

theorem follows_boot : Follows Main.boot := by
  constructor <;> simp [Main.boot, pollingInterval, Pc.phase]

theorem follows_tick (h : Follows s) {b : Bool} (hc : NoStaleRemoval s (.tick b)) :
    Follows (s.tmrfunc b) := by
  obtain ⟨c, i, r, ht, hcases⟩ := tmrfunc_cases s b
  rw [ht]
  rcases hcases with ⟨rfl, rfl, hcnt, hb⟩ | ⟨hone, rfl, rfl, rfl, rfl⟩ | ⟨hzero, hcnt, rfl, rfl⟩
  · constructor
    · exact hb
    · intro hr
      exact mt hcnt.mp (h.removed_pending hr)
    · intro hi hr
      exact hcnt.mpr (h.inserted_pending hi hr)
    · intro hp hr
      exact hcnt.mpr (h.inserting hp hr)
    · intro hp hi hr
      exact mt hcnt.mp (h.removing hp hi hr)
    · intro hp hi hr
      exact (h.settled hp hi hr).trans hcnt.symm
  · have hr : s.removed = false := hc rfl hone
    constructor <;> simp [hr]
  · constructor <;> simp [hcnt]

theorem Follows.of_same (h : Follows s) (hp : t.pc.phase = s.pc.phase)
    (hs : (t.inserted, t.removed, t.cnt, t.card, t.fsReady) =
      (s.inserted, s.removed, s.cnt, s.card, s.fsReady)) : Follows t := by
  simp only [Prod.mk.injEq] at hs
  obtain ⟨hi, hr, hcnt, hcard, hfs⟩ := hs
  constructor
  · rw [hcnt, hcard]
    exact h.card_of_cnt
  · rw [hr, hcnt]
    exact h.removed_pending
  · rw [hi, hr, hcnt]
    exact h.inserted_pending
  · rw [hp, hr, hcnt]
    exact h.inserting
  · rw [hp, hi, hr, hcnt]
    exact h.removing
  · rw [hp, hi, hr, hcnt, hfs]
    exact h.settled

theorem follows_dispatch (h : Follows s) (hp : s.pc = .wait) : Follows s.dispatch := by
  have hset := h.settled (by rw [hp]; rfl)
  unfold Main.dispatch
  split_ifs with hi hr hs
  · exact ⟨h.card_of_cnt, h.removed_pending, by simp, fun _ hr => h.inserted_pending hi hr,
      by simp [Pc.phase], by simp [Pc.phase]⟩
  · have hcnt := h.removed_pending hr
    exact ⟨h.card_of_cnt, by simp, fun h' => absurd h' hi, by simp [Pc.phase], fun _ _ _ => hcnt,
      by simp [Pc.phase]⟩
  · exact h.of_same (by rw [hp]; rfl) rfl
  · exact h.of_same (by rw [hp]; rfl) rfl

/-- A call of `InsertHandler`, which goes on to the next statement or returns. It fails only without
the card, and then the removal is already pending. -/
theorem follows_insert_call (h : Follows s) {ok : Bool} {next : Pc}
    (hp : s.pc.phase = .inserting) (hnext : next.phase = .inserting)
    (hworks : s.card = true → ok = true) :
    Follows { s with pc := if ok then next else .poll } := by
  cases ok with
  | true => exact h.of_same (hnext.trans hp.symm) rfl
  | false =>
    have hcard : s.card ≠ true := fun hcard => Bool.false_ne_true (hworks hcard)
    have hcnt : s.cnt ≠ 0 := mt h.card_of_cnt hcard
    have hr : s.removed ≠ false := mt (h.inserting hp) hcnt
    exact ⟨h.card_of_cnt, h.removed_pending, h.inserted_pending, by simp [Pc.phase],
      by simp [Pc.phase], fun _ _ hr' => absurd hr' hr⟩

theorem follows_main (h : Follows s) {ok : Bool} (hworks : CardWorks s (.main ok))
    (ht : s.mainStep ok = some t) : Follows t := by
  have hok (hp : s.pc = .insertConnect ∨ s.pc = .insertMount) (hcard : s.card = true) :
      ok = true := by
    have hcall := hworks hp hcard
    cases ok with
    | true => rfl
    | false => exact absurd rfl hcall
  cases hp : s.pc with
  | poll =>
    simp only [Main.mainStep, hp, Option.some.injEq] at ht
    subst ht
    refine h.of_same (by rw [hp]; rfl) ?_
    unfold Main.pollShell Main.releaseShell
    split <;> split <;> rfl
  | wait =>
    simp only [Main.mainStep, hp, Option.some.injEq] at ht
    exact ht ▸ follows_dispatch h hp
  | insertConnect =>
    simp only [Main.mainStep, hp, Option.some.injEq] at ht
    exact ht ▸ follows_insert_call h (by rw [hp]; rfl) rfl (hok (.inl hp))
  | insertMount =>
    simp only [Main.mainStep, hp, Option.some.injEq] at ht
    exact ht ▸ follows_insert_call h (by rw [hp]; rfl) rfl (hok (.inr hp))
  | insertReady =>
    simp only [Main.mainStep, hp, Option.some.injEq] at ht
    subst ht
    have hcnt := h.inserting (by rw [hp]; rfl)
    exact ⟨h.card_of_cnt, h.removed_pending, h.inserted_pending, by simp [Pc.phase],
      by simp [Pc.phase], fun _ _ hr => by simp [hcnt hr]⟩
  | removeDisconnect =>
    simp only [Main.mainStep, hp, Option.some.injEq] at ht
    subst ht
    exact h.of_same (by rw [hp]; rfl) rfl
  | removeClear =>
    simp only [Main.mainStep, hp, Option.some.injEq] at ht
    subst ht
    have hcnt := h.removing (by rw [hp]; rfl)
    exact ⟨h.card_of_cnt, h.removed_pending, h.inserted_pending, by simp [Pc.phase],
      by simp [Pc.phase], fun _ hi hr => by simp [hcnt hi hr]⟩
  | shellHandler =>
    simp only [Main.mainStep, hp] at ht
    split at ht
    · cases ht
    · obtain rfl := Option.some.inj ht
      refine h.of_same (by rw [hp]; rfl) ?_
      unfold Main.releaseShell
      split <;> rfl

theorem follows_step (h : Follows s) (hc : CardWorks s a ∧ NoStaleRemoval s a)
    (ht : step s a = some t) : Follows t := by
  cases a with
  | tick b =>
    obtain rfl := Option.some.inj ht
    exact follows_tick h hc.2
  | main ok => exact follows_main h hc.1 ht
  | exit tp =>
    obtain ⟨-, -, -, rfl⟩ := shellExit_cases ht
    exact h.of_same rfl rfl

theorem Follows.fsFollowsCard (h : Follows s) : FsFollowsCard s := by
  rintro (hp | hp)
  · exact h.settled (by rw [hp]; rfl)
  · exact h.settled (by rw [hp]; rfl)

/-- In a run in which connect and mount succeed whenever the card is there and no insertion is
broadcast over a pending removal, `fs_ready` follows the card in every state. -/
theorem fs_follows_card (hworks : Meets step CardWorks Main.boot acts)
    (hc : Meets step NoStaleRemoval Main.boot acts) :
    Along step FsFollowsCard Main.boot acts :=
  along_of_meets (fun _ _ _ hs hc ht => follows_step hs hc ht) (fun _ hs => hs.fsFollowsCard)
    follows_boot (hworks.and hc)

def cardMounted : List Act :=
  List.replicate 10 (.tick true) ++ List.replicate 6 (.main true)

theorem fs_follows_mounted_card : ∃ s, run step Main.boot cardMounted = some s ∧
    s.fsReady = true ∧ Along step FsFollowsCard Main.boot cardMounted :=
  ⟨_, rfl, rfl, fs_follows_card (by decide) (by decide)⟩

def cardSwapped : List Act :=
  cardMounted ++ .tick false :: List.replicate 10 (.tick true) ++ List.replicate 8 (.main true)

/-- The card is in, the monitor says so, nothing is pending, and `fs_ready` stays false. -/
theorem swapped_card_not_ready : Meets step CardWorks Main.boot cardSwapped ∧
    ∃ s, run step Main.boot cardSwapped = some s ∧ s.pc = .poll ∧ s.inserted = false ∧
      s.removed = false ∧ s.cnt = 0 ∧ s.fsReady = false ∧ ¬FsFollowsCard s := by
  let s := { Main.boot with cnt := 0, card := true, shelltp := some 0, created := 1 }
  refine ⟨by decide, s, by decide, rfl, rfl, rfl, rfl, rfl, fun h => ?_⟩
  exact absurd ((h (.inl rfl) rfl rfl).mpr rfl) (by decide)

end WaferSat.MainLoop
