import WaferSat.Foundation.Interleaved
import WaferSat.Telemetry.OwnSensor

/-!
`I2C_transmit` statement by statement, called from any number of threads. The bus is acquired for
the whole of a transaction and the driver is started and stopped in it, so the driver is never
used by two threads nor used while it is stopped, and what the threads do together is what they
would do if every transaction were one step. What the devices answer, and what a failed read leaves
in the receive buffer, is any function of the request and the state of the device.
-/
namespace WaferSat.Telemetry
open Dialog GuardedRun

/-- Where a thread is in `I2C_transmit`, with the answer once there is one. -/
inductive Phase where
  | idle
  | acquired
  | started
  | transferred (x : Answer)
  | stopped (x : Answer)
  | released (x : Answer)

/-- The bus is held. -/
def Phase.Holds : Phase → Prop
  | .acquired | .started | .transferred _ | .stopped _ => True
  | .idle | .released _ => False

/-- The driver is started. -/
def Phase.Uses : Phase → Prop
  | .started | .transferred _ => True
  | .idle | .acquired | .stopped _ | .released _ => False

/-- The program of a thread from its current transaction on. -/
structure BusThread (α : Type) where
  program : I2c α
  phase : Phase

def BusThread.Proper {α : Type} (t : BusThread α) : Prop :=
  ∀ a, t.program = .done a → t.phase = .idle

/-- The mutex and the state of the driver, `error` of `pi2c.c`, the devices and the threads. -/
structure SharedBus (τ ι κ α : Type) where
  owner : Option τ
  ready : Bool
  error : BitVec 8
  bus : ι → κ
  thread : τ → BusThread α

section Statements

variable {τ ι κ α : Type}

/-- Before any transaction the bus is free and the driver stopped. -/
def SharedBus.start (P : τ → I2c α) (b : ι → κ) : SharedBus τ ι κ α :=
  ⟨none, false, 0#8, b, fun i => ⟨P i, .idle⟩⟩

/-- What is left of the program of a thread when the transfer is counted as the transaction. -/
def BusThread.pending (t : BusThread α) : I2c α :=
  match t.program, t.phase with
  | .ask _ k, .transferred x => k x
  | .ask _ k, .stopped x => k x
  | .ask _ k, .released x => k x
  | p, _ => p

/-- The threads with their transactions as single steps. -/
def SharedBus.pool (s : SharedBus τ ι κ α) : Pool Request Answer ι κ τ α :=
  ⟨fun i => (s.thread i).pending, s.bus⟩

theorem pool_start (P : τ → I2c α) (b : ι → κ) : (SharedBus.start P b).pool = ⟨P, b⟩ := by
  refine congrArg₂ Pool.mk (funext fun i => ?_) rfl
  show (⟨P i, .idle⟩ : BusThread α).pending = P i
  cases P i <;> rfl

/-- The thread whose transaction takes place, if the statement is the transfer. -/
def transferOf (s : SharedBus τ ι κ α) (i : τ) : Option τ :=
  match (s.thread i).phase with
  | .started => some i
  | _ => none

/-- The owner of the mutex is the thread that holds the bus, the driver is started exactly while a
thread uses it, and a thread without transactions left is not in one. -/
structure Locked (s : SharedBus τ ι κ α) : Prop where
  owner : ∀ i, s.owner = some i ↔ (s.thread i).phase.Holds
  ready : s.ready = true ↔ ∃ i, (s.thread i).phase.Uses
  idle : ∀ i, (s.thread i).Proper

theorem Phase.Uses.holds {p : Phase} (h : p.Uses) : p.Holds := by
  cases p <;> trivial

theorem Locked.unique {s : SharedBus τ ι κ α} (h : Locked s) {i j : τ}
    (hi : (s.thread i).phase.Holds) (hj : (s.thread j).phase.Holds) : i = j :=
  Option.some.inj (((h.owner i).mpr hi).symm.trans ((h.owner j).mpr hj))

theorem locked_start (P : τ → I2c α) (b : ι → κ) : Locked (SharedBus.start P b) :=
  ⟨fun _ => iff_of_false (fun heq => nomatch heq) id,
    iff_of_false Bool.false_ne_true fun ⟨_, huses⟩ => huses, fun _ _ _ => rfl⟩

theorem proper_ask (r : Request) (k : Answer → I2c α) (phase : Phase) :
    (⟨.ask r k, phase⟩ : BusThread α).Proper :=
  fun _ hdone => nomatch hdone

variable [DecidableEq τ]

theorem proper_update {threads : τ → BusThread α} (h : ∀ j, (threads j).Proper) {i : τ}
    {t : BusThread α} (ht : t.Proper) (j : τ) : (Function.update threads i t j).Proper := by
  by_cases hj : j = i
  · subst hj
    rwa [Function.update_self]
  · rw [Function.update_of_ne hj]
    exact h j

/-- A thread that finds the bus free or its own may change the mutex and the driver, as long as
they agree with where it then is. -/
theorem Locked.update {s : SharedBus τ ι κ α} (h : Locked s) {i : τ}
    (hi : s.owner = none ∨ s.owner = some i) {t : BusThread α} {owner : Option τ} {ready : Bool}
    (howner : owner = none ∧ ¬t.phase.Holds ∨ owner = some i ∧ t.phase.Holds)
    (hready : ready = true ↔ t.phase.Uses) (ht : t.Proper) (error : BitVec 8) (bus : ι → κ) :
    Locked ⟨owner, ready, error, bus, Function.update s.thread i t⟩ := by
  have hfree : ∀ j, j ≠ i → ¬(s.thread j).phase.Holds := by
    intro j hj hholds
    have hother := (h.owner j).mpr hholds
    rcases hi with hnone | hmine
    · rw [hnone] at hother
      cases hother
    · rw [hmine] at hother
      exact hj (Option.some.inj hother).symm
  refine ⟨fun j => ?_, hready.trans ⟨fun huses => ⟨i, ?_⟩, ?_⟩, proper_update h.idle ht⟩
  · by_cases hj : j = i
    · subst hj
      dsimp only
      rw [Function.update_self]
      rcases howner with ⟨rfl, hnot⟩ | ⟨rfl, hholds⟩
      · exact iff_of_false (fun heq => nomatch heq) hnot
      · exact iff_of_true rfl hholds
    · dsimp only
      rw [Function.update_of_ne hj]
      refine iff_of_false (fun heq => ?_) (hfree j hj)
      rcases howner with ⟨rfl, -⟩ | ⟨rfl, -⟩
      · cases heq
      · exact hj (Option.some.inj heq).symm
  · dsimp only
    rwa [Function.update_self]
  · rintro ⟨j, huses⟩
    dsimp only at huses
    by_cases hj : j = i
    · subst hj
      rwa [Function.update_self] at huses
    · rw [Function.update_of_ne hj] at huses
      exact absurd huses.holds (hfree j hj)

theorem Locked.move {s : SharedBus τ ι κ α} (h : Locked s) {i : τ} (hi : ¬(s.thread i).phase.Holds)
    {t : BusThread α} (hout : ¬t.phase.Holds) (ht : t.Proper) (error : BitVec 8) :
    Locked { s with error := error, thread := Function.update s.thread i t } := by
  have hsame : ∀ j, (Function.update s.thread i t j).phase = (s.thread j).phase ∨
      ¬(Function.update s.thread i t j).phase.Holds ∧ ¬(s.thread j).phase.Holds := by
    intro j
    by_cases hj : j = i
    · subst hj
      rw [Function.update_self]
      exact .inr ⟨hout, hi⟩
    · rw [Function.update_of_ne hj]
      exact .inl rfl
  refine ⟨fun j => (h.owner j).trans ?_, h.ready.trans (exists_congr fun j => ?_),
    proper_update h.idle ht⟩
  · rcases hsame j with heq | ⟨hnew, hold⟩
    · rw [heq]
    · exact iff_of_false hold hnew
  · rcases hsame j with heq | ⟨hnew, hold⟩
    · rw [heq]
    · exact iff_of_false (fun hu => hold hu.holds) (fun hu => hnew hu.holds)

theorem pool_update (s : SharedBus τ ι κ α) (i : τ) (t : BusThread α) (owner : Option τ)
    (ready : Bool) (error : BitVec 8) (bus : ι → κ) :
    SharedBus.pool ⟨owner, ready, error, bus, Function.update s.thread i t⟩ =
      ⟨Function.update s.pool.program i t.pending, bus⟩ := by
  refine congrArg₂ Pool.mk (funext fun j => ?_) rfl
  exact Function.apply_update (fun _ => BusThread.pending) s.thread i t j

theorem pool_update_same (s : SharedBus τ ι κ α) (i : τ) {t : BusThread α}
    (ht : t.pending = (s.thread i).pending) (owner : Option τ) (ready : Bool) (error : BitVec 8) :
    SharedBus.pool ⟨owner, ready, error, s.bus, Function.update s.thread i t⟩ = s.pool := by
  rw [pool_update, ht]
  exact congrArg₂ Pool.mk (Function.update_eq_self _ _) rfl

variable [DecidableEq ι] {S : Service Request Answer ι κ}

/-- The next statement of a thread. The mutex blocks a thread that finds it taken and is given
back by its owner only; a transfer needs a started driver. -/
def busStep (S : Service Request Answer ι κ) (s : SharedBus τ ι κ α) (i : τ) :
    Option (SharedBus τ ι κ α) :=
  match (s.thread i).program with
  | .done _ => none
  | .ask r k =>
    let goto := fun phase => Function.update s.thread i ⟨.ask r k, phase⟩
    match (s.thread i).phase with
    | .idle =>
      if s.owner = none then some { s with owner := some i, thread := goto .acquired } else none
    | .acquired => some { s with ready := true, thread := goto .started }
    | .started =>
      if s.ready = true then
        let x := S.serve r (s.bus (S.address r))
        some { s with
          bus := Function.update s.bus (S.address r) x.2
          thread := goto (.transferred x.1) }
      else none
    | .transferred x => some { s with ready := false, thread := goto (.stopped x) }
    | .stopped x =>
      if s.owner = some i then some { s with owner := none, thread := goto (.released x) } else none
    | .released x => some { s with
        error := if x.status = .timeout then 1#8 else 0#8
        thread := Function.update s.thread i ⟨k x, .idle⟩ }

theorem busStep_cases {s t : SharedBus τ ι κ α} {i : τ} (ht : busStep S s i = some t) :
    ∃ r k, (s.thread i).program = .ask r k ∧
      let goto := fun phase => Function.update s.thread i ⟨.ask r k, phase⟩
      let x := S.serve r (s.bus (S.address r))
      ((s.thread i).phase = .idle ∧ s.owner = none ∧
        t = { s with owner := some i, thread := goto .acquired }) ∨
      ((s.thread i).phase = .acquired ∧ t = { s with ready := true, thread := goto .started }) ∨
      ((s.thread i).phase = .started ∧ s.ready = true ∧
        t = { s with
          bus := Function.update s.bus (S.address r) x.2
          thread := goto (.transferred x.1) }) ∨
      (∃ y, (s.thread i).phase = .transferred y ∧
        t = { s with ready := false, thread := goto (.stopped y) }) ∨
      (∃ y, (s.thread i).phase = .stopped y ∧ s.owner = some i ∧
        t = { s with owner := none, thread := goto (.released y) }) ∨
      (∃ y, (s.thread i).phase = .released y ∧
        t = { s with
          error := if y.status = .timeout then 1#8 else 0#8
          thread := Function.update s.thread i ⟨k y, .idle⟩ }) := by
  unfold busStep at ht
  cases hp : (s.thread i).program with
  | done a => simp only [hp, reduceCtorEq] at ht
  | ask r k =>
    refine ⟨r, k, rfl, ?_⟩
    simp only [hp] at ht
    cases hphase : (s.thread i).phase with
    | idle =>
      simp only [hphase] at ht
      by_cases hfree : s.owner = none
      · rw [if_pos hfree] at ht
        exact .inl ⟨rfl, hfree, (Option.some.inj ht).symm⟩
      · rw [if_neg hfree] at ht
        cases ht
    | acquired =>
      simp only [hphase] at ht
      exact .inr (.inl ⟨rfl, (Option.some.inj ht).symm⟩)
    | started =>
      simp only [hphase] at ht
      by_cases hready : s.ready = true
      · rw [if_pos hready] at ht
        exact .inr (.inr (.inl ⟨rfl, hready, (Option.some.inj ht).symm⟩))
      · rw [if_neg hready] at ht
        cases ht
    | transferred y =>
      simp only [hphase] at ht
      exact .inr (.inr (.inr (.inl ⟨y, rfl, (Option.some.inj ht).symm⟩)))
    | stopped y =>
      simp only [hphase] at ht
      by_cases howner : s.owner = some i
      · rw [if_pos howner] at ht
        exact .inr (.inr (.inr (.inr (.inl ⟨y, rfl, howner, (Option.some.inj ht).symm⟩))))
      · rw [if_neg howner] at ht
        cases ht
    | released y =>
      simp only [hphase] at ht
      exact .inr (.inr (.inr (.inr (.inr ⟨y, rfl, (Option.some.inj ht).symm⟩))))

theorem locked_step {s t : SharedBus τ ι κ α} {i : τ} (h : Locked s) (ht : busStep S s i = some t) :
    Locked t := by
  obtain ⟨r, k, -, hcase⟩ := busStep_cases ht
  have hmine : (s.thread i).phase.Holds → s.owner = some i := (h.owner i).mpr
  rcases hcase with ⟨-, hfree, rfl⟩ | ⟨hphase, rfl⟩ | ⟨hphase, hready, rfl⟩ | ⟨y, hphase, rfl⟩ |
    ⟨y, hphase, howner, rfl⟩ | ⟨y, hphase, rfl⟩
  · have hstopped : ¬s.ready = true := by
      rw [h.ready]
      rintro ⟨j, huses⟩
      have howner := (h.owner j).mpr huses.holds
      rw [hfree] at howner
      cases howner
    refine h.update (.inl hfree) ?_ ?_ (proper_ask r k _) _ _
    · exact .inr ⟨rfl, trivial⟩
    · exact iff_of_false hstopped id
  · have hi := hmine (hphase ▸ trivial)
    refine h.update (.inr hi) ?_ ?_ (proper_ask r k _) _ _
    · exact .inr ⟨hi, trivial⟩
    · exact iff_of_true rfl trivial
  · have hi := hmine (hphase ▸ trivial)
    refine h.update (.inr hi) ?_ ?_ (proper_ask r k _) _ _
    · exact .inr ⟨hi, trivial⟩
    · exact iff_of_true hready trivial
  · have hi := hmine (hphase ▸ trivial)
    refine h.update (.inr hi) ?_ ?_ (proper_ask r k _) _ _
    · exact .inr ⟨hi, trivial⟩
    · exact iff_of_false Bool.false_ne_true id
  · have hstopped : ¬s.ready = true := by
      rw [h.ready]
      rintro ⟨j, huses⟩
      obtain rfl := h.unique huses.holds ((h.owner i).mp howner)
      rw [hphase] at huses
      exact huses
    refine h.update (.inr howner) ?_ ?_ (proper_ask r k _) _ _
    · exact .inl ⟨rfl, id⟩
    · exact iff_of_false hstopped id
  · refine h.move ?_ ?_ (fun _ _ => rfl) _
    · rw [hphase]
      exact id
    · exact id

theorem pool_step {s t : SharedBus τ ι κ α} {i : τ} (ht : busStep S s i = some t) :
    run (poolStep S) s.pool (transferOf s i).toList = some t.pool := by
  obtain ⟨r, k, hp, hcase⟩ := busStep_cases ht
  have hthread : ∀ phase, (s.thread i).phase = phase → s.thread i = ⟨.ask r k, phase⟩ := by
    rintro phase rfl
    rw [← hp]
  rcases hcase with ⟨hphase, hfree, rfl⟩ | ⟨hphase, rfl⟩ | ⟨hphase, hready, rfl⟩ |
    ⟨y, hphase, rfl⟩ | ⟨y, hphase, howner, rfl⟩ | ⟨y, hphase, rfl⟩
  · rw [transferOf, hphase, pool_update_same s i (by rw [hthread _ hphase]; rfl)]
    rfl
  · rw [transferOf, hphase, pool_update_same s i (by rw [hthread _ hphase]; rfl)]
    rfl
  · have hprogram : s.pool.program i = .ask r k := by
      show (s.thread i).pending = _
      rw [hthread _ hphase]
      rfl
    rw [transferOf, hphase, pool_update]
    exact run_cons_eq_some.mpr ⟨_, poolStep_of_ask hprogram, rfl⟩
  · rw [transferOf, hphase, pool_update_same s i (by rw [hthread _ hphase]; rfl)]
    rfl
  · rw [transferOf, hphase, pool_update_same s i (by rw [hthread _ hphase]; rfl)]
    rfl
  · have hpending : (⟨k y, .idle⟩ : BusThread α).pending = (s.thread i).pending := by
      rw [hthread _ hphase]
      cases hk : k y <;> simp [BusThread.pending, hk]
    rw [transferOf, hphase, pool_update_same s i hpending]
    rfl

theorem pool_run {P : τ → I2c α} {b : ι → κ} {order : List τ} {s : SharedBus τ ι κ α}
    (hr : run (busStep S) (SharedBus.start P b) order = some s) :
    run (poolStep S) ⟨P, b⟩ (labels (busStep S) transferOf (SharedBus.start P b) order) =
      some s.pool := by
  rw [← pool_start]
  exact run_simulates (I := fun _ => True) (fun _ _ _ _ _ => trivial)
    (fun _ _ _ _ ht => pool_step ht) trivial hr

theorem Locked.enabled {s : SharedBus τ ι κ α} (h : Locked s) {i : τ}
    (hbusy : ∀ a, (s.thread i).program ≠ .done a)
    (hfree : (s.thread i).phase = .idle → s.owner = none) : (busStep S s i).isSome := by
  unfold busStep
  cases hp : (s.thread i).program with
  | done a => exact absurd hp (hbusy a)
  | ask r k =>
    dsimp only
    cases hphase : (s.thread i).phase with
    | idle =>
      rw [if_pos (hfree hphase)]
      rfl
    | started =>
      rw [if_pos (h.ready.mpr ⟨i, hphase ▸ trivial⟩)]
      rfl
    | stopped y =>
      dsimp only
      rw [if_pos ((h.owner i).mpr (hphase ▸ trivial))]
      rfl
    | acquired => rfl
    | transferred y => rfl
    | released y => rfl

theorem Locked.exists_enabled {s : SharedBus τ ι κ α} (h : Locked s) {i : τ}
    (hbusy : ∀ a, (s.thread i).program ≠ .done a) : ∃ j, (busStep S s j).isSome := by
  cases howner : s.owner with
  | none => exact ⟨i, h.enabled hbusy fun _ => howner⟩
  | some j =>
    have hholds := (h.owner j).mp howner
    have hin : (s.thread j).phase ≠ .idle := by
      intro hidle
      rw [hidle] at hholds
      exact hholds
    exact ⟨j, h.enabled (fun a hdone => hin (h.idle j a hdone)) fun hidle => absurd hidle hin⟩

end Statements

/-- Any number of threads in any interleaving of their statements: one of them at a time holds the
bus, the driver is started exactly while a thread uses it, the threads cannot block one another for
good, and they have got as far as in the run in which every transaction is one step, taken in the
order of the transfers. -/
theorem i2cTransmit_atomic {τ ι κ α : Type} [DecidableEq τ] [DecidableEq ι]
    {S : Service Request Answer ι κ} (P : τ → I2c α) (b : ι → κ) {order : List τ}
    {s : SharedBus τ ι κ α} (hr : run (busStep S) (SharedBus.start P b) order = some s) :
    (∀ i j, (s.thread i).phase.Holds → (s.thread j).phase.Holds → i = j) ∧
    (s.ready = true ↔ ∃ i, (s.thread i).phase.Uses) ∧
    (∀ i, (∀ a, (s.thread i).program ≠ .done a) → ∃ j, (busStep S s j).isSome) ∧
    run (poolStep S) ⟨P, b⟩ (labels (busStep S) transferOf (SharedBus.start P b) order) =
      some s.pool := by
  have hlocked : Locked s :=
    run_invariant (fun _ _ _ h ht => locked_step h ht) (locked_start P b) hr
  exact ⟨fun i j hi hj => hlocked.unique hi hj, hlocked.ready,
    fun i hbusy => hlocked.exists_enabled hbusy, pool_run hr⟩

/-- Something answers at every address, as each of the sensors that `getSensors` probes for. -/
def sensorBoard : Bus := fun address => some fun reg i =>
  if reg = 0xD0 then 0x60 else if reg = 0x87 then 0x05 else if reg = 0x75 then 0x71
  else address + reg + BitVec.ofNat 8 i

/-- Two threads that write to the same thermometer, the second in the gap that the first leaves
between giving the bus back and recording the outcome. -/
theorem i2cTransmit_atomic_two :
    let P : Bool → I2c Bool := fun i => i2cWrite8 0x48 0x01 (if i then 0x60 else 0x40)
    let order := List.replicate 5 false ++ List.replicate 6 true ++ [false]
    ∃ s, run (busStep i2cBus) (SharedBus.start P sensorBoard) order = some s ∧
      run (poolStep i2cBus) ⟨P, sensorBoard⟩ [false, true] = some s.pool := by
  intro P order
  have hsome : (run (busStep i2cBus) (SharedBus.start P sensorBoard) order).isSome = true := rfl
  obtain ⟨s, hs⟩ := Option.isSome_iff_exists.mp hsome
  exact ⟨s, hs, (i2cTransmit_atomic P _ hs).2.2.2⟩

/-- The addresses `getSensors` talks to. -/
def sensors : List (BitVec 8) :=
  [0x76, 0x77, 0x29, 0x48, 0x49, 0x4A, 0x4B, 0x4C, 0x4D, 0x4E, 0x4F, 0x68]

theorem Asks.sensors {α : Type} {p : I2c α} {A : List (BitVec 8)} (h : p.Asks (Talks A))
    (hA : A ⊆ Telemetry.sensors) : p.Asks fun r => r.address ∈ Telemetry.sensors :=
  h.mono fun _ hr => hA hr.1

theorem asks_measureOthers (analog : Analog) (tp : DataPoint) :
    (measureOthers analog tp).Asks fun r => r.address ∈ sensors := by
  unfold measureOthers
  apply asks_bind (Asks.sensors asks_measureLtr329 (by decide))
  intro channels
  iterate 8
    apply asks_bind (Asks.sensors (asks_measureTmp100 _ _) (by decide))
    intro temp
  apply asks_bind (Asks.sensors asks_measureMpu9250 (by decide))
  intro accelerations
  exact asks_pure _

theorem asks_getSensors (analog : Analog) (handle : Bme280) (tp : DataPoint) :
    (getSensors analog handle tp).Asks fun r => r.address ∈ sensors := by
  unfold getSensors
  apply asks_bind (Asks.sensors (asks_measureBme280 _ (.inl rfl) _ _) (by decide))
  intro first
  apply asks_bind (Asks.sensors (asks_measureBme280 _ (.inr rfl) _ _) (by decide))
  intro second
  apply asks_bind (asks_measureOthers _ _)
  intro tp
  exact asks_pure _

/-- A measurement is not disturbed by threads that use the bus for other devices at the same time:
whatever the interleaving, and whatever a device answers to a request in each of its states, it
returns what it returns alone. -/
theorem getSensors_undisturbed {τ κ : Type} [DecidableEq τ]
    {serve : Request → κ → Answer × κ} {P : τ → I2c (DataPoint × BitVec 8)} {b : BitVec 8 → κ}
    {i : τ} {analog : Analog} {handle : Bme280} {tp : DataPoint}
    (hi : P i = getSensors analog handle tp)
    (hothers : ∀ j, j ≠ i → (P j).Asks fun r => r.address ∉ sensors)
    {order : List τ} {s : SharedBus τ (BitVec 8) κ (DataPoint × BitVec 8)}
    (hr : run (busStep ⟨Request.address, serve⟩) (SharedBus.start P b) order = some s)
    {v : DataPoint × BitVec 8} (hdone : (s.thread i).program = .done v) :
    v = ((getSensors analog handle tp).served ⟨Request.address, serve⟩ b).1 := by
  rw [← hi]
  refine pool_value_alone ?_ hothers (pool_run hr) ?_
  · rw [hi]
    exact asks_getSensors analog handle tp
  · show (s.thread i).pending = _
    unfold BusThread.pending
    rw [hdone]

def measurementAndCamera : Bool → I2c (DataPoint × BitVec 8)
  | false => getSensors default default default
  | true => i2cWrite8 0x3C 0x31 0x03 >>= fun _ => pure (default, 0)

/-- All sensors are there, and the camera is used right after the first transaction has given the
bus back. -/
theorem getSensors_undisturbed_by_camera :
    let order := List.replicate 5 false ++ List.replicate 6 true ++ List.replicate 1297 false
    ∃ s v, run (busStep i2cBus) (SharedBus.start measurementAndCamera sensorBoard) order = some s ∧
      (s.thread false).program = .done v ∧
      v = ((getSensors default default default).served i2cBus sensorBoard).1 := by
  intro order
  have hsome : ((run (busStep i2cBus) (SharedBus.start measurementAndCamera sensorBoard)
      (List.replicate 5 false ++ List.replicate 6 true ++ List.replicate 1297 false)).bind
    fun s => (s.thread false).program.result).isSome = true := by decide +kernel
  obtain ⟨v, hv⟩ := Option.isSome_iff_exists.mp hsome
  obtain ⟨s, hs, hv⟩ := Option.bind_eq_some_iff.mp hv
  refine ⟨s, v, hs, eq_done_of_result hv, ?_⟩
  refine getSensors_undisturbed (P := measurementAndCamera) (i := false) rfl ?_ hs
    (eq_done_of_result hv)
  intro j hj
  cases j with
  | false => exact absurd rfl hj
  | true => exact ⟨by decide, fun _ => trivial⟩

end WaferSat.Telemetry
