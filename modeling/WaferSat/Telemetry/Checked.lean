import WaferSat.Telemetry.Collector

/-! Which failures a driver hides. The drivers of the light sensor, of the
thermometers and of the accelerometer drop what a failed read left in its buffer;
the BME280 driver takes it for data, so of `getSensors` only the BME280 reads can
let a leftover through. -/
namespace WaferSat.Telemetry

open Dialog

def IsBme280Address (address : BitVec 8) : Prop := address = 0x76 ∨ address = 0x77

def IsBme280Read (r : Request) : Prop := IsBme280Address r.address ∧ r.rxbytes ≠ 0

/-- Answers with one status that agree on the buffer, unless the transaction failed
and was not a BME280 read. -/
def SameButLeftover (r : Request) (x y : Answer) : Prop :=
  x = y ∨ x.status = y.status ∧ x.status ≠ .ok ∧ ¬IsBme280Read r

section Respects

variable {α : Type}

theorem respects_bme280Read {r : Request} (hr : IsBme280Read r) (g : Answer → α) :
    (Dialog.ask r fun x => pure (g x)).Respects SameButLeftover := by
  refine ⟨fun x y hxy => ?_, fun _ => trivial⟩
  rcases hxy with rfl | ⟨-, -, hn⟩
  · rfl
  · exact absurd hr hn

theorem respects_checked {r : Request} {k : Answer → I2c α}
    (hk : ∀ x y, x.status = y.status → x.status ≠ .ok → k x = k y)
    (hrest : ∀ x, (k x).Respects SameButLeftover) :
    (Dialog.ask r k).Respects SameButLeftover := by
  refine ⟨fun x y hxy => ?_, hrest⟩
  rcases hxy with rfl | ⟨hs, hok, -⟩
  · rfl
  · exact hk x y hs hok

theorem respects_status (r : Request) (g : Msg → α) :
    (Dialog.ask r fun x => pure (g x.status)).Respects SameButLeftover :=
  respects_checked (fun _ _ hs _ => congrArg (fun m => pure (g m)) hs) fun _ => trivial

theorem respects_i2cWrite8 (address reg value : BitVec 8) :
    (i2cWrite8 address reg value).Respects SameButLeftover :=
  respects_status _ (· == .ok)

end Respects

section Bme280

variable {address : BitVec 8} (ha : IsBme280Address address)

include ha

theorem respects_i2cRead8 (reg : BitVec 8) : (i2cRead8 address reg).Respects SameButLeftover :=
  respects_bme280Read ⟨ha, Nat.one_ne_zero⟩ _

theorem respects_i2cRead16 (reg : BitVec 8) : (i2cRead16 address reg).Respects SameButLeftover :=
  respects_bme280Read ⟨ha, Nat.succ_ne_zero 1⟩ _

theorem respects_i2cRead16LE (reg : BitVec 8) :
    (i2cRead16LE address reg).Respects SameButLeftover :=
  respects_bme280Read ⟨ha, Nat.succ_ne_zero 1⟩ _

theorem respects_readAdc (reg : BitVec 8) : (readAdc address reg).Respects SameButLeftover := by
  apply respects_bind (respects_i2cRead16 ha reg)
  intro ⟨_, tmp⟩
  apply respects_bind (respects_i2cRead8 ha (reg + 2))
  intro ⟨_, low⟩
  exact respects_pure _

theorem respects_readCalib : (readCalib address).Respects SameButLeftover := by
  unfold readCalib
  repeat
    apply respects_bind (by first | exact respects_i2cRead16LE ha _ | exact respects_i2cRead8 ha _)
    intro _
  exact respects_pure _

theorem respects_bme280GetTemperature (tFine : BitVec 32) (calib : Calib) :
    (bme280GetTemperature ⟨address, tFine, calib⟩).Respects SameButLeftover :=
  respects_bind (respects_readAdc ha 0xFA) fun _ => respects_pure _

theorem respects_pressureLoop (tFine : BitVec 32) (calib : Calib) (means : BitVec 16) (left : ℕ)
    (sum : BitVec 64) :
    (pressureLoop ⟨address, tFine, calib⟩ means left sum).Respects SameButLeftover := by
  induction left generalizing sum with
  | zero => exact respects_pure _
  | succ left ih =>
    apply respects_bind (respects_readAdc ha 0xF7)
    intro adcP
    dsimp only
    split_ifs
    · exact respects_pure _
    · exact ih _

theorem respects_bme280GetHumidity (tFine : BitVec 32) (calib : Calib) :
    (bme280GetHumidity ⟨address, tFine, calib⟩).Respects SameButLeftover :=
  respects_bind (respects_i2cRead16 ha 0xFD) fun ⟨_, _⟩ => respects_pure _

end Bme280

theorem bme280Init_ensures (handle : Bme280) (id : BitVec 8) :
    (bme280Init handle id).Ensures fun h => h.i2cAddress = initAddress handle id := by
  apply ensures_bind (ensures_true _)
  intro calib _
  exact fun _ _ _ _ => rfl

theorem initAddress_bme280 (handle : Bme280) {id : BitVec 8}
    (hid : id = bme280I1 ∨ id = bme280E2) :
    IsBme280Address (initAddress handle id) := by
  rcases hid with rfl | rfl
  · exact Or.inr rfl
  · exact Or.inl rfl

theorem respects_bme280Init (handle : Bme280) {id : BitVec 8}
    (hid : id = bme280I1 ∨ id = bme280E2) :
    (bme280Init handle id).Respects SameButLeftover := by
  have ha := initAddress_bme280 handle hid
  apply respects_bind (respects_readCalib ha)
  intro calib
  apply respects_bind (respects_i2cWrite8 _ _ _)
  intro _
  apply respects_bind (respects_i2cWrite8 _ _ _)
  intro _
  apply respects_bind (respects_bme280GetTemperature ha _ _)
  intro ⟨h, _⟩
  exact respects_pure _

theorem respects_bme280IsAvailable {id : BitVec 8} (hid : id = bme280I1 ∨ id = bme280E2) :
    (bme280IsAvailable id).Respects SameButLeftover := by
  rcases hid with rfl | rfl
  · exact respects_bme280Read ⟨Or.inr rfl, Nat.one_ne_zero⟩ _
  · exact respects_bme280Read ⟨Or.inl rfl, Nat.one_ne_zero⟩ _

theorem respects_measureBme280 (handle : Bme280) {id : BitVec 8} (mask error : BitVec 8)
    (hid : id = bme280I1 ∨ id = bme280E2) :
    (measureBme280 handle id mask error).Respects SameButLeftover := by
  apply respects_bind (respects_bme280IsAvailable hid)
  intro present
  split_ifs
  · apply respects_bind_of_ensures (respects_bme280Init handle hid) (bme280Init_ensures handle id)
    rintro ⟨address, tFine, calib⟩ (rfl : address = _)
    have ha := initAddress_bme280 handle hid
    apply respects_bind (respects_pressureLoop ha _ _ _ _ _)
    intro press
    apply respects_bind (respects_bme280GetHumidity ha _ _)
    intro hum
    apply respects_bind (respects_bme280GetTemperature ha _ _)
    intro ⟨h, temp⟩
    exact respects_pure _
  · exact respects_pure _

/-- A program that addresses only devices in `Q` and drops what their failed
transactions left. -/
structure Checked (Q : BitVec 8 → Prop) {α : Type} (p : I2c α) : Prop where
  asks : p.Asks fun r => Q r.address
  drops : p.Respects SameButLeftover

section Checked

variable {Q : BitVec 8 → Prop} {α β : Type} {address : BitVec 8}

theorem checked_pure (a : α) : Checked Q (pure a) :=
  ⟨asks_pure a, respects_pure a⟩

theorem Checked.bind {p : I2c α} {f : α → I2c β} (hp : Checked Q p) (hf : ∀ a, Checked Q (f a)) :
    Checked Q (p >>= f) :=
  ⟨asks_bind hp.asks fun a => (hf a).asks, respects_bind hp.drops fun a => (hf a).drops⟩

theorem Checked.mono {P : BitVec 8 → Prop} {p : I2c α} (hp : Checked Q p)
    (h : ∀ a, Q a → P a) : Checked P p :=
  ⟨hp.asks.mono fun r => h r.address, hp.drops⟩

theorem checked_status (hq : Q address) (txbuf : List (BitVec 8)) (rxbytes : ℕ) (g : Msg → α) :
    Checked Q (.ask ⟨address, txbuf, rxbytes⟩ fun x => pure (g x.status)) :=
  ⟨⟨hq, fun _ => trivial⟩, respects_status _ g⟩

theorem checked_ifOk (hq : Q address) (txbuf : List (BitVec 8)) (rxbytes : ℕ)
    (g : Answer → α) (c : α) :
    Checked Q (.ask ⟨address, txbuf, rxbytes⟩ fun x =>
      if x.status == .ok then pure (g x) else pure c) := by
  have hrest (x : Answer) :
      Checked Q (if x.status == .ok then pure (g x) else pure c : I2c α) := by
    split_ifs
    · exact checked_pure _
    · exact checked_pure _
  refine ⟨⟨hq, fun x => (hrest x).asks⟩, respects_checked ?_ fun x => (hrest x).drops⟩
  intro x y hs hok
  have hx : (x.status == .ok) = false := beq_eq_false_iff_ne.mpr hok
  have hy : (y.status == .ok) = false := hs ▸ hx
  simp only [hx, hy, Bool.false_eq_true, if_false]

theorem checked_i2cWrite8 (hq : Q address) (reg value : BitVec 8) :
    Checked Q (i2cWrite8 address reg value) :=
  checked_status hq _ _ (· == .ok)

end Checked

section Others

theorem checked_measureLtr329 : Checked (· = 0x29) measureLtr329 := by
  have hread (reg : BitVec 8) : Checked (· = 0x29) (ltr329Channel reg) := by
    apply checked_ifOk
    rfl
  have hprobe : Checked (· = 0x29) ltr329IsAvailable := by
    apply checked_ifOk
    rfl
  have hwrite (reg value : BitVec 8) : Checked (· = 0x29) (i2cWrite8 0x29 reg value) := by
    apply checked_i2cWrite8
    rfl
  have hinit : Checked (· = 0x29) ltr329Init := by
    apply (hwrite _ _).bind
    intro _
    apply (hwrite _ _).bind
    intro _
    exact checked_pure _
  apply hprobe.bind
  intro present
  split_ifs
  · apply hinit.bind
    intro _
    apply (hread _).bind
    intro ch0
    apply (hread _).bind
    intro ch1
    exact checked_pure _
  · exact checked_pure _

theorem checked_measureTmp100 (id source : BitVec 8) :
    Checked (fun a => ∃ i, a = tmp100Address i) (measureTmp100 id source) := by
  have hprobe : Checked (fun a => ∃ i, a = tmp100Address i) (tmp100IsAvailable id) :=
    checked_status ⟨id, rfl⟩ _ _ (· == .ok)
  apply hprobe.bind
  intro present
  split_ifs
  · apply ((checked_i2cWrite8 ⟨id, rfl⟩ _ _).bind fun _ => checked_pure _).bind
    intro _
    exact checked_ifOk ⟨source, rfl⟩ _ _ _ _
  · exact checked_pure _

theorem checked_measureMpu9250 : Checked (· = 0x68) measureMpu9250 := by
  have hread (reg : BitVec 8) : Checked (· = 0x68) (mpu9250Axis reg) := by
    apply checked_ifOk
    rfl
  have hprobe : Checked (· = 0x68) mpu9250IsAvailable := by
    apply checked_ifOk
    rfl
  apply hprobe.bind
  intro present
  split_ifs
  · apply (hread _).bind
    intro x
    apply (hread _).bind
    intro y
    apply (hread _).bind
    intro z
    exact checked_pure _
  · exact checked_pure _

theorem tmp100Address_not_bme280 (id : BitVec 8) : ¬IsBme280Address (tmp100Address id) := by
  have hall : ∀ id, ¬(tmp100Address id = 0x76 ∨ tmp100Address id = 0x77) := by decide
  exact hall id

theorem checked_measureOthers (analog : Analog) (tp : DataPoint) :
    Checked (¬IsBme280Address ·) (measureOthers analog tp) := by
  have hltr : Checked (¬IsBme280Address ·) measureLtr329 := by
    apply checked_measureLtr329.mono
    rintro _ rfl (h | h) <;> cases h
  have htmp (id source : BitVec 8) : Checked (¬IsBme280Address ·) (measureTmp100 id source) := by
    apply (checked_measureTmp100 id source).mono
    rintro _ ⟨i, rfl⟩
    exact tmp100Address_not_bme280 i
  have hmpu : Checked (¬IsBme280Address ·) measureMpu9250 := by
    apply checked_measureMpu9250.mono
    rintro _ rfl (h | h) <;> cases h
  apply hltr.bind
  intro ⟨ch0, ch1⟩
  iterate 8
    apply (htmp _ _).bind
    intro _
  apply hmpu.bind
  intro ⟨x, y, z⟩
  exact checked_pure _

end Others

theorem respects_getSensors (analog : Analog) (handle : Bme280) (tp : DataPoint) :
    (getSensors analog handle tp).Respects SameButLeftover := by
  apply respects_bind (respects_measureBme280 _ _ _ (.inl rfl))
  intro ⟨handle, i1, error⟩
  apply respects_bind (respects_measureBme280 _ _ _ (.inr rfl))
  intro ⟨_, e2, error⟩
  exact respects_bind (checked_measureOthers _ _).drops fun _ => respects_pure _

end WaferSat.Telemetry
