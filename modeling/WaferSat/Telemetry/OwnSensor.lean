import WaferSat.Foundation.Served
import WaferSat.Telemetry.Failures
import Mathlib.Tactic.FinCases

/-! Which sensor each field of the data point comes from. Every stanza of `getSensors` talks to its
own device, but for the third thermometer: it is probed at its own address and read at that of the
first. -/
namespace WaferSat.Telemetry

open Dialog

/-- The registers of a device: the bytes that a read from each of them delivers. -/
abbrev Device := BitVec 8 → RxBuf

/-- The device at each address, `none` where there is none. -/
abbrev Bus := BitVec 8 → Option Device

def Device.write (d : Device) (reg value : BitVec 8) : Device :=
  Function.update d reg (Function.update (d reg) 0 value)

/-- A transaction with a device: nothing answers at an address without one, and the buffer then
holds zeros. -/
def transact (r : Request) : Option Device → Answer × Option Device
  | none => (⟨.timeout, blank⟩, none)
  | some d =>
    match r.txbuf with
    | [] => (⟨.ok, blank⟩, some d)
    | [reg] => (⟨.ok, d reg⟩, some d)
    | reg :: value :: _ => (⟨.ok, blank⟩, some (d.write reg value))

def i2cBus : Service Request Answer (BitVec 8) (Option Device) := ⟨Request.address, transact⟩

/-- What a read from register 0 delivers. No write of `getSensors` goes there. -/
def register0 (d : Option Device) : Option RxBuf := d.map (· 0)

abbrev Talks (A : List (BitVec 8)) : Request → Prop := Quiet i2cBus register0 A

variable {A : List (BitVec 8)} {address : BitVec 8} {b c : Bus}

section Talks

theorem talks_read (ha : address ∈ A) (reg : BitVec 8) (count : ℕ) :
    Talks A ⟨address, [reg], count⟩ := by
  refine ⟨ha, fun d => ?_⟩
  cases d with
  | none => rfl
  | some d => rfl

theorem talks_write (ha : address ∈ A) {reg : BitVec 8} (hreg : reg ≠ 0) (value : BitVec 8) :
    Talks A ⟨address, [reg, value], 0⟩ := by
  refine ⟨ha, fun d => ?_⟩
  cases d with
  | none => rfl
  | some d => exact congrArg some (Function.update_of_ne hreg.symm _ _)

theorem asks_i2cRead8 (ha : address ∈ A) (reg : BitVec 8) :
    (i2cRead8 address reg).Asks (Talks A) :=
  ⟨talks_read ha reg 1, fun _ => trivial⟩

theorem asks_i2cRead16 (ha : address ∈ A) (reg : BitVec 8) :
    (i2cRead16 address reg).Asks (Talks A) :=
  ⟨talks_read ha reg 2, fun _ => trivial⟩

theorem asks_i2cRead16LE (ha : address ∈ A) (reg : BitVec 8) :
    (i2cRead16LE address reg).Asks (Talks A) :=
  ⟨talks_read ha reg 2, fun _ => trivial⟩

theorem asks_i2cWrite8 (ha : address ∈ A) {reg : BitVec 8} (hreg : reg ≠ 0) (value : BitVec 8) :
    (i2cWrite8 address reg value).Asks (Talks A) :=
  ⟨talks_write ha hreg value, fun _ => trivial⟩

theorem asks_readAdc (ha : address ∈ A) (reg : BitVec 8) :
    (readAdc address reg).Asks (Talks A) := by
  apply asks_bind (asks_i2cRead16 ha reg)
  intro _
  apply asks_bind (asks_i2cRead8 ha _)
  intro _
  exact asks_pure _

theorem asks_readCalib (ha : address ∈ A) : (readCalib address).Asks (Talks A) := by
  unfold readCalib
  repeat
    apply asks_bind (by
      first
      | with_reducible exact asks_i2cRead16LE ha _
      | with_reducible exact asks_i2cRead8 ha _)
    intro _
  exact asks_pure _

theorem asks_bme280GetTemperature {handle : Bme280} (ha : handle.i2cAddress ∈ A) :
    (bme280GetTemperature handle).Asks (Talks A) :=
  asks_bind (asks_readAdc ha _) fun _ => asks_pure _

theorem asks_pressureLoop {handle : Bme280} (ha : handle.i2cAddress ∈ A) (means : BitVec 16)
    (left : ℕ) (sum : BitVec 64) : (pressureLoop handle means left sum).Asks (Talks A) := by
  induction left generalizing sum with
  | zero => exact asks_pure _
  | succ left ih =>
    apply asks_bind (asks_readAdc ha _)
    intro adcP
    dsimp only
    split_ifs
    · exact asks_pure _
    · exact ih _

theorem asks_bme280Init {handle : Bme280} {id : BitVec 8} (ha : initAddress handle id ∈ A) :
    (bme280Init handle id).Asks (Talks A) := by
  apply asks_bind (asks_readCalib ha)
  intro calib
  apply asks_bind (asks_i2cWrite8 ha (by decide) _)
  intro _
  apply asks_bind (asks_i2cWrite8 ha (by decide) _)
  intro _
  apply asks_bind (asks_bme280GetTemperature ha)
  intro _
  exact asks_pure _

/-- A BME280 stanza probes and reads the sensor at the address of its id, whatever handle it is
given. -/
theorem asks_measureBme280 (handle : Bme280) {id : BitVec 8}
    (hid : id = bme280I1 ∨ id = bme280E2) (mask error : BitVec 8) :
    (measureBme280 handle id mask error).Asks (Talks [initAddress default id]) := by
  have haddress : initAddress handle id ∈ [initAddress default id] := by
    rcases hid with rfl | rfl <;> exact List.mem_singleton.mpr rfl
  have hprobe : (bme280IsAvailable id).Asks (Talks [initAddress default id]) := by
    rcases hid with rfl | rfl <;>
      exact asks_bind (asks_i2cRead8 (List.mem_singleton.mpr rfl) 0xD0) fun _ => asks_pure _
  apply asks_bind hprobe
  intro present
  split_ifs
  · apply asks_bind_of_ensures (asks_bme280Init haddress) (bme280Init_ensures handle id)
    intro handle hset
    rw [← hset] at haddress
    apply asks_bind (asks_pressureLoop haddress _ _ _)
    intro press
    apply asks_bind (asks_bind (asks_i2cRead16 haddress _) fun _ => asks_pure _)
    intro hum
    apply asks_bind (asks_bme280GetTemperature haddress)
    intro _
    exact asks_pure _
  · exact asks_pure _

theorem asks_ifOk {α : Type} (ha : address ∈ A) (reg : BitVec 8) (count : ℕ) (g : Answer → α)
    (v : α) :
    Asks (Talks A) (.ask ⟨address, [reg], count⟩ fun x =>
      if x.status == .ok then pure (g x) else pure v : I2c α) := by
  refine ⟨talks_read ha reg count, fun x => ?_⟩
  dsimp only
  split_ifs
  · exact asks_pure _
  · exact asks_pure _

theorem asks_measureLtr329 : measureLtr329.Asks (Talks [0x29]) := by
  have ha : (0x29 : BitVec 8) ∈ [(0x29 : BitVec 8)] := List.mem_singleton.mpr rfl
  have hinit : ltr329Init.Asks (Talks [0x29]) := by
    apply asks_bind (asks_i2cWrite8 ha (by decide) _)
    intro _
    apply asks_bind (asks_i2cWrite8 ha (by decide) _)
    intro _
    exact asks_pure _
  apply asks_bind (asks_ifOk ha _ _ _ _)
  intro present
  split_ifs
  · apply asks_bind hinit
    intro _
    apply asks_bind (asks_ifOk ha _ _ _ _)
    intro ch0
    apply asks_bind (asks_ifOk ha _ _ _ _)
    intro ch1
    exact asks_pure _
  · exact asks_pure _

theorem asks_measureMpu9250 : measureMpu9250.Asks (Talks [0x68]) := by
  have ha : (0x68 : BitVec 8) ∈ [(0x68 : BitVec 8)] := List.mem_singleton.mpr rfl
  apply asks_bind (asks_ifOk ha _ _ _ _)
  intro present
  split_ifs
  · apply asks_bind (asks_ifOk ha _ _ _ _)
    intro x
    apply asks_bind (asks_ifOk ha _ _ _ _)
    intro y
    apply asks_bind (asks_ifOk ha _ _ _ _)
    intro z
    exact asks_pure _
  · exact asks_pure _

theorem asks_tmp100Init {id : BitVec 8} (ha : tmp100Address id ∈ A) :
    (tmp100Init id).Asks (Talks A) :=
  asks_bind (asks_i2cWrite8 ha (by decide) _) fun _ => asks_pure _

theorem asks_measureTmp100 (id source : BitVec 8) :
    (measureTmp100 id source).Asks (Talks [tmp100Address id, tmp100Address source]) := by
  apply asks_bind (asks_bind (asks_i2cRead8 (by simp) _) fun _ => asks_pure _)
  intro present
  split_ifs
  · apply asks_bind (asks_tmp100Init (by simp))
    intro _
    exact asks_ifOk (by simp) _ _ _ _
  · exact asks_pure _

end Talks

def tmp100Count (register : Option RxBuf) : BitVec 16 :=
  register.elim 0 fun rxbuf => wordBE rxbuf >>> 4

/-- Hundredths of a degree. -/
def tmp100Value (count : BitVec 16) : BitVec 16 := ((count.setWidth 32 * 25).sdiv 4).setWidth 16

/-- The value of a thermometer stanza from what its two devices hold in register 0. -/
def tmp100Reading (probed read : Option RxBuf) : BitVec 16 :=
  if probed.isSome then tmp100Value (tmp100Count read) else 0

theorem tmp100Count_lt (register : Option RxBuf) : (tmp100Count register).toNat < 4096 := by
  cases register with
  | none => decide
  | some rxbuf =>
    rw [tmp100Count, Option.elim_some, BitVec.toNat_ushiftRight, Nat.shiftRight_eq_div_pow]
    have hword := (wordBE rxbuf).isLt
    omega

theorem toNat_tmp100Value {count : BitVec 16} (h : count.toNat < 4096) :
    (tmp100Value count).toNat = count.toNat * 25 / 4 := by
  have hprod : (count.setWidth 32 * 25).toNat = count.toNat * 25 := by
    rw [BitVec.toNat_mul, BitVec.toNat_setWidth]
    simp
    omega
  have hmsb : (count.setWidth 32 * 25).msb = false := by
    rw [BitVec.msb_eq_false_iff_two_mul_lt, hprod]
    omega
  have hfour : (4 : BitVec 32).msb = false := by decide
  have hquot : (count.setWidth 32 * 25).sdiv 4 = count.setWidth 32 * 25 / 4 := by
    rw [BitVec.sdiv_eq, hmsb, hfour]
    rfl
  have hnat : (count.setWidth 32 * 25 / 4).toNat = count.toNat * 25 / 4 := by
    rw [BitVec.toNat_udiv, hprod]
    rfl
  rw [tmp100Value, hquot, BitVec.toNat_setWidth, hnat]
  omega

theorem tmp100Value_inj {x y : Option RxBuf} :
    tmp100Value (tmp100Count x) = tmp100Value (tmp100Count y) ↔ tmp100Count x = tmp100Count y := by
  refine ⟨fun h => ?_, congrArg _⟩
  have hnat := congrArg BitVec.toNat h
  rw [toNat_tmp100Value (tmp100Count_lt x), toNat_tmp100Value (tmp100Count_lt y)] at hnat
  apply BitVec.eq_of_toNat_eq
  omega

theorem served_tmp100IsAvailable (id : BitVec 8) (c : Bus) :
    (tmp100IsAvailable id).served i2cBus c = ((register0 (c (tmp100Address id))).isSome, c) := by
  have hrun : (tmp100IsAvailable id).served i2cBus c =
      ((transact ⟨tmp100Address id, [0x01], 1⟩ (c (tmp100Address id))).1.status == .ok,
        Function.update c (tmp100Address id)
          (transact ⟨tmp100Address id, [0x01], 1⟩ (c (tmp100Address id))).2) := rfl
  rw [hrun]
  cases h : c (tmp100Address id) with
  | none => exact Prod.ext rfl (Function.update_eq_self_iff.mpr h.symm)
  | some d => exact Prod.ext rfl (Function.update_eq_self_iff.mpr h.symm)

theorem served_tmp100GetTemperature (id : BitVec 8) (c : Bus) :
    ((tmp100GetTemperature id).served i2cBus c).1 =
      tmp100Value (tmp100Count (register0 (c (tmp100Address id)))) := by
  unfold tmp100GetTemperature
  rw [served_bind]
  have hread : ((i2cRead16 (tmp100Address id) 0x00).served i2cBus c).1 =
      ((transact ⟨tmp100Address id, [0x00], 2⟩ (c (tmp100Address id))).1.status == .ok,
        wordBE (transact ⟨tmp100Address id, [0x00], 2⟩ (c (tmp100Address id))).1.rxbuf) := rfl
  rw [hread]
  cases c (tmp100Address id) with
  | none => rfl
  | some d => rfl

theorem served_measureTmp100 (id source : BitVec 8) (c : Bus) :
    ((measureTmp100 id source).served i2cBus c).1 =
      tmp100Reading (register0 (c (tmp100Address id))) (register0 (c (tmp100Address source))) := by
  unfold measureTmp100 tmp100Reading
  rw [served_bind, served_tmp100IsAvailable]
  split_ifs
  · have hinit := (Since.refl register0 c).served
      (asks_tmp100Init (List.mem_singleton_self (tmp100Address id)))
    rw [served_bind, served_tmp100GetTemperature, hinit.view_eq]
  · rfl

theorem climate_measureBme280 (handle : Bme280) {id : BitVec 8}
    (hid : id = bme280I1 ∨ id = bme280E2) (mask error : BitVec 8) (c : Bus) :
    ((measureBme280 handle id mask error).served i2cBus c).1.2.1 =
      ((measureBme280 default id 0 0).served i2cBus c).1.2.1 := by
  unfold measureBme280
  rw [served_bind, served_bind]
  split_ifs
  · rw [bme280Init_handle handle default hid]
    simp only [served_bind, served_pure]
  · rfl

/-- The stanza of one BME280 alone on the bus. -/
def climate (id : BitVec 8) (b : Bus) : Climate :=
  ((measureBme280 default id 0 0).served i2cBus b).1.2.1

def lightChannels (b : Bus) : BitVec 16 × BitVec 16 := (measureLtr329.served i2cBus b).1

def accelerations (b : Bus) : BitVec 16 × BitVec 16 × BitVec 16 :=
  (measureMpu9250.served i2cBus b).1

/-- The field of thermometer `id`, read at the address of `source`. -/
def thermometer (b : Bus) (id source : BitVec 8) : BitVec 16 :=
  tmp100Reading (register0 (b (tmp100Address id))) (register0 (b (tmp100Address source)))

theorem Since.tmp100 {used : List (BitVec 8)} (h : Since register0 b used c)
    (id source : BitVec 8) :
    ((measureTmp100 id source).served i2cBus c).1 = thermometer b id source := by
  rw [served_measureTmp100, h.view_eq, h.view_eq, thermometer]

theorem served_measureOthers (analog : Analog) (tp : DataPoint)
    (h : Since register0 b [0x76, 0x77] c) :
    ((measureOthers analog tp).served i2cBus c).1 =
      { tp with
        lightIntensity := (analog.lightIntensity &&& 0xFFFF).setWidth 16
        ltr329IntensityCh0 := (lightChannels b).1
        ltr329IntensityCh1 := (lightChannels b).2
        stm32Temp := stm32GetTemp analog.tempSample
        adcVbat := stm32GetVbat analog.vbatSample
        gpio := 0
        tmp100Temp0 := thermometer b 0 0
        tmp100Temp1 := thermometer b 1 1
        tmp100Temp2 := thermometer b 2 0
        tmp100Temp3 := thermometer b 3 3
        tmp100Temp4 := thermometer b 4 4
        tmp100Temp5 := thermometer b 5 5
        tmp100Temp6 := thermometer b 6 6
        tmp100Temp7 := thermometer b 7 7
        mpu9250XAccel := (accelerations b).1
        mpu9250YAccel := (accelerations b).2.1
        mpu9250ZAccel := (accelerations b).2.2 } := by
  unfold measureOthers
  apply h.bind (T := (· = _)) asks_measureLtr329 (h.value asks_measureLtr329 (by decide))
  intro c h
  iterate 8
    apply h.bind (T := (· = _)) (asks_measureTmp100 _ _) (Since.tmp100 h _ _)
    clear h
    intro c h
  apply h.bind (T := (· = _)) asks_measureMpu9250 (h.value asks_measureMpu9250 (by decide))
  intro c h
  rfl

/-- What one call of `getSensors` starts from; the handle is a local variable without a value. -/
structure Scene where
  analog : Analog
  handle : Bme280
  tp : DataPoint
  bus : Bus

def Scene.stored (s : Scene) : DataPoint :=
  ((getSensors s.analog s.handle s.tp).served i2cBus s.bus).1.1

namespace DataPoint

def ltr329 (tp : DataPoint) : BitVec 16 × BitVec 16 :=
  (tp.ltr329IntensityCh0, tp.ltr329IntensityCh1)

def mpu9250 (tp : DataPoint) : BitVec 16 × BitVec 16 × BitVec 16 :=
  (tp.mpu9250XAccel, tp.mpu9250YAccel, tp.mpu9250ZAccel)

def tmp100Temp (tp : DataPoint) : Fin 8 → BitVec 16
  | 0 => tp.tmp100Temp0
  | 1 => tp.tmp100Temp1
  | 2 => tp.tmp100Temp2
  | 3 => tp.tmp100Temp3
  | 4 => tp.tmp100Temp4
  | 5 => tp.tmp100Temp5
  | 6 => tp.tmp100Temp6
  | 7 => tp.tmp100Temp7

end DataPoint

def tmp100Id (i : Fin 8) : BitVec 8 := BitVec.ofNat 8 i

def tmp100Source (i : Fin 8) : BitVec 8 := if i = 2 then 0 else tmp100Id i

/-- The stored fields, each from the stanzas run alone on the bus as it was before the call. -/
structure Scene.Fields (s : Scene) (tp : DataPoint) : Prop where
  i1 : tp.i1 = climate bme280I1 s.bus
  e2 : tp.e2 = climate bme280E2 s.bus
  ltr329 : tp.ltr329 = lightChannels s.bus
  mpu9250 : tp.mpu9250 = accelerations s.bus
  tmp100Temp : ∀ i, tp.tmp100Temp i = thermometer s.bus (tmp100Id i) (tmp100Source i)

theorem Scene.fields_stored (s : Scene) : s.Fields s.stored := by
  have h := Since.refl register0 s.bus
  unfold Scene.stored getSensors
  apply h.bind (T := fun r : DataPoint × BitVec 8 => s.Fields r.1)
    (asks_measureBme280 _ (.inl rfl) _ _) rfl
  intro c₁ h₁
  apply h₁.bind (T := fun r : DataPoint × BitVec 8 => s.Fields r.1)
    (asks_measureBme280 _ (.inr rfl) _ _) rfl
  intro c₂ h₂
  dsimp only
  rw [served_bind, served_measureOthers _ _ h₂, served_pure]
  refine ⟨?_, ?_, rfl, rfl, ?_⟩
  · exact climate_measureBme280 _ (.inl rfl) _ _ _
  · refine (climate_measureBme280 _ (.inr rfl) _ _ c₁).trans ?_
    exact congrArg (·.2.1) (h₁.value (asks_measureBme280 default (.inr rfl) 0 0) (by decide))
  · intro i
    fin_cases i <;> rfl

/-- Two calls store the same in the fields of every device that is the same for both. -/
structure SameFields (s t : Scene) : Prop where
  i1 : s.bus 0x77 = t.bus 0x77 → s.stored.i1 = t.stored.i1
  e2 : s.bus 0x76 = t.bus 0x76 → s.stored.e2 = t.stored.e2
  ltr329 : s.bus 0x29 = t.bus 0x29 → s.stored.ltr329 = t.stored.ltr329
  mpu9250 : s.bus 0x68 = t.bus 0x68 → s.stored.mpu9250 = t.stored.mpu9250
  tmp100Temp : ∀ i : Fin 8, s.bus (0x48 ||| tmp100Id i) = t.bus (0x48 ||| tmp100Id i) →
    s.stored.tmp100Temp i = t.stored.tmp100Temp i

structure AbsentZero (s : Scene) : Prop where
  i1 : s.bus 0x77 = none → s.stored.i1 = ⟨0, 0, 0⟩
  e2 : s.bus 0x76 = none → s.stored.e2 = ⟨0, 0, 0⟩
  ltr329 : s.bus 0x29 = none → s.stored.ltr329 = (0, 0)
  mpu9250 : s.bus 0x68 = none → s.stored.mpu9250 = (0, 0, 0)
  tmp100Temp : ∀ i : Fin 8, s.bus (0x48 ||| tmp100Id i) = none → s.stored.tmp100Temp i = 0

theorem tmp100Address_id (i : Fin 8) : tmp100Address (tmp100Id i) = 0x48 ||| tmp100Id i := by
  revert i
  decide

theorem served_congr_single {α : Type} {p : I2c α} (hp : p.Asks (Talks [address]))
    (h : b address = c address) : (p.served i2cBus b).1 = (p.served i2cBus c).1 := by
  refine served_value_congr (hp.mono fun _ hr => hr.1) fun i hi => ?_
  rw [List.mem_singleton.mp hi, h]

theorem climate_congr {id : BitVec 8} (hid : id = bme280I1 ∨ id = bme280E2)
    (h : b (initAddress default id) = c (initAddress default id)) : climate id b = climate id c :=
  congrArg (·.2.1) (served_congr_single (asks_measureBme280 default hid 0 0) h)

def emptyBus : Bus := fun _ => none

theorem absentZero (s : Scene) : AbsentZero s := by
  have hempty (a : BitVec 8) (h : s.bus a = none) : s.bus a = emptyBus a := h
  refine ⟨fun h => ?_, fun h => ?_, fun h => ?_, fun h => ?_, fun i h => ?_⟩
  · rw [s.fields_stored.i1, climate_congr (.inl rfl) (hempty _ h)]
    decide
  · rw [s.fields_stored.e2, climate_congr (.inr rfl) (hempty _ h)]
    decide
  · rw [s.fields_stored.ltr329, lightChannels,
      served_congr_single asks_measureLtr329 (hempty _ h)]
    decide
  · rw [s.fields_stored.mpu9250, accelerations,
      served_congr_single asks_measureMpu9250 (hempty _ h)]
    decide
  · rw [s.fields_stored.tmp100Temp, thermometer, tmp100Address_id, h]
    rfl

theorem thermometer_congr {i : Fin 8} (hi : i ≠ 2)
    (h : b (0x48 ||| tmp100Id i) = c (0x48 ||| tmp100Id i)) :
    thermometer b (tmp100Id i) (tmp100Source i) = thermometer c (tmp100Id i) (tmp100Source i) := by
  rw [tmp100Source, if_neg hi, thermometer, thermometer, tmp100Address_id, h]

/-- The third thermometer's field is the same for both calls exactly when the first one reads the
same, or the third is absent. -/
theorem thermometer_two_iff (h : b 0x4A = c 0x4A) :
    thermometer b 2 0 = thermometer c 2 0 ↔
      (b 0x4A ≠ none → tmp100Count (register0 (b 0x48)) = tmp100Count (register0 (c 0x48))) := by
  have h2 : tmp100Address 2 = 0x4A := by decide
  have h0 : tmp100Address 0 = 0x48 := by decide
  rw [thermometer, thermometer, h2, h0, ← h]
  cases b 0x4A with
  | none => simp [tmp100Reading, register0]
  | some d => simpa [tmp100Reading, register0] using tmp100Value_inj

/-- Each field comes from its own sensor exactly when the device at 0x4A, where both calls see the
same one, goes with a device at 0x48 that holds the same temperature for both. -/
theorem fields_from_own_sensor_iff (s t : Scene) :
    SameFields s t ∧ AbsentZero s ∧ AbsentZero t ↔
      (s.bus 0x4A = t.bus 0x4A → s.bus 0x4A ≠ none →
        tmp100Count (register0 (s.bus 0x48)) = tmp100Count (register0 (t.bus 0x48))) := by
  have htwo : s.stored.tmp100Temp 2 = t.stored.tmp100Temp 2 ↔
      thermometer s.bus 2 0 = thermometer t.bus 2 0 := by
    rw [s.fields_stored.tmp100Temp, t.fields_stored.tmp100Temp]
    rfl
  constructor
  · intro h hsame
    exact (thermometer_two_iff hsame).mp (htwo.mp (h.1.tmp100Temp 2 hsame))
  · intro hcond
    refine ⟨⟨fun h => ?_, fun h => ?_, fun h => ?_, fun h => ?_, fun i h => ?_⟩, absentZero s,
      absentZero t⟩
    · rw [s.fields_stored.i1, t.fields_stored.i1, climate_congr (.inl rfl) h]
    · rw [s.fields_stored.e2, t.fields_stored.e2, climate_congr (.inr rfl) h]
    · rw [s.fields_stored.ltr329, t.fields_stored.ltr329]
      exact served_congr_single asks_measureLtr329 h
    · rw [s.fields_stored.mpu9250, t.fields_stored.mpu9250]
      exact served_congr_single asks_measureMpu9250 h
    · by_cases hi : i = 2
      · subst hi
        exact htwo.mpr ((thermometer_two_iff h).mpr (hcond h))
      · rw [s.fields_stored.tmp100Temp, t.fields_stored.tmp100Temp, thermometer_congr hi h]

/-- A bus with thermometers at 0x48, which shows `word`, and at 0x4A. -/
def twoThermometers (word : RxBuf) : Scene where
  analog := default
  handle := default
  tp := default
  bus address :=
    if address = 0x48 then some fun _ => word
    else if address = 0x4A then some fun _ => pair 0x19 0x00 else none

/-- The third thermometer shows 25 degrees both times; its field follows the first one. -/
theorem third_thermometer_follows_first :
    (twoThermometers (pair 0x10 0x00)).bus 0x4A = (twoThermometers (pair 0x20 0x00)).bus 0x4A ∧
    (twoThermometers (pair 0x10 0x00)).stored.tmp100Temp2 = 1600 ∧
    (twoThermometers (pair 0x20 0x00)).stored.tmp100Temp2 = 3200 ∧
    ¬SameFields (twoThermometers (pair 0x10 0x00)) (twoThermometers (pair 0x20 0x00)) := by
  have hfirst : (twoThermometers (pair 0x10 0x00)).stored.tmp100Temp2 = 1600 := by decide
  have hsecond : (twoThermometers (pair 0x20 0x00)).stored.tmp100Temp2 = 3200 := by decide
  refine ⟨rfl, hfirst, hsecond, fun h => ?_⟩
  have hsame : (twoThermometers (pair 0x10 0x00)).stored.tmp100Temp2 =
      (twoThermometers (pair 0x20 0x00)).stored.tmp100Temp2 := h.tmp100Temp 2 rfl
  rw [hfirst, hsecond] at hsame
  exact absurd hsame (by decide)

end WaferSat.Telemetry
