import WaferSat.Telemetry.Checked
import WaferSat.Telemetry.Sensitivity

/-! Failed transactions in `getSensors`. What a failed read of a BME280 leaves in
the local receive buffer is taken for data; nothing else that a failure leaves
behind reaches the data point. -/
namespace WaferSat.Telemetry

open Dialog

section Handle

variable {α : Type} {id mask error : BitVec 8}

theorem bme280Init_handle (h h' : Bme280) (hid : id = bme280I1 ∨ id = bme280E2) :
    bme280Init h id = bme280Init h' id := by
  rcases hid with rfl | rfl <;> rfl

/-- What the handle held before a stanza shows only in the handle it returns. -/
theorem measureBme280_handle (h h' : Bme280) (hid : id = bme280I1 ∨ id = bme280E2)
    {f : Bme280 × Climate × BitVec 8 → I2c α} (hf : ∀ h h' c e, f (h, c, e) = f (h', c, e)) :
    measureBme280 h id mask error >>= f = measureBme280 h' id mask error >>= f := by
  rw [measureBme280, measureBme280, bind_assoc, bind_assoc]
  apply congrArg
  funext present
  cases present with
  | true => simp only [if_true, bme280Init_handle h h' hid]
  | false => exact hf h h' _ _

theorem getSensors_handle (analog : Analog) (h h' : Bme280) (tp : DataPoint) :
    getSensors analog h tp = getSensors analog h' tp := by
  apply measureBme280_handle h h' (.inl rfl)
  intro g g' i1 error
  apply measureBme280_handle g g' (.inr rfl)
  intros
  rfl

end Handle

/-- What one call of `getSensors` meets: the bytes its successful transactions
deliver, and what the local receive buffers and the local handle held before. -/
structure Call where
  analog : Analog
  tp : DataPoint
  bytes : ℕ → RxBuf
  left : ℕ → RxBuf
  handle : Bme280

namespace Call

def bus (c : Call) (outcome : ℕ → Msg) : ℕ → Request → Answer :=
  answers outcome (received outcome c.bytes c.left)

/-- The data point and the error bits the call leaves. -/
def stored (c : Call) (outcome : ℕ → Msg) : DataPoint × BitVec 8 :=
  (getSensors c.analog c.handle c.tp).value (c.bus outcome) 0

def transactions (c : Call) (outcome : ℕ → Msg) : List (Request × Answer) :=
  (getSensors c.analog c.handle c.tp).log (c.bus outcome) 0

end Call

def chipIdRead (address : BitVec 8) : Request := ⟨address, [0xD0], 1⟩

/-- Under these outcomes nothing a failed transaction leaves behind is stored, and a
BME280 whose chip-id read fails is reported. -/
structure FailuresStay (outcome : ℕ → Msg) : Prop where
  same : ∀ (c : Call) (left : ℕ → RxBuf) (handle : Bme280),
    { c with left := left, handle := handle }.stored outcome = c.stored outcome
  reported : ∀ (c : Call), ∀ e ∈ c.transactions outcome, e.2.status ≠ .ok →
    (e.1 = chipIdRead 0x77 → (c.stored outcome).2 &&& 0x1 ≠ 0) ∧
      (e.1 = chipIdRead 0x76 → (c.stored outcome).2 &&& 0x10 ≠ 0)

theorem stored_eq_of_reads_ok {outcome : ℕ → Msg} {c : Call}
    (h : ∀ e ∈ c.transactions outcome, IsBme280Read e.1 → e.2.status = .ok)
    (left : ℕ → RxBuf) (handle : Bme280) :
    { c with left := left, handle := handle }.stored outcome = c.stored outcome := by
  rw [Call.stored, getSensors_handle _ _ c.handle]
  refine Respects.value_eq (G := fun r (x : Answer) => IsBme280Read r → x.status = .ok)
    (respects_getSensors _ _ _) (fun i r hr => ?_) h
  by_cases hok : outcome i = .ok
  · left
    simp only [Call.bus, answers, received, hok, if_true]
  · exact Or.inr ⟨rfl, hok, fun hread => hok (hr hread)⟩

section Fields

variable {outcome : ℕ → Msg} {d : ℕ → RxBuf} (analog : Analog) (handle : Bme280) (tp : DataPoint)

def DataPoint.i1 (tp : DataPoint) : Climate := ⟨tp.senI1Press, tp.senI1Hum, tp.senI1Temp⟩
def DataPoint.e2 (tp : DataPoint) : Climate := ⟨tp.senE2Press, tp.senE2Hum, tp.senE2Temp⟩

theorem measureOthers_keeps :
    (measureOthers analog tp).Ensures fun tp' => tp'.i1 = tp.i1 ∧ tp'.e2 = tp.e2 := by
  apply ensures_bind (ensures_true _)
  intro ⟨ch0, ch1⟩ _
  iterate 8
    apply ensures_bind (ensures_true _)
    intro _ _
  apply ensures_bind (ensures_true _)
  intro ⟨x, y, z⟩ _
  exact ⟨rfl, rfl⟩

/-- Each stanza's readings reach its fields: the first stanza starts at transaction
0 and the second where the first ends. -/
theorem getSensors_fields (env : ℕ → Request → Answer) :
    let first := measureBme280 handle bme280I1 0x1 0
    let second := measureBme280 (first.value env 0).1 bme280E2 0x10 (first.value env 0).2.2
    let stored := (getSensors analog handle tp).value env 0
    stored.1.i1 = (first.value env 0).2.1 ∧
      stored.1.e2 = (second.value env (first.log env 0).length).2.1 := by
  intro first second stored
  have hs : stored = ((measureOthers analog (tp.setClimates (first.value env 0).2.1
      (second.value env (first.log env 0).length).2.1)).value env
        ((first.log env 0).length + (second.log env (first.log env 0).length).length),
      (second.value env (first.log env 0).length).2.2) := by
    simp only [stored, getSensors, value_bind, value_pure, Nat.zero_add]
    rfl
  rw [hs]
  exact (measureOthers_keeps analog _).value env _

theorem mem_stanza {env : ℕ → Request → Answer} {e : Request × Answer}
    (he : e ∈ (getSensors analog handle tp).log env 0) (hr : IsBme280Read e.1) :
    let first := measureBme280 handle bme280I1 0x1 0
    let second := measureBme280 (first.value env 0).1 bme280E2 0x10 (first.value env 0).2.2
    e ∈ first.log env 0 ∨ e ∈ second.log env (first.log env 0).length := by
  intro first second
  rw [getSensors, log_bind, Nat.zero_add] at he
  rcases List.mem_append.mp he with he | he
  · exact Or.inl he
  · rw [log_bind] at he
    rcases List.mem_append.mp he with he | he
    · exact Or.inr he
    · rw [log_bind] at he
      rcases List.mem_append.mp he with he | he
      · exact absurd hr.1 ((checked_measureOthers _ _).asks.of_mem_log he)
      · cases he

theorem i1_stored :
    ((getSensors analog handle tp).value (answers outcome d) 0).1.i1 = stanzaOf d := by
  rw [(getSensors_fields analog handle tp _).1, (measureBme280_run (.inl rfl)).1]
  simp only [Nat.zero_add]

variable (outcome d) in
theorem firstStanza_length :
    ((measureBme280 handle bme280I1 0x1 0).log (answers outcome d) 0).length = stanzaLength d := by
  rw [(measureBme280_run (.inl rfl)).2]
  simp only [Nat.zero_add]

/-- The second stanza reads on from where the first stopped, so its readings follow
from the buffers there whenever the first stanza meets the same buffers as before. -/
theorem e2_stored {d' : ℕ → RxBuf} (hd : ∀ i < stanzaLength d, d' i = d i) :
    ((getSensors analog handle tp).value (answers outcome d') 0).1.e2 =
      stanzaOf fun i => d' (stanzaLength d + i) := by
  have hm := firstStanza_length outcome d handle
  have hl : (measureBme280 handle bme280I1 0x1 0).log (answers outcome d') 0 =
      (measureBme280 handle bme280I1 0x1 0).log (answers outcome d) 0 := by
    refine (run_congr fun i r _ hi => ?_).2
    rw [answers, answers, hd i (by omega)]
  rw [(getSensors_fields analog handle tp _).2, hl, hm, (measureBme280_run (.inr rfl)).1]

end Fields

section Places

variable {outcome : ℕ → Msg}

theorem stanzaLength_cases (s : ℕ → RxBuf) :
    stanzaLength s = 1 ∨ stanzaLength s = 30 ∨ stanzaLength s = 92 := by
  rw [stanzaLength]
  split_ifs
  · exact Or.inr (Or.inl rfl)
  · exact Or.inr (Or.inr rfl)
  · exact Or.inl rfl

theorem exists_place {handle : Bme280} {id mask error : BitVec 8} {d : ℕ → RxBuf} {n : ℕ}
    (hid : id = bme280I1 ∨ id = bme280E2) {e : Request × Answer}
    (he : e ∈ (measureBme280 handle id mask error).log (answers outcome d) n)
    (hr : IsBme280Read e.1) :
    ∃ j < 92, j ≠ 21 ∧ j ≠ 22 ∧ e.2.status = outcome (n + j) := by
  obtain ⟨j, hj, hx⟩ := exists_of_mem_log he
  have hlen : ((measureBme280 handle id mask error).log (answers outcome d) n).length =
    stanzaLength fun i => d (n + i) := (measureBme280_run hid).2
  have hlt := (List.getElem?_eq_some_iff.mp hj).1
  have hcases := stanzaLength_cases fun i => d (n + i)
  refine ⟨j, by omega, ?_, ?_, ?_⟩
  · intro h21
    exact hr.2 (measureBme280_writes hid (.inl h21) hj)
  · intro h22
    exact hr.2 (measureBme280_writes hid (.inr h22) hj)
  · rw [hx]
    rfl

/-- Transactions 0 to 183 but number 22 are all a BME280 read can be: the first
stanza has 1, 30 or 92 of them, and its places 21 and 22 are writes. -/
theorem reads_ok (h : ∀ i < 184, i ≠ 22 → outcome i = .ok) (c : Call) :
    ∀ e ∈ c.transactions outcome, IsBme280Read e.1 → e.2.status = .ok := by
  intro e he hr
  rcases mem_stanza _ _ _ he hr with he | he
  · obtain ⟨j, hj, -, h22, hs⟩ := exists_place (.inl rfl) he hr
    rw [hs, h _ (by omega) (by omega)]
  · obtain ⟨j, hj, h21, h22, hs⟩ := exists_place (.inr rfl) he hr
    have hm := firstStanza_length outcome (received outcome c.bytes c.left) c.handle
    have hcases := stanzaLength_cases (received outcome c.bytes c.left)
    rw [hs, Call.bus, hm, h _ (by omega) (by omega)]

end Places

section Necessity

variable {outcome : ℕ → Msg}

theorem FailuresStay.blank_eq (h : FailuresStay outcome) {j : ℕ} (hj : outcome j ≠ .ok)
    (d : ℕ → RxBuf) (analog : Analog) (handle : Bme280) (tp : DataPoint) :
    (getSensors analog handle tp).value (answers outcome (Function.update d j blank)) 0 =
      (getSensors analog handle tp).value (answers outcome d) 0 := by
  have hsame := h.same ⟨analog, tp, d, d, handle⟩ (Function.update d j blank) handle
  simpa only [Call.stored, Call.bus, received_self, received_update hj] using hsame

def thenProbe (d : ℕ → RxBuf) (m : ℕ) : ℕ → RxBuf :=
  fun i => if i < m then d i else probe (i - m)

theorem thenProbe_of_lt {d : ℕ → RxBuf} {m i : ℕ} (hi : i < m) : thenProbe d m i = d i :=
  if_pos hi

theorem thenProbe_add (d : ℕ → RxBuf) (m : ℕ) : (fun i => thenProbe d m (m + i)) = probe := by
  funext i
  simp [thenProbe]

theorem update_thenProbe_add (d : ℕ → RxBuf) (m j : ℕ) (b : RxBuf) :
    (fun i => Function.update (thenProbe d m) (m + j) b (m + i)) = Function.update probe j b := by
  rw [← thenProbe_add d m]
  exact Function.update_comp_eq_of_injective _ (add_right_injective m) j b

variable {j : ℕ} (hj : j < 92) (h21 : j ≠ 21) (h22 : j ≠ 22)

include hj h21 h22

theorem FailuresStay.first_ok (h : FailuresStay outcome) : outcome j = .ok := by
  by_contra hfail
  have hsame := congrArg (·.1.i1) (h.blank_eq hfail probe default default default)
  simp only [i1_stored] at hsame
  exact stanzaOf_blanked_ne hj h21 h22 hsame

theorem FailuresStay.second_ok (h : FailuresStay outcome) (d : ℕ → RxBuf) :
    outcome (stanzaLength d + j) = .ok := by
  by_contra hfail
  have hsame := congrArg (·.1.e2)
    (h.blank_eq hfail (thenProbe d (stanzaLength d)) default default default)
  have hbelow : ∀ i < stanzaLength d,
      Function.update (thenProbe d (stanzaLength d)) (stanzaLength d + j) blank i = d i := by
    intro i hi
    rw [Function.update_of_ne (by omega), thenProbe_of_lt hi]
  rw [e2_stored _ _ _ hbelow, e2_stored _ _ _ fun i hi => thenProbe_of_lt hi, thenProbe_add,
    update_thenProbe_add] at hsame
  exact stanzaOf_blanked_ne hj h21 h22 hsame

omit hj h21 h22

/-- A chip whose calibration is all zero, so that the pressure loop stops at once. -/
def noPressure (i : ℕ) : RxBuf := if i = 0 then pair 0x60 0 else blank

theorem FailuresStay.early_ok (h : FailuresStay outcome) {i : ℕ} (hi : i < 184) (h22 : i ≠ 22) :
    outcome i = .ok := by
  have habsent : stanzaLength (fun _ => blank) = 1 := rfl
  have hshort : stanzaLength noPressure = 30 := by decide +kernel
  have hlong : stanzaLength probe = 92 := by decide +kernel
  by_cases hfirst : i < 92 ∧ i ≠ 21
  · exact h.first_ok hfirst.1 hfirst.2 h22
  by_cases h21 : i = 21
  · have hok := h.second_ok (j := 20) (by decide) (by decide) (by decide) fun _ => blank
    rw [habsent] at hok
    exact h21 ▸ hok
  by_cases hwrite : i = 113 ∨ i = 114
  · have hok := h.second_ok (j := i - 30) (by omega) (by omega) (by omega) noPressure
    rwa [hshort, Nat.add_sub_of_le (by omega)] at hok
  · have hok := h.second_ok (j := i - 92) (by omega) (by omega) (by omega) probe
    rwa [hlong, Nat.add_sub_of_le (by omega)] at hok

/-- Nothing a failure leaves behind is stored exactly when the transactions that can
be BME280 reads succeed. -/
theorem failuresStay_iff (outcome : ℕ → Msg) :
    FailuresStay outcome ↔ ∀ i < 184, i ≠ 22 → outcome i = .ok := by
  constructor
  · intro h i hi h22
    exact h.early_ok hi h22
  · intro h
    refine ⟨fun c left handle => stored_eq_of_reads_ok (reads_ok h c) left handle, ?_⟩
    intro c e he hf
    constructor
    · intro hid
      exact absurd (reads_ok h c e he (hid ▸ ⟨Or.inr rfl, Nat.one_ne_zero⟩)) hf
    · intro hid
      exact absurd (reads_ok h c e he (hid ▸ ⟨Or.inl rfl, Nat.one_ne_zero⟩)) hf

end Necessity

/-- All transactions time out. With clean receive buffers both BME280 sensors are
reported missing; with buffers that happen to hold the chip id neither is. -/
theorem timeouts_report_leftover_id :
    let c : Call := ⟨⟨0, 0, 0⟩, default, fun _ => blank, fun _ => blank, default⟩
    (c.stored fun _ => .timeout).2 = 0x11 ∧
      ({ c with left := fun _ _ => 0x60 }.stored fun _ => .timeout).2 = 0 := by
  decide +kernel

end WaferSat.Telemetry
