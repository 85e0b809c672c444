import WaferSat.Telemetry.Readings

/-! Every read of a BME280 stanza counts. There is one chip whose readings change
when any single one of its receive buffers is blanked. -/
namespace WaferSat.Telemetry

open Finset

def pair (a b : BitVec 8) : RxBuf := fun i => if i = 0 then a else b

def blank : RxBuf := fun _ => 0

/-- The buffers of that chip: chip id, calibration and first temperature, the same
pressure reading 32 times, humidity and second temperature. Places 21 and 22 are
those of the writes. -/
def probe (i : ℕ) : RxBuf :=
  if i < 25 then
    [pair 0x60 0, pair 0x77 0x52, pair 0x20 0x60, pair 0x6E 0x07, pair 0x19 0x28, pair 0x83 0x14,
      pair 0x22 0x0C, pair 0x93 0xFC, pair 0x4B 0x01, pair 0x5A 0x00, pair 0x24 0x2E,
      pair 0x59 0xE7, pair 0x12 0x13, pair 0xFD 0, pair 0x39 0x01, pair 0x7B 0, pair 0xF5 0,
      pair 0x06 0, pair 0xBA 0, pair 0xB0 0, pair 0x31 0, blank, blank, pair 0x24 0x7B,
      pair 0x90 0].getD i blank
  else if i < 89 then
    if i % 2 = 1 then pair 0xD9 0xD8 else pair 0x50 0
  else
    [pair 0x83 0x8E, pair 0x24 0x7B, pair 0x90 0].getD (i - 89) blank

theorem probe_word {i : ℕ} (hi : i < 32) : probe (25 + 2 * i) = pair 0xD9 0xD8 := by
  rw [probe, if_neg (by omega), if_pos (by omega), if_pos (by omega)]

theorem probe_low {i : ℕ} (hi : i < 32) : probe (25 + 2 * i + 1) = pair 0x50 0 := by
  rw [probe, if_neg (by omega), if_pos (by omega), if_neg (by omega)]

/-- The readings when all turns of the pressure loop but turn `k` read `a`. -/
def stanzaButOne (s : ℕ → RxBuf) (a : BitVec 32) (k : ℕ) : Climate :=
  stanzaWith s (shareOf s (adcAt s (25 + 2 * k)) + 31 * shareOf s a)

theorem stanzaOf_eq_butOne {s : ℕ → RxBuf} {a : BitVec 32} {k : ℕ} (hk : k < 32)
    (h : ∀ i < 32, i ≠ k → adcAt s (25 + 2 * i) = a) : stanzaOf s = stanzaButOne s a k := by
  have hrest : ∀ i ∈ range 32 \ {k}, shareOf s (adcAt s (25 + 2 * i)) = shareOf s a := by
    intro i hi
    obtain ⟨hi, hik⟩ := mem_sdiff.mp hi
    rw [h i (mem_range.mp hi) (by simpa using hik)]
  have hcard : #(range 32 \ {k}) = 31 := by
    rw [card_sdiff_of_subset (by simpa using hk), card_range, card_singleton]
  rw [stanzaOf, stanzaButOne, sum_eq_add_sum_sdiff_singleton_of_mem (mem_range.mpr hk),
    sum_congr rfl hrest, sum_const, hcard, nsmul_eq_mul]
  rfl

def probeAdc : BitVec 32 := adcValue (wordBE (pair 0xD9 0xD8)) 0x50

theorem adcAt_probe {i : ℕ} (hi : i < 32) : adcAt probe (25 + 2 * i) = probeAdc := by
  rw [adcAt, probe_word hi, probe_low hi]
  rfl

def turnOf (j : ℕ) : ℕ := min ((j - 25) / 2) 31

theorem stanzaOf_blanked (j : ℕ) :
    stanzaOf (Function.update probe j blank) =
      stanzaButOne (Function.update probe j blank) probeAdc (turnOf j) := by
  have hk : turnOf j < 32 := by
    rw [turnOf]
    omega
  refine stanzaOf_eq_butOne hk fun i hi hne => ?_
  have h0 : 25 + 2 * i ≠ j := by
    rw [turnOf] at hne
    omega
  have h1 : 25 + 2 * i + 1 ≠ j := by
    rw [turnOf] at hne
    omega
  rw [adcAt, Function.update_of_ne h0, Function.update_of_ne h1]
  exact adcAt_probe hi

/-- Blanking any buffer of the chip but those of the two writes changes its readings. -/
theorem stanzaOf_blanked_ne {j : ℕ} (hj : j < 92) (h21 : j ≠ 21) (h22 : j ≠ 22) :
    stanzaOf (Function.update probe j blank) ≠ stanzaOf probe := by
  have hbase : stanzaOf probe = stanzaButOne probe probeAdc 0 :=
    stanzaOf_eq_butOne (by decide) fun i hi _ => adcAt_probe hi
  have hall : ∀ j < 92, j ≠ 21 → j ≠ 22 →
      stanzaButOne (Function.update probe j blank) probeAdc (turnOf j) ≠
        stanzaButOne probe probeAdc 0 := by
    decide +kernel
  rw [hbase, stanzaOf_blanked]
  exact hall j hj h21 h22

end WaferSat.Telemetry
