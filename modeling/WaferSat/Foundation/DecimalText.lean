import Mathlib.Data.BitVec
import Mathlib.Data.Nat.Log
import Mathlib.Tactic.Common

/-! ASCII text of decimal numbers separated by blanks: splitting it into words, reading a
number and writing one with a fixed or a least number of digits. -/
namespace DecimalText

/-- The blanks of the C locale. -/
def isSpace (c : BitVec 8) : Bool := c = 32#8 || (9#8 ≤ c && c ≤ 13#8)

def tokens (text : List (BitVec 8)) : List (List (BitVec 8)) :=
  (text.splitOnP isSpace).filter (· ≠ [])

/-- The last decimal digit of `n`. -/
def digit (n : ℕ) : BitVec 8 := BitVec.ofNat 8 (n % 10 + 48)

/-- The last `k` digits of `n`. -/
def decimal : ℕ → ℕ → List (BitVec 8)
  | 0, _ => []
  | k + 1, n => decimal k (n / 10) ++ [digit n]

/-- `n` with zeros in front up to `w` digits, or as many digits as it needs. -/
def padded (w n : ℕ) : List (BitVec 8) := decimal (max w (Nat.log 10 n + 1)) n

def digitValue (c : BitVec 8) : Option ℕ :=
  if 48#8 ≤ c ∧ c ≤ 57#8 then some (c.toNat - 48) else none

/-- The number read so far is `acc`. -/
def readDigits : ℕ → List (BitVec 8) → Option ℕ
  | acc, [] => some acc
  | acc, c :: cs => (digitValue c).bind fun v => readDigits (10 * acc + v) cs

def parseDecimal (word : List (BitVec 8)) : Option ℕ :=
  if word = [] then none else readDigits 0 word

theorem tokens_space {c : BitVec 8} (hc : isSpace c = true) (rest : List (BitVec 8)) :
    tokens (c :: rest) = tokens rest := by
  have hsplit : ([] ++ c :: rest).splitOnP isSpace = [] :: rest.splitOnP isSpace :=
    List.splitOnP_append_cons_of_forall_mem (by simp) c hc rest
  rw [List.nil_append] at hsplit
  simp [tokens, hsplit]

theorem tokens_word {w : List (BitVec 8)} (hw : ∀ x ∈ w, isSpace x = false) (hne : w ≠ [])
    {c : BitVec 8} (hc : isSpace c = true) (rest : List (BitVec 8)) :
    tokens (w ++ c :: rest) = w :: tokens rest := by
  rw [tokens, List.splitOnP_append_cons_of_forall_mem hw c hc,
    List.filter_cons_of_pos (by simpa using hne)]
  rfl

theorem tokens_singleton {w : List (BitVec 8)} (hw : ∀ x ∈ w, isSpace x = false) (hne : w ≠ []) :
    tokens w = [w] := by
  rw [tokens, List.splitOnP_eq_singleton hw, List.filter_cons_of_pos (by simpa using hne)]
  rfl

theorem splitOnP_word_append {w : List (BitVec 8)} (hw : ∀ x ∈ w, isSpace x = false)
    (rest : List (BitVec 8)) :
    (w ++ rest).splitOnP isSpace = (rest.splitOnP isSpace).modifyHead (w ++ ·) := by
  induction w with
  | nil => cases h : rest.splitOnP isSpace <;> simp [h]
  | cons x w ih =>
    rw [List.cons_append, List.splitOnP_cons_eq_if_modifyHead, hw x List.mem_cons_self,
      ih fun y hy => hw y (List.mem_cons_of_mem x hy)]
    simp [Function.comp_def]

theorem length_tokens_word_append_le {w : List (BitVec 8)} (hw : ∀ x ∈ w, isSpace x = false)
    (rest : List (BitVec 8)) :
    (tokens (w ++ rest)).length ≤ 1 + (tokens rest).length := by
  rw [tokens, splitOnP_word_append hw, tokens]
  cases rest.splitOnP isSpace with
  | nil => simp
  | cons first others =>
    have hmore : (others.filter (· ≠ [])).length ≤ ((first :: others).filter (· ≠ [])).length :=
      ((List.sublist_cons_self first others).filter _).length_le
    rw [List.modifyHead_cons, List.filter_cons]
    split
    · rw [List.length_cons]
      omega
    · omega

theorem length_tokens_joined {w : List (BitVec 8)} (hw : ∀ x ∈ w, isSpace x = false) {c : BitVec 8}
    (hc : isSpace c = false) (rest : List (BitVec 8)) :
    (tokens (w ++ c :: rest)).length = (tokens (c :: rest)).length := by
  rw [tokens, splitOnP_word_append hw, tokens, List.splitOnP_cons_eq_if_modifyHead, hc]
  cases rest.splitOnP isSpace with
  | nil => simp
  | cons first others => simp

theorem digit_toNat (n : ℕ) : (digit n).toNat = n % 10 + 48 := by
  rw [digit, BitVec.toNat_ofNat]
  omega

theorem digitValue_digit (n : ℕ) : digitValue (digit n) = some (n % 10) := by
  have hn := digit_toNat n
  have hrange : 48#8 ≤ digit n ∧ digit n ≤ 57#8 := by
    simp only [BitVec.le_def, hn, BitVec.toNat_ofNat]
    omega
  rw [digitValue, if_pos hrange, hn, Nat.add_sub_cancel]

theorem isSpace_digit (n : ℕ) : isSpace (digit n) = false := by
  have hn := digit_toNat n
  have h32 : digit n ≠ 32#8 := by
    intro h
    rw [h] at hn
    simp at hn
  have h13 : ¬digit n ≤ 13#8 := by
    rw [BitVec.le_def, hn, BitVec.toNat_ofNat]
    omega
  simp [isSpace, h32, h13]

theorem isSpace_decimal (k n : ℕ) : ∀ x ∈ decimal k n, isSpace x = false := by
  induction k generalizing n with
  | zero => simp [decimal]
  | succ k ih =>
    intro x hx
    rw [decimal, List.mem_append, List.mem_singleton] at hx
    rcases hx with hx | rfl
    · exact ih (n / 10) x hx
    · exact isSpace_digit n

theorem decimal_ne_nil (k n : ℕ) : decimal (k + 1) n ≠ [] := by simp [decimal]

theorem readDigits_append (acc : ℕ) (xs ys : List (BitVec 8)) :
    readDigits acc (xs ++ ys) = (readDigits acc xs).bind fun v => readDigits v ys := by
  induction xs generalizing acc with
  | nil => rfl
  | cons x xs ih =>
    simp only [List.cons_append, readDigits, Option.bind_assoc]
    congr 1
    funext v
    exact ih _

theorem readDigits_decimal (k n : ℕ) : readDigits 0 (decimal k n) = some (n % 10 ^ k) := by
  induction k generalizing n with
  | zero => simp [decimal, readDigits, Nat.mod_one]
  | succ k ih =>
    rw [decimal, readDigits_append, ih, Option.bind_some, readDigits, digitValue_digit,
      Option.bind_some, readDigits, Nat.pow_succ, Nat.mul_comm (10 ^ k), Nat.mod_mul, Nat.add_comm]

theorem parseDecimal_decimal {k n : ℕ} (h : n < 10 ^ (k + 1)) :
    parseDecimal (decimal (k + 1) n) = some n := by
  rw [parseDecimal, if_neg (decimal_ne_nil k n), readDigits_decimal, Nat.mod_eq_of_lt h]

theorem length_decimal (k n : ℕ) : (decimal k n).length = k := by
  induction k generalizing n with
  | zero => rfl
  | succ k ih => rw [decimal, List.length_append, ih, List.length_singleton]

theorem take_decimal (k j n : ℕ) : (decimal (k + j) n).take k = decimal k (n / 10 ^ j) := by
  induction j generalizing n with
  | zero =>
    rw [Nat.add_zero, Nat.pow_zero, Nat.div_one, List.take_of_length_le (length_decimal k n).le]
  | succ j ih =>
    rw [← Nat.add_assoc, decimal, List.take_append_of_le_length (by rw [length_decimal]; omega), ih,
      Nat.div_div_eq_div_mul, Nat.pow_succ, Nat.mul_comm 10]

theorem readDigits_padded (w n : ℕ) : readDigits 0 (padded w n) = some n := by
  have hlog : n < 10 ^ (Nat.log 10 n + 1) := Nat.lt_pow_succ_log_self (by decide) n
  have hwidth : n < 10 ^ max w (Nat.log 10 n + 1) :=
    hlog.trans_le (Nat.pow_le_pow_right (by decide) (le_max_right _ _))
  rw [padded, readDigits_decimal, Nat.mod_eq_of_lt hwidth]

theorem padded_injective (w : ℕ) : Function.Injective (padded w) := by
  intro m n h
  have hread := congrArg (readDigits 0) h
  rw [readDigits_padded, readDigits_padded] at hread
  exact Option.some.inj hread

theorem length_padded_le {w k n : ℕ} (hw : w ≤ k) (hk : k ≠ 0) (hn : n < 10 ^ k) :
    (padded w n).length ≤ k := by
  rw [padded, length_decimal]
  exact max_le hw (Nat.log_lt_of_lt_pow' hk hn)

end DecimalText
