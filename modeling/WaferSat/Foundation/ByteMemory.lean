import Mathlib.Tactic.Common
import Mathlib.Data.List.DropRight

/-! Memory as a function from addresses to cells, with runs of cells written and read as
lists. Addresses are natural numbers; a run that fits a machine's address space does not wrap. -/
namespace ByteMemory

variable {β : Type*}

def writeBytes (a : ℕ) (bs : List β) (m : ℕ → β) : ℕ → β := fun i =>
  if a ≤ i then bs[i - a]?.getD (m i) else m i

def readBytes (m : ℕ → β) (a n : ℕ) : List β := (List.range n).map fun i => m (a + i)

@[simp] theorem length_readBytes (m : ℕ → β) (a n : ℕ) : (readBytes m a n).length = n := by
  simp [readBytes]

theorem writeBytes_frame {a i : ℕ} {bs : List β} (m : ℕ → β) (h : i < a ∨ a + bs.length ≤ i) :
    writeBytes a bs m i = m i := by
  unfold writeBytes
  split_ifs with ha
  · rw [List.getElem?_eq_none (by omega), Option.getD_none]
  · rfl

theorem writeBytes_inside {a k : ℕ} {bs : List β} {b : β} (m : ℕ → β) (h : bs[k]? = some b) :
    writeBytes a bs m (a + k) = b := by
  simp [writeBytes, h]

@[simp] theorem writeBytes_nil (a : ℕ) (m : ℕ → β) : writeBytes a [] m = m := by
  funext i
  exact writeBytes_frame m (by simp; omega)

theorem writeBytes_append (a : ℕ) (xs ys : List β) (m : ℕ → β) :
    writeBytes a (xs ++ ys) m = writeBytes (a + xs.length) ys (writeBytes a xs m) := by
  funext i
  unfold writeBytes
  by_cases ha : a ≤ i
  · by_cases hx : i - a < xs.length
    · rw [if_pos ha, if_neg (by omega), if_pos ha, List.getElem?_append_left hx]
    · have hi : i - a - xs.length = i - (a + xs.length) := by omega
      rw [if_pos ha, if_pos (by omega), if_pos ha, List.getElem?_append_right (by omega), hi,
        List.getElem?_eq_none (show xs.length ≤ i - a by omega), Option.getD_none]
  · rw [if_neg ha, if_neg (by omega), if_neg ha]

theorem readBytes_add (m : ℕ → β) (a n k : ℕ) :
    readBytes m a (n + k) = readBytes m a n ++ readBytes m (a + n) k := by
  simp [readBytes, List.range_add, Nat.add_assoc, Function.comp_def]

theorem readBytes_succ (m : ℕ → β) (a n : ℕ) :
    readBytes m a (n + 1) = readBytes m a n ++ [m (a + n)] := by
  simp [readBytes, List.range_succ]

theorem readBytes_writeBytes (a : ℕ) (bs : List β) (m : ℕ → β) :
    readBytes (writeBytes a bs m) a bs.length = bs := by
  apply List.ext_getElem (by simp)
  intro i hi hi'
  simp [readBytes, writeBytes, hi']

/-- Data written over the start of a cleared area, followed by what is left of the area. -/
theorem readBytes_over_clear {a k n : ℕ} {z : β} {xs : List β} (m : ℕ → β)
    (hx : xs.length ≤ k) (hk : k ≤ n) :
    readBytes (writeBytes a xs (writeBytes a (List.replicate n z) m)) a k =
      xs ++ List.replicate (k - xs.length) z := by
  obtain ⟨r, rfl⟩ := Nat.exists_eq_add_of_le hx
  rw [readBytes_add, readBytes_writeBytes, Nat.add_sub_cancel_left, List.append_cancel_left_eq]
  apply List.ext_getElem (by simp)
  intro i hi _
  simp only [length_readBytes] at hi
  have hz : (List.replicate n z)[xs.length + i]? = some z := by
    rw [List.getElem?_replicate, if_pos (by omega)]
  simp only [readBytes, List.getElem_map, List.getElem_range, List.getElem_replicate]
  rw [writeBytes_frame _ (by omega), Nat.add_assoc, writeBytes_inside m hz]

/-- A run of cells copied from `src` to `dest`. -/
def copyBytes (dest src n : ℕ) (m : ℕ → β) : ℕ → β := writeBytes dest (readBytes m src n) m

/-- Two runs of `n` cells that have no address in common. -/
def Apart (a b n : ℕ) : Prop := a + n ≤ b ∨ b + n ≤ a

theorem copyBytes_inside {dest src n k : ℕ} (m : ℕ → β) (h : k < n) :
    copyBytes dest src n m (dest + k) = m (src + k) := by
  apply writeBytes_inside
  simp [readBytes, h]

theorem copyBytes_outside {dest src n i : ℕ} (m : ℕ → β) (h : i < dest ∨ dest + n ≤ i) :
    copyBytes dest src n m i = m i :=
  writeBytes_frame m (by simpa using h)

@[simp] theorem copyBytes_zero (dest src : ℕ) (m : ℕ → β) : copyBytes dest src 0 m = m := by
  funext i
  exact copyBytes_outside m (by omega)

theorem copyBytes_copyBytes {dest src n k j : ℕ} (m : ℕ → β) (hap : Apart dest src n)
    (hk : k ≤ n) (hj : j ≤ n) :
    copyBytes dest src j (copyBytes dest src k m) = copyBytes dest src (max k j) m := by
  funext i
  by_cases hi : dest ≤ i ∧ i < dest + max k j
  · obtain ⟨x, rfl⟩ := Nat.exists_eq_add_of_le hi.1
    rw [copyBytes_inside (n := max k j) m (by omega)]
    by_cases hx : x < j
    · rw [copyBytes_inside _ hx, copyBytes_outside m]
      rcases hap with h | h <;> omega
    · rw [copyBytes_outside _ (by omega), copyBytes_inside m (by omega)]
  · rw [copyBytes_outside _ (by omega), copyBytes_outside _ (by omega),
      copyBytes_outside _ (by omega)]

/-- Writes that have been issued and not yet carried out, oldest first. -/
def flush (pending : List (ℕ × List β)) (m : ℕ → β) : ℕ → β :=
  pending.foldl (fun m w => writeBytes w.1 w.2 m) m

@[simp] theorem flush_nil (m : ℕ → β) : flush [] m = m := rfl

theorem flush_cons (w : ℕ × List β) (pending : List (ℕ × List β)) (m : ℕ → β) :
    flush (w :: pending) m = flush pending (writeBytes w.1 w.2 m) := rfl

theorem flush_concat (pending : List (ℕ × List β)) (a : ℕ) (bs : List β) (m : ℕ → β) :
    flush (pending ++ [(a, bs)]) m = writeBytes a bs (flush pending m) := by
  simp [flush, List.foldl_append]

variable [DecidableEq β]

/-- The length that is left when trailing cells equal to `z` are dropped one by one. -/
def trimLength (z : β) (f : ℕ → β) : ℕ → ℕ
  | 0 => 0
  | n + 1 => if f n = z then trimLength z f n else n + 1

theorem trimLength_le (z : β) (f : ℕ → β) (n : ℕ) : trimLength z f n ≤ n := by
  induction n with
  | zero => exact le_rfl
  | succ n ih =>
    unfold trimLength
    split_ifs
    · exact ih.trans (Nat.le_succ n)
    · exact le_rfl

theorem readBytes_trimLength (z : β) (m : ℕ → β) (a n : ℕ) :
    readBytes m a (trimLength z (fun i => m (a + i)) n) =
      (readBytes m a n).rdropWhile (· = z) := by
  induction n with
  | zero => simp [trimLength, readBytes]
  | succ n ih =>
    rw [trimLength, readBytes_succ]
    split_ifs with h
    · rw [ih, List.rdropWhile_concat_pos _ _ _ (by simpa using h)]
    · rw [List.rdropWhile_concat_neg _ _ _ (by simpa using h), readBytes_succ]

theorem rdropWhile_append_replicate (z : β) (xs : List β) (n : ℕ) :
    (xs ++ List.replicate n z).rdropWhile (· = z) = xs.rdropWhile (· = z) := by
  induction n with
  | zero => simp
  | succ n ih =>
    rw [List.replicate_succ', ← List.append_assoc, List.rdropWhile_concat_pos _ _ _ (by simp), ih]

end ByteMemory
