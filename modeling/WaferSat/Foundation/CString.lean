import Mathlib.Data.List.Infix
import Mathlib.Tactic.Common

/-! Zero-terminated strings at the start of a buffer of fixed size, and writes into it. A write
that would leave the buffer has no result. -/
namespace CString

variable {α : Type*} {buf head text tail : List α}

def write (buf : List α) (offset : ℕ) (data : List α) : Option (List α) :=
  if offset + data.length ≤ buf.length then
    some (buf.take offset ++ data ++ buf.drop (offset + data.length))
  else none

theorem write_eq_none {offset : ℕ} {data : List α} (h : buf.length < offset + data.length) :
    write buf offset data = none := by
  rw [write, if_neg (Nat.not_le.mpr h)]

theorem write_after (h : head <+: buf) (data : List α)
    (hfit : head.length + data.length ≤ buf.length) :
    ∃ buf', write buf head.length data = some buf' ∧ buf'.length = buf.length ∧
      head ++ data <+: buf' := by
  refine ⟨_, if_pos hfit, ?_, ?_⟩
  · rw [List.length_append, List.length_append, List.length_take, List.length_drop]
    omega
  · rw [← List.prefix_iff_eq_take.mp h]
    exact List.prefix_append _ _

section Terminated

variable [Zero α]

/-- The buffer starts with `text` and its terminator. -/
structure Holds (buf text : List α) : Prop where
  no_zero : 0 ∉ text
  terminated : text ++ [0] <+: buf

theorem Holds.length_lt (h : Holds buf text) : text.length < buf.length := by
  have hle := h.terminated.length_le
  rw [List.length_append, List.length_singleton] at hle
  exact hle

theorem Holds.starts (h : Holds buf text) : text <+: buf :=
  (List.prefix_append _ _).trans h.terminated

theorem Holds.put (h : Holds buf text) (c : α) :
    ∃ buf', write buf text.length [c] = some buf' ∧ buf'.length = buf.length ∧
      text ++ [c] <+: buf' :=
  write_after h.starts [c] h.length_lt

theorem strcpy_after (h : head <+: buf) (hzero : 0 ∉ head ++ tail)
    (hfit : head.length + tail.length + 1 ≤ buf.length) :
    ∃ buf', write buf head.length (tail ++ [0]) = some buf' ∧ buf'.length = buf.length ∧
      Holds buf' (head ++ tail) := by
  obtain ⟨buf', hwrite, hlen, hknown⟩ :=
    write_after h (tail ++ [0]) (by rw [List.length_append]; exact hfit)
  rw [← List.append_assoc] at hknown
  exact ⟨buf', hwrite, hlen, hzero, hknown⟩

theorem Holds.cut {c : α} (h : Holds buf (text ++ c :: tail)) :
    ∃ buf', write buf text.length [0] = some buf' ∧ buf'.length = buf.length ∧
      Holds buf' text := by
  have hlt := h.length_lt
  rw [List.length_append, List.length_cons] at hlt
  have hstart : text <+: buf := (List.prefix_append _ _).trans h.starts
  obtain ⟨buf', hwrite, hlen, hknown⟩ :=
    write_after hstart [0] (by rw [List.length_singleton]; omega)
  exact ⟨buf', hwrite, hlen, fun hzero => h.no_zero (List.mem_append_left _ hzero), hknown⟩

variable [DecidableEq α]

/-- The string a buffer holds. -/
def string (buf : List α) : List α := buf.takeWhile (· ≠ 0)

def strlen (buf : List α) : ℕ := (string buf).length

theorem Holds.string_eq (h : Holds buf text) : string buf = text := by
  obtain ⟨rest, rfl⟩ := h.terminated
  have htext : ∀ a ∈ text, decide (a ≠ 0) = true := by
    intro a ha
    exact decide_eq_true fun hzero => h.no_zero (hzero ▸ ha)
  rw [string, List.append_assoc, List.takeWhile_append_of_pos htext]
  simp

theorem Holds.strlen_eq (h : Holds buf text) : strlen buf = text.length := by
  rw [strlen, h.string_eq]

end Terminated

end CString
