import Mathlib.Tactic.Common
import Mathlib.Data.List.Basic

/-! Maximal runs of `true` in a list of answers, and the length of the run that is going on when
the list has been read up to some place. -/
namespace BoolRuns

/-- The positions from `s` up to `e` are a run that cannot be extended. -/
structure MaximalRun (bs : List Bool) (s e : ℕ) : Prop where
  lt : s < e
  le : e ≤ bs.length
  inside : ∀ j, s ≤ j → j < e → bs[j]? = some true
  before : s = 0 ∨ bs[s - 1]? = some false
  after : e = bs.length ∨ bs[e]? = some false

/-- The run that is going on in front of position `i` started at `s`. -/
structure Open (bs : List Bool) (s i : ℕ) : Prop where
  le : s ≤ i
  inside : ∀ j, s ≤ j → j < i → bs[j]? = some true
  before : s = 0 ∨ bs[s - 1]? = some false

def trailing (bs : List Bool) : ℕ := bs.foldl (fun k b => if b then k + 1 else 0) 0

variable {bs : List Bool} {s e i : ℕ} {b : Bool}

theorem trailing_append_singleton (bs : List Bool) (b : Bool) :
    trailing (bs ++ [b]) = if b then trailing bs + 1 else 0 := by
  simp [trailing]

theorem trailing_take_succ (h : bs[i]? = some b) :
    trailing (bs.take (i + 1)) = if b then trailing (bs.take i) + 1 else 0 := by
  rw [List.take_add_one, h]
  exact trailing_append_singleton _ b

theorem Open.trailing_eq (h : Open bs s i) : trailing (bs.take i) = i - s := by
  induction i with
  | zero => simp [trailing]
  | succ i ih =>
    rcases Nat.lt_or_eq_of_le h.le with hlt | rfl
    · have hopen : Open bs s i := ⟨by omega, fun j hs hj => h.inside j hs (by omega), h.before⟩
      rw [trailing_take_succ (h.inside i (by omega) (by omega)), if_pos rfl, ih hopen]
      omega
    · have hfalse : bs[i]? = some false := h.before.resolve_left (by omega)
      rw [trailing_take_succ hfalse]
      simp

theorem Open.succ (h : Open bs s i) (hi : bs[i]? = some true) : Open bs s (i + 1) := by
  refine ⟨Nat.le_succ_of_le h.le, fun j hs hj => ?_, h.before⟩
  rcases Nat.lt_or_eq_of_le (Nat.lt_succ_iff.mp hj) with hlt | rfl
  · exact h.inside j hs hlt
  · exact hi

/-- Some run is always going on, possibly an empty one. -/
theorem exists_open (hi : i ≤ bs.length) : ∃ s, Open bs s i := by
  induction i with
  | zero => exact ⟨0, Nat.le_refl 0, fun j _ hj => absurd hj (by omega), .inl rfl⟩
  | succ i ih =>
    cases hb : bs.get ⟨i, hi⟩ with
    | true =>
      obtain ⟨s, h⟩ := ih (by omega)
      exact ⟨s, h.succ (List.getElem?_eq_some_iff.mpr ⟨hi, hb⟩)⟩
    | false =>
      refine ⟨i + 1, Nat.le_refl _, fun j hs hj => absurd hj (by omega), .inr ?_⟩
      exact List.getElem?_eq_some_iff.mpr ⟨hi, hb⟩

theorem MaximalRun.open (h : MaximalRun bs s e) (hs : s ≤ i) (he : i ≤ e) : Open bs s i :=
  ⟨hs, fun j hj hlt => h.inside j hj (by omega), h.before⟩

theorem Open.exists_end (h : Open bs s i) (hi : bs[i]? = some true) :
    ∃ e, i < e ∧ MaximalRun bs s e := by
  obtain ⟨hlt, -⟩ := List.getElem?_eq_some_iff.mp hi
  have hle := h.le
  have hopen := h.succ hi
  induction hn : bs.length - (i + 1) generalizing i with
  | zero =>
    exact ⟨i + 1, by omega, by omega, by omega, hopen.inside, h.before, .inl (by omega)⟩
  | succ n ih =>
    have hnext : i + 1 < bs.length := by omega
    cases hb : bs.get ⟨i + 1, hnext⟩ with
    | false =>
      exact ⟨i + 1, by omega, by omega, by omega, hopen.inside, h.before,
        .inr (List.getElem?_eq_some_iff.mpr ⟨hnext, hb⟩)⟩
    | true =>
      have hi : bs[i + 1]? = some true := List.getElem?_eq_some_iff.mpr ⟨hnext, hb⟩
      obtain ⟨e, he, hrun⟩ := ih hopen hi hnext hopen.le (hopen.succ hi) (by omega)
      exact ⟨e, by omega, hrun⟩

end BoolRuns
