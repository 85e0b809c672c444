import WaferSat.Foundation.GuardedRun

/-! Bounded response. A rank that every step of the working kind brings down, and that a disturbance
pushes up by at most a fixed amount, bounds how long a goal can be put off. -/
namespace GuardedRun

variable {σ α : Type*} {step : σ → α → Option σ}

/-- The number of steps of a run that are of some kind. -/
def countSteps (step : σ → α → Option σ) (kind : σ → α → Bool) : σ → List α → ℕ
  | _, [] => 0
  | s, a :: as =>
    (kind s a).toNat + match step s a with
      | none => 0
      | some t => countSteps step kind t as

theorem exists_goal_of_rank {I G : σ → Prop} (rank : σ → ℕ) (works : α → Bool)
    (disturbs : σ → α → Bool) (w : ℕ)
    (hstep : ∀ s a t, I s → step s a = some t →
      G t ∨ I t ∧ rank t + (works a).toNat ≤ rank s + w * (disturbs s a).toNat)
    {s t : σ} {as : List α} (hs : I s) (hr : run step s as = some t)
    (hlong : rank s + w * countSteps step disturbs s as < as.countP works) :
    ∃ bs cs u, as = bs ++ cs ∧ run step s bs = some u ∧ G u := by
  induction as generalizing s with
  | nil => exact absurd hlong (Nat.not_lt_zero _)
  | cons a as ih =>
    obtain ⟨u, hu, hr⟩ := run_cons_eq_some.mp hr
    rcases hstep s a u hs hu with hgoal | ⟨hi, hrank⟩
    · exact ⟨[a], as, u, rfl, run_cons_eq_some.mpr ⟨u, hu, rfl⟩, hgoal⟩
    · have hrest : rank u + w * countSteps step disturbs u as < as.countP works := by
        simp only [countSteps, hu, Nat.mul_add] at hlong
        rw [List.countP_cons] at hlong
        cases hworks : works a <;> simp only [hworks, Bool.toNat_true, Bool.toNat_false,
          Bool.false_eq_true, ↓reduceIte] at hlong hrank <;> omega
      obtain ⟨bs, cs, v, rfl, hv, hgoal⟩ := ih hi hr hrest
      exact ⟨a :: bs, cs, v, rfl, run_cons_eq_some.mpr ⟨u, hu, hv⟩, hgoal⟩

end GuardedRun
