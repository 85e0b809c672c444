import WaferSat.Foundation.GuardedRun
import WaferSat.Foundation.Served

/-! Several programs on the same components, one request at a time in any order. A program that
shares no component with the others returns what it returns alone. -/
namespace Dialog
open GuardedRun

variable {ρ σ ι κ τ α : Type} [DecidableEq ι] [DecidableEq τ] {S : Service ρ σ ι κ}

/-- What is left of each program, and the states of the components. -/
structure Pool (ρ σ ι κ τ α : Type) where
  program : τ → Dialog ρ σ α
  states : ι → κ

/-- The next request of one of the programs. -/
def poolStep (S : Service ρ σ ι κ) (s : Pool ρ σ ι κ τ α) (i : τ) : Option (Pool ρ σ ι κ τ α) :=
  match s.program i with
  | done _ => none
  | ask r k =>
    let x := S.serve r (s.states (S.address r))
    some ⟨Function.update s.program i (k x.1), Function.update s.states (S.address r) x.2⟩

/-- What a program has returned. -/
def result : Dialog ρ σ α → Option α
  | done a => some a
  | ask _ _ => none

theorem eq_done_of_result {p : Dialog ρ σ α} {a : α} (h : p.result = some a) : p = done a := by
  cases p with
  | done b => rw [Option.some.inj h]
  | ask r k => cases h

theorem poolStep_of_ask {s : Pool ρ σ ι κ τ α} {i : τ} {r : ρ} {k : σ → Dialog ρ σ α}
    (h : s.program i = ask r k) :
    poolStep S s i = some ⟨Function.update s.program i (k (S.serve r (s.states (S.address r))).1),
      Function.update s.states (S.address r) (S.serve r (s.states (S.address r))).2⟩ := by
  unfold poolStep
  rw [h]

/-- The program `i` talks to the components `A` and the others do not; left alone from here on it
returns `v`. -/
structure Isolated (S : Service ρ σ ι κ) (A : List ι) (i : τ) (v : α)
    (s : Pool ρ σ ι κ τ α) : Prop where
  own : (s.program i).Asks fun r => S.address r ∈ A
  others : ∀ j, j ≠ i → (s.program j).Asks fun r => S.address r ∉ A
  value : ((s.program i).served S s.states).1 = v

theorem isolated_step {A : List ι} {i j : τ} {v : α} {s t : Pool ρ σ ι κ τ α}
    (h : Isolated S A i v s) (ht : poolStep S s j = some t) : Isolated S A i v t := by
  unfold poolStep at ht
  split at ht
  · cases ht
  · next r k hp =>
    obtain rfl := Option.some.inj ht
    by_cases hj : j = i
    · subst hj
      have hown := h.own
      have hvalue := h.value
      rw [hp] at hown hvalue
      refine ⟨?_, fun l hl => ?_, ?_⟩ <;> dsimp only
      · rw [Function.update_self]
        exact hown.2 _
      · rw [Function.update_of_ne hl]
        exact h.others l hl
      · rw [Function.update_self]
        exact hvalue
    · have hother := h.others j hj
      rw [hp] at hother
      refine ⟨?_, fun l hl => ?_, ?_⟩ <;> dsimp only
      · rw [Function.update_of_ne (Ne.symm hj)]
        exact h.own
      · by_cases hlj : l = j
        · subst hlj
          rw [Function.update_self]
          exact hother.2 _
        · rw [Function.update_of_ne hlj]
          exact h.others l hl
      · rw [Function.update_of_ne (Ne.symm hj), ← h.value]
        refine served_value_congr h.own fun a ha => Function.update_of_ne ?_ _ _
        rintro rfl
        exact hother.1 ha

/-- In every interleaving a program that shares no component with the others returns what it
returns alone. -/
theorem pool_value_alone {A : List ι} {i : τ} {P : τ → Dialog ρ σ α} {b : ι → κ}
    (hown : (P i).Asks fun r => S.address r ∈ A)
    (hothers : ∀ j, j ≠ i → (P j).Asks fun r => S.address r ∉ A) {order : List τ}
    {s : Pool ρ σ ι κ τ α} (hr : run (poolStep S) ⟨P, b⟩ order = some s) {a : α}
    (hdone : s.program i = done a) : a = ((P i).served S b).1 := by
  have hinv := run_invariant (I := Isolated S A i ((P i).served S b).1)
    (fun _ _ _ h ht => isolated_step h ht) ⟨hown, hothers, rfl⟩ hr
  have hvalue := hinv.value
  rw [hdone] at hvalue
  exact hvalue

end Dialog
