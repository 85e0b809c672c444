import Mathlib.Tactic.Common

/-! Finite runs of a partial step function. A disabled action has no successor,
so a list of actions is a run exactly when every action is enabled in turn. -/
namespace GuardedRun

variable {σ α : Type*} {step : σ → α → Option σ}

def run (step : σ → α → Option σ) : σ → List α → Option σ
  | s, [] => some s
  | s, a :: as => (step s a).bind fun t => run step t as

/-- Every action of the list is taken in a state that meets the condition. -/
def Meets (step : σ → α → Option σ) (C : σ → α → Prop) : σ → List α → Prop
  | _, [] => True
  | s, a :: as => C s a ∧ ∀ t, step s a = some t → Meets step C t as

instance decidableMeets (step : σ → α → Option σ) (C : σ → α → Prop) [∀ s a, Decidable (C s a)] :
    ∀ s as, Decidable (Meets step C s as)
  | _, [] => .isTrue trivial
  | s, a :: as =>
    match h : step s a with
    | none => decidable_of_iff (C s a) (by simp [Meets, h])
    | some t =>
      have := decidableMeets step C t as
      decidable_of_iff (C s a ∧ Meets step C t as) (by simp [Meets, h])

/-- Every state of the run, the first and the last included, has the property. -/
def Along (step : σ → α → Option σ) (P : σ → Prop) : σ → List α → Prop
  | s, [] => P s
  | s, a :: as => P s ∧ ∀ t, step s a = some t → Along step P t as

@[simp] theorem run_nil (s : σ) : run step s [] = some s := rfl

theorem run_cons_eq_some {s u : σ} {a : α} {as : List α} :
    run step s (a :: as) = some u ↔ ∃ t, step s a = some t ∧ run step t as = some u := by
  simp only [run, Option.bind_eq_some_iff]

theorem run_append_eq_some {s u : σ} {as bs : List α} :
    run step s (as ++ bs) = some u ↔
      ∃ t, run step s as = some t ∧ run step t bs = some u := by
  induction as generalizing s with
  | nil => simp
  | cons a as ih =>
    simp only [List.cons_append, run_cons_eq_some, ih]
    constructor
    · rintro ⟨t, ht, v, hv, hu⟩
      exact ⟨v, ⟨t, ht, hv⟩, hu⟩
    · rintro ⟨v, ⟨t, ht, hv⟩, hu⟩
      exact ⟨t, ht, v, hv, hu⟩

theorem run_invariant_of_meets {I : σ → Prop} {C : σ → α → Prop}
    (hstep : ∀ s a t, I s → C s a → step s a = some t → I t)
    {s t : σ} {as : List α} (hs : I s) (hc : Meets step C s as)
    (hr : run step s as = some t) : I t := by
  induction as generalizing s with
  | nil => simpa [run] using (Option.some.inj hr) ▸ hs
  | cons a as ih =>
    obtain ⟨u, hu, hr⟩ := run_cons_eq_some.mp hr
    exact ih (hstep s a u hs hc.1 hu) (hc.2 u hu) hr

theorem meets_of_forall {C : σ → α → Prop} (h : ∀ s a, C s a) (s : σ) (as : List α) :
    Meets step C s as := by
  induction as generalizing s with
  | nil => trivial
  | cons a as ih => exact ⟨h s a, fun t _ => ih t⟩

theorem Meets.and {C D : σ → α → Prop} {s : σ} {as : List α} (hC : Meets step C s as)
    (hD : Meets step D s as) : Meets step (fun s a => C s a ∧ D s a) s as := by
  induction as generalizing s with
  | nil => trivial
  | cons a as ih => exact ⟨⟨hC.1, hD.1⟩, fun t ht => ih (hC.2 t ht) (hD.2 t ht)⟩

theorem run_invariant {I : σ → Prop} (hstep : ∀ s a t, I s → step s a = some t → I t)
    {s t : σ} {as : List α} (hs : I s) (hr : run step s as = some t) : I t :=
  run_invariant_of_meets (C := fun _ _ => True) (fun s a t hs _ => hstep s a t hs) hs
    (meets_of_forall (fun _ _ => trivial) s as) hr

theorem along_of_meets {I P : σ → Prop} {C : σ → α → Prop}
    (hstep : ∀ s a t, I s → C s a → step s a = some t → I t) (hP : ∀ s, I s → P s)
    {s : σ} {as : List α} (hs : I s) (hc : Meets step C s as) : Along step P s as := by
  induction as generalizing s with
  | nil => exact hP s hs
  | cons a as ih => exact ⟨hP s hs, fun t ht => ih (hstep s a t hs hc.1 ht) (hc.2 t ht)⟩

/-- If a step that misses the condition leads out of the property at once, the condition is
exact: the runs that keep the property are those whose steps all meet it. -/
theorem along_iff_meets {I P : σ → Prop} {C : σ → α → Prop}
    (hstep : ∀ s a t, I s → C s a → step s a = some t → I t) (hP : ∀ s, I s → P s)
    (hbad : ∀ s a t, I s → ¬C s a → step s a = some t → ¬P t)
    {s t : σ} {as : List α} (hs : I s) (hr : run step s as = some t) :
    Along step P s as ↔ Meets step C s as := by
  refine ⟨fun hal => ?_, along_of_meets hstep hP hs⟩
  induction as generalizing s with
  | nil => trivial
  | cons a as ih =>
    obtain ⟨u, hu, hr⟩ := run_cons_eq_some.mp hr
    have hPu : P u := by
      have hrest := hal.2 u hu
      cases as with
      | nil => exact hrest
      | cons b bs => exact hrest.1
    have hC : C s a := by
      by_contra hno
      exact hbad s a u hs hno hu hPu
    refine ⟨hC, fun v hv => ?_⟩
    obtain rfl : u = v := Option.some.inj (hu.symm.trans hv)
    exact ih (hstep s a u hs hC hu) hr (hal.2 u hu)

section Simulation

variable {τ β : Type*} {step' : τ → β → Option τ} {label : σ → α → Option β} {abs : σ → τ}

/-- The steps of a run that show, as actions of another system. -/
def labels (step : σ → α → Option σ) (label : σ → α → Option β) : σ → List α → List β
  | _, [] => []
  | s, a :: as =>
    (label s a).toList ++ match step s a with
      | none => []
      | some t => labels step label t as

/-- If every step is one of the abstract system, or none at all, so is every run. -/
theorem run_simulates {I : σ → Prop} (hI : ∀ s a t, I s → step s a = some t → I t)
    (hsim : ∀ s a t, I s → step s a = some t →
      run step' (abs s) (label s a).toList = some (abs t))
    {s t : σ} {as : List α} (hs : I s) (hr : run step s as = some t) :
    run step' (abs s) (labels step label s as) = some (abs t) := by
  induction as generalizing s with
  | nil =>
    obtain rfl := Option.some.inj hr
    rfl
  | cons a as ih =>
    obtain ⟨u, hu, hrest⟩ := run_cons_eq_some.mp hr
    simp only [labels, hu]
    exact run_append_eq_some.mpr ⟨abs u, hsim s a u hs hu, ih (hI s a u hs hu) hrest⟩

end Simulation

end GuardedRun
