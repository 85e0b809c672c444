import WaferSat.Foundation.Dialog
import Mathlib.Logic.Function.Basic
import Mathlib.Data.List.Basic

/-! Programs whose requests are served by independent components. Each request goes to the
component at its address, which answers and changes its own state only, so a program sees a
component as the last program that talked to it left it. -/
namespace Dialog

structure Service (ρ σ ι κ : Type) where
  address : ρ → ι
  serve : ρ → κ → σ × κ

variable {ρ σ ι κ ν α β : Type} {S : Service ρ σ ι κ} {b c : ι → κ} {A used : List ι}
  {view : κ → ν}

/-- A request to one of the components `A` that leaves the view of every state. -/
def Quiet (S : Service ρ σ ι κ) (view : κ → ν) (A : List ι) (r : ρ) : Prop :=
  S.address r ∈ A ∧ ∀ k, view (S.serve r k).2 = view k

/-- Only the components in `used` may have changed between `b` and `c`, and not in view. -/
structure Since (view : κ → ν) (b : ι → κ) (used : List ι) (c : ι → κ) : Prop where
  fresh : ∀ i, i ∉ used → c i = b i
  view_eq : ∀ i, view (c i) = view (b i)

theorem Since.refl (view : κ → ν) (b : ι → κ) : Since view b [] b :=
  ⟨fun _ _ => rfl, fun _ => rfl⟩

theorem Since.mono {used' : List ι} (h : Since view b used c) (hsub : used ⊆ used') :
    Since view b used' c :=
  ⟨fun i hi => h.fresh i fun hmem => hi (hsub hmem), h.view_eq⟩

variable [DecidableEq ι]

theorem Since.ask (h : Since view b used c) {r : ρ} (hr : Quiet S view A r) :
    Since view b (A ++ used) (Function.update c (S.address r) (S.serve r (c (S.address r))).2) := by
  constructor
  · intro i hi
    rw [List.mem_append, not_or] at hi
    have hne : i ≠ S.address r := by
      rintro rfl
      exact hi.1 hr.1
    rw [Function.update_of_ne hne, h.fresh i hi.2]
  · intro i
    by_cases hi : i = S.address r
    · rw [hi, Function.update_self, hr.2, h.view_eq]
    · rw [Function.update_of_ne hi, h.view_eq]

/-- What the program returns and the states of the components after it. -/
def served (S : Service ρ σ ι κ) : Dialog ρ σ α → (ι → κ) → α × (ι → κ)
  | done a, b => (a, b)
  | ask r k, b =>
    let x := S.serve r (b (S.address r))
    (k x.1).served S (Function.update b (S.address r) x.2)

variable {p : Dialog ρ σ α} {f : α → Dialog ρ σ β}

@[simp] theorem served_pure (a : α) : (pure a : Dialog ρ σ α).served S b = (a, b) := rfl

theorem served_bind (p : Dialog ρ σ α) (f : α → Dialog ρ σ β) (b : ι → κ) :
    (p >>= f).served S b = (f (p.served S b).1).served S (p.served S b).2 := by
  induction p generalizing b with
  | done a => rfl
  | ask r k ih => exact ih _ _

theorem Since.served (h : Since view b used c) (hp : p.Asks (Quiet S view A)) :
    Since view b (A ++ used) (p.served S c).2 := by
  induction p generalizing c used with
  | done a => exact h.mono (List.subset_append_right _ _)
  | ask r k ih =>
    have hrest := ih (S.serve r (c (S.address r))).1 (h.ask hp.1) (hp.2 _)
    exact hrest.mono (List.append_subset.mpr ⟨List.subset_append_left _ _, List.Subset.refl _⟩)

theorem served_value_congr (hp : p.Asks fun r => S.address r ∈ A) (h : ∀ i ∈ A, b i = c i) :
    (p.served S b).1 = (p.served S c).1 := by
  induction p generalizing b c with
  | done a => rfl
  | ask r k ih =>
    unfold served
    rw [h _ hp.1]
    refine ih _ (hp.2 _) fun i hi => ?_
    by_cases hir : i = S.address r
    · rw [hir, Function.update_self, Function.update_self]
    · rw [Function.update_of_ne hir, Function.update_of_ne hir, h i hi]

theorem Since.value (h : Since view b used c) (hp : p.Asks (Quiet S view A))
    (hA : ∀ i ∈ A, i ∉ used) : (p.served S c).1 = (p.served S b).1 :=
  served_value_congr (hp.mono fun _ hr => hr.1) fun i hi => h.fresh i (hA i hi)

/-- One program after another: the value of the first is known, and the second is run on what the
first can have left. -/
theorem Since.bind {T : β → Prop} (h : Since view b used c) (hp : p.Asks (Quiet S view A)) {v : α}
    (hv : (p.served S c).1 = v) (hf : ∀ c, Since view b (A ++ used) c → T ((f v).served S c).1) :
    T ((p >>= f).served S c).1 := by
  rw [served_bind, hv]
  exact hf _ (h.served hp)

end Dialog
