import Mathlib.Tactic.Common
import Mathlib.Data.Nat.Notation

/-! Programs that talk to their surroundings: each request is answered before
the program goes on. A run is fixed by the answer given to every request, and
relations on answers lift to relations on whole runs. -/

/-- A program issuing requests of type `ρ` and answered with values of type `σ`. -/
inductive Dialog (ρ σ α : Type) where
  | done (a : α)
  | ask (r : ρ) (next : σ → Dialog ρ σ α)

namespace Dialog

variable {ρ σ α β : Type} {env : ℕ → ρ → σ}

protected def bind : Dialog ρ σ α → (α → Dialog ρ σ β) → Dialog ρ σ β
  | done a, f => f a
  | ask r k, f => ask r fun x => (k x).bind f

instance : Monad (Dialog ρ σ) where
  pure := done
  bind := Dialog.bind

instance : LawfulMonad (Dialog ρ σ) :=
  LawfulMonad.mk' _
    (fun p => by
      induction p with
      | done a => rfl
      | ask r k ih => exact congrArg (ask r) (funext ih))
    (fun _ _ => rfl)
    (fun p f g => by
      induction p with
      | done a => rfl
      | ask r k ih => exact congrArg (ask r) (funext ih))

/-- What the program returns when it starts at request number `n` and request
number `i` is answered by `env i`. -/
def value (env : ℕ → ρ → σ) : Dialog ρ σ α → ℕ → α
  | done a, _ => a
  | ask r k, n => (k (env n r)).value env (n + 1)

/-- The requests of that run with their answers, in order. -/
def log (env : ℕ → ρ → σ) : Dialog ρ σ α → ℕ → List (ρ × σ)
  | done _, _ => []
  | ask r k, n => (r, env n r) :: (k (env n r)).log env (n + 1)

@[simp] theorem value_pure (a : α) (n : ℕ) : (pure a : Dialog ρ σ α).value env n = a := rfl

@[simp] theorem log_pure (a : α) (n : ℕ) : (pure a : Dialog ρ σ α).log env n = [] := rfl

theorem value_bind (p : Dialog ρ σ α) (f : α → Dialog ρ σ β) (n : ℕ) :
    (p >>= f).value env n = (f (p.value env n)).value env (n + (p.log env n).length) := by
  induction p generalizing n with
  | done a => rfl
  | ask r k ih =>
    have h := ih (env n r) (n + 1)
    rw [Nat.add_right_comm] at h
    exact h

theorem log_bind (p : Dialog ρ σ α) (f : α → Dialog ρ σ β) (n : ℕ) :
    (p >>= f).log env n =
      p.log env n ++ (f (p.value env n)).log env (n + (p.log env n).length) := by
  induction p generalizing n with
  | done a => rfl
  | ask r k ih =>
    have h := ih (env n r) (n + 1)
    rw [Nat.add_right_comm] at h
    exact congrArg ((r, env n r) :: ·) h

theorem exists_of_mem_log {p : Dialog ρ σ α} {n : ℕ} {e : ρ × σ} (he : e ∈ p.log env n) :
    ∃ i, (p.log env n)[i]? = some e ∧ e.2 = env (n + i) e.1 := by
  induction p generalizing n with
  | done a => cases he
  | ask r k ih =>
    rcases List.mem_cons.mp he with rfl | he
    · exact ⟨0, rfl, rfl⟩
    · obtain ⟨i, hi, hx⟩ := ih _ he
      refine ⟨i + 1, hi, ?_⟩
      rw [hx, Nat.add_right_comm, Nat.add_assoc]

theorem run_congr {env' : ℕ → ρ → σ} {p : Dialog ρ σ α} {n : ℕ}
    (h : ∀ i r, n ≤ i → i < n + (p.log env n).length → env' i r = env i r) :
    p.value env' n = p.value env n ∧ p.log env' n = p.log env n := by
  induction p generalizing n with
  | done a => exact ⟨rfl, rfl⟩
  | ask r k ih =>
    have hlen : ((ask r k).log env n).length = ((k (env n r)).log env (n + 1)).length + 1 := rfl
    have hn : env' n r = env n r := h n r (Nat.le_refl n) (by omega)
    obtain ⟨hv, hl⟩ := ih (env n r) (n := n + 1) fun i q hi hlt => h i q (by omega) (by omega)
    simp only [value, log, hn]
    exact ⟨hv, congrArg _ hl⟩

/-- Every request the program can make has the property. -/
def Asks (P : ρ → Prop) : Dialog ρ σ α → Prop
  | done _ => True
  | ask r k => P r ∧ ∀ x, (k x).Asks P

/-- Every value the program can return has the property. -/
def Ensures (Q : α → Prop) : Dialog ρ σ α → Prop
  | done a => Q a
  | ask _ k => ∀ x, (k x).Ensures Q

/-- The program goes on in the same way after answers the relation identifies. -/
def Respects (R : ρ → σ → σ → Prop) : Dialog ρ σ α → Prop
  | done _ => True
  | ask r k => (∀ x y, R r x y → k x = k y) ∧ ∀ x, (k x).Respects R

section Rules

variable {P : ρ → Prop} {Q : α → Prop} {R : ρ → σ → σ → Prop}
  {p : Dialog ρ σ α} {f : α → Dialog ρ σ β}

@[simp] theorem asks_pure (a : α) : (pure a : Dialog ρ σ α).Asks P := trivial

@[simp] theorem respects_pure (a : α) : (pure a : Dialog ρ σ α).Respects R := trivial

theorem ensures_true (p : Dialog ρ σ α) : p.Ensures fun _ => True := by
  induction p with
  | done a => trivial
  | ask r k ih => exact ih

theorem asks_bind_of_ensures (hp : p.Asks P) (hq : p.Ensures Q)
    (hf : ∀ a, Q a → (f a).Asks P) : (p >>= f).Asks P := by
  induction p with
  | done a => exact hf a hq
  | ask r k ih => exact ⟨hp.1, fun x => ih x (hp.2 x) (hq x)⟩

theorem asks_bind (hp : p.Asks P) (hf : ∀ a, (f a).Asks P) : (p >>= f).Asks P :=
  asks_bind_of_ensures hp (ensures_true p) fun a _ => hf a

theorem Asks.mono {P' : ρ → Prop} (hp : p.Asks P) (h : ∀ r, P r → P' r) : p.Asks P' := by
  induction p with
  | done a => trivial
  | ask r k ih => exact ⟨h r hp.1, fun x => ih x (hp.2 x)⟩

theorem ensures_bind {T : β → Prop} (hp : p.Ensures Q) (hf : ∀ a, Q a → (f a).Ensures T) :
    (p >>= f).Ensures T := by
  induction p with
  | done a => exact hf a hp
  | ask r k ih => exact fun x => ih x (hp x)

theorem respects_bind_of_ensures (hp : p.Respects R) (hq : p.Ensures Q)
    (hf : ∀ a, Q a → (f a).Respects R) : (p >>= f).Respects R := by
  induction p with
  | done a => exact hf a hq
  | ask r k ih =>
    refine ⟨fun x y hxy => ?_, fun x => ih x (hp.2 x) (hq x)⟩
    exact congrArg (Dialog.bind · f) (hp.1 x y hxy)

theorem respects_bind (hp : p.Respects R) (hf : ∀ a, (f a).Respects R) :
    (p >>= f).Respects R :=
  respects_bind_of_ensures hp (ensures_true p) fun a _ => hf a

theorem Ensures.value (hp : p.Ensures Q) (env : ℕ → ρ → σ) (n : ℕ) : Q (p.value env n) := by
  induction p generalizing n with
  | done a => exact hp
  | ask r k ih => exact ih (env n r) (hp _) (n + 1)

theorem Asks.of_mem_log {n : ℕ} {e : ρ × σ} (hp : p.Asks P) (he : e ∈ p.log env n) : P e.1 := by
  induction p generalizing n with
  | done a => cases he
  | ask r k ih =>
    rcases List.mem_cons.mp he with rfl | he
    · exact hp.1
    · exact ih _ (hp.2 _) he

/-- Two runs return the same value when the answers of the first that meet `G`
are identified with those of the second, and all of them meet `G`. -/
theorem Respects.value_eq {env' : ℕ → ρ → σ} {G : ρ → σ → Prop} {n : ℕ} (hp : p.Respects R)
    (hR : ∀ i r, G r (env i r) → R r (env i r) (env' i r))
    (hG : ∀ e ∈ p.log env n, G e.1 e.2) : p.value env' n = p.value env n := by
  induction p generalizing n with
  | done a => rfl
  | ask r k ih =>
    have hn : G r (env n r) := hG (r, env n r) (List.mem_cons_self ..)
    have hk : k (env' n r) = k (env n r) := (hp.1 _ _ (hR n r hn)).symm
    simp only [value, hk]
    exact ih _ (hp.2 _) fun e he => hG e (List.mem_cons_of_mem _ he)

end Rules

end Dialog
