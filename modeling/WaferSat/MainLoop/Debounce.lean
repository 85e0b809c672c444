import WaferSat.Foundation.BoolRuns
import WaferSat.MainLoop.Machine
import Mathlib.Data.List.Induction
import Mathlib.Order.Nat

/-!
The debouncing of the card contact. One counter holds both the debounced state (zero once the
card counts as inserted) and the progress towards it, and it can be read off the answers seen so
far: it is what is missing of ten answers in a row.
-/
namespace WaferSat.MainLoop
open GuardedRun BoolRuns

inductive CardEvent where
  | inserted | removed
  deriving DecidableEq, Repr

/-- What a call of `tmrfunc` broadcasts: the bit it sets on a main thread with nothing pending. -/
def Main.broadcast (s : Main) (blkIsInserted : Bool) : Option CardEvent :=
  let t := { s with inserted := false, removed := false }.tmrfunc blkIsInserted
  if t.inserted then some .inserted else if t.removed then some .removed else none

/-- The state after successive calls with these answers. -/
def Main.polled (s : Main) (bs : List Bool) : Main := bs.foldl (fun s b => s.tmrfunc b) s

/-- The broadcasts of successive calls. -/
def Main.broadcasts : Main → List Bool → List (Option CardEvent)
  | _, [] => []
  | s, b :: bs => s.broadcast b :: broadcasts (s.tmrfunc b) bs

variable {s : Main} {bs : List Bool} {b : Bool} {i : ℕ}

theorem tmrfunc_cnt (s : Main) (b : Bool) :
    (s.tmrfunc b).cnt = if b then s.cnt - 1 else pollingInterval := by
  rw [tmrfunc_eq]

theorem broadcast_eq (s : Main) (b : Bool) : s.broadcast b =
    if b then (if s.cnt = 1 then some .inserted else none)
    else if s.cnt = 0 then some .removed else none := by
  rw [Main.broadcast, tmrfunc_eq]
  cases b <;> simp

theorem polled_append_singleton (s : Main) (bs : List Bool) (b : Bool) :
    s.polled (bs ++ [b]) = (s.polled bs).tmrfunc b := by
  simp [Main.polled]

/-- The counter holds what is missing of ten answers in a row. -/
theorem polled_cnt (bs : List Bool) :
    (Main.boot.polled bs).cnt = pollingInterval - trailing bs := by
  induction bs using List.reverseRecOn with
  | nil => rfl
  | append_singleton bs b ih =>
    rw [polled_append_singleton, tmrfunc_cnt, ih, trailing_append_singleton]
    cases b with
    | true =>
      simp only [↓reduceIte]
      omega
    | false => rfl

theorem broadcasts_append_singleton (s : Main) (bs : List Bool) (b : Bool) :
    s.broadcasts (bs ++ [b]) = s.broadcasts bs ++ [(s.polled bs).broadcast b] := by
  induction bs generalizing s with
  | nil => rfl
  | cons c bs ih =>
    simp only [List.cons_append, Main.broadcasts, ih]
    rfl

theorem broadcasts_getElem? (s : Main) (bs : List Bool) (i : ℕ) :
    (s.broadcasts bs)[i]? = bs[i]?.map fun b => (s.polled (bs.take i)).broadcast b := by
  induction bs generalizing s i with
  | nil => simp [Main.broadcasts]
  | cons c bs ih =>
    cases i with
    | zero => rfl
    | succ i =>
      simp only [Main.broadcasts, List.getElem?_cons_succ, ih]
      rfl

theorem broadcasts_eq_some {ev : CardEvent} :
    (Main.boot.broadcasts bs)[i]? = some (some ev) ↔
      (ev = .inserted ∧ bs[i]? = some true ∧ trailing (bs.take i) + 1 = pollingInterval) ∨
      (ev = .removed ∧ bs[i]? = some false ∧ pollingInterval ≤ trailing (bs.take i)) := by
  rw [broadcasts_getElem?, Option.map_eq_some_iff]
  simp only [broadcast_eq, polled_cnt]
  constructor
  · rintro ⟨b, hb, hev⟩
    cases b with
    | true =>
      simp only [↓reduceIte, Option.ite_none_right_eq_some, Option.some.injEq] at hev
      exact .inl ⟨hev.2.symm, hb, by omega⟩
    | false =>
      simp only [Bool.false_eq_true, ↓reduceIte, Option.ite_none_right_eq_some,
        Option.some.injEq] at hev
      exact .inr ⟨hev.2.symm, hb, by omega⟩
  · rintro (⟨rfl, hb, hk⟩ | ⟨rfl, hb, hk⟩)
    · exact ⟨true, hb, by simp only [↓reduceIte]; rw [if_pos (by omega)]⟩
    · refine ⟨false, hb, ?_⟩
      simp only [Bool.false_eq_true, ↓reduceIte]
      rw [if_pos (by omega)]

def Main.eventsOf (s : Main) (bs : List Bool) : List CardEvent := (s.broadcasts bs).filterMap id

def alternating (n : ℕ) : List CardEvent :=
  (List.range n).map fun k => if k % 2 = 0 then .inserted else .removed

theorem eventsOf_append_singleton (s : Main) (bs : List Bool) (b : Bool) :
    s.eventsOf (bs ++ [b]) = s.eventsOf bs ++ ((s.polled bs).broadcast b).toList := by
  rw [Main.eventsOf, broadcasts_append_singleton, List.filterMap_append]
  cases (s.polled bs).broadcast b <;> rfl

theorem alternating_succ (n : ℕ) :
    alternating (n + 1) = alternating n ++ [if n % 2 = 0 then .inserted else .removed] := by
  rw [alternating, List.range_succ, List.map_append, List.map_singleton, alternating]

/-- The counter is zero exactly when the last event was an insertion. -/
theorem eventsOf_alternating (bs : List Bool) :
    Main.boot.eventsOf bs = alternating (Main.boot.eventsOf bs).length ∧
    ((Main.boot.polled bs).cnt = 0 ↔ (Main.boot.eventsOf bs).length % 2 = 1) := by
  induction bs using List.reverseRecOn with
  | nil => exact ⟨rfl, by decide⟩
  | append_singleton bs b ih =>
    obtain ⟨halt, hcnt⟩ := ih
    rw [polled_append_singleton, tmrfunc_cnt, eventsOf_append_singleton, broadcast_eq]
    generalize Main.boot.eventsOf bs = events at halt hcnt
    have hgrow (ev : CardEvent)
        (hturn : ev = if events.length % 2 = 0 then .inserted else .removed) :
        events ++ [ev] = alternating (events ++ [ev]).length := by
      rw [List.length_append, List.length_singleton, alternating_succ, ← halt, hturn]
    have h10 : pollingInterval ≠ 0 := by decide
    cases b with
    | true =>
      simp only [↓reduceIte]
      split_ifs with h1
      · refine ⟨hgrow _ (by rw [if_pos (by omega)]), ?_⟩
        rw [Option.toList_some, List.length_append, List.length_singleton]
        omega
      · rw [Option.toList_none, List.append_nil]
        exact ⟨halt, by omega⟩
    | false =>
      simp only [Bool.false_eq_true, ↓reduceIte]
      split_ifs with h0
      · refine ⟨hgrow _ (by rw [if_neg (by omega)]), ?_⟩
        rw [Option.toList_some, List.length_append, List.length_singleton]
        omega
      · rw [Option.toList_none, List.append_nil]
        exact ⟨halt, by omega⟩

theorem inserted_iff (bs : List Bool) (i : ℕ) :
    (Main.boot.broadcasts bs)[i]? = some (some .inserted) ↔
      ∃ s e, MaximalRun bs s e ∧ s + pollingInterval ≤ e ∧ i + 1 = s + pollingInterval := by
  rw [broadcasts_eq_some]
  constructor
  · rintro (⟨-, hb, hk⟩ | ⟨h, -⟩)
    · obtain ⟨hi, -⟩ := List.getElem?_eq_some_iff.mp hb
      obtain ⟨s, hopen⟩ := exists_open hi.le
      obtain ⟨e, he, hrun⟩ := hopen.exists_end hb
      have htr := hopen.trailing_eq
      have hle := hopen.le
      exact ⟨s, e, hrun, by omega, by omega⟩
    · cases h
  · rintro ⟨s, e, hrun, hlong, hi⟩
    have h10 : 0 < pollingInterval := by decide
    have htr := (hrun.open (i := i) (by omega) (by omega)).trailing_eq
    exact .inl ⟨rfl, hrun.inside i (by omega) (by omega), by omega⟩

theorem removed_iff (bs : List Bool) (i : ℕ) :
    (Main.boot.broadcasts bs)[i]? = some (some .removed) ↔
      ∃ s, MaximalRun bs s i ∧ s + pollingInterval ≤ i ∧ i < bs.length := by
  rw [broadcasts_eq_some]
  constructor
  · rintro (⟨h, -⟩ | ⟨-, hb, hk⟩)
    · cases h
    · obtain ⟨hi, -⟩ := List.getElem?_eq_some_iff.mp hb
      obtain ⟨s, hopen⟩ := exists_open hi.le
      have h10 : 0 < pollingInterval := by decide
      have htr := hopen.trailing_eq
      exact ⟨s, ⟨by omega, hi.le, hopen.inside, hopen.before, .inr hb⟩, by omega, hi⟩
  · rintro ⟨s, hrun, hlong, hi⟩
    have htr := (hrun.open hrun.lt.le le_rfl).trailing_eq
    exact .inr ⟨rfl, hrun.after.resolve_left hi.ne, by omega⟩

theorem no_broadcast_in_short_run {start e : ℕ} (hrun : MaximalRun bs start e)
    (hshort : e < start + pollingInterval) (hs : start ≤ i) (he : i ≤ e) (ev : CardEvent) :
    (Main.boot.broadcasts bs)[i]? ≠ some (some ev) := by
  rw [Ne, broadcasts_eq_some]
  have htr := (hrun.open hs he).trailing_eq
  rintro (⟨-, hb, hk⟩ | ⟨-, -, hk⟩)
  · rcases Nat.lt_or_eq_of_le he with hlt | rfl
    · omega
    · rcases hrun.after with hend | hfalse
      · rw [hend, List.getElem?_eq_none le_rfl] at hb
        cases hb
      · rw [hfalse] at hb
        cases hb
  · omega

/-- The debouncing of the card contact: an insertion is reported at the tenth answer of each long
enough run, a removal at the first answer after such a run, and nothing else. -/
theorem card_debounced (bs : List Bool) :
    (∀ i, (Main.boot.broadcasts bs)[i]? = some (some .inserted) ↔
      ∃ s e, MaximalRun bs s e ∧ s + pollingInterval ≤ e ∧ i + 1 = s + pollingInterval) ∧
    (∀ i, (Main.boot.broadcasts bs)[i]? = some (some .removed) ↔
      ∃ s, MaximalRun bs s i ∧ s + pollingInterval ≤ i ∧ i < bs.length) ∧
    Main.boot.eventsOf bs = alternating (Main.boot.eventsOf bs).length ∧
    (∀ s e, MaximalRun bs s e → e < s + pollingInterval → ∀ i, s ≤ i → i ≤ e → ∀ ev,
      (Main.boot.broadcasts bs)[i]? ≠ some (some ev)) ∧
    (Main.boot.polled bs).cnt ≤ pollingInterval := by
  refine ⟨inserted_iff bs, removed_iff bs, (eventsOf_alternating bs).1, ?_, ?_⟩
  · intro s e hrun hshort i hs he ev
    exact no_broadcast_in_short_run hrun hshort hs he ev
  · rw [polled_cnt]
    omega

def answersOf (acts : List Act) : List Bool :=
  acts.filterMap fun
    | .tick b => some b
    | _ => none

theorem step_cnt {t : Main} {a : Act} (ht : step s a = some t) :
    (∃ b, a = .tick b ∧ t = s.tmrfunc b) ∨ ((∀ b, a ≠ .tick b) ∧ t.cnt = s.cnt) := by
  have hrelease (tp : ℕ) : (s.releaseShell tp).cnt = s.cnt := rfl
  cases a with
  | tick b => exact .inl ⟨b, rfl, (Option.some.inj ht).symm⟩
  | main ok =>
    refine .inr ⟨by simp, ?_⟩
    rcases mainStep_cases ht with ⟨-, rfl⟩ | ⟨-, rfl⟩ | ⟨_, _, -, rfl⟩ | ⟨-, tp, -, rfl⟩
    · unfold Main.pollShell
      dsimp only
      split <;> split_ifs <;> rfl
    · unfold Main.dispatch
      split_ifs <;> rfl
    · rfl
    · dsimp only
      split_ifs <;> rfl
  | exit tp =>
    refine .inr ⟨by simp, ?_⟩
    obtain ⟨-, -, -, rfl⟩ := shellExit_cases ht
    rfl

theorem polled_cnt_congr {t : Main} (h : t.cnt = s.cnt) (bs : List Bool) :
    (t.polled bs).cnt = (s.polled bs).cnt := by
  induction bs generalizing s t with
  | nil => exact h
  | cons b bs ih =>
    apply ih
    rw [tmrfunc_cnt, tmrfunc_cnt, h]

/-- What a tick broadcasts in a run of the whole system depends on the answers alone. -/
theorem run_broadcast {t : Main} {acts : List Act} (hr : run step s acts = some t) (b : Bool) :
    t.broadcast b = (s.polled (answersOf acts)).broadcast b := by
  have hcnt : t.cnt = (s.polled (answersOf acts)).cnt := by
    induction acts generalizing s with
    | nil => exact congrArg Main.cnt (Option.some.inj hr).symm
    | cons a acts ih =>
      obtain ⟨u, hu, hr⟩ := run_cons_eq_some.mp hr
      rcases step_cnt hu with ⟨c, rfl, rfl⟩ | ⟨hno, hsame⟩
      · exact ih hr
      · have hskip : answersOf (a :: acts) = answersOf acts := by
          cases a with
          | tick c => exact absurd rfl (hno c)
          | main ok => rfl
          | exit tp => rfl
        rw [hskip, ih hr, polled_cnt_congr hsame]
  rw [broadcast_eq, broadcast_eq, hcnt]

end WaferSat.MainLoop
