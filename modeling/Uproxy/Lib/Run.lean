import Mathlib.Data.List.Basic
import Mathlib.Data.List.Induction

/-!
# Runs of a step function

A run applies a step function to a list of inputs. An invariant that every step preserves holds
after a run (`run_inv`); a quantity that every step raises by a known amount is after a run what it
was before plus the amounts of the steps (`run_account`), so it never moves exactly when no step
moves it (`cost_eq_zero_iff`). What every step but the bad ones keeps holds throughout exactly when
no step is bad (`run_always_iff`). A step that may fail stops the run (`runM_inv`, `foldlM_inv`),
the first one that does (`foldlM_error_iff`). A run whose steps are runs of smaller steps is a run
of these (`run_smallSteps`).
-/

namespace Uproxy.Lib.Run

variable {σ α : Type} (step : σ → α → σ)

/-- The state after a run. -/
def run (s : σ) (as : List α) : σ := as.foldl step s

variable {step}

theorem run_inv {P : σ → Prop} (hstep : ∀ s a, P s → P (step s a)) : ∀ {s : σ} (as : List α),
    P s → P (run step s as)
  | _, [], h => h
  | s, a :: as, h => run_inv hstep as (hstep s a h)

theorem run_concat (s : σ) (as : List α) (a : α) :
    run step s (as ++ [a]) = step (run step s as) a := by
  rw [run, List.foldl_append]
  rfl

/-- What holds of every step of a run, with the last one apart. -/
theorem forall_prefix_concat {Q : List α → α → Prop} {as : List α} {b : α} :
    (∀ pre a, pre ++ [a] <+: as ++ [b] → Q pre a) ↔
      (∀ pre a, pre ++ [a] <+: as → Q pre a) ∧ Q as b := by
  refine ⟨fun h => ⟨fun pre a hpre => h pre a (hpre.trans (List.prefix_append _ _)),
    h as b (List.prefix_refl _)⟩, fun ⟨h, hb⟩ pre a hpre => ?_⟩
  rcases List.prefix_concat_iff.mp hpre with he | hpre
  · obtain ⟨rfl, hab⟩ := List.append_inj' he rfl
    obtain rfl : a = b := by simpa using hab
    exact hb
  · exact h pre a hpre

/-- If a step keeps `Q` exactly when it is not `bad`, then `Q` holds at every moment of a run
exactly when none of its steps is bad. -/
theorem run_always_iff {Q : σ → Prop} {bad : σ → α → Prop}
    (hstep : ∀ s a, Q s → (Q (step s a) ↔ ¬ bad s a)) {s : σ} {as : List α} (h0 : Q s) :
    (∀ pre, pre <+: as → Q (run step s pre)) ↔
      ∀ pre a, pre ++ [a] <+: as → ¬ bad (run step s pre) a := by
  constructor
  · intro h pre a hpre
    have hq := h (pre ++ [a]) hpre
    rw [run_concat] at hq
    exact (hstep _ a (h pre ((List.prefix_append pre [a]).trans hpre))).mp hq
  · intro h pre
    induction pre using List.reverseRecOn with
    | nil => exact fun _ => h0
    | append_singleton pre a ih =>
      intro hpre
      rw [run_concat]
      exact (hstep _ a (ih ((List.prefix_append pre [a]).trans hpre))).mpr (h pre a hpre)

variable (step) (g : σ → α → Nat)

/-- What a run costs, when the step on `a` from `s` costs `g s a`. -/
def cost : σ → List α → Nat
  | _, [] => 0
  | s, a :: as => g s a + cost (step s a) as

variable {step g}

/-- **Accounting.** `A s n` reads the balance `n` off the state. -/
theorem run_account {A : σ → Nat → Prop} (hstep : ∀ s n a, A s n → A (step s a) (n + g s a)) :
    ∀ {s : σ} {n : Nat} (as : List α), A s n → A (run step s as) (n + cost step g s as)
  | _, _, [], h => h
  | s, n, a :: as, h => by
    have := run_account hstep as (hstep s n a h)
    rwa [Nat.add_assoc] at this

theorem cost_add (g g' : σ → α → Nat) : ∀ (s : σ) (as : List α),
    cost step (fun s a => g s a + g' s a) s as = cost step g s as + cost step g' s as
  | _, [] => rfl
  | s, a :: as => by
    simp only [cost, cost_add g g' (step s a) as]
    omega

theorem cost_le {g g' : σ → α → Nat} (h : ∀ s a, g s a ≤ g' s a) : ∀ (s : σ) (as : List α),
    cost step g s as ≤ cost step g' s as
  | _, [] => Nat.le_refl 0
  | s, a :: as => Nat.add_le_add (h s a) (cost_le h (step s a) as)

/-- A run is free at every moment exactly when each of its steps is. -/
theorem cost_eq_zero_iff : ∀ {s : σ} {as : List α},
    (∀ pre, pre <+: as → cost step g s pre = 0) ↔
      ∀ pre a, pre ++ [a] <+: as → g (run step s pre) a = 0
  | s, [] => by
    constructor
    · intro _ pre a h
      exact absurd (List.prefix_nil.mp h) (by simp)
    · intro _ pre h
      rw [List.prefix_nil.mp h]
      rfl
  | s, b :: as => by
    constructor
    · intro h pre a hpre
      cases pre with
      | nil =>
        obtain rfl : a = b := by simpa using hpre
        exact h [a] hpre
      | cons x pre =>
        obtain ⟨rfl, htail⟩ := List.cons_prefix_cons.mp hpre
        refine cost_eq_zero_iff.mp (fun q hq => ?_) pre a htail
        exact (Nat.add_eq_zero_iff.mp (h (x :: q) (List.cons_prefix_cons.mpr ⟨rfl, hq⟩))).2
    · intro h pre hpre
      cases pre with
      | nil => rfl
      | cons x pre =>
        obtain ⟨rfl, htail⟩ := List.cons_prefix_cons.mp hpre
        have h0 : g s x = 0 := h [] x (by simp)
        have hrest := cost_eq_zero_iff.mpr
          (fun q a hq => h (x :: q) a (List.cons_prefix_cons.mpr ⟨rfl, hq⟩)) pre htail
        exact Nat.add_eq_zero_iff.mpr ⟨h0, hrest⟩

/-- The state after a run whose steps may fail. -/
def runM (step : σ → α → Option σ) : σ → List α → Option σ
  | s, [] => some s
  | s, a :: as => (step s a).bind fun s' => runM step s' as

theorem runM_cons {step : σ → α → Option σ} {s s' : σ} {a : α} (h : step s a = some s')
    (as : List α) : runM step s (a :: as) = runM step s' as := by
  rw [runM, h, Option.bind_some]

theorem runM_concat (step : σ → α → Option σ) (a : α) : ∀ (s : σ) (as : List α),
    runM step s (as ++ [a]) = (runM step s as).bind fun s' => step s' a
  | s, [] => by
    simp only [List.nil_append, runM, Option.bind_fun_some, Option.bind_some]
  | s, b :: as => by
    simp only [List.cons_append, runM, Option.bind_assoc, runM_concat step a _ as]

theorem runM_inv {step : σ → α → Option σ} {P : σ → Prop}
    (hstep : ∀ s a s', P s → step s a = some s' → P s') :
    ∀ {s s' : σ} (as : List α), P s → runM step s as = some s' → P s'
  | _, _, [], h, hr => by
    cases hr
    exact h
  | s, s', a :: as, h, hr => by
    obtain ⟨t, ht, hr⟩ := Option.bind_eq_some_iff.mp hr
    exact runM_inv hstep as (hstep s a t h ht) hr

/-- A run that stops at an error. -/
theorem foldlM_inv {ε : Type} {step : σ → α → Except ε σ} {P : σ → Prop}
    (hstep : ∀ s a s', P s → step s a = .ok s' → P s') :
    ∀ {s s' : σ} (as : List α), P s → as.foldlM step s = .ok s' → P s'
  | _, _, [], h, hr => by
    cases hr
    exact h
  | s, s', a :: as, h, hr => by
    rw [List.foldlM_cons] at hr
    cases ht : step s a with
    | error e =>
      rw [ht] at hr
      cases hr
    | ok t =>
      rw [ht] at hr
      exact foldlM_inv hstep as (hstep s a t h ht) hr

/-- **Where a run stops**: at the first step that fails. -/
theorem foldlM_error_iff {ε : Type} {step : σ → α → Except ε σ} {e : ε} :
    ∀ {s : σ} {as : List α}, as.foldlM step s = .error e ↔
      ∃ pre a post t, as = pre ++ a :: post ∧ pre.foldlM step s = .ok t ∧ step t a = .error e
  | s, [] => by
    constructor
    · intro h
      cases h
    · rintro ⟨pre, a, post, t, h, -⟩
      exact absurd h (by simp)
  | s, b :: as => by
    rw [List.foldlM_cons]
    cases hb : step s b with
    | error e' =>
      constructor
      · intro h
        cases h
        exact ⟨[], b, as, s, rfl, rfl, hb⟩
      · rintro ⟨pre, a, post, t, h, hpre, ha⟩
        cases pre with
        | nil =>
          cases hpre
          obtain ⟨rfl, -⟩ := List.cons.inj h
          rw [hb] at ha
          exact ha
        | cons c pre =>
          obtain ⟨rfl, -⟩ := List.cons.inj h
          rw [List.foldlM_cons, hb] at hpre
          cases hpre
    | ok u =>
      show as.foldlM step u = .error e ↔ _
      rw [foldlM_error_iff]
      constructor
      · rintro ⟨pre, a, post, t, rfl, hpre, ha⟩
        refine ⟨b :: pre, a, post, t, rfl, ?_, ha⟩
        rw [List.foldlM_cons, hb]
        exact hpre
      · rintro ⟨pre, a, post, t, h, hpre, ha⟩
        cases pre with
        | nil =>
          cases hpre
          obtain ⟨rfl, -⟩ := List.cons.inj h
          rw [hb] at ha
          cases ha
        | cons c pre =>
          obtain ⟨rfl, rfl⟩ := List.cons.inj h
          rw [List.foldlM_cons, hb] at hpre
          exact ⟨pre, a, post, t, rfl, hpre, ha⟩

section SmallSteps

variable {β : Type} (step : σ → α → σ) (ops : σ → α → List β)

/-- The small steps of a run, when the step on `a` from `s` is made of the steps `ops s a`. -/
def smallSteps : σ → List α → List β
  | _, [] => []
  | s, a :: as => ops s a ++ smallSteps (step s a) as

variable {step ops} {small : σ → β → σ}

theorem smallSteps_concat (a : α) : ∀ (s : σ) (as : List α),
    smallSteps step ops s (as ++ [a]) = smallSteps step ops s as ++ ops (run step s as) a
  | s, [] => List.append_nil (ops s a)
  | s, b :: as => by
    rw [List.cons_append, smallSteps, smallSteps, smallSteps_concat a (step s b) as,
      List.append_assoc]
    rfl

theorem run_smallSteps (h : ∀ s a, step s a = run small s (ops s a)) : ∀ (s : σ) (as : List α),
    run step s as = run small s (smallSteps step ops s as)
  | _, [] => rfl
  | s, a :: as => by
    have hsplit : run small s (ops s a ++ smallSteps step ops (step s a) as) =
        run small (run small s (ops s a)) (smallSteps step ops (step s a) as) :=
      List.foldl_append
    rw [smallSteps, hsplit, ← h]
    exact run_smallSteps h (step s a) as

end SmallSteps

end Uproxy.Lib.Run
