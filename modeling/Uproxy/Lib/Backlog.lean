import Mathlib.Data.List.Basic

/-!
# A queue that is served one item at a time

In every turn some items arrive, and in some turns one of the items waiting is served. `served` are
the items served, in order, and `waiting` those left.

* `served_append_waiting`: nothing is lost, doubled or reordered;
* **`waiting_eq_nil_iff`**: nothing is left exactly if, counted from any turn to the last, no more
  items arrive than there are turns that serve.
-/

namespace Uproxy.Lib.Backlog

variable {τ α : Type} (serves : τ → Bool) (arrivals : τ → List α)

/-- The items left behind some turns. -/
def waiting : List α → List τ → List α
  | q, [] => q
  | q, t :: ts =>
    waiting (if serves t then (q ++ arrivals t).tail else q ++ arrivals t) ts

/-- The items served in some turns. -/
def served : List α → List τ → List α
  | _, [] => []
  | q, t :: ts =>
    if serves t then (q ++ arrivals t).head?.toList ++ served (q ++ arrivals t).tail ts
    else served (q ++ arrivals t) ts

variable {serves arrivals}

theorem served_append_waiting (q : List α) (ts : List τ) :
    served serves arrivals q ts ++ waiting serves arrivals q ts = q ++ ts.flatMap arrivals := by
  induction ts generalizing q with
  | nil => rw [List.flatMap_nil, List.append_nil]; rfl
  | cons t ts ih =>
    rw [served, waiting, List.flatMap_cons, ← List.append_assoc]
    cases serves t with
    | false => exact ih _
    | true =>
      have hsplit : (q ++ arrivals t).head?.toList ++ (q ++ arrivals t).tail = q ++ arrivals t := by
        cases q ++ arrivals t <;> rfl
      simp only [if_true, List.append_assoc]
      rw [ih, ← List.append_assoc, hsplit, List.append_assoc]

/-- No more items arrive from any turn on than are served. -/
def Keeps (serves : τ → Bool) (arrivals : τ → List α) (ts : List τ) : Prop :=
  ∀ tail, tail <:+ ts → (tail.flatMap arrivals).length ≤ (tail.filter serves).length

theorem keeps_cons {t : τ} {ts : List τ} :
    Keeps serves arrivals (t :: ts) ↔
      (arrivals t).length + (ts.flatMap arrivals).length ≤ ((t :: ts).filter serves).length ∧
        Keeps serves arrivals ts := by
  unfold Keeps
  constructor
  · intro h
    have hall := h (t :: ts) (List.suffix_refl _)
    rw [List.flatMap_cons, List.length_append] at hall
    exact ⟨hall, fun tail ht => h tail (ht.trans (List.suffix_cons t ts))⟩
  · rintro ⟨hall, h⟩ tail ht
    rcases List.suffix_cons_iff.mp ht with rfl | ht
    · rw [List.flatMap_cons, List.length_append]
      exact hall
    · exact h tail ht

theorem waiting_eq_nil (q : List α) (ts : List τ) :
    waiting serves arrivals q ts = [] ↔
      q.length + (ts.flatMap arrivals).length ≤ (ts.filter serves).length ∧
        Keeps serves arrivals ts := by
  induction ts generalizing q with
  | nil =>
    have hkeeps : Keeps serves arrivals [] := fun tail ht => by
      rw [List.suffix_nil.mp ht]
      exact Nat.le_refl _
    simp [waiting, hkeeps]
  | cons t ts ih =>
    have hself : Keeps serves arrivals ts →
        (ts.flatMap arrivals).length ≤ (ts.filter serves).length := fun h =>
      h ts (List.suffix_refl ts)
    rw [waiting, ih, keeps_cons, List.flatMap_cons]
    cases ht : serves t with
    | false =>
      simp only [Bool.false_eq_true, if_false, List.length_append, List.filter_cons, ht]
      constructor
      · rintro ⟨h1, h2⟩
        exact ⟨by omega, by omega, h2⟩
      · rintro ⟨h1, -, h2⟩
        exact ⟨by omega, h2⟩
    | true =>
      simp only [if_true, List.length_tail, List.length_append, List.filter_cons, ht,
        List.length_cons]
      constructor
      · rintro ⟨h1, h2⟩
        exact ⟨by omega, by omega, h2⟩
      · rintro ⟨h1, -, h2⟩
        have := hself h2
        exact ⟨by omega, h2⟩

/-- **When nothing is left.** -/
theorem waiting_eq_nil_iff (ts : List τ) :
    waiting serves arrivals [] ts = [] ↔ Keeps serves arrivals ts := by
  rw [waiting_eq_nil]
  refine ⟨fun h => h.2, fun h => ⟨?_, h⟩⟩
  rw [List.length_nil, Nat.zero_add]
  exact h ts (List.suffix_refl ts)

end Uproxy.Lib.Backlog
