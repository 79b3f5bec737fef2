import Mathlib.Algebra.BigOperators.Group.List.Basic
import Mathlib.Algebra.Order.Ring.Nat
import Mathlib.Data.List.Perm.Basic

/-!
# Parties that share a resource

Each party, an entry of a list, stands for some number of units of a resource (`weigh`). When one
party changes, the units of all of them change by those of that party: `weigh_eq` and `weigh_set`
put it beside the others.
-/

namespace Uproxy.Lib.Shares

variable {τ : Type}

/-- The units of all parties. -/
def weigh (w : τ → Nat) (ts : List τ) : Nat := (ts.map w).sum

variable {ts : List τ} {i : Nat} {t : τ}

theorem perm_eraseIdx (h : ts[i]? = some t) : ts.Perm (t :: ts.eraseIdx i) := by
  obtain ⟨hi, rfl⟩ := List.getElem?_eq_some_iff.mp h
  exact (List.getElem_cons_eraseIdx_perm hi).symm

theorem set_perm_eraseIdx (h : ts[i]? = some t) (t' : τ) :
    (ts.set i t').Perm (t' :: ts.eraseIdx i) := by
  obtain ⟨hi, -⟩ := List.getElem?_eq_some_iff.mp h
  exact List.set_perm_cons_eraseIdx hi t'

theorem weigh_eq (w : τ → Nat) (h : ts[i]? = some t) :
    weigh w ts = weigh w (ts.eraseIdx i) + w t := by
  unfold weigh
  rw [((perm_eraseIdx h).map w).sum_eq, List.map_cons, List.sum_cons, Nat.add_comm]

theorem weigh_set (w : τ → Nat) (h : ts[i]? = some t) (t' : τ) :
    weigh w (ts.set i t') = weigh w (ts.eraseIdx i) + w t' := by
  unfold weigh
  rw [((set_perm_eraseIdx h t').map w).sum_eq, List.map_cons, List.sum_cons, Nat.add_comm]

/-- A party that changes without its units. -/
theorem weigh_set_eq {w : τ → Nat} {t' : τ} (h : ts[i]? = some t) (heq : w t' = w t) :
    weigh w (ts.set i t') = weigh w ts := by
  rw [weigh_set w h, weigh_eq w h, heq]

end Uproxy.Lib.Shares
