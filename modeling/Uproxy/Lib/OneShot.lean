import Mathlib.Data.List.Basic
import Mathlib.Data.List.Nodup
import Mathlib.Logic.Function.Basic

/-!
# One-shot items

A table hands out numbers, one for each item that is armed. An item leaves the table once: by firing
or by being cancelled. A `Ledger` keeps what was armed and what has gone, and a table settles with
its ledger (`Ledger.Settles`) if the items in it are those that were armed and have not gone.

* `Settles.step`: every step of a table keeps it settled with its ledger;
* `Settles.fires_once`: an item fires at most once, and not behind its cancellation.
-/

namespace Uproxy.Lib.OneShot

variable {κ : Type}

/-- The items that are armed, and the next number. -/
structure Table (κ : Type) where
  next : Nat := 1
  live : Nat → Option κ := fun _ => none

/-- What happens to a table. `skip` uses up a number without an item. -/
inductive Op (κ : Type) where
  | arm (item : κ)
  | skip
  | cancel (id : Nat)
  | fire (id : Nat)

/-- An item that is no longer armed. -/
structure Gone (κ : Type) where
  id    : Nat
  item  : κ
  fired : Bool

/-- What has happened to the items so far. -/
structure Ledger (κ : Type) where
  armed : List (Nat × κ) := []
  gone  : List (Gone κ) := []

namespace Table

def step (t : Table κ) : Op κ → Table κ
  | .arm item => ⟨t.next + 1, Function.update t.live t.next (some item)⟩
  | .skip => { t with next := t.next + 1 }
  | .cancel id => { t with live := Function.update t.live id none }
  | .fire id => { t with live := Function.update t.live id none }

end Table

namespace Ledger

/-- An item leaves the table, if it is in it. -/
def leave (g : Ledger κ) (t : Table κ) (id : Nat) (fired : Bool) : Ledger κ :=
  match t.live id with
  | none => g
  | some item => { g with gone := g.gone ++ [⟨id, item, fired⟩] }

/-- What a step adds to the ledger. -/
def record (g : Ledger κ) (t : Table κ) : Op κ → Ledger κ
  | .arm item => { g with armed := g.armed ++ [(t.next, item)] }
  | .skip => g
  | .cancel id => g.leave t id false
  | .fire id => g.leave t id true

/-- The items that have fired. -/
def fired (g : Ledger κ) : List (Gone κ) := g.gone.filter Gone.fired

/-- **The table settles with the ledger.** -/
structure Settles (g : Ledger κ) (t : Table κ) : Prop where
  armed_lt    : ∀ p ∈ g.armed, p.1 < t.next
  armed_nodup : (g.armed.map Prod.fst).Nodup
  gone_nodup  : (g.gone.map Gone.id).Nodup
  gone_armed  : ∀ x ∈ g.gone, (x.id, x.item) ∈ g.armed
  live_iff    : ∀ id item, t.live id = some item ↔
    (id, item) ∈ g.armed ∧ id ∉ g.gone.map Gone.id

theorem settles_new : Settles ({} : Ledger κ) {} where
  armed_lt := by simp
  armed_nodup := List.nodup_nil
  gone_nodup := List.nodup_nil
  gone_armed := by simp
  live_iff := by simp

namespace Settles

variable {g : Ledger κ} {t : Table κ}

/-- The next number is not in use. -/
theorem next_unused (h : g.Settles t) :
    t.next ∉ g.armed.map Prod.fst ∧ t.next ∉ g.gone.map Gone.id := by
  have harmed : t.next ∉ g.armed.map Prod.fst := by
    intro hmem
    obtain ⟨p, hp, heq⟩ := List.mem_map.mp hmem
    exact Nat.lt_irrefl _ (heq ▸ h.armed_lt p hp)
  refine ⟨harmed, fun hmem => ?_⟩
  obtain ⟨x, hx, heq⟩ := List.mem_map.mp hmem
  exact harmed (heq ▸ List.mem_map_of_mem (h.gone_armed x hx))

theorem arm (h : g.Settles t) (item : κ) :
    (g.record t (.arm item)).Settles (t.step (.arm item)) := by
  obtain ⟨harmed, hgone⟩ := h.next_unused
  refine ⟨fun p hp => ?_, ?_, h.gone_nodup, fun x hx => ?_, fun id it => ?_⟩
  · rcases List.mem_append.mp hp with hp | hp
    · exact Nat.lt_succ_of_lt (h.armed_lt p hp)
    · rw [List.mem_singleton.mp hp]
      exact Nat.lt_succ_self _
  · rw [record, List.map_append, List.map_singleton, ← List.concat_eq_append]
    exact h.armed_nodup.concat harmed
  · exact List.mem_append_left _ (h.gone_armed x hx)
  · simp only [record, Table.step, List.mem_append, List.mem_singleton, Prod.mk.injEq]
    by_cases hid : id = t.next
    · subst hid
      have hout : (t.next, it) ∉ g.armed := fun hm => harmed (List.mem_map_of_mem hm)
      simp [hout, hgone, eq_comm]
    · rw [Function.update_of_ne hid, h.live_iff]
      simp [hid]

theorem skip (h : g.Settles t) : (g.record t .skip).Settles (t.step .skip) :=
  { h with armed_lt := fun p hp => Nat.lt_succ_of_lt (h.armed_lt p hp) }

theorem leave (h : g.Settles t) (id : Nat) (fired : Bool) :
    (g.leave t id fired).Settles { t with live := Function.update t.live id none } := by
  unfold Ledger.leave
  cases hlive : t.live id with
  | none =>
    have hsame : Function.update t.live id none = t.live := by
      rw [← hlive, Function.update_eq_self]
    simp only [hsame]
    exact h
  | some item =>
    obtain ⟨hmem, hnot⟩ := (h.live_iff id item).mp hlive
    refine ⟨h.armed_lt, h.armed_nodup, ?_, fun x hx => ?_, fun i it => ?_⟩
    · rw [List.map_append, List.map_singleton, ← List.concat_eq_append]
      exact h.gone_nodup.concat hnot
    · rcases List.mem_append.mp hx with hx | hx
      · exact h.gone_armed x hx
      · rw [List.mem_singleton.mp hx]
        exact hmem
    · by_cases hi : i = id
      · subst hi
        simp
      · simp only [Function.update_of_ne hi, List.map_append, List.mem_append]
        rw [h.live_iff]
        simp [hi]

/-- **Every step keeps the table settled.** -/
theorem step (h : g.Settles t) (op : Op κ) : (g.record t op).Settles (t.step op) := by
  cases op with
  | arm item => exact h.arm item
  | skip => exact h.skip
  | cancel id => exact h.leave id false
  | fire id => exact h.leave id true

/-- **An item fires at most once**, and then it was armed and is not in the table any more. -/
theorem fires_once (h : g.Settles t) :
    (g.fired.map Gone.id).Nodup ∧
      ∀ x ∈ g.fired, (x.id, x.item) ∈ g.armed ∧ t.live x.id = none ∧
        ∀ y ∈ g.gone, y.id = x.id → y.fired = true := by
  refine ⟨(List.filter_sublist.map _).nodup h.gone_nodup, fun x hx => ?_⟩
  obtain ⟨hgone, hfired⟩ := List.mem_filter.mp hx
  refine ⟨h.gone_armed x hgone, ?_, fun y hy heq => ?_⟩
  · cases hlive : t.live x.id with
    | none => rfl
    | some item => exact absurd (List.mem_map_of_mem hgone) ((h.live_iff _ _).mp hlive).2
  · rw [List.inj_on_of_nodup_map h.gone_nodup hy hgone heq]
    exact hfired

end Settles

end Ledger

end Uproxy.Lib.OneShot
