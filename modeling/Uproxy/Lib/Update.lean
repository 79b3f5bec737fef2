import Mathlib.Data.List.Basic

/-!
# Updates that override each other

A state is changed by a list of updates, first to last. Updates with different keys commute, and of
two with the same key the later one prevails (`Overriding`). An update with a later one of its key
is then without effect (`Overriding.foldl_shadowed`), and a list changes nothing if the last update
of each key changes nothing (`Overriding.foldl_fixed`).
-/

namespace Uproxy.Lib.Update

variable {σ ι κ : Type} {app : ι → σ → σ} {key : ι → κ} {P : ι → Prop}

/-- Updates that satisfy `P` override each other by key. -/
structure Overriding (app : ι → σ → σ) (key : ι → κ) (P : ι → Prop) : Prop where
  comm   : ∀ {a b}, P a → P b → key a ≠ key b → ∀ s, app a (app b s) = app b (app a s)
  absorb : ∀ {a b}, P a → P b → key a = key b → ∀ s, app a (app b s) = app a s

/-- The state behind some updates. -/
def applyAll (app : ι → σ → σ) (as : List ι) (s : σ) : σ := as.foldl (fun s a => app a s) s

theorem applyAll_cons (a : ι) (as : List ι) (s : σ) :
    applyAll app (a :: as) s = applyAll app as (app a s) := rfl

namespace Overriding

variable (h : Overriding app key P)

include h

/-- An update with a later one of its key is without effect. -/
theorem foldl_shadowed {a : ι} (ha : P a) : ∀ {bs : List ι}, (∀ b ∈ bs, P b) →
    (∃ b ∈ bs, key b = key a) → ∀ s, applyAll app bs (app a s) = applyAll app bs s
  | [], _, hex, _ => absurd hex (by simp)
  | b :: bs, hP, hex, s => by
    obtain ⟨hb, hbs⟩ := List.forall_mem_cons.mp hP
    rw [applyAll_cons, applyAll_cons]
    by_cases hk : key b = key a
    · rw [h.absorb hb ha hk]
    · have hex' : ∃ b' ∈ bs, key b' = key a := by
        obtain ⟨b', hb', hk'⟩ := hex
        rcases List.mem_cons.mp hb' with rfl | hb'
        · exact absurd hk' hk
        · exact ⟨b', hb', hk'⟩
      rw [h.comm hb ha hk, foldl_shadowed ha hbs hex']

/-- **If the last update of each key changes nothing, the list changes nothing.** -/
theorem foldl_fixed {s : σ} : ∀ {as : List ι}, (∀ a ∈ as, P a) →
    (∀ pre a post, as = pre ++ a :: post → (∀ b ∈ post, key b ≠ key a) → app a s = s) →
      applyAll app as s = s
  | [], _, _ => rfl
  | a :: as, hP, hlast => by
    obtain ⟨ha, has⟩ := List.forall_mem_cons.mp hP
    have ih := foldl_fixed has fun pre b post he hk => hlast (a :: pre) b post (by rw [he]; rfl) hk
    rw [applyAll_cons]
    by_cases hex : ∃ b ∈ as, key b = key a
    · rw [h.foldl_shadowed ha has hex, ih]
    · rw [hlast [] a as rfl fun b hb hk => hex ⟨b, hb, hk⟩, ih]

end Overriding

end Uproxy.Lib.Update
