import Mathlib.Data.List.Basic

/-!
# Quoted strings

An element that may not stand in a quoted string is written as a mark and a code for it
(`escape`). A reader goes up to the first quote that is not behind a mark (`unquote`); it refuses an
element that is neither escaped nor plain.

* **`unquote_escape`**: an escaped string is read back, whatever follows its quote, unless it holds
  an element that is neither plain nor has a code;
* `takeWhile_escape`: to cut an escaped string is to escape the cut one;
* `mem_escape`: what stands in an escaped string.
-/

namespace Uproxy.Lib.Escape

/-- A way to write strings between quotes. -/
structure Escaping (α : Type) where
  mark  : α
  quote : α
  /-- What is written behind the mark for an element, if it is escaped. -/
  code : α → Option α
  decode : α → Option α
  /-- What a reader takes for itself. -/
  plain : α → Bool
  mark_ne_quote : mark ≠ quote
  code_mark : code mark ≠ none
  code_quote : code quote ≠ none
  decode_code : ∀ {a b}, code a = some b → decode b = some a

namespace Escaping

variable {α : Type} (e : Escaping α)

def escape (s : List α) : List α :=
  s.flatMap fun a =>
    match e.code a with
    | some b => [e.mark, b]
    | none => [a]

theorem escape_cons_some {a b : α} (h : e.code a = some b) (s : List α) :
    e.escape (a :: s) = e.mark :: b :: e.escape s := by
  rw [escape, List.flatMap_cons, h]
  rfl

theorem escape_cons_none {a : α} (h : e.code a = none) (s : List α) :
    e.escape (a :: s) = a :: e.escape s := by
  rw [escape, List.flatMap_cons, h]
  rfl

/-- What stands in an escaped string. -/
theorem mem_escape {s : List α} {x : α} (h : x ∈ e.escape s) :
    (x ∈ s ∧ e.code x = none) ∨ x = e.mark ∨ ∃ a ∈ s, e.code a = some x := by
  obtain ⟨a, ha, hx⟩ := List.mem_flatMap.mp h
  cases hc : e.code a with
  | none =>
    rw [hc, List.mem_singleton] at hx
    subst hx
    exact Or.inl ⟨ha, hc⟩
  | some b =>
    rw [hc] at hx
    rcases List.mem_pair.mp hx with rfl | rfl
    · exact Or.inr (Or.inl rfl)
    · exact Or.inr (Or.inr ⟨a, ha, hc⟩)

/-- An element with a code, which is no part of a code itself, does not stand in an escaped
string. -/
theorem not_mem_escape {x : α} (hx : e.code x ≠ none) (hm : x ≠ e.mark)
    (hc : ∀ a, e.code a ≠ some x) (s : List α) : x ∉ e.escape s := by
  intro h
  rcases e.mem_escape h with ⟨-, h⟩ | h | ⟨a, -, h⟩
  · exact hx h
  · exact hm h
  · exact hc a h

/-- To cut an escaped string is to escape the cut one. -/
theorem takeWhile_escape {p : α → Bool} (hm : p e.mark = true)
    (hc : ∀ {a b}, e.code a = some b → p a = true ∧ p b = true) (s : List α) :
    (e.escape s).takeWhile p = e.escape (s.takeWhile p) := by
  induction s with
  | nil => rfl
  | cons a s ih =>
    cases h : e.code a with
    | some b =>
      obtain ⟨ha, hb⟩ := hc h
      rw [e.escape_cons_some h, List.takeWhile_cons_of_pos hm, List.takeWhile_cons_of_pos hb, ih,
        List.takeWhile_cons_of_pos ha, e.escape_cons_some h]
    | none =>
      rw [e.escape_cons_none h]
      by_cases ha : p a = true
      · rw [List.takeWhile_cons_of_pos ha, List.takeWhile_cons_of_pos ha, ih,
          e.escape_cons_none h]
      · rw [List.takeWhile_cons_of_neg ha, List.takeWhile_cons_of_neg ha]
        rfl

/-- Every element of the string is escaped or plain. -/
def Clean (s : List α) : Prop := ∀ a ∈ s, e.code a = none → e.plain a = true

instance instDecidableClean (s : List α) : Decidable (e.Clean s) :=
  inferInstanceAs (Decidable (∀ a ∈ s, e.code a = none → e.plain a = true))

theorem clean_cons {a : α} {s : List α} :
    e.Clean (a :: s) ↔ (e.code a = none → e.plain a = true) ∧ e.Clean s :=
  List.forall_mem_cons

variable [DecidableEq α]

/-- The string up to the next quote, and what follows the quote. -/
def unquote : List α → Option (List α × List α)
  | [] => none
  | a :: s =>
    if a = e.quote then some ([], s)
    else if a = e.mark then
      match s with
      | [] => none
      | b :: s => (e.decode b).bind fun c => (unquote s).map fun r => (c :: r.1, r.2)
    else if e.plain a then (unquote s).map fun r => (a :: r.1, r.2)
    else none

theorem unquote_cons {a : α} (hq : a ≠ e.quote) (hm : a ≠ e.mark) (s : List α) :
    e.unquote (a :: s) =
      if e.plain a then (e.unquote s).map fun r => (a :: r.1, r.2) else none := by
  rw [unquote.eq_def]
  simp only [if_neg hq, if_neg hm]

/-- **An escaped string is read back**, if it is clean, and refused otherwise. -/
theorem unquote_escape (s rest : List α) :
    e.unquote (e.escape s ++ e.quote :: rest) = if e.Clean s then some (s, rest) else none := by
  induction s with
  | nil =>
    have hclean : e.Clean [] := fun a h => absurd h List.not_mem_nil
    show e.unquote (e.quote :: rest) = _
    rw [if_pos hclean, unquote.eq_def]
    exact if_pos rfl
  | cons a s ih =>
    cases h : e.code a with
    | some b =>
      have hclean : e.Clean (a :: s) ↔ e.Clean s := by simp [clean_cons, h]
      rw [e.escape_cons_some h, List.cons_append, List.cons_append, unquote,
        if_neg e.mark_ne_quote, if_pos rfl, e.decode_code h, ih]
      simp only [hclean, Option.bind_some]
      split_ifs <;> rfl
    | none =>
      have hquote : a ≠ e.quote := fun he => e.code_quote (he ▸ h)
      have hmark : a ≠ e.mark := fun he => e.code_mark (he ▸ h)
      rw [e.escape_cons_none h, List.cons_append, e.unquote_cons hquote hmark, ih]
      by_cases hp : e.plain a = true
      · have hclean : e.Clean (a :: s) ↔ e.Clean s := by simp [clean_cons, hp]
        simp only [hp, if_true, hclean]
        split_ifs <;> rfl
      · have hclean : ¬ e.Clean (a :: s) := fun hc => hp ((e.clean_cons.mp hc).1 h)
        rw [if_neg hp, if_neg hclean]

end Escaping

end Uproxy.Lib.Escape
