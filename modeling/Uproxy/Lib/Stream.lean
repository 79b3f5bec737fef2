import Mathlib.Data.List.Basic

/-!
# Machines on a stream of input

A machine takes items off the front of its input and handles them one after the other until the
input holds no whole item (`drain`). What it finds at the front may depend on its state; more input
behind an item, or behind something that is no item, does not change what is found.

* `drain_inv`: what every accepted item preserves holds behind a drain, of the state, the items
  taken (`trace`) and the output;
* `drain_safe`: input all of whose items will be accepted is drained without an error, however much
  of it is there;
* `drain_sim`: related states drain an input alike;
* `drain_append`: draining an input is draining its front, then the rest of it with what follows;
* **`deliver_flatten`**: a machine that is handed its input in pieces, and drains it after each,
  fails exactly when one that is handed it at once does, and otherwise ends in the same state with
  the same output and the same input left.
-/

namespace Uproxy.Lib.Stream

/-- What stands at the front of the input. -/
inductive Read (β σ φ ε : Type) where
  /-- No whole item yet. -/
  | more
  /-- No item can stand here; the machine goes to `s`. -/
  | fail (e : ε) (s : σ)
  | item (x : φ) (rest : List β)

structure Machine (β σ φ ε ω : Type) where
  read : σ → List β → Read β σ φ ε
  /-- The error if the item is refused, the state behind it and the output. -/
  handle : σ → φ → Option ε × σ × List ω
  item_length : ∀ {s b x r}, read s b = .item x r → r.length < b.length
  item_append : ∀ {s b x r} (d), read s b = .item x r → read s (b ++ d) = .item x (r ++ d)
  fail_append : ∀ {s b e s'} (d), read s b = .fail e s' → read s (b ++ d) = .fail e s'

/-- The error if any, the state, the input left and the output. -/
structure Outcome (β σ ε ω : Type) where
  error : Option ε
  state : σ
  rest  : List β
  out   : List ω

def Outcome.prepend {β σ ε ω : Type} (out : List ω) (o : Outcome β σ ε ω) : Outcome β σ ε ω :=
  { o with out := out ++ o.out }

namespace Machine

variable {β σ φ ε ω : Type} (M : Machine β σ φ ε ω)

def drainLoop : Nat → σ → List β → Outcome β σ ε ω
  | 0, s, b => ⟨none, s, b, []⟩
  | fuel + 1, s, b =>
    match M.read s b with
    | .more => ⟨none, s, b, []⟩
    | .fail e s' => ⟨some e, s', b, []⟩
    | .item x r =>
      match M.handle s x with
      | (some e, s', out) => ⟨some e, s', r, out⟩
      | (none, s', out) => (drainLoop fuel s' r).prepend out

/-- Handle items until the input holds no whole one. -/
def drain (s : σ) (b : List β) : Outcome β σ ε ω := M.drainLoop (b.length + 1) s b

def traceLoop : Nat → σ → List β → List (σ × φ)
  | 0, _, _ => []
  | fuel + 1, s, b =>
    match M.read s b with
    | .more => []
    | .fail _ _ => []
    | .item x r =>
      match M.handle s x with
      | (some _, _, _) => [(s, x)]
      | (none, s', _) => (s, x) :: traceLoop fuel s' r

/-- The items `drain` takes, each with the state it meets. -/
def trace (s : σ) (b : List β) : List (σ × φ) := M.traceLoop (b.length + 1) s b

/-- Take the input in pieces and drain it after each. -/
def deliver : σ → List β → List (List β) → Outcome β σ ε ω
  | s, b, [] => ⟨none, s, b, []⟩
  | s, b, d :: ds =>
    match M.drain s (b ++ d) with
    | ⟨some e, s', r, out⟩ => ⟨some e, s', r, out⟩
    | ⟨none, s', r, out⟩ => (deliver s' r ds).prepend out

variable {M}

theorem drainLoop_fuel {fuel fuel' : Nat} {s : σ} {b : List β} (h : b.length < fuel)
    (h' : b.length < fuel') : M.drainLoop fuel s b = M.drainLoop fuel' s b := by
  induction fuel generalizing fuel' s b with
  | zero => exact absurd h (Nat.not_lt_zero _)
  | succ fuel ih =>
    cases fuel' with
    | zero => exact absurd h' (Nat.not_lt_zero _)
    | succ fuel' =>
      rw [drainLoop, drainLoop]
      cases hr : M.read s b with
      | more => rfl
      | fail e s' => rfl
      | item x r =>
        have hlt := M.item_length hr
        rcases hh : M.handle s x with ⟨_ | e, s', out⟩
        · have hloop : M.drainLoop fuel s' r = M.drainLoop fuel' s' r := ih (by omega) (by omega)
          simp only [hh, hloop]
        · simp only [hh]

theorem traceLoop_fuel {fuel fuel' : Nat} {s : σ} {b : List β} (h : b.length < fuel)
    (h' : b.length < fuel') : M.traceLoop fuel s b = M.traceLoop fuel' s b := by
  induction fuel generalizing fuel' s b with
  | zero => exact absurd h (Nat.not_lt_zero _)
  | succ fuel ih =>
    cases fuel' with
    | zero => exact absurd h' (Nat.not_lt_zero _)
    | succ fuel' =>
      rw [traceLoop, traceLoop]
      cases hr : M.read s b with
      | more => rfl
      | fail e s' => rfl
      | item x r =>
        have hlt := M.item_length hr
        rcases hh : M.handle s x with ⟨_ | e, s', out⟩
        · have hloop : M.traceLoop fuel s' r = M.traceLoop fuel' s' r := ih (by omega) (by omega)
          simp only [hh, hloop]
        · simp only [hh]

/-! ## One item -/

section Item

variable {s s' : σ} {b r : List β} {x : φ} {e : ε} {out : List ω}

theorem drain_more (h : M.read s b = .more) : M.drain s b = ⟨none, s, b, []⟩ := by
  rw [drain, drainLoop, h]

theorem drain_fail (h : M.read s b = .fail e s') : M.drain s b = ⟨some e, s', b, []⟩ := by
  rw [drain, drainLoop, h]

theorem drain_refused (h : M.read s b = .item x r) (hh : M.handle s x = (some e, s', out)) :
    M.drain s b = ⟨some e, s', r, out⟩ := by
  rw [drain, drainLoop, h]
  simp only [hh]

theorem drain_item (h : M.read s b = .item x r) (hh : M.handle s x = (none, s', out)) :
    M.drain s b = (M.drain s' r).prepend out := by
  have hlt := M.item_length h
  rw [drain, drainLoop, h]
  simp only [hh]
  rw [drainLoop_fuel hlt (Nat.lt_succ_self _), drain]

theorem trace_more (h : M.read s b = .more) : M.trace s b = [] := by
  rw [trace, traceLoop, h]

theorem trace_item (h : M.read s b = .item x r) (hh : M.handle s x = (none, s', out)) :
    M.trace s b = (s, x) :: M.trace s' r := by
  have hlt := M.item_length h
  rw [trace, traceLoop, h]
  simp only [hh]
  rw [traceLoop_fuel hlt (Nat.lt_succ_self _), trace]

end Item

/-- **The rule for `drain`**: what holds in the four cases holds. -/
theorem drain_induction {P : σ → List β → Prop}
    (more : ∀ s b, M.read s b = .more → P s b)
    (fail : ∀ s b e s', M.read s b = .fail e s' → P s b)
    (refused : ∀ s b x r e s' out, M.read s b = .item x r → M.handle s x = (some e, s', out) →
      P s b)
    (item : ∀ s b x r s' out, M.read s b = .item x r → M.handle s x = (none, s', out) → P s' r →
      P s b)
    (s : σ) (b : List β) : P s b := by
  induction hn : b.length using Nat.strongRecOn generalizing s b with
  | ind n ih =>
    cases hr : M.read s b with
    | more => exact more s b hr
    | fail e s' => exact fail s b e s' hr
    | item x r =>
      have hlt := M.item_length hr
      rcases hh : M.handle s x with ⟨_ | e, s', out⟩
      · exact item s b x r s' out hr hh (ih r.length (by omega) s' r rfl)
      · exact refused s b x r e s' out hr hh

/-- **The invariant rule**: `I` holds of the state, the items taken so far and the output. -/
theorem drain_inv {I : σ → List (σ × φ) → List ω → Prop}
    (step : ∀ s log out b x r s' o, I s log out → M.read s b = .item x r →
      M.handle s x = (none, s', o) → I s' (log ++ [(s, x)]) (out ++ o))
    (s : σ) (b : List β) : ∀ {log : List (σ × φ)} {out : List ω}, I s log out →
      (M.drain s b).error = none →
        I (M.drain s b).state (log ++ M.trace s b) (out ++ (M.drain s b).out) := by
  induction s, b using M.drain_induction with
  | more s b hr =>
    intro log out h _
    rw [drain_more hr, trace_more hr, List.append_nil, List.append_nil]
    exact h
  | fail s b e s' hr =>
    intro log out _ herr
    rw [drain_fail hr] at herr
    cases herr
  | refused s b x r e s' o hr hh =>
    intro log out _ herr
    rw [drain_refused hr hh] at herr
    cases herr
  | item s b x r s' o hr hh ih =>
    intro log out h herr
    rw [drain_item hr hh] at herr ⊢
    have := ih (step s log out b x r s' o h hr hh) herr
    rw [trace_item hr hh]
    rwa [List.append_assoc, List.append_assoc] at this

/-- **Safe input**: if `G` says of a state and the whole input to come that every item in it will be
accepted, draining the input received so far makes no error and leaves a state and an input of
which `G` holds. -/
theorem drain_safe {G : σ → List β → Prop}
    (step : ∀ s b, G s b → M.read s b = .more ∨
      ∃ x r s' out, M.read s b = .item x r ∧ M.handle s x = (none, s', out) ∧ G s' r)
    (d : List β) (s : σ) (b : List β) (h : G s (b ++ d)) :
    (M.drain s b).error = none ∧ G (M.drain s b).state ((M.drain s b).rest ++ d) := by
  induction s, b using M.drain_induction with
  | more s b hr =>
    rw [drain_more hr]
    exact ⟨rfl, h⟩
  | fail s b e s' hr =>
    rcases step s (b ++ d) h with hr' | ⟨x, r, s', out, hr', -⟩ <;>
      rw [M.fail_append d hr] at hr' <;> cases hr'
  | refused s b x r e s' out hr hh =>
    rcases step s (b ++ d) h with hr' | ⟨x, r, s', out, hr', hh', -⟩ <;>
      rw [M.item_append d hr] at hr' <;> cases hr'
    rw [hh] at hh'
    cases hh'
  | item s b x r s' out hr hh ih =>
    rcases step s (b ++ d) h with hr' | ⟨x, r, s', out, hr', hh', hG⟩ <;>
      rw [M.item_append d hr] at hr' <;> cases hr'
    rw [hh] at hh'
    cases hh'
    rw [drain_item hr hh]
    exact ih hG

/-- **Simulation**: states that find the same at the front of every input, and handle it alike,
drain it alike. -/
theorem drain_sim {R : σ → σ → Prop}
    (more : ∀ {s t b}, R s t → M.read s b = .more → M.read t b = .more)
    (fail : ∀ {s t b e s'}, R s t → M.read s b = .fail e s' →
      ∃ t', M.read t b = .fail e t' ∧ R s' t')
    (item : ∀ {s t b x r}, R s t → M.read s b = .item x r → M.read t b = .item x r)
    (handle : ∀ {s t x e s' out}, R s t → M.handle s x = (e, s', out) →
      ∃ t', M.handle t x = (e, t', out) ∧ R s' t')
    (s : σ) (b : List β) : ∀ {t}, R s t →
      ∃ t', M.drain t b = ⟨(M.drain s b).error, t', (M.drain s b).rest, (M.drain s b).out⟩ ∧
        R (M.drain s b).state t' := by
  induction s, b using M.drain_induction with
  | more s b hr =>
    intro t h
    rw [drain_more hr, drain_more (more h hr)]
    exact ⟨t, rfl, h⟩
  | fail s b e s' hr =>
    intro t h
    obtain ⟨t', hr', h'⟩ := fail h hr
    rw [drain_fail hr, drain_fail hr']
    exact ⟨t', rfl, h'⟩
  | refused s b x r e s' out hr hh =>
    intro t h
    obtain ⟨t', hh', h'⟩ := handle h hh
    rw [drain_refused hr hh, drain_refused (item h hr) hh']
    exact ⟨t', rfl, h'⟩
  | item s b x r s' out hr hh ih =>
    intro t h
    obtain ⟨t', hh', h'⟩ := handle h hh
    obtain ⟨t'', hd, h''⟩ := ih h'
    rw [drain_item hr hh, drain_item (item h hr) hh', hd]
    exact ⟨t'', rfl, h''⟩

/-! ## Pieces -/

/-- Behind a drain without error there is no whole item. -/
theorem read_drain (s : σ) (b : List β) (h : (M.drain s b).error = none) :
    M.read (M.drain s b).state (M.drain s b).rest = .more := by
  induction s, b using M.drain_induction with
  | more s b hr =>
    rw [drain_more hr]
    exact hr
  | fail s b e s' hr =>
    rw [drain_fail hr] at h
    cases h
  | refused s b x r e s' out hr hh =>
    rw [drain_refused hr hh] at h
    cases h
  | item s b x r s' out hr hh ih =>
    rw [drain_item hr hh] at h ⊢
    exact ih h

/-- **Draining an input** is draining its front and then the rest. -/
theorem drain_append (d : List β) (s : σ) (b : List β) :
    M.drain s (b ++ d) =
      match M.drain s b with
      | ⟨some e, s', r, out⟩ => ⟨some e, s', r ++ d, out⟩
      | ⟨none, s', r, out⟩ => (M.drain s' (r ++ d)).prepend out := by
  induction s, b using M.drain_induction with
  | more s b hr =>
    rw [drain_more hr]
    rfl
  | fail s b e s' hr => rw [drain_fail hr, drain_fail (M.fail_append d hr)]
  | refused s b x r e s' out hr hh =>
    rw [drain_refused hr hh, drain_refused (M.item_append d hr) hh]
  | item s b x r s' out hr hh ih =>
    rw [drain_item hr hh, drain_item (M.item_append d hr) hh, ih]
    rcases M.drain s' r with ⟨_ | e, s'', r', out'⟩
    · simp only [Outcome.prepend, List.append_assoc]
    · rfl

theorem drain_append_ok {s : σ} {b : List β} (h : (M.drain s b).error = none) (d : List β) :
    M.drain s (b ++ d) =
      (M.drain (M.drain s b).state ((M.drain s b).rest ++ d)).prepend (M.drain s b).out := by
  rw [drain_append]
  generalize M.drain s b = o at h ⊢
  obtain ⟨_ | e, s', r, out⟩ := o
  · rfl
  · cases h

theorem drain_append_error {s : σ} {b : List β} {e : ε} (h : (M.drain s b).error = some e)
    (d : List β) :
    M.drain s (b ++ d) = { M.drain s b with rest := (M.drain s b).rest ++ d } := by
  rw [drain_append]
  generalize M.drain s b = o at h ⊢
  obtain ⟨_ | e, s', r, out⟩ := o
  · cases h
  · rfl

/-- **Input in pieces** is handled as input at once. -/
theorem deliver_flatten {s : σ} {b : List β} (h : M.read s b = .more) (ds : List (List β)) :
    (M.deliver s b ds).error = (M.drain s (b ++ ds.flatten)).error ∧
      ((M.deliver s b ds).error = none →
        M.deliver s b ds = M.drain s (b ++ ds.flatten)) := by
  induction ds generalizing s b with
  | nil =>
    rw [List.flatten_nil, List.append_nil, drain_more h]
    exact ⟨rfl, fun _ => rfl⟩
  | cons d ds ih =>
    have hmore := M.read_drain s (b ++ d)
    rw [List.flatten_cons, ← List.append_assoc, drain_append, deliver]
    rcases hd : M.drain s (b ++ d) with ⟨_ | e, s', r, out⟩
    · rw [hd] at hmore
      obtain ⟨ih1, ih2⟩ := ih (hmore rfl)
      refine ⟨ih1, fun hnone => ?_⟩
      simp only
      rw [ih2 hnone]
    · exact ⟨rfl, fun hnone => by cases hnone⟩

end Machine

end Uproxy.Lib.Stream
