import Uproxy.Buffer.Queue

/-!
# The ring buffer at the limits of `size_t`

`ensure_writable` computes the new capacity as the maximum of a doubling and a sum, both modulo
`2^64`, and only checks that it still holds what is in the buffer. When the sum wraps, the maximum
is the doubled capacity, whatever was asked for, and the call returns ok. When the maximum is more
than a vector can hold, the constructor of `replacement` throws `std::length_error`, and the call
returns nothing at all: `tryEnsureWritable` is `ensure_writable` with that outcome. No member has
been assigned by then, so the buffer is as before.

Runs here take every argument a caller can pass, also those that wrap (`Reachable`), and go on
behind an error.

* `appendLoop_spec`, `append_answers`: `append` returns in every case, and an ok means that all was
  written;
* `Reachable.wf`: the class invariant survives wrapped capacities;
* `grownCapacity_of_fits`, `grownCapacity_of_wrap`: the new capacity, when the sum fits and when it
  wraps;
* **`ensure_writable_sound`**: when `ensure_writable` is sound, and what it does otherwise.

Out of scope: an allocation that fails for another reason (`std::bad_alloc`).
-/

namespace Uproxy

namespace RingBuffer

/-! ## `append` in every case -/

/-- Regions that are filled leave the rest of the data. -/
theorem copyInto_append : ∀ {vs : List IoVec} {b : RingBuffer} {d : Bytes} (e : Bytes),
    (∀ v ∈ vs, 0 < v.len) → (vs.map IoVec.len).sum = d.length →
      b.copyInto vs (d ++ e) = ((b.copyInto vs d).1, e)
  | [], b, d, e, _, hlen => by
    have hd : d = [] := List.length_eq_zero_iff.mp hlen.symm
    rw [hd, List.nil_append]
    rfl
  | v :: vs, b, d, e, hpos, hlen => by
    obtain ⟨hv, hvs⟩ := List.forall_mem_cons.mp hpos
    rw [List.map_cons, List.sum_cons] at hlen
    have hd : d ≠ [] := List.length_pos_iff.mp (by omega)
    have hde : d ++ e ≠ [] := List.append_ne_nil_of_left_ne_nil hd e
    have hle : v.len ≤ d.length := by omega
    have hle' : v.len ≤ (d ++ e).length := by rw [List.length_append]; omega
    have hrest : (vs.map IoVec.len).sum = (d.drop v.len).length := by
      rw [List.length_drop]
      omega
    simp only [copyInto, if_neg hd, if_neg hde, Nat.min_eq_left hle, Nat.min_eq_left hle',
      List.take_append_of_le_length hle, List.drop_append_of_le_length hle]
    exact copyInto_append e hvs hrest

/-- The regions of `write_iovecs` are not empty, and are all there is to write to. -/
theorem writeIovecs_len {b : RingBuffer} (h : b.WF) :
    (∀ v ∈ b.writeIovecs, 0 < v.len) ∧ (b.writeIovecs.map IoVec.len).sum = b.writable := by
  rcases writeIovecs_cases h with ⟨hw, e⟩ | ⟨hw, -, e⟩ | ⟨hwrap, hlt, e⟩
  · rw [e, hw]
    exact ⟨List.forall_mem_nil _, rfl⟩
  · rw [e]
    exact ⟨List.forall_mem_singleton.mpr hw, rfl⟩
  · rw [e]
    have hsum : b.data.length - b.writePos + (b.writable - (b.data.length - b.writePos)) =
        b.writable := by omega
    simp only [List.forall_mem_cons, List.map_cons, List.map_nil, List.sum_cons, List.sum_nil,
      Nat.add_zero, hsum, and_true]
    exact ⟨by omega, by omega, List.forall_mem_nil _⟩

/-- One pass over the regions writes what fits and leaves the rest. -/
theorem copyInto_fill {b : RingBuffer} (h : b.WF) (d : Bytes) :
    ∃ b', b.copyInto b.writeIovecs d = (b', d.drop b.writable) ∧ b'.WF ∧
      b'.contents = b.contents ++ d.take b.writable ∧ b'.capacity = b.capacity := by
  by_cases hfit : d.length ≤ b.writable
  · rw [List.take_of_length_le hfit, List.drop_of_length_le hfit]
    exact copyInto_spec h hfit
  · have hlen : (d.take b.writable).length = b.writable := by
      rw [List.length_take]
      omega
    obtain ⟨b', e, hwf, hc, hcap⟩ := copyInto_spec h (Nat.le_of_eq hlen)
    obtain ⟨hpos, hsum⟩ := writeIovecs_len h
    refine ⟨b', ?_, hwf, hc, hcap⟩
    have hfill := copyInto_append (b := b) (d.drop b.writable) hpos (hsum.trans hlen.symm)
    rwa [List.take_append_drop, e] at hfill

/-- **The loop of `append` returns**, and with ok only if it has written all. -/
theorem appendLoop_spec : ∀ {fuel : Nat} {b : RingBuffer} {d : Bytes}, b.WF → d.length ≤ fuel →
    ∃ r b', appendLoop fuel b d = some (r, b') ∧ b'.WF ∧ b'.capacity = b.capacity ∧
      (r = .ok () → b'.contents = b.contents ++ d)
  | fuel, b, [], h, _ => by
    refine ⟨.ok (), b, ?_, h, rfl, fun _ => (List.append_nil _).symm⟩
    cases fuel <;> rfl
  | fuel + 1, b, c :: d, h, hf => by
    obtain ⟨b₁, e, hwf, hc, hcap⟩ := copyInto_fill h (c :: d)
    unfold appendLoop
    cases hv : b.writeIovecs with
    | nil => exact ⟨_, b, rfl, h, rfl, fun he => by cases he⟩
    | cons v vs =>
      rw [hv] at e
      -- a region that is not empty takes at least one byte
      have hw : 0 < b.writable := by
        obtain ⟨hpos, hsum⟩ := writeIovecs_len h
        rw [hv, List.map_cons, List.sum_cons] at hsum
        have := hpos v (hv ▸ List.mem_cons_self)
        omega
      have hlen : ((c :: d).drop b.writable).length ≤ fuel := by
        rw [List.length_drop]
        omega
      obtain ⟨r, b', e', hwf', hcap', hok⟩ := appendLoop_spec hwf hlen
      refine ⟨r, b', ?_, hwf', hcap'.trans hcap, fun hr => ?_⟩
      · simp only [e]
        exact e'
      · rw [hok hr, hc, List.append_assoc, List.take_append_drop]

/-- **`append` returns in every case**, and with ok only if the data stands behind the contents. -/
theorem append_answers {b : RingBuffer} (h : b.WF) (d : Bytes) :
    ∃ r b', b.append d = some (r, b') ∧ b'.WF ∧
      (b'.capacity = b.capacity ∨ b'.capacity = b.grownCapacity d.length ∧
        b.writable < d.length ∧ b.size ≤ b.grownCapacity d.length) ∧
      (r = .ok () → b'.contents = b.contents ++ d) := by
  unfold append
  rcases ensureWritable_cases h d.length with
    ⟨-, e⟩ | ⟨-, -, err, e⟩ | ⟨hw, hsize, b₁, e, hwf₁, hc₁, hcap₁, -⟩
  · rw [e]
    obtain ⟨r, b', e', hwf, hcap, hok⟩ := appendLoop_spec h (Nat.le_refl d.length)
    exact ⟨r, b', e', hwf, Or.inl hcap, hok⟩
  · rw [e]
    exact ⟨_, b, rfl, h, Or.inl rfl, fun he => by cases he⟩
  · rw [e]
    obtain ⟨r, b', e', hwf, hcap, hok⟩ := appendLoop_spec hwf₁ (Nat.le_refl d.length)
    exact ⟨r, b', e', hwf, Or.inr ⟨hcap.trans hcap₁, hw, hsize⟩, fun hr => by rw [hok hr, hc₁]⟩

/-! ## The length of a vector -/

/-- `std::vector<unsigned char>::max_size()`, the largest difference of two pointers. -/
def maxVector : Nat := 2 ^ 63 - 1

/-- `ensure_writable(n)` comes to make a vector that is too long. -/
def Overlong (b : RingBuffer) (n : Nat) : Prop :=
  b.writable < n ∧ b.size ≤ b.grownCapacity n ∧ maxVector < b.grownCapacity n

instance instDecidableOverlong (b : RingBuffer) (n : Nat) : Decidable (b.Overlong n) :=
  inferInstanceAs (Decidable (_ ∧ _ ∧ _))

/-- `ensure_writable` with the exception its vector throws; `none` is the exception. -/
def tryEnsureWritable (b : RingBuffer) (n : Nat) : Option (Result Unit × RingBuffer) :=
  if b.Overlong n then none else some (b.ensureWritable n)

/-! ## Runs without a limit -/

/-- What a caller can ask: sizes that are a `size_t`, and no more bytes written through the regions
than they hold or committed than were written. -/
def Admits (b : RingBuffer) : Op → Prop
  | .append d => d.length < sizeMod
  | .commitRead n => n < sizeMod
  | .ensureWritable n => n < sizeMod
  | .write d k => d.length ≤ b.writable ∧ k ≤ d.length

/-- The operation throws: `append` does if its `ensure_writable` does. -/
def Throws (b : RingBuffer) : Op → Prop
  | .append d => b.Overlong d.length
  | .ensureWritable n => b.Overlong n
  | .commitRead _ | .write _ _ => False

/-- The buffers of all runs, errors included. An operation that throws leaves the buffer as it
is. -/
inductive Reachable : RingBuffer → Prop where
  | init {cap} (h : cap ≤ maxVector) : Reachable (new cap)
  | step {b op r b'} (h : Reachable b) (hop : b.Admits op) (hret : ¬ b.Throws op)
      (he : b.exec op = some (r, b')) : Reachable b'

theorem capacity_writeThrough {b : RingBuffer} (h : b.WF) {d : Bytes} {k : Nat}
    (hfit : d.length ≤ b.writable) : (b.writeThrough d k).capacity = b.capacity := by
  obtain ⟨data, e, hlen, -⟩ := fillRegions_view h hfit
  unfold writeThrough
  rw [e]
  exact hlen

/-- A call that returns leaves a vector that can be made. -/
theorem grownCapacity_le {b : RingBuffer} {n : Nat} (hret : ¬ b.Overlong n)
    (hw : b.writable < n) (hsize : b.size ≤ b.grownCapacity n) : b.grownCapacity n ≤ maxVector :=
  Nat.le_of_not_lt fun hlt => hret ⟨hw, hsize, hlt⟩

/-- One operation keeps the invariant, and a capacity that a vector can have. -/
theorem exec_kept {b b' : RingBuffer} {op : Op} {r : Result Unit} (h : b.WF)
    (hcap : b.capacity ≤ maxVector) (hop : b.Admits op) (hret : ¬ b.Throws op)
    (he : b.exec op = some (r, b')) : b'.WF ∧ b'.capacity ≤ maxVector := by
  cases op with
  | append d =>
    obtain ⟨r', b'', e, hwf, hcap', -⟩ := append_answers h d
    rw [exec, e] at he
    cases he
    refine ⟨hwf, ?_⟩
    rcases hcap' with hcap' | ⟨hcap', hw, hsize⟩
    · rwa [hcap']
    · rw [hcap']
      exact grownCapacity_le hret hw hsize
  | commitRead n =>
    cases he
    exact ⟨(commitRead_spec h n).1, hcap⟩
  | ensureWritable n =>
    rw [exec, Option.some.injEq] at he
    rcases ensureWritable_cases h n with
      ⟨-, e⟩ | ⟨-, -, err, e⟩ | ⟨hw, hsize, b₁, e, hwf, -, hcap', -⟩
    · rw [e] at he
      cases he
      exact ⟨h, hcap⟩
    · rw [e] at he
      cases he
      exact ⟨h, hcap⟩
    · rw [e] at he
      cases he
      rw [hcap']
      exact ⟨hwf, grownCapacity_le hret hw hsize⟩
  | write d k =>
    cases he
    rw [capacity_writeThrough h hop.1]
    exact ⟨(writeThrough_spec h hop.1 hop.2).1, hcap⟩

/-- **The class invariant holds throughout.** -/
theorem Reachable.wf {b : RingBuffer} (h : Reachable b) : b.WF ∧ b.capacity ≤ maxVector := by
  induction h with
  | @init cap h =>
    refine ⟨wf_new cap, ?_⟩
    rwa [capacity, new, List.length_replicate]
  | step _ hop hret he ih => exact exec_kept ih.1 ih.2 hop hret he

/-! ## The new capacity -/

/-- The doubling does not wrap, since a vector holds less than half of what a `size_t` counts. -/
theorem grownCapacity_of_fits {b : RingBuffer} {n : Nat} (hcap : b.capacity ≤ maxVector)
    (hfits : b.capacity + n < sizeMod) (hw : b.writable < n) :
    b.grownCapacity n = max (2 * b.capacity) (b.capacity + n) := by
  unfold capacity at hcap hfits ⊢
  have hmod : sizeMod = 2 * (maxVector + 1) := by decide
  have hdouble : b.data.length * 2 % sizeMod = 2 * b.data.length := by
    rw [Nat.mul_comm]
    exact Nat.mod_eq_of_lt (by omega)
  simp only [grownCapacity, hdouble, Nat.mod_eq_of_lt hfits]
  exact if_neg (by omega)

/-- A sum that wraps is smaller than the doubled capacity. -/
theorem grownCapacity_of_wrap {b : RingBuffer} {n : Nat} (hcap : b.capacity ≤ maxVector)
    (hn : n < sizeMod) (hwrap : sizeMod ≤ b.capacity + n) :
    b.grownCapacity n = 2 * b.capacity := by
  unfold capacity at hcap hwrap ⊢
  have hmod : sizeMod = 2 * (maxVector + 1) := by decide
  have hdouble : b.data.length * 2 % sizeMod = 2 * b.data.length := by
    rw [Nat.mul_comm]
    exact Nat.mod_eq_of_lt (by omega)
  have hsum : (b.data.length + n) % sizeMod = b.data.length + n - sizeMod := by
    rw [Nat.mod_eq_sub_mod hwrap, Nat.mod_eq_of_lt (by omega)]
  simp only [grownCapacity, hdouble, hsum]
  rw [Nat.max_eq_left (by omega), if_neg (by omega)]

/-! ## Soundness -/

/-- The call fails and leaves the buffer as it is, or returns ok with the contents as they were and
room for `n` bytes. -/
def Ensures (b : RingBuffer) (n : Nat) : Prop :=
  (∃ e, b.tryEnsureWritable n = some (.error e, b)) ∨
    ∃ b', b.tryEnsureWritable n = some (.ok (), b') ∧ b'.contents = b.contents ∧ n ≤ b'.writable

/-- The call returns ok without the room that was asked for. -/
def Overpromises (b : RingBuffer) (n : Nat) : Prop :=
  ∃ b', b.tryEnsureWritable n = some (.ok (), b') ∧ b'.contents = b.contents ∧ b'.writable < n

/-- What comes of a call, by the new capacity. -/
theorem tryEnsureWritable_cases {b : RingBuffer} (h : b.WF) (n : Nat) :
    (n ≤ b.writable ∧ b.tryEnsureWritable n = some (.ok (), b)) ∨
    (b.writable < n ∧ b.grownCapacity n < b.size ∧
      ∃ e, b.tryEnsureWritable n = some (.error e, b)) ∨
    (b.writable < n ∧ b.size ≤ b.grownCapacity n ∧ maxVector < b.grownCapacity n ∧
      b.tryEnsureWritable n = none) ∨
    (b.writable < n ∧ b.size ≤ b.grownCapacity n ∧ b.grownCapacity n ≤ maxVector ∧
      ∃ b', b.tryEnsureWritable n = some (.ok (), b') ∧ b'.contents = b.contents ∧
        b'.writable = b.grownCapacity n - b.size) := by
  unfold tryEnsureWritable
  rcases ensureWritable_cases h n with
    ⟨hw, e⟩ | ⟨hw, hcap, err, e⟩ | ⟨hw, hroom, b₁, e, -, hc, hcap, hs⟩
  · exact Or.inl ⟨hw, by rw [if_neg fun ho => Nat.not_lt.mpr hw ho.1, e]⟩
  · exact Or.inr (Or.inl ⟨hw, hcap, err, by rw [if_neg fun ho => Nat.not_lt.mpr ho.2.1 hcap, e]⟩)
  · by_cases hlong : maxVector < b.grownCapacity n
    · exact Or.inr (Or.inr (Or.inl ⟨hw, hroom, hlong, if_pos ⟨hw, hroom, hlong⟩⟩))
    · refine Or.inr (Or.inr (Or.inr ⟨hw, hroom, Nat.le_of_not_lt hlong, b₁, ?_, hc, ?_⟩))
      · rw [if_neg fun ho => hlong ho.2.2, e]
      · rw [writable, ← capacity, hcap, hs]

/-- **`ensure_writable` at the limits.** It is sound exactly if there is room already, or both the
doubled capacity and the sum are lengths of a vector, as exact numbers. Otherwise it throws, except
when the sum wraps and the doubled capacity can be made: then it returns ok without the room. -/
theorem ensure_writable_sound {b : RingBuffer} (h : Reachable b) {n : Nat} (hn : n < sizeMod) :
    (b.Ensures n ↔ n ≤ b.writable ∨ max (2 * b.capacity) (b.capacity + n) ≤ maxVector) ∧
    (¬ b.Ensures n → if sizeMod ≤ b.capacity + n ∧ 2 * b.capacity ≤ maxVector
      then b.Overpromises n else b.tryEnsureWritable n = none) := by
  obtain ⟨hwf, hcap⟩ := h.wf
  have hsz : b.size ≤ b.capacity := hwf.size_le
  have hmod : sizeMod = 2 * (maxVector + 1) := by decide
  rcases tryEnsureWritable_cases hwf n with ⟨hw, e⟩ | ⟨hw, hlt, -⟩ |
    ⟨hw, -, hlong, e⟩ | ⟨hw, -, hmake, b', e, hc, hroom⟩
  · have hsound : b.Ensures n := Or.inr ⟨b, e, rfl, hw⟩
    exact ⟨iff_of_true hsound (Or.inl hw), fun hnot => absurd hsound hnot⟩
  · -- the check never fails: neither maximum is below the capacity
    by_cases hfits : b.capacity + n < sizeMod
    · rw [grownCapacity_of_fits hcap hfits hw] at hlt
      omega
    · rw [grownCapacity_of_wrap hcap hn (Nat.le_of_not_lt hfits)] at hlt
      omega
  · have hunsound : ¬ b.Ensures n := by
      rintro (⟨err, he⟩ | ⟨b', he, -⟩) <;> rw [e] at he <;> cases he
    by_cases hfits : b.capacity + n < sizeMod
    · rw [grownCapacity_of_fits hcap hfits hw] at hlong
      refine ⟨iff_of_false hunsound (by omega), fun _ => ?_⟩
      rwa [if_neg (by omega)]
    · rw [grownCapacity_of_wrap hcap hn (Nat.le_of_not_lt hfits)] at hlong
      refine ⟨iff_of_false hunsound (by omega), fun _ => ?_⟩
      rwa [if_neg (by omega)]
  · by_cases hfits : b.capacity + n < sizeMod
    · rw [grownCapacity_of_fits hcap hfits hw] at hmake hroom
      have hsound : b.Ensures n := Or.inr ⟨b', e, hc, by omega⟩
      exact ⟨iff_of_true hsound (Or.inr hmake), fun hnot => absurd hsound hnot⟩
    · rw [grownCapacity_of_wrap hcap hn (Nat.le_of_not_lt hfits)] at hmake hroom
      have hshort : b'.writable < n := by omega
      refine ⟨iff_of_false ?_ (by omega), fun _ => ?_⟩
      · rintro (⟨err, he⟩ | ⟨b'', he, -, hn'⟩) <;> rw [e] at he <;> cases he
        omega
      · rw [if_pos ⟨Nat.le_of_not_lt hfits, hmake⟩]
        exact ⟨b', e, hc, hshort⟩

/-- Room for 100 bytes behind a buffer of 4. -/
theorem ensure_writable_sound_hundred : (new 4).Ensures 100 :=
  (ensure_writable_sound (.init (by decide)) (by decide)).1.mpr (Or.inr (by decide))

/-- **The largest `size_t` is granted**: the sum wraps to 3, the capacity is doubled to 8, and the
call returns ok. Half of the range throws. -/
theorem ensure_writable_sound_wraps :
    Reachable (new 4) ∧ (new 4).tryEnsureWritable (2 ^ 64 - 1) = some (.ok (), new 8) ∧
      (new 8).writable = 8 ∧ ¬ (new 4).Ensures (2 ^ 64 - 1) ∧
      (new 4).tryEnsureWritable (2 ^ 63) = none ∧ ¬ (new 4).Ensures (2 ^ 63) := by
  have hgrow : (new 4).tryEnsureWritable (2 ^ 64 - 1) = some (.ok (), new 8) := by decide +kernel
  have hthrow : (new 4).tryEnsureWritable (2 ^ 63) = none := by decide +kernel
  refine ⟨.init (by decide), hgrow, rfl, ?_, hthrow, ?_⟩
  · rintro (⟨e, he⟩ | ⟨b', he, -, hn⟩)
    · rw [hgrow] at he
      cases he
    · rw [hgrow] at he
      cases he
      exact absurd hn (by decide)
  · rintro (⟨e, he⟩ | ⟨b', he, -⟩) <;> rw [hthrow] at he <;> cases he

end RingBuffer

end Uproxy
