import Uproxy.Buffer.Limits

/-!
# Writers on ring buffers

Most of the program appends to a ring buffer piece by piece and returns at the first append that
fails. Elsewhere such a function is modelled on the bytes the buffer holds. Here is what connects
the two: `Refines w q k` says that `w` on a ring buffer does what `q` does on its bytes, and adds at
most `k` of them.

The capacity at most doubles what has to be stored, so a buffer that never holds more than `n` bytes
stays below `2 n` bytes of memory (`Stores`), and below `2^62` bytes no sum wraps and every vector
can be made.

* `Stores.append`: `append` on such a buffer;
* `Refines.append`, `Refines.andThen`, `Refines.ite`: the rules, one for each way in which the
  program puts its writers together;
* `Adds`: the writers that only append.
-/

namespace Uproxy

namespace RingBuffer

/-! ## What a buffer stores -/

/-- The buffer holds these bytes, and its memory is that of one which holds at most `n` at a time;
buffers are made with 65536 bytes or fewer. -/
structure Stores (n : Nat) (b : RingBuffer) (d : Bytes) : Prop where
  wf       : b.WF
  contents : b.contents = d
  capacity : b.capacity ≤ max 65536 (2 * n)

section

variable {n k : Nat} {b : RingBuffer} {d e : Bytes}

theorem stores_new (n : Nat) {k : Nat} (h : k ≤ 65536) : Stores n (new k) [] where
  wf := wf_new k
  contents := contents_new k
  capacity := by
    rw [capacity, new, List.length_replicate]
    omega

theorem Stores.size_eq (h : Stores n b d) : b.size = d.length := by
  rw [← h.contents, h.wf.length_contents]

theorem Stores.peek (h : Stores n b d) (k : Nat) : b.peek k = d.take k := by
  rw [peek_spec h.wf, h.contents]

theorem Stores.peek_readable (h : Stores n b d) : b.peek b.readable = d := by
  rw [RingBuffer.peek_readable h.wf, h.contents]

theorem Stores.commitRead (h : Stores n b d) (k : Nat) : Stores n (b.commitRead k) (d.drop k) where
  wf := (commitRead_spec h.wf k).1
  contents := by rw [(commitRead_spec h.wf k).2, h.contents]
  capacity := h.capacity

/-- A buffer that is too small grows to at most twice what it has to hold. -/
theorem grownCapacity_le_twice (h : b.WF) (hfull : b.writable < k) :
    b.grownCapacity k ≤ 2 * (b.size + k) := by
  have hsize := h.size_le
  have h1 : b.data.length * 2 % sizeMod ≤ b.data.length * 2 := Nat.mod_le _ _
  have h2 : (b.data.length + k) % sizeMod ≤ b.data.length + k := Nat.mod_le _ _
  unfold writable at hfull
  unfold grownCapacity
  simp only
  split_ifs <;> omega

/-- **`append`** stores the bytes if they fit, and no vector is asked for that cannot be made. -/
theorem Stores.append (h : Stores n b d) (hn : n < 2 ^ 62) (hfit : d.length + e.length ≤ n) :
    ¬ b.Overlong e.length ∧
      ∃ b', b.append e = some (.ok (), b') ∧ Stores n b' (d ++ e) := by
  have hcap := h.capacity
  have hsize := h.size_eq
  have hgrown := fun hfull => grownCapacity_le_twice h.wf (k := e.length) hfull
  have hlimit : maxVector = 2 ^ 63 - 1 := rfl
  have hmod : sizeMod = 2 ^ 64 := rfl
  refine ⟨fun hover => ?_, ?_⟩
  · have := hgrown hover.1
    have := hover.2.2
    omega
  · obtain ⟨b', heq, hwf, hc, -⟩ := append_spec (d := e) h.wf (by omega)
    obtain ⟨r, b'', heq', -, hcap', -⟩ := append_answers h.wf e
    rw [heq] at heq'
    cases heq'
    refine ⟨b', heq, hwf, by rw [hc, h.contents], ?_⟩
    rcases hcap' with hcap' | ⟨hcap', hfull, -⟩
    · rw [hcap']
      exact hcap
    · have := hgrown hfull
      omega

end

/-! ## Writers -/

/-- A function that appends to a ring buffer; `none` would be one that does not return. -/
abbrev Writer := RingBuffer → Option (Result Unit × RingBuffer)

/-- A writer behind another one: it is called if that has succeeded. -/
def andThen (w w' : Writer) : Writer := fun b =>
  match w b with
  | none => none
  | some (.error e, b) => some (.error e, b)
  | some (.ok (), b) => w' b

end RingBuffer

/-- The same on the bytes. -/
def Queue.andThen (q q' : Bytes → Result Unit × Bytes) (d : Bytes) : Result Unit × Bytes :=
  match q d with
  | (.error e, d) => (.error e, d)
  | (.ok (), d) => q' d

namespace RingBuffer

/-- **A writer refines a function on bytes**: as long as `k` more bytes fit it returns what the
function returns, the bytes it leaves are those of the function, and these are at most `k` more. -/
def Refines (w : Writer) (q : Bytes → Result Unit × Bytes) (k : Nat) : Prop :=
  ∀ ⦃n : Nat⦄ ⦃b : RingBuffer⦄ ⦃d : Bytes⦄, n < 2 ^ 62 → Stores n b d → d.length + k ≤ n →
    ∃ b', w b = some ((q d).1, b') ∧ Stores n b' (q d).2 ∧ (q d).2.length ≤ d.length + k

namespace Refines

variable {w w' : Writer} {q q' : Bytes → Result Unit × Bytes} {k k' : Nat}

theorem append (e : Bytes) :
    Refines (fun b => b.append e) (fun d => (.ok (), d ++ e)) e.length := by
  intro n b d hn h hfit
  obtain ⟨-, b', heq, h'⟩ := h.append hn hfit
  exact ⟨b', heq, h', Nat.le_of_eq List.length_append⟩

/-- An error before anything is written. -/
theorem fail (e : Error) (k : Nat) :
    Refines (fun b => some (.error e, b)) (fun d => (.error e, d)) k :=
  fun _ _ _ _ h _ => ⟨_, rfl, h, Nat.le_add_right _ _⟩

/-- Nothing to write. -/
theorem done (k : Nat) : Refines (fun b => some (.ok (), b)) (fun d => (.ok (), d)) k :=
  fun _ _ _ _ h _ => ⟨_, rfl, h, Nat.le_add_right _ _⟩

theorem mono (h : Refines w q k) (hk : k ≤ k') : Refines w q k' := by
  intro n b d hn hs hfit
  obtain ⟨b', heq, h', hlen⟩ := h hn hs (by omega)
  exact ⟨b', heq, h', by omega⟩

theorem andThen (h : Refines w q k) (h' : Refines w' q' k') :
    Refines (andThen w w') (Queue.andThen q q') (k + k') := by
  intro n b d hn hs hfit
  obtain ⟨b₁, heq, hs₁, hlen⟩ := h hn hs (by omega)
  unfold RingBuffer.andThen Queue.andThen
  rcases hq : q d with ⟨e | _, d₁⟩ <;> rw [hq] at heq hs₁ hlen <;> simp only at hs₁ hlen <;>
    simp only [heq]
  · exact ⟨b₁, rfl, hs₁, by omega⟩
  · obtain ⟨b₂, heq₂, hs₂, hlen₂⟩ := h' hn hs₁ (by omega)
    exact ⟨b₂, heq₂, hs₂, by omega⟩

theorem ite {p : Prop} [Decidable p] (h : p → Refines w q k) (h' : ¬ p → Refines w' q' k) :
    Refines (fun b => if p then w b else w' b) (fun d => if p then q d else q' d) k := by
  split_ifs with hp
  · exact h hp
  · exact h' hp

end Refines

/-- The writer appends these bytes. -/
def Adds (w : Writer) (e : Bytes) : Prop := Refines w (fun d => (.ok (), d ++ e)) e.length

theorem Adds.append (e : Bytes) : Adds (fun b => b.append e) e := Refines.append e

theorem Adds.stores {w : Writer} {n : Nat} {b : RingBuffer} {d e : Bytes} (h : Adds w e)
    (hn : n < 2 ^ 62) (hs : Stores n b d) (hfit : d.length + e.length ≤ n) :
    ∃ b', w b = some (.ok (), b') ∧ Stores n b' (d ++ e) := by
  obtain ⟨b', heq, hs', -⟩ := h hn hs hfit
  exact ⟨b', heq, hs'⟩

theorem Adds.done : Adds (fun b => some (.ok (), b)) [] := by
  intro n b d hn h hfit
  simp only [List.append_nil]
  exact ⟨b, rfl, h, Nat.le_refl _⟩

theorem Adds.andThen {w w' : Writer} {e e' : Bytes} (h : Adds w e) (h' : Adds w' e') :
    Adds (andThen w w') (e ++ e') := by
  intro n b d hn hs hfit
  simp only [List.length_append, ← List.append_assoc] at hfit ⊢
  obtain ⟨b', heq, hs', -⟩ := Refines.andThen h h' hn hs hfit
  exact ⟨b', heq, hs', by omega⟩

end RingBuffer

end Uproxy
