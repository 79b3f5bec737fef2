import Uproxy.Buffer.Ring

/-!
# The ring buffer is a FIFO byte queue

`RingBuffer.contents` reads a buffer as the byte string waiting in it, and `RingBuffer.WF` is the
class invariant: positions in range, `write_pos_ = (read_pos_ + size_) mod capacity`, and
`size_ ≤ capacity`. Each operation has one spec lemma (`commitRead_spec`, `writeThrough_spec`,
`ensureWritable_spec`, `append_spec`): the invariant is kept and the contents change as a queue's
do.

`Reach cap ops b` is a run of operations from `RingBuffer(cap)`, each within what the caller may
ask (`Fits`). **`ring_refines_queue`** is the refinement: along every run each operation succeeds,
the invariant holds and the contents are those of the queue `Queue.run` that performs the same
operations on a list.
-/

namespace Uproxy

open Lib.Circular

namespace RingBuffer

/-- The class invariant. With capacity 0 both positions are 0. -/
structure WF (b : RingBuffer) : Prop where
  size_le     : b.size ≤ b.data.length
  readPos_lt  : b.data ≠ [] → b.readPos < b.data.length
  readPos_nil : b.data = [] → b.readPos = 0
  writePos_eq : b.writePos = (b.readPos + b.size) % b.data.length

/-- The bytes waiting in the buffer, oldest first. -/
def contents (b : RingBuffer) : Bytes := circView b.data b.readPos b.size

/-! ## The invariant -/

theorem wf_new (cap : Nat) : (new cap).WF := by
  refine ⟨Nat.zero_le _, fun h => ?_, fun _ => rfl, by simp [new]⟩
  exact List.length_pos_iff.mpr h

theorem contents_new (cap : Nat) : (new cap).contents = [] := circView_zero _ _

theorem WF.readPos_le {b : RingBuffer} (h : b.WF) : b.readPos ≤ b.data.length := by
  by_cases hd : b.data = []
  · rw [h.readPos_nil hd]; exact Nat.zero_le _
  · exact Nat.le_of_lt (h.readPos_lt hd)

theorem WF.writePos_lt {b : RingBuffer} (h : b.WF) (hd : b.data ≠ []) :
    b.writePos < b.data.length := by
  rw [h.writePos_eq]
  exact Nat.mod_lt _ (List.length_pos_iff.mpr hd)

theorem WF.length_contents {b : RingBuffer} (h : b.WF) : b.contents.length = b.size :=
  length_circView h.size_le

/-- A buffer without storage is empty. -/
theorem WF.size_nil {b : RingBuffer} (h : b.WF) (hd : b.data = []) : b.size = 0 := by
  have := h.size_le
  rw [hd] at this
  exact Nat.le_zero.mp this

/-! ## Observers -/

theorem peek_spec {b : RingBuffer} (h : b.WF) (n : Nat) : b.peek n = b.contents.take n := by
  unfold peek contents
  rw [circView_take, circView_regions h.readPos_le]
  by_cases h0 : min n b.size = 0
  · simp [h0]
  · simp only [h0, if_false]

theorem peek_readable {b : RingBuffer} (h : b.WF) : b.peek b.readable = b.contents := by
  rw [peek_spec h, ← show b.contents.length = b.readable from h.length_contents, List.take_length]

/-- The regions of `read_iovecs` concatenate to the contents. -/
theorem readIovecs_spec {b : RingBuffer} (h : b.WF) :
    (b.readIovecs.map b.region).flatten = b.contents := by
  unfold contents
  by_cases h0 : b.size = 0 ∨ b.data = []
  · have hs : b.size = 0 := h0.elim id h.size_nil
    simp [readIovecs, hs]
  · rw [circView_regions h.readPos_le]
    simp only [readIovecs, if_neg h0]
    split_ifs with h2 <;> simp [region, h2]

/-- `write_iovecs` names nothing, the free region, or the free region in its two parts. -/
theorem writeIovecs_cases {b : RingBuffer} (h : b.WF) :
    (b.writable = 0 ∧ b.writeIovecs = []) ∨
    (0 < b.writable ∧ b.writePos + b.writable ≤ b.data.length ∧
      b.writeIovecs = [⟨b.writePos, b.writable⟩]) ∨
    (b.data.length < b.writePos + b.writable ∧ b.writePos < b.data.length ∧
      b.writeIovecs = [⟨b.writePos, b.data.length - b.writePos⟩,
        ⟨0, b.writable - (b.data.length - b.writePos)⟩]) := by
  by_cases h0 : b.writable = 0
  · exact Or.inl ⟨h0, by simp [writeIovecs, h0]⟩
  · have hd : b.data ≠ [] := by
      intro hd
      simp [writable, hd] at h0
    have hw := h.writePos_lt hd
    right
    unfold writeIovecs
    simp only [h0, hd, or_self, if_false]
    by_cases hf : b.writePos + b.writable ≤ b.data.length
    · left
      rw [Nat.min_eq_left (by omega), Nat.sub_self, if_pos rfl]
      exact ⟨by omega, hf, rfl⟩
    · right
      rw [Nat.min_eq_right (by omega), if_neg (by omega)]
      exact ⟨by omega, hw, rfl⟩

/-! ## `commit_read` -/

theorem commitRead_spec {b : RingBuffer} (h : b.WF) (n : Nat) :
    (b.commitRead n).WF ∧ (b.commitRead n).contents = b.contents.drop n := by
  by_cases hd : b.data = []
  · have hs := h.size_nil hd
    have hr := h.readPos_nil hd
    have hw : b.writePos = 0 := by rw [h.writePos_eq, hr, hs, hd]; rfl
    refine ⟨⟨?_, ?_, ?_, ?_⟩, ?_⟩ <;> simp [commitRead, contents, circView, hd, hs, hw]
  have hr := h.readPos_lt hd
  have hsz := h.size_le
  by_cases hn : b.size ≤ n
  · -- the buffer becomes empty and the read position jumps to the write position
    have e : b.commitRead n = { b with readPos := b.writePos, size := 0 } := by
      simp [commitRead, Nat.min_eq_right hn]
    rw [e]
    refine ⟨⟨Nat.zero_le _, fun _ => h.writePos_lt hd, fun hd' => absurd hd' hd, ?_⟩, ?_⟩
    · exact (Nat.mod_eq_of_lt (h.writePos_lt hd)).symm
    · rw [List.drop_of_length_le (by rw [h.length_contents]; exact hn)]
      exact circView_zero _ _
  · have e : b.commitRead n =
        { b with readPos := (b.readPos + n) % b.data.length, size := b.size - n } := by
      have hmin : min n b.size = n := Nat.min_eq_left (by omega)
      have hne : ¬ b.size - n = 0 := by omega
      simp only [commitRead, hmin, if_neg hd, if_neg hne]
    rw [e]
    refine ⟨⟨by show b.size - n ≤ b.data.length; omega, fun _ => Nat.mod_lt _ (by omega),
      fun hd' => absurd hd' hd, ?_⟩, ?_⟩
    · show b.writePos = ((b.readPos + n) % b.data.length + (b.size - n)) % b.data.length
      rw [Nat.mod_add_mod, h.writePos_eq]
      congr 1; omega
    · exact (circView_drop hr hsz (by omega)).symm

/-! ## Writing -/

/-- Committing `n` bytes of a filled free region: the view grows over them. -/
theorem commitWrite_spec {b : RingBuffer} (h : b.WF) {data : Bytes} {d : Bytes} {n : Nat}
    (hlen : data.length = b.data.length) (hfit : d.length ≤ b.writable)
    (hview : circView data b.readPos (b.size + d.length) = b.contents ++ d) (hn : n ≤ d.length) :
    (commitWrite { b with data := data } n).WF ∧
      (commitWrite { b with data := data } n).contents = b.contents ++ d.take n := by
  have hsz := h.size_le
  have hnil : data = [] ↔ b.data = [] := by
    rw [← List.length_eq_zero_iff, ← List.length_eq_zero_iff, hlen]
  unfold writable at hfit
  have hmin : min n (writable { b with data := data }) = n := by
    simp only [writable, hlen]; omega
  have hcont : circView data b.readPos (b.size + n) = b.contents ++ d.take n := by
    have := congrArg (List.take (b.size + n)) hview
    rw [circView_take, List.take_append, h.length_contents, Nat.add_sub_cancel_left,
      List.take_of_length_le (by rw [h.length_contents]; omega)] at this
    rw [← this]
    congr 1; omega
  unfold commitWrite
  simp only [hmin]
  refine ⟨⟨?_, fun hd => ?_, fun hd => ?_, ?_⟩, hcont⟩
  · show b.size + n ≤ data.length
    omega
  · rw [hlen]; exact h.readPos_lt (fun he => hd (hnil.mpr he))
  · exact h.readPos_nil (hnil.mp hd)
  · show (if data = [] then 0 else (b.writePos + n) % data.length) = _
    by_cases hd : data = []
    · have hn0 : b.size = 0 ∧ n = 0 := by
        have := h.size_nil (hnil.mp hd)
        have : d.length ≤ 0 := by rw [hnil.mp hd, this] at hfit; exact hfit
        exact ⟨‹_›, by omega⟩
      rw [if_pos hd, h.readPos_nil (hnil.mp hd), hn0.1, hn0.2, hd]
      rfl
    · rw [if_neg hd, h.writePos_eq, hlen, Nat.mod_add_mod, Nat.add_assoc]

/-- Copying into the region right behind the contents. -/
theorem memcpy_view {b : RingBuffer} (h : b.WF) {d : Bytes} (hfit : d.length ≤ b.writable)
    (hroom : b.writePos + d.length ≤ b.data.length) :
    circView (overwrite b.data b.writePos d) b.readPos (b.size + d.length) = b.contents ++ d := by
  have hsz := h.size_le
  by_cases hd : b.data = []
  · have hw : b.writePos = 0 := by
      rw [h.writePos_eq, h.readPos_nil hd, h.size_nil hd, hd]; rfl
    have : d = [] := List.length_eq_zero_iff.mp (by simpa [writable, hd] using hfit)
    simp [this, contents, circView, overwrite, hd, hw]
  · unfold writable at hfit
    exact circView_overwrite (h.readPos_lt hd) h.writePos_eq hroom (by omega)

/-- One turn of the inner loop of `append`: copy at the write position and commit. -/
theorem put_spec {b : RingBuffer} (h : b.WF) {d : Bytes} (hfit : d.length ≤ b.writable)
    (hroom : b.writePos + d.length ≤ b.data.length) :
    ((b.memcpy b.writePos d).commitWrite d.length).WF ∧
      ((b.memcpy b.writePos d).commitWrite d.length).contents = b.contents ++ d := by
  have := commitWrite_spec h (length_overwrite hroom) hfit (memcpy_view h hfit hroom)
    (Nat.le_refl _)
  rwa [List.take_length] at this

theorem put_writable {b : RingBuffer} {d : Bytes} (hfit : d.length ≤ b.writable)
    (hroom : b.writePos + d.length ≤ b.data.length) :
    ((b.memcpy b.writePos d).commitWrite d.length).writable = b.writable - d.length := by
  have hw : (b.memcpy b.writePos d).writable = b.writable := by
    simp only [writable, memcpy, length_overwrite hroom]
  have hs : ((b.memcpy b.writePos d).commitWrite d.length).size = b.size + d.length := by
    show b.size + min d.length (b.memcpy b.writePos d).writable = _
    rw [hw, Nat.min_eq_left hfit]
  have hl : ((b.memcpy b.writePos d).commitWrite d.length).data.length = b.data.length :=
    length_overwrite hroom
  unfold writable
  rw [hs, hl]
  omega

/-- Filling the region up to the end of the storage brings the write position back to 0. -/
theorem put_writePos {b : RingBuffer} {d : Bytes} (hd : b.data ≠ [])
    (hfit : d.length ≤ b.writable) (hroom : b.writePos + d.length = b.data.length) :
    ((b.memcpy b.writePos d).commitWrite d.length).writePos = 0 := by
  have hlen := length_overwrite (Nat.le_of_eq hroom)
  have hne : (b.memcpy b.writePos d).data ≠ [] := by
    intro he
    have : b.data.length = 0 := by rw [← hlen]; exact congrArg List.length he
    exact hd (List.length_eq_zero_iff.mp this)
  show (if (b.memcpy b.writePos d).data = [] then 0 else _) = 0
  rw [if_neg hne]
  show (b.writePos + min d.length (b.memcpy b.writePos d).writable) %
    (overwrite b.data b.writePos d).length = 0
  rw [hlen, show (b.memcpy b.writePos d).writable = b.writable by
    simp only [writable, memcpy, hlen], Nat.min_eq_left hfit, hroom, Nat.mod_self]

/-- **The stale regions are right.** One pass over the regions of `write_iovecs` copies
everything that fits, although the second region was computed before the first was committed. -/
theorem copyInto_spec {b : RingBuffer} (h : b.WF) {d : Bytes} (hfit : d.length ≤ b.writable) :
    ∃ b', b.copyInto b.writeIovecs d = (b', []) ∧ b'.WF ∧ b'.contents = b.contents ++ d ∧
      b'.capacity = b.capacity := by
  by_cases hd0 : d = []
  · subst hd0
    refine ⟨b, ?_, h, (List.append_nil _).symm, rfl⟩
    cases b.writeIovecs <;> simp [copyInto]
  have hpos : 0 < d.length := List.length_pos_iff.mpr hd0
  rcases writeIovecs_cases h with ⟨hw, -⟩ | ⟨-, hroom, e⟩ | ⟨hwrap, hlt, e⟩
  · omega
  · obtain ⟨hwf, hc⟩ := put_spec h hfit (by omega)
    refine ⟨_, ?_, hwf, hc, length_overwrite (by omega)⟩
    rw [e]
    simp only [copyInto, if_neg hd0, Nat.min_eq_right hfit, List.take_length, List.drop_length]
  · rw [e]
    simp only [copyInto, if_neg hd0]
    by_cases hshort : d.length ≤ b.data.length - b.writePos
    · obtain ⟨hwf, hc⟩ := put_spec h hfit (by omega)
      refine ⟨_, ?_, hwf, hc, length_overwrite (by omega)⟩
      rw [Nat.min_eq_right hshort, List.take_length, List.drop_length, if_pos rfl]
    · -- both regions: after the first commit the write position is 0
      rw [Nat.min_eq_left (by omega)]
      have hl : (d.take (b.data.length - b.writePos)).length = b.data.length - b.writePos := by
        rw [List.length_take]; omega
      have hl' : (d.drop (b.data.length - b.writePos)).length =
          d.length - (b.data.length - b.writePos) := List.length_drop
      have hdne : b.data ≠ [] := List.length_pos_iff.mp (by omega)
      obtain ⟨hwf, hc⟩ :=
        put_spec (d := d.take (b.data.length - b.writePos)) h (by omega) (by omega)
      have hwr := put_writable (b := b) (d := d.take (b.data.length - b.writePos))
        (by omega) (by omega)
      have hwp := put_writePos (d := d.take (b.data.length - b.writePos)) hdne (by omega) (by omega)
      rw [hl] at hwf hc hwr hwp
      have hsz := h.size_le
      have hcap : ((b.memcpy b.writePos (d.take (b.data.length - b.writePos))).commitWrite
          (b.data.length - b.writePos)).data.length = b.data.length :=
        length_overwrite (by omega)
      obtain ⟨hwf', hc'⟩ := put_spec (d := d.drop (b.data.length - b.writePos)) hwf (by omega)
        (by rw [hwp, hcap]; unfold writable at hfit; omega)
      rw [hwp, hl'] at hwf' hc'
      refine ⟨_, ?_, hwf', ?_, (length_overwrite ?_).trans hcap⟩
      · rw [if_neg (fun he => by rw [he] at hl'; simp at hl'; omega), Nat.min_eq_right (by omega),
          ← hl', List.take_length, List.drop_length]
      · rw [hc', hc, List.append_assoc, List.take_append_drop]
      · rw [hcap]; unfold writable at hfit; omega

/-- Filling the regions of `write_iovecs` in order lays `d` behind the contents. -/
theorem fillRegions_view {b : RingBuffer} (h : b.WF) {d : Bytes} (hfit : d.length ≤ b.writable) :
    ∃ data, b.fillRegions b.writeIovecs d = { b with data := data } ∧
      data.length = b.data.length ∧
      circView data b.readPos (b.size + d.length) = b.contents ++ d := by
  rcases writeIovecs_cases h with ⟨hw, e⟩ | ⟨-, hroom, e⟩ | ⟨hwrap, hlt, e⟩
  · have hd : d = [] := List.length_eq_zero_iff.mp (by omega)
    subst hd
    exact ⟨b.data, by rw [e]; rfl, rfl, by rw [List.append_nil]; rfl⟩
  · refine ⟨overwrite b.data b.writePos d, ?_, length_overwrite (by omega),
      memcpy_view h hfit (by omega)⟩
    rw [e]
    simp only [fillRegions, List.take_of_length_le hfit]
    rfl
  · have hsz := h.size_le
    have hfree := hfit
    unfold writable at hfree
    obtain ⟨k, hk⟩ : ∃ k, k = b.data.length - b.writePos := ⟨_, rfl⟩
    rw [← hk] at e
    have hl : (d.take k).length = min k d.length := List.length_take
    have hl' : (d.drop k).length = d.length - k := List.length_drop
    have hv := memcpy_view (d := d.take k) h (by omega) (by omega)
    have hlen : (overwrite b.data b.writePos (d.take k)).length = b.data.length :=
      length_overwrite (by omega)
    refine ⟨overwrite (overwrite b.data b.writePos (d.take k)) 0 (d.drop k), ?_,
      by rw [length_overwrite (by omega), hlen], ?_⟩
    · rw [e]
      have hrest : (d.drop k).take (b.writable - k) = d.drop k :=
        List.take_of_length_le (by omega)
      simp only [fillRegions, hrest]
      rfl
    by_cases hshort : d.length ≤ k
    · rw [List.drop_of_length_le hshort, List.take_of_length_le hshort]
      rw [List.take_of_length_le hshort] at hv
      simpa [overwrite] using hv
    · have hd : b.data ≠ [] := List.length_pos_iff.mp (by omega)
      -- the first part fills the storage to its end, so the second starts at 0
      have hw0 : 0 = (b.readPos + (b.size + (d.take k).length)) %
          (overwrite b.data b.writePos (d.take k)).length := by
        rw [hlen, ← Nat.add_assoc, ← Nat.mod_add_mod, ← h.writePos_eq, hl,
          Nat.min_eq_left (by omega), show b.writePos + k = b.data.length by omega, Nat.mod_self]
      have := circView_overwrite (d := d.drop k) (by rw [hlen]; exact h.readPos_lt hd) hw0
        (by omega) (by omega)
      rw [hv, List.append_assoc, List.take_append_drop] at this
      rw [← this]
      congr 1; omega

/-- **`write_iovecs` then `commit_write`** appends the first `k` bytes laid in the regions. -/
theorem writeThrough_spec {b : RingBuffer} (h : b.WF) {d : Bytes} {k : Nat}
    (hfit : d.length ≤ b.writable) (hk : k ≤ d.length) :
    (b.writeThrough d k).WF ∧ (b.writeThrough d k).contents = b.contents ++ d.take k := by
  obtain ⟨data, e, hlen, hview⟩ := fillRegions_view h hfit
  unfold writeThrough
  rw [e]
  exact commitWrite_spec h hlen hfit hview hk

/-! ## Growing -/

/-- The linearised copy `ensure_writable` moves to, at any capacity that holds the contents. -/
theorem grown_spec {b : RingBuffer} (h : b.WF) {cap : Nat} (hcap : b.size ≤ cap) :
    let existing := b.peek b.size
    let data := existing ++ List.replicate (cap - existing.length) 0
    let b' : RingBuffer := ⟨data, 0, if existing.length = data.length then 0 else existing.length,
      existing.length⟩
    b'.WF ∧ b'.contents = b.contents ∧ b'.capacity = cap ∧ b'.size = b.size := by
  have hpeek : b.peek b.size = b.contents := by
    rw [peek_spec h, List.take_of_length_le (Nat.le_of_eq h.length_contents)]
  simp only [hpeek]
  have hl := h.length_contents
  have hdl : (b.contents ++ List.replicate (cap - b.contents.length) 0).length = cap := by
    rw [List.length_append, List.length_replicate]; omega
  refine ⟨⟨?_, fun hd => List.length_pos_iff.mpr hd, fun _ => rfl, ?_⟩, ?_, hdl, hl⟩
  · show b.contents.length ≤ _
    rw [hdl]; omega
  · simp only [hdl, Nat.zero_add]
    by_cases hfull : b.contents.length = cap
    · rw [if_pos hfull, hfull, Nat.mod_self]
    · rw [if_neg hfull, Nat.mod_eq_of_lt (by omega)]
  · show circView (b.contents ++ List.replicate (cap - b.contents.length) 0) 0 b.contents.length = _
    rw [circView_start (by rw [hdl]; omega)]
    exact List.take_left

/-- What `ensure_writable` can do: nothing, fail, or move to the new capacity. -/
theorem ensureWritable_cases {b : RingBuffer} (h : b.WF) (n : Nat) :
    (n ≤ b.writable ∧ b.ensureWritable n = (.ok (), b)) ∨
    (b.writable < n ∧ b.grownCapacity n < b.size ∧ ∃ e, b.ensureWritable n = (.error e, b)) ∨
    (b.writable < n ∧ b.size ≤ b.grownCapacity n ∧ ∃ b', b.ensureWritable n = (.ok (), b') ∧
      b'.WF ∧ b'.contents = b.contents ∧ b'.capacity = b.grownCapacity n ∧ b'.size = b.size) := by
  unfold ensureWritable
  by_cases hw : n ≤ b.writable
  · exact Or.inl ⟨hw, if_pos hw⟩
  · right
    rw [if_neg hw]
    by_cases hcap : b.grownCapacity n < b.size
    · exact Or.inl ⟨Nat.lt_of_not_le hw, hcap, _, if_pos hcap⟩
    · have hroom := Nat.le_of_not_lt hcap
      exact Or.inr ⟨Nat.lt_of_not_le hw, hroom, _, if_neg hcap, grown_spec h hroom⟩

/-- **`ensure_writable(n)`** keeps the contents and makes room, when `capacity + n` fits
`size_t`. -/
theorem ensureWritable_spec {b : RingBuffer} (h : b.WF) {n : Nat} (hn : b.capacity + n < sizeMod) :
    ∃ b', b.ensureWritable n = (.ok (), b') ∧ b'.WF ∧ b'.contents = b.contents ∧
      n ≤ b'.writable ∧ b'.capacity ≤ 2 * b.capacity + n := by
  have hsz := h.size_le
  have hcap : b.capacity + n ≤ b.grownCapacity n ∧ b.grownCapacity n ≤ 2 * b.capacity + n := by
    unfold capacity at hn ⊢
    have hmod : b.data.length * 2 % sizeMod ≤ b.data.length * 2 := Nat.mod_le _ _
    simp only [grownCapacity, Nat.mod_eq_of_lt hn]
    split_ifs <;> omega
  rcases ensureWritable_cases h n with ⟨hw, e⟩ | ⟨-, hlt, -⟩ | ⟨-, -, b', e, hwf, hc, hcap', hs⟩
  · exact ⟨b, e, h, rfl, hw, by omega⟩
  · unfold capacity at hcap
    omega
  · refine ⟨b', e, hwf, hc, ?_, by rw [hcap']; exact hcap.2⟩
    unfold capacity at hcap hcap'
    unfold writable
    rw [hcap', hs]
    omega

/-- **`append(d)`** answers, succeeds and adds `d` at the end. -/
theorem append_spec {b : RingBuffer} (h : b.WF) {d : Bytes} (hd : b.capacity + d.length < sizeMod) :
    ∃ b', b.append d = some (.ok (), b') ∧ b'.WF ∧ b'.contents = b.contents ++ d ∧
      b'.capacity ≤ 2 * b.capacity + d.length := by
  obtain ⟨b₁, e₁, h₁, hc₁, hw, hcap₁⟩ := ensureWritable_spec h hd
  unfold append
  rw [e₁]
  cases d with
  | nil => exact ⟨b₁, rfl, h₁, by rw [hc₁, List.append_nil], hcap₁⟩
  | cons c d =>
    obtain ⟨b₂, e₂, h₂, hc₂, hcap₂⟩ := copyInto_spec h₁ hw
    refine ⟨b₂, ?_, h₂, by rw [hc₂, hc₁], by rw [hcap₂]; exact hcap₁⟩
    rcases writeIovecs_cases h₁ with ⟨hw0, -⟩ | ⟨-, -, e⟩ | ⟨-, -, e⟩
    · simp only [List.length_cons] at hw; omega
    all_goals
      rw [e] at e₂
      simp only [List.length_cons, appendLoop, e, e₂]

/-! ## Runs -/

/-- The operations of a run. -/
inductive Op where
  | append (d : Bytes)
  | commitRead (n : Nat)
  | ensureWritable (n : Nat)
  | write (d : Bytes) (k : Nat)
  deriving DecidableEq, Repr

/-- One operation on the buffer; `none` would be an `append` that never returns. -/
def exec (b : RingBuffer) : Op → Option (Result Unit × RingBuffer)
  | .append d => b.append d
  | .commitRead n => some (.ok (), b.commitRead n)
  | .ensureWritable n => some (b.ensureWritable n)
  | .write d k => some (.ok (), b.writeThrough d k)

/-- What a caller may ask of a buffer: sizes that do not wrap `size_t`, and no more bytes written
through the regions than they hold or committed than were written. -/
def Fits (b : RingBuffer) : Op → Prop
  | .append d => b.capacity + d.length < sizeMod
  | .commitRead _ => True
  | .ensureWritable n => b.capacity + n < sizeMod
  | .write d k => d.length ≤ b.writable ∧ k ≤ d.length

instance (b : RingBuffer) : (op : Op) → Decidable (b.Fits op)
  | .append d => inferInstanceAs (Decidable (b.capacity + d.length < sizeMod))
  | .commitRead _ => inferInstanceAs (Decidable True)
  | .ensureWritable n => inferInstanceAs (Decidable (b.capacity + n < sizeMod))
  | .write d k => inferInstanceAs (Decidable (d.length ≤ b.writable ∧ k ≤ d.length))

end RingBuffer

/-- The queue a ring buffer stands for. -/
def Queue.apply (q : Bytes) : RingBuffer.Op → Bytes
  | .append d => q ++ d
  | .commitRead n => q.drop n
  | .ensureWritable _ => q
  | .write d k => q ++ d.take k

/-- A run of the queue from empty. -/
def Queue.run (ops : List RingBuffer.Op) : Bytes := ops.foldl Queue.apply []

namespace RingBuffer

/-- Runs of fitting operations from `RingBuffer(cap)`. -/
inductive Reach (cap : Nat) : List Op → RingBuffer → Prop where
  | init : Reach cap [] (new cap)
  | step {ops b op r b'} (h : Reach cap ops b) (hf : b.Fits op)
      (he : b.exec op = some (r, b')) : Reach cap (ops ++ [op]) b'

/-- One fitting operation succeeds and acts on the contents as on a queue. -/
theorem exec_spec {b : RingBuffer} (h : b.WF) {op : Op} (hf : b.Fits op) :
    ∃ b', b.exec op = some (.ok (), b') ∧ b'.WF ∧ b'.contents = Queue.apply b.contents op := by
  cases op with
  | append d =>
    obtain ⟨b', e, hwf, hc, -⟩ := append_spec h hf
    exact ⟨b', e, hwf, hc⟩
  | commitRead n => exact ⟨_, rfl, commitRead_spec h n⟩
  | ensureWritable n =>
    obtain ⟨b', e, hwf, hc, -⟩ := ensureWritable_spec h hf
    exact ⟨b', congrArg some e, hwf, hc⟩
  | write d k => exact ⟨_, rfl, writeThrough_spec h hf.1 hf.2⟩

theorem reach_spec {cap : Nat} {ops : List Op} {b : RingBuffer} (h : Reach cap ops b) :
    b.WF ∧ b.contents = Queue.run ops := by
  induction h with
  | init => exact ⟨wf_new cap, contents_new cap⟩
  | step _ hf he ih =>
    obtain ⟨b', e, hwf, hc⟩ := exec_spec ih.1 hf
    rw [he] at e
    cases e
    refine ⟨hwf, ?_⟩
    rw [hc, ih.2, Queue.run, Queue.run, List.foldl_append]
    rfl

/-- **A ring buffer is a FIFO byte queue**, along every run and from every capacity. -/
theorem ring_refines_queue {cap : Nat} {ops : List Op} {b : RingBuffer} (h : Reach cap ops b) :
    -- the positions and the fill count
    (b.size ≤ b.capacity ∧ b.writePos = (b.readPos + b.size) % b.capacity ∧
      (0 < b.capacity → b.readPos < b.capacity ∧ b.writePos < b.capacity) ∧
      (b.capacity = 0 → b.readPos = 0 ∧ b.writePos = 0)) ∧
    -- the contents are the queue's, and stay so under every further operation
    b.contents = Queue.run ops ∧ b.readable = b.contents.length ∧
    (∀ d, b.capacity + d.length < sizeMod →
      ∃ b', b.append d = some (.ok (), b') ∧ b'.contents = b.contents ++ d) ∧
    (∀ n, (b.commitRead n).contents = b.contents.drop (min n b.size)) ∧
    (∀ n, b.capacity + n < sizeMod →
      ∃ b', b.ensureWritable n = (.ok (), b') ∧ b'.contents = b.contents ∧ n ≤ b'.writable) ∧
    (∀ d k, d.length ≤ b.writable → k ≤ d.length →
      (b.writeThrough d k).contents = b.contents ++ d.take k) ∧
    -- the observers
    (∀ n, b.peek n = b.contents.take (min n b.size)) ∧
    (b.readIovecs.map b.region).flatten = b.contents := by
  obtain ⟨hwf, hc⟩ := reach_spec h
  have hlen := hwf.length_contents
  refine ⟨⟨hwf.size_le, hwf.writePos_eq, fun hcap => ?_, fun hcap => ?_⟩, hc, hlen.symm,
    fun d hd => ?_, fun n => ?_, fun n hn => ?_, fun d k hd hk => (writeThrough_spec hwf hd hk).2,
    fun n => ?_, readIovecs_spec hwf⟩
  · have hd : b.data ≠ [] := List.length_pos_iff.mp hcap
    exact ⟨hwf.readPos_lt hd, hwf.writePos_lt hd⟩
  · have hd : b.data = [] := List.length_eq_zero_iff.mp hcap
    refine ⟨hwf.readPos_nil hd, ?_⟩
    rw [hwf.writePos_eq, hwf.readPos_nil hd, hwf.size_nil hd, hd]
    rfl
  · obtain ⟨b', e, -, hc', -⟩ := append_spec hwf hd
    exact ⟨b', e, hc'⟩
  · rw [(commitRead_spec hwf n).2, ← hlen]
    by_cases hn : n ≤ b.contents.length
    · rw [Nat.min_eq_left hn]
    · rw [Nat.min_eq_right (by omega), List.drop_of_length_le (by omega), List.drop_length]
  · obtain ⟨b', e, -, hc', hw, -⟩ := ensureWritable_spec hwf hn
    exact ⟨b', e, hc', hw⟩
  · rw [peek_spec hwf, ← hlen, ← List.take_take, List.take_length]

/-- The run of the repository's own test: `cdef` lies across the end of a 4-byte buffer. -/
theorem ring_refines_queue_wrapped :
    ∃ b, Reach 4 [.append (ascii "abcd"), .commitRead 2, .append (ascii "ef")] b ∧
      b.readPos = 2 ∧ b.contents = ascii "cdef" ∧
      (b.readIovecs.map b.region).flatten = b.contents := by
  have h₁ : Reach 4 [.append (ascii "abcd")] ⟨ascii "abcd", 0, 0, 4⟩ :=
    .step (r := .ok ()) .init (by decide) (by decide)
  have h₂ : Reach 4 [.append (ascii "abcd"), .commitRead 2] ⟨ascii "abcd", 2, 0, 2⟩ :=
    .step (r := .ok ()) h₁ (by decide) (by decide)
  have h : Reach 4 [.append (ascii "abcd"), .commitRead 2, .append (ascii "ef")]
      ⟨ascii "efcd", 2, 2, 4⟩ :=
    .step (r := .ok ()) h₂ (by decide) (by decide)
  obtain ⟨-, hc, -, -, -, -, -, -, hio⟩ := ring_refines_queue h
  exact ⟨_, h, rfl, hc, hio⟩

end RingBuffer

/-! ## Buffers with their invariant -/

/-- A ring buffer that keeps its class invariant: what the rest of the program is handed. -/
structure Buffer extends RingBuffer where
  wf : toRingBuffer.WF

namespace Buffer

/-- The buffer `RingBuffer(d.size())` after `append(d)`. -/
def ofBytes (d : Bytes) : Buffer where
  data := d
  readPos := 0
  writePos := 0
  size := d.length
  wf := ⟨Nat.le_refl _, fun hd => List.length_pos_iff.mpr hd, fun _ => rfl, by simp⟩

theorem contents_ofBytes (d : Bytes) : (ofBytes d).contents = d := by
  show circView d 0 d.length = d
  rw [circView_start (Nat.le_refl _), List.take_length]

theorem readable_eq (b : Buffer) : b.readable = b.contents.length := b.wf.length_contents.symm

theorem peek_eq (b : Buffer) (n : Nat) : b.peek n = b.contents.take n := RingBuffer.peek_spec b.wf n

/-- The `k` bytes behind the first `n`. -/
theorem peek_commitRead (b : Buffer) (n k : Nat) :
    (b.commitRead n).peek k = (b.contents.drop n).take k := by
  obtain ⟨hwf, hc⟩ := RingBuffer.commitRead_spec b.wf n
  rw [RingBuffer.peek_spec hwf, hc]

end Buffer

end Uproxy
