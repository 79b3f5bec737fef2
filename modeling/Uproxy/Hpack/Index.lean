import Uproxy.Hpack.Codec

/-!
# The HPACK address space

Index `i` stands for static entry `i` up to 61, and for the dynamic entries, newest first, from 62
on (`entryAt`). The decoder's `lookup` subtracts the size of `HPACK_STATIC_TABLE`, which counts the
unused slot 0, and then counts from 1: it is off by one in the dynamic part.

* `Reach`: the states of a decoder, with the headers it inserted so far, newest first;
* `Reach.inv`: the dynamic table is the newest part of what was inserted, all of it in lower case,
  and has fewer than `2 ^ 59` entries;
* `lookup_eq_iff`: where `lookup` and the address space agree;
* `decodeStep_indexed`, `decodeStep_literal`, `decodeStep_incremental_large`: what a representation
  of an index does, by its first byte. The test for a table size update comes before the one for
  incremental indexing and looks at one bit, which belongs to the index there.

**`hpack_address_space`** and **`hpack_incremental`** say for which indices the decoder does what
its representations mean.
-/

namespace Uproxy

/-! ## Runs of a decoder -/

namespace HpackDecoder

/-- The header a turn inserted into the dynamic table, by the first byte it read. -/
def inserted : Bytes → Option HpackHeader → List HpackHeader
  | [], _ => []
  | b :: _, e => if b &&& 0x80 = 0 ∧ b &&& 0x20 = 0 ∧ b &&& 0x40 ≠ 0 then e.toList else []

/-- A state of a decoder and the headers inserted on the way to it, newest first. -/
inductive Reach : HpackDecoder → List HpackHeader → Prop where
  | init : Reach {} []
  | resize {t ins} (h : Reach t ins) (n : Nat) (hn : n < sizeMod) : Reach (t.setMaxTableSize n) ins
  | step {t t' ins data e rest} (h : Reach t ins) (hs : decodeStep t data = .ok (t', e, rest)) :
      Reach t' (inserted data e ++ ins)

/-- A call of `decode` is some turns of it, also when it fails. -/
theorem Reach.decode {t : HpackDecoder} {ins : List HpackHeader} (h : Reach t ins) (data : Bytes)
    (out : List HpackHeader) : ∃ ins', Reach (Uproxy.decode t data out).2.1 ins' := by
  suffices key : ∀ (fuel : Nat) {t ins} (data : Bytes) (out : List HpackHeader), Reach t ins →
      ∃ ins', Reach (decodeLoop fuel t data out).2.1 ins' from key data.length data out h
  intro fuel
  induction fuel with
  | zero => exact fun _ _ h => ⟨_, h⟩
  | succ fuel ih =>
    intro t ins data out h
    unfold decodeLoop
    split_ifs
    · exact ⟨_, h⟩
    · cases hs : decodeStep t data with
      | error e => exact ⟨_, h⟩
      | ok r =>
        obtain ⟨t', e, rest⟩ := r
        exact ih rest _ (h.step hs)

/-- What holds in every state. -/
structure Inv (t : HpackDecoder) (ins : List HpackHeader) : Prop where
  sound  : t.Sound
  max_lt : t.maxTableSize < sizeMod
  newest : t.dynamicTable <+: ins
  lower  : ∀ h ∈ ins, hasUppercase h.name = false

theorem Inv.setMaxTableSize {t : HpackDecoder} {ins : List HpackHeader} (h : Inv t ins) {n : Nat}
    (hn : n < sizeMod) : Inv (t.setMaxTableSize n) ins :=
  ⟨h.sound.setMaxTableSize n, hn, (HpackTable.evict_prefix _).trans h.newest, h.lower⟩

theorem Inv.addToDynamic {t : HpackDecoder} {ins : List HpackHeader} (h : Inv t ins)
    {e : HpackHeader} (he : hasUppercase e.name = false) : Inv (t.addToDynamic e) (e :: ins) := by
  refine ⟨h.sound.addToDynamic e, h.max_lt,
    (HpackTable.evict_prefix _).trans ((List.prefix_cons_inj e).mpr h.newest), fun x hx => ?_⟩
  rcases List.mem_cons.mp hx with rfl | hx
  · exact he
  · exact h.lower x hx

/-- One turn keeps the invariant. -/
theorem Inv.step {t t' : HpackDecoder} {ins : List HpackHeader} {data rest : Bytes}
    {e : Option HpackHeader} (h : Inv t ins) (hs : decodeStep t data = .ok (t', e, rest)) :
    Inv t' (inserted data e ++ ins) := by
  cases data with
  | nil =>
    cases hs
    exact h
  | cons b data =>
    rcases decodeStep_cases hs with ⟨idx, x, -, -, rfl, rfl, h80⟩ |
        ⟨size, -, hle, rfl, rfl, -, h20⟩ | ⟨hl, h80, h20⟩
    · rwa [inserted, if_neg fun hh => h80 hh.1]
    · rw [inserted, if_neg fun hh => h20 hh.2.1]
      exact h.setMaxTableSize (Nat.lt_of_le_of_lt hle h.max_lt)
    · obtain ⟨idx, d₁, name, d₂, value, -, -, -, hu, rfl, rfl⟩ := decodeLiteral_ok_iff.mp hl
      by_cases h40 : b &&& 0x40 ≠ 0
      · rw [if_pos (decide_eq_true h40), inserted, if_pos ⟨h80, h20, h40⟩]
        exact h.addToDynamic hu
      · rw [if_neg (by simpa using h40), inserted, if_neg fun hh => h40 hh.2.2]
        exact h

/-- **The invariant of every run.** -/
theorem Reach.inv {t : HpackDecoder} {ins : List HpackHeader} (h : Reach t ins) : Inv t ins := by
  induction h with
  | init =>
    exact ⟨HpackTable.sound_init, by decide, List.prefix_refl _,
      List.forall_mem_nil _⟩
  | resize _ n hn ih => exact ih.setMaxTableSize hn
  | step _ hs ih => exact ih.step hs

end HpackDecoder

open HpackDecoder

/-! ## The address space -/

/-- The entry an index stands for, with `k` dynamic entries left of those inserted. -/
def entryAt (ins : List HpackHeader) (k i : Nat) : Option HpackHeader :=
  if i = 0 then none
  else if i ≤ 61 then staticTable[i]?
  else if i ≤ 61 + k then ins[i - 62]?
  else none

theorem length_staticTable : staticTable.length = 62 := by decide

/-- A literal is in lower case if its characters are. -/
theorem hasUppercase_ofList {cs : List Char}
    (h : cs.all (fun c => !(65 ≤ c.toNat.toUInt8 && c.toNat.toUInt8 ≤ 90)) = true) :
    hasUppercase (ascii (String.ofList cs)) = false := by
  rw [ascii_ofList, hasUppercase, List.any_map, List.any_eq_not_all_not]
  simpa using h

theorem staticTable_lower : ∀ h ∈ staticTable, hasUppercase h.name = false := by
  simp only [staticTable, staticEntries, List.map_cons, List.map_nil, List.forall_mem_cons]
  repeat' apply And.intro
  all_goals first | exact hasUppercase_ofList rfl | exact List.forall_mem_nil _

theorem HpackDecoder.Inv.getElem? {t : HpackDecoder} {ins : List HpackHeader} (h : Inv t ins)
    {j : Nat}
    (hj : j < t.dynamicTable.length) : t.dynamicTable[j]? = ins[j]? := by
  obtain ⟨old, rfl⟩ := h.newest
  rw [List.getElem?_append_left hj]

theorem lookup_static (t : HpackDecoder) (ins : List HpackHeader) (k : Nat) {i : Nat} (h : i ≤ 61) :
    t.lookup i = entryAt ins k i := by
  unfold HpackTable.lookup entryAt
  rw [length_staticTable, if_pos h, if_pos (show i < 62 by omega)]

theorem lookup_dynamic (t : HpackDecoder) {i : Nat} (h : 61 < i) :
    t.lookup i =
      if i = 62 ∨ 62 + t.dynamicTable.length < i then none else t.dynamicTable[i - 63]? := by
  unfold HpackTable.lookup
  simp only [length_staticTable, if_neg (show ¬ i = 0 by omega), if_neg (show ¬ i < 62 by omega)]
  rw [show i - 62 - 1 = i - 63 by omega]
  exact if_congr (by omega) rfl rfl

theorem entryAt_dynamic (ins : List HpackHeader) (k : Nat) {i : Nat} (h : 61 < i) :
    entryAt ins k i = if i ≤ 61 + k then ins[i - 62]? else none := by
  unfold entryAt
  rw [if_neg (show ¬ i = 0 by omega), if_neg (show ¬ i ≤ 61 by omega)]

/-- **Where `lookup` is right**: outside the dynamic part, and where an entry happens to equal its
newer neighbour. `f` is what is taken of the entry. -/
theorem lookup_eq_iff {β : Type} (f : HpackHeader → β) {t : HpackDecoder} {ins : List HpackHeader}
    (h : Inv t ins) (i : Nat) :
    (t.lookup i).map f = (entryAt ins t.dynamicTable.length i).map f ↔
      i ≤ 61 ∨ t.dynamicTable = [] ∨ 62 + t.dynamicTable.length < i ∨
        (63 ≤ i ∧ i ≤ 61 + t.dynamicTable.length ∧ ins[i - 63]?.map f = ins[i - 62]?.map f) := by
  by_cases h61 : i ≤ 61
  · exact iff_of_true (congrArg _ (lookup_static t _ _ h61)) (Or.inl h61)
  have hlen : t.dynamicTable.length ≤ ins.length := h.newest.length_le
  rw [lookup_dynamic t (by omega), entryAt_dynamic ins _ (by omega)]
  by_cases hout : t.dynamicTable = [] ∨ 62 + t.dynamicTable.length < i
  · -- no dynamic entry, or none this old: both say so
    have hk : 61 + t.dynamicTable.length < i := by
      rcases hout with h0 | h0
      · rw [h0, List.length_nil]; omega
      · omega
    have hi : i = 62 ∨ 62 + t.dynamicTable.length < i := by
      rcases hout with h0 | h0
      · rw [h0, List.length_nil]; omega
      · exact Or.inr h0
    rw [if_pos hi, if_neg (show ¬ i ≤ 61 + t.dynamicTable.length by omega)]
    exact iff_of_true rfl (Or.inr (by tauto))
  rw [not_or] at hout
  have hpos : 0 < t.dynamicTable.length := List.length_pos_iff.mpr hout.1
  by_cases h62 : i = 62
  · -- the newest entry: `lookup` has no index for it
    subst h62
    rw [if_pos (Or.inl rfl), if_pos (show 62 ≤ 61 + t.dynamicTable.length by omega),
      List.getElem?_eq_getElem (show 62 - 62 < ins.length by omega)]
    refine iff_of_false nofun ?_
    rintro (h0 | h0 | h0 | h0)
    · omega
    · exact hout.1 h0
    · exact hout.2 h0
    · omega
  rw [if_neg (show ¬ (i = 62 ∨ 62 + t.dynamicTable.length < i) by tauto),
    h.getElem? (show i - 63 < t.dynamicTable.length by omega)]
  by_cases hin : i ≤ 61 + t.dynamicTable.length
  · rw [if_pos hin]
    simp only [h61, hout.1, hout.2, hin, true_and, false_or, show 63 ≤ i by omega]
  · -- one behind the last: `lookup` still finds the oldest entry
    rw [if_neg hin, List.getElem?_eq_getElem (show i - 63 < ins.length by omega)]
    refine iff_of_false nofun ?_
    tauto

theorem HpackDecoder.Inv.lookup_lower {t : HpackDecoder} {ins : List HpackHeader} (h : Inv t ins)
    {i : Nat} {x : HpackHeader} (hx : t.lookup i = some x) : hasUppercase x.name = false := by
  by_cases h61 : i ≤ 61
  · rw [lookup_static t ins 0 h61] at hx
    unfold entryAt at hx
    split_ifs at hx
    exact staticTable_lower x (List.mem_of_getElem? hx)
  · rw [lookup_dynamic t (by omega)] at hx
    split_ifs at hx
    exact h.lower x (h.newest.subset (List.mem_of_getElem? hx))

/-- No table reaches the indices `decode_int` refuses. -/
theorem HpackDecoder.Inv.lookup_large {t : HpackDecoder} {ins : List HpackHeader} (h : Inv t ins)
    {i : Nat} (hi : 2 ^ 63 ≤ i) :
    t.lookup i = none ∧ entryAt ins t.dynamicTable.length i = none := by
  have hk := h.sound.length_lt h.max_lt
  rw [lookup_dynamic t (by omega), entryAt_dynamic ins _ (by omega)]
  exact ⟨if_pos (by omega), if_neg (by omega)⟩

/-! ## Representations by index -/

theorem decodeStep_eq_decodeIndexed (t : HpackDecoder) (i : Nat) (rest : Bytes) :
    decodeStep t (encodeInt i 7 0x80 ++ rest) = decodeIndexed t (encodeInt i 7 0x80 ++ rest) := by
  have hflag : (0x80 ||| (min i (2 ^ 7 - 1)).toUInt8) &&& 0x80 ≠ 0 :=
    (huffman_flag true (min i (2 ^ 7 - 1)) (Nat.min_le_right _ _)).mpr rfl
  rw [encodeInt_eq, List.cons_append]
  exact if_pos hflag

theorem decodeStep_indexed (t : HpackDecoder) {i : Nat} (h0 : 0 < i) (hi : i < 127 + 2 ^ 63)
    (rest : Bytes) :
    decodeStep t (encodeInt i 7 0x80 ++ rest) =
      match t.lookup i with
      | none => .error (hpackError "invalid HPACK index")
      | some h => .ok (t, some h, rest) := by
  have hint : decodeInt 7 (encodeInt i 7 0x80 ++ rest) = .ok (i, rest) :=
    decodeInt_encodeInt (by decide) (by decide) (by decide) (by omega) (by omega) rest
  cases hl : t.lookup i <;> simp only [decodeStep_eq_decodeIndexed, decodeIndexed, hint, hl]

theorem decodeStep_indexed_refused (t : HpackDecoder) {i : Nat} (hi : i = 0 ∨ 127 + 2 ^ 63 ≤ i)
    (rest : Bytes) : ∃ e, decodeStep t (encodeInt i 7 0x80 ++ rest) = .error e := by
  rw [decodeStep_eq_decodeIndexed]
  unfold decodeIndexed
  rcases hi with rfl | hi
  · exact ⟨_, rfl⟩
  · rw [decodeInt_encodeInt_large (by decide) (by decide) (by decide) (by omega) rest]
    exact ⟨_, rfl⟩

/-- The three literals. -/
inductive LiteralForm where
  | incremental | withoutIndexing | neverIndexed
  deriving DecidableEq, Repr

namespace LiteralForm

def prefixBits : LiteralForm → Nat
  | incremental => 6
  | withoutIndexing => 4
  | neverIndexed => 4

/-- The pattern in front of the name index. -/
def lead : LiteralForm → UInt8
  | incremental => 0x40
  | withoutIndexing => 0x00
  | neverIndexed => 0x10

/-- What the decoder's tests see of the first byte, `m` being the value in its prefix. -/
theorem flags (f : LiteralForm) : ∀ m ≤ 2 ^ f.prefixBits - 1,
    (f.lead ||| m.toUInt8) &&& 0x80 = 0 ∧
    ((f.lead ||| m.toUInt8) &&& 0x20 ≠ 0 ↔ f = incremental ∧ 32 ≤ m) ∧
    ((f.lead ||| m.toUInt8) &&& 0x40 ≠ 0 ↔ f = incremental) ∧
    (m < 32 → ((f.lead ||| m.toUInt8) &&& 0x10 ≠ 0 ↔
      f = neverIndexed ∨ f = incremental ∧ 16 ≤ m)) := by
  cases f <;> decide

end LiteralForm

/-- **A literal with a name index**, where its first byte reaches the branch of the literals. -/
theorem decodeStep_literal (t : HpackDecoder) (f : LiteralForm) {i : Nat} (h0 : 0 < i)
    (hi : i < 2 ^ f.prefixBits - 1 + 2 ^ 63) (hf : f = .incremental → i ≤ 31) {v str : Bytes}
    (hv : v ≠ []) (hstr : StringForm v str) (rest : Bytes) :
    decodeStep t (encodeInt i f.prefixBits f.lead ++ (str ++ rest)) =
      match t.lookup i with
      | none => .error (hpackError "invalid HPACK name index")
      | some h =>
        if hasUppercase h.name then .error (hpackError "uppercase HTTP/2 header name")
        else
          let header : HpackHeader := ⟨h.name, v, f = .neverIndexed ∨ f = .incremental ∧ 16 ≤ i⟩
          .ok (if f = .incremental then t.addToDynamic header else t, some header, rest) := by
  have hint : decodeInt f.prefixBits (encodeInt i f.prefixBits f.lead ++ (str ++ rest)) =
      .ok (i, str ++ rest) := by
    refine decodeInt_encodeInt ?_ ?_ ?_ (by omega) hi _ <;> cases f <;> decide
  have hm32 : min i (2 ^ f.prefixBits - 1) < 32 := by
    cases f with
    | incremental => have := hf rfl; omega
    | withoutIndexing => exact Nat.lt_of_le_of_lt (Nat.min_le_right _ _) (by decide)
    | neverIndexed => exact Nat.lt_of_le_of_lt (Nat.min_le_right _ _) (by decide)
  have hmi : f = .incremental → min i (2 ^ f.prefixBits - 1) = i := by
    rintro rfl
    have := hf rfl
    exact Nat.min_eq_left (show i ≤ 63 by omega)
  obtain ⟨h80, h20, h40, h10⟩ := f.flags (min i (2 ^ f.prefixBits - 1)) (Nat.min_le_right _ _)
  have h10' : (f.lead ||| (min i (2 ^ f.prefixBits - 1)).toUInt8) &&& 0x10 ≠ 0 ↔
      f = .neverIndexed ∨ f = .incremental ∧ 16 ≤ i := by
    rw [h10 hm32]
    refine or_congr_right (and_congr_right fun hfi => ?_)
    rw [hmi hfi]
  have hbits : (if f = LiteralForm.incremental then 6 else 4) = f.prefixBits := by cases f <;> rfl
  rw [encodeInt_eq, List.cons_append] at hint ⊢
  unfold decodeStep
  simp only
  rw [if_neg (fun hn => hn h80), if_neg (fun hn => by have := (h20.mp hn).2; omega)]
  unfold decodeLiteral
  simp only [h40, h10', decide_eq_true_eq, hbits, hint]
  unfold decodeName
  rw [if_neg (by omega)]
  cases t.lookup i with
  | none => rfl
  | some x => simp only [hstr.decodeString hv]

/-- A turn answers a literal with value `v`: the header with the name of an entry, or an error if
there is none. -/
def Answers (r : StepResult) (v rest : Bytes) : Option HpackHeader → Prop
  | some h => ∃ t' sensitive, r = .ok (t', some ⟨h.name, v, sensitive⟩, rest)
  | none => ∃ e, r = .error e

/-- An answer determines the name. -/
theorem Answers.iff {r : StepResult} {v rest : Bytes} {a : Option HpackHeader}
    (h : Answers r v rest a) (b : Option HpackHeader) :
    Answers r v rest b ↔ a.map HpackHeader.name = b.map HpackHeader.name := by
  cases a with
  | none =>
    obtain ⟨e, rfl⟩ := h
    cases b with
    | none => exact iff_of_true ⟨e, rfl⟩ rfl
    | some y => exact iff_of_false (fun ⟨_, _, hok⟩ => nomatch hok) nofun
  | some x =>
    obtain ⟨t', s, rfl⟩ := h
    cases b with
    | none => exact iff_of_false (fun ⟨_, herr⟩ => nomatch herr) nofun
    | some y =>
      simp only [Option.map_some, Option.some.injEq]
      constructor
      · rintro ⟨t'', s', hok⟩
        simp only [Except.ok.injEq, Prod.mk.injEq, Option.some.injEq, HpackHeader.mk.injEq] at hok
        exact hok.2.1.1
      · intro hname
        rw [hname]
        exact ⟨t', s, rfl⟩

/-- What a literal with a name index does, in a state of a run. -/
theorem HpackDecoder.Inv.literal_outcome {t : HpackDecoder} {ins : List HpackHeader} (h : Inv t ins)
    (f : LiteralForm) {i : Nat} (h0 : 0 < i) (hf : f = .incremental → i ≤ 31) {v str : Bytes}
    (hv : v ≠ []) (hstr : StringForm v str) (rest : Bytes) :
    Answers (decodeStep t (encodeInt i f.prefixBits f.lead ++ (str ++ rest))) v rest
      (t.lookup i) := by
  by_cases hi : i < 2 ^ f.prefixBits - 1 + 2 ^ 63
  · have hstep := decodeStep_literal t f h0 hi hf hv hstr rest
    cases hl : t.lookup i with
    | none =>
      rw [hl] at hstep
      exact ⟨_, hstep⟩
    | some x =>
      rw [hl] at hstep
      simp only [h.lookup_lower hl, Bool.false_eq_true, if_false] at hstep
      exact ⟨_, _, hstep⟩
  · -- `decode_int` refuses, and no table is that long
    rw [(h.lookup_large (by omega)).1]
    have hfi : f ≠ .incremental := fun hh => by have := hf hh; omega
    have hint : decodeInt f.prefixBits (encodeInt i f.prefixBits f.lead ++ (str ++ rest)) =
        .error (hpackError "HPACK integer overflow") := by
      refine decodeInt_encodeInt_large ?_ ?_ ?_ (by omega) _ <;> cases f <;> decide
    obtain ⟨h80, h20, h40, -⟩ := f.flags (min i (2 ^ f.prefixBits - 1)) (Nat.min_le_right _ _)
    have hbits : (if f = LiteralForm.incremental then 6 else 4) = f.prefixBits := by cases f <;> rfl
    refine ⟨hpackError "HPACK integer overflow", ?_⟩
    rw [encodeInt_eq, List.cons_append] at hint ⊢
    unfold decodeStep
    simp only
    rw [if_neg (fun hn => hn h80), if_neg (fun hn => hfi (h20.mp hn).1)]
    unfold decodeLiteral
    simp only [h40, decide_eq_true_eq, hbits, hint]

theorem decodeStep_eq_decodeSizeUpdate (t : HpackDecoder) {i : Nat} (h32 : 32 ≤ i) (rest : Bytes) :
    decodeStep t (encodeInt i 6 0x40 ++ rest) =
      decodeSizeUpdate t (encodeInt i 6 0x40 ++ rest) := by
  obtain ⟨h80, h20, -⟩ := LiteralForm.incremental.flags (min i (2 ^ 6 - 1)) (Nat.min_le_right _ _)
  have h20' : (0x40 ||| (min i (2 ^ 6 - 1)).toUInt8) &&& 0x20 ≠ 0 := h20.mpr ⟨rfl, by omega⟩
  rw [encodeInt_eq, List.cons_append]
  unfold decodeStep
  simp only
  rw [if_neg (fun hn => hn h80), if_pos h20']

/-- Read under a 5-bit prefix, a 6-bit index from 32 on is 32 less. -/
theorem decodeInt_five {i : Nat} (h32 : 32 ≤ i) (rest : Bytes) :
    decodeInt 5 (encodeInt i 6 0x40 ++ rest) =
      if i < 63 + 2 ^ 63 then .ok (i - 32, rest)
      else .error (hpackError "HPACK integer overflow") := by
  have hmod : ∀ m ≤ 63, 32 ≤ m → (0x40 ||| m.toUInt8 : UInt8).toNat % 2 ^ 5 = m - 32 := by decide
  have h63 : 128 ^ 9 = 2 ^ 63 := by decide
  rw [encodeInt_eq, List.cons_append, decodeInt_cons (by decide) (by decide),
    hmod (min i (2 ^ 6 - 1)) (Nat.min_le_right _ _) (by omega)]
  unfold encodeIntRest
  by_cases hi : i < 2 ^ 6 - 1
  · rw [if_pos (show min i (2 ^ 6 - 1) - 32 < 2 ^ 5 - 1 by omega), if_neg (by omega), if_pos hi,
      if_pos (by omega), Nat.min_eq_left (by omega)]
    rfl
  · rw [if_neg (show ¬ min i (2 ^ 6 - 1) - 32 < 2 ^ 5 - 1 by omega), if_neg hi]
    by_cases hlt : i < 63 + 2 ^ 63
    · rw [if_pos hlt, readGroups_encodeIntTail rest (Nat.le_refl _) (Nat.zero_le 8)
        (show i - (2 ^ 6 - 1) < 128 ^ 9 by omega)]
      simp only [Except.map, Nat.pow_zero, Nat.mul_one, Except.ok.injEq, Prod.mk.injEq, and_true]
      omega
    · rw [if_neg hlt, readGroups_encodeIntTail_large rest (Nat.le_refl _) (Nat.zero_le 8)
        (show 128 ^ 9 ≤ i - (2 ^ 6 - 1) by omega)]
      rfl

/-- **A literal with incremental indexing and an index from 32 on** is taken for a table size
update. -/
theorem decodeStep_incremental_large (t : HpackDecoder) {i : Nat} (h32 : 32 ≤ i) (rest : Bytes) :
    decodeStep t (encodeInt i 6 0x40 ++ rest) =
      if i < 63 + 2 ^ 63 then
        if t.maxTableSize < i - 32 then .error (hpackError "dynamic table size update too large")
        else .ok (t.setMaxTableSize (i - 32), none, rest)
      else .error (hpackError "HPACK integer overflow") := by
  rw [decodeStep_eq_decodeSizeUpdate t h32]
  unfold decodeSizeUpdate
  rw [decodeInt_five h32]
  split_ifs <;> simp_all

/-! ## What the representations should do -/

/-- The indexed field `i` is answered as the address space says. -/
def IndexedOk (t : HpackDecoder) (ins : List HpackHeader) (i : Nat) : Prop :=
  ∀ rest : Bytes,
    match entryAt ins t.dynamicTable.length i with
    | some h => decodeStep t (encodeInt i 7 0x80 ++ rest) = .ok (t, some h, rest)
    | none => ∃ e, decodeStep t (encodeInt i 7 0x80 ++ rest) = .error e

/-- A literal with the name index `i` and any value takes the name the address space says. -/
def LiteralOk (f : LiteralForm) (t : HpackDecoder) (ins : List HpackHeader) (i : Nat) : Prop :=
  ∀ v str rest : Bytes, v ≠ [] → StringForm v str →
    Answers (decodeStep t (encodeInt i f.prefixBits f.lead ++ (str ++ rest))) v rest
      (entryAt ins t.dynamicTable.length i)

theorem indexedOk_iff {t : HpackDecoder} {ins : List HpackHeader} (h : Inv t ins) (i : Nat) :
    IndexedOk t ins i ↔ t.lookup i = entryAt ins t.dynamicTable.length i := by
  unfold IndexedOk
  by_cases hi : i = 0 ∨ 127 + 2 ^ 63 ≤ i
  · have hnone : t.lookup i = none ∧ entryAt ins t.dynamicTable.length i = none := by
      rcases hi with rfl | hi
      · exact ⟨rfl, rfl⟩
      · exact h.lookup_large (by omega)
    rw [hnone.1, hnone.2]
    exact iff_of_true (decodeStep_indexed_refused t hi) rfl
  · rw [not_or] at hi
    simp only [decodeStep_indexed t (show 0 < i by omega) (show i < 127 + 2 ^ 63 by omega)]
    cases t.lookup i with
    | none => cases entryAt ins t.dynamicTable.length i <;> simp
    | some x => cases entryAt ins t.dynamicTable.length i <;> simp

/-- A value to try a literal with. -/
theorem stringForm_a : ascii "a" ≠ [] ∧ StringForm (ascii "a") (rawString (ascii "a")) :=
  ⟨by decide, .raw (by decide)⟩

theorem literalOk_iff {t : HpackDecoder} {ins : List HpackHeader} (h : Inv t ins) {f : LiteralForm}
    {i : Nat} (h0 : 0 < i) (hf : f = .incremental → i ≤ 31) :
    LiteralOk f t ins i ↔
      (t.lookup i).map HpackHeader.name =
        (entryAt ins t.dynamicTable.length i).map HpackHeader.name := by
  constructor
  · intro hall
    have hlit := h.literal_outcome f h0 hf stringForm_a.1 stringForm_a.2 []
    exact (hlit.iff _).mp (hall _ _ [] stringForm_a.1 stringForm_a.2)
  · intro hname v str rest hv hstr
    exact ((h.literal_outcome f h0 hf hv hstr rest).iff _).mpr hname

theorem literalOk_incremental_iff {t : HpackDecoder} {ins : List HpackHeader} (h : Inv t ins)
    {i : Nat} (h0 : 0 < i) :
    LiteralOk .incremental t ins i ↔
      i ≤ 31 ∨ 61 + t.dynamicTable.length < i ∧ (t.maxTableSize < i - 32 ∨ 63 + 2 ^ 63 ≤ i) := by
  by_cases h31 : i ≤ 31
  · refine iff_of_true ((literalOk_iff h h0 fun _ => h31).mpr ?_) (Or.inl h31)
    rw [lookup_static t _ _ (show i ≤ 61 by omega)]
  have hstep := fun rest => decodeStep_incremental_large t (show 32 ≤ i by omega) rest
  have hlen : t.dynamicTable.length ≤ ins.length := h.newest.length_le
  simp only [h31, false_or]
  unfold LiteralOk LiteralForm.prefixBits LiteralForm.lead
  simp only [hstep]
  by_cases hin : i ≤ 61 + t.dynamicTable.length
  · -- an entry the index stands for: no header comes out
    have hsome : ∃ y, entryAt ins t.dynamicTable.length i = some y := by
      unfold entryAt
      split_ifs
      · omega
      · exact ⟨_, List.getElem?_eq_getElem (by rw [length_staticTable]; omega)⟩
      · exact ⟨_, List.getElem?_eq_getElem (by omega)⟩
    obtain ⟨y, hy⟩ := hsome
    rw [hy]
    refine iff_of_false (fun hall => ?_) (by omega)
    obtain ⟨t', s, hok⟩ := hall _ _ [] stringForm_a.1 stringForm_a.2
    split_ifs at hok
    cases hok
  · -- no entry: an error is due, and comes from the size update if at all
    rw [entryAt_dynamic ins _ (by omega), if_neg hin]
    simp only [show 61 + t.dynamicTable.length < i by omega, true_and]
    constructor
    · intro hall
      obtain ⟨e, herr⟩ := hall _ _ [] stringForm_a.1 stringForm_a.2
      split_ifs at herr with h1 h2
      · exact Or.inl h2
      · exact Or.inr (by omega)
    · rintro hcond v str rest - -
      rcases hcond with hmax | hbig
      · by_cases h1 : i < 63 + 2 ^ 63
        · exact ⟨_, by rw [if_pos h1, if_pos hmax]⟩
        · exact ⟨_, by rw [if_neg h1]⟩
      · exact ⟨_, by rw [if_neg (by omega)]⟩

/-- In a literal, 0 is no index: the name follows, and no error is due. -/
theorem not_literalOk_zero (f : LiteralForm) (t : HpackDecoder) (ins : List HpackHeader) :
    ¬ LiteralOk f t ins 0 := by
  intro hall
  obtain ⟨e, herr⟩ := hall _ _ (rawString (ascii "a")) stringForm_a.1 stringForm_a.2
  have hok : ∃ r, decodeStep t (encodeInt 0 f.prefixBits f.lead ++
      (rawString (ascii "a") ++ rawString (ascii "a"))) = .ok r := by
    cases f <;> exact ⟨_, rfl⟩
  obtain ⟨r, hok⟩ := hok
  rw [hok] at herr
  cases herr

/-- **The HPACK address space**: the indices, and the representations of them, for which a decoder
in a state of a run does what they mean. An indexed field and the literals that are not added to
the table fail in the dynamic part, up to one index behind it, unless an entry equals its newer
neighbour (for a literal: has its name). A literal with incremental indexing fails from 32 on,
where it is a table size update to `i - 32`, unless an error is due and that update is one. In
literals 0 stands for a name that follows. -/
theorem hpack_address_space (t : HpackDecoder) (ins : List HpackHeader) (h : Reach t ins)
    (i : Nat) :
    (IndexedOk t ins i ↔
      i ≤ 61 ∨ t.dynamicTable = [] ∨ 62 + t.dynamicTable.length < i ∨
        (63 ≤ i ∧ i ≤ 61 + t.dynamicTable.length ∧ ins[i - 63]? = ins[i - 62]?)) ∧
    (∀ f ∈ [LiteralForm.withoutIndexing, LiteralForm.neverIndexed],
      (LiteralOk f t ins i ↔ 0 < i ∧
        (i ≤ 61 ∨ t.dynamicTable = [] ∨ 62 + t.dynamicTable.length < i ∨
          (63 ≤ i ∧ i ≤ 61 + t.dynamicTable.length ∧
            ins[i - 63]?.map HpackHeader.name = ins[i - 62]?.map HpackHeader.name)))) ∧
    (LiteralOk .incremental t ins i ↔ 0 < i ∧
      (i ≤ 31 ∨ 61 + t.dynamicTable.length < i ∧ (t.maxTableSize < i - 32 ∨ 63 + 2 ^ 63 ≤ i))) := by
  have hinv := h.inv
  have hindexed : IndexedOk t ins i ↔ _ := (indexedOk_iff hinv i).trans (by
    have := lookup_eq_iff id hinv i
    simpa only [Option.map_id, id_eq] using this)
  refine ⟨hindexed, ?_⟩
  rcases Nat.eq_zero_or_pos i with rfl | h0
  · exact ⟨fun f _ => iff_of_false (not_literalOk_zero f t ins) (fun hc => Nat.lt_irrefl 0 hc.1),
      iff_of_false (not_literalOk_zero _ t ins) (fun hc => Nat.lt_irrefl 0 hc.1)⟩
  · simp only [h0, true_and]
    refine ⟨fun f hf => ?_, literalOk_incremental_iff hinv h0⟩
    have hfi : f = .incremental → i ≤ 31 := by
      rintro rfl
      exact absurd hf (by decide)
    exact (literalOk_iff hinv h0 hfi).trans (lookup_eq_iff HpackHeader.name hinv i)

/-- The decoder that read `a: b` with incremental indexing. -/
theorem reach_one :
    Reach ⟨[⟨ascii "a", ascii "b", false⟩], 34, 4096⟩ [⟨ascii "a", ascii "b", false⟩] := by
  have hs : decodeStep {} [0x40, 0x01, 0x61, 0x01, 0x62] =
      .ok (⟨[⟨ascii "a", ascii "b", false⟩], 34, 4096⟩,
        some ⟨ascii "a", ascii "b", false⟩, []) := by
    decide +kernel
  exact Reach.init.step hs

/-- With one entry in the table, the static indices are answered as they should be. -/
theorem hpack_address_space_static :
    Reach ⟨[⟨ascii "a", ascii "b", false⟩], 34, 4096⟩ [⟨ascii "a", ascii "b", false⟩] ∧
      IndexedOk ⟨[⟨ascii "a", ascii "b", false⟩], 34, 4096⟩ [⟨ascii "a", ascii "b", false⟩] 61 :=
  ⟨reach_one, (hpack_address_space _ _ reach_one 61).1.mpr (Or.inl (by decide))⟩

/-- The newest entry has index 62, which is refused; 63 stands for nothing and is answered. -/
theorem hpack_address_space_newest :
    let t : HpackDecoder := ⟨[⟨ascii "a", ascii "b", false⟩], 34, 4096⟩
    Reach t [⟨ascii "a", ascii "b", false⟩] ∧
      entryAt [⟨ascii "a", ascii "b", false⟩] 1 62 = some ⟨ascii "a", ascii "b", false⟩ ∧
      decodeStep t (encodeInt 62 7 0x80) = .error (hpackError "invalid HPACK index") ∧
      entryAt [⟨ascii "a", ascii "b", false⟩] 1 63 = none ∧
      decodeStep t (encodeInt 63 7 0x80) = .ok (t, some ⟨ascii "a", ascii "b", false⟩, []) := by
  refine ⟨reach_one, by decide, by decide +kernel, by decide, by decide +kernel⟩

/-- **Incremental indexing by a static name** does what it means exactly up to index 15: from 16 on
a bit of the index marks the header as never indexed, from 32 on one makes it a size update. -/
theorem hpack_incremental (t : HpackDecoder) (i : Nat) (h1 : 1 ≤ i) (h61 : i ≤ 61) (v str : Bytes)
    (hv : v ≠ []) (hstr : StringForm v str) (rest : Bytes) :
    (∃ name value, staticEntries[i]? = some (name, value) ∧
      decodeStep t (encodeInt i 6 0x40 ++ (str ++ rest)) =
        .ok (t.addToDynamic ⟨ascii name, v, false⟩, some ⟨ascii name, v, false⟩, rest) ∧
      (t.addToDynamic ⟨ascii name, v, false⟩).dynamicTable <+:
        ⟨ascii name, v, false⟩ :: t.dynamicTable) ↔ i ≤ 15 := by
  by_cases h31 : i ≤ 31
  · have hlen : i < staticEntries.length := Nat.lt_of_le_of_lt h31 (by decide)
    have hentry : staticEntries[i]? = some staticEntries[i] := List.getElem?_eq_getElem hlen
    have hlook : t.lookup i =
        some ⟨ascii staticEntries[i].1, ascii staticEntries[i].2, false⟩ := by
      rw [lookup_static t [] 0 (by omega)]
      unfold entryAt
      rw [if_neg (by omega), if_pos (by omega)]
      unfold staticTable
      rw [List.getElem?_map, hentry]
      rfl
    have hstep := decodeStep_literal t .incremental h1
      (show i < 2 ^ 6 - 1 + 2 ^ 63 by omega) (fun _ => h31) hv hstr rest
    have hlower : hasUppercase (ascii staticEntries[i].1) = false :=
      staticTable_lower ⟨ascii staticEntries[i].1, ascii staticEntries[i].2, false⟩
        (List.mem_map.mpr ⟨_, List.getElem_mem hlen, rfl⟩)
    simp only [hlook, hlower, Bool.false_eq_true, if_false, reduceCtorEq, false_or, true_and,
      if_true] at hstep
    constructor
    · rintro ⟨name, value, -, hok, -⟩
      have := hstep.symm.trans hok
      simp only [Except.ok.injEq, Prod.mk.injEq, Option.some.injEq, HpackHeader.mk.injEq,
        decide_eq_false_iff_not] at this
      omega
    · intro h15
      refine ⟨staticEntries[i].1, staticEntries[i].2, hentry, hstep.trans ?_,
        HpackTable.evict_prefix _⟩
      rw [decide_eq_false (show ¬ 16 ≤ i by omega)]
  · refine iff_of_false ?_ (by omega)
    rintro ⟨name, value, -, hok, -⟩
    rw [decodeStep_incremental_large t (by omega)] at hok
    split_ifs at hok
    simp only [Except.ok.injEq, Prod.mk.injEq, reduceCtorEq, false_and, and_false] at hok

/-- `:status`, the last name below 16 that is a pseudo-header, with a value in Huffman form. -/
theorem hpack_incremental_status :
    (14 ≤ 61 ∧ ascii "404" ≠ [] ∧ StringForm (ascii "404") (huffmanString (ascii "404"))) ∧
      ∃ name value, staticEntries[14]? = some (name, value) ∧
        decodeStep {} (encodeInt 14 6 0x40 ++ (huffmanString (ascii "404") ++ [0x82])) =
          .ok (HpackTable.addToDynamic {} ⟨ascii name, ascii "404", false⟩,
            some ⟨ascii name, ascii "404", false⟩, [0x82]) := by
  have hstr : StringForm (ascii "404") (huffmanString (ascii "404")) := .huffman (by decide +kernel)
  obtain ⟨name, value, he, hok, -⟩ := (hpack_incremental {} 14 (by decide) (by decide) (ascii "404")
    _ (by decide) hstr [0x82]).mpr (by decide)
  exact ⟨⟨by decide, by decide, hstr⟩, name, value, he, hok⟩

/-- `content-length` (28) comes out never indexed, and `user-agent` (58) shrinks the table. -/
theorem hpack_incremental_user_agent :
    decodeStep {} (encodeInt 28 6 0x40 ++ rawString (ascii "0")) =
        .ok (⟨[⟨ascii "content-length", ascii "0", true⟩], 47, 4096⟩,
          some ⟨ascii "content-length", ascii "0", true⟩, []) ∧
      decodeStep {} (encodeInt 58 6 0x40 ++ rawString (ascii "curl")) =
        .ok (⟨[], 0, 26⟩, none, rawString (ascii "curl")) := by
  decide +kernel

end Uproxy
