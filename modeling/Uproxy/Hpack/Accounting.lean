import Uproxy.Hpack.Sync

/-!
# The accounts of the dynamic table

Everything that `HpackEncoder` and `HpackDecoder` do to a dynamic table is an insertion or a change
of the maximum (`TableOp`), each followed by the eviction loop. A call of `encode` or `decode` makes
the operations of the headers it gets through, also if it fails in the end; `encodeOps` and
`decodeOps` list them.

* `evict_exact`: on a table whose size counts its entries, the loop never subtracts more than there
  is, and keeps the longest prefix that fits;
* `inserts_longest`, `inserts_eq_self_iff`: what insertions in a row keep, and when they leave a
  table as it was;
* `encode_ops`, `decode_ops`: the calls as operations;
* **`dynamic_table_accounted`**: size, maximum and entries are right at every moment of every
  sequence of calls, on either side;
* **`size_update_limit`**: a size update in a header block is held against the current maximum and
  not against the one last set from outside (`DecoderRun`), so it cannot take an earlier one back.
-/

namespace Uproxy

open Lib.Run

namespace HpackTable

/-! ## The eviction loop -/

/-- No turn of `evictLoop` subtracts more than there is. -/
def NoUnderflow (maxSize : Nat) : Nat → List HpackHeader → Prop
  | _, [] => True
  | size, h :: hs =>
    size > maxSize → entrySize h ≤ size ∧ NoUnderflow maxSize (wrapSub size (entrySize h)) hs

/-- The longest prefix of some entries that fits. -/
structure LongestFit (maxSize : Nat) (entries kept : List HpackHeader) : Prop where
  is_prefix : kept <+: entries
  fits      : total kept ≤ maxSize
  longest   : ∀ p, p <+: entries → total p ≤ maxSize → p <+: kept

theorem total_cons (h : HpackHeader) (hs : List HpackHeader) :
    total (h :: hs) = entrySize h + total hs := by
  rw [total, List.map_cons, List.sum_cons, total]

theorem wrapSub_total (h : HpackHeader) (hs : List HpackHeader) :
    wrapSub (total (h :: hs)) (entrySize h) = total hs := by
  rw [total_cons, wrapSub, if_pos (Nat.le_add_right _ _), Nat.add_sub_cancel_left]

theorem noUnderflow_total (maxSize : Nat) : ∀ hs : List HpackHeader,
    NoUnderflow maxSize (total hs) hs
  | [] => trivial
  | h :: hs => by
    intro _
    rw [wrapSub_total, total_cons]
    exact ⟨Nat.le_add_right _ _, noUnderflow_total maxSize hs⟩

/-- From the back, what fits is kept. -/
theorem evictLoop_longest {maxSize : Nat} {p : List HpackHeader} (hp : total p ≤ maxSize) :
    ∀ {hs : List HpackHeader}, p <:+ hs → p <:+ (evictLoop maxSize (total hs) hs).2
  | [], h => h
  | x :: hs, h => by
    unfold evictLoop
    split_ifs with hgt
    · rw [wrapSub_total]
      rcases List.suffix_cons_iff.mp h with rfl | h
      · exact absurd hp (Nat.not_le_of_gt hgt)
      · exact evictLoop_longest hp h
    · exact h

/-- **The loop on a table whose size counts its entries.** -/
theorem evict_exact {t : HpackTable} (h : t.tableSize = total t.dynamicTable) :
    NoUnderflow t.maxTableSize t.tableSize t.dynamicTable.reverse ∧
      LongestFit t.maxTableSize t.dynamicTable (evict t).dynamicTable := by
  have hsound := evict_sound h
  have hrev : t.tableSize = total t.dynamicTable.reverse := by rw [h, total_reverse]
  refine ⟨?_, evict_prefix t, ?_, fun p hp hfit => ?_⟩
  · rw [hrev]
    exact noUnderflow_total _ _
  · rw [← hsound.size_eq]
    exact hsound.size_le
  · rw [← List.reverse_suffix] at hp ⊢
    rw [← total_reverse] at hfit
    have hlong := evictLoop_longest hfit hp
    rw [← hrev] at hlong
    rwa [evict, List.reverse_reverse]

/-! ## Operations -/

/-- What is done to a dynamic table. -/
inductive TableOp where
  | insert (h : HpackHeader)
  | resize (n : Nat)
  deriving DecidableEq, Repr

/-- The entries the loop of an operation finds. -/
def TableOp.entries (t : HpackTable) : TableOp → List HpackHeader
  | .insert h => h :: t.dynamicTable
  | .resize _ => t.dynamicTable

/-- The size the loop of an operation finds. -/
def TableOp.size (t : HpackTable) : TableOp → Nat
  | .insert h => t.tableSize + entrySize h
  | .resize _ => t.tableSize

/-- The maximum behind an operation. -/
def TableOp.maximum (t : HpackTable) : TableOp → Nat
  | .insert _ => t.maxTableSize
  | .resize n => n

def apply (t : HpackTable) : TableOp → HpackTable
  | .insert h => t.addToDynamic h
  | .resize n => t.setMaxTableSize n

/-- An operation that is done right: the subtractions of its loop do not underflow, and the longest
prefix that fits is left. -/
structure Exact (t : HpackTable) (op : TableOp) : Prop where
  no_underflow : NoUnderflow (op.maximum t) (op.size t) (op.entries t).reverse
  maximum      : (t.apply op).maxTableSize = op.maximum t
  longest      : LongestFit (op.maximum t) (op.entries t) (t.apply op).dynamicTable

/-- What the loop of an operation finds is counted. -/
theorem Sound.op_size {t : HpackTable} (h : t.Sound) (op : TableOp) :
    op.size t = total (op.entries t) := by
  cases op with
  | insert e => exact (Nat.add_comm _ _).trans (by rw [h.size_eq, ← total_cons]; rfl)
  | resize n => exact h.size_eq

theorem Sound.apply {t : HpackTable} (h : t.Sound) (op : TableOp) : (t.apply op).Sound := by
  cases op with
  | insert e => exact h.addToDynamic e
  | resize n => exact h.setMaxTableSize n

theorem Sound.exact {t : HpackTable} (h : t.Sound) (op : TableOp) : t.Exact op := by
  have hloop := evict_exact (t := ⟨op.entries t, op.size t, op.maximum t⟩) (h.op_size op)
  cases op with
  | insert e => exact ⟨hloop.1, rfl, hloop.2⟩
  | resize n => exact ⟨hloop.1, rfl, hloop.2⟩

/-! ## Insertions in a row -/

theorem total_append (hs hs' : List HpackHeader) : total (hs ++ hs') = total hs + total hs' := by
  rw [total, List.map_append, List.sum_append, ← total, ← total]

/-- What is kept is the longest prefix that fits if there is no room for the next entry. -/
theorem longestFit_iff {maxSize : Nat} {entries kept : List HpackHeader} :
    LongestFit maxSize entries kept ↔ kept <+: entries ∧ total kept ≤ maxSize ∧
      ∀ e rest, entries = kept ++ e :: rest → maxSize < total kept + entrySize e := by
  constructor
  · rintro ⟨hpre, hfits, hlongest⟩
    refine ⟨hpre, hfits, fun e rest he => Nat.lt_of_not_le fun hroom => ?_⟩
    have hnext : kept ++ [e] <+: entries := ⟨rest, by rw [he, List.append_assoc]; rfl⟩
    have hle := (hlongest _ hnext (by rw [total_append]; exact hroom)).length_le
    rw [List.length_append, List.length_singleton] at hle
    omega
  · rintro ⟨hpre, hfits, hnext⟩
    refine ⟨hpre, hfits, fun p hp hfit => ?_⟩
    rcases List.prefix_or_prefix_of_prefix hp hpre with h | ⟨_ | ⟨e, q⟩, rfl⟩
    · exact h
    · rw [List.append_nil]
    · -- a longer prefix holds the next entry
      obtain ⟨r, rfl⟩ := hp
      have := hnext e (q ++ r) (by rw [List.append_assoc, List.cons_append])
      rw [total_append, total_cons] at hfit
      omega

theorem LongestFit.unique {maxSize : Nat} {entries kept kept' : List HpackHeader}
    (h : LongestFit maxSize entries kept) (h' : LongestFit maxSize entries kept') :
    kept = kept' :=
  (h'.longest kept h.is_prefix h.fits).eq_of_length_le
    (h.longest kept' h'.is_prefix h'.fits).length_le

/-- What is evicted once does not come back: an insertion into what was kept keeps what an insertion
into all entries would. -/
theorem LongestFit.cons {maxSize : Nat} {entries kept kept' : List HpackHeader} {e : HpackHeader}
    (h : LongestFit maxSize entries kept) (h' : LongestFit maxSize (e :: kept) kept') :
    LongestFit maxSize (e :: entries) kept' := by
  refine ⟨h'.is_prefix.trans ((List.prefix_cons_inj e).mpr h.is_prefix), h'.fits,
    fun p hp hfit => ?_⟩
  cases p with
  | nil => exact List.nil_prefix
  | cons x p =>
    obtain ⟨rfl, hp'⟩ := List.cons_prefix_cons.mp hp
    rw [total_cons] at hfit
    refine h'.longest _ ((List.prefix_cons_inj x).mpr (h.longest p hp' (by omega))) ?_
    rwa [total_cons]

/-- **Insertions in a row** keep the longest prefix of all that was inserted and all that was
there. -/
theorem inserts_longest {t : HpackTable} (h : t.Sound) (hs : List HpackHeader) :
    (run apply t (hs.map .insert)).Sound ∧
      (run apply t (hs.map .insert)).maxTableSize = t.maxTableSize ∧
      LongestFit t.maxTableSize (hs.reverse ++ t.dynamicTable)
        (run apply t (hs.map .insert)).dynamicTable := by
  induction hs using List.reverseRecOn with
  | nil =>
    refine ⟨h, rfl, List.prefix_rfl, ?_, fun p hp _ => hp⟩
    show total t.dynamicTable ≤ t.maxTableSize
    rw [← h.size_eq]
    exact h.size_le
  | append_singleton hs e ih =>
    obtain ⟨hsound, hmax, hfit⟩ := ih
    have hstep := hsound.exact (.insert e)
    have hrun : run apply t ((hs ++ [e]).map .insert) =
        (run apply t (hs.map .insert)).apply (.insert e) := by
      rw [List.map_append, List.map_singleton, run_concat]
    rw [hrun, List.reverse_concat]
    refine ⟨hsound.apply _, hstep.maximum.trans hmax, hfit.cons ?_⟩
    rw [← hmax]
    exact hstep.longest

/-- The headers put in front of the table, newest first, have the table itself in front, and the
entry `e` behind it finds no room: what they push out are entries like them. On an empty table that
is a last header larger than the maximum. -/
def Restores (t : HpackTable) (new : List HpackHeader) : Prop :=
  ∃ e rest, new.reverse ++ t.dynamicTable = t.dynamicTable ++ e :: rest ∧
    t.maxTableSize < total t.dynamicTable + entrySize e

/-- Insertions leave a table as it was if there are none, or they restore it. -/
theorem inserts_eq_self_iff {t : HpackTable} (h : t.Sound) (new : List HpackHeader) :
    run apply t (new.map .insert) = t ↔ new = [] ∨ t.Restores new := by
  obtain ⟨hsound, hmax, hfit⟩ := inserts_longest h new
  constructor
  · intro heq
    rw [heq] at hfit
    obtain ⟨⟨_ | ⟨e, rest⟩, hpre⟩, -, hnext⟩ := longestFit_iff.mp hfit
    · refine Or.inl ?_
      have hlen := congrArg List.length hpre
      simp only [List.append_nil, List.length_append, List.length_reverse] at hlen
      exact List.length_eq_zero_iff.mp (by omega)
    · exact Or.inr ⟨e, rest, hpre.symm, hnext e rest hpre.symm⟩
  · rintro (rfl | ⟨e, rest, heq, hroom⟩)
    · rfl
    · have hself : LongestFit t.maxTableSize (new.reverse ++ t.dynamicTable) t.dynamicTable := by
        refine longestFit_iff.mpr ⟨⟨e :: rest, heq.symm⟩, h.size_eq ▸ h.size_le, ?_⟩
        intro e' rest' heq'
        rw [heq, List.append_cancel_left_eq] at heq'
        cases heq'
        exact hroom
      have htable := hfit.unique hself
      have hsize : (run apply t (new.map .insert)).tableSize = t.tableSize := by
        rw [hsound.size_eq, htable, ← h.size_eq]
      rcases hr : run apply t (new.map .insert) with ⟨entries, size, maxSize⟩
      rw [hr] at htable hsize hmax
      cases t
      simp only at htable hsize hmax
      rw [htable, hsize, hmax]

/-! ## Runs of operations -/

/-- Some operations on a new table: it is sound at every moment, and each of them is done right. -/
def Accounted (ops : List TableOp) : Prop :=
  ∀ pre, pre <+: ops → (run apply {} pre).Sound ∧
    ∀ op, pre ++ [op] <+: ops → (run apply {} pre).Exact op

theorem accounted (ops : List TableOp) : Accounted ops := fun pre _ =>
  have hsound : (run apply {} pre).Sound := run_inv (fun _ op h => h.apply op) pre sound_init
  ⟨hsound, fun op _ => hsound.exact op⟩

end HpackTable

open HpackTable

/-! ## The encoder -/

/-- A call of `HpackEncoder`. -/
inductive EncoderCall where
  | encode (headers : List HpackHeader) (outBuf : Bytes)
  | setMaxTableSize (n : Nat)
  deriving DecidableEq, Repr

def encoderCall (t : HpackEncoder) : EncoderCall → HpackEncoder
  | .encode headers outBuf => (encode t headers outBuf).2.1
  | .setMaxTableSize n => t.setMaxTableSize n

/-- The insertions of `encode`. -/
def encodeOps (headers : List HpackHeader) : List TableOp :=
  ((encodedHeaders headers).filter fun h => !isSensitive h).map .insert

def encoderOps (_ : HpackEncoder) : EncoderCall → List TableOp
  | .encode headers _ => encodeOps headers
  | .setMaxTableSize n => [.resize n]

theorem insertAll_eq (t : HpackTable) (hs : List HpackHeader) :
    insertAll t hs = run apply t ((hs.filter fun h => !isSensitive h).map .insert) := by
  rw [run, List.foldl_map, List.foldl_filter, insertAll]
  congr
  funext t h
  cases isSensitive h <;> rfl

theorem encode_ops (t : HpackEncoder) (call : EncoderCall) :
    encoderCall t call = run apply t (encoderOps t call) := by
  cases call with
  | encode headers outBuf => exact (encode_table headers t outBuf).trans (insertAll_eq t _)
  | setMaxTableSize n => rfl

/-! ## The decoder -/

/-- A call of `HpackDecoder`. -/
inductive DecoderCall where
  | decode (data : Bytes) (out : List HpackHeader)
  | setMaxTableSize (n : Nat)
  deriving DecidableEq, Repr

def decoderCall (t : HpackDecoder) : DecoderCall → HpackDecoder
  | .decode data out => (decode t data out).2.1
  | .setMaxTableSize n => t.setMaxTableSize n

/-- The operation of a turn that started with byte `b`, emitted `e` and left the table `t`. -/
def turnOps (b : UInt8) (e : Option HpackHeader) (t : HpackDecoder) : List TableOp :=
  if b &&& 0x80 ≠ 0 then []
  else if b &&& 0x20 ≠ 0 then [.resize t.maxTableSize]
  else if b &&& 0x40 ≠ 0 then e.toList.map .insert
  else []

def decodeOps : Nat → HpackDecoder → Bytes → List TableOp
  | fuel + 1, t, b :: data =>
    match decodeStep t (b :: data) with
    | .error _ => []
    | .ok (t', e, rest) => turnOps b e t' ++ decodeOps fuel t' rest
  | _, _, _ => []

def decoderOps (t : HpackDecoder) : DecoderCall → List TableOp
  | .decode data _ => decodeOps data.length t data
  | .setMaxTableSize n => [.resize n]

/-- A turn is its operations. -/
theorem decodeStep_ops {t t' : HpackDecoder} {b : UInt8} {data rest : Bytes}
    {e : Option HpackHeader} (h : decodeStep t (b :: data) = .ok (t', e, rest)) :
    t' = run apply t (turnOps b e t') := by
  unfold turnOps
  rcases decodeStep_cases h with ⟨idx, x, -, -, rfl, -, h80⟩ | ⟨n, -, -, rfl, -, h80, h20⟩ |
    ⟨hl, h80, h20⟩
  · rw [if_pos h80]
    rfl
  · rw [if_neg (not_not.mpr h80), if_pos h20]
    rfl
  · obtain ⟨idx, d₁, name, d₂, value, -, -, -, -, rfl, rfl⟩ := decodeLiteral_ok_iff.mp hl
    rw [if_neg (not_not.mpr h80), if_neg (not_not.mpr h20)]
    by_cases h40 : b &&& 0x40 = 0
    · simp [h40, run]
    · simp [h40, run, apply]

theorem decodeLoop_ops : ∀ (fuel : Nat) (t : HpackDecoder) (data : Bytes) (out : List HpackHeader),
    (decodeLoop fuel t data out).2.1 = run apply t (decodeOps fuel t data)
  | 0, _, [], _ => rfl
  | 0, _, _ :: _, _ => rfl
  | _ + 1, _, [], _ => rfl
  | fuel + 1, t, b :: data, out => by
    rw [decodeLoop, decodeOps, if_neg (List.cons_ne_nil b data)]
    rcases hs : decodeStep t (b :: data) with err | ⟨t', e, rest⟩
    · rfl
    · have hsplit : run apply t (turnOps b e t' ++ decodeOps fuel t' rest) =
          run apply (run apply t (turnOps b e t')) (decodeOps fuel t' rest) := List.foldl_append
      simp only [hsplit, ← decodeStep_ops hs]
      exact decodeLoop_ops fuel t' rest _

theorem decode_ops (t : HpackDecoder) (call : DecoderCall) :
    decoderCall t call = run apply t (decoderOps t call) := by
  cases call with
  | decode data out => exact decodeLoop_ops _ t data out
  | setMaxTableSize n => rfl

/-- **The dynamic table is accounted for.** Whatever calls an encoder or a decoder gets, with
errors or without, they do to the table what their operations do one by one: its size is that of
its entries and within the maximum at every moment, no subtraction of an eviction underflows, and
every insertion and every change of the maximum leaves the longest prefix that fits. -/
theorem dynamic_table_accounted :
    (∀ calls : List EncoderCall,
      run encoderCall {} calls = run apply {} (smallSteps encoderCall encoderOps {} calls) ∧
        Accounted (smallSteps encoderCall encoderOps {} calls)) ∧
    ∀ calls : List DecoderCall,
      run decoderCall {} calls = run apply {} (smallSteps decoderCall decoderOps {} calls) ∧
        Accounted (smallSteps decoderCall decoderOps {} calls) :=
  ⟨fun calls => ⟨run_smallSteps encode_ops {} calls, accounted _⟩,
    fun calls => ⟨run_smallSteps decode_ops {} calls, accounted _⟩⟩

/-- A literal that is inserted, an update to 33 and one to 10 in front of an invalid index. -/
example : smallSteps decoderCall decoderOps {}
      [.decode [0x40, 0x01, 0x61, 0x01, 0x62, 0x3f, 0x02, 0x2a, 0x80] []] =
    [.insert ⟨ascii "a", ascii "b", false⟩, .resize 33, .resize 10] := by decide +kernel

/-! ## Size updates -/

/-- The tables of a decoder at every turn of its runs, with the maximum last set from outside. -/
inductive DecoderRun : Nat → HpackDecoder → Prop where
  | new : DecoderRun 4096 {}
  | setMaxTableSize {limit t} (h : DecoderRun limit t) (n : Nat) :
    DecoderRun n (t.setMaxTableSize n)
  | turn {limit t t' data e rest} (h : DecoderRun limit t)
      (hs : decodeStep t data = .ok (t', e, rest)) : DecoderRun limit t'

/-- The maximum last set by some calls. -/
def limitOf : Nat → List DecoderCall → Nat
  | limit, [] => limit
  | _, .setMaxTableSize n :: calls => limitOf n calls
  | limit, .decode _ _ :: calls => limitOf limit calls

theorem DecoderRun.decodeLoop {limit : Nat} : ∀ (fuel : Nat) {t : HpackDecoder} (data : Bytes)
    (out : List HpackHeader), DecoderRun limit t →
      DecoderRun limit (decodeLoop fuel t data out).2.1
  | 0, _, _, _, h => h
  | fuel + 1, t, data, out, h => by
    unfold Uproxy.decodeLoop
    split_ifs
    · exact h
    · rcases hs : decodeStep t data with err | ⟨t', e, rest⟩
      · exact h
      · exact DecoderRun.decodeLoop fuel rest _ (h.turn hs)

/-- The table behind any calls is one of these. -/
theorem DecoderRun.calls : ∀ (calls : List DecoderCall) {limit : Nat} {t : HpackDecoder},
    DecoderRun limit t → DecoderRun (limitOf limit calls) (run decoderCall t calls)
  | [], _, _, h => h
  | .setMaxTableSize n :: calls, _, _, h => DecoderRun.calls calls (h.setMaxTableSize n)
  | .decode data out :: calls, _, _, h => DecoderRun.calls calls (h.decodeLoop _ data out)

/-- Header blocks only ever lower the maximum. -/
theorem DecoderRun.maxTableSize_le {limit : Nat} {t : HpackDecoder} (h : DecoderRun limit t) :
    t.maxTableSize ≤ limit := by
  induction h with
  | new => exact Nat.le_refl _
  | setMaxTableSize h n ih => exact Nat.le_refl _
  | @turn limit t t' data e rest h hs ih =>
    cases data with
    | nil =>
      cases hs
      exact ih
    | cons b data =>
      rcases decodeStep_cases hs with ⟨idx, x, -, -, rfl, -⟩ | ⟨n, -, hle, rfl, -⟩ | ⟨hl, -⟩
      · exact ih
      · exact Nat.le_trans hle ih
      · obtain ⟨idx, d₁, name, d₂, value, -, -, -, -, -, rfl⟩ := decodeLiteral_ok_iff.mp hl
        split_ifs
        · exact ih
        · exact ih

/-- An update to `n` is accepted if and only if `n` is within the limit, and sets the maximum. -/
def ObeysLimit (limit n : Nat) (r : StepResult) : Prop :=
  ((∃ t e rest, r = .ok (t, e, rest)) ↔ n ≤ limit) ∧
    ∀ t e rest, r = .ok (t, e, rest) → t.maxTableSize = n

/-- A byte `001xxxxx` starts a size update. -/
theorem decodeStep_sizeUpdate {b : UInt8} (hb : b &&& 0xe0 = 0x20) (t : HpackDecoder)
    (data : Bytes) : decodeStep t (b :: data) = decodeSizeUpdate t (b :: data) := by
  have hbits : b &&& 0x80 = 0 ∧ b &&& 0x20 ≠ 0 :=
    forall_byte (P := fun b => b &&& 0xe0 = 0x20 → b &&& 0x80 = 0 ∧ b &&& 0x20 ≠ 0)
      (by decide +kernel) b hb
  unfold decodeStep
  simp only [hbits.1, hbits.2, ne_eq, not_true_eq_false, not_false_eq_true, if_false, if_true]

/-- What a size update to `n` does. -/
theorem decodeStep_updateTo {b : UInt8} (hb : b &&& 0xe0 = 0x20) {gs : Bytes} {n : Nat}
    (hn : IntForm 5 b gs n) (t : HpackDecoder) (rest : Bytes) :
    decodeStep t (b :: (gs ++ rest)) =
      if gs.length ≤ 9 then
        if n > t.maxTableSize then .error (hpackError "dynamic table size update too large")
        else .ok (t.setMaxTableSize n, none, rest)
      else .error (hpackError "HPACK integer overflow") := by
  rw [decodeStep_sizeUpdate hb, decodeSizeUpdate,
    decodeInt_form (by decide) (by decide) hn (by simp) rest]
  by_cases h9 : gs.length ≤ 9
  · rw [if_pos h9, if_pos h9]
  · rw [if_neg h9, if_neg h9]

theorem obeysLimit_ok {limit n : Nat} {t : HpackDecoder} {e : Option HpackHeader} {rest : Bytes} :
    ObeysLimit limit n (.ok (t, e, rest)) ↔ n ≤ limit ∧ t.maxTableSize = n := by
  constructor
  · rintro ⟨hiff, hset⟩
    exact ⟨hiff.mp ⟨t, e, rest, rfl⟩, hset t e rest rfl⟩
  · rintro ⟨hle, hset⟩
    refine ⟨iff_of_true ⟨t, e, rest, rfl⟩ hle, fun _ _ _ he => ?_⟩
    cases he
    exact hset

/-- To refuse an update is right only above the limit. -/
theorem obeysLimit_error {limit n : Nat} {e : Error} :
    ObeysLimit limit n (.error e) ↔ limit < n := by
  constructor
  · intro hobeys
    refine Nat.lt_of_not_le fun hn => ?_
    obtain ⟨_, _, _, heq⟩ := hobeys.1.mpr hn
    cases heq
  · intro hlt
    refine ⟨iff_of_false ?_ (Nat.not_le.mpr hlt), fun _ _ _ heq => by cases heq⟩
    rintro ⟨_, _, _, heq⟩
    cases heq

/-- **Size updates**: at every turn of every run, an update to `n`, however its integer is written,
obeys the limit set from outside exactly if `n` is above it, or is within the current maximum and
written with at most nine bytes behind the first. -/
theorem size_update_limit {limit : Nat} {t : HpackDecoder} (h : DecoderRun limit t) {b : UInt8}
    (hb : b &&& 0xe0 = 0x20) {gs : Bytes} {n : Nat} (hn : IntForm 5 b gs n) (rest : Bytes) :
    ObeysLimit limit n (decodeStep t (b :: (gs ++ rest))) ↔
      limit < n ∨ (n ≤ t.maxTableSize ∧ gs.length ≤ 9) := by
  have hle := h.maxTableSize_le
  rw [decodeStep_updateTo hb hn]
  by_cases h9 : gs.length ≤ 9
  · rw [if_pos h9]
    by_cases hgt : n > t.maxTableSize
    · rw [if_pos hgt, obeysLimit_error]
      omega
    · rw [if_neg hgt, obeysLimit_ok]
      have hmax : (t.setMaxTableSize n).maxTableSize = n := rfl
      omega
  · rw [if_neg h9, obeysLimit_error]
    omega

/-- The integer 4096 of a size update. -/
theorem intForm_4096 : IntForm 5 0x3f [0xe1, 0x1f] 4096 :=
  .long (by decide) (.more (by decide) (.last (by decide)))

/-- A new decoder accepts an update to 4096. -/
theorem size_update_limit_new :
    ObeysLimit 4096 4096 (decodeStep {} [0x3f, 0xe1, 0x1f]) :=
  (size_update_limit .new (by decide) intForm_4096 []).mpr (Or.inr ⟨by decide, by decide⟩)

/-- **A table that was emptied stays small**: after an update to 0, one back to 4096 is an error,
though 4096 is the limit. -/
theorem size_update_limit_fails :
    let t : HpackDecoder := (decode {} [0x20] []).2.1
    DecoderRun 4096 t ∧ ¬ ObeysLimit 4096 4096 (decodeStep t [0x3f, 0xe1, 0x1f]) ∧
      (decode {} [0x20, 0x3f, 0xe1, 0x1f] []).1 =
        .error (hpackError "dynamic table size update too large") := by
  intro t
  refine ⟨DecoderRun.new.decodeLoop _ _ _, fun hobeys => ?_, by decide +kernel⟩
  obtain ⟨t', e, rest, he⟩ := hobeys.1.mpr (Nat.le_refl _)
  have herr : decodeStep t [0x3f, 0xe1, 0x1f] =
      .error (hpackError "dynamic table size update too large") := by decide +kernel
  rw [herr] at he
  cases he

end Uproxy
