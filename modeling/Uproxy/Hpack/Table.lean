import Uproxy.Basic

/-!
# HPACK tables

The static table, and the dynamic table with its size accounting. `HpackEncoder` and
`HpackDecoder` have the same three members and the same eviction loop, so both are an `HpackTable`;
`push_front` puts the newest entry at the head of the list. `table_size_` adds up lengths of
strings in memory, so the sum does not wrap; the subtraction of the loop may, in a state whose
size does not count its entries, and does so modulo `2 ^ 64` (`wrapSub`).

* `Sound`: the size counts the entries and does not pass the maximum;
* `evict_prefix`, `evict_sound`: the loop keeps the newest entries, and ends within the maximum when
  the size counts them;
* `Sound.length_lt`: an entry counts at least 32, so there are fewer than `2 ^ 59` entries.
-/

namespace Uproxy

/-- `HpackHeader`. -/
structure HpackHeader where
  name      : Bytes
  value     : Bytes
  sensitive : Bool := false
  deriving DecidableEq, Repr

/-- The names and values of `HPACK_STATIC_TABLE`, its unused slot 0 included. -/
def staticEntries : List (String × String) :=
  [("", ""), (":authority", ""), (":method", "GET"), (":method", "POST"), (":path", "/"),
    (":path", "/index.html"), (":scheme", "http"), (":scheme", "https"), (":status", "200"),
    (":status", "204"), (":status", "206"), (":status", "304"), (":status", "400"),
    (":status", "404"), (":status", "500"), ("accept-charset", ""),
    ("accept-encoding", "gzip, deflate"), ("accept-language", ""), ("accept-ranges", ""),
    ("accept", ""), ("access-control-allow-origin", ""), ("age", ""), ("allow", ""),
    ("authorization", ""), ("cache-control", ""), ("content-disposition", ""),
    ("content-encoding", ""), ("content-language", ""), ("content-length", ""),
    ("content-location", ""), ("content-range", ""), ("content-type", ""), ("cookie", ""),
    ("date", ""), ("etag", ""), ("expect", ""), ("expires", ""), ("from", ""), ("host", ""),
    ("if-match", ""), ("if-modified-since", ""), ("if-none-match", ""), ("if-range", ""),
    ("if-unmodified-since", ""), ("last-modified", ""), ("link", ""), ("location", ""),
    ("max-forwards", ""), ("proxy-authenticate", ""), ("proxy-authorization", ""), ("range", ""),
    ("referer", ""), ("refresh", ""), ("retry-after", ""), ("server", ""), ("set-cookie", ""),
    ("strict-transport-security", ""), ("transfer-encoding", ""), ("user-agent", ""),
    ("vary", ""), ("via", ""), ("www-authenticate", "")]

/-- `HPACK_STATIC_TABLE`. -/
def staticTable : List HpackHeader := staticEntries.map fun e => ⟨ascii e.1, ascii e.2, false⟩

/-- `has_uppercase`. -/
def hasUppercase (s : Bytes) : Bool := s.any fun c => 65 ≤ c && c ≤ 90

/-- `entry_size`. -/
def entrySize (h : HpackHeader) : Nat := h.name.length + h.value.length + 32

/-- The members of `HpackEncoder` and of `HpackDecoder`. -/
structure HpackTable where
  dynamicTable : List HpackHeader := []
  tableSize    : Nat := 0
  maxTableSize : Nat := 4096
  deriving DecidableEq, Repr

/-- Subtraction of `size_t`. -/
def wrapSub (a b : Nat) : Nat := if b ≤ a then a - b else a + sizeMod - b

namespace HpackTable

/-- `while (table_size_ > max_table_size_ && !dynamic_table_.empty())`, on the entries from the
back of the deque. -/
def evictLoop (maxSize : Nat) : Nat → List HpackHeader → Nat × List HpackHeader
  | size, [] => (size, [])
  | size, h :: hs =>
    if size > maxSize then evictLoop maxSize (wrapSub size (entrySize h)) hs else (size, h :: hs)

def evict (t : HpackTable) : HpackTable :=
  let r := evictLoop t.maxTableSize t.tableSize t.dynamicTable.reverse
  { t with tableSize := r.1, dynamicTable := r.2.reverse }

/-- `set_max_table_size`. -/
def setMaxTableSize (t : HpackTable) (n : Nat) : HpackTable := evict { t with maxTableSize := n }

/-- `add_to_dynamic`. -/
def addToDynamic (t : HpackTable) (h : HpackHeader) : HpackTable :=
  evict { t with tableSize := t.tableSize + entrySize h, dynamicTable := h :: t.dynamicTable }

/-- `lookup`. -/
def lookup (t : HpackTable) (index : Nat) : Option HpackHeader :=
  if index = 0 then none
  else if index < staticTable.length then staticTable[index]?
  else
    let dyn := index - staticTable.length
    if dyn = 0 ∨ dyn > t.dynamicTable.length then none else t.dynamicTable[dyn - 1]?

/-! ## Accounting -/

/-- The size of some entries. -/
def total (hs : List HpackHeader) : Nat := (hs.map entrySize).sum

/-- `table_size_` counts the entries and is within the maximum. -/
structure Sound (t : HpackTable) : Prop where
  size_eq : t.tableSize = total t.dynamicTable
  size_le : t.tableSize ≤ t.maxTableSize

theorem evictLoop_suffix (maxSize : Nat) : ∀ (size : Nat) (hs : List HpackHeader),
    (evictLoop maxSize size hs).2 <:+ hs
  | _, [] => List.suffix_refl _
  | size, h :: hs => by
    unfold evictLoop
    split_ifs
    · exact (evictLoop_suffix maxSize _ hs).trans (List.suffix_cons h hs)
    · exact List.suffix_refl _

/-- The loop takes off what it counts, so it ends within the maximum. -/
theorem evictLoop_size (maxSize : Nat) : ∀ hs : List HpackHeader,
    (evictLoop maxSize (total hs) hs).1 = total (evictLoop maxSize (total hs) hs).2 ∧
      (evictLoop maxSize (total hs) hs).1 ≤ maxSize
  | [] => ⟨rfl, Nat.zero_le _⟩
  | h :: hs => by
    have hsub : wrapSub (total (h :: hs)) (entrySize h) = total hs := by
      unfold wrapSub total
      rw [List.map_cons, List.sum_cons, if_pos (Nat.le_add_right _ _), Nat.add_sub_cancel_left]
    unfold evictLoop
    split_ifs with hgt
    · rw [hsub]
      exact evictLoop_size maxSize hs
    · exact ⟨rfl, Nat.le_of_not_gt hgt⟩

theorem total_reverse (hs : List HpackHeader) : total hs.reverse = total hs := by
  unfold total
  rw [List.map_reverse, List.sum_reverse]

/-- What is evicted is oldest. -/
theorem evict_prefix (t : HpackTable) : (evict t).dynamicTable <+: t.dynamicTable := by
  rw [← List.reverse_suffix]
  have := evictLoop_suffix t.maxTableSize t.tableSize t.dynamicTable.reverse
  rwa [← List.reverse_reverse (evictLoop t.maxTableSize t.tableSize t.dynamicTable.reverse).2]
    at this

theorem evict_sound {t : HpackTable} (h : t.tableSize = total t.dynamicTable) :
    (evict t).Sound := by
  have key := evictLoop_size t.maxTableSize t.dynamicTable.reverse
  rw [total_reverse, ← h] at key
  refine ⟨?_, key.2⟩
  show (evictLoop t.maxTableSize t.tableSize t.dynamicTable.reverse).1 = total (List.reverse _)
  rw [total_reverse]
  exact key.1

theorem sound_init : ({} : HpackTable).Sound := ⟨rfl, by decide⟩

theorem Sound.setMaxTableSize {t : HpackTable} (h : t.Sound) (n : Nat) :
    (t.setMaxTableSize n).Sound :=
  evict_sound h.size_eq

theorem Sound.addToDynamic {t : HpackTable} (h : t.Sound) (e : HpackHeader) :
    (t.addToDynamic e).Sound := by
  refine evict_sound ?_
  show t.tableSize + entrySize e = total (e :: t.dynamicTable)
  rw [h.size_eq, total, total, List.map_cons, List.sum_cons, Nat.add_comm]

theorem length_le_total : ∀ hs : List HpackHeader, 32 * hs.length ≤ total hs
  | [] => Nat.le_refl 0
  | h :: hs => by
    have ih := length_le_total hs
    unfold total at ih ⊢
    rw [List.map_cons, List.sum_cons, List.length_cons]
    unfold entrySize at *
    omega

/-- A table whose maximum is a `size_t` has fewer than `2 ^ 59` entries. -/
theorem Sound.length_lt {t : HpackTable} (h : t.Sound) (hm : t.maxTableSize < sizeMod) :
    t.dynamicTable.length < 2 ^ 59 := by
  have h1 := length_le_total t.dynamicTable
  have h2 := h.size_eq
  have h3 := h.size_le
  unfold sizeMod at hm
  omega

end HpackTable

end Uproxy
