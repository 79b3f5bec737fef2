import Uproxy.Basic
import Uproxy.Lib.Circular

/-!
# The ring buffer (`buffer.cpp`)

Model of `RingBuffer`: the vector `data_`, the two positions and the fill count, and every member
function as the code computes it.

* A region (`struct iovec`) is an offset into `data_` and a length. `read_iovecs` / `write_iovecs`
  return the regions below their returned count, so the empty answer is `[]`.
* `ensure_writable` computes the new capacity in `size_t`, modulo `2^64`. Positions are plain
  numbers: a vector holds fewer than `2^63` bytes, so `read_pos_ + n` with `n ≤ size_` does not
  wrap.
* `append` is a loop over `write_iovecs`. Its model takes fuel and answers `none` when the fuel
  runs out, which is how a loop that makes no progress would show; the spec of `append` proves
  that it answers.

A vector is made here at any length. That `ensure_writable` throws on a length no vector can have
is modelled in `Buffer/Limits.lean`; other failures of an allocation (`std::bad_alloc`) are out of
scope.
-/

namespace Uproxy

open Lib.Circular

/-- `RingBuffer`. -/
structure RingBuffer where
  data     : Bytes
  readPos  : Nat
  writePos : Nat
  size     : Nat
  deriving DecidableEq, Repr

/-- `struct iovec` with `iov_base` inside `data_`. -/
structure IoVec where
  base : Nat
  len  : Nat
  deriving DecidableEq, Repr

namespace RingBuffer

/-- `RingBuffer::RingBuffer(capacity)`. -/
def new (capacity : Nat) : RingBuffer := ⟨List.replicate capacity 0, 0, 0, 0⟩

def readable (b : RingBuffer) : Nat := b.size

def capacity (b : RingBuffer) : Nat := b.data.length

def writable (b : RingBuffer) : Nat := b.data.length - b.size

/-- `read_iovecs`. -/
def readIovecs (b : RingBuffer) : List IoVec :=
  if b.size = 0 ∨ b.data = [] then []
  else
    let first := min b.size (b.data.length - b.readPos)
    let second := b.size - first
    if second = 0 then [⟨b.readPos, first⟩] else [⟨b.readPos, first⟩, ⟨0, second⟩]

/-- `write_iovecs`. -/
def writeIovecs (b : RingBuffer) : List IoVec :=
  let avail := b.writable
  if avail = 0 ∨ b.data = [] then []
  else
    let first := min avail (b.data.length - b.writePos)
    let second := avail - first
    if second = 0 then [⟨b.writePos, first⟩] else [⟨b.writePos, first⟩, ⟨0, second⟩]

/-- `commit_read`. -/
def commitRead (b : RingBuffer) (n : Nat) : RingBuffer :=
  let n := min n b.size
  let readPos := if b.data = [] then 0 else (b.readPos + n) % b.data.length
  let size := b.size - n
  { b with readPos := if size = 0 then b.writePos else readPos, size := size }

/-- `commit_write`. -/
def commitWrite (b : RingBuffer) (n : Nat) : RingBuffer :=
  let n := min n b.writable
  { b with
    writePos := if b.data = [] then 0 else (b.writePos + n) % b.data.length
    size := b.size + n }

/-- `peek`. -/
def peek (b : RingBuffer) (n : Nat) : Bytes :=
  let n := min n b.size
  if n = 0 then []
  else
    let first := min n (b.data.length - b.readPos)
    (b.data.drop b.readPos).take first ++ b.data.take (n - first)

/-- The bytes a region names. -/
def region (b : RingBuffer) (v : IoVec) : Bytes := (b.data.drop v.base).take v.len

/-- `memcpy` to a position of `data_`. -/
def memcpy (b : RingBuffer) (pos : Nat) (d : Bytes) : RingBuffer :=
  { b with data := overwrite b.data pos d }

/-- The capacity `ensure_writable` moves to when `n` bytes do not fit. -/
def grownCapacity (b : RingBuffer) (n : Nat) : Nat :=
  let newCap := max (b.data.length * 2 % sizeMod) ((b.data.length + n) % sizeMod)
  if newCap = 0 then n else newCap

/-- `ensure_writable`, for a new capacity that can be allocated. -/
def ensureWritable (b : RingBuffer) (n : Nat) : Result Unit × RingBuffer :=
  if n ≤ b.writable then (.ok (), b)
  else
    let newCap := b.grownCapacity n
    if newCap < b.size then (.error (.fromCode .configInvalid "ring buffer overflow"), b)
    else
      let existing := b.peek b.size
      let data := existing ++ List.replicate (newCap - existing.length) 0
      (.ok (), ⟨data, 0, if existing.length = data.length then 0 else existing.length,
        existing.length⟩)

/-- The inner `for` of `append`: copy into each region in turn and commit it, the regions being
those computed before the first copy. Returns what is left to copy. -/
def copyInto (b : RingBuffer) : List IoVec → Bytes → RingBuffer × Bytes
  | [], d => (b, d)
  | v :: vs, d =>
    if d = [] then (b, d)
    else
      let n := min v.len d.length
      copyInto ((b.memcpy v.base (d.take n)).commitWrite n) vs (d.drop n)

/-- The outer `while` of `append`. -/
def appendLoop : Nat → RingBuffer → Bytes → Option (Result Unit × RingBuffer)
  | _, b, [] => some (.ok (), b)
  | 0, _, _ :: _ => none
  | fuel + 1, b, c :: d =>
    match b.writeIovecs with
    | [] => some (.error (.fromCode .configInvalid "ring buffer full"), b)
    | v :: vs =>
      let (b', d') := b.copyInto (v :: vs) (c :: d)
      appendLoop fuel b' d'

/-- `append`. -/
def append (b : RingBuffer) (d : Bytes) : Option (Result Unit × RingBuffer) :=
  match b.ensureWritable d.length with
  | (.error e, b') => some (.error e, b')
  | (.ok (), b') => appendLoop d.length b' d

/-- What a reader does with `write_iovecs` and `commit_write`: fill the regions in order with `d`,
then commit `k` bytes. -/
def fillRegions (b : RingBuffer) : List IoVec → Bytes → RingBuffer
  | [], _ => b
  | v :: vs, d => fillRegions (b.memcpy v.base (d.take v.len)) vs (d.drop v.len)

def writeThrough (b : RingBuffer) (d : Bytes) (k : Nat) : RingBuffer :=
  (b.fillRegions b.writeIovecs d).commitWrite k

end RingBuffer

end Uproxy
