import Mathlib.Algebra.BigOperators.Group.List.Basic
import Mathlib.Algebra.Order.Ring.Int
import Mathlib.Algebra.Order.Ring.Nat
import Mathlib.Data.List.Basic

/-!
# Bytes, errors and results (`result.h`)

`Result<T>` is `Except Error T`: a value or an error, never both (`Result` holds exactly one of
its two optionals). An error made by `Error::from_code` carries its code and message and the
errno 0. Byte strings (`std::string`, `std::string_view`, `std::vector<unsigned char>`,
`std::span<const unsigned char>`) are lists of `UInt8`.
-/

namespace Uproxy

/-- A byte string. -/
abbrev Bytes := List UInt8

/-- The bytes of an ASCII literal. -/
def ascii (s : String) : Bytes := s.toList.map fun c => c.toNat.toUInt8

/-- A literal is the list of its characters. Evaluating `String.toList` on it means decoding UTF-8,
which takes long for more than a few of them. -/
theorem ascii_ofList (cs : List Char) :
    ascii (String.ofList cs) = cs.map fun c => c.toNat.toUInt8 := by
  rw [ascii, String.toList_ofList]

/-- What holds of 256 numbers holds of every byte. -/
theorem forall_byte {P : UInt8 → Prop} (h : ∀ n < 256, P (UInt8.ofNat n)) (b : UInt8) : P b := by
  have := h b.toNat (UInt8.toNat_lt b)
  rwa [UInt8.ofNat_toNat] at this

/-- `size_t` and `uint64_t` count modulo this. -/
def sizeMod : Nat := 2 ^ 64

/-- `ErrCode`. -/
inductive ErrCode where
  | ok | sysError | wouldBlock | eof | httpMalformed | http2Protocol | hpackError | configSyntax
  | configInvalid | tlsHandshake | tlsIO | noUpstream | timeout
  deriving DecidableEq, Repr

/-- `Error`. -/
structure Error where
  code     : ErrCode
  sysErrno : Int
  msg      : String
  deriving DecidableEq, Repr

/-- `Error::from_code`. -/
def Error.fromCode (c : ErrCode) (msg : String) : Error := ⟨c, 0, msg⟩

/-- `Error::from_errno`, the errno being what the failed call left. -/
def Error.fromErrno (errno : Int) (ctx : String) : Error := ⟨.sysError, errno, ctx⟩

/-- `Result<T>`. -/
abbrev Result (α : Type) := Except Error α

instance instDecidableEqResult {ε α : Type} [DecidableEq ε] [DecidableEq α] :
    DecidableEq (Except ε α)
  | .ok a, .ok b => decidable_of_iff (a = b) (by simp)
  | .error a, .error b => decidable_of_iff (a = b) (by simp)
  | .ok _, .error _ => isFalse (by simp)
  | .error _, .ok _ => isFalse (by simp)

end Uproxy
