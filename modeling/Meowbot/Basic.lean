import Mathlib.Data.List.TakeWhile
import Mathlib.Algebra.Order.Ring.Int
import Mathlib.Tactic.Common

set_option relaxedAutoImplicit false
set_option autoImplicit false

/-!
# Bytes and C strings

The strings of the program are byte strings: lines read from a socket, `std::string` values and
NUL-terminated buffers. A `std::string` may hold any byte; code that goes through `c_str()`
sees the bytes before the first NUL only.

## Main definitions

* `Meowbot.Byte`, `Meowbot.Bytes` — bytes and byte strings; `Meowbot.bytes` — the bytes of an
  ASCII literal. Characters are used as bytes through a coercion, as in the source.
* `Meowbot.LF`, `Meowbot.CR` — the line terminators.
* `Meowbot.cstr` — what `c_str()` shows of a string.
* `Meowbot.int32Max` — the largest `int`.
-/

namespace Meowbot

/-- A byte (`char` or `unsigned char`). -/
abbrev Byte := UInt8

/-- A byte string (`std::string`). -/
abbrev Bytes := List Byte

instance : Coe Char Byte := ⟨fun c => UInt8.ofNat c.toNat⟩

/-- `\n`. -/
abbrev LF : Byte := 10

/-- `\r`. -/
abbrev CR : Byte := 13

/-- The bytes of an ASCII string literal. -/
def bytes (s : String) : Bytes := s.toList.map fun c => UInt8.ofNat c.toNat

/-- A fact about all bytes is one about the numbers below 256. -/
lemma forall_byte {P : Byte → Prop} (h : ∀ n < 256, P (UInt8.ofNat n)) (c : Byte) : P c := by
  have hc := h c.toNat c.toNat_lt
  rwa [UInt8.ofNat_toNat] at hc

/-- `INT_MAX`, for a 32-bit `int`. -/
def int32Max : ℕ := 2147483647

/-- The C string a byte string denotes through `c_str()`: the bytes before the first NUL. -/
def cstr (s : Bytes) : Bytes := s.takeWhile (· ≠ 0)

/-- A C string contains no NUL. -/
lemma zero_notMem_cstr (s : Bytes) : 0 ∉ cstr s := by
  intro h
  simpa using List.mem_takeWhile_imp h

/-- A byte string without NUL is its own C string. -/
lemma cstr_eq_self {s : Bytes} (h : 0 ∉ s) : cstr s = s := by
  rw [cstr, List.takeWhile_eq_self_iff]
  intro x hx
  simp only [ne_eq, decide_not, Bool.not_eq_true', decide_eq_false_iff_not]
  rintro rfl
  exact h hx

/-- Taking the C string twice is taking it once. -/
@[simp] lemma cstr_cstr (s : Bytes) : cstr (cstr s) = cstr s := cstr_eq_self (zero_notMem_cstr s)

/-- The bytes before the terminator. -/
lemma cstr_append_zero {s : Bytes} (h : 0 ∉ s) : cstr (s ++ [0]) = s := by
  rw [cstr, List.takeWhile_append_of_pos]
  · simp
  · intro x hx
    simp only [ne_eq, decide_not, Bool.not_eq_true', decide_eq_false_iff_not]
    rintro rfl
    exact h hx

end Meowbot
