import Mathlib.Data.List.TakeWhile
import Mathlib.Data.UInt

/-!
# Bytes, texts and exceptions

The C++ side works with `std::string`, which is a sequence of bytes, and with byte buffers. Both
are lists of bytes here, so that a string argument and the payload it travels in are the same
thing. String literals of the source are written `txt "…"`.

The two standard exception classes the code throws and catches are kept apart, with the text
`what()` returns.
-/

namespace Ssoa

/-- A `char` or an `unsigned char`. -/
abbrev Byte := UInt8

/-- A `std::string`. -/
abbrev Text := List Byte

/-- A string literal. -/
def txt (s : String) : Text := s.toUTF8.data.toList

@[simp] theorem txt_empty : txt "" = [] := rfl

/-- The byte of an ASCII character. -/
def chr (c : Char) : Byte := c.toNat.toUInt8

/-- `isspace` in the "C" locale: the blank, and `\t`, `\n`, `\v`, `\f`, `\r`. -/
def isSpace (b : Byte) : Bool := b = 32 || (9 ≤ b && b ≤ 13)

/-- `\w` in the "C" locale: a letter, a digit or an underscore. -/
def isWord (b : Byte) : Bool :=
  (48 ≤ b && b ≤ 57) || (65 ≤ b && b ≤ 90) || b = 95 || (97 ≤ b && b ≤ 122)

theorem not_isSpace_of_isWord {b : Byte} (h : isWord b) : isSpace b = false := by
  simp only [isWord, Bool.or_eq_true, Bool.and_eq_true, decide_eq_true_eq,
    UInt8.le_iff_toNat_le, ← UInt8.toNat_inj] at h
  simp only [isSpace, Bool.or_eq_false_iff, Bool.and_eq_false_iff, decide_eq_false_iff_not,
    UInt8.le_iff_toNat_le, ← UInt8.toNat_inj]
  simp at h ⊢
  omega

/-- A text read as a C string: everything before the first NUL. -/
def cstr (s : Text) : Text := s.takeWhile fun b => b ≠ 0

theorem zero_not_mem_cstr (s : Text) : 0 ∉ cstr s := by
  intro h
  have := List.mem_takeWhile_imp (p := fun b => decide (b ≠ 0)) h
  simp at this

/-- `buffer(s.c_str(), s.size() + 1)`: a string and the NUL after it. -/
def wire (s : Text) : Text := s ++ [0]

/-- What is read up to the NUL is the string that was sent. -/
theorem cstr_wire_append {s : Text} (h : 0 ∉ s) (rest : Text) : cstr (wire s ++ rest) = s := by
  have hne : ∀ b ∈ s, decide (b ≠ 0) = true := fun b hb => by
    simpa using fun heq : b = 0 => h (heq ▸ hb)
  rw [wire, List.append_assoc, cstr, List.takeWhile_append_of_pos hne]
  simp

theorem cstr_wire {s : Text} (h : 0 ∉ s) : cstr (wire s) = s := by
  simpa using cstr_wire_append h []

/-- What the code throws: `std::runtime_error` or `std::logic_error`, with its `what()`. -/
inductive Exn where
  | runtime (what : Text)
  | logic (what : Text)
  deriving DecidableEq

/-- The text of an exception. -/
def Exn.what : Exn → Text
  | .runtime w => w
  | .logic w => w

end Ssoa
