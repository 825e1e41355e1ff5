import Ssoa.Base
import Ssoa.Lib.Backtrack

/-!
# Service signatures

A signature is read from a text such as `RotateImage(in int, in buffer, out buffer)` by two
regular expressions: `sigPattern` splits the text into a name and an argument text, and
`argPattern` is then iterated over the argument text, one parameter a match.

The constructor never fails. On a malformed text it clears `isValid`, but it still fills in a
name and whatever parameters it collected before it stopped, and it builds the canonical string
from those. Equality of signatures is equality of the canonical strings.

A `ServiceSignature` carries the proof that one of its two constructors built it, so there are no
others to consider.
-/

namespace Ssoa

open Backtrack Pattern

/-! ## The two patterns -/

/-- `is_separator`: the characters a line can end at. -/
def isSeparator (b : Byte) : Bool := b = chr '\n' || b = chr '\r' || b = 12

/-- `$`: at the end of the text, or before a line separator that is not the second half of a
`\r\n`. -/
def endLine (c : Cursor Byte) : Bool :=
  match c.rest with
  | [] => true
  | b :: _ => isSeparator b && !(c.prev = some (chr '\r') && b = chr '\n')

/-- `\G`: where the search started. -/
def restart : Pattern Byte := test Cursor.atBase

/-- `\s*(\w+)\s*\(\s*(.+)\)\s*`. The dot matches every character, line ends included. -/
def sigPattern : Pattern Byte :=
  seq (star isSpace) <| seq (group 1 (plus isWord)) <| seq (star isSpace) <| seq (lit (chr '(')) <|
    seq (star isSpace) <| seq (group 2 (plus fun _ => true)) <| seq (lit (chr ')')) (star isSpace)

/-- `\G(in|out)\s+(\w+)\s*(,\s*|$)|\G(.+)`. -/
def argPattern : Pattern Byte :=
  alt
    (seq restart <| seq (group 1 (alt (word (txt "in")) (word (txt "out")))) <|
      seq (plus isSpace) <| seq (group 2 (plus isWord)) <| seq (star isSpace) <|
        group 3 (alt (seq (lit (chr ',')) (star isSpace)) (test endLine)))
    (seq restart (group 4 (plus fun _ => true)))

/-! ## The constructors -/

/-- The data members of a `ServiceSignature`. -/
structure SignatureFields where
  name : Text
  signature : Text
  inputParams : List Text
  outputParams : List Text
  isValid : Bool
  deriving DecidableEq

/-- What the loop over the argument text has filled in so far. -/
structure Collected where
  arguments : Text := []
  inputParams : List Text := []
  outputParams : List Text := []
  isValid : Bool
  deriving DecidableEq

/-- One parameter of the argument text. -/
def Collected.push (acc : Collected) (direction type : Text) : Collected :=
  { acc with
    arguments := (if acc.arguments ≠ [] then acc.arguments ++ txt ", " else acc.arguments) ++
      (direction ++ txt " " ++ type)
    inputParams := if direction = txt "in" then acc.inputParams ++ [type] else acc.inputParams
    outputParams := if direction = txt "in" then acc.outputParams else acc.outputParams ++ [type] }

/-- The loop over the matches of `argPattern`. A non-empty group 4 is text that is no parameter:
the loop stops there. -/
def collectArguments : List (Occurrence Byte) → Collected → Collected
  | [], acc => acc
  | i :: is, acc =>
    if i.group 4 ≠ [] then { acc with isValid := false }
    else collectArguments is (acc.push (i.group 1) (i.group 2))

namespace SignatureFields

/-- The default constructor, which is also `ServiceSignature::any`. -/
def any : SignatureFields := ⟨txt "*", txt "*", [], [], false⟩

/-- The constructor from a string. -/
def parse (signature : Text) : SignatureFields :=
  let name := replaceAll sigPattern 1 signature
  let args := replaceAll sigPattern 2 signature
  let c := collectArguments (occurrences argPattern args)
    { isValid := matchesWhole sigPattern signature }
  ⟨name, name ++ txt "(" ++ c.arguments ++ txt ")", c.inputParams, c.outputParams, c.isValid⟩

end SignatureFields

/-- A service signature, as one of the two constructors leaves it. -/
structure ServiceSignature extends SignatureFields where
  built : toSignatureFields = SignatureFields.any ∨ ∃ s, toSignatureFields = SignatureFields.parse s
  deriving DecidableEq

namespace ServiceSignature

/-- `ServiceSignature::any`. -/
def any : ServiceSignature := ⟨SignatureFields.any, .inl rfl⟩

/-- `ServiceSignature(const std::string&)`. -/
def ofText (s : Text) : ServiceSignature := ⟨SignatureFields.parse s, .inr ⟨s, rfl⟩⟩

/-- `operator==`. -/
def equals (a b : ServiceSignature) : Bool := a.signature = b.signature

theorem equals_iff {a b : ServiceSignature} : a.equals b = true ↔ a.signature = b.signature := by
  simp [equals]

@[simp] theorem equals_refl (a : ServiceSignature) : a.equals a = true := by simp [equals]

/-- A signature other than `any` comes from a text. -/
theorem eq_any_or_ofText (a : ServiceSignature) : a = any ∨ ∃ s, a = ofText s := by
  obtain ⟨fields, rfl | ⟨s, rfl⟩⟩ := a
  · exact .inl rfl
  · exact .inr ⟨s, rfl⟩

example :
    (ofText (txt "  RotateImage   (   in   int  ,  in  buffer  ,  out  buffer  )  ")).signature =
    txt "RotateImage(in int, in buffer, out buffer)" := by decide +kernel

example : (ofText (txt "RotateImage(in int in buffer)")).isValid = false := by decide +kernel

end ServiceSignature

end Ssoa
