import Mathlib.Tactic.Common
import Mathlib.Algebra.Order.Ring.Nat

/-! Texts as their bytes and in their debug form, and numbers as hexadecimal digits of a fixed
width.
-/

namespace Hane.Foundations

-- Bytes

def textBytes (text : List Char) : List UInt8 := text.flatMap String.utf8EncodeChar

def textFromUtf8 (bytes : List UInt8) : Option (List Char) :=
  (String.fromUTF8? bytes.toByteArray).map String.toList

theorem textFromUtf8_textBytes (text : List Char)
    : textFromUtf8 (textBytes text) = some text := by
  have bytes : (textBytes text).toByteArray = (String.ofList text).toByteArray :=
    String.toByteArray_ofList.symm
  have read : String.fromUTF8? (String.ofList text).toByteArray = some (String.ofList text) :=
    dif_pos (String.isValidUTF8 (String.ofList text))
  rw [textFromUtf8, bytes, read, Option.map_some, String.toList_ofList]

-- The debug form of a text

/-- The characters outside ASCII that a debug form escapes, by their ranges: controls, separators,
format and private-use characters, and the marks that combine in the common blocks.
-/
def escapedRanges : List (Nat × Nat) :=
  [(0x7f, 0xa0), (0xad, 0xad), (0x300, 0x36f), (0x483, 0x489), (0x591, 0x5bd), (0x600, 0x605),
    (0x610, 0x61a), (0x61c, 0x61c), (0x64b, 0x65f), (0x670, 0x670), (0x6d6, 0x6dd),
    (0x70f, 0x70f), (0x890, 0x891), (0x8e2, 0x8e2), (0x1680, 0x1680), (0x180b, 0x180f),
    (0x1ab0, 0x1ace), (0x1dc0, 0x1dff), (0x2000, 0x200f), (0x2028, 0x202f), (0x205f, 0x206f),
    (0x20d0, 0x20f0), (0x3000, 0x3000), (0x302a, 0x302f), (0x3099, 0x309a), (0xe000, 0xf8ff),
    (0xfe00, 0xfe0f), (0xfe20, 0xfe2f), (0xfeff, 0xfeff), (0xff9e, 0xff9f), (0xfff0, 0xfffb),
    (0xfffe, 0xffff), (0x110bd, 0x110bd), (0x110cd, 0x110cd), (0x13430, 0x13440),
    (0x1bca0, 0x1bca3), (0x1d165, 0x1d169), (0x1d16d, 0x1d182), (0xe0000, 0x10ffff)]

def escapeDebug (char : Char) : List Char :=
  let code := char.toNat
  if char = '\x00' then ['\\', '0']
  else if char = '\t' then ['\\', 't']
  else if char = '\r' then ['\\', 'r']
  else if char = '\n' then ['\\', 'n']
  else if char = '"' ∨ char = '\\' then ['\\', char]
  else if code < 0x20 ∨ escapedRanges.any fun (first, last) => first ≤ code ∧ code ≤ last then
    ['\\', 'u', Char.ofNat 0x7b] ++ Nat.toDigits 16 code ++ [Char.ofNat 0x7d]
  else [char]

/-- A text as Rust's debug form shows it. -/
def debugText (text : String) : String :=
  String.ofList (['"'] ++ text.toList.flatMap escapeDebug ++ ['"'])

-- Hexadecimal digits

/-- The lowest digit of a number. -/
def hexChar (value : Nat) : Char := "0123456789abcdef".toList.getD (value % 16) '0'

/-- The lowest digits of a number, the highest of them first. -/
def hexText : Nat → Nat → List Char
  | 0, _ => []
  | width + 1, value => hexText width (value / 16) ++ [hexChar value]

def hexValue (digit : Char) : Option Nat :=
  if '0' ≤ digit ∧ digit ≤ '9' then some (digit.toNat - '0'.toNat)
  else if 'a' ≤ digit ∧ digit ≤ 'f' then some (digit.toNat - 'a'.toNat + 10)
  else if 'A' ≤ digit ∧ digit ≤ 'F' then some (digit.toNat - 'A'.toNat + 10)
  else none

/-- The number that digits stand for, behind those read so far. -/
def readHex : Nat → List Char → Option Nat
  | value, [] => some value
  | value, digit :: rest => (hexValue digit).bind fun low => readHex (16 * value + low) rest

/-- What a text stands for as a number of 64 bits: digits, at least one, behind an optional plus
sign.
-/
def hexNumber (text : List Char) : Option Nat :=
  let digits := if text.head? = some '+' then text.tail else text
  if digits = [] then none else (readHex 0 digits).filter (· < 2 ^ 64)

theorem hexValue_hexChar (value : Nat) : hexValue (hexChar value) = some (value % 16) := by
  have all : ∀ low < 16, hexValue ("0123456789abcdef".toList.getD low '0') = some low := by
    decide +kernel
  exact all _ (Nat.mod_lt _ (by decide))

@[simp] theorem hexText_length (width value : Nat) : (hexText width value).length = width := by
  induction width generalizing value with
  | zero => rfl
  | succ width ih => rw [hexText, List.length_append, ih, List.length_singleton]

theorem readHex_append (value : Nat) (first second : List Char)
    : readHex value (first ++ second)
      = (readHex value first).bind fun read => readHex read second := by
  induction first generalizing value with
  | nil => rfl
  | cons digit rest ih =>
      rw [List.cons_append, readHex, readHex, Option.bind_assoc]
      exact congrArg _ (funext fun low => ih _)

/-- What is printed is read, by induction on the width. -/
theorem readHex_hexText (width value : Nat)
    : readHex 0 (hexText width value) = some (value % 16 ^ width) := by
  induction width generalizing value with
  | zero => rw [hexText, readHex, Nat.pow_zero, Nat.mod_one]
  | succ width ih =>
      rw [hexText, readHex_append, ih, Option.bind_some, readHex, hexValue_hexChar,
        Option.bind_some, readHex, Nat.pow_succ', Nat.mod_mul]
      exact congrArg some (by omega)

theorem hexNumber_hexText {width value : Nat} (wide : 0 < width) (small : value < 2 ^ 64)
    (fits : value < 16 ^ width) : hexNumber (hexText width value) = some value := by
  have filled : hexText width value ≠ [] := by
    intro none
    have length := hexText_length width value
    rw [none] at length
    exact absurd length.symm (Nat.ne_of_gt wide)
  have plain : (hexText width value).head? ≠ some '+' := by
    intro sign
    obtain ⟨rest, same⟩ := List.head?_eq_some_iff.mp sign
    have read := readHex_hexText width value
    rw [same, readHex] at read
    cases read
  rw [hexNumber, if_neg plain, if_neg filled, readHex_hexText, Nat.mod_eq_of_lt fits]
  exact Option.filter_eq_some_iff.mpr ⟨rfl, decide_eq_true small⟩

theorem hexText_inj {width left right : Nat} (same : hexText width left = hexText width right)
    (leftFits : left < 16 ^ width) (rightFits : right < 16 ^ width) : left = right := by
  have read := readHex_hexText width left
  rw [same, readHex_hexText, Nat.mod_eq_of_lt rightFits, Nat.mod_eq_of_lt leftFits] at read
  exact (Option.some.inj read).symm

end Hane.Foundations
