/-! Numbers as text.

    Decimal, hexadecimal and binary digits without leading zeros, with the marks `0x` and `0b`, and
    the signed reading of a data word. Hexadecimal digits are read in either case. -/

namespace Sequencer.Text

/-- Lower-case hexadecimal digits of `n`. -/
def hexDigits (n : Nat) : String := String.ofList (Nat.toDigits 16 n)

/-- `n` in hexadecimal with its mark. -/
def hex (n : Nat) : String := "0x" ++ hexDigits n

/-- Value of a hexadecimal digit. -/
def hexValue? (c : Char) : Option Nat :=
  if '0' ≤ c && c ≤ '9' then some (c.toNat - '0'.toNat)
  else if 'a' ≤ c && c ≤ 'f' then some (c.toNat - 'a'.toNat + 10)
  else if 'A' ≤ c && c ≤ 'F' then some (c.toNat - 'A'.toNat + 10)
  else none

/-- Pad a text on the left to at least `width` characters. -/
def padLeft (width : Nat) (c : Char) (s : String) : String :=
  String.ofList (List.replicate (width - s.length) c) ++ s

/-- `n` in binary with its mark, with at least `width` digits. -/
def binary (width n : Nat) : String :=
  "0b" ++ padLeft width '0' (String.ofList (Nat.toDigits 2 n))

/-- A data word read as a two's complement number. -/
def signed (x : UInt32) : String :=
  if x < 0x80000000 then toString x.toNat else "-" ++ toString (0x100000000 - x.toNat)

end Sequencer.Text
