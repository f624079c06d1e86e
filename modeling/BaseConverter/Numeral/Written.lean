import BaseConverter.Numeral.Digit
import BaseConverter.Word

/-!
# `BaseConverter.Numeral.Written`: words as numbers on paper

A word is written with a sign in decimal, and as its pattern of bits in
hexadecimal and binary. The two patterns are padded with zeros to whole
bytes: an even number of hexadecimal digits behind the mark `0x`, a
multiple of eight binary digits.

* `padHex` and `padBinary` bring a row of digits into that shape.
* `Base.write` is the written form of a word.
-/

set_option autoImplicit false

namespace BaseConverter

/-- The mark that every written hexadecimal number begins with. -/
def hexMark : Text := "0x".toList

/-- A hexadecimal number in its written shape: the mark, then capitals,
with zeros in front up to an even length of at least two. The length is
taken in bytes of UTF-8, which for digits is their number. -/
def padHex (text : Text) : Text :=
  let digits := (dropHexMark text).toUpper
  let length := digits.utf8Length
  hexMark ++ List.replicate (wholeUnits 2 length - length) '0' ++ digits

/-- A binary number in its written shape: zeros in front up to a
multiple of eight. The multiple is the one for the length in bytes of
UTF-8, and the zeros fill it up in characters; for digits both lengths
are their number. The width may be any number: a bound of 16 bits on
widths, which is reached behind 65,528 digits, is not modelled. -/
def padBinary (digits : Text) : Text :=
  digits.leftpad (wholeUnits 8 digits.utf8Length) '0'

/-- An integer in decimal digits, with a minus in front when it is
negative. -/
def writeInt (value : Int) : Text :=
  if value < 0 then
    '-' :: Base.decimal.digits value.natAbs
  else
    Base.decimal.digits value.natAbs

/-- The written form of a word in a base. -/
def Base.write : Base → Word → Text
  | .decimal, word => writeInt word.toInt
  | .hex, word => padHex (Base.hex.digits word.toNat)
  | .binary, word => padBinary (Base.binary.digits word.toNat)

end BaseConverter
