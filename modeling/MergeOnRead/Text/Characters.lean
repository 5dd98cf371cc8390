/-!
# Characters

A property of characters is written down as a table of closed ranges of code points;
here are the membership test, the blanks, and the decimal digits of every script.

The characters that count as white space around a number or a word are the Unicode
white space, and the four separators `U+001C` to `U+001F`.  Each script keeps its ten
decimal digits together and in order, so the digit zero of a script gives the value of
all ten.
-/

namespace MergeOnRead.Text

/-- A set of characters, given by closed ranges of code points. -/
structure CharRanges where
  /-- The first and the last code point of each range. -/
  ranges : Array (Nat × Nat)

/-- A character belongs to the set when one of the ranges holds its code point. -/
def CharRanges.contains (set : CharRanges) (c : Char) : Bool :=
  set.ranges.any fun (lo, hi) => lo ≤ c.toNat && c.toNat ≤ hi

/-! ## Blanks -/

/-- White space. -/
def blanks : CharRanges where
  ranges := #[
    (0x0009, 0x000D), (0x001C, 0x0020), (0x0085, 0x0085), (0x00A0, 0x00A0), (0x1680, 0x1680),
    (0x2000, 0x200A), (0x2028, 0x2029), (0x202F, 0x202F), (0x205F, 0x205F), (0x3000, 0x3000)
  ]

/-- A blank separates words and may surround a number. -/
def isBlank (c : Char) : Bool := blanks.contains c

/-- What is left when the blanks at both ends are dropped. -/
def trimBlanks (cs : List Char) : List Char :=
  ((cs.dropWhile isBlank).reverse.dropWhile isBlank).reverse

/-! ## Digits -/

/-- The zeros of the scripts that have decimal digits of their own. -/
def digitZeros : Array Nat := #[
    0x0030, 0x0660, 0x06F0, 0x07C0, 0x0966, 0x09E6, 0x0A66, 0x0AE6, 0x0B66, 0x0BE6, 0x0C66,
    0x0CE6, 0x0D66, 0x0DE6, 0x0E50, 0x0ED0, 0x0F20, 0x1040, 0x1090, 0x17E0, 0x1810, 0x1946,
    0x19D0, 0x1A80, 0x1A90, 0x1B50, 0x1BB0, 0x1C40, 0x1C50, 0xA620, 0xA8D0, 0xA900, 0xA9D0,
    0xA9F0, 0xAA50, 0xABF0, 0xFF10, 0x104A0, 0x10D30, 0x11066, 0x110F0, 0x11136, 0x111D0,
    0x112F0, 0x11450, 0x114D0, 0x11650, 0x116C0, 0x11730, 0x118E0, 0x11950, 0x11C50, 0x11D50,
    0x11DA0, 0x16A60, 0x16AC0, 0x16B50, 0x1D7CE, 0x1D7D8, 0x1D7E2, 0x1D7EC, 0x1D7F6, 0x1E140,
    0x1E2F0, 0x1E950, 0x1FBF0
  ]

/-- The value of a decimal digit, if the character is one. -/
def digitValue? (c : Char) : Option Nat :=
  (digitZeros.find? fun base => base ≤ c.toNat && c.toNat ≤ base + 9).map (c.toNat - ·)

end MergeOnRead.Text
