import MergeOnRead.Text.Hex
import MergeOnRead.Text.Printable

/-!
# Quoted text

The quoted form of a text and of a string of bytes.  Quotes are single, unless the
content holds a single quote and no double one; the quote itself, the backslash
and everything unprintable are escaped.
-/

namespace MergeOnRead.Text

/-- The escape of an unprintable character: two, four or eight hexadecimal digits. -/
def escapeCode (n : Nat) : String :=
  if n < 0x100 then "\\x" ++ hexDigits 2 n
  else if n < 0x10000 then "\\u" ++ hexDigits 4 n
  else "\\U" ++ hexDigits 8 n

/-- One character between quotes of the given kind. -/
def escapeChar (quote c : Char) : String :=
  if c = '\\' then "\\\\"
  else if c = quote then String.ofList ['\\', quote]
  else if c = '\t' then "\\t"
  else if c = '\n' then "\\n"
  else if c = '\r' then "\\r"
  else if isPrintable c then String.singleton c
  else escapeCode c.toNat

/-- The quote that surrounds a content. -/
def quoteFor (cs : List Char) : Char :=
  if cs.contains '\'' && !cs.contains '"' then '"' else '\''

/-- A text in quotes. -/
def quoted (s : String) : String :=
  let cs := s.toList
  let quote := quoteFor cs
  String.singleton quote ++ String.join (cs.map (escapeChar quote)) ++ String.singleton quote

/-- One byte between quotes of the given kind; bytes above the ASCII range are escaped. -/
def escapeByte (quote : Char) (b : UInt8) : String :=
  let c := Char.ofNat b.toNat
  if b.toNat < 0x7F then escapeChar quote c else escapeCode b.toNat

/-- A string of bytes in quotes, marked by a leading `b`. -/
def quotedBytes (bytes : List UInt8) : String :=
  let quote := quoteFor (bytes.map fun b => Char.ofNat b.toNat)
  "b" ++ String.singleton quote ++ String.join (bytes.map (escapeByte quote)) ++
    String.singleton quote

end MergeOnRead.Text
