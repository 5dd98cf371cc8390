import MergeOnRead.Text.Hex

/-!
# JSON texts

Reads the values that JSON texts stand for.  Beside the numbers of the standard, the words
`NaN`, `Infinity` and `-Infinity` are numbers.  Of a number with a fraction or an exponent
nothing is kept but that it is one.
-/

namespace MergeOnRead.Text

/-- A JSON value. -/
inductive Json where
  | null
  | bool (b : Bool)
  | int (n : Int)
  /-- A number that is not written as an integer. -/
  | real
  | text (s : String)
  | array (items : List Json)
  | object (members : List (String × Json))
  deriving Repr

namespace Json

/-- The member with a name; of members with the name the last one counts. -/
def get? (name : String) : Json → Option Json
  | .object members => members.reverse.lookup name
  | _ => none

/-! ## Numbers and words -/

/-- The blanks between the parts. -/
def isSpace (c : Char) : Bool := c = ' ' || c = '\t' || c = '\n' || c = '\r'

/-- Skips blanks. -/
def skip (cs : List Char) : List Char := cs.dropWhile isSpace

/-- Splits off digits behind a mark; without a digit nothing is split off. -/
def takePart (digits rest : List Char) : Bool × List Char :=
  let run := digits.takeWhile Char.isDigit
  if run.isEmpty then (false, rest) else (true, digits.drop run.length)

/-- Splits off the fraction of a number. -/
def takeFraction : List Char → Bool × List Char
  | '.' :: digits => takePart digits ('.' :: digits)
  | cs => (false, cs)

/-- Splits off the exponent of a number. -/
def takeExponent : List Char → Bool × List Char
  | c :: rest =>
    if c = 'e' ∨ c = 'E' then
      match rest with
      | '+' :: digits | '-' :: digits => takePart digits (c :: rest)
      | _ => takePart rest (c :: rest)
    else (false, c :: rest)
  | [] => (false, [])

/-- Reads a number.  Digits behind a zero are no part of it. -/
def number? (cs : List Char) : Option (Json × List Char) :=
  let (negative, body) := match cs with
    | '-' :: rest => (true, rest)
    | _ => (false, cs)
  let whole := match body with
    | '0' :: _ => ['0']
    | _ => body.takeWhile Char.isDigit
  if whole.isEmpty then none
  else
    let (hasFraction, rest) := takeFraction (body.drop whole.length)
    let (hasExponent, rest) := takeExponent rest
    let n := whole.foldl (fun n c => 10 * n + (c.toNat - '0'.toNat)) 0
    some (if hasFraction || hasExponent then .real else .int (if negative then -n else n), rest)

/-- The words that stand for values. -/
def words : List (String × Json) :=
  [("null", .null), ("true", .bool true), ("false", .bool false), ("NaN", .real),
    ("Infinity", .real), ("-Infinity", .real)]

/-- Reads a word. -/
def word? (cs : List Char) : Option (Json × List Char) :=
  (words.find? fun w => w.1.toList.isPrefixOf cs).map fun w => (w.2, cs.drop w.1.length)

/-! ## Texts -/

/-- The characters that stand for others behind a backslash. -/
def escapes : List (Char × Char) :=
  [('"', '"'), ('\\', '\\'), ('/', '/'), ('b', '\x08'), ('f', '\x0c'), ('n', '\n'), ('r', '\r'),
    ('t', '\t')]

/-- Reads a text up to its closing quote.  A number of four hexadecimal digits may be half of a
character, so the text comes as numbers. -/
def units? : List Char → Option (List Nat × List Char)
  | [] => none
  | '"' :: rest => some ([], rest)
  | '\\' :: 'u' :: a :: b :: c :: d :: rest => do
    let n ← hexNumber? [a, b, c, d]
    let (units, rest) ← units? rest
    some (n :: units, rest)
  | '\\' :: c :: rest => do
    let e ← escapes.lookup c
    let (units, rest) ← units? rest
    some (e.toNat :: units, rest)
  | c :: rest => do
    if c.toNat < 32 then none
    else
      let (units, rest) ← units? rest
      some (c.toNat :: units, rest)

/-- The characters of some numbers, of which two halves make one character.  A half that stands
alone is replaced. -/
def join : List Nat → List Char
  | m :: n :: rest =>
    if 0xD800 ≤ m ∧ m < 0xDC00 ∧ 0xDC00 ≤ n ∧ n < 0xE000 then
      Char.ofNat (0x10000 + (m - 0xD800) * 0x400 + (n - 0xDC00)) :: join rest
    else character m :: join (n :: rest)
  | [n] => [character n]
  | [] => []
where
  /-- The character of a number. -/
  character (n : Nat) : Char := if 0xD800 ≤ n ∧ n < 0xE000 then '\uFFFD' else Char.ofNat n

/-- Reads a text behind its opening quote. -/
def text? (cs : List Char) : Option (String × List Char) :=
  (units? cs).map fun (units, rest) => (String.ofList (join units), rest)

/-! ## Values -/

mutual

/-- Reads a value.  The fuel is enough when it exceeds twice the number of characters. -/
def value? : (fuel : Nat) → List Char → Option (Json × List Char)
  | 0, _ => none
  | fuel + 1, cs =>
    match skip cs with
    | '"' :: rest => (text? rest).map fun (s, rest) => (.text s, rest)
    | '[' :: rest =>
      match skip rest with
      | ']' :: rest => some (.array [], rest)
      | rest => (items? fuel rest).map fun (items, rest) => (.array items, rest)
    | '\x7b' :: rest =>
      match skip rest with
      | '\x7d' :: rest => some (.object [], rest)
      | rest => (members? fuel rest).map fun (members, rest) => (.object members, rest)
    | cs => (word? cs).or (number? cs)

/-- Reads the items of an array up to its closing bracket. -/
def items? : (fuel : Nat) → List Char → Option (List Json × List Char)
  | 0, _ => none
  | fuel + 1, cs => do
    let (v, rest) ← value? fuel cs
    match skip rest with
    | ']' :: rest => some ([v], rest)
    | ',' :: rest => do
      let (vs, rest) ← items? fuel rest
      some (v :: vs, rest)
    | _ => none

/-- Reads the members of an object up to its closing bracket. -/
def members? : (fuel : Nat) → List Char → Option (List (String × Json) × List Char)
  | 0, _ => none
  | fuel + 1, cs => do
    let '"' :: rest := skip cs | none
    let (name, rest) ← text? rest
    let ':' :: rest := skip rest | none
    let (v, rest) ← value? fuel rest
    match skip rest with
    | '\x7d' :: rest => some ([(name, v)], rest)
    | ',' :: rest => do
      let (vs, rest) ← members? fuel rest
      some ((name, v) :: vs, rest)
    | _ => none

end

/-- Reads a text as one value. -/
def read? (s : String) : Option Json := do
  let cs := s.toList
  let (v, rest) ← value? (2 * cs.length + 2) cs
  if (skip rest).isEmpty then some v else none

end Json

end MergeOnRead.Text
