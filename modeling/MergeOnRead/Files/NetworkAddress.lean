/-!
# Network addresses in locations

A location may name a host by an address in brackets.  Inside the brackets stands an
address of eight groups of hexadecimal digits, with the usual abbreviations, or one
of a future version.
-/

namespace MergeOnRead.NetworkAddress

/-- Splits a text at every occurrence of a character. -/
def splitAt (separator : Char) : List Char → List (List Char)
  | [] => [[]]
  | c :: cs =>
    if c = separator then [] :: splitAt separator cs
    else match splitAt separator cs with
      | [] => [[c]]
      | part :: parts => (c :: part) :: parts

/-- A hexadecimal digit. -/
def isHexDigit (c : Char) : Bool :=
  c.isDigit || ('a' ≤ c && c ≤ 'f') || ('A' ≤ c && c ≤ 'F')

/-- A group of one to four hexadecimal digits. -/
def isGroup (part : List Char) : Bool :=
  1 ≤ part.length && part.length ≤ 4 && part.all isHexDigit

/-- A number up to 255 in decimal digits without leading zeros. -/
def isOctet (part : List Char) : Bool :=
  1 ≤ part.length && part.length ≤ 3 && part.all Char.isDigit &&
    (part.length == 1 || part.head? != some '0') &&
    part.foldl (fun n c => 10 * n + (c.toNat - '0'.toNat)) 0 ≤ 255

/-- Four numbers between dots. -/
def isDotted (part : List Char) : Bool :=
  let octets := splitAt '.' part
  octets.length == 4 && octets.all isOctet

/-- The groups of an address; four numbers between dots at the end count as two groups. -/
def groups? (cs : List Char) : Option (List (List Char)) :=
  let parts := splitAt ':' cs
  match parts.getLast? with
  | none => none
  | some last =>
    if last.contains '.' then
      if isDotted last then some (parts.dropLast ++ [['0'], ['0']]) else none
    else some parts

/-- Groups without an abbreviation number eight; an abbreviation is an empty group inside, and
stands for at least one group.  An empty group at an end belongs to an abbreviation there. -/
def areGroups (parts : List (List Char)) : Bool :=
  let inner := (parts.drop 1).dropLast
  let gaps := (inner.filter List.isEmpty).length
  let startsEmpty := (parts.head?.map List.isEmpty).getD true
  let endsEmpty := (parts.getLast?.map List.isEmpty).getD true
  if parts.length < 3 || 9 < parts.length || 1 < gaps then false
  else if gaps = 1 then
    let before := inner.takeWhile fun p => !p.isEmpty
    let after := (inner.dropWhile fun p => !p.isEmpty).drop 1
    let first := (parts.take 1).filter fun p => !p.isEmpty
    let last := (parts.drop (parts.length - 1)).filter fun p => !p.isEmpty
    (!startsEmpty || before.isEmpty) && (!endsEmpty || after.isEmpty) &&
      first.length + before.length + after.length + last.length < 8 &&
      (first ++ before ++ after ++ last).all isGroup
  else parts.length == 8 && !startsEmpty && !endsEmpty && parts.all isGroup

/-- An address of eight groups, with a zone after a percent sign, if any. -/
def isSixGroups (cs : List Char) : Bool :=
  let address := cs.takeWhile (· ≠ '%')
  let zone := cs.dropWhile (· ≠ '%')
  let zoneOk := match zone with
    | [] => true
    | _ :: rest => !rest.isEmpty && !rest.contains '%'
  zoneOk && !address.contains '/' && match groups? address with
    | some parts => areGroups parts
    | none => false

/-- An address of a future version: `v`, a version number, a dot, and anything on one line. -/
def isFuture (cs : List Char) : Bool :=
  match cs with
  | 'v' :: rest =>
    let version := rest.takeWhile isHexDigit
    match rest.dropWhile isHexDigit with
    | '.' :: tail => !version.isEmpty && !tail.isEmpty && !tail.contains '\n'
    | _ => false
  | _ => false

/-- What may stand in brackets. -/
def isBracketed (cs : List Char) : Bool :=
  if cs.head? = some 'v' then isFuture cs else isSixGroups cs

end MergeOnRead.NetworkAddress
