import MergeOnRead.Files.NetworkAddress
import MergeOnRead.Options.Core
import MergeOnRead.Error

/-!
# Locations

A location is a plain path or a URL.  Its scheme tells the kind of storage, and
`Location.storePath` gives the path under which that storage knows the file.
-/

namespace MergeOnRead

/-- The parts of a location that matter for files. -/
structure Location where
  /-- The scheme in lower case; empty for a plain path. -/
  scheme : List Char
  /-- What stands between the double slash and the path. -/
  host : List Char
  /-- The path without query and fragment. -/
  path : List Char
  deriving DecidableEq, Repr

namespace Location

/-- Characters of a scheme. -/
def isSchemeChar (c : Char) : Bool :=
  c.isAlphanum || c = '+' || c = '-' || c = '.'

/-- Characters that are dropped wherever they stand. -/
def isDropped (c : Char) : Bool := c = '\t' || c = '\n' || c = '\r'

/-- Splits off a scheme: a letter, then scheme characters up to a colon. -/
def takeScheme (cs : List Char) : List Char × List Char :=
  let word := cs.takeWhile (· ≠ ':')
  match word, cs.dropWhile (· ≠ ':') with
  | first :: _, _ :: rest =>
    if first.isAlpha && word.all isSchemeChar then (word.map Char.toLower, rest) else ([], cs)
  | _, _ => ([], cs)

/-- Where a host ends. -/
def endsHost (c : Char) : Bool := c = '/' || c = '?' || c = '#'

/-- Splits off a host behind a double slash. -/
def takeHost (cs : List Char) : List Char × List Char :=
  match cs with
  | '/' :: '/' :: rest => (rest.takeWhile fun c => !endsHost c, rest.dropWhile fun c => !endsHost c)
  | _ => ([], cs)

/-- Brackets in a host come together.  Behind the last at sign an address in brackets comes first,
and nothing but a port follows it; a name there without brackets is an address as well. -/
def bracketsOk (host : List Char) : Bool :=
  let opened := host.contains '['
  if opened != host.contains ']' then false
  else if !opened then true
  else
    let server := (host.reverse.takeWhile (· ≠ '@')).reverse
    if server.contains '[' then
      let inside := server.drop 1
      let port := (inside.dropWhile (· ≠ ']')).drop 1
      server.head? == some '[' && (port.isEmpty || port.head? == some ':') &&
        NetworkAddress.isBracketed (inside.takeWhile (· ≠ ']'))
    else NetworkAddress.isBracketed (server.takeWhile (· ≠ ':'))

/-- Characters that stand for one of the delimiters of a location in another form. -/
def disguised : List Nat :=
  [0x2047, 0x2048, 0x2049, 0x2100, 0x2101, 0x2105, 0x2106, 0x2A74, 0xFE13, 0xFE16, 0xFE55,
    0xFE56, 0xFE5F, 0xFE6B, 0xFF03, 0xFF0F, 0xFF1A, 0xFF1F, 0xFF20]

/-- Schemes whose paths may carry parameters behind a semicolon. -/
def schemesWithParameters : List String :=
  ["", "ftp", "hdl", "prospero", "http", "imap", "https", "shttp", "rtsp", "rtspu", "sip",
    "sips", "mms", "sftp", "tel"]

/-- Drops the parameters behind a semicolon in the last segment of a path. -/
def dropParameters (path : List Char) : List Char :=
  let last := (path.reverse.takeWhile (· ≠ '/')).reverse
  path.take (path.length - last.length) ++ last.takeWhile (· ≠ ';')

/-- Takes a location apart; none when its host is malformed. -/
def read? (text : String) : Option Location :=
  let cs := (text.toList.dropWhile fun c => c.toNat ≤ 32).filter fun c => !isDropped c
  let (scheme, rest) := takeScheme cs
  let (host, rest) := takeHost rest
  if !bracketsOk host || host.any fun c => disguised.contains c.toNat then none
  else
    let path := (rest.takeWhile (· ≠ '#')).takeWhile (· ≠ '?')
    let path :=
      if schemesWithParameters.contains (String.ofList scheme) then dropParameters path else path
    some ⟨scheme, host, path⟩

/-- A location without a scheme is a plain path; a scheme of one letter without a host is the
letter of a drive. -/
def isPlain (l : Location) : Bool :=
  l.scheme.isEmpty || (l.scheme.length == 1 && l.host.isEmpty)

/-! ## Plain paths -/

/-- Follows the segments of a path, `seen` backwards: `.` stays, `..` goes up unless there is
nothing to go up from. -/
def follow (rooted : Bool) : (seen : List (List Char)) → List (List Char) → List (List Char)
  | seen, [] => seen.reverse
  | seen, part :: parts =>
    if part.isEmpty || part = ['.'] then follow rooted seen parts
    else if part = ['.', '.'] then
      match seen with
      | [] => if rooted then follow rooted [] parts else follow rooted [part] parts
      | top :: below =>
        if top = ['.', '.'] then follow rooted (part :: seen) parts else follow rooted below parts
    else follow rooted (part :: seen) parts

/-- The shortest form of an absolute path.  Exactly two slashes at its beginning are kept. -/
def normalize (path : List Char) : List Char :=
  let lead := (path.takeWhile (· == '/')).length
  let parts := follow (decide (0 < lead)) [] (NetworkAddress.splitAt '/' path)
  let body := ("/".intercalate (parts.map String.ofList)).toList
  let slashes := if lead = 2 then ['/', '/'] else if 0 < lead then ['/'] else []
  if slashes.isEmpty && body.isEmpty then ['.'] else slashes ++ body

/-- A path below a directory; an absolute path stays as it is. -/
def below (directory text : String) : String :=
  if text.startsWith "/" then text
  else if directory.endsWith "/" then directory ++ text
  else directory ++ "/" ++ text

/-- The absolute form of a plain path, seen from a directory. -/
def absolute (directory text : String) : String :=
  String.ofList (normalize (below directory text).toList)

/-- A path that looks like a URL: a scheme of at most 36 characters stands before a colon.  A
single letter there is the letter of a drive. -/
def looksLikeUrl (path : String) : Bool :=
  let (scheme, _) := takeScheme path.toList
  2 ≤ scheme.length && scheme.length ≤ 36

/-! ## Storage -/

/-- Scheme, host and path of a location as the storage sees them, from a directory. -/
def parse (directory text : String) : Except Error (String × String × String) :=
  match read? text with
  | none => .error (.raised .value)
  | some l =>
    if l.isPlain then .ok ("file", String.ofList l.host, absolute directory text)
    else if l.scheme = "file".toList then
      .ok ("file", String.ofList l.host, String.ofList l.path)
    else .ok (String.ofList l.scheme, String.ofList l.host, String.ofList (l.host ++ l.path))

/-- Makes every run of slashes a single one. -/
def collapseSlashes : List Char → List Char
  | '/' :: '/' :: rest => collapseSlashes ('/' :: rest)
  | c :: rest => c :: collapseSlashes rest
  | [] => []

/-- The path under which a storage knows a file: a plain path as it is, the path of a file
location, and otherwise the host, a slash and the path; the slash of an empty path is left out. -/
def storePath (text : String) : Except Error String :=
  match read? text with
  | none => .error (.raised .value)
  | some l =>
    if l.isPlain then .ok text
    else
      let path := collapseSlashes l.path
      if l.scheme = "file".toList then .ok (String.ofList path)
      else
        let key := path.dropWhile (· == '/')
        if key.isEmpty then .ok (String.ofList l.host)
        else .ok (String.ofList (l.host ++ '/' :: key))

/-- The kinds of storage. -/
inductive Store where
  | local
  | object
  deriving DecidableEq, Repr

/-- The name of a kind of storage. -/
def Store.name : Store → String
  | .local => "local"
  | .object => "s3"

/-- The schemes of object stores. -/
def objectSchemes : List String := ["s3", "s3a", "s3n"]

/-- The storage of a location.  The credentials of an object store come in pairs, and a session
token comes with both. -/
def store (text : String) (options : Options) : Except Error Store := do
  let (scheme, _, _) ← parse "/" text
  if objectSchemes.contains scheme then
    let read (s : Setting) : Except Error Bool :=
      (liftError Error.option (options.get s .null)).map fun v => !v.isNull
    let _ ← read Options.storeEndpoint
    let access ← read Options.storeAccessKey
    let secret ← read Options.storeSecret
    let token ← read Options.storeToken
    let _ ← read Options.storeRegion
    if access != secret || (token && !access) then .error (.raised .value) else .ok .object
  else if scheme = "file" then .ok .local
  else .error (.unknownStore scheme)

end Location

end MergeOnRead
