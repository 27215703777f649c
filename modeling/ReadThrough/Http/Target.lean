import ReadThrough.Text.Fields

/-!
# Request targets

A target is a path with a query, an absolute address, the name of a host, or an asterisk. Only the
path matters: `path?` gives it, without query and fragment, and fails on a text that is no target.
The path of a host name alone is empty; that of an absolute address without a path is a slash.

Characters outside ASCII are allowed in paths and queries, and a few that ought to be escaped.
-/

namespace ReadThrough.Http.Target

/-- The longest target, in octets. -/
def maxLength : Nat := 65534

/-- True for the characters of a path. -/
def isPathChar (c : Char) : Bool :=
  let n := c.toNat
  n == 0x21 || n == 0x22 || (0x24 ≤ n && n ≤ 0x3B) || n == 0x3D || (0x40 ≤ n && n ≤ 0x5F) ||
    (0x61 ≤ n && n ≤ 0x7E) || 0x80 ≤ n

/-- True for the characters of a query. -/
def isQueryChar (c : Char) : Bool :=
  let n := c.toNat
  n == 0x21 || (0x24 ≤ n && n ≤ 0x3B) || n == 0x3D || (0x3F ≤ n && n ≤ 0x7E) || 0x80 ≤ n

/-- True for the characters that end a path. -/
def endsPath (c : Char) : Bool :=
  c == '?' || c == '#'

/-- What stands before a fragment. -/
def beforeFragment (cs : List Char) : List Char :=
  cs.takeWhile (· ≠ '#')

/-- The path of a path with a query and a fragment; an empty one is a slash. -/
def pathAndQuery? (cs : List Char) : Option (List Char) :=
  let path := cs.takeWhile (!endsPath ·)
  let query := beforeFragment (cs.drop path.length)
  if path.all isPathChar ∧ (query.drop 1).all isQueryChar then
    some (if path = [] then ['/'] else path)
  else none

/-! ## Hosts -/

/-- True for the characters of a host that mean nothing in particular. -/
def isHostChar (c : Char) : Bool :=
  c.isAlphanum || "!$&'()*+,-.;=_~".toList.contains c

/-- True for the characters that end a host. -/
def endsHost (c : Char) : Bool :=
  c == '/' || endsPath c

/-- What has been seen of a host. -/
structure HostState where
  /-- Colons since the start, the last at sign or the last bracket. -/
  colons : Nat
  opened : Bool
  closed : Bool
  /-- A percent sign since the start, the last at sign or the last closing bracket. -/
  percent : Bool
  /-- The last character was an at sign. -/
  atSign : Bool

/-- Nothing has been seen. -/
def HostState.start : HostState := ⟨0, false, false, false, false⟩

/-- The most colons of an address in brackets. -/
def maxColons : Nat := 8

/-- Sees one more character of a host. -/
def HostState.see (s : HostState) (c : Char) : Option HostState :=
  let s := { s with atSign := false }
  if c = ':' then if maxColons ≤ s.colons then none else some { s with colons := s.colons + 1 }
  else if c = '[' then if s.percent ∨ s.opened then none else some { s with opened := true }
  else if c = ']' then
    if !s.opened ∨ s.closed then none
    else some { s with closed := true, colons := 0, percent := false }
  else if c = '@' then some { s with atSign := true, colons := 0, percent := false }
  else if c = '%' then some { s with percent := true }
  else if isHostChar c then some s
  else none

/-- True if what has been seen is a host with what may surround it. -/
def HostState.isHost (s : HostState) : Bool :=
  s.opened == s.closed && s.colons ≤ 1 && !s.atSign && !s.percent

/-- The rest after a host, if the text starts with one; a host may be empty. -/
def afterHost? (cs : List Char) : Option (List Char) :=
  let host := cs.takeWhile (!endsHost ·)
  match host.foldlM HostState.see .start with
  | some s => if s.isHost then some (cs.drop host.length) else none
  | none => none

/-! ## Schemes -/

/-- The longest scheme. -/
def maxScheme : Nat := 64

/-- True for the characters of a scheme. -/
def isSchemeChar (c : Char) : Bool :=
  c.isAlphanum || c == '+' || c == '-' || c == '.' || c == '~'

/-- What stands before the host. -/
inductive Lead where
  /-- No scheme. -/
  | bare
  /-- A scheme; the rest follows it. -/
  | scheme (rest : List Char)
  /-- A scheme that is too long. -/
  | tooLong

/-- Takes the scheme off a text. -/
def leadOf (cs : List Char) : Lead :=
  let name := cs.takeWhile isSchemeChar
  match Text.afterStart? "://".toList (cs.drop name.length) with
  | none => .bare
  | some rest => if maxScheme < name.length then .tooLong else .scheme rest

/-! ## Targets -/

/-- The path of an address that does not start with a slash. -/
def addressPath? (cs : List Char) : Option (List Char) :=
  match leadOf cs with
  | .tooLong => none
  | .bare =>
    match afterHost? cs with
    | some [] => some []
    | _ => none
  | .scheme rest =>
    match afterHost? rest with
    | some after => if after.length = rest.length then none else pathAndQuery? after
    | none => none

/-- The path of a target. -/
def path? (target : String) : Option String :=
  if maxLength < target.utf8ByteSize then none
  else
    match target.toList with
    | [] => none
    | ['*'] => some "*"
    | '/' :: rest => (pathAndQuery? ('/' :: rest)).map String.ofList
    | cs => (addressPath? cs).map String.ofList

end ReadThrough.Http.Target
