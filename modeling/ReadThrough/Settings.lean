import ReadThrough.Bytes
import ReadThrough.Policy.AccessPolicy
import ReadThrough.Text.Numeral

/-!
# Settings

The settings of a server are read from named variables of its environment. A variable that is
missing, holds no text, or does not write a value of its kind leaves the setting as it is by
default. Blanks around a number or a truth value do not count.

A sweep interval of zero is refused: the default takes its place, and a notice says so.
-/

namespace ReadThrough

/-- The variables of an environment; a value may be any byte string. -/
abbrev Environment := String → Option Bytes

/-- The settings of a server. -/
structure Settings where
  /-- The most bytes that the cache may hold. -/
  maxCacheSize : UInt64
  /-- The lifetime of cached entries, in seconds. -/
  ttl : UInt64
  /-- The time between two sweeps, in seconds. -/
  sweepInterval : UInt64
  /-- Contents below this size are never compressed. -/
  minCompressSize : UInt64
  /-- The number that the server listens on. -/
  endpoint : UInt16
  /-- If false, every request passes. -/
  policyEnabled : Bool
  policy : AccessPolicy
  deriving Repr, DecidableEq

namespace Settings

/-- The settings of an empty environment. -/
def default : Settings where
  maxCacheSize := 104857600
  ttl := 300
  sweepInterval := 60
  minCompressSize := 1024
  endpoint := 3000
  policyEnabled := true
  policy := .empty

/-- The text of a variable. -/
def textOf (env : Environment) (name : String) : Option String :=
  (env name).bind Bytes.toText?

/-- The number below `limit` that a variable writes. -/
def number? (limit : Nat) (env : Environment) (name : String) : Option Nat :=
  (textOf env name).bind fun text => Text.Numeral.read? limit (Text.trim text.toList)

/-- The word that a variable writes, or the default. -/
def wordOr (env : Environment) (name : String) (default : UInt64) : UInt64 :=
  match number? UInt64.size env name with
  | some number => UInt64.ofNat number
  | none => default

/-- The truth value that a text writes. -/
def truth? (cs : List Char) : Option Bool :=
  if cs = "true".toList then some true
  else if cs = "false".toList then some false
  else none

/-- The variable of the sweep interval. -/
def sweepVariable : String := "CLEANUP_INTERVAL"

/-- The settings of an environment. -/
def ofEnvironment (env : Environment) : Settings where
  maxCacheSize := wordOr env "MAX_CACHE_SIZE" default.maxCacheSize
  ttl := wordOr env "DEFAULT_TTL" default.ttl
  sweepInterval :=
    let asked := wordOr env sweepVariable default.sweepInterval
    if asked = 0 then default.sweepInterval else asked
  minCompressSize := wordOr env "MIN_COMPRESS_SIZE" default.minCompressSize
  endpoint :=
    match number? UInt16.size env "SERVER_PORT" with
    | some number => UInt16.ofNat number
    | none => default.endpoint
  policyEnabled :=
    ((textOf env "BUCKET_POLICIES_ENABLED").bind fun text => truth? (Text.trim text.toList)).getD
      default.policyEnabled
  policy :=
    match textOf env "BUCKET_POLICIES" with
    | some list => .parse list
    | none => .empty

/-- A setting of zero for which the default was taken. -/
structure ZeroNotice where
  name : String
  default : UInt64
  deriving Repr, DecidableEq

/-- The notices about settings of zero. -/
def zeroNotices (env : Environment) : List ZeroNotice :=
  if wordOr env sweepVariable default.sweepInterval = 0 then
    [⟨sweepVariable, default.sweepInterval⟩]
  else []

/-- The items of the policy list that are left out. -/
def skippedItems (env : Environment) : List Skipped :=
  match textOf env "BUCKET_POLICIES" with
  | some list => AccessPolicy.skipped list
  | none => []

end Settings

end ReadThrough
