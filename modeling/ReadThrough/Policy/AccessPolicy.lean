import ReadThrough.Policy.Permission
import ReadThrough.Table
import ReadThrough.Text.Fields

/-!
# Access policies

A policy gives buckets their permissions; a bucket without one is closed. It is written as a list
of `bucket:permission` items with commas between. Blanks around an item and around its two parts
do not count, a later item overrides an earlier one, and an item that is not of this form is left
out and reported (`Skipped`). An item without any text is left out silently.
-/

namespace ReadThrough

/-- The permissions of buckets. -/
structure AccessPolicy where
  grants : Table String Permission
  deriving Repr, DecidableEq

/-- Why an item of a policy list is left out. -/
inductive ItemFault where
  /-- The item has no colon, or nothing before it. -/
  | noBucket
  /-- The part after the colon names no permission. -/
  | unknownPermission (text : List Char)
  deriving Repr, DecidableEq

/-- What is said of an item that is left out. -/
def ItemFault.reason : ItemFault → String
  | noBucket => "expected bucket:permission"
  | unknownPermission text => Permission.unknownMessage text

/-- An item that was left out. -/
structure Skipped where
  item : String
  fault : ItemFault
  deriving Repr, DecidableEq

namespace AccessPolicy

/-- The policy that opens nothing. -/
def empty : AccessPolicy := ⟨.empty⟩

/-- Gives a bucket a permission in place of the one it had. -/
def insert (policy : AccessPolicy) (bucket : String) (permission : Permission) : AccessPolicy :=
  ⟨policy.grants.insert bucket permission⟩

/-- The permission of a bucket. -/
def permission? (policy : AccessPolicy) (bucket : String) : Option Permission :=
  policy.grants.find? bucket

/-- True if the policy lets a method at a bucket. -/
def allows (policy : AccessPolicy) (bucket method : String) : Bool :=
  match policy.permission? bucket with
  | none => false
  | some permission => permission.allows (.ofMethod method)

/-- The number of buckets with a permission. -/
def size (policy : AccessPolicy) : Nat :=
  policy.grants.size

/-! ## Lists of items -/

/-- The bucket and the permission that an item gives. -/
def parseItem (item : List Char) : Except ItemFault (String × Permission) :=
  match Text.cut? ':' item with
  | none => .error .noBucket
  | some (before, after) =>
    let bucket := Text.trim before
    if bucket = [] then .error .noBucket
    else
      match Permission.parse? after with
      | none => .error (.unknownPermission after)
      | some permission => .ok (String.ofList bucket, permission)

/-- The items of a list: its parts between commas that are not blank, without blanks around. -/
def items (list : String) : List (List Char) :=
  ((list.toList.splitOn ',').map Text.trim).filter (· ≠ [])

/-- The policy that a list of items writes. -/
def parse (list : String) : AccessPolicy :=
  ⟨.ofRows ((items list).filterMap fun item => (parseItem item).toOption)⟩

/-- The items of a list that are left out, in order. -/
def skipped (list : String) : List Skipped :=
  (items list).filterMap fun item =>
    match parseItem item with
    | .ok _ => none
    | .error fault => some ⟨String.ofList item, fault⟩

end AccessPolicy

end ReadThrough
