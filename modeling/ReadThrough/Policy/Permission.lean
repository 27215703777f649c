import ReadThrough.Text.Blank
import ReadThrough.Text.Fold

/-!
# Permissions

A bucket is opened for reading, for writing, for everything or for nothing. A method asks for one
class of operation; methods outside the two classes need the permission for everything.
-/

namespace ReadThrough

/-- The class of operation that a method asks for. -/
inductive Operation where
  | read
  | write
  /-- Any other method. -/
  | other
  deriving Repr, DecidableEq

/-- The class of a method; names of methods distinguish case. -/
def Operation.ofMethod (method : String) : Operation :=
  if method = "GET" ∨ method = "HEAD" then .read
  else if method = "PUT" ∨ method = "DELETE" then .write
  else .other

/-- What a bucket is opened for. -/
inductive Permission where
  | read
  | write
  | all
  | none
  deriving Repr, DecidableEq

namespace Permission

/-- True if the permission admits an operation. -/
def allows : Permission → Operation → Bool
  | all, _ => true
  | read, .read => true
  | write, .write => true
  | _, _ => false

/-- The word for a permission. -/
def name : Permission → String
  | read => "read"
  | write => "write"
  | all => "all"
  | none => "none"

/-- The permission that a word names, if there is one; the word is given in small letters. -/
def ofName? (word : List Char) : Option Permission :=
  [read, write, all, none].find? fun permission => permission.name.toList == word

/-- The word of a text: without blanks around it and in small letters. -/
def wordOf (text : List Char) : List Char :=
  Text.lower (Text.trim text)

/-- The permission that a text names. -/
def parse? (text : List Char) : Option Permission :=
  ofName? (wordOf text)

/-- What is said of a text that names no permission. -/
def unknownMessage (text : List Char) : String :=
  "unknown permission '" ++ String.ofList (wordOf text) ++ "'"

@[simp] theorem ofName?_name (permission : Permission) :
    ofName? permission.name.toList = some permission := by
  cases permission <;> decide

end Permission

end ReadThrough
