import ReadThrough.Backend.Basic
import ReadThrough.Checksum.SipHash
import ReadThrough.Table

/-!
# A store in memory

Objects are kept in a table by their places. The tag of an object is the hash of its content,
quoted, so that equal contents have equal tags. `perform` answers a call; a call that fails
changes nothing.
-/

namespace ReadThrough.Backend

/-- The digits of a number below 16, in small letters. -/
def hexDigit (value : Nat) : Char :=
  if value < 10 then Char.ofNat ('0'.toNat + value) else Char.ofNat ('a'.toNat + (value - 10))

/-- A word as 16 hexadecimal digits. -/
def hexWord (word : UInt64) : String :=
  String.ofList ((List.range 16).map fun i => hexDigit (word.toNat >>> (4 * (15 - i)) % 16))

/-- The tag of a content: the hash of its length in eight octets and of the content itself. -/
def contentTag (content : Bytes) : String :=
  "\"" ++ hexWord (SipHash.hash (Bytes.littleEndian 8 content.length ++ content)) ++ "\""

/-- An object with what the store says of it. -/
structure StoredObject where
  content : Bytes
  metadata : Metadata
  deriving Repr, DecidableEq

/-- A store in memory. -/
structure Memory where
  objects : Table ObjectId StoredObject
  deriving Repr, DecidableEq

namespace Memory

/-- The store without objects. -/
def empty : Memory := ⟨.empty⟩

/-- The object at a place. -/
def find? (memory : Memory) (id : ObjectId) : Option StoredObject :=
  memory.objects.find? id

/-- Puts an object at a place, in place of the one there. -/
def place (memory : Memory) (id : ObjectId) (object : StoredObject) : Memory :=
  ⟨memory.objects.insert id object⟩

/-- Clears a place. -/
def erase (memory : Memory) (id : ObjectId) : Memory :=
  ⟨memory.objects.erase id⟩

/-- The object that a content makes when stored at a given time. -/
def objectOf (content : Bytes) (contentType : String) (now : Time) : StoredObject where
  content := content
  metadata := { contentType, size := content.length, modified := now, etag := contentTag content }

/-- Answers a call at a given time. -/
def perform (memory : Memory) (now : Time) : (call : Call) → call.Outcome × Memory
  | .fetch id =>
    match memory.find? id with
    | some object => (.ok (object.content, object.metadata), memory)
    | none => (.error (.notFound id), memory)
  | .store id content contentType =>
    (.ok (), memory.place id (objectOf content contentType now))
  | .remove id =>
    match memory.find? id with
    | some _ => (.ok (), memory.erase id)
    | none => (.error (.notFound id), memory)
  | .stat id =>
    match memory.find? id with
    | some object => (.ok object.metadata, memory)
    | none => (.error (.notFound id), memory)

end Memory

end ReadThrough.Backend
