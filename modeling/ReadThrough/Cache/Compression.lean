import ReadThrough.Gzip.Member

/-!
# What is worth compressing

A content is compressed only if it is large enough and its type is textual. A type counts by how
it begins, with regard to case. A compressed copy is of use only if it is strictly smaller than
the content (`Entry.make` drops any other).
-/

namespace ReadThrough

/-- The rule by which contents are compressed. -/
structure CompressionPolicy where
  /-- Contents below this size are left as they are. -/
  minSize : UInt64
  deriving Repr, DecidableEq

namespace CompressionPolicy

/-- How the types begin that are worth compressing. -/
def textualTypes : List String :=
  ["text/", "application/json", "application/javascript", "application/xml", "application/yaml",
    "image/svg"]

/-- True for the types that are worth compressing. -/
def isTextual (contentType : String) : Bool :=
  textualTypes.any fun start => start.toList.isPrefixOf contentType.toList

/-- True if a content of this type and size is to be compressed. -/
def admits (policy : CompressionPolicy) (contentType : String) (size : Nat) : Bool :=
  policy.minSize.toNat ≤ size && isTextual contentType

/-- The compressed form of a content that is to be compressed. -/
def packed? (policy : CompressionPolicy) (contentType : String) (content : Bytes) : Option Bytes :=
  if policy.admits contentType content.length then some (Gzip.compress content) else none

end CompressionPolicy

end ReadThrough
