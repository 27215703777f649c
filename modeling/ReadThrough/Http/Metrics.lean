import ReadThrough.Number.Double
import ReadThrough.Object.Response

/-!
# Metrics

What is counted of the requests for objects: how many there were, their sizes as their senders
tell them, the responses by status and size, the part of the cache, refusals, operations by bucket
and method, and entries evicted. `rows` lists what has been counted at least once, by name.
-/

namespace ReadThrough

/-- Counts by label. -/
abbrev Tally (α : Type) := List (α × UInt64)

/-- Counts one more under a label. -/
def Tally.add {α : Type} [BEq α] (label : α) : Tally α → Tally α
  | [] => [(label, 1)]
  | (other, count) :: rest =>
    if other == label then (other, count + 1) :: rest else (other, count) :: Tally.add label rest

/-- What is counted. -/
structure Metrics where
  requests : UInt64
  /-- The sizes of requests, as far as told. -/
  requestSizes : List Nat
  /-- How many responses had their time taken. -/
  timed : UInt64
  statuses : Tally Nat
  responseSizes : List Nat
  hits : UInt64
  misses : UInt64
  denied : UInt64
  /-- Operations by bucket and method. -/
  operations : Tally (String × String)
  evictions : UInt64
  deriving Repr, DecidableEq

namespace Metrics

/-- Nothing has been counted. -/
def zero : Metrics where
  requests := 0
  requestSizes := []
  timed := 0
  statuses := []
  responseSizes := []
  hits := 0
  misses := 0
  denied := 0
  operations := []
  evictions := 0

/-- Counts a request, with its size if that is told. -/
def recordRequest (m : Metrics) (size : Option Nat) : Metrics :=
  { m with requests := m.requests + 1, requestSizes := m.requestSizes ++ size.toList }

/-- Counts what part the cache had. -/
def recordCache (m : Metrics) : Option CacheStatus → Metrics
  | some .hit => { m with hits := m.hits + 1 }
  | some .miss => { m with misses := m.misses + 1 }
  | _ => m

/-- Counts a response, and the operation if its path names a bucket. -/
def recordResponse (m : Metrics) (status size : Nat) (cache : Option CacheStatus)
    (operation : Option (String × String)) : Metrics :=
  let counted := m.recordCache cache
  { counted with
    timed := counted.timed + 1
    statuses := counted.statuses.add status
    responseSizes := counted.responseSizes ++ [size]
    operations :=
      match operation with
      | some label => counted.operations.add label
      | none => counted.operations }

/-- Counts a refusal. -/
def recordDenial (m : Metrics) : Metrics :=
  { m with denied := m.denied + 1 }

/-- Counts evicted entries. -/
def recordEvictions (m : Metrics) (count : Nat) : Metrics :=
  { m with evictions := m.evictions + UInt64.ofNat count }

/-! ## Rows -/

/-- What a row shows. -/
inductive Reading where
  | count (number : UInt64)
  /-- How many times were taken; the times themselves are not shown. -/
  | times (number : UInt64)
  /-- Sizes, in ascending order. -/
  | sizes (values : List Double)
  deriving Repr, DecidableEq

/-- A row: a name, labels, and what was counted under them. -/
structure Row where
  name : String
  labels : List String
  reading : Reading
  deriving Repr, DecidableEq

/-- A row for a count that is not zero. -/
def countRow (name : String) (labels : List String) (number : UInt64) : List Row :=
  if number = 0 then [] else [⟨name, labels, .count number⟩]

/-- A row for sizes, if there are any. -/
def sizesRow (name : String) (values : List Nat) : List Row :=
  if values = [] then []
  else [⟨name, [], .sizes ((values.mergeSort (· ≤ ·)).map Double.ofNat)⟩]

/-- True if a list of texts comes before another or is equal to it. -/
def labelsLe : List String → List String → Bool
  | [], _ => true
  | _ :: _, [] => false
  | a :: as, b :: bs => a < b || (a == b && labelsLe as bs)

/-- True if a row comes before another: by name, then by labels. -/
def Row.le (a b : Row) : Bool :=
  labelsLe (a.name :: a.labels) (b.name :: b.labels)

/-- What has been counted, by name. -/
def rows (m : Metrics) : List Row :=
  let operations := m.operations.flatMap fun ((bucket, method), count) =>
    countRow "bucket_operations_total" ["bucket=" ++ bucket, "method=" ++ method] count
  let statuses := m.statuses.flatMap fun (status, count) =>
    countRow "http_response_status_total" ["code=" ++ toString status] count
  let all :=
    countRow "access_denied_total" [] m.denied ++ operations ++
      countRow "cache_evictions_total" [] m.evictions ++
      countRow "cache_hits_total" [] m.hits ++
      countRow "cache_misses_total" [] m.misses ++
      sizesRow "http_request_size_bytes" m.requestSizes ++
      countRow "http_requests_total" [] m.requests ++
      sizesRow "http_response_size_bytes" m.responseSizes ++ statuses ++
      (if m.timed = 0 then [] else [⟨"http_response_time_seconds", [], .times m.timed⟩])
  all.mergeSort Row.le

end Metrics

end ReadThrough
