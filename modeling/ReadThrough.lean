import ReadThrough.Bench.Trial
import ReadThrough.Http.Target
import ReadThrough.Proofs.Cache.Accounting
import ReadThrough.Proofs.Cache.Soundness
import ReadThrough.Proofs.Object.Coherence
import ReadThrough.Proofs.Object.Session
import ReadThrough.Proofs.Object.Transparency
import ReadThrough.Proofs.Deflate.Bits
import ReadThrough.Proofs.Deflate.Reading
import ReadThrough.Proofs.Deflate.Tokens
import ReadThrough.Proofs.Deflate.Description
import ReadThrough.Proofs.Deflate.Matcher
import ReadThrough.Proofs.Deflate.Stream
import ReadThrough.Proofs.Gzip.RoundTrip
import ReadThrough.Proofs.Cache.Contents
import ReadThrough.Proofs.Cache.History
import ReadThrough.Proofs.Object.Isolation
import ReadThrough.Proofs.Http.Authorisation
import ReadThrough.Proofs.Object.Watch
import ReadThrough.Proofs.Object.Readings
import ReadThrough.Proofs.Cache.Conservation
import ReadThrough.Proofs.Object.Delivery
import ReadThrough.Proofs.Http.Site
import ReadThrough.Proofs.Text.Blank
import ReadThrough.Proofs.Policy.Grants
import ReadThrough.Proofs.Http.Fields
import ReadThrough.Proofs.Http.Delivery
import ReadThrough.Proofs.Http.Reachable
import ReadThrough.Proofs.Http.Lifetime
import ReadThrough.Proofs.Http.Denial
import ReadThrough.Proofs.Cache.Eviction
import ReadThrough.Proofs.Cache.Generations
import ReadThrough.Proofs.Object.Setback
import ReadThrough.Proofs.Http.Tallies
import ReadThrough.Proofs.Cache.Thinning
import ReadThrough.Proofs.Object.HeadersAlone
import ReadThrough.Proofs.Object.Retention
import ReadThrough.Proofs.Object.Upload
import ReadThrough.Proofs.Deflate.Format
import ReadThrough.Proofs.Deflate.Codes
import ReadThrough.Proofs.Deflate.Acceptance
import ReadThrough.Proofs.Deflate.Soundness
import ReadThrough.Proofs.Gzip.Header
import ReadThrough.Proofs.Gzip.Members
import ReadThrough.Proofs.Http.Rejection
import ReadThrough.Proofs.Policy.Lists
import ReadThrough.Proofs.Http.Coding
import ReadThrough.Proofs.Deflate.Readers
import ReadThrough.Proofs.Http.Negotiation
import ReadThrough.Proofs.Http.Paths
import ReadThrough.Proofs.Http.Disclosure
import ReadThrough.Proofs.Http.Modified
