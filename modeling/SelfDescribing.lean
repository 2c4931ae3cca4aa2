import SelfDescribing.Bytes
import SelfDescribing.Error
import SelfDescribing.Table
import SelfDescribing.Decimal.Layout
import SelfDescribing.Decimal.Fixed
import SelfDescribing.Digest.Sha256
import SelfDescribing.Text.Quoted
import SelfDescribing.Text.Utf8
import SelfDescribing.Names
import SelfDescribing.Value.Text
import SelfDescribing.Value.Json
import SelfDescribing.Value.Args
import SelfDescribing.Wire.Encode
import SelfDescribing.Wire.Cursor
import SelfDescribing.Schema.Fingerprint
import SelfDescribing.Schema.Json
import SelfDescribing.Envelope.Basic
import SelfDescribing.Shape.Resolve
import SelfDescribing.Codec.Basic
import SelfDescribing.Factory.Payload
import SelfDescribing.Config.Reader
import SelfDescribing.Schema.OfJson
import SelfDescribing.Entity.Record
import SelfDescribing.Ledger.Codecs
import SelfDescribing.Envelope.Edit
import SelfDescribing.Inspect
import SelfDescribing.Workspace
import SelfDescribing.Main
import SelfDescribing.Proofs.Steps
import SelfDescribing.Proofs.Bytes
import SelfDescribing.Proofs.Table
import SelfDescribing.Proofs.Value.Parts
import SelfDescribing.Proofs.Schema.Fingerprint
import SelfDescribing.Proofs.Schema.Spelling
import SelfDescribing.Proofs.Schema.Reparsing
import SelfDescribing.Proofs.Wire.Grammar
import SelfDescribing.Proofs.Wire.Passing
import SelfDescribing.Proofs.Wire.Reading
import SelfDescribing.Proofs.Wire.Stepwise
import SelfDescribing.Proofs.Wire.Parsing
import SelfDescribing.Proofs.Wire.InUse
import SelfDescribing.Proofs.Wire.Writing
import SelfDescribing.Proofs.Wire.Smallest
import SelfDescribing.Proofs.Wire.Shortness
import SelfDescribing.Proofs.Wire.Failing
import SelfDescribing.Proofs.Codec.Exchange
import SelfDescribing.Proofs.Codec.Build
import SelfDescribing.Proofs.Codec.Scanning
import SelfDescribing.Proofs.Codec.Restoring
import SelfDescribing.Proofs.Codec.Sequences
import SelfDescribing.Proofs.Codec.Evolving
import SelfDescribing.Proofs.Codec.Reconciling
import SelfDescribing.Proofs.Codec.Matching
import SelfDescribing.Proofs.Codec.Answering
import SelfDescribing.Proofs.Codec.Parts
import SelfDescribing.Proofs.Codec.Widening
import SelfDescribing.Proofs.Envelope.Reading
import SelfDescribing.Proofs.Envelope.Overflowing
import SelfDescribing.Proofs.Envelope.Nesting
import SelfDescribing.Proofs.Envelope.Limits
import SelfDescribing.Proofs.Envelope.Truncation
import SelfDescribing.Proofs.Registry.Walking
import SelfDescribing.Proofs.Registry.Subtyping
import SelfDescribing.Proofs.Registry.Telling
import SelfDescribing.Proofs.Registry.Registering
import SelfDescribing.Proofs.Codec.Deriving
import SelfDescribing.Proofs.Factory.Building
import SelfDescribing.Proofs.Factory.Reachable
import SelfDescribing.Proofs.Factory.Writing
import SelfDescribing.Proofs.Factory.Restoring
import SelfDescribing.Proofs.Factory.Returning
import SelfDescribing.Proofs.Factory.Continuing
import SelfDescribing.Proofs.Factory.RoundTrip
import SelfDescribing.Proofs.Factory.Depth
import SelfDescribing.Proofs.Factory.Uncached
import SelfDescribing.Proofs.Factory.Slots
import SelfDescribing.Proofs.Factory.WritingAnew
import SelfDescribing.Proofs.Factory.Rescanning
import SelfDescribing.Proofs.Factory.Differing
import SelfDescribing.Proofs.Factory.Retelling
import SelfDescribing.Proofs.Factory.Relisting
import SelfDescribing.Proofs.Factory.Reordering
import SelfDescribing.Proofs.Factory.FieldOrder
import SelfDescribing.Proofs.Factory.Selecting
import SelfDescribing.Proofs.Factory.Caching
import SelfDescribing.Proofs.Factory.Unpolluted
import SelfDescribing.Proofs.Factory.Carrying
import SelfDescribing.Proofs.Factory.Upgrading
import SelfDescribing.Proofs.Codec.Conforming
import SelfDescribing.Proofs.Factory.InForce
import SelfDescribing.Proofs.Factory.Listing
import SelfDescribing.Proofs.Factory.RootCodec
import SelfDescribing.Proofs.Factory.Documentation
import SelfDescribing.Proofs.Factory.Opening
import SelfDescribing.Proofs.Factory.Refusing
import SelfDescribing.Proofs.Factory.Handing
import SelfDescribing.Proofs.Ledger.Matching
import SelfDescribing.Proofs.Ledger.Parts
import SelfDescribing.Proofs.Ledger.Prepared
import SelfDescribing.Proofs.Ledger.RoundTrip
