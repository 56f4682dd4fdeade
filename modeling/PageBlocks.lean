import PageBlocks.Block.Rendering
import PageBlocks.Cache.Location
import PageBlocks.Cache.Request
import PageBlocks.Digest.Crc32
import PageBlocks.Digest.Sha1
import PageBlocks.Fault.Construction
import PageBlocks.Fragment.Registry
import PageBlocks.Json.Reader
import PageBlocks.Json.Writer
import PageBlocks.Markup.Transform
import PageBlocks.Page.Draft
import PageBlocks.Proofs.Inheritance.Composition
import PageBlocks.Proofs.Inheritance.Precedence
import PageBlocks.Proofs.KeyTexts
import PageBlocks.Settings
import PageBlocks.Site.Run
import PageBlocks.Text.Base64
import PageBlocks.Time.Format
import PageBlocks.Time.Stamp
import PageBlocks.Proofs.Deferral.Bodies
import PageBlocks.Proofs.Deferral.Fragments
import PageBlocks.Proofs.Deferral.Requests
import PageBlocks.Proofs.Verbatim.Courses
import PageBlocks.Proofs.Policy.Histories
import PageBlocks.Proofs.Filling.Requests
import PageBlocks.Proofs.Backends.Agreement
import PageBlocks.Proofs.Backends.Tampering
import PageBlocks.Proofs.Coherence.Runs
import PageBlocks.Proofs.Extending.Cycles
import PageBlocks.Proofs.Transparency.Histories
import PageBlocks.Proofs.Fragments.Resolving
import PageBlocks.Proofs.Fragments.Codec
import PageBlocks.Proofs.Backends.Atomicity
import PageBlocks.Proofs.Backends.Layout
import PageBlocks.Proofs.Identities
import PageBlocks.Proofs.Composition
import PageBlocks.Proofs.Reopening
import PageBlocks.Proofs.Confinement.Failing
import PageBlocks.Proofs.Inlining.Chains
import PageBlocks.Proofs.Memory.Misses
import PageBlocks.Proofs.Locating
import PageBlocks.Proofs.Markup.Splicing
import PageBlocks.Proofs.EntryOrder
import PageBlocks.Proofs.Nesting.Runs
import PageBlocks.Proofs.Naming.Runs
