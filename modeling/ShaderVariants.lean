import ShaderVariants.Workspace
import ShaderVariants.Library.Standard
import ShaderVariants.Property.Record
import ShaderVariants.Block.Record
import ShaderVariants.Json.Choice
import ShaderVariants.FeatureSet.Lemmas
import ShaderVariants.Proofs.Library.Generation
import ShaderVariants.Proofs.SlotTable
import ShaderVariants.Proofs.KeyTable
import ShaderVariants.Proofs.Catalog.Action
import ShaderVariants.Proofs.ProgramPool
import ShaderVariants.Proofs.Run
import ShaderVariants.Proofs.Transparency
import ShaderVariants.Proofs.Source.Provenance
import ShaderVariants.Proofs.Freshness
import ShaderVariants.Proofs.Reuse
import ShaderVariants.Proofs.Source.Erasure
import ShaderVariants.Proofs.Sharing
import ShaderVariants.Proofs.Expansion.Resolution
import ShaderVariants.Proofs.Source.Retention
import ShaderVariants.Proofs.Lifetime
import ShaderVariants.Proofs.Retention
import ShaderVariants.Proofs.Blocking
import ShaderVariants.Proofs.Containment
import ShaderVariants.Proofs.Library.Authored
import ShaderVariants.Proofs.Expansion.Composition
import ShaderVariants.Proofs.Library.Conservation
import ShaderVariants.Proofs.Source.Drive
import ShaderVariants.Proofs.Keyed
import ShaderVariants.Proofs.Shader.Reading
import ShaderVariants.Proofs.Template.Reading
import ShaderVariants.Proofs.Context.Precedence
import ShaderVariants.Proofs.Source.Indifference
import ShaderVariants.Proofs.FeatureSet.Scan
import ShaderVariants.Proofs.FeatureSet.Canonical
import ShaderVariants.Proofs.Ownership
import ShaderVariants.Proofs.Catalog.FallbackText
import ShaderVariants.Proofs.Catalog.Fallback
import ShaderVariants.Proofs.Fallback
import ShaderVariants.Proofs.Catalog.Sparing
import ShaderVariants.Proofs.Independence
import ShaderVariants.Interner
import ShaderVariants.Library.Indexed
import ShaderVariants.Proofs.Registry.Interning
import ShaderVariants.Proofs.Registry.Alignment
import ShaderVariants.Proofs.Registry.Registration
import ShaderVariants.Proofs.Library.Indexing
import ShaderVariants.Proofs.Library.Switching
import ShaderVariants.Proofs.Catalog.Naming
import ShaderVariants.Proofs.Refusal
import ShaderVariants.Proofs.Accounting
import ShaderVariants.Proofs.Statistics
import ShaderVariants.Proofs.ProgramPool.History
import ShaderVariants.Proofs.Repooling
import ShaderVariants.Proofs.Pragma.Grammar
import ShaderVariants.Proofs.Directory
import ShaderVariants.Proofs.Framing
import ShaderVariants.Proofs.Header
import ShaderVariants.Proofs.Strictness
import ShaderVariants.Proofs.Json.Tokens
import ShaderVariants.Proofs.Json.Spelling
import ShaderVariants.Proofs.Json.Numerals
import ShaderVariants.Proofs.Text.Tight
import ShaderVariants.Proofs.Json.Codec
import ShaderVariants.Proofs.Json.RoundTrip
import ShaderVariants.Proofs.Json.Extent
import ShaderVariants.Proofs.Json.Standard
import ShaderVariants.Proofs.Property.Line
import ShaderVariants.Proofs.Property.Record
import ShaderVariants.Proofs.Decimal.Rounding
import ShaderVariants.Proofs.Decimal.Shortest
import ShaderVariants.Proofs.Registry.Walk
import ShaderVariants.Proofs.Expansion.Emission
import ShaderVariants.Proofs.Property.Exposure
import ShaderVariants.Proofs.Source.Reconciliation
import ShaderVariants.Proofs.Header.Blocks
import ShaderVariants.Proofs.Source.Labels
