import TagTemplate.Log
import TagTemplate.Node.Describe
import TagTemplate.Node.Equality
import TagTemplate.Options.Load
import TagTemplate.Session
import TagTemplate.Template.Load
import TagTemplate.Yaml.Read
import TagTemplate.Proofs.Escape
import TagTemplate.Proofs.Passage
import TagTemplate.Proofs.Scan
import TagTemplate.Proofs.Progress
import TagTemplate.Proofs.Recursion
import TagTemplate.Proofs.Element
import TagTemplate.Proofs.Numeral
import TagTemplate.Proofs.Grammar
import TagTemplate.Proofs.Completeness
import TagTemplate.Proofs.Soundness
import TagTemplate.Proofs.Shape
import TagTemplate.Proofs.Rendering
import TagTemplate.Proofs.Embedding
import TagTemplate.Proofs.Displacement
import TagTemplate.Proofs.Translation
import TagTemplate.Proofs.Locality
import TagTemplate.Proofs.Concatenation
import TagTemplate.Proofs.Failure
import TagTemplate.Proofs.Interruption
import TagTemplate.Proofs.Provenance
import TagTemplate.Proofs.Confinement
import TagTemplate.Proofs.Session
import TagTemplate.Proofs.Stretches
import TagTemplate.Proofs.Errors
import TagTemplate.Proofs.Balance
import TagTemplate.Proofs.BalancedRendering
import TagTemplate.Proofs.Stripping
import TagTemplate.Proofs.Utf8
import TagTemplate.Proofs.WellFormed
import TagTemplate.Proofs.Recoding
import TagTemplate.Proofs.Correspondence
import TagTemplate.Proofs.BracesApart
import TagTemplate.Proofs.NestedEscapes
import TagTemplate.Proofs.Descent
import TagTemplate.Proofs.Messages
import TagTemplate.Proofs.OptionsFile
import TagTemplate.Proofs.Trace
import TagTemplate.Proofs.Closing
import TagTemplate.Proofs.Resumption
import TagTemplate.Proofs.OptionsData
import TagTemplate.Proofs.Rounding
import TagTemplate.Proofs.NumericRun
import TagTemplate.Proofs.ShortestText
import TagTemplate.Proofs.Logging
import TagTemplate.Proofs.Equality
import TagTemplate.Proofs.Description
