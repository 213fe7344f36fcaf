import ClassGraph.Graph.Describe
import ClassGraph.Main
import ClassGraph.Proofs.Agreement
import ClassGraph.Proofs.Alike
import ClassGraph.Proofs.Artifact
import ClassGraph.Proofs.Bareword
import ClassGraph.Proofs.Binding
import ClassGraph.Proofs.Calls
import ClassGraph.Proofs.Consistency
import ClassGraph.Proofs.Conversion
import ClassGraph.Proofs.Diagram
import ClassGraph.Proofs.Diagram.Described
import ClassGraph.Proofs.Diagram.Enclosed
import ClassGraph.Proofs.Diagram.Growth
import ClassGraph.Proofs.Document
import ClassGraph.Proofs.Drawing
import ClassGraph.Proofs.Enclosure
import ClassGraph.Proofs.Excerpt
import ClassGraph.Proofs.Extension
import ClassGraph.Proofs.Failure
import ClassGraph.Proofs.Files
import ClassGraph.Proofs.Files.Saving
import ClassGraph.Proofs.Form
import ClassGraph.Proofs.Gap
import ClassGraph.Proofs.Glued
import ClassGraph.Proofs.Grammar
import ClassGraph.Proofs.Handling
import ClassGraph.Proofs.Inspection
import ClassGraph.Proofs.Json.Escape
import ClassGraph.Proofs.Json.Numeral
import ClassGraph.Proofs.Json.Overlong
import ClassGraph.Proofs.Json.Rereading
import ClassGraph.Proofs.Json.Restoration
import ClassGraph.Proofs.Ledger
import ClassGraph.Proofs.Lockstep
import ClassGraph.Proofs.Meaning
import ClassGraph.Proofs.Mirror
import ClassGraph.Proofs.Offsets
import ClassGraph.Proofs.Opening
import ClassGraph.Proofs.Overlap
import ClassGraph.Proofs.Pattern
import ClassGraph.Proofs.Persistence
import ClassGraph.Proofs.Playback
import ClassGraph.Proofs.Provenance
import ClassGraph.Proofs.Reachability
import ClassGraph.Proofs.Reading
import ClassGraph.Proofs.Recognition
import ClassGraph.Proofs.Recurrence
import ClassGraph.Proofs.Refusal
import ClassGraph.Proofs.Requests
import ClassGraph.Proofs.Resumption
import ClassGraph.Proofs.RoundTrip
import ClassGraph.Proofs.Rows
import ClassGraph.Proofs.Sameness
import ClassGraph.Proofs.Scope
import ClassGraph.Proofs.Search
import ClassGraph.Proofs.Spelling
import ClassGraph.Proofs.Statement
import ClassGraph.Proofs.Stream
import ClassGraph.Proofs.Unfolding
import ClassGraph.Proofs.Unsaved
import ClassGraph.Proofs.Wording
import ClassGraph.Proofs.Writing
import ClassGraph.Service
