import Regular.Record
import Regular.Main
import Regular.Pattern.Flat
import Regular.Pattern.Grammar
import Regular.Automaton.Path
import Regular.Proofs.Shape
import Regular.Proofs.Language
import Regular.Proofs.Juxtaposition
import Regular.Proofs.Embedding
import Regular.Proofs.Reconstruction
import Regular.Proofs.Outcome
import Regular.Proofs.Territory
import Regular.Proofs.Unordered
import Regular.Proofs.Stopping
import Regular.Proofs.Search
import Regular.Proofs.Refusal
import Regular.Proofs.Operands
import Regular.Proofs.Isolation
import Regular.Proofs.Location
import Regular.Proofs.Cutoff
import Regular.Proofs.Congruence
import Regular.Proofs.Rendering
import Regular.Proofs.Listing
import Regular.Proofs.Rounds
import Regular.Proofs.Transcript
import Regular.Proofs.Graphviz
import Regular.Proofs.Report
import Regular.Proofs.Recording
