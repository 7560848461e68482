import Pep10.Files.Tree
import Pep10.Main
import Pep10.Proofs.Layout.Walk
import Pep10.Proofs.LineTable
import Pep10.Proofs.Layout.Tiling
import Pep10.Proofs.Layout.Schedule
import Pep10.Proofs.Layout.Run
import Pep10.Proofs.Splitting
import Pep10.Proofs.Layout.Law
import Pep10.Proofs.Encoding
import Pep10.Proofs.Emission
import Pep10.Proofs.ObjectCode
import Pep10.Proofs.Layout.Success
import Pep10.Proofs.Lowering
import Pep10.Proofs.Resolution
import Pep10.Proofs.Acceptance
import Pep10.Proofs.Definition
import Pep10.Proofs.Disjoint
import Pep10.Proofs.LateDefinition
import Pep10.Proofs.SymbolValues
import Pep10.Proofs.Translation
import Pep10.Proofs.StoredLines
import Pep10.Proofs.Aliases
import Pep10.Proofs.Imports
import Pep10.Proofs.RawImage
import Pep10.Proofs.ObjectText
import Pep10.Proofs.Stacking
import Pep10.Proofs.Formats
import Pep10.Proofs.Reassembly
import Pep10.Proofs.InternalErrors
import Pep10.Proofs.Layout.Relabeling
import Pep10.Proofs.Segments
import Pep10.Proofs.Interleaving
import Pep10.Proofs.Alignment
import Pep10.Proofs.Exchange
import Pep10.Proofs.Inlining
import Pep10.Proofs.SectionBounds
import Pep10.Proofs.History
import Pep10.Proofs.Pointers
import Pep10.Proofs.LoweredDocument
import Pep10.Proofs.Partition
import Pep10.Proofs.Frame
import Pep10.Proofs.Wrapping
import Pep10.Proofs.ObjectRows
import Pep10.Proofs.OneLine
import Pep10.Proofs.ListingRows
import Pep10.Proofs.FormattedLine
import Pep10.Proofs.ZeroedSegments
import Pep10.Proofs.Constants
import Pep10.Proofs.Decoding
import Pep10.Proofs.Layout.Reversal
import Pep10.Proofs.Quotation
