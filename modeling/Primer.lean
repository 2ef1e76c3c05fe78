import Primer.Main
import Primer.Proofs.Evaluation.Tags
import Primer.Proofs.Grammar.EarliestFault
import Primer.Proofs.Lexing.LongestMatch
import Primer.Proofs.Checking.Occurrences
import Primer.Proofs.Evaluation.Instructions
import Primer.Proofs.Evaluation.IntegerRange
import Primer.Proofs.Programs
import Primer.Proofs.Checking.Names
import Primer.Proofs.Checking.Sessions
import Primer.Proofs.Checking.Reads
import Primer.Proofs.Lines.Layout
import Primer.Proofs.Evaluation.Expressions
import Primer.Proofs.Lines.Provenance
import Primer.Proofs.Printing
import Primer.Proofs.Lexing.Identifiers
import Primer.Proofs.CommandLine.OneLine
import Primer.Proofs.CommandLine.TokenDump
import Primer.Proofs.Leaves
import Primer.Proofs.ParsedTrees
import Primer.Proofs.Lexing.Rendering
import Primer.Proofs.Lexing.LineBreaks
import Primer.Proofs.Checking.Tables
import Primer.Proofs.Evaluation.Footprint
import Primer.Proofs.Evaluation.Independence
import Primer.Proofs.Grammar.Expectations
import Primer.Proofs.Checking.LastInsertion
import Primer.Proofs.Evaluation.SignedIntegers
import Primer.Proofs.CommandLine.Listing
import Primer.Proofs.Renaming
import Primer.Proofs.Grammar.Progress
