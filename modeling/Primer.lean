import Primer.Main
import Primer.Shell
import Primer.Proofs.Lockstep
import Primer.Proofs.Cutoff
import Primer.Proofs.DepthLimit
import Primer.Proofs.Indent
import Primer.Proofs.Frames
import Primer.Proofs.Functional.Alike
import Primer.Proofs.Functional.Simulation
import Primer.Proofs.Functional.Names
import Primer.Proofs.Functional.Untraced
import Primer.Proofs.Procedural.Untraced
import Primer.Proofs.Tracing
import Primer.Proofs.Functional.Scoping
import Primer.Proofs.Pieces
import Primer.Proofs.Reading
import Primer.Proofs.Spelling
import Primer.Proofs.Forms
import Primer.Proofs.RoundTrip
import Primer.Proofs.Functional.Closed
import Primer.Proofs.Functional.Unreachable
import Primer.Proofs.Sessions
import Primer.Proofs.Journal
import Primer.Proofs.Functional.Journal
import Primer.Proofs.Functional.Discipline
import Primer.Proofs.Functional.Session
import Primer.Proofs.Functional.Placeholder
import Primer.Proofs.Functional.Ancestry
import Primer.Proofs.Functional.Binders
import Primer.Proofs.Procedural.Journal
import Primer.Proofs.DistinctNames
import Primer.Proofs.Units
import Primer.Proofs.Nesting
import Primer.Proofs.Bookkeeping
import Primer.Proofs.Cutting
import Primer.Proofs.Earlier
import Primer.Proofs.Piped
import Primer.Proofs.LoopFree
import Primer.Proofs.Steady
import Primer.Proofs.FailedDefinitions
import Primer.Proofs.AssignmentFree
import Primer.Proofs.Grammar
import Primer.Proofs.Presenting
import Primer.Proofs.Functional.Presenting
import Primer.Proofs.Procedural.Presenting
import Primer.Proofs.Presentation
import Primer.Proofs.Recovery
import Primer.Proofs.Offsets
import Primer.Proofs.Unfinished
import Primer.Proofs.Coverage
import Primer.Proofs.Descent
import Primer.Proofs.Separators
import Primer.Proofs.Balance
import Primer.Proofs.Functional.Closures
import Primer.Proofs.Calls
import Primer.Proofs.Spending
import Primer.Proofs.Functional.Spending
import Primer.Proofs.Procedural.Spending
import Primer.Proofs.Budget
import Primer.Proofs.Functional.Environments
import Primer.Proofs.Functional.Listing
import Primer.Proofs.Functional.Expansion
import Primer.Proofs.Procedural.Confinement
import Primer.Proofs.Snippets
import Primer.Proofs.Functional.Equality
import Primer.Proofs.Course
import Primer.Proofs.Functional.Course
import Primer.Proofs.Functional.Invariant
import Primer.Proofs.Procedural.Course
import Primer.Proofs.Blame
import Primer.Proofs.Symbols
import Primer.Proofs.Functional.Printing
import Primer.Proofs.Functional.Quotations
import Primer.Proofs.Functional.Expectations
import Primer.Proofs.Catalogs
