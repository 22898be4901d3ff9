import Dee.Main
import Dee.Proofs.Printing.RoundTrip
import Dee.Proofs.Simplify.Preserved
import Dee.Proofs.Refinement.History
import Dee.Proofs.Run.Diagnostics
import Dee.Proofs.Run.Form
import Dee.Proofs.Run.Strict
import Dee.Proofs.Grammar.InOrder
import Dee.Proofs.Run.Contained
import Dee.Proofs.Simplify.Constant
import Dee.Proofs.Simplify.Settled
import Dee.Proofs.Run.Stages
import Dee.Proofs.Grammar.Consumed
import Dee.Proofs.Store.Equality
import Dee.Proofs.Store.Slots
import Dee.Proofs.Store.Cells
import Dee.Proofs.Loop.Binding
import Dee.Proofs.Decimal.Canonical
import Dee.Proofs.Token.Calls
import Dee.Proofs.Token.Relaid
import Dee.Proofs.Token.Strings
import Dee.Proofs.Store.Naming
import Dee.Proofs.Limit.Runs
import Dee.Proofs.Spacing.Separators
import Dee.Proofs.Spacing.LineEndings
