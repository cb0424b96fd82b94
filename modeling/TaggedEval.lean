import TaggedEval.Failure
import TaggedEval.Foreign
import TaggedEval.Foreign.History
import TaggedEval.Logic
import TaggedEval.Matching
import TaggedEval.Module.Basic
import TaggedEval.Module.Machine
import TaggedEval.Module.Program
import TaggedEval.Module.Recipe
import TaggedEval.Name
import TaggedEval.Number.Binary
import TaggedEval.Number.Decimal
import TaggedEval.Number.Shortest
import TaggedEval.Number.Text
import TaggedEval.Proofs.Foreign.Bindings
import TaggedEval.Proofs.Matching.Arms
import TaggedEval.Proofs.Matching.Building
import TaggedEval.Proofs.Matching.Misfit
import TaggedEval.Proofs.Matching.Replacing
import TaggedEval.Proofs.Matching.Selection
import TaggedEval.Proofs.Matching.Typed
import TaggedEval.Proofs.Matching.Views
import TaggedEval.Proofs.Module.Activation
import TaggedEval.Proofs.Module.AllValues
import TaggedEval.Proofs.Module.Definitions
import TaggedEval.Proofs.Module.Frame
import TaggedEval.Proofs.Module.Names
import TaggedEval.Proofs.Module.Nesting
import TaggedEval.Proofs.Module.Redefinition
import TaggedEval.Proofs.Module.Run
import TaggedEval.Proofs.Module.Settling
import TaggedEval.Proofs.Name
import TaggedEval.Proofs.Number.Arithmetic
import TaggedEval.Proofs.Number.Decimal
import TaggedEval.Proofs.Number.Exact
import TaggedEval.Proofs.Number.Interval
import TaggedEval.Proofs.Number.Rounding
import TaggedEval.Proofs.Number.Sign
import TaggedEval.Proofs.Number.Text
import TaggedEval.Proofs.Recipe.Cached
import TaggedEval.Proofs.Recipe.Closed
import TaggedEval.Proofs.Recipe.Cycle
import TaggedEval.Proofs.Recipe.Unfolding
import TaggedEval.Proofs.Sequence.Calls
import TaggedEval.Proofs.Sequence.Copies
import TaggedEval.Proofs.Sequence.Elements
import TaggedEval.Proofs.Sequence.Fusion
import TaggedEval.Proofs.Sequence.Order
import TaggedEval.Proofs.Sequence.Partition
import TaggedEval.Proofs.Sequence.Range
import TaggedEval.Proofs.Sequence.Spine
import TaggedEval.Proofs.Sequence.Totals
import TaggedEval.Proofs.Sequence.Traversals
import TaggedEval.Proofs.TypeDeclaration.Checking
import TaggedEval.Proofs.TypeDeclaration.Declaring
import TaggedEval.Proofs.TypeDeclaration.Tags
import TaggedEval.Proofs.Value.Equality
import TaggedEval.Proofs.Value.Laws
import TaggedEval.Proofs.Value.Observers
import TaggedEval.Proofs.Value.Structure
import TaggedEval.Proofs.Value.Text
import TaggedEval.Sequence.Access
import TaggedEval.Sequence.Arithmetic
import TaggedEval.Sequence.Basic
import TaggedEval.Sequence.Fold
import TaggedEval.Text.Quoted
import TaggedEval.Text.Unprintable
import TaggedEval.TypeDeclaration
import TaggedEval.TypeDeclaration.Index
import TaggedEval.Value.Basic
import TaggedEval.Value.Equality
import TaggedEval.Value.Parts
import TaggedEval.Value.Text
