import DynCheck.Enumeration
import DynCheck.Cast
import DynCheck.Proofs.Narrowing
import DynCheck.Proofs.Similarity
import DynCheck.Proofs.DeclaredKeys
import DynCheck.Proofs.Node
import DynCheck.Proofs.Declarations
import DynCheck.Proofs.ShortCircuit
import DynCheck.Proofs.Listing
import DynCheck.Proofs.Binary64.Interval
import DynCheck.Proofs.Binary64.ReadBack
import DynCheck.Proofs.Binary64.Nearest
import DynCheck.Proofs.Binary64.IntegerText
import DynCheck.Proofs.Numeral.Spelling
import DynCheck.Proofs.Numeral.Denotation
import DynCheck.Proofs.Json.Failure
import DynCheck.Proofs.Json.NormalForm
import DynCheck.Proofs.Json.RoundTrip
import DynCheck.Proofs.Json.Escape
import DynCheck.Proofs.Json.Grammar
import DynCheck.Proofs.Json.TextMeaning
import DynCheck.Proofs.Equality
import DynCheck.Proofs.Membership
import DynCheck.Proofs.Casting
import DynCheck.Proofs.Monotonicity
import DynCheck.Proofs.Horizon
import DynCheck.Proofs.Index
import DynCheck.Proofs.Store
import DynCheck.Proofs.World
import DynCheck.Proofs.Hierarchy
import DynCheck.Proofs.Instances
import DynCheck.Proofs.Json.Verdict
import DynCheck.Proofs.Bigint
import DynCheck.Proofs.Segmentation
import DynCheck.Proofs.Numeral.Layout
import DynCheck.Proofs.Numeral.Recognition
import DynCheck.Proofs.Enumeration.Members
import DynCheck.Proofs.Enumeration.Aliases
import DynCheck.Proofs.Enumeration.ObjectForm
import DynCheck.Proofs.Enumeration.Accounting
import DynCheck.Proofs.Json.Depth
import DynCheck.Proofs.Pruning
import DynCheck.Proofs.Coherence
import DynCheck.Proofs.Reading
import DynCheck.Proofs.Flattening
import DynCheck.Proofs.Lookup
import DynCheck.Proofs.Splitting
import DynCheck.Proofs.Truncation
import DynCheck.Proofs.Counting
import DynCheck.Proofs.Ranking
import DynCheck.Proofs.Json.Step
import DynCheck.Proofs.Json.Syntax
import DynCheck.Proofs.BoundsText
import DynCheck.Json.Writer
