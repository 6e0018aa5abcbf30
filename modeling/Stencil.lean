import Stencil.Text.CursorScan
import Stencil.Inspection
import Stencil.Template
import Stencil.Proofs.ParseOnce
import Stencil.Proofs.BlockRanges
import Stencil.Proofs.Break.Advance
import Stencil.Proofs.Break.Exact
import Stencil.Proofs.ErrorPlaces
import Stencil.Proofs.Text.Brackets
import Stencil.Proofs.Activation
import Stencil.Proofs.RoundTrip.Expression
import Stencil.Proofs.RenderAgain
import Stencil.Proofs.RoundTrip.Body
import Stencil.Proofs.RoundTrip.Block
import Stencil.Proofs.RoundTrip.ReadBack
import Stencil.Proofs.Confinement
import Stencil.Proofs.LiteralText
import Stencil.Proofs.Run.Levels
import Stencil.Proofs.Run.Settles
import Stencil.Proofs.Nesting
import Stencil.Proofs.Inlining
import Stencil.Proofs.DefaultPlaceholders
import Stencil.Proofs.StartOffset
import Stencil.Proofs.Run.Walk
import Stencil.Proofs.Run.Counting
import Stencil.Proofs.Order.Calls
import Stencil.Proofs.Text.Atomic
import Stencil.Proofs.Primitive.Integers
import Stencil.Proofs.Text.Wrapped
import Stencil.Proofs.WordEnds
import Stencil.Proofs.Heap.Equality
import Stencil.Proofs.Heap.Indentation
import Stencil.Proofs.Comparison
import Stencil.Proofs.Member.Search
import Stencil.Proofs.Heap.ListEvents
import Stencil.Proofs.Run.Lists
import Stencil.Proofs.SharedLists
import Stencil.Proofs.Heap.Nearest
import Stencil.Proofs.Expression.Listed
import Stencil.Proofs.Member.Conversion
import Stencil.Proofs.MemberTable
import Stencil.Proofs.BlockShape
import Stencil.Proofs.OwnRange
import Stencil.Proofs.Unentered
import Stencil.Proofs.CutText
