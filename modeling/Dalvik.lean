import Dalvik.Accessor
import Dalvik.Addr
import Dalvik.Analysis.Deodex
import Dalvik.Analysis.Method
import Dalvik.Analysis.Point
import Dalvik.Analysis.Run
import Dalvik.Analysis.State
import Dalvik.Analysis.Transfer
import Dalvik.AnalysisError
import Dalvik.Body
import Dalvik.ClassDef
import Dalvik.ClassPath.Basic
import Dalvik.ClassPath.Core
import Dalvik.ClassPath.Interfaces
import Dalvik.ClassPath.Join
import Dalvik.ClassPath.Layout
import Dalvik.ClassPath.Memo
import Dalvik.ClassPath.Vtable
import Dalvik.Command.Listing
import Dalvik.Command.Request
import Dalvik.Flags
import Dalvik.FlowGraph.Basic
import Dalvik.FlowGraph.Dot
import Dalvik.InlineTable
import Dalvik.Instr.Basic
import Dalvik.Instr.Form
import Dalvik.Instr.Mnemonic
import Dalvik.Instr.Printer
import Dalvik.Instr.Traits
import Dalvik.Main
import Dalvik.ModelError
import Dalvik.Ref
import Dalvik.RegType.Basic
import Dalvik.RegType.Category
import Dalvik.RegType.Narrow
import Dalvik.Register
import Dalvik.Remaining
import Dalvik.Search
import Dalvik.Text.Order
import Dalvik.Text.Printable
import Dalvik.Text.Quoted
import Dalvik.Ty
import Dalvik.Ty.Reader
import Dalvik.Worklist
import Dalvik.Proofs.Monads
import Dalvik.Proofs.Rules
import Dalvik.Proofs.Paths
import Dalvik.Proofs.Spread
import Dalvik.Proofs.Steps
import Dalvik.Proofs.Placement
import Dalvik.Proofs.Memory
import Dalvik.Proofs.Answers
import Dalvik.Proofs.Superclasses
import Dalvik.Proofs.Below
import Dalvik.Proofs.Edges
import Dalvik.Proofs.Lasting
import Dalvik.Proofs.Reading
import Dalvik.Proofs.Settled
import Dalvik.Proofs.Inheritance
import Dalvik.Proofs.Members
import Dalvik.Proofs.Flow
import Dalvik.Proofs.Replacement
import Dalvik.Proofs.Drawings
import Dalvik.Proofs.Rewriting
import Dalvik.Proofs.Construction
import Dalvik.Proofs.Histories
import Dalvik.Proofs.Implementing
import Dalvik.Proofs.Independence
import Dalvik.Proofs.Tables
import Dalvik.Proofs.Climbing
import Dalvik.Proofs.Carrying
import Dalvik.Proofs.Termination
import Dalvik.Proofs.Oscillation
import Dalvik.Proofs.Slots
import Dalvik.Proofs.Chains
import Dalvik.Proofs.Reordering
import Dalvik.Proofs.Symmetry
import Dalvik.Proofs.Subtypes
import Dalvik.Proofs.Associativity
import Dalvik.Proofs.Layouts
import Dalvik.Proofs.Attempts
import Dalvik.Proofs.Markers
import Dalvik.Proofs.Leftovers
import Dalvik.Proofs.Noting
import Dalvik.Proofs.Passes
import Dalvik.Proofs.Untouched
import Dalvik.Proofs.Cells
import Dalvik.Proofs.Primitives
import Dalvik.Proofs.References
import Dalvik.Proofs.RoundTrip
import Dalvik.Proofs.TableText
import Dalvik.Proofs.Values
import Dalvik.Proofs.Bounds
import Dalvik.Proofs.Entry
import Dalvik.Proofs.WidePairs
import Dalvik.Proofs.Ancestors
import Dalvik.Proofs.Lineage
import Dalvik.Proofs.Folding
import Dalvik.Proofs.Caught
import Dalvik.Proofs.Grouping
import Dalvik.Proofs.Superinterfaces
import Dalvik.Proofs.Signatures
