import Febc.Bytecode.Instruction
import Febc.Bytecode.Opcode
import Febc.Code.Builder
import Febc.Code.Channel
import Febc.Descriptor
import Febc.Entity.Attribute
import Febc.Entity.Constant
import Febc.Entity.ConstantPool
import Febc.Entity.File
import Febc.Entity.Reference
import Febc.Error
import Febc.Lowering.Access
import Febc.Lowering.Class
import Febc.Lowering.Diagnostic
import Febc.Lowering.Expr
import Febc.Lowering.Function
import Febc.Lowering.Handler
import Febc.Lowering.Intrinsic
import Febc.Lowering.Layout
import Febc.Lowering.Locals
import Febc.Lowering.LoopStack
import Febc.Lowering.Monad
import Febc.Lowering.Output
import Febc.Lowering.Stmt
import Febc.Name
import Febc.Proofs.Access
import Febc.Proofs.Expr
import Febc.Proofs.Builder
import Febc.Proofs.Image
import Febc.Proofs.Outcome
import Febc.Proofs.Preserve
import Febc.Proofs.Sound
import Febc.Proofs.Steps
import Febc.SymbolTable
import Febc.Syntax.Class
import Febc.Syntax.Expr
import Febc.Syntax.Stmt
import Febc.Text.CodePointSet
import Febc.Text.Float
import Febc.Text.GraphemeExtend
import Febc.Text.Hex
import Febc.Text.Printable
import Febc.Text.Quoted
import Febc.Text.Shortest
import Febc.Proofs.Handlers
import Febc.Proofs.Frames
import Febc.Proofs.Guarded
import Febc.Proofs.Resources
import Febc.Proofs.Stmt
import Febc.Proofs.Ladder
import Febc.Proofs.Body
import Febc.Proofs.Classes
import Febc.Proofs.Entities
import Febc.Proofs.PoolList
import Febc.Proofs.Isolation
import Febc.Proofs.Shift
import Febc.Proofs.ShiftLowering
import Febc.Proofs.History
import Febc.Proofs.Tables
import Febc.Proofs.Assignment
import Febc.Proofs.Stream
import Febc.Proofs.Format
import Febc.Proofs.Calls
import Febc.Proofs.Labels
import Febc.Proofs.Interning
import Febc.Proofs.Channels
import Febc.Proofs.Resolution
import Febc.Proofs.LoopRecords
import Febc.Proofs.Scopes
import Febc.Proofs.Problems
import Febc.Proofs.Reports
import Febc.Proofs.StatementReports
import Febc.Proofs.ClassReports
import Febc.Proofs.InitializerCode
import Febc.Proofs.Initializers
import Febc.Proofs.SlotWalks
import Febc.Proofs.PrivateSlots
import Febc.Proofs.LocalCounts
