import GuardedFlow.Graph.Walk
import GuardedFlow.Stmt

/-!
# Control-flow graphs

The lowered form of a method: blocks of statements, joined by edges that may carry a guard. Control
enters at the block numbered zero. All returns lead to the block numbered one, the sink. The variables
of the method are listed by role; temporaries count as locals.
-/

namespace GuardedFlow

/-- The number of a block. -/
abbrev BlockId := NodeId

/-- A label and a sequence of statements. The label is for display; blocks are told apart by their
numbers. -/
structure Block where
  label : String
  stmts : Array Stmt
  deriving Inhabited

namespace Block

/-- A block without statements. -/
def new (label : String) : Block := ⟨label, #[]⟩

/-- Append a statement. -/
def push (block : Block) (stmt : Stmt) : Block :=
  { block with stmts := block.stmts.push stmt }

end Block

/-- The condition under which an edge is taken; an edge without one is always taken. -/
abbrev Guard := Option Expr

namespace Guard

/-- The printed form of a guard; that of an edge without one is empty. -/
def text (guard : Guard) : String := (guard.map Expr.text).getD ""

end Guard

/-- The control-flow graph of a method. -/
structure Flow where
  graph : Graph Block Guard
  /-- What returned values are assigned to; none for a method that returns nothing. -/
  result : Option Var
  /-- The receiver of an instance method. -/
  receiver : Option Var
  params : Array Var
  /-- The declared locals, the temporaries, and the caught exception if there is one. -/
  locals : Array Var
  isSynchronized : Bool
  /-- Whether a monitor is entered or left somewhere, although synchronization is not modelled. -/
  usesMonitors : Bool
  deriving Inhabited

namespace Flow

/-- The block that control enters first. -/
def entry : BlockId := 0

/-- The block that all returns lead to. -/
def sink : BlockId := 1

/-- The guard of the edge from one block to another, if there is such an edge. -/
def edgeBetween (flow : Flow) (source target : BlockId) : Option Guard :=
  (flow.graph.findEdge source target).bind flow.graph.edge?

/-- All statements with the blocks that hold them. -/
def statements (flow : Flow) : List (BlockId × Stmt) :=
  flow.graph.nodeList.flatMap fun (id, block) => block.stmts.toList.map (id, ·)

/-- The blocks to which a path leads from the entry, in depth-first order. -/
def reachable (flow : Flow) : List BlockId := flow.graph.reachable entry

/-- Whether a path leads from a block to the sink. -/
def reachesSink (flow : Flow) (block : BlockId) : Bool :=
  (flow.graph.reachable block).contains sink

/-- The blocks from which a path leads to the sink. -/
def reachingSink (flow : Flow) : List BlockId := flow.graph.reaching sink

/-- The blocks to which a path leads from the entry, in reverse postorder. -/
def reversePostorder (flow : Flow) : List BlockId := flow.graph.reversePostorder entry

end Flow

end GuardedFlow
