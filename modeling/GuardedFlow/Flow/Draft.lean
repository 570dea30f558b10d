import GuardedFlow.Code.Body
import GuardedFlow.Error
import GuardedFlow.Flow.Basic

/-!
# Control-flow graphs under construction

The graph of a body while it is lowered. A block may start at an instruction, and then it is the only
one that does; the entry block starts at the first instruction. Two blocks are joined by at most one
edge. The draft also knows which instruction is being lowered, so that errors can name it.
-/

namespace GuardedFlow

/-- The control-flow graph of a body under construction. -/
structure Draft where
  body : Body
  graph : Graph Block Guard
  /-- For every instruction the block that starts there. -/
  starts : Array (Option BlockId)
  result : Option Var
  receiver : Option Var
  params : Array Var
  locals : Array Var
  temps : Array Var
  /-- The caught exception, once it was asked for. -/
  exception : Option Var
  /-- The instruction that is being lowered. -/
  current : Option Nat
  usesMonitors : Bool
  deriving Inhabited

namespace Draft

/-- The graph of entry and sink. -/
def initialGraph : Graph Block Guard :=
  ((Graph.empty.addNode (Block.new "block0")).2.addNode (Block.new "sink")).2

/-- The draft with entry and sink and with the variables that the body declares. -/
def start (body : Body) (supply : VarSupply) : Draft × VarSupply :=
  let method := body.method
  let (result, supply) := supply.mintAll <|
    if method.result.isVoid then [] else [("$ret", method.result, .result)]
  let (receiver, supply) := supply.mintAll <|
    if body.isStatic then [] else [("this", .named method.owner, .receiver)]
  let (params, supply) := supply.mintAll <|
    method.params.zipIdx.map fun (ty, index) => (s!"$param{index}", ty, .parameter index)
  let (locals, supply) := supply.mintAll <|
    body.locals.toList.map fun decl => (decl.name, decl.ty, .declared)
  let starts := (Array.replicate body.code.size none).modify 0 fun _ => some Flow.entry
  ({ body
     graph := initialGraph
     starts
     result := result.head?
     receiver := receiver.head?
     params := params.toArray
     locals := locals.toArray
     temps := #[]
     exception := none
     current := none
     usesMonitors := false },
    supply)

/-- The block that starts at an instruction. -/
def blockAt? (d : Draft) (index : Nat) : Option BlockId :=
  d.starts[index]?.getD none

/-- Add a block that starts at no instruction. Its label counts the blocks, entry and sink apart. -/
def addBlock (d : Draft) : BlockId × Draft :=
  let (id, graph) := d.graph.addNode (Block.new s!"block{d.graph.nodeCount - 1}")
  (id, { d with graph })

/-- The block that starts at an instruction, which is added if there is none. Outside of the stream
every request adds a block. -/
def blockAt (d : Draft) (index : Nat) : BlockId × Draft :=
  match d.blockAt? index with
  | some id => (id, d)
  | none =>
    let (id, d) := d.addBlock
    (id, { d with starts := d.starts.modify index fun _ => some id })

/-- The location of the instruction that is being lowered. -/
def location (d : Draft) : Location :=
  match d.current with
  | some index => (d.body.code[index]?.map Instr.location).getD .unknown
  | none => .unknown

/-- The instruction that is being lowered, as errors name it. -/
def site (d : Draft) : Site :=
  match d.current with
  | some index => ⟨d.body.describe index, d.location⟩
  | none => .outside

/-- Go on to another instruction. -/
def moveTo (d : Draft) (index : Nat) : Draft := { d with current := some index }

/-- The label of a block. -/
def labelOf (d : Draft) (id : BlockId) : String :=
  ((d.graph.node? id).map Block.label).getD "?"

/-- Join two blocks, unless they are joined already. -/
def connect (d : Draft) (source target : BlockId) (guard : Guard) : Except Error Draft :=
  if (d.graph.findEdge source target).isSome then
    .error (.lowering (.duplicateEdge (d.labelOf source) (d.labelOf target)) d.site)
  else
    match d.graph.addEdge source target guard with
    | .ok (_, graph) => .ok { d with graph }
    | .error fault => .error (.graph fault)

/-- Append a statement to a block. -/
def append (d : Draft) (block : BlockId) (stmt : Stmt) : Except Error Draft :=
  if d.graph.hasNode block then .ok { d with graph := d.graph.modifyNode block (·.push stmt) }
  else .error (.graph (.unknownBlock block d.graph.nodeCount))

/-- A new temporary, whose name ends in the number of temporaries before it. -/
def addTemp (d : Draft) (stem : String) (ty : Ty) (supply : VarSupply) : Var × Draft × VarSupply :=
  let (v, supply) := supply.mint s!"{stem}{d.temps.size}" ty .temporary
  (v, { d with temps := d.temps.push v }, supply)

/-- The variable of the caught exception; the first request gives it its type. -/
def caughtException (d : Draft) (ty : Ty) (supply : VarSupply) : Var × Draft × VarSupply :=
  match d.exception with
  | some v => (v, d, supply)
  | none =>
    let (v, supply) := supply.mint "$exception" ty .exception
    (v, { d with exception := some v }, supply)

/-- The finished control-flow graph. -/
def finish (d : Draft) : Flow :=
  { graph := d.graph
    result := d.result
    receiver := d.receiver
    params := d.params
    locals := d.locals ++ d.temps ++ d.exception.toArray
    isSynchronized := d.body.isSynchronized
    usesMonitors := d.usesMonitors }

end Draft

end GuardedFlow
