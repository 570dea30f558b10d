import GuardedFlow.Code.Body
import GuardedFlow.Graph.Basic

/-!
# Transfers of control in a body

Control passes from an instruction to its jump targets and, if the instruction falls through, to the
one after it. `Body.transfers` is the graph of this relation: targets outside the stream are left out
and each pair of instructions has at most one edge. `Body.transfers?` builds it by additions of edges that
are checked. The lowering asks only how many instructions can precede a given one, through an oracle that a
front end may supply instead of this graph.
-/

namespace GuardedFlow

/-- Tells how many instructions can pass control to the one at a position. -/
structure PredecessorOracle where
  count : Nat → Nat

namespace PredecessorOracle

/-- The oracle that reads the numbers from a list; positions beyond its end have no predecessor. -/
def ofCounts (counts : Array Nat) : PredecessorOracle := ⟨fun index => counts[index]?.getD 0⟩

end PredecessorOracle

namespace Body

/-- Where control can go after an instruction: its jump targets and then the next position. -/
def transferTargets (body : Body) (index : Nat) (instr : Instr) : List Nat :=
  instr.op.jumpTargets ++ if instr.op.fallsThrough then (body.next? index).toList else []

/-- Add an edge between two nodes of the graph, unless there is one. -/
def linkOnce (g : Graph Unit Unit) (source target : NodeId) : Graph Unit Unit :=
  if g.hasNode target && (g.findEdge source target).isNone then g.link source target () else g

/-- The graph of the transfers of control between the instructions of a body. -/
def transfers (body : Body) : Graph Unit Unit :=
  let nodes := body.code.foldl (fun g _ => (g.addNode ()).2) Graph.empty
  body.code.toList.zipIdx.foldl
    (fun g (instr, index) => (body.transferTargets index instr).foldl (linkOnce · index ·) g) nodes

/-- Add an edge as `linkOnce` does, with a check of its ends. -/
def addOnce (source : NodeId) (g : Graph Unit Unit) (target : NodeId) :
    Except GraphFault (Graph Unit Unit) :=
  if g.hasNode target && (g.findEdge source target).isNone then
    (g.addEdge source target ()).map (·.2)
  else .ok g

/-- The graph of the transfers of control, built by additions of edges that could be refused. -/
def transfers? (body : Body) : Except GraphFault (Graph Unit Unit) :=
  let nodes := body.code.foldl (fun g _ => (g.addNode ()).2) Graph.empty
  body.code.toList.zipIdx.foldlM
    (fun g (instr, index) => (body.transferTargets index instr).foldlM (addOnce index) g) nodes

/-- The oracle that counts the predecessors in the graph of transfers. -/
def predecessorOracle (body : Body) : PredecessorOracle :=
  let g := body.transfers
  ⟨fun index => g.inDegree index⟩

end Body

end GuardedFlow
