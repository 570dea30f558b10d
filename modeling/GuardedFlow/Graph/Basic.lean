/-!
# Directed graphs

A directed multigraph that only grows. Nodes and edges are numbered in the order in which they are
added, and carry a payload each. Besides its end points every edge is entered in two lists, that of
the edges leaving its source and that of the edges entering its target, in order of insertion.
-/

namespace GuardedFlow

/-- The number of a node. -/
abbrev NodeId := Nat

/-- The number of an edge. -/
abbrev EdgeId := Nat

namespace NodeId

/-- The printed form of a node's number. -/
def text (n : NodeId) : String := s!"n{n}"

/-- The form of a node's number that names its kind. -/
def inspect (n : NodeId) : String := s!"NodeId({n})"

end NodeId

namespace EdgeId

/-- The printed form of an edge's number. -/
def text (e : EdgeId) : String := s!"e{e}"

/-- The form of an edge's number that names its kind. -/
def inspect (e : EdgeId) : String := s!"EdgeId({e})"

end EdgeId

/-- Why an operation on a graph is refused. -/
inductive GraphFault where
  | unknownSource (node : NodeId) (nodeCount : Nat)
  | unknownTarget (node : NodeId) (nodeCount : Nat)
  /-- The payload of a node was to be changed that the graph does not have. -/
  | unknownBlock (node : NodeId) (nodeCount : Nat)
  deriving DecidableEq, Inhabited

namespace GraphFault

/-- The wording of a refusal. -/
def message : GraphFault → String
  | unknownSource node count => missing "Source node" node count
  | unknownTarget node count => missing "Target node" node count
  | unknownBlock node count => missing "Block" node count
where
  /-- That a graph of `count` nodes has no such node. -/
  missing (what : String) (node : NodeId) (count : Nat) : String :=
    s!"{what} {node.text} does not exist (graph has {count} nodes)"

end GraphFault

/-- An edge with its end points. -/
structure Link (E : Type) where
  source : NodeId
  target : NodeId
  payload : E
  deriving Inhabited

/-- A directed multigraph with payloads on nodes and edges. -/
structure Graph (N E : Type) where
  nodes : Array N
  edges : Array (Link E)
  /-- For every node the edges that leave it. -/
  leaving : Array (List EdgeId)
  /-- For every node the edges that enter it. -/
  entering : Array (List EdgeId)
  deriving Inhabited

namespace Graph

variable {N E : Type}

/-- The graph without nodes. -/
def empty : Graph N E := ⟨#[], #[], #[], #[]⟩

/-- The number of nodes. -/
def nodeCount (g : Graph N E) : Nat := g.nodes.size

/-- The number of edges. -/
def edgeCount (g : Graph N E) : Nat := g.edges.size

/-- Whether the graph has a node of this number. -/
def hasNode (g : Graph N E) (n : NodeId) : Bool := n < g.nodeCount

/-- Add a node; it gets the next number. -/
def addNode (g : Graph N E) (payload : N) : NodeId × Graph N E :=
  (g.nodeCount,
    { g with
      nodes := g.nodes.push payload
      leaving := g.leaving.push []
      entering := g.entering.push [] })

/-- Add an edge between two nodes of the graph; it gets the next number. -/
def link (g : Graph N E) (source target : NodeId) (payload : E) : Graph N E :=
  let id := g.edgeCount
  { g with
    edges := g.edges.push ⟨source, target, payload⟩
    leaving := g.leaving.modify source (· ++ [id])
    entering := g.entering.modify target (· ++ [id]) }

/-- Add an edge, unless an end point is missing; a missing source is reported first. -/
def addEdge (g : Graph N E) (source target : NodeId) (payload : E) :
    Except GraphFault (EdgeId × Graph N E) :=
  if !g.hasNode source then .error (.unknownSource source g.nodeCount)
  else if !g.hasNode target then .error (.unknownTarget target g.nodeCount)
  else .ok (g.edgeCount, g.link source target payload)

/-- The payload of a node. -/
def node? (g : Graph N E) (n : NodeId) : Option N := g.nodes[n]?

/-- Change the payload of a node. -/
def modifyNode (g : Graph N E) (n : NodeId) (f : N → N) : Graph N E :=
  { g with nodes := g.nodes.modify n f }

/-- The payload of an edge. -/
def edge? (g : Graph N E) (e : EdgeId) : Option E := g.edges[e]?.map Link.payload

/-- The source and the target of an edge. -/
def endpoints? (g : Graph N E) (e : EdgeId) : Option (NodeId × NodeId) :=
  g.edges[e]?.map fun link => (link.source, link.target)

/-- The edges that leave a node; none for a node that the graph does not have. -/
def outgoing (g : Graph N E) (n : NodeId) : List (EdgeId × Link E) :=
  (g.leaving[n]?.getD []).filterMap fun e => g.edges[e]?.map (e, ·)

/-- The edges that enter a node; none for a node that the graph does not have. -/
def incoming (g : Graph N E) (n : NodeId) : List (EdgeId × Link E) :=
  (g.entering[n]?.getD []).filterMap fun e => g.edges[e]?.map (e, ·)

/-- The targets of the edges that leave a node. -/
def successors (g : Graph N E) (n : NodeId) : List NodeId :=
  (g.outgoing n).map (·.2.target)

/-- The sources of the edges that enter a node. -/
def predecessors (g : Graph N E) (n : NodeId) : List NodeId :=
  (g.incoming n).map (·.2.source)

/-- The number of edges that leave a node. -/
def outDegree (g : Graph N E) (n : NodeId) : Nat := (g.leaving[n]?.getD []).length

/-- The number of edges that enter a node. -/
def inDegree (g : Graph N E) (n : NodeId) : Nat := (g.entering[n]?.getD []).length

/-- The first edge from one node to another. -/
def findEdge (g : Graph N E) (source target : NodeId) : Option EdgeId :=
  ((g.outgoing source).find? (·.2.target == target)).map (·.1)

/-- The numbers of all nodes. -/
def nodeIds (g : Graph N E) : List NodeId := List.range g.nodeCount

/-- All nodes with their numbers. -/
def nodeList (g : Graph N E) : List (NodeId × N) :=
  g.nodes.toList.zipIdx.map fun (payload, n) => (n, payload)

/-- All edges with their numbers. -/
def edgeList (g : Graph N E) : List (EdgeId × Link E) :=
  g.edges.toList.zipIdx.map fun (link, e) => (e, link)

end Graph

end GuardedFlow
