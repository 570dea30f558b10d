import GuardedFlow.Graph.Basic
import GuardedFlow.Graph.Marks

/-!
# Depth-first walks

Three walks over a graph, each with an explicit stack. `Graph.reachable` goes forwards and visits a
node's successors first to last; `Graph.reaching` goes backwards and visits a node's predecessors
last to first. Both mark a node when it is put on the stack, so no node is on the stack twice.
`Graph.postorder` lists a node after everything that was reached through it; it marks a node when it
is taken from the stack.
-/

namespace GuardedFlow

namespace Walk

/-- Mark the free ones among `nodes` and put them on the stack, the last of them first. -/
def discover (nodes : List NodeId) (marks : Marks) (stack : List NodeId) :
    Marks × List NodeId :=
  nodes.foldr
    (fun n (marks, stack) => if marks.free n then (marks.mark n, n :: stack) else (marks, stack))
    (marks, stack)

/-- Every node that is put on the stack takes the place of a free one. -/
theorem room_discover (nodes : List NodeId) (marks : Marks) (stack : List NodeId) :
    (discover nodes marks stack).1.room + (discover nodes marks stack).2.length =
      marks.room + stack.length := by
  induction nodes with
  | nil => rfl
  | cons n rest ih =>
    simp only [discover, List.foldr_cons] at ih ⊢
    split
    · next h =>
      have := Marks.room_mark h
      simp only [List.length_cons]
      omega
    · exact ih

/-- Visit the nodes on the stack and all that can be reached from them by `next` through free
nodes. -/
def preorder (next : NodeId → List NodeId) (marks : Marks) : List NodeId → List NodeId
  | [] => []
  | n :: stack =>
    let found := discover (next n) marks stack
    n :: preorder next found.1 found.2
termination_by stack => marks.room + stack.length
decreasing_by
  have := room_discover (next n) marks stack
  simp only [List.length_cons]
  omega

/-- What the stack of a postorder walk asks for. -/
inductive Task where
  /-- Visit a node and what lies behind it. -/
  | enter (n : NodeId)
  /-- List a node. -/
  | leave (n : NodeId)
  deriving DecidableEq, Inhabited

/-- Work off the stack of a postorder walk. -/
def postorder (next : NodeId → List NodeId) (marks : Marks) : List Task → List NodeId
  | [] => []
  | .leave n :: stack => n :: postorder next marks stack
  | .enter n :: stack =>
    if marks.free n then
      let marks' := marks.mark n
      let ahead := (next n).filter marks'.free
      postorder next marks' (ahead.map .enter ++ .leave n :: stack)
    else postorder next marks stack
termination_by stack => (marks.room, stack.length)
decreasing_by
  · exact Prod.Lex.right _ (Nat.lt_succ_self _)
  · next h =>
    refine Prod.Lex.left _ _ ?_
    have := Marks.room_mark h
    omega
  · exact Prod.Lex.right _ (Nat.lt_succ_self _)

end Walk

namespace Graph

variable {N E : Type}

/-- Visit `start` and all that can be reached from it by `next`. -/
def walk (g : Graph N E) (next : NodeId → List NodeId) (start : NodeId) : List NodeId :=
  if g.hasNode start then Walk.preorder next ((Marks.none g.nodeCount).mark start) [start] else []

/-- The nodes to which a path leads from `start`, in depth-first order. -/
def reachable (g : Graph N E) (start : NodeId) : List NodeId :=
  g.walk g.successors start

/-- The nodes from which a path leads to `target`, in depth-first order. -/
def reaching (g : Graph N E) (target : NodeId) : List NodeId :=
  g.walk (fun n => (g.predecessors n).reverse) target

/-- The nodes that can be reached from `start`, each after those that were reached through it. -/
def postorder (g : Graph N E) (start : NodeId) : List NodeId :=
  if g.hasNode start then Walk.postorder g.successors (Marks.none g.nodeCount) [.enter start]
  else []

/-- The reverse of the postorder. -/
def reversePostorder (g : Graph N E) (start : NodeId) : List NodeId :=
  (g.postorder start).reverse

end Graph

end GuardedFlow
