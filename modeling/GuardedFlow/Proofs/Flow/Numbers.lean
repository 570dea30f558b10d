import GuardedFlow.Flow.Draft
import GuardedFlow.Flow.Text

/-!
# Control-flow graphs with other numbers

Variables are told apart by numbers, and methods by their places in the program. Both depend on what
the program was asked for before. `renumber` gives variables other numbers and leaves the places of
methods out. What is left decides how a control-flow graph is printed and drawn, and how a draft grows.
-/

namespace GuardedFlow

/-- A variable with another number. -/
def Var.renumber (number : Var → Nat) (v : Var) : Var := { v with id := number v }

/-- Two ways to number variables agree on all of them but the locals that bodies declare. -/
def NumberAlike (number number' : Var → Nat) : Prop :=
  ∀ v w : Var, v.role ≠ .declared → w.role ≠ .declared → number v = number' w

variable {number number' : Var → Nat}

/-- Variables that differ in their numbers only have the same type. -/
theorem Var.ty_of_renumber {v w : Var} (h : v.renumber number = w.renumber number') : v.ty = w.ty :=
  show (v.renumber number).ty = (w.renumber number').ty by rw [h]

/-- Variables of the same name, type and role are the same but for their numbers, unless a body declares
them. -/
theorem NumberAlike.renumber (h : NumberAlike number number') (id id' : Nat) (name : String) (ty : Ty)
    {role : VarRole} (hrole : role ≠ .declared) :
    Var.renumber number ⟨id, name, ty, role⟩ = Var.renumber number' ⟨id', name, ty, role⟩ := by
  rw [Var.renumber, Var.renumber, h ⟨id, name, ty, role⟩ ⟨id', name, ty, role⟩ hrole hrole]

namespace Expr

mutual

/-- An expression with other numbers for its variables. -/
def renumber (number : Var → Nat) : Expr → Expr
  | var v => var (v.renumber number)
  | lit value => lit value
  | unary op operand => unary op (operand.renumber number)
  | binary op left right => binary op (left.renumber number) (right.renumber number)
  | cell map keys => cell (map.renumber number) (renumberAll number keys)
  | alloc ty => alloc ty

/-- Expressions with other numbers for their variables. -/
def renumberAll (number : Var → Nat) : List Expr → List Expr
  | [] => []
  | e :: rest => e.renumber number :: renumberAll number rest

end

mutual

/-- Numbers are not printed. -/
theorem text_renumber : ∀ e : Expr, (e.renumber number).text = e.text
  | var _ | lit _ | alloc _ => rfl
  | unary op operand => by simp only [renumber, text, text_renumber operand]
  | binary op left right => by
    simp only [renumber, text, text_renumber left, text_renumber right]
  | cell map keys => by
    simp only [renumber, text, texts_renumberAll keys]
    rfl

/-- The texts of a list of expressions do not show numbers. -/
theorem texts_renumberAll : ∀ es : List Expr, texts (renumberAll number es) = texts es
  | [] => rfl
  | e :: rest => by simp only [renumberAll, texts, text_renumber e, texts_renumberAll rest]

end

end Expr

/-- A callee without its place in the program. -/
def Callee.placeless : Callee → Callee
  | method _ signature => method 0 signature
  | unresolved signature => unresolved signature

/-- A callee without its number has the same signature. -/
theorem Callee.signature_placeless (callee : Callee) : callee.placeless.signature = callee.signature := by
  cases callee <;> rfl

/-- What a statement does, with other numbers. -/
def StmtKind.renumber (number : Var → Nat) : StmtKind → StmtKind
  | assign target value => assign (target.renumber number) (value.renumber number)
  | assert condition => assert (condition.renumber number)
  | assume condition => assume (condition.renumber number)
  | call callee args result =>
    call callee.placeless (args.map (Expr.renumber number)) (result.map (Expr.renumber number))

/-- Numbers are not printed. -/
theorem StmtKind.text_renumber (kind : StmtKind) : (kind.renumber number).text = kind.text := by
  cases kind with
  | assign target value => simp only [renumber, text, Expr.text_renumber]
  | assert condition => simp only [renumber, text, Expr.text_renumber]
  | assume condition => simp only [renumber, text, Expr.text_renumber]
  | call callee args result =>
    have hargs : (args.map (Expr.renumber number)).map Expr.text = args.map Expr.text := by
      rw [List.map_map]
      exact List.map_congr_left fun e _ => e.text_renumber
    simp only [renumber, text, Callee.signature_placeless, hargs]
    cases result with
    | none => rfl
    | some target => simp only [Option.map_some, Expr.text_renumber]

/-- A statement with other numbers. -/
def Stmt.renumber (number : Var → Nat) (s : Stmt) : Stmt := { s with kind := s.kind.renumber number }

/-- The text of a statement does not show numbers. -/
theorem Stmt.text_renumber (s : Stmt) : (s.renumber number).text = s.text := s.kind.text_renumber

/-- A block with other numbers. -/
def Block.renumber (number : Var → Nat) (block : Block) : Block :=
  { block with stmts := block.stmts.map (Stmt.renumber number) }

/-- A new block has no numbers. -/
theorem Block.renumber_new (label : String) : (Block.new label).renumber number = Block.new label := by
  simp [Block.renumber, Block.new]

/-- A guard with other numbers. -/
def Guard.renumber (number : Var → Nat) (guard : Guard) : Guard := guard.map (Expr.renumber number)

/-! ### Graphs -/

/-- A link with another payload. -/
def Link.map {E F : Type} (f : E → F) (link : Link E) : Link F :=
  ⟨link.source, link.target, f link.payload⟩

namespace Graph

variable {N M E F : Type}

/-- A graph with other payloads. -/
def map (f : N → M) (f' : E → F) (g : Graph N E) : Graph M F :=
  ⟨g.nodes.map f, g.edges.map (Link.map f'), g.leaving, g.entering⟩

variable (f : N → M) (f' : E → F) (g : Graph N E)

/-- Other payloads are as many nodes. -/
theorem nodeCount_map : (g.map f f').nodeCount = g.nodeCount := Array.size_map

/-- Other payloads are as many edges. -/
theorem edgeCount_map : (g.map f f').edgeCount = g.edgeCount := Array.size_map

/-- Other payloads have the same nodes. -/
theorem hasNode_map (n : NodeId) : (g.map f f').hasNode n = g.hasNode n := by
  unfold hasNode
  rw [nodeCount_map]

/-- Other payloads of a node. -/
theorem node?_map (n : NodeId) : (g.map f f').node? n = (g.node? n).map f := Array.getElem?_map

/-- Other payloads of all nodes, in the same order. -/
theorem nodeList_map : (g.map f f').nodeList = g.nodeList.map fun entry => (entry.1, f entry.2) := by
  simp [nodeList, map, List.zipIdx_map, Function.comp_def]

/-- Other payloads of all edges, in the same order. -/
theorem edgeList_map :
    (g.map f f').edgeList = g.edgeList.map fun entry => (entry.1, entry.2.map f') := by
  simp [edgeList, map, List.zipIdx_map, Function.comp_def]

/-- Other payloads of the edges that leave a node. -/
theorem outgoing_map (n : NodeId) :
    (g.map f f').outgoing n = (g.outgoing n).map fun entry => (entry.1, entry.2.map f') := by
  simp [outgoing, map, List.map_filterMap, Function.comp_def]

/-- Other payloads do not change which edge is found. -/
theorem findEdge_map (source target : NodeId) :
    (g.map f f').findEdge source target = g.findEdge source target := by
  unfold findEdge
  rw [outgoing_map, List.find?_map, Option.map_map]
  rfl

/-- A node may be added before or after the payloads are changed. -/
theorem map_addNode (payload : N) :
    (g.map f f').addNode (f payload) = ((g.addNode payload).1, (g.addNode payload).2.map f f') := by
  simp [addNode, map, nodeCount]

/-- An edge may be linked before or after the payloads are changed. -/
theorem map_link (source target : NodeId) (payload : E) :
    (g.map f f').link source target (f' payload) = (g.link source target payload).map f f' := by
  simp [link, map, edgeCount, Link.map]

/-- An edge may be added before or after the payloads are changed. -/
theorem map_addEdge (source target : NodeId) (payload : E) :
    (g.map f f').addEdge source target (f' payload) =
      (g.addEdge source target payload).map fun added => (added.1, added.2.map f f') := by
  unfold addEdge
  rw [hasNode_map, hasNode_map, nodeCount_map, edgeCount_map, map_link]
  cases g.hasNode source <;> cases g.hasNode target <;> rfl

/-- A payload may be modified before or after all of them are changed. -/
theorem map_modifyNode (n : NodeId) (change : N → N) (change' : M → M)
    (h : ∀ payload, f (change payload) = change' (f payload)) :
    (g.map f f').modifyNode n change' = (g.modifyNode n change).map f f' := by
  have hnodes : (g.nodes.map f).modify n change' = (g.nodes.modify n change).map f := by
    apply Array.ext_getElem?
    intro i
    by_cases hi : n = i
    · simp [Array.getElem?_modify, hi, Function.comp_def, h]
    · simp [Array.getElem?_modify, hi]
  simp [modifyNode, map, hnodes]

end Graph

namespace Flow

/-- A control-flow graph with other numbers. -/
def renumber (number : Var → Nat) (flow : Flow) : Flow :=
  { flow with
    graph := flow.graph.map (Block.renumber number) (Guard.renumber number)
    result := flow.result.map (Var.renumber number)
    receiver := flow.receiver.map (Var.renumber number)
    params := flow.params.map (Var.renumber number)
    locals := flow.locals.map (Var.renumber number) }

variable (flow : Flow)

/-- The lines of a block do not show numbers. -/
theorem blockLines_renumber (id : BlockId) (block : Block) :
    (flow.renumber number).blockLines id (block.renumber number) = flow.blockLines id block := by
  have hstmts : ((block.renumber number).stmts.toList.map fun stmt => "    " ++ stmt.text) =
      block.stmts.toList.map fun stmt => "    " ++ stmt.text := by
    simp [Block.renumber, Stmt.text_renumber, Function.comp_def]
  unfold blockLines
  rw [hstmts]
  congr 1
  change ((flow.graph.map (Block.renumber number) (Guard.renumber number)).outgoing id).map _ = _
  rw [Graph.outgoing_map, List.map_map]
  refine List.map_congr_left fun entry _ => ?_
  change "    goto " ++ (((flow.graph.map (Block.renumber number) (Guard.renumber number)).node?
    entry.2.target).map Block.label).getD "?" ++ _ = _
  rw [Graph.node?_map, Option.map_map]
  cases hguard : entry.2.payload with
  | none => simp [Link.map, Guard.renumber, hguard, Function.comp_def, Block.renumber]
  | some guard =>
    simp [Link.map, Guard.renumber, hguard, Function.comp_def, Block.renumber, Expr.text_renumber]

/-- Numbers are not printed. -/
theorem text_renumber : (flow.renumber number).text = flow.text := by
  have hlines : (flow.renumber number).graph.nodeList.flatMap
      (fun entry => (flow.renumber number).blockLines entry.1 entry.2) =
      flow.graph.nodeList.flatMap fun entry => flow.blockLines entry.1 entry.2 := by
    change ((flow.graph.map (Block.renumber number) (Guard.renumber number)).nodeList.flatMap _) = _
    rw [Graph.nodeList_map, List.flatMap_map]
    congr 1
    funext entry
    exact flow.blockLines_renumber entry.1 entry.2
  exact congrArg (fun lines => String.join (lines.map (· ++ "\n"))) hlines

/-- The drawing of a block does not show numbers. -/
theorem dotNode_renumber (id : BlockId) (block : Block) :
    dotNode id (block.renumber number) = dotNode id block := by
  have hstmts : ((block.renumber number).stmts.toList.map fun stmt => Text.label stmt.text ++ "\\l") =
      block.stmts.toList.map fun stmt => Text.label stmt.text ++ "\\l" := by
    simp [Block.renumber, Stmt.text_renumber, Function.comp_def]
  unfold dotNode dotLabel
  rw [hstmts]
  rfl

/-- The drawing of an edge does not show numbers. -/
theorem dotEdge_renumber (link : Link Guard) :
    dotEdge (link.map (Guard.renumber number)) = dotEdge link := by
  cases hguard : link.payload with
  | none => simp [dotEdge, Link.map, Guard.renumber, hguard]
  | some guard => simp [dotEdge, Link.map, Guard.renumber, hguard, Expr.text_renumber]

/-- Numbers are not drawn. -/
theorem dot_renumber (title : Option String) : (flow.renumber number).dot title = flow.dot title := by
  have hnodes : ((flow.renumber number).graph.nodeList.map fun entry => dotNode entry.1 entry.2) =
      flow.graph.nodeList.map fun entry => dotNode entry.1 entry.2 := by
    change ((flow.graph.map (Block.renumber number) (Guard.renumber number)).nodeList.map _) = _
    rw [Graph.nodeList_map, List.map_map]
    exact List.map_congr_left fun entry _ => dotNode_renumber entry.1 entry.2
  have hedges : ((flow.renumber number).graph.edgeList.map fun entry => dotEdge entry.2) =
      flow.graph.edgeList.map fun entry => dotEdge entry.2 := by
    change ((flow.graph.map (Block.renumber number) (Guard.renumber number)).edgeList.map _) = _
    rw [Graph.edgeList_map, List.map_map]
    exact List.map_congr_left fun entry _ => dotEdge_renumber entry.2
  have hlines : (flow.renumber number).dotLines title = flow.dotLines title := by
    change dotHeader title ++
      (flow.renumber number).graph.nodeList.map (fun entry => dotNode entry.1 entry.2) ++
      [""] ++ (flow.renumber number).graph.edgeList.map (fun entry => dotEdge entry.2) ++ ["\x7d"] = _
    rw [hnodes, hedges]
    rfl
  unfold dot
  rw [hlines]

end Flow

/-! ### Drafts -/

/-- Which variables are made does not depend on the numbers that are left. -/
theorem VarSupply.map_renumber_mintAll (h : NumberAlike number number') (supply supply' : VarSupply)
    {requests : List (String × Ty × VarRole)} (hroles : ∀ request ∈ requests, request.2.2 ≠ .declared) :
    (supply.mintAll requests).1.map (Var.renumber number) =
      (supply'.mintAll requests).1.map (Var.renumber number') := by
  induction requests generalizing supply supply' with
  | nil => rfl
  | cons request rest ih =>
    obtain ⟨name, ty, role⟩ := request
    have hfirst := h.renumber supply.next supply'.next name ty (hroles _ List.mem_cons_self)
    have hrest := ih ⟨supply.next + 1⟩ ⟨supply'.next + 1⟩ fun request hrequest =>
      hroles request (List.mem_cons_of_mem _ hrequest)
    exact List.cons_eq_cons.mpr ⟨hfirst, hrest⟩

namespace Draft

/-- A draft with other numbers. -/
def renumber (number : Var → Nat) (d : Draft) : Draft :=
  { d with
    graph := d.graph.map (Block.renumber number) (Guard.renumber number)
    result := d.result.map (Var.renumber number)
    receiver := d.receiver.map (Var.renumber number)
    params := d.params.map (Var.renumber number)
    locals := d.locals.map (Var.renumber number)
    temps := d.temps.map (Var.renumber number)
    exception := d.exception.map (Var.renumber number) }

/-- The initial graph has no numbers. -/
theorem initialGraph_map :
    initialGraph.map (Block.renumber number) (Guard.renumber number) = initialGraph := by
  simp [initialGraph, Graph.map, Graph.addNode, Graph.empty, Block.renumber_new]

/-- The draft of a body starts with the same variables whatever numbers are left, if its locals do. -/
theorem renumber_start (h : NumberAlike number number') (body : Body) (supply supply' : VarSupply)
    (hlocals : (start body supply).1.locals.map (Var.renumber number) =
      (start body supply').1.locals.map (Var.renumber number')) :
    (start body supply).1.renumber number = (start body supply').1.renumber number' := by
  have hhead (s s' : VarSupply) (requests : List (String × Ty × VarRole))
      (hroles : ∀ request ∈ requests, request.2.2 ≠ .declared) :
      (s.mintAll requests).1.head?.map (Var.renumber number) =
        (s'.mintAll requests).1.head?.map (Var.renumber number') := by
    rw [← List.head?_map, ← List.head?_map, VarSupply.map_renumber_mintAll h s s' hroles]
  have hall (s s' : VarSupply) (requests : List (String × Ty × VarRole))
      (hroles : ∀ request ∈ requests, request.2.2 ≠ .declared) :
      (s.mintAll requests).1.toArray.map (Var.renumber number) =
        (s'.mintAll requests).1.toArray.map (Var.renumber number') := by
    rw [List.map_toArray, List.map_toArray, VarSupply.map_renumber_mintAll h s s' hroles]
  unfold renumber start at *
  dsimp only at hlocals ⊢
  congr 1
  · rw [initialGraph_map, initialGraph_map]
  · refine hhead _ _ _ fun request hrequest => ?_
    split at hrequest
    · cases hrequest
    · rw [List.mem_singleton.mp hrequest]
      simp
  · refine hhead _ _ _ fun request hrequest => ?_
    split at hrequest
    · cases hrequest
    · rw [List.mem_singleton.mp hrequest]
      simp
  · refine hall _ _ _ fun request hrequest => ?_
    obtain ⟨param, -, rfl⟩ := List.mem_map.mp hrequest
    simp
  · simp

variable (d : Draft)

/-- A block may be made before or after the variables are numbered. -/
theorem renumber_blockAt (index : Nat) :
    (d.renumber number).blockAt index = ((d.blockAt index).1, (d.blockAt index).2.renumber number) := by
  have hknown : (d.renumber number).blockAt? index = d.blockAt? index := rfl
  unfold blockAt
  rw [hknown]
  cases d.blockAt? index with
  | some id => rfl
  | none =>
    have hadd := Graph.map_addNode (Block.renumber number) (Guard.renumber number) d.graph
      (Block.new s!"block{d.graph.nodeCount - 1}")
    simp only [addBlock, renumber, Graph.nodeCount_map] at hadd ⊢
    rw [Block.renumber_new] at hadd
    rw [hadd]

/-- An edge may be added before or after the variables are numbered. -/
theorem renumber_connect (source target : BlockId) (guard : Guard) :
    (d.renumber number).connect source target (guard.renumber number) =
      (d.connect source target guard).map (renumber number) := by
  have hlabel (id : BlockId) : (d.renumber number).labelOf id = d.labelOf id := by
    change (((d.graph.map (Block.renumber number) (Guard.renumber number)).node? id).map
      Block.label).getD "?" = _
    rw [Graph.node?_map, Option.map_map]
    rfl
  have hfind : (d.renumber number).graph.findEdge source target = d.graph.findEdge source target :=
    Graph.findEdge_map ..
  have hadd : (d.renumber number).graph.addEdge source target (guard.renumber number) = _ :=
    Graph.map_addEdge ..
  unfold connect
  rw [hlabel, hlabel, hfind, hadd]
  by_cases hedge : (d.graph.findEdge source target).isSome
  · simp only [hedge, if_true]
    rfl
  · simp only [hedge]
    cases d.graph.addEdge source target guard <;> rfl

/-- A statement may be appended before or after the variables are numbered. -/
theorem renumber_append (block : BlockId) (stmt : Stmt) :
    (d.renumber number).append block (stmt.renumber number) =
      (d.append block stmt).map (renumber number) := by
  have hpush := Graph.map_modifyNode (Block.renumber number) (Guard.renumber number) d.graph block
    (·.push stmt) (·.push (stmt.renumber number)) fun b => by
      simp [Block.push, Block.renumber]
  unfold append
  simp only [renumber, Graph.hasNode_map, Graph.nodeCount_map, hpush]
  by_cases hnode : d.graph.hasNode block
  · simp only [hnode, if_true]
    rfl
  · simp only [hnode]
    rfl

section

variable {d} {e : Draft} (h : d.renumber number = e.renumber number')

include h

/-- Drafts that differ in numbers only have the same body. -/
theorem body_of_renumber : d.body = e.body :=
  show (d.renumber number).body = (e.renumber number').body by rw [h]

/-- Drafts that differ in numbers only are at the same location. -/
theorem location_of_renumber : d.location = e.location :=
  show (d.renumber number).location = (e.renumber number').location by rw [h]

/-- Drafts that differ in numbers only are at the same site. -/
theorem site_of_renumber : d.site = e.site :=
  show (d.renumber number).site = (e.renumber number').site by rw [h]

/-- Drafts that differ in numbers only have the same blocks. -/
theorem blockAt?_of_renumber (index : Nat) : d.blockAt? index = e.blockAt? index :=
  show (d.renumber number).blockAt? index = (e.renumber number').blockAt? index by rw [h]

/-- Temporaries are named by how many there are. -/
theorem addTemp_of_renumber (hnumber : NumberAlike number number') (stem : String) (ty : Ty)
    (supply supply' : VarSupply) :
    (d.addTemp stem ty supply).1.renumber number = (e.addTemp stem ty supply').1.renumber number' ∧
      (d.addTemp stem ty supply).2.1.renumber number =
        (e.addTemp stem ty supply').2.1.renumber number' := by
  have hsize : d.temps.size = e.temps.size := by
    have htemps := congrArg (fun d => d.temps.size) h
    simpa only [renumber, Array.size_map] using htemps
  have hv : (d.addTemp stem ty supply).1.renumber number =
      (e.addTemp stem ty supply').1.renumber number' := by
    unfold addTemp
    rw [hsize]
    exact hnumber.renumber _ _ _ ty (by simp)
  have hpush (number : Var → Nat) (d : Draft) (supply : VarSupply) :
      (d.addTemp stem ty supply).2.1.renumber number =
        { d.renumber number with
          temps := (d.renumber number).temps.push ((d.addTemp stem ty supply).1.renumber number) } := by
    simp [addTemp, renumber, VarSupply.mint]
  exact ⟨hv, by rw [hpush, hpush, h, hv]⟩

/-- The caught exception is made by the first request for it. -/
theorem caughtException_of_renumber (hnumber : NumberAlike number number') (ty : Ty)
    (supply supply' : VarSupply) :
    (d.caughtException ty supply).1.renumber number =
        (e.caughtException ty supply').1.renumber number' ∧
      (d.caughtException ty supply).2.1.renumber number =
        (e.caughtException ty supply').2.1.renumber number' := by
  have hmap : d.exception.map (Var.renumber number) = e.exception.map (Var.renumber number') :=
    show (d.renumber number).exception = (e.renumber number').exception by rw [h]
  unfold caughtException
  cases hd : d.exception with
  | some v =>
    obtain ⟨w, hw, hvw⟩ := Option.map_eq_some_iff.mp (hmap.symm.trans (by rw [hd]; rfl))
    rw [hw]
    exact ⟨hvw.symm, h⟩
  | none =>
    have he : e.exception = none := by simpa [hd] using hmap.symm
    have hv : Var.renumber number ⟨supply.next, "$exception", ty, .exception⟩ =
        Var.renumber number' ⟨supply'.next, "$exception", ty, .exception⟩ :=
      hnumber.renumber _ _ _ ty (by simp)
    rw [he]
    refine ⟨hv, ?_⟩
    change { d.renumber number with
        exception := some (Var.renumber number ⟨supply.next, "$exception", ty, .exception⟩) } =
      { e.renumber number' with
        exception := some (Var.renumber number' ⟨supply'.next, "$exception", ty, .exception⟩) }
    rw [h, hv]

end

/-- The finished graph of a draft with other numbers is the finished graph with other numbers. -/
theorem renumber_finish : (d.renumber number).finish = d.finish.renumber number := by
  simp only [finish, renumber, Flow.renumber, Array.map_append]
  cases d.exception <;> simp

end Draft

end GuardedFlow
