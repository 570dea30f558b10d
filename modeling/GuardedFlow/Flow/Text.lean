import GuardedFlow.Flow.Basic
import GuardedFlow.Text.Label

/-!
# The texts of a control-flow graph

`Flow.text` lists the blocks with their statements and their ways out. `Flow.dot` draws the graph in
the DOT language, one line for every block and one for every edge, both in order of creation.
-/

namespace GuardedFlow.Flow

/-- The lines of a block: its label, its statements, and where control goes from it. -/
def blockLines (flow : Flow) (id : BlockId) (block : Block) : List String :=
  (block.label ++ ":") ::
    block.stmts.toList.map (fun stmt => "    " ++ stmt.text) ++
    (flow.graph.outgoing id).map fun (_, link) =>
      let target := ((flow.graph.node? link.target).map Block.label).getD "?"
      "    goto " ++ target ++
        match link.payload with
        | some guard => " if " ++ guard.text
        | none => ""

/-- The listing of a control-flow graph. -/
def text (flow : Flow) : String :=
  String.join <| (flow.graph.nodeList.flatMap fun (id, block) => flow.blockLines id block).map
    (· ++ "\n")

/-- What follows the label of a block in a drawing. -/
def roleText (id : BlockId) : String :=
  (if id = entry then " (entry)" else "") ++ (if id = sink then " (sink)" else "")

/-- The label of a block in a drawing; every line of it is set to the left. -/
def dotLabel (id : BlockId) (block : Block) : String :=
  Text.label block.label ++ roleText id ++ "\\l" ++
    String.join (block.stmts.toList.map fun stmt => Text.label stmt.text ++ "\\l")

/-- The attributes by which entry and sink stand out in a drawing. -/
def dotStyle (id : BlockId) : String :=
  if id = entry then ", style=filled, fillcolor=lightgreen"
  else if id = sink then ", style=filled, fillcolor=lightcoral"
  else ""

/-- The line of a block in a drawing. -/
def dotNode (id : BlockId) (block : Block) : String :=
  s!"    B{id} [label=\"{dotLabel id block}\"{dotStyle id}];"

/-- The line of an edge in a drawing. -/
def dotEdge (link : Link Guard) : String :=
  match link.payload with
  | some guard =>
    s!"    B{link.source} -> B{link.target} [label=\"{Text.label guard.text}\"];"
  | none => s!"    B{link.source} -> B{link.target};"

/-- The lines above the blocks of a drawing. -/
def dotHeader (title : Option String) : List String :=
  ["digraph CFG \x7b"] ++
    (title.map fun title => s!"    label=\"{Text.label title}\";").toList ++
    ["    labelloc=t;", "    node [shape=box, fontname=\"Courier\", fontsize=10];",
      "    edge [fontname=\"Courier\", fontsize=9];", ""]

/-- The lines of a drawing. -/
def dotLines (flow : Flow) (title : Option String) : List String :=
  dotHeader title ++
    flow.graph.nodeList.map (fun (id, block) => dotNode id block) ++ [""] ++
    flow.graph.edgeList.map (fun (_, link) => dotEdge link) ++ ["\x7d"]

/-- The drawing of a control-flow graph in the DOT language. -/
def dot (flow : Flow) (title : Option String) : String :=
  String.join ((flow.dotLines title).map (· ++ "\n"))

end GuardedFlow.Flow
