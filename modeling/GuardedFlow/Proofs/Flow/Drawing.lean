import GuardedFlow.Flow.Text
import GuardedFlow.Proofs.Text.Line

/-!
# Reading drawings

A drawing has a line for its title, for each block and for each edge, between fixed ones. `Flow.legible`
concludes that it is read as it was written: whatever the names in it are, its lines are these, each label
is read as one piece of its line, and the label of a block shows the label and the statements of the block.
-/

namespace GuardedFlow

open Text (Plain Content Joinable lineOf)

namespace Flow

/-- The pieces of the line of a title. -/
def titlePieces (title : String) : List String := ["    label=", Text.label title, ";"]

/-- The pieces of the line of a block. -/
def nodePieces (id : BlockId) (block : Block) : List String :=
  [s!"    B{id} [label=", dotLabel id block, s!"{dotStyle id}];"]

/-- The pieces of the line of an edge. -/
def edgePieces (link : Link Guard) : List String :=
  match link.payload with
  | some guard => [s!"    B{link.source} -> B{link.target} [label=", Text.label guard.text, "];"]
  | none => [s!"    B{link.source} -> B{link.target};"]

/-- The pieces of the lines above the blocks. -/
def headPieces (title : Option String) : List (List String) :=
  [["digraph CFG \x7b"]] ++ (title.map titlePieces).toList ++
    [["    labelloc=t;"], ["    node [shape=box, fontname=", "Courier", ", fontsize=10];"],
      ["    edge [fontname=", "Courier", ", fontsize=9];"], [""]]

/-- The pieces of the lines of a drawing: fixed lines, and between them a line for the title if there is
one, a line for each block and a line for each edge. -/
def dotPieces (flow : Flow) (title : Option String) : List (List String) :=
  headPieces title ++ flow.graph.nodeList.map (fun (id, block) => nodePieces id block) ++ [[""]] ++
    flow.graph.edgeList.map (fun (_, link) => edgePieces link) ++ [["\x7d"]]

/-- What a block shows in a drawing: its label with its role, and its statements. -/
def shownRows (id : BlockId) (block : Block) : List String :=
  (Text.dropReturns block.label ++ roleText id) ::
    block.stmts.toList.map (fun stmt => Text.dropReturns stmt.text)

/-- The line of a title. -/
theorem lineOf_titlePieces (title : String) :
    lineOf (titlePieces title) = s!"    label=\"{Text.label title}\";" := by
  apply String.toList_inj.mp
  simp [lineOf, titlePieces, toString]

/-- The line of a block. -/
theorem lineOf_nodePieces (id : BlockId) (block : Block) :
    lineOf (nodePieces id block) = dotNode id block := by
  apply String.toList_inj.mp
  simp [lineOf, nodePieces, dotNode, toString]

/-- The line of an edge. -/
theorem lineOf_edgePieces (link : Link Guard) : lineOf (edgePieces link) = dotEdge link := by
  apply String.toList_inj.mp
  unfold edgePieces dotEdge
  cases link.payload <;> simp [lineOf, toString]

/-- The lines in front of the blocks. -/
theorem lineOf_headPieces (title : Option String) : (headPieces title).map lineOf = dotHeader title := by
  cases title with
  | none => rfl
  | some title =>
    simp only [headPieces, dotHeader, Option.map_some, Option.toList_some, List.map_append,
      List.map_cons, lineOf_titlePieces]
    rfl

/-- The lines of a drawing are joined from their pieces. -/
theorem map_lineOf_dotPieces (flow : Flow) (title : Option String) :
    (flow.dotPieces title).map lineOf = flow.dotLines title := by
  simp only [dotPieces, dotLines, List.map_append, List.map_map, Function.comp_def,
    lineOf_headPieces, lineOf_nodePieces, lineOf_edgePieces]
  rfl

/-- The style of a block has no quotes. -/
theorem plain_dotStyle (id : BlockId) : Plain (dotStyle id) := by
  unfold dotStyle
  split_ifs <;> decide

/-- The role of a block has no quotes. -/
theorem plain_roleText (id : BlockId) : Plain (roleText id) := by
  unfold roleText
  split_ifs <;> decide

/-- The role of a block has no backslashes. -/
theorem not_mem_roleText (id : BlockId) : '\\' ∉ (roleText id).toList := by
  unfold roleText
  split_ifs <;> decide

/-- The label of a block is made of labels of texts, its role and marks. -/
theorem content_dotLabel (id : BlockId) (block : Block) : Content (dotLabel id block) := by
  have hrole : Content (roleText id) := .of_plain (not_mem_roleText id) (plain_roleText id)
  refine (((Content.label block.label).append hrole).append .mark).append (.join fun s hs => ?_)
  obtain ⟨stmt, -, rfl⟩ := List.mem_map.mp hs
  exact (Content.label stmt.text).append .mark

/-- The label of a block is read row by row. -/
theorem unlabelRows_dotLabel (id : BlockId) (block : Block) :
    Text.unlabelRows (dotLabel id block) = shownRows id block ++ [""] := by
  have hjoin : (block.stmts.toList.map fun stmt => Text.label stmt.text ++ "\\l") =
      (block.stmts.toList.map Stmt.text).map fun s => Text.label s ++ "\\l" := by
    rw [List.map_map]
    rfl
  rw [dotLabel, Text.unlabelRows_marked _ _ _ (not_mem_roleText id), hjoin, Text.unlabelRows_join,
    List.map_map]
  rfl

/-- The pieces of a title are joinable. -/
theorem joinable_titlePieces (title : String) : Joinable (titlePieces title) :=
  .quoted (by decide) (.label title) (.plain (by decide))

/-- The pieces of a block are joinable. -/
theorem joinable_nodePieces (id : BlockId) (block : Block) : Joinable (nodePieces id block) := by
  have hlead : Plain s!"    B{id} [label=" :=
    Text.plain_append.mpr ⟨Text.plain_append.mpr ⟨by decide, Text.plain_toString id⟩, by decide⟩
  have htail : Plain s!"{dotStyle id}];" :=
    Text.plain_append.mpr ⟨plain_dotStyle id, by decide⟩
  exact .quoted hlead (content_dotLabel id block) (.plain htail)

/-- The pieces of an edge are joinable. -/
theorem joinable_edgePieces (link : Link Guard) : Joinable (edgePieces link) := by
  have hends : Plain s!"    B{link.source} -> B{link.target}" := by
    simp only [Text.plain_append]
    exact ⟨⟨⟨by decide, Text.plain_toString _⟩, by decide⟩, Text.plain_toString _⟩
  unfold edgePieces
  cases link.payload with
  | none => exact .plain (Text.plain_append.mpr ⟨hends, by decide⟩)
  | some guard =>
    exact .quoted (Text.plain_append.mpr ⟨hends, by decide⟩) (.label guard.text) (.plain (by decide))

/-- The pieces in front of the blocks are joinable. -/
theorem joinable_headPieces (title : Option String) : ∀ parts ∈ headPieces title, Joinable parts := by
  have hfont : Content "Courier" := .of_plain (by decide) (by decide)
  intro parts hparts
  simp only [headPieces, List.mem_append, List.mem_cons, List.not_mem_nil, or_false, Option.mem_toList,
    Option.map_eq_some_iff] at hparts
  obtain (rfl | ⟨title, -, rfl⟩) | rfl | rfl | rfl | rfl := hparts
  · exact .plain (by decide)
  · exact joinable_titlePieces title
  · exact .plain (by decide)
  · exact .quoted (by decide) hfont (.plain (by decide))
  · exact .quoted (by decide) hfont (.plain (by decide))
  · exact .plain (by decide)

/-- The pieces of a whole drawing are joinable. -/
theorem joinable_dotPieces (flow : Flow) (title : Option String) :
    ∀ parts ∈ flow.dotPieces title, Joinable parts := by
  intro parts hparts
  simp only [dotPieces, List.mem_append, List.mem_map, List.mem_singleton] at hparts
  obtain (((hhead | ⟨node, -, rfl⟩) | rfl) | ⟨edge, -, rfl⟩) | rfl := hparts
  · exact joinable_headPieces title parts hhead
  · exact joinable_nodePieces node.1 node.2
  · exact .plain (by decide)
  · exact joinable_edgePieces edge.2
  · exact .plain (by decide)

/-- The written lines of a drawing are its pieces, joined by quotes and ended by line feeds. -/
theorem dot_eq_join (flow : Flow) (title : Option String) :
    flow.dot title = String.join (((flow.dotPieces title).map lineOf).map (· ++ "\n")) := by
  rw [map_lineOf_dotPieces, dot]

/-- A drawing is read as it was written. -/
structure Legible (flow : Flow) (title : Option String) : Prop where
  /-- Lines end only where a line was written. -/
  lines : Text.lines (flow.dot title) = (flow.dotPieces title).map lineOf ++ [""]
  /-- Quotes on a line open and close only where a piece was put in quotes. -/
  pieces : ∀ parts ∈ flow.dotPieces title, Text.pieces (lineOf parts) = some parts
  /-- The label of a block shows what the block holds. -/
  rows : ∀ id block, (id, block) ∈ flow.graph.nodeList →
    Text.unlabelRows (dotLabel id block) = shownRows id block ++ [""]

/-- Whatever the names in a control-flow graph are, labels keep them, and the drawing is read as it was
written. -/
theorem legible (flow : Flow) (title : Option String) :
    (∀ s, Text.Labelled s) ∧ flow.Legible title := by
  have hjoinable := joinable_dotPieces flow title
  refine ⟨Text.labelled, ⟨?lines, ?pieces, ?rows⟩⟩
  case lines =>
    rw [dot_eq_join]
    apply Text.lines_join
    intro line hline
    obtain ⟨parts, hparts, rfl⟩ := List.mem_map.mp hline
    exact (hjoinable parts hparts).unbroken
  case pieces => exact fun parts hparts => (hjoinable parts hparts).pieces_lineOf
  case rows => exact fun id block _ => unlabelRows_dotLabel id block

end Flow

end GuardedFlow
