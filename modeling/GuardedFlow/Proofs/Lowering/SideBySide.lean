import Mathlib.Tactic.Choose
import GuardedFlow.Proofs.Lowering.Variables
import GuardedFlow.Proofs.Program.SideBySide

/-!
# Two lowerings side by side

The same body is lowered in two programs. `Lower.Alike` relates two steps that run alike from states
that differ in numbers and in the globals of one program only: they answer and fail alike, up to
numbers, unless a global clashes. It is closed under sequencing, and the primitive steps of a lowering
run alike.
-/

namespace GuardedFlow

namespace Counterparts

variable {α γ : Type} (sides : Sides)

/-- If all values of a list have counterparts, so has the list. -/
theorem exists_list {f f' : α → γ} (h : ∀ a, ∃ b, f a = f' b) (as : List α) :
    ∃ bs : List α, as.map f = bs.map f' := by
  choose g hg using h
  exact ⟨as.map g, by simp [hg]⟩

/-- Counterparts of the entries make up a counterpart of an array. -/
theorem exists_array {f f' : α → γ} (h : ∀ a, ∃ b, f a = f' b) (as : Array α) :
    ∃ bs : Array α, as.map f = bs.map f' := by
  choose g hg using h
  exact ⟨as.map g, by simp [Function.comp_def, hg]⟩

/-- A counterpart of the entry makes up one of an option. -/
theorem exists_option {f f' : α → γ} (h : ∀ a, ∃ b, f a = f' b) (a : Option α) :
    ∃ b : Option α, a.map f = b.map f' := by
  choose g hg using h
  have hcomp : f = f' ∘ g := funext hg
  exact ⟨a.map g, by rw [Option.map_map, hcomp]⟩

mutual

/-- Every expression has a counterpart on the other side. -/
theorem exists_expr : ∀ e : Expr, ∃ e', Expr.renumber sides.number e = Expr.renumber sides.number' e'
  | .var v =>
    let ⟨w, h⟩ := sides.total v
    ⟨.var w, by simp only [Expr.renumber, h]⟩
  | .lit value => ⟨.lit value, rfl⟩
  | .unary op e =>
    let ⟨e', h⟩ := exists_expr e
    ⟨.unary op e', by simp only [Expr.renumber, h]⟩
  | .binary op e k =>
    let ⟨e', h⟩ := exists_expr e
    let ⟨k', hk⟩ := exists_expr k
    ⟨.binary op e' k', by simp only [Expr.renumber, h, hk]⟩
  | .cell map keys =>
    let ⟨map', h⟩ := sides.total map
    let ⟨keys', hkeys⟩ := exists_exprs keys
    ⟨.cell map' keys', by simp only [Expr.renumber, h, hkeys]⟩
  | .alloc ty => ⟨.alloc ty, rfl⟩

/-- Every list of expressions has a counterpart on the other side. -/
theorem exists_exprs : ∀ es : List Expr,
    ∃ es', Expr.renumberAll sides.number es = Expr.renumberAll sides.number' es'
  | [] => ⟨[], rfl⟩
  | e :: rest =>
    let ⟨e', h⟩ := exists_expr e
    let ⟨rest', hrest⟩ := exists_exprs rest
    ⟨e' :: rest', by simp only [Expr.renumberAll, h, hrest]⟩

end

/-- Every statement has a counterpart on the other side. -/
theorem exists_stmt (s : Stmt) : ∃ s', Stmt.renumber sides.number s = Stmt.renumber sides.number' s' := by
  have hkind : ∃ kind, s.kind.renumber sides.number = StmtKind.renumber sides.number' kind := by
    cases s.kind with
    | assign target value =>
      obtain ⟨target', htarget⟩ := exists_expr sides target
      obtain ⟨value', hvalue⟩ := exists_expr sides value
      exact ⟨.assign target' value', by simp only [StmtKind.renumber, htarget, hvalue]⟩
    | assert condition =>
      obtain ⟨condition', h⟩ := exists_expr sides condition
      exact ⟨.assert condition', by simp only [StmtKind.renumber, h]⟩
    | assume condition =>
      obtain ⟨condition', h⟩ := exists_expr sides condition
      exact ⟨.assume condition', by simp only [StmtKind.renumber, h]⟩
    | call callee args result =>
      obtain ⟨args', hargs⟩ := exists_list (exists_expr sides) args
      obtain ⟨result', hresult⟩ := exists_option (exists_expr sides) result
      exact ⟨.call callee args' result', by simp only [StmtKind.renumber, hargs, hresult]⟩
  obtain ⟨kind, h⟩ := hkind
  exact ⟨⟨s.location, kind⟩, by simp only [Stmt.renumber, h]⟩

/-- Every graph has a counterpart on the other side. -/
theorem exists_graph (g : Graph Block Guard) : ∃ g' : Graph Block Guard,
    g.map (Block.renumber sides.number) (Guard.renumber sides.number) =
      g'.map (Block.renumber sides.number') (Guard.renumber sides.number') := by
  have hblock (block : Block) :
      ∃ block', Block.renumber sides.number block = Block.renumber sides.number' block' := by
    obtain ⟨stmts, h⟩ := exists_array (exists_stmt sides) block.stmts
    exact ⟨⟨block.label, stmts⟩, by simp only [Block.renumber, h]⟩
  have hlink (link : Link Guard) : ∃ link' : Link Guard,
      link.map (Guard.renumber sides.number) = link'.map (Guard.renumber sides.number') := by
    obtain ⟨payload, h⟩ := exists_option (exists_expr sides) link.payload
    exact ⟨⟨link.source, link.target, payload⟩, by simp only [Link.map, Guard.renumber, h]⟩
  obtain ⟨nodes, hnodes⟩ := exists_array hblock g.nodes
  obtain ⟨edges, hedges⟩ := exists_array hlink g.edges
  exact ⟨⟨nodes, edges, g.leaving, g.entering⟩, by simp only [Graph.map, hnodes, hedges]⟩

/-- Every draft has a counterpart on the other side. -/
theorem exists_draft (d : Draft) :
    ∃ d', Draft.renumber sides.number d = Draft.renumber sides.number' d' := by
  obtain ⟨graph, hgraph⟩ := exists_graph sides d.graph
  obtain ⟨result, hresult⟩ := exists_option sides.total d.result
  obtain ⟨receiver, hreceiver⟩ := exists_option sides.total d.receiver
  obtain ⟨params, hparams⟩ := exists_array sides.total d.params
  obtain ⟨locals, hlocals⟩ := exists_array sides.total d.locals
  obtain ⟨temps, htemps⟩ := exists_array sides.total d.temps
  obtain ⟨exception, hexception⟩ := exists_option sides.total d.exception
  exact ⟨{ d with graph, result, receiver, params, locals, temps, exception }, by
    simp only [Draft.renumber, hgraph, hresult, hreceiver, hparams, hlocals, htemps, hexception]⟩

/-- What has counterparts on one side, whichever sides there are, has them on both. -/
theorem of_left {view : (Var → Nat) → α → γ}
    (h : ∀ sides : Sides, ∀ a, ∃ b, view sides.number a = view sides.number' b) :
    Counterparts sides view :=
  ⟨h sides, fun b => (h sides.swap b).imp fun _ h => h.symm⟩

/-- Expressions have counterparts. -/
instance expr : Counterparts sides Expr.renumber := of_left sides exists_expr

/-- Lists of expressions have counterparts. -/
instance exprs : Counterparts sides fun number => List.map (Expr.renumber number) :=
  of_left sides fun sides => exists_list (exists_expr sides)

/-- Statements have counterparts. -/
instance stmt : Counterparts sides Stmt.renumber := of_left sides exists_stmt

/-- Drafts have counterparts. -/
instance draft : Counterparts sides Draft.renumber := of_left sides exists_draft

/-- States have counterparts, up to their programs. -/
instance state :
    Counterparts sides fun number (s : LoweringState) => (s.draft.renumber number, s.openBlock) :=
  of_left sides fun sides s =>
    let ⟨d, h⟩ := exists_draft sides s.draft
    ⟨{ s with draft := d }, by simp only [h]⟩

end Counterparts

/-- Two states of a lowering that differ in numbers, and in what akin programs may differ in. -/
structure LoweringState.Akin (sides : Sides) (s t : LoweringState) : Prop where
  program : s.program.Akin sides t.program
  draft : s.draft.renumber sides.number = t.draft.renumber sides.number'
  openBlock : s.openBlock = t.openBlock

namespace Lower

/-- The ends of two steps that started from akin states. -/
abbrev Runs {α γ : Type} (sides : Sides) (view : (Var → Nat) → α → γ) :
    EStateM.Result Error LoweringState α → EStateM.Result Error LoweringState α → Prop :=
  GuardedFlow.Runs sides LoweringState.program (LoweringState.Akin sides) view

/-- Two steps that run alike from akin states. Their answers are compared as `view` shows them. -/
structure Alike {α γ : Type} (sides : Sides) (view : (Var → Nat) → α → γ) (m m' : Lower α) : Prop where
  left : Keeps m
  right : Keeps m'
  runs : ∀ s t, s.Akin sides t → Runs sides view (m s) (m' t)

variable {α β γ δ : Type} {sides : Sides}

/-- A step that keeps the draft in order continues it, whether it answers or fails. -/
theorem Keeps.continues {m : Lower α} (h : Keeps m) (s : LoweringState) :
    Continues s (stateAfter (m s)) := by
  cases hs : m s with
  | ok a t => exact h.ok hs
  | error e t => exact (h.error hs).1

namespace Alike

variable {view : (Var → Nat) → α → γ} {m m' : Lower α}

/-- Equal answers are alike. -/
theorem pure {a b : α} (h : view sides.number a = view sides.number' b) :
    Alike sides view (pure a) (pure b) :=
  ⟨.pure a, .pure b, fun _ _ hst => .answers h hst⟩

/-- Steps one after another. A clash in the first step stays one, whatever the other side goes on
with. -/
theorem bind [Counterparts sides view] {view' : (Var → Nat) → β → δ} {f f' : α → Lower β}
    (hm : Alike sides view m m')
    (hf : ∀ a b, view sides.number a = view sides.number' b → Alike sides view' (f a) (f' b)) :
    Alike sides view' (m >>= f) (m' >>= f') where
  left := hm.left.bind fun a =>
    let ⟨b, h⟩ := Counterparts.left a
    (hf a b h).left
  right := hm.right.bind fun b =>
    let ⟨a, h⟩ := Counterparts.right b
    (hf a b h).right
  runs s t hst := by
    have hruns := hm.runs s t hst
    rw [bind_run, bind_run]
    generalize m s = r at hruns
    generalize m' t = r' at hruns
    cases hruns with
    | @answers a b s t hview hst => exact (hf a b hview).runs s t hst
    | fails hst => exact .fails hst
    | left hclash =>
      refine .left (hclash.grow (.refl _) ?_)
      cases r' with
      | ok b t =>
        obtain ⟨a, h⟩ : ∃ a, view sides.number a = view sides.number' b := Counterparts.right b
        exact ((hf a b h).right.continues t).program
      | error e t => exact .refl _
    | right hclash =>
      refine .right (hclash.grow ?_ (.refl _))
      cases r with
      | ok a s =>
        obtain ⟨b, h⟩ : ∃ b, view sides.number a = view sides.number' b := Counterparts.left a
        exact ((hf a b h).left.continues s).program
      | error e s => exact .refl _

/-- The current instruction is the same on both sides. -/
theorem fail (fault : Fault) (h : fault.isConflict = false) :
    Alike sides view (fail fault) (fail fault) :=
  ⟨.fail fault h, .fail fault h, fun s t hst => by
    have hsite := Draft.site_of_renumber hst.draft
    change Runs sides view (.error (.lowering fault s.draft.site) s)
      (.error (.lowering fault t.draft.site) t)
    rw [hsite]
    exact .fails hst⟩

/-- Both runs read the same draft, under their own numbers. -/
theorem draft : Alike sides Draft.renumber draft draft :=
  ⟨.draft, .draft, fun _ _ hst => .answers hst.draft hst⟩

/-- Both programs have the same configuration. -/
theorem program : Alike sides (fun _ => Program.config) program program :=
  ⟨fun s => .refl s, fun s => .refl s, fun _ _ hst => .answers hst.program.config hst⟩

/-- Both runs are at the same location. -/
theorem location : Alike sides asIs location location :=
  ⟨.location, .location, fun _ _ hst => .answers (Draft.location_of_renumber hst.draft) hst⟩

/-- Both runs move on to the same instruction. -/
theorem moveTo (index : Nat) :
    Alike sides asIs (modify fun s : LoweringState => { s with draft := s.draft.moveTo index })
      (modify fun s : LoweringState => { s with draft := s.draft.moveTo index }) :=
  ⟨.moveTo index, .moveTo index, fun s t hst => .answers rfl ⟨hst.program, by
    change { s.draft.renumber sides.number with current := some index } =
      { t.draft.renumber sides.number' with current := some index }
    rw [hst.draft], hst.openBlock⟩⟩

/-- Both runs mark the use of monitors. -/
theorem usesMonitors :
    Alike sides asIs
      (modify fun s : LoweringState => { s with draft := { s.draft with usesMonitors := true } })
      (modify fun s : LoweringState => { s with draft := { s.draft with usesMonitors := true } }) :=
  .mk .usesMonitors .usesMonitors fun s t hst =>
    .answers rfl ⟨hst.program, by
      change { s.draft.renumber sides.number with usesMonitors := true } =
        { t.draft.renumber sides.number' with usesMonitors := true }
      rw [hst.draft], hst.openBlock⟩

/-- Both runs read the same state, up to their programs. -/
theorem get :
    Alike sides (fun number (s : LoweringState) => (s.draft.renumber number, s.openBlock)) get get :=
  ⟨.get, .get, fun _ _ hst => .answers (by rw [hst.draft, hst.openBlock]) hst⟩

/-- Both runs open the same block. -/
theorem setOpen (block : Option BlockId) : Alike sides asIs (setOpen block) (setOpen block) :=
  ⟨.setOpen block, .setOpen block, fun _ _ hst => .answers rfl ⟨hst.program, hst.draft, rfl⟩⟩

/-- Both runs have the same open block, or none. -/
theorem currentBlock : Alike sides asIs currentBlock currentBlock :=
  ⟨.currentBlock, .currentBlock, fun s t hst => by
    rw [currentBlock_run, currentBlock_run, ← hst.openBlock]
    cases s.openBlock with
    | none => exact (fail .noOpenBlock rfl).runs s t hst
    | some block => exact .answers rfl hst⟩

/-- Both runs find or make the same block. -/
theorem blockAt (index : Nat) : Alike sides asIs (blockAt index) (blockAt index) :=
  ⟨.blockAt index, .blockAt index, fun s t hst => by
    rw [blockAt_run, blockAt_run]
    have hblock : (s.draft.renumber sides.number).blockAt index = _ := s.draft.renumber_blockAt index
    rw [hst.draft, t.draft.renumber_blockAt index] at hblock
    obtain ⟨hid, hdraft⟩ := Prod.mk.inj hblock
    exact .answers hid.symm ⟨hst.program, hdraft.symm, hst.openBlock⟩⟩

/-- Changes of the graph that are alike up to numbers are refused alike. -/
theorem runs_edit {change change' : Draft → Except Error Draft}
    (h : ∀ d d', d.renumber sides.number = d'.renumber sides.number' →
      (change d).map (Draft.renumber sides.number) = (change' d').map (Draft.renumber sides.number'))
    {s t : LoweringState} (hst : s.Akin sides t) : Runs sides asIs (edit change s) (edit change' t) := by
  have hchange := h s.draft t.draft hst.draft
  unfold edit
  cases hs : change s.draft with
  | error e =>
    cases ht : change' t.draft with
    | error e' =>
      rw [hs, ht] at hchange
      cases hchange
      exact .fails hst
    | ok d' =>
      rw [hs, ht] at hchange
      cases hchange
  | ok d =>
    cases ht : change' t.draft with
    | error e' =>
      rw [hs, ht] at hchange
      cases hchange
    | ok d' =>
      rw [hs, ht] at hchange
      exact .answers rfl ⟨hst.program, Except.ok.inj hchange, hst.openBlock⟩

/-- Both runs add the same edge, or refuse it. -/
theorem connect (source target : BlockId) {guard guard' : Guard}
    (h : guard.renumber sides.number = guard'.renumber sides.number') :
    Alike sides asIs (connect source target guard) (connect source target guard') :=
  ⟨.connect source target guard, .connect source target guard', fun _ _ => runs_edit fun d d' hd => by
    rw [← Draft.renumber_connect, hd, h, Draft.renumber_connect]⟩

/-- A statement is appended alike if it is the same up to numbers. -/
theorem emit {stmt stmt' : Stmt} (h : stmt.renumber sides.number = stmt'.renumber sides.number') :
    Alike sides asIs (emit stmt) (emit stmt') :=
  ⟨.emit stmt, .emit stmt', fun s t hst => by
    unfold Lower.emit
    rw [bind_run, bind_run, currentBlock_run, currentBlock_run, ← hst.openBlock]
    cases s.openBlock with
    | none =>
      have hfail : Alike sides asIs (Lower.fail .noOpenBlock : Lower Unit) (Lower.fail .noOpenBlock) :=
        .fail _ rfl
      exact hfail.runs s t hst
    | some block =>
      refine runs_edit (fun d d' hd => ?_) hst
      rw [← Draft.renumber_append, hd, h, Draft.renumber_append]⟩

/-- Both runs append the same statement, or have no open block. -/
theorem emitHere {kind kind' : StmtKind} (h : kind.renumber sides.number = kind'.renumber sides.number') :
    Alike sides asIs (emitHere kind) (emitHere kind') :=
  location.bind fun l l' hl => emit (by
    simp only [Stmt.renumber, h]
    exact congrArg (Stmt.mk · _) hl)

/-- Fresh temporaries of both runs are counterparts. -/
theorem freshTemp (stem : String) (ty : Ty) :
    Alike sides Var.renumber (freshTemp stem ty) (freshTemp stem ty) :=
  .mk (.freshTemp stem ty) (.freshTemp stem ty) fun s t hst => by
    obtain ⟨hv, hdraft⟩ := Draft.addTemp_of_renumber hst.draft sides.alike stem ty s.program.supply
      t.program.supply
    exact .answers hv ⟨hst.program.congr (.of_supply _ _ _ (Nat.le_succ _)) rfl
      (.of_supply _ _ _ (Nat.le_succ _)) rfl, hdraft, hst.openBlock⟩

/-- Both runs may ask for a method; its number need not be the same. -/
theorem resolve (sig : MethodSig) : Alike sides (fun _ _ => ()) (resolve sig) (resolve sig) :=
  .mk (.resolve sig) (.resolve sig) fun _ _ hst =>
    .answers rfl ⟨hst.program.congr (Program.grows_resolve _ sig) rfl (Program.grows_resolve _ sig) rfl,
      hst.draft, hst.openBlock⟩

/-- Both runs get the same array class. -/
theorem arrayClass (element : Ty) : Alike sides asIs (arrayClass element) (arrayClass element) :=
  .mk (.arrayClass element) (.arrayClass element) fun _ _ hst =>
    .answers (hst.program.arrays element) ⟨hst.program.congr (Program.grows_arrayClass _ element) rfl
      (Program.grows_arrayClass _ element) rfl, hst.draft, hst.openBlock⟩

/-- Both runs report the same finding. -/
theorem report (severity : Severity) (category : Category) (message : String) :
    Alike sides asIs (report severity category message) (report severity category message) :=
  .mk (.report _ _ _) (.report _ _ _) fun _ _ hst =>
    .answers rfl ⟨hst.program.congr (Program.grows_report _ _) rfl (Program.grows_report _ _) rfl,
      hst.draft, hst.openBlock⟩

/-- The variables for the caught exception are counterparts. -/
theorem caughtException (ty : Ty) :
    Alike sides Var.renumber (caughtException ty) (caughtException ty) :=
  .mk (.caughtException ty) (.caughtException ty) fun s t hst => by
    obtain ⟨hv, hdraft⟩ := Draft.caughtException_of_renumber hst.draft sides.alike ty s.program.supply
      t.program.supply
    have hle (d : Draft) (supply : VarSupply) : supply.next ≤ (d.caughtException ty supply).2.2.next := by
      unfold Draft.caughtException
      cases d.exception with
      | none => exact Nat.le_succ _
      | some v => exact Nat.le_refl _
    exact .answers hv ⟨hst.program.congr (.of_supply _ _ _ (hle _ _)) rfl (.of_supply _ _ _ (hle _ _)) rfl,
      hdraft, hst.openBlock⟩

/-- Requests that come down to one global, whose name and type depend on the configuration only, are
answered alike. -/
theorem request {session session' : Session α} (name : Config → String) (ty : Config → Ty)
    (answer answer' : Var → α)
    (hsession : ∀ p, session p =
      (do return answer (← Session.global (name p.config) (ty p.config))) p)
    (hsession' : ∀ p, session' p =
      (do return answer' (← Session.global (name p.config) (ty p.config))) p)
    (h : ∀ v w, v.renumber sides.number = w.renumber sides.number' →
      view sides.number (answer v) = view sides.number' (answer' w)) :
    Alike sides view (request session) (request session') :=
  .mk (.request _ _ _ hsession) (.request _ _ _ hsession') fun s t hst => by
    have hruns := Session.global_akin hst.program (name s.program.config) (ty s.program.config)
    rw [request_run, request_run, hsession, hsession', ← hst.program.config, bind_run, bind_run]
    generalize Session.global _ _ s.program = r at hruns
    generalize Session.global _ _ t.program = r' at hruns
    cases hruns with
    | answers hview hakin => exact .answers (h _ _ hview) ⟨hakin, hst.draft, hst.openBlock⟩
    | fails hakin => exact .fails ⟨hakin, hst.draft, hst.openBlock⟩
    | left hclash => cases r' <;> exact .left hclash
    | right hclash => cases r <;> exact .right hclash

/-- What a draft may lack is found in both drafts, or both steps fail. -/
theorem found {step : Draft → Lower α} (find : Draft → Option α) (fault : Fault)
    (hfault : fault.isConflict = false)
    (hstep : ∀ d, step d = (find d).elim (Lower.fail fault) Pure.pure)
    (h : ∀ d e, d.renumber sides.number = e.renumber sides.number' →
      (find d).map (view sides.number) = (find e).map (view sides.number')) :
    Alike sides view (Lower.draft >>= step) (Lower.draft >>= step) :=
  draft.bind fun d e hde => by
    have hfind := h d e hde
    rw [hstep, hstep]
    cases hd : find d with
    | none =>
      rw [hd] at hfind
      rw [Option.map_eq_none_iff.mp hfind.symm]
      exact fail fault hfault
    | some a =>
      rw [hd] at hfind
      obtain ⟨b, hb, hab⟩ := Option.map_eq_some_iff.mp hfind.symm
      rw [hb]
      exact pure hab.symm

end Alike

end Lower

end GuardedFlow
