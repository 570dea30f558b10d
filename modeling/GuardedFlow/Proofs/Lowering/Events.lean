import GuardedFlow.Proofs.Lowering.Effects
import GuardedFlow.Proofs.Lowering.Told

/-!
# The events of a lowering

What the lowering of an instruction does is told by the instruction and the table of idioms alone.
`Op.events` lists it in order: reads and writes of the heap, calls, notes to the program, the end of the
path, and the statements that lowering adds on its own as far as a fresh reference goes into them. Operands
that lowering does not evaluate have no events. `Event` has what the statement for an event shows: the
effect it performs, the method it calls, and whether it contains a fresh reference, the result of an
allocation that has not been stored in a local.
-/

namespace GuardedFlow

/-! ### Fresh references -/

namespace Expr

mutual

/-- Whether an expression contains a fresh reference. -/
def allocates : Expr → Bool
  | var _ | lit _ => false
  | unary _ operand => operand.allocates
  | binary _ left right => left.allocates || right.allocates
  | cell _ keys => allocatesAny keys
  | alloc _ => true

/-- Whether one of the expressions of a list contains a fresh reference. -/
def allocatesAny : List Expr → Bool
  | [] => false
  | e :: rest => e.allocates || allocatesAny rest

end

end Expr

namespace StmtKind

/-- Whether a statement contains a fresh reference. -/
def allocates : StmtKind → Bool
  | assign target value => target.allocates || value.allocates
  | assert condition | assume condition => condition.allocates
  | call _ args result => Expr.allocatesAny args || result.any Expr.allocates

/-- The local that a statement sets to a fresh reference, with the allocated type. -/
def fresh? : StmtKind → Option (Var × Ty)
  | assign (.var x) (.alloc ty) => if x.role = .declared then some (x, ty) else none
  | _ => none

/-- Whether a statement contains a fresh reference other than as the whole value of a local. -/
def leaks (kind : StmtKind) : Bool := kind.allocates && kind.fresh?.isNone

end StmtKind

namespace StmtKind

/-- An assignment of something else than a whole fresh reference sets no local to one. -/
theorem fresh?_assign {target value : Expr} (h : ∀ ty, value ≠ .alloc ty) :
    (assign target value).fresh? = none := by
  cases target with
  | var x =>
    cases value with
    | alloc ty => exact absurd rfl (h ty)
    | _ => rfl
  | _ => rfl

end StmtKind

/-- Whether the expression of an operand contains a fresh reference. -/
def Value.holds : Value → Bool
  | new _ | newArray .. | newMultiArray .. => true
  | unary _ v | cast _ v => v.holds
  | binary _ v w => v.holds || w.holds
  | _ => false

/-! ### Calls in statements -/

/-- The signature of the method that a statement calls, and whether the statement stores the result. -/
def Stmt.resolved? (stmt : Stmt) : Option (String × Bool) :=
  match stmt.kind with
  | .call (.method _ signature) _ result => some (signature, result.isSome)
  | _ => none

/-- The location and the signature of an opaque call. -/
def Stmt.indirect? (stmt : Stmt) : Option (Location × String) :=
  match stmt.callee? with
  | some (.unresolved signature) => some (stmt.location, signature)
  | _ => none

/-! ### Events -/

/-- Something that a lowering does. Statements come with whether a fresh reference goes into them. -/
inductive Event where
  /-- A place is read into a variable. -/
  | read (place : Place) (fresh : Bool)
  /-- A value is stored in a place. -/
  | write (place : Place) (fresh : Bool)
  /-- A method is called that no idiom matches, and its result is used or not. -/
  | call (kind : CallKind) (method : MethodSig) (hasResult fresh : Bool)
  /-- A fresh reference goes into a statement that lowering adds on its own. -/
  | own
  /-- A fresh reference goes into the value that a variable is set to. -/
  | store
  /-- The program is told something. -/
  | note (note : Note)
  /-- The path ends. -/
  | finish (fin : PathEnd)

namespace Event

/-- The effect that the statement for an event performs. -/
def effect? : Event → Option Effect
  | read place _ => some (.read place)
  | write place _ => some (.write place)
  | call kind method _ _ => some (.call kind method)
  | _ => none

/-- The method that the statement for an event calls, and whether it stores the result. -/
def resolved? : Event → Option (String × Bool)
  | call kind method hasResult _ => if kind = .dynamic then none else some (method.text, hasResult)
  | _ => none

/-- The unknown method that the statement for an event calls. -/
def indirect? : Event → Option String
  | call kind method _ _ => if kind = .dynamic then some method.text else none
  | _ => none

/-- What an event tells the program. -/
def note? : Event → Option Note
  | note n => some n
  | _ => none

/-- The end of the path at an event. -/
def finish? : Event → Option PathEnd
  | finish fin => some fin
  | _ => none

/-- Whether a fresh reference goes into the statement for an event; statements that set a variable count
or not. -/
def counts (stores : Bool) : Event → Bool
  | read _ fresh | write _ fresh | call _ _ _ fresh => fresh
  | own => true
  | store => stores
  | note _ | finish _ => false

/-- A statement that lowering adds on its own is an event if a fresh reference goes into it. -/
def owned (fresh : Bool) : List Event := if fresh then [own] else []

/-- A statement that sets a variable is an event if a fresh reference goes into it. -/
def stored (fresh : Bool) : List Event := if fresh then [store] else []

/-! What a list of events shows as a whole. -/

/-- The effects that the statements for events perform. -/
def effects (events : List Event) : List Effect := events.filterMap effect?

/-- The methods that the statements for events call. -/
def resolved (events : List Event) : List (String × Bool) := events.filterMap resolved?

/-- The unknown methods that the statements for events call. -/
def indirect (events : List Event) : List String := events.filterMap indirect?

/-- What events tell the program. -/
def notes (events : List Event) : List Note := events.filterMap note?

/-- The first end of the path among events. -/
def pathEnd (events : List Event) : Option PathEnd := events.findSome? finish?

/-- Whether a fresh reference goes into the statements for events. -/
def frees (stores : Bool) (events : List Event) : Bool := events.any (counts stores)

/-! What no events show, what one more event shows, and what events show one after another. -/

section Lists

variable {event : Event} {events more : List Event} {stores : Bool}

/-- What is selected of the first element comes first. -/
theorem filterMap_cons_toList {α β : Type} (f : α → Option β) (a : α) (l : List α) :
    (a :: l).filterMap f = (f a).toList ++ l.filterMap f := by
  rw [List.filterMap_cons]
  cases f a <;> rfl

@[simp] theorem effects_nil : effects [] = [] := rfl
@[simp] theorem resolved_nil : resolved [] = [] := rfl
@[simp] theorem indirect_nil : indirect [] = [] := rfl
@[simp] theorem notes_nil : notes [] = [] := rfl
@[simp] theorem pathEnd_nil : pathEnd [] = none := rfl
@[simp] theorem frees_nil : frees stores [] = false := rfl

/-- The effect of the first event is the first one. -/
@[simp] theorem effects_cons : effects (event :: events) = event.effect?.toList ++ effects events :=
  filterMap_cons_toList ..

/-- The call of the first event is the first one. -/
@[simp] theorem resolved_cons : resolved (event :: events) = event.resolved?.toList ++ resolved events :=
  filterMap_cons_toList ..

/-- The opaque call of the first event is the first one. -/
@[simp] theorem indirect_cons : indirect (event :: events) = event.indirect?.toList ++ indirect events :=
  filterMap_cons_toList ..

/-- The note of the first event is the first one. -/
@[simp] theorem notes_cons : notes (event :: events) = event.note?.toList ++ notes events :=
  filterMap_cons_toList ..

/-- If the first event ends the path, later ones do not count. -/
@[simp] theorem pathEnd_cons : pathEnd (event :: events) = event.finish?.or (pathEnd events) := by
  rw [pathEnd, List.findSome?_cons]
  cases event.finish? <;> rfl

/-- A fresh reference goes into the first statement or into a later one. -/
@[simp] theorem frees_cons : frees stores (event :: events) = (event.counts stores || frees stores events) :=
  List.any_cons

/-- Effects follow one another. -/
@[simp] theorem effects_append : effects (events ++ more) = effects events ++ effects more :=
  List.filterMap_append

/-- Calls follow one another. -/
@[simp] theorem resolved_append : resolved (events ++ more) = resolved events ++ resolved more :=
  List.filterMap_append

/-- Opaque calls follow one another. -/
@[simp] theorem indirect_append : indirect (events ++ more) = indirect events ++ indirect more :=
  List.filterMap_append

/-- Notes follow one another. -/
@[simp] theorem notes_append : notes (events ++ more) = notes events ++ notes more := List.filterMap_append

/-- The path ends with the first events that end it. -/
@[simp] theorem pathEnd_append : pathEnd (events ++ more) = (pathEnd events).or (pathEnd more) :=
  List.findSome?_append

/-- A fresh reference goes into one of the parts. -/
@[simp] theorem frees_append : frees stores (events ++ more) = (frees stores events || frees stores more) :=
  List.any_append

end Lists

/-! Statements that lowering adds on its own, and those that set a variable, show a fresh reference at
most. -/

section Fresh

variable {fresh stores : Bool}

@[simp] theorem effects_owned : effects (owned fresh) = [] := by cases fresh <;> rfl
@[simp] theorem resolved_owned : resolved (owned fresh) = [] := by cases fresh <;> rfl
@[simp] theorem indirect_owned : indirect (owned fresh) = [] := by cases fresh <;> rfl
@[simp] theorem notes_owned : notes (owned fresh) = [] := by cases fresh <;> rfl
@[simp] theorem pathEnd_owned : pathEnd (owned fresh) = none := by cases fresh <;> rfl
@[simp] theorem frees_owned : frees stores (owned fresh) = fresh := by cases fresh <;> rfl
@[simp] theorem effects_stored : effects (stored fresh) = [] := by cases fresh <;> rfl
@[simp] theorem resolved_stored : resolved (stored fresh) = [] := by cases fresh <;> rfl
@[simp] theorem indirect_stored : indirect (stored fresh) = [] := by cases fresh <;> rfl
@[simp] theorem notes_stored : notes (stored fresh) = [] := by cases fresh <;> rfl
@[simp] theorem pathEnd_stored : pathEnd (stored fresh) = none := by cases fresh <;> rfl
@[simp] theorem frees_stored : frees stores (stored fresh) = (stores && fresh) := by
  cases fresh <;> cases stores <;> rfl

end Fresh

/-- What contains a fresh reference apart from the values that variables are set to, contains one. -/
theorem frees_of_frees {events : List Event} (h : frees false events = true) : frees true events = true := by
  obtain ⟨event, hmem, hevent⟩ := List.any_eq_true.mp h
  exact List.any_eq_true.mpr ⟨event, hmem, by cases event <;> first | exact hevent | cases hevent⟩

end Event

open Event (owned stored)

/-! ### The events of instructions -/

/-- What the lowering of an operand does, and whether its expression contains a fresh reference. -/
structure Trace where
  events : List Event
  held : Bool

namespace Trace

/-- The trace of an operand that is not evaluated. -/
def empty : Trace := ⟨[], false⟩

/-- The trace of operands that are evaluated one after another. -/
def all (traces : List Trace) : Trace := ⟨traces.flatMap events, traces.any held⟩

/-- The trace of an operand that may be absent. -/
def orEmpty (trace : Option Trace) : Trace := trace.getD empty

end Trace

/-- The events of a matched call, when the traces of its operands are known. -/
def IdiomKind.events (method : MethodSig) (base arg : Trace) (hasResult : Bool) : IdiomKind → List Event
  | assertion | precondition => arg.events ++ owned arg.held
  | stringLength => if hasResult then base.events ++ owned base.held else []
  | exit => [.note (.halted method), .finish .halt]
  | testFailure => [.finish .leave]
  | isAssignableFrom => base.events ++ (arg.events ++ owned (arg.held || base.held))
  | getClass => base.events ++ owned base.held
  | cast => base.events ++ (arg.events ++ (owned arg.held ++ (owned base.held ++ stored arg.held)))
  | isInstance => base.events ++ (arg.events ++ (owned arg.held ++ owned base.held))

/-- The events of a call, when the traces of its operands are known. -/
def Call.events (idioms : List Idiom) (call : Call Trace) (hasResult : Bool) : List Event :=
  let args := Trace.all call.args
  let base := Trace.orEmpty call.base
  if call.kind = .dynamic then
    .note (.indirect call.method.text) :: (args.events ++ base.events ++
      [.call call.kind call.method hasResult (args.held || base.held)])
  else
    match Idiom.lookup idioms ⟨call.method, hasResult⟩ with
    | some kind => kind.events call.method base args hasResult
    | none =>
      let base := if call.kind.hasReceiver then base else .empty
      args.events ++ base.events ++ [.note (.resolved call.method),
        .call call.kind call.method hasResult (args.held || base.held)]

namespace Value

mutual

/-- What the lowering of an operand does. -/
def events (idioms : List Idiom) : Value → List Event
  | slot _ | const _ | new _ | newArray .. | newMultiArray .. | parameter .. | receiver _
  | caughtException _ => []
  | unary _ v | cast _ v => v.events idioms
  | binary _ v w => v.events idioms ++ w.events idioms
  | instanceOf _ v | length v => v.events idioms ++ owned v.holds
  | field v f => v.events idioms ++ [.read (.field f) v.holds]
  | staticField f => [.read (.staticField f) false]
  | element v w => v.events idioms ++ (w.events idioms ++ [.read (.element v) (v.holds || w.holds)])
  | call kind method base args =>
    Call.events idioms ⟨kind, method, trace? idioms base, traces idioms args⟩ true

/-- The traces of the operands of a list. -/
def traces (idioms : List Idiom) : List Value → List Trace
  | [] => []
  | v :: rest => ⟨v.events idioms, v.holds⟩ :: traces idioms rest

/-- The trace of an operand that may be absent. -/
def trace? (idioms : List Idiom) : Option Value → Option Trace
  | none => none
  | some v => some ⟨v.events idioms, v.holds⟩

end

/-- The trace of an operand. -/
def trace (idioms : List Idiom) (v : Value) : Trace := ⟨v.events idioms, v.holds⟩

/-- What storing a value in a heap location does, when it is known whether the value contains a fresh
reference. -/
def writeEvents (idioms : List Idiom) (fresh : Bool) : Value → List Event
  | field v f => v.events idioms ++ [.write (.field f) (v.holds || fresh)]
  | staticField f => [.write (.staticField f) fresh]
  | element v w =>
    v.events idioms ++ (w.events idioms ++ [.write (.element v) (v.holds || w.holds || fresh)])
  | _ => []

/-- What assigning an operand to a local does. The result of a read or a call goes there at once; the size
of an array is evaluated after the assignment. -/
def assignEvents (idioms : List Idiom) : Value → List Event
  | field v f => (field v f).events idioms
  | staticField f => (staticField f).events idioms
  | element v w => (element v w).events idioms
  | length v => (length v).events idioms
  | call kind method base args => (call kind method base args).events idioms
  | newArray _ size => stored true ++ (size.events idioms ++ owned size.holds)
  | v => v.events idioms ++ stored v.holds

end Value

/-- What the lowering of an operation does. -/
def Op.events (idioms : List Idiom) : Op Nat → List Event
  | assign place source =>
    if place.isHeapLocation then source.events idioms ++ place.writeEvents idioms source.holds
    else source.assignEvents idioms
  | identity _ v => v.events idioms ++ stored v.holds
  | branch v _ => v.events idioms
  | ret v => v.events idioms ++ (owned v.holds ++ [.finish .leave])
  | retVoid => [.finish .leave]
  | monitorEnter lock => lock.events idioms ++ [.note (.monitor "entermonitor" lock)]
  | monitorExit lock => lock.events idioms ++ [.note (.monitor "exitmonitor" lock)]
  | invoke call =>
    Call.events idioms ⟨call.kind, call.method, Value.trace? idioms call.base,
      Value.traces idioms call.args⟩ false
  | tableSwitch .. | lookupSwitch .. | throw _ => []
  | goto _ | nop | breakpoint | subroutineReturn _ => []

end GuardedFlow
