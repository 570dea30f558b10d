import GuardedFlow.Expr

/-!
# Statements

Lowered code has four kinds of statement: assignments, assertions, assumptions and calls. Reads and
writes of the heap are assignments from and to cells of heap maps, so the variables that a statement
uses and defines account for its effect on the heap as well. A store into one cell of a map keeps the
other cells, and therefore uses the map that it defines.
-/

namespace GuardedFlow

/-- The callee of a call. -/
inductive Callee where
  /-- A method of the program, by its place in the method table. -/
  | method (id : Nat) (signature : String)
  /-- A callee that is known by its signature only. -/
  | unresolved (signature : String)
  deriving DecidableEq, Inhabited

namespace Callee

/-- The signature of a callee. -/
def signature : Callee → String
  | method _ signature => signature
  | unresolved signature => signature

/-- Whether two callees are the same: methods by their place, others by their signature. -/
def same : Callee → Callee → Bool
  | method a _, method b _ => a == b
  | unresolved s, unresolved t => s == t
  | _, _ => false

end Callee

/-- What a statement does. -/
inductive StmtKind where
  | assign (target value : Expr)
  /-- A property to be proven. -/
  | assert (condition : Expr)
  /-- A property taken for granted. -/
  | assume (condition : Expr)
  /-- A call; an instance call has the receiver as its first argument. -/
  | call (callee : Callee) (args : List Expr) (result : Option Expr)
  deriving Inhabited

/-- A statement with the position of the instruction it was made for. -/
structure Stmt where
  location : Location
  kind : StmtKind
  deriving Inhabited

namespace StmtKind

/-- The name of a kind of statement. -/
def name : StmtKind → String
  | assign .. => "assign"
  | assert _ => "assert"
  | assume _ => "assume"
  | call .. => "call"

/-- The printed form of a statement. -/
def text : StmtKind → String
  | assign target value => target.text ++ " := " ++ value.text
  | assert condition => "assert(" ++ condition.text ++ ")"
  | assume condition => "assume(" ++ condition.text ++ ")"
  | call callee args result =>
    (match result with
      | some target => target.text ++ " := "
      | none => "") ++
    "call " ++ callee.signature ++ "(" ++ ", ".intercalate (args.map Expr.text) ++ ")"

/-- The expression that a statement stores to. -/
def target? : StmtKind → Option Expr
  | assign target _ => some target
  | call _ _ result => result
  | assert _ | assume _ => none

/-- The variables that are read to store into an expression: the map and the keys of a cell. -/
def addressOccurrences : Expr → List Var
  | .cell map keys => map :: Expr.occurrencesAll keys
  | _ => []

/-- Add the variables that are read to store into an expression to a list, each once. -/
def collectAddress (vars : List Var) : Expr → List Var
  | .cell map keys => Expr.collectAll (Var.insert vars map) keys
  | _ => vars

/-- The variables that a statement reads, once for every place they stand at. -/
def occurrences : StmtKind → List Var
  | assign target value => value.occurrences ++ addressOccurrences target
  | assert condition | assume condition => condition.occurrences
  | call _ args result =>
    Expr.occurrencesAll args ++ (result.map addressOccurrences).getD []

/-- Equality of what two statements do. -/
def same : StmtKind → StmtKind → Bool
  | assign t v, assign t' v' => t.same t' && v.same v'
  | assert c, assert c' => c.same c'
  | assume c, assume c' => c.same c'
  | call f args result, call f' args' result' =>
    f.same f' && Expr.sameAll args args' &&
      match result, result' with
      | some r, some r' => r.same r'
      | none, none => true
      | _, _ => false
  | _, _ => false

end StmtKind

namespace Stmt

/-- The printed form of a statement. -/
def text (s : Stmt) : String := s.kind.text

instance : ToString Stmt := ⟨text⟩

/-- The variables that a statement reads, in the order of their first occurrences. -/
def uses (s : Stmt) : List Var :=
  match s.kind with
  | .assign target value => StmtKind.collectAddress (value.collect []) target
  | .assert condition | .assume condition => condition.collect []
  | .call _ args result =>
    let vars := Expr.collectAll [] args
    match result with
    | some target => StmtKind.collectAddress vars target
    | none => vars

/-- The variables that a statement writes. -/
def defs (s : Stmt) : List Var :=
  match s.kind.target? with
  | some (.var v) | some (.cell v _) => [v]
  | _ => []

/-- The variables that a statement reads or writes. -/
def vars (s : Stmt) : List Var :=
  s.defs.foldl Var.insert s.uses

/-- The callee of a call. -/
def callee? (s : Stmt) : Option Callee :=
  match s.kind with
  | .call callee .. => some callee
  | _ => none

/-- Equality of statements, positions included. -/
def same (s t : Stmt) : Bool :=
  s.location == t.location && s.kind.same t.kind

end Stmt

end GuardedFlow
