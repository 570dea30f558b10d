import GuardedFlow.Location
import GuardedFlow.Operator
import GuardedFlow.Real.Layout
import GuardedFlow.Text.Quoted
import GuardedFlow.Variable

/-!
# Expressions

The expression trees of lowered code. An expression has no effect: every read of the heap is the
value of a heap map at some keys, and allocation appears as a fresh reference of a type.
`Expr.vars` lists what an expression reads. `Expr.same` compares trees: variables by identity,
real constants as numbers.
-/

namespace GuardedFlow

/-- Constant leaves. -/
inductive Literal where
  /-- An integer of any width. -/
  | int (value : Int64)
  /-- A floating-point number of either width. -/
  | real (value : Binary64)
  | bool (value : Bool)
  | null
  | str (value : String)
  /-- A type as a value: a class constant or a type tag. -/
  | type (ty : Ty)
  deriving DecidableEq, Inhabited

namespace Literal

/-- The printed form of a constant. -/
def text : Literal → String
  | int value => toString value
  | real value => value.text
  | bool value => toString value
  | null => "null"
  | str value => Text.quote value
  | type ty => ty.text ++ ".class"

/-- Equality of constants; real constants are compared as numbers. -/
def same : Literal → Literal → Bool
  | real x, real y => x.equal y
  | a, b => a == b

end Literal

/-- An expression of lowered code. -/
inductive Expr where
  | var (v : Var)
  | lit (value : Literal)
  | unary (op : UnaryOp) (operand : Expr)
  | binary (op : BinaryOp) (left right : Expr)
  /-- The cell of a heap map at some keys. -/
  | cell (map : Var) (keys : List Expr)
  /-- A fresh reference of an allocated type. -/
  | alloc (ty : Ty)
  deriving Inhabited

namespace Expr

/-- The type tag of a type. -/
def tag (ty : Ty) : Expr := lit (.type ty)

/-- Logical negation. -/
def not (operand : Expr) : Expr := unary .not operand

mutual

/-- The printed form of an expression. -/
def text : Expr → String
  | var v => v.name
  | lit value => value.text
  | unary op operand => op.symbol ++ operand.text
  | binary op left right => "(" ++ left.text ++ " " ++ op.symbol ++ " " ++ right.text ++ ")"
  | cell map keys => map.name ++ "[" ++ ", ".intercalate (texts keys) ++ "]"
  | alloc ty => "new " ++ ty.text

/-- The printed forms of a list of expressions. -/
def texts : List Expr → List String
  | [] => []
  | e :: rest => e.text :: texts rest

end

instance : ToString Expr := ⟨text⟩

mutual

/-- The variables that an expression reads, once for every place they stand at, from left to right;
the map of a cell comes before the keys. -/
def occurrences : Expr → List Var
  | var v => [v]
  | lit _ | alloc _ => []
  | unary _ operand => operand.occurrences
  | binary _ left right => left.occurrences ++ right.occurrences
  | cell map keys => map :: occurrencesAll keys

/-- The variables that a list of expressions reads, once for every place they stand at. -/
def occurrencesAll : List Expr → List Var
  | [] => []
  | e :: rest => e.occurrences ++ occurrencesAll rest

end

mutual

/-- Add the variables that an expression reads to a list, from left to right, each once. -/
def collect (vars : List Var) : Expr → List Var
  | var v => Var.insert vars v
  | lit _ | alloc _ => vars
  | unary _ operand => operand.collect vars
  | binary _ left right => right.collect (left.collect vars)
  | cell map keys => collectAll (Var.insert vars map) keys

/-- Add the variables that a list of expressions reads to a list, each once. -/
def collectAll (vars : List Var) : List Expr → List Var
  | [] => vars
  | e :: rest => collectAll (e.collect vars) rest

end

/-- The variables that an expression reads, in the order of their first occurrences. -/
def vars (e : Expr) : List Var := e.collect []

/-- The variable that the expression consists of. -/
def var? : Expr → Option Var
  | var v => some v
  | _ => none

/-- Whether the expression can be assigned to. -/
def isAssignable : Expr → Bool
  | var _ | cell .. => true
  | _ => false

mutual

/-- Equality of trees. -/
def same : Expr → Expr → Bool
  | var v, var w => v.same w
  | lit a, lit b => a.same b
  | unary op x, unary op' x' => op == op' && x.same x'
  | binary op x y, binary op' x' y' => op == op' && x.same x' && y.same y'
  | cell m ks, cell m' ks' => m.same m' && sameAll ks ks'
  | alloc s, alloc t => s == t
  | _, _ => false

/-- Equality of lists of trees. -/
def sameAll : List Expr → List Expr → Bool
  | [], [] => true
  | x :: xs, y :: ys => x.same y && sameAll xs ys
  | _, _ => false

end

end Expr

end GuardedFlow
