/-!
# Operators

The operators of operand trees and expressions. The comparisons, the logical connectives and the
subtype order on type tags produce truth values; all others produce a value of their operands' kind.
-/

namespace GuardedFlow

/-- Unary operators. -/
inductive UnaryOp where
  | neg
  | not
  deriving DecidableEq, Inhabited

/-- Binary operators. -/
inductive BinaryOp where
  | add
  | sub
  | mul
  | div
  | rem
  | bitAnd
  | bitOr
  | xor
  | shl
  | shr
  /-- Logical shift to the right. -/
  | ushr
  /-- Three-way comparison of integers. -/
  | cmp
  /-- Three-way comparison in which a NaN counts as less. -/
  | cmpl
  /-- Three-way comparison in which a NaN counts as greater. -/
  | cmpg
  | eq
  | ne
  | lt
  | le
  | gt
  | ge
  | and
  | or
  | implies
  /-- The subtype order on type tags. -/
  | subtype
  deriving DecidableEq, Inhabited

namespace UnaryOp

/-- The symbol of an operator. -/
def symbol : UnaryOp → String
  | neg => "-"
  | not => "!"

instance : ToString UnaryOp := ⟨symbol⟩

end UnaryOp

namespace BinaryOp

/-- The symbol of an operator. -/
def symbol : BinaryOp → String
  | add => "+"
  | sub => "-"
  | mul => "*"
  | div => "/"
  | rem => "%"
  | bitAnd => "&"
  | bitOr => "|"
  | xor => "^"
  | shl => "<<"
  | shr => ">>"
  | ushr => ">>>"
  | cmp => "cmp"
  | cmpl => "cmpl"
  | cmpg => "cmpg"
  | eq => "=="
  | ne => "!="
  | lt => "<"
  | le => "<="
  | gt => ">"
  | ge => ">="
  | and => "&&"
  | or => "||"
  | implies => "==>"
  | subtype => "<:"

instance : ToString BinaryOp := ⟨symbol⟩

/-- Whether an operator produces a truth value. -/
def isPredicate : BinaryOp → Bool
  | eq | ne | lt | le | gt | ge | and | or | implies | subtype => true
  | _ => false

end BinaryOp

end GuardedFlow
