/-!
# Types of the managed runtime

The types that a front end attaches to locals, fields and methods, together with the total maps
that type heap variables. A type has one printed form, `Ty.text`, and one total order,
`Ty.compare`, which puts types in the order of their constructors and then compares contents from
left to right.
-/

namespace GuardedFlow

/-- A type without parts. -/
inductive Prim where
  /-- No value; the return type of a method that returns nothing. -/
  | void
  | boolean
  | byte
  | char
  | short
  | int
  | long
  | float
  | double
  /-- The type of the null reference. -/
  | null
  deriving DecidableEq, Inhabited

namespace Prim

/-- The printed form of a type without parts. -/
def text : Prim → String
  | void => "void"
  | boolean => "boolean"
  | byte => "byte"
  | char => "char"
  | short => "short"
  | int => "int"
  | long => "long"
  | float => "float"
  | double => "double"
  | null => "null_type"

end Prim

/-- A type of the managed runtime, or the type of a heap variable. -/
inductive Ty where
  | prim (p : Prim)
  /-- A class or interface, by its fully qualified name. -/
  | named (name : String)
  | array (element : Ty)
  /-- A total map from tuples of keys to values. -/
  | map (keys : List Ty) (value : Ty)

namespace Ty

/-- The type of integers, which also counts array elements. -/
abbrev int : Ty := prim .int

/-- The type of truth values. -/
abbrev boolean : Ty := prim .boolean

/-- The type of the null reference. -/
abbrev null : Ty := prim .null

instance : Inhabited Ty := ⟨null⟩

mutual

/-- The printed form of a type. -/
def text : Ty → String
  | prim p => p.text
  | named name => name
  | array element => element.text ++ "[]"
  | map keys value => "[" ++ ",".intercalate (texts keys) ++ "]" ++ value.text

/-- The printed forms of a list of types. -/
def texts : List Ty → List String
  | [] => []
  | ty :: rest => ty.text :: texts rest

end

instance : ToString Ty := ⟨text⟩

/-- Class, array and null types denote references. -/
def isReference : Ty → Bool
  | prim p => p == .null
  | named _ | array _ => true
  | map .. => false

/-- Whether the type is `void`. -/
def isVoid (ty : Ty) : Bool :=
  match ty with
  | prim .void => true
  | _ => false

/-- The element type of an array type. -/
def element? : Ty → Option Ty
  | array element => some element
  | _ => none

mutual

private def decEq : (s t : Ty) → Decidable (s = t)
  | prim p, prim q => decidable_of_iff (p = q) (by simp)
  | named a, named b => decidable_of_iff (a = b) (by simp)
  | array a, array b =>
    have := decEq a b
    decidable_of_iff (a = b) (by simp)
  | map ks v, map ls w =>
    have := decEqAll ks ls
    have := decEq v w
    decidable_of_iff (ks = ls ∧ v = w) (by simp)
  | prim _, named _ | prim _, array _ | prim _, map ..
  | named _, prim _ | named _, array _ | named _, map ..
  | array _, prim _ | array _, named _ | array _, map ..
  | map .., prim _ | map .., named _ | map .., array _ => isFalse nofun

private def decEqAll : (ss ts : List Ty) → Decidable (ss = ts)
  | [], [] => isTrue rfl
  | [], _ :: _ | _ :: _, [] => isFalse nofun
  | s :: ss, t :: ts =>
    have := decEq s t
    have := decEqAll ss ts
    decidable_of_iff (s = t ∧ ss = ts) (by simp)

end

instance : DecidableEq Ty := decEq

/-- The place of a type's constructor in the order of types. -/
def rank : Ty → Nat
  | prim p => p.ctorIdx
  | named _ => Prim.null.ctorIdx + 1
  | array _ => Prim.null.ctorIdx + 2
  | map .. => Prim.null.ctorIdx + 3

mutual

/-- The order of types: by constructor, then by contents, the keys of a map before its value. -/
protected def compare : Ty → Ty → Ordering
  | named a, named b => Ord.compare a b
  | array a, array b => a.compare b
  | map ks v, map ls w => (compareAll ks ls).then (v.compare w)
  | s, t => Ord.compare s.rank t.rank

/-- The lexicographic order of lists of types. -/
def compareAll : List Ty → List Ty → Ordering
  | [], [] => .eq
  | [], _ :: _ => .lt
  | _ :: _, [] => .gt
  | s :: ss, t :: ts => (s.compare t).then (compareAll ss ts)

end

instance : Ord Ty := ⟨Ty.compare⟩

/-- The types in ascending order; equal types keep their places. -/
def sorted (types : List Ty) : List Ty :=
  types.mergeSort fun s t => (s.compare t).isLE

end Ty

/-- A field, resolved to its declaring class and its declared type. -/
structure FieldSig where
  owner : String
  name : String
  ty : Ty
  deriving DecidableEq, Inhabited

namespace FieldSig

/-- The declaring class and the name of the field; heap variables are named after it. -/
def qualifiedName (field : FieldSig) : String :=
  field.owner ++ "." ++ field.name

/-- The printed form of a field. -/
def text (field : FieldSig) : String :=
  s!"<{field.owner}: {field.ty} {field.name}>"

instance : ToString FieldSig := ⟨text⟩

end FieldSig

/-- A method, resolved to its declaring class; the receiver is not among the parameters. -/
structure MethodSig where
  owner : String
  name : String
  params : List Ty
  result : Ty
  deriving DecidableEq, Inhabited

namespace MethodSig

/-- The signature of a method without its declaring class. -/
def memberText (method : MethodSig) : String :=
  s!"{method.result} {method.name}(" ++ ",".intercalate (method.params.map Ty.text) ++ ")"

/-- The full signature of a method, which identifies it within a program. -/
def text (method : MethodSig) : String :=
  s!"<{method.owner}: {method.memberText}>"

instance : ToString MethodSig := ⟨text⟩

end MethodSig

end GuardedFlow
