import GuardedFlow.Diagnostic
import GuardedFlow.Error
import GuardedFlow.Flow.Basic
import GuardedFlow.Idiom
import GuardedFlow.Program.Table

/-!
# Programs

A program holds what its methods share: the methods themselves by signature, one class for the arrays
of each element type, the global variables by name, and the log. Each of these is created when it is
first asked for and stays the same from then on. A session is a sequence of requests to a program. A
request that fails keeps the changes that were made before it failed.
-/

namespace GuardedFlow

/-- A method of a program, with its control-flow graph once it has been lowered. -/
structure Method where
  sig : MethodSig
  flow : Option Flow
  deriving Inhabited

namespace Method

/-- The signature of a method. -/
def signature (method : Method) : String := method.sig.text

/-- Whether a method has been lowered. -/
def hasBody (method : Method) : Bool := method.flow.isSome

/-- The method as a record. -/
def inspect (method : Method) : String :=
  Text.record "Method"
    [("signature", Text.quote method.signature), ("has_body", toString method.hasBody)]

end Method

/-- The class of the arrays of an element type. Its one field is the length of an array. -/
structure ArrayClass where
  name : String
  element : Ty
  lengthField : FieldSig
  deriving DecidableEq, Inhabited

/-- What the methods of a program share. -/
structure Program where
  config : Config
  methods : Table String Method
  arrayClasses : Table Ty ArrayClass
  globals : Table String Var
  log : Log
  supply : VarSupply
  deriving Inhabited

namespace Program

/-- The program of which nothing was asked yet. -/
def new (config : Config) : Program :=
  { config
    methods := .empty
    arrayClasses := .empty
    globals := .empty
    log := .empty
    supply := .fresh }

/-- The number of a method, which is added without a body if its signature is new. -/
def resolve (p : Program) (sig : MethodSig) : Nat × Program :=
  let (id, methods) := p.methods.intern sig.text ⟨sig, none⟩
  (id, { p with methods })

/-- The method with a number. -/
def method? (p : Program) (id : Nat) : Option Method := p.methods.get? id

/-- The method with a signature. -/
def lookupMethod (p : Program) (signature : String) : Option Method := p.methods.lookup signature

/-- The methods, sorted by signature. -/
def sortedMethods (p : Program) : List Method :=
  p.methods.values.mergeSort fun m n => (compare m.signature n.signature).isLE

/-- The class of the arrays of an element type. -/
def makeArrayClass (p : Program) (element : Ty) : ArrayClass :=
  let name := (Ty.array element).text
  ⟨name, element, ⟨name, p.config.lengthFieldName, .int⟩⟩

/-- The number of an array class, which is added if there is none for the element type. -/
def arrayClassId (p : Program) (element : Ty) : Nat × Program :=
  let (id, arrayClasses) := p.arrayClasses.intern element (p.makeArrayClass element)
  (id, { p with arrayClasses })

/-- The class of the arrays of an element type, which is added if there is none. -/
def arrayClass (p : Program) (element : Ty) : ArrayClass × Program :=
  let (id, p) := p.arrayClassId element
  ((p.arrayClasses.get? id).getD (p.makeArrayClass element), p)

/-- The field that holds the type tag of every object. -/
def typeField (p : Program) : FieldSig :=
  ⟨p.config.rootClass, p.config.typeFieldName, .named p.config.classType⟩

/-- The idioms of the program's configuration. -/
def idioms (p : Program) : List Idiom := Idiom.table p.config

/-- Report a finding. -/
def report (p : Program) (d : Diagnostic) : Program := { p with log := p.log.push d }

/-- The program as a record. -/
def inspect (p : Program) : String :=
  Text.openRecord "Program"
    [("methods", toString p.methods.size), ("array_classes", toString p.arrayClasses.size),
      ("globals", toString p.globals.size), ("config", p.config.inspect),
      ("diagnostics", toString p.log.size)]

end Program

/-- Requests to a program. -/
abbrev Session := EStateM Error Program

namespace Session

/-- The global variable of a name, which is added if there is none. A request for another type than
that of the first request fails. -/
def global (name : String) (ty : Ty) : Session Var := do
  let p ← get
  match p.globals.lookup name with
  | some v =>
    if v.ty = ty then return v
    else throw (.lowering (.globalConflict name ty v.ty) .outside)
  | none =>
    let (v, supply) := p.supply.mint name ty .global
    set { p with globals := (p.globals.intern name v).2, supply }
    return v

end Session

end GuardedFlow
