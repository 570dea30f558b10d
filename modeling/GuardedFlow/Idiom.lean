import GuardedFlow.Config
import GuardedFlow.Ty

/-!
# Call idioms

Calls of some library methods mean more than a call of an unknown method does. An idiom says which
calls it applies to and which lowering they get; the first idiom of a table that applies to a call
decides. Idioms that answer a query apply only to calls whose result is used.
-/

namespace GuardedFlow

namespace Text

/-- Whether `part` stands somewhere in `s`. -/
def occursIn (part s : String) : Bool :=
  search s.toList
where
  /-- Whether `part` stands somewhere in a list of characters. -/
  search : List Char → Bool
    | [] => part.isEmpty
    | c :: rest => part.toList.isPrefixOf (c :: rest) || search rest

/-- Whether `s` begins with `part`. -/
def beginsWith (part s : String) : Bool :=
  part.toList.isPrefixOf s.toList

end Text

/-- What the table of idioms sees of a call. -/
structure CallSite where
  method : MethodSig
  /-- Whether the result of the call is used. -/
  hasResult : Bool
  deriving DecidableEq, Inhabited

/-- Conditions on the parts of a callee; a condition that is not set holds of every callee. -/
structure MemberPattern where
  classContains : Option String := none
  classPrefix : Option String := none
  name : Option String := none
  signatureContains : Option String := none
  deriving DecidableEq, Inhabited

namespace MemberPattern

/-- Whether all conditions hold of a method. -/
def holds (pattern : MemberPattern) (method : MethodSig) : Bool :=
  pattern.classContains.all (Text.occursIn · method.owner) &&
    pattern.classPrefix.all (Text.beginsWith · method.owner) &&
    pattern.name.all (· == method.name) &&
    pattern.signatureContains.all (Text.occursIn · method.text)

/-- The printed form of the conditions that are set. -/
def text (pattern : MemberPattern) : String :=
  let parts :=
    (pattern.classContains.map ("class~" ++ ·)).toList ++
      (pattern.classPrefix.map ("class^" ++ ·)).toList ++
      (pattern.name.map ("name=" ++ ·)).toList ++
      (pattern.signatureContains.map ("signature~" ++ ·)).toList
  if parts.isEmpty then "any" else ", ".intercalate parts

end MemberPattern

/-- Which methods an idiom is about. -/
inductive Matcher where
  /-- The method with this full signature. -/
  | signature (text : String)
  | member (pattern : MemberPattern)
  deriving DecidableEq, Inhabited

namespace Matcher

/-- Whether a method is one of those described. -/
def holds (matcher : Matcher) (method : MethodSig) : Bool :=
  match matcher with
  | signature text => method.text == text
  | member pattern => pattern.holds method

/-- The printed form of a description. -/
def text : Matcher → String
  | signature text => "signature=" ++ text
  | member pattern => pattern.text

end Matcher

/-- The lowering of a matched call. -/
inductive IdiomKind where
  /-- Assert the argument. -/
  | assertion
  /-- Read the length field of the receiver. -/
  | stringLength
  /-- End the path. -/
  | exit
  /-- Return the zero of the method's return type. -/
  | testFailure
  /-- Assert the argument of a precondition check. -/
  | precondition
  /-- Compare two type objects. -/
  | isAssignableFrom
  /-- Read the type tag of the receiver. -/
  | getClass
  /-- Assert that the argument's type tag is below the receiver, and pass the argument on. -/
  | cast
  /-- Compare the argument's type tag with the receiver. -/
  | isInstance
  deriving DecidableEq, Inhabited

namespace IdiomKind

/-- The name of a lowering. -/
def name : IdiomKind → String
  | assertion => "Assert"
  | stringLength => "StringLength"
  | exit => "Exit"
  | testFailure => "TestFailure"
  | precondition => "Precondition"
  | isAssignableFrom => "IsAssignableFrom"
  | getClass => "GetClass"
  | cast => "Cast"
  | isInstance => "IsInstance"

end IdiomKind

/-- An entry of a table of idioms. -/
structure Idiom where
  matcher : Matcher
  kind : IdiomKind
  /-- Whether the idiom applies only to calls whose result is used. -/
  requiresResult : Bool
  deriving DecidableEq, Inhabited

namespace Idiom

/-- Whether an idiom applies to a call. -/
def applies (idiom : Idiom) (site : CallSite) : Bool :=
  (site.hasResult || !idiom.requiresResult) && idiom.matcher.holds site.method

/-- The idiom as a record. -/
def inspect (idiom : Idiom) : String :=
  Text.record "Idiom"
    [("matcher", Text.quote idiom.matcher.text), ("kind", idiom.kind.name),
      ("requires_result", toString idiom.requiresResult)]

/-- The idioms of a configuration, those that come first having precedence. -/
def table (config : Config) : List Idiom :=
  [⟨.signature config.assertMethod, .assertion, false⟩,
    ⟨.signature config.stringLengthSignature, .stringLength, false⟩,
    ⟨.signature config.exitSignature, .exit, false⟩,
    ⟨.member { classContains := config.testFrameworkClass, name := config.testFailureMethod },
      .testFailure, false⟩,
    ⟨.member { classPrefix := config.preconditionClassPrefix,
               signatureContains := config.preconditionSignature },
      .precondition, false⟩,
    ⟨.signature config.assignableSignature, .isAssignableFrom, true⟩,
    ⟨.signature config.getClassSignature, .getClass, true⟩,
    ⟨.signature config.castSignature, .cast, true⟩,
    ⟨.signature config.isInstanceSignature, .isInstance, true⟩]

/-- The lowering of a call by the first idiom that applies to it. -/
def lookup (idioms : List Idiom) (site : CallSite) : Option IdiomKind :=
  (idioms.find? (·.applies site)).map kind

end Idiom

end GuardedFlow
