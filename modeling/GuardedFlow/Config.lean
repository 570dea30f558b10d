import GuardedFlow.Text.Quoted

/-!
# Configuration

The library methods whose calls have a lowering of their own, and the names of the classes and fields
that the heap model introduces. Signatures are given in the printed form of methods.
-/

namespace GuardedFlow

/-- The configuration of a program. -/
structure Config where
  /-- The method whose calls are assertions. -/
  assertMethod : String
  /-- The query of the length of a string. -/
  stringLengthSignature : String
  /-- The call that ends the process. -/
  exitSignature : String
  /-- A part of the names of the classes of the test framework. -/
  testFrameworkClass : String
  /-- The name of the method of these classes that fails a test. -/
  testFailureMethod : String
  /-- How the names of the classes with precondition checks begin. -/
  preconditionClassPrefix : String
  /-- A part of the signature of a precondition check. -/
  preconditionSignature : String
  /-- The query whether one type object can be assigned to another. -/
  assignableSignature : String
  /-- The query of the type object of a receiver. -/
  getClassSignature : String
  /-- The checked cast through a type object. -/
  castSignature : String
  /-- The query whether an object is an instance of a type object. -/
  isInstanceSignature : String
  /-- The class that declares the type tag of all objects. -/
  rootClass : String
  /-- The class of type objects. -/
  classType : String
  /-- The class of strings. -/
  stringClass : String
  /-- The name of the field for the type tag. -/
  typeFieldName : String
  /-- The name of the field for the length of strings and arrays. -/
  lengthFieldName : String
  /-- Whether indirect calls are refused. -/
  strictUnsupported : Bool
  deriving DecidableEq, Inhabited

namespace Config

/-- The configuration for the standard library of the managed runtime. -/
def standard : Config where
  assertMethod := "<cfglift.Assertions: void check(boolean)>"
  stringLengthSignature := "<java.lang.String: int length()>"
  exitSignature := "<java.lang.System: void exit(int)>"
  testFrameworkClass := "org.junit.Assert"
  testFailureMethod := "fail"
  preconditionClassPrefix := "com.google.common.base."
  preconditionSignature := "void checkArgument(boolean)"
  assignableSignature := "<java.lang.Class: boolean isAssignableFrom(java.lang.Class)>"
  getClassSignature := "<java.lang.Object: java.lang.Class getClass()>"
  castSignature := "<java.lang.Class: java.lang.Object cast(java.lang.Object)>"
  isInstanceSignature := "<java.lang.Class: boolean isInstance(java.lang.Object)>"
  rootClass := "java.lang.Object"
  classType := "java.lang.Class"
  stringClass := "java.lang.String"
  typeFieldName := "$dynamicType"
  lengthFieldName := "$length"
  strictUnsupported := false

/-- The standard configuration, in which indirect calls are refused. -/
def strict : Config := { standard with strictUnsupported := true }

/-- The settings that are texts, by name and in the order of the fields. -/
def texts (c : Config) : List (String × String) :=
  [("assert_method", c.assertMethod),
    ("string_length_signature", c.stringLengthSignature),
    ("exit_signature", c.exitSignature),
    ("test_framework_class", c.testFrameworkClass),
    ("test_failure_method", c.testFailureMethod),
    ("precondition_class_prefix", c.preconditionClassPrefix),
    ("precondition_signature", c.preconditionSignature),
    ("assignable_signature", c.assignableSignature),
    ("get_class_signature", c.getClassSignature),
    ("cast_signature", c.castSignature),
    ("is_instance_signature", c.isInstanceSignature),
    ("root_class", c.rootClass),
    ("class_type", c.classType),
    ("string_class", c.stringClass),
    ("type_field_name", c.typeFieldName),
    ("length_field_name", c.lengthFieldName)]

/-- Change a setting that is a text; nothing if there is none of this name. -/
def setText (c : Config) (name value : String) : Option Config :=
  match name with
  | "assert_method" => some { c with assertMethod := value }
  | "string_length_signature" => some { c with stringLengthSignature := value }
  | "exit_signature" => some { c with exitSignature := value }
  | "test_framework_class" => some { c with testFrameworkClass := value }
  | "test_failure_method" => some { c with testFailureMethod := value }
  | "precondition_class_prefix" => some { c with preconditionClassPrefix := value }
  | "precondition_signature" => some { c with preconditionSignature := value }
  | "assignable_signature" => some { c with assignableSignature := value }
  | "get_class_signature" => some { c with getClassSignature := value }
  | "cast_signature" => some { c with castSignature := value }
  | "is_instance_signature" => some { c with isInstanceSignature := value }
  | "root_class" => some { c with rootClass := value }
  | "class_type" => some { c with classType := value }
  | "string_class" => some { c with stringClass := value }
  | "type_field_name" => some { c with typeFieldName := value }
  | "length_field_name" => some { c with lengthFieldName := value }
  | _ => none

/-- The configuration as a record. -/
def inspect (c : Config) : String :=
  Text.record "TranslatorConfig" <|
    c.texts.map (fun (name, value) => (name, Text.quote value)) ++
      [("strict_unsupported", toString c.strictUnsupported)]

end Config

end GuardedFlow
