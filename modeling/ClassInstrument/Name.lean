/-!
# Names of classes and methods

A class has one name with three spellings: the java name uses dots (`java.lang.Object`), the
internal name slashes (`java/lang/Object`), and the descriptor wraps the internal name
(`Ljava/lang/Object;`).  This file converts between them and lists the names that the class file
format gives a meaning of its own.
-/

namespace ClassInstrument

namespace Name

/-- The root of the class hierarchy. -/
def object : String := "java/lang/Object"

/-- The root of everything that can be thrown. -/
def throwable : String := "java/lang/Throwable"

/-- The class of string constants. -/
def string : String := "java/lang/String"

/-- The class of class constants. -/
def classObject : String := "java/lang/Class"

/-- The interface that every annotation interface extends. -/
def annotationType : String := "java/lang/annotation/Annotation"

/-- The class of method type constants. -/
def methodType : String := "java/lang/invoke/MethodType"

/-- The name of instance initializers. -/
def constructor : String := "<init>"

/-- The name of class initializers. -/
def staticInitializer : String := "<clinit>"

/-- Replaces one character by another throughout. -/
def exchange (old new : Char) (name : String) : String :=
  String.ofList (name.toList.map fun c => if c = old then new else c)

/-- The internal name of a java name. -/
def ofJava (java : String) : String := exchange '.' '/' java

/-- The java name of an internal name. -/
def toJava (internal : String) : String := exchange '/' '.' internal

/-- The descriptor of the class with an internal name. -/
def toDescriptor (internal : String) : String := "L" ++ internal ++ ";"

/-- The descriptor of the class with a java name. -/
def descriptorOfJava (java : String) : String := toDescriptor (ofJava java)

/-- The internal name inside the descriptor of a class; primitive and array descriptors have none. -/
def ofDescriptor? (descriptor : String) : Option String :=
  match descriptor.toList with
  | 'L' :: rest =>
    if rest.getLast? = some ';' then some (String.ofList rest.dropLast) else none
  | _ => none

/-- Is this the name of instance initializers? -/
def isConstructor (name : String) : Bool := name == constructor

/-- Is this the name of class initializers? -/
def isStaticInitializer (name : String) : Bool := name == staticInitializer

/-- The part of a list before the last occurrence of `c`, if there is one. -/
def beforeLast? (c : Char) (name : List Char) : Option (List Char) :=
  match name.reverse.dropWhile (· != c) with
  | [] => none
  | _ :: front => some front.reverse

/-- The part of a list after the last occurrence of `c`: all of it if there is none. -/
def afterLast (c : Char) (name : List Char) : List Char :=
  (name.reverse.takeWhile (· != c)).reverse

/-- The package of a class as a java name, empty for the default package. -/
def package (internal : String) : String :=
  match beforeLast? '/' internal.toList with
  | some front => toJava (String.ofList front)
  | none => ""

/-- A name derived from a method's that no initializer has: angle brackets become dollar signs. -/
def sanitized (name : String) : String :=
  String.ofList (name.toList.map fun c => if c = '<' ∨ c = '>' then '$' else c)

end Name

end ClassInstrument
