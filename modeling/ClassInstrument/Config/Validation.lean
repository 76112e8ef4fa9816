import ClassInstrument.Classpath.Basic
import ClassInstrument.Config.Fault

/-!
# Checking the classes that a configuration names

A handler has to be a public class with certain public static methods, and an annotation has to be
an annotation interface that is kept in class files.  These checks are made before any class is
instrumented, so that a mistake in a configuration does not lead to classes that call into nothing.
-/

namespace ClassInstrument

namespace Validation

/-- Loads a class by its java name. -/
def load (classpath : Classpath) (java : String) : Except ConfigFault ClassHeader :=
  match classpath.load (Name.ofJava java) with
  | .ok header => .ok header
  | .error (.typeNotFound _) => .error (.classNotFound java)
  | .error cause => .error (.unusable cause)

/-- Loads a class by its java name, and checks that it is public. -/
def loadPublic (classpath : Classpath) (java : String) : Except ConfigFault ClassHeader := do
  let header ← load classpath java
  if header.access.isPublic then return header else throw (.classNotPublic java)

/-- The parameters of a method descriptor, up to the first closing parenthesis. -/
def parameterText (descriptor : String) : String :=
  let chars := descriptor.toList
  let front := chars.takeWhile (· != ')')
  String.ofList (if front.length < chars.length then front ++ [')'] else front)

/-- The parameter types of a method as they are written in a program. -/
def parameterNames (descriptor : String) : List String :=
  match MethodDescriptor.parse descriptor with
  | .ok parsed => parsed.parameters.map FieldType.javaName
  | .error _ => [descriptor]

/-- Checks that a class declares a public static method of a name with the parameters of a
descriptor; the type of the result does not matter. -/
def checkMethod (header : ClassHeader) (name descriptor : String) : Except ConfigFault Unit :=
  let wanted := parameterText descriptor
  let found := header.methods.find? fun method =>
    method.name == name && parameterText method.descriptor == wanted
  match found with
  | none => .error (.methodNotFound (Name.toJava header.name) name (parameterNames descriptor))
  | some method =>
    if method.access.isPublicStatic then .ok ()
    else .error (.methodNotPublicStatic (Name.toJava header.name) name)

/-- The descriptor of the annotation that tells how long an annotation is kept. -/
def retention : String := "Ljava/lang/annotation/Retention;"

/-- Does a value say that an annotation is kept in class files? -/
def isKept : ElementValue → Bool
  | .enum _ constant => constant == "CLASS" || constant == "RUNTIME"
  | _ => false

/-- Is an annotation kept in class files?  It has to say so itself. -/
def isRetained (header : ClassHeader) : Bool :=
  match (header.annotation? retention).bind fun marker => marker.value? "value" with
  | some value => isKept value
  | none => false

/-- Loads an annotation interface by its java name. -/
def loadMarker (classpath : Classpath) (java : String) : Except ConfigFault ClassHeader := do
  let header ← load classpath java
  if !(header.access.isAnnotationType || header.interfaces.contains Name.annotationType) then
    throw (.notAnnotationType java)
  else if !isRetained header then throw (.badRetention java)
  else return header

/-- Checks that an annotation interface declares a property. -/
def checkProperty (header : ClassHeader) (property : String) : Except ConfigFault Unit :=
  let declared := header.methods.any fun method =>
    method.name == property && method.descriptor.startsWith "()"
  if declared then .ok ()
  else .error (.missingAnnotationProperty (Name.toJava header.name) property)

end Validation

end ClassInstrument
