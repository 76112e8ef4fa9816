import ClassInstrument.Fault

/-!
# Class hierarchies

A hierarchy answers what the superclass and the interfaces of a class are.  Over such answers this
file decides assignability, by a search of the supertypes, and finds the common superclass of two
classes, by climbing from the first until the second is assignable.

Neither walk has a bound.  The search remembers where it has been, so it ends whenever finitely many
names are above a class; the climb does not, and goes on for ever along superclasses that form a
cycle.  A walk that never ends has the value `none`.
-/

namespace ClassInstrument

/-- What a walk through a hierarchy has to know about a class. -/
structure ClassShape where
  /-- The superclass. -/
  superName : Option String
  /-- The interfaces. -/
  interfaces : List String
  /-- Is the class an interface? -/
  isInterface : Bool
deriving DecidableEq, Repr

/-- The supertypes of a class: the superclass, then the interfaces. -/
def ClassShape.supertypes (shape : ClassShape) : List String :=
  shape.superName.toList ++ shape.interfaces

/-- Answers about the classes that a program may mention. -/
structure Hierarchy where
  /-- The shape of a class. -/
  shape : String → Except Fault ClassShape

namespace Hierarchy

/-- Adds names to those seen and to those to visit next, last one first, unless already seen. -/
def visitLater (names : List String) (pending seen : List String) :
    List String × List String :=
  names.foldl
    (fun (pending, seen) name =>
      if seen.contains name then (pending, seen) else (name :: pending, name :: seen))
    (pending, seen)

/-- Is a class among those to visit or above one of them? -/
def isReachable (hierarchy : Hierarchy) (target : String) (pending seen : List String) :
    Option (Except Fault Bool) :=
  match pending with
  | [] => some (.ok false)
  | name :: pending =>
    if name = target then some (.ok true)
    else
      match hierarchy.shape name with
      | .error fault => some (.error fault)
      | .ok shape =>
        hierarchy |>.isReachable target (visitLater shape.supertypes pending seen).1
          (visitLater shape.supertypes pending seen).2
partial_fixpoint

/-- Can a value of the first type be assigned to the second?  Everything is assignable to the root
of the hierarchy. -/
def isAssignable (hierarchy : Hierarchy) (sub super : String) : Except Fault Bool :=
  if sub = super ∨ super = Name.object then .ok true
  else (hierarchy.isReachable super [sub] [sub]).getD (.error (.endlessSuperclasses sub))

/-- The nearest class above `name` to which `other` is assignable. -/
def climb (hierarchy : Hierarchy) (other name : String) : Option (Except Fault String) :=
  match hierarchy.shape name with
  | .error fault => some (.error fault)
  | .ok shape =>
    match shape.superName with
    | none => some (.ok Name.object)
    | some superName =>
      match hierarchy.isAssignable other superName with
      | .error fault => some (.error fault)
      | .ok true => some (.ok superName)
      | .ok false => hierarchy |>.climb other superName
partial_fixpoint

/-- The nearest common superclass of two classes.  Interfaces that are not assignable to one
another have only the root of the hierarchy in common. -/
def commonSuperclass (hierarchy : Hierarchy) (first second : String) : Except Fault String := do
  if ← hierarchy.isAssignable second first then return first
  else if ← hierarchy.isAssignable first second then return second
  else if (← hierarchy.shape first).isInterface then return Name.object
  else if (← hierarchy.shape second).isInterface then return Name.object
  else (hierarchy.climb second first).getD (.error (.endlessSuperclasses first))

end Hierarchy

end ClassInstrument
