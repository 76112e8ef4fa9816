import ClassInstrument.Classpath.Basic

/-!
# Hierarchies over classpaths

A classpath makes a hierarchy, alone or behind a catalog, which comes first.

A computation that uses such a hierarchy asks for classes on the way, and the classpath remembers
them.  Which ones it asks for is found out by `Classpath.afterUse`: the computation runs with the
classes that are remembered, and as long as it fails because of a class that is not, the classpath is
asked for that class.
-/

namespace ClassInstrument

/-- The hierarchy of the classes on a classpath. -/
def Classpath.hierarchy (classpath : Classpath) : Hierarchy where
  shape name := do return (← classpath.load name).shape

namespace Catalog

/-- The hierarchy of the classes in a catalog, and on a classpath behind them. -/
def hierarchy (catalog : Catalog) (classpath : Classpath) : Hierarchy where
  shape name :=
    match catalog.class? name with
    | some fact => .ok fact.shape
    | none => do return (← classpath.load name).shape

/-- The hierarchy of the classes in a catalog and of those that a classpath remembers. -/
def remembered (catalog : Catalog) (classpath : Classpath) : Hierarchy where
  shape name :=
    match catalog.class? name with
    | some fact => .ok fact.shape
    | none =>
      match classpath.memory.header? name with
      | some header => .ok header.shape
      | none => .error (.typeNotFound name)

end Catalog

/-- The classpath after a computation has used the hierarchy of a catalog and the classpath, and has
asked for so many classes at most. -/
def Classpath.afterUse {α : Type} (classpath : Classpath) (catalog : Catalog)
    (use : Hierarchy → Except Fault α) : Nat → Classpath
  | 0 => classpath
  | count + 1 =>
    match use (catalog.remembered classpath) with
    | .error (.typeNotFound name) =>
      let asked := classpath.afterAsking name
      if (classpath.memory.header? name).isNone && (asked.memory.header? name).isSome then
        asked.afterUse catalog use count
      else asked
    | _ => classpath

end ClassInstrument
