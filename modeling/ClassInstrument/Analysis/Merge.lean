import ClassInstrument.Analysis.Transfer
import ClassInstrument.Hierarchy

/-!
# Merging frames

Where paths meet, the frames that they bring are merged value by value.  Equal types stay, the null
reference gives way to any object, and two classes merge into their nearest common superclass.
Local variables without a common type become unusable; stack values without one are an error.

`mergeFrames` gives `none` when the frame already there covers the one that comes in.
-/

namespace ClassInstrument

namespace Merge

/-- The merge of two reference types.  Arrays of references merge element by element; arrays of
primitive types have only the root of the hierarchy in common with other types. -/
def fieldTypes (hierarchy : Hierarchy) : FieldType → FieldType → Except Fault FieldType
  | .array left, .array right => do
    if left = right then return .array left
    else if left.isReference ∧ right.isReference then
      return .array (← fieldTypes hierarchy left right)
    else return .object Name.object
  | .object left, .object right => do
    if left = right then return .object left
    else return .object (← hierarchy.commonSuperclass left right)
  | left, right => do
    if left = right then return left else return .object Name.object

/-- The merge of two classes or array types by the names of their constants. -/
def classNames (hierarchy : Hierarchy) (left right : String) : Except Fault String := do
  let left ← FieldType.demandClass left
  let right ← FieldType.demandClass right
  let merged ← fieldTypes hierarchy left right
  return merged.classConstantName?.getD Name.object

/-- The merge of two types, `none` if they have nothing in common. -/
def types (hierarchy : Hierarchy) (left right : FlowType) : Except Fault (Option FlowType) := do
  if left = right then return some left
  else
    match left, right with
    | .null, .object name => return some (.object name)
    | .object name, .null => return some (.object name)
    | .object left, .object right => return some (.object (← classNames hierarchy left right))
    | _, _ => return none

/-- The merge of two local variables, unusable if they have nothing in common. -/
def locals (hierarchy : Hierarchy) (pair : FlowType × FlowType) : Except Fault FlowType := do
  return (← types hierarchy pair.1 pair.2).getD .top

/-- The merge of two stack values. -/
def stackValues (hierarchy : Hierarchy) (position : Nat) (pair : FlowType × FlowType) :
    Except Fault FlowType := do
  match ← types hierarchy pair.1 pair.2 with
  | some type => return type
  | none => throw (.invalidFrame position (.incompatible pair.1 pair.2))

/-- A list of slots whose last slot does not start a wide variable. -/
def clearWideLast (slots : List FlowType) : List FlowType := Frame.clearWideAt (slots.length - 1) slots

end Merge

/-- The merge of the frame at a position with one that comes in, `none` if nothing changes.
Variables that only one side has are dropped. -/
def mergeFrames (hierarchy : Hierarchy) (position : Nat) (existing incoming : FlowFrame) :
    Except Fault (Option FlowFrame) := do
  let left := existing.stack.toList
  let right := incoming.stack.toList
  if left.length ≠ right.length then
    throw (.invalidFrame position (.heightsDiffer left.length right.length))
  else
    let stack ← (left.zip right).mapM (Merge.stackValues hierarchy position)
    let locals ← (existing.locals.zip incoming.locals).mapM (Merge.locals hierarchy)
    let merged : FlowFrame := ⟨Merge.clearWideLast locals, Slots.ofList stack⟩
    if merged.locals = existing.locals ∧ merged.stack.entries = existing.stack.entries then
      return none
    else return some merged

end ClassInstrument
