import ClassInstrument.ClassDecl.Basic

/-!
# Editing methods

What the policies have in common: calls of static methods, instructions that return, that load the
receiver or all parameters of a method, the call with which a constructor delegates to another one,
and taking marker annotations off.
-/

namespace ClassInstrument

/-- A static method of a class that is called by injected code. -/
structure Callback where
  /-- The name. -/
  name : String
  /-- The descriptor. -/
  descriptor : String
deriving DecidableEq, Repr

/-- Calls a callback of a class. -/
def Callback.call (callback : Callback) (owner : String) : Instruction :=
  .invokeStatic owner callback.name callback.descriptor

namespace Editing

/-- What the name of a method starts with that keeps the body of a benchmarked one. -/
def movedBodyStart : String := "__benchmark_"

/-- The return instruction for a method with a descriptor. -/
def returnOpcode (descriptor : String) : Opcode :=
  match (resultDescriptor descriptor).toList.head? with
  | some 'V' => Opcode.returnVoid
  | some 'Z' | some 'B' | some 'C' | some 'I' | some 'S' => Opcode.ireturn
  | some 'J' => Opcode.lreturn
  | some 'F' => Opcode.freturn
  | some 'D' => Opcode.dreturn
  | _ => Opcode.areturn

/-- The instruction that pushes the zero that a return instruction returns, if it returns any. -/
def zeroFor? (opcode : Opcode) : Option Opcode :=
  match opcode with
  | Opcode.returnVoid => none
  | Opcode.ireturn => some Opcode.iconst0
  | Opcode.lreturn => some Opcode.lconst0
  | Opcode.freturn => some Opcode.fconst0
  | Opcode.dreturn => some Opcode.dconst0
  | _ => some Opcode.aconstNull

/-- Returns zero, false, null or nothing, whichever the descriptor asks for. -/
def defaultReturn (descriptor : String) : List Instruction :=
  let opcode := returnOpcode descriptor
  ((zeroFor? opcode).toList ++ [opcode]).map Instruction.plain

/-- Pushes the object that a method runs on: the receiver, or the class of a static method. -/
def loadReceiver (owner : String) (isStatic : Bool) : Instruction :=
  if isStatic then .pushClass owner else .aload 0

/-- The opcode that loads a parameter of a type. -/
def loadOpcode : FieldType → Opcode
  | .base .long => Opcode.lload
  | .base .float => Opcode.fload
  | .base .double => Opcode.dload
  | .base _ => Opcode.iload
  | _ => Opcode.aload

/-- Loads variables of given types, which stand one behind the other from a slot on. -/
def loadFrom (slot : UInt16) : List FieldType → List Instruction
  | [] => []
  | type :: rest =>
    .var (loadOpcode type) slot :: loadFrom (slot + UInt16.ofNat type.width) rest

/-- Loads all parameters of a method in order. -/
def loadParameters (descriptor : String) (isStatic : Bool) : Except Fault (List Instruction) := do
  let parsed ← MethodDescriptor.demand descriptor
  return loadFrom (if isStatic then 0 else 1) parsed.parameters

/-- The first slot behind the receiver and the parameters. -/
def firstFreeSlot (descriptor : String) (isStatic : Bool) : Except Fault UInt16 := do
  let parsed ← MethodDescriptor.demand descriptor
  return UInt16.ofNat (parsed.parameterSlots !isStatic)

end Editing

/-! ## Delegating calls -/

/-- Where a constructor calls the constructor it delegates to. -/
inductive DelegatingCall where
  /-- Nowhere. -/
  | missing
  /-- At one position. -/
  | unique (position : Nat)
  /-- At one of several positions. -/
  | ambiguous
deriving DecidableEq, Repr

namespace DelegatingCall

/-- The positions of the calls of constructors of the class or of its superclass that do not
initialize an object created before.  The classes of the created objects that wait for their
constructors are in `created`. -/
def candidates (owner : String) (superName : Option String) (created : List String) :
    List (Instruction × Nat) → List Nat
  | [] => []
  | (.type Opcode.create name, _) :: rest => candidates owner superName (name :: created) rest
  | (.method Opcode.invokespecial callee, position) :: rest =>
    if !Name.isConstructor callee.name then candidates owner superName created rest
    else if created.contains callee.owner then
      candidates owner superName (created.erase callee.owner) rest
    else if callee.owner = owner ∨ some callee.owner = superName then
      position :: candidates owner superName created rest
    else candidates owner superName created rest
  | _ :: rest => candidates owner superName created rest

/-- Looks for the delegating call of a constructor of a class. -/
def find (body : Body) (owner : String) (superName : Option String) : DelegatingCall :=
  match candidates owner superName [] body.instructions.zipIdx with
  | [] => missing
  | [position] => unique position
  | _ => ambiguous

/-- Cuts a range of instructions out of a body, and leaves the labels and lines of the range where
they are. -/
def cutRange (body : Body) (first last : Nat) : List Instruction × Body :=
  let range := (body.instructions.drop first).take (last + 1 - first)
  let (cut, kept) := range.partition Instruction.isReal
  (cut,
    { body with
      instructions := body.instructions.take first ++ kept ++ body.instructions.drop (last + 1) })

/-- Cuts the delegating call out of a constructor, from the first load of the receiver on.  This
fails if there is no unique call, if nothing loads the receiver before it, or if the range holds a
jump. -/
def extract? (body : Body) (owner : String) (superName : Option String) :
    Option (List Instruction × Body) :=
  match find body owner superName with
  | unique call =>
    match (body.instructions.take call).findIdx? (· == .aload 0) with
    | some load =>
      let range := (body.instructions.drop load).take (call + 1 - load)
      if range.all fun instruction => instruction.targets.isEmpty then
        some (cutRange body load call)
      else none
    | none => none
  | _ => none

end DelegatingCall

/-! ## Marker annotations -/

/-- The annotations of a class or a method. -/
structure Marks where
  /-- The annotations visible at run time. -/
  visible : List Annotation
  /-- The annotations invisible at run time. -/
  invisible : List Annotation
deriving Repr

namespace Marks

/-- The annotations of a list without those that have a descriptor. -/
def without (descriptor : String) (annotations : List Annotation) : List Annotation :=
  annotations.filter fun mark => mark.descriptor != descriptor

/-- Does an annotation have a descriptor? -/
def carries (marks : Marks) (descriptor : String) : Bool :=
  (marks.visible ++ marks.invisible).any fun mark => mark.descriptor == descriptor

/-- Takes all annotations with a descriptor off, and tells whether there were any. -/
def stripAll (marks : Marks) (descriptor : String) : Bool × Marks :=
  (marks.carries descriptor,
    ⟨without descriptor marks.visible, without descriptor marks.invisible⟩)

/-- Takes the first annotation with a descriptor off each list, and gives the first of them. -/
def stripFirst (marks : Marks) (descriptor : String) : Option Annotation × Marks :=
  let (fromVisible, visible) := Annotation.removeFirst descriptor marks.visible
  let (fromInvisible, invisible) := Annotation.removeFirst descriptor marks.invisible
  (fromVisible.or fromInvisible, ⟨visible, invisible⟩)

end Marks

/-- The annotations of a method. -/
def Method.marks (method : Method) : Marks := ⟨method.visible, method.invisible⟩

/-- A method with other annotations. -/
def Method.withMarks (method : Method) (marks : Marks) : Method :=
  { method with visible := marks.visible, invisible := marks.invisible }

/-- The annotations of a class. -/
def ClassDecl.marks (decl : ClassDecl) : Marks := ⟨decl.visible, decl.invisible⟩

/-- A class with other annotations. -/
def ClassDecl.withMarks (decl : ClassDecl) (marks : Marks) : ClassDecl :=
  { decl with visible := marks.visible, invisible := marks.invisible }

end ClassInstrument
