import ClassInstrument.Code.Label
import ClassInstrument.Code.Opcode
import ClassInstrument.Pool.Basic

/-!
# Instructions

Instructions of a body that is being edited, grouped by the shape of their operands.  Details of
the written form disappear here: short and wide forms of loads, stores and increments are one shape,
all ways to push a constant are one shape, and jumps lead to labels instead of offsets.  Labels and
line numbers stand in the instruction list as well; they mark a place and do nothing.
-/

namespace ClassInstrument

/-- A constant that an instruction pushes. -/
inductive Loadable where
  /-- A number of type `int`. -/
  | int (value : Int32)
  /-- A number of type `float`, as its bits. -/
  | float (bits : UInt32)
  /-- A number of type `long`. -/
  | long (value : Int64)
  /-- A number of type `double`, as its bits. -/
  | double (bits : UInt64)
  /-- A text. -/
  | string (text : String)
  /-- A class. -/
  | cls (name : String)
  /-- A method descriptor. -/
  | methodType (descriptor : String)
  /-- A method handle or computed value, left in the table of constants, with the descriptor of
  the value it stands for. -/
  | pooled (index : PoolIndex) (descriptor : String)
deriving DecidableEq, Repr

/-- Does the constant take two stack slots? -/
def Loadable.isWide : Loadable → Bool
  | long _ | double _ => true
  | pooled _ descriptor => descriptor == "J" || descriptor == "D"
  | _ => false

/-- An entry of an instruction list. -/
inductive Instruction where
  /-- The place of a label. -/
  | label (label : Label)
  /-- What follows comes from this source line. -/
  | line (number : UInt16)
  /-- An instruction without operands. -/
  | plain (opcode : Opcode)
  /-- A small number or a primitive array type. -/
  | int (opcode : Opcode) (value : Int32)
  /-- A load or store of a local variable. -/
  | var (opcode : Opcode) (slot : UInt16)
  /-- An addition to a local variable. -/
  | increment (slot : UInt16) (delta : Int16)
  /-- A creation, check or test with a class. -/
  | type (opcode : Opcode) (name : String)
  /-- An access to a field. -/
  | field (opcode : Opcode) (field : Member)
  /-- A call of a method. -/
  | method (opcode : Opcode) (method : Member)
  /-- A computed call, which stays attached to its constant. -/
  | invokeDynamic (site : PoolIndex) (descriptor : String)
  /-- A jump to a label. -/
  | jump (opcode : Opcode) (target : Label)
  /-- A push of a constant. -/
  | load (constant : Loadable)
  /-- A jump by a dense table whose first key is `low`. -/
  | tableSwitch (low : Int32) (default : Label) (targets : List Label)
  /-- A jump by a table of keys. -/
  | lookupSwitch (default : Label) (pairs : List (Int32 × Label))
  /-- A creation of an array of several dimensions. -/
  | multiArray (name : String) (dimensions : UInt8)
deriving DecidableEq, Repr

namespace Instruction

/-- Is the entry an instruction, as opposed to a label or a line number? -/
def isReal : Instruction → Bool
  | label _ | line _ => false
  | _ => true

/-- Can control continue with the next entry? -/
def fallsThrough : Instruction → Bool
  | plain opcode => !(opcode.isReturn || opcode == Opcode.athrow)
  | jump opcode _ =>
    !(opcode == Opcode.goto || opcode == Opcode.gotoWide || opcode == Opcode.jsr ||
      opcode == Opcode.jsrWide)
  | var opcode _ => opcode != Opcode.ret
  | tableSwitch .. | lookupSwitch .. => false
  | _ => true

/-- The labels that control may be transferred to, falling through not counted. -/
def targets : Instruction → List Label
  | jump _ target => [target]
  | tableSwitch _ default targets => default :: targets
  | lookupSwitch default pairs => default :: pairs.map Prod.snd
  | _ => []

/-- Does the instruction return from the method? -/
def isReturn : Instruction → Bool
  | plain opcode => opcode.isReturn
  | _ => false

/-- Loads a reference from a local variable. -/
def aload (slot : UInt16) : Instruction := var Opcode.aload slot

/-- Calls a static method of a class. -/
def invokeStatic (owner name descriptor : String) : Instruction :=
  method Opcode.invokestatic { owner, name, descriptor }

/-- Pushes a text. -/
def pushString (text : String) : Instruction := load (.string text)

/-- Pushes a class. -/
def pushClass (name : String) : Instruction := load (.cls name)

/-- Pushes an `int` by the shortest instruction there is. -/
def pushInt (value : Int32) : Instruction :=
  let n := value.toInt
  if -1 ≤ n ∧ n ≤ 5 then plain (UInt8.ofNat (n + Opcode.iconst0.toNat).toNat)
  else if -128 ≤ n ∧ n ≤ 127 then int Opcode.bipush value
  else if -32768 ≤ n ∧ n ≤ 32767 then int Opcode.sipush value
  else load (.int value)

/-- Pushes a `long` by the shortest instruction there is. -/
def pushLong (value : Int64) : Instruction :=
  if value = 0 then plain Opcode.lconst0
  else if value = 1 then plain Opcode.lconst1
  else load (.long value)

end Instruction

end ClassInstrument
