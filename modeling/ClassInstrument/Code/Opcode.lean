/-!
# Opcodes

An instruction starts with an opcode of one byte.  This file names the opcodes that the library
treats one by one, and sorts all of them by the form of the operands that follow them in bytecode.
-/

namespace ClassInstrument

/-- The first byte of an instruction. -/
abbrev Opcode := UInt8

namespace Opcode

/-- Does nothing. -/
@[match_pattern] abbrev nop : Opcode := 0

/-- Pushes the null reference. -/
@[match_pattern] abbrev aconstNull : Opcode := 1

/-- Pushes the `int` zero. -/
@[match_pattern] abbrev iconst0 : Opcode := 3

/-- Pushes the `long` zero. -/
@[match_pattern] abbrev lconst0 : Opcode := 9

/-- Pushes the `long` one. -/
@[match_pattern] abbrev lconst1 : Opcode := 10

/-- Pushes the `float` zero. -/
@[match_pattern] abbrev fconst0 : Opcode := 11

/-- Pushes the `double` zero. -/
@[match_pattern] abbrev dconst0 : Opcode := 14

/-- Pushes an `int` given in one byte. -/
@[match_pattern] abbrev bipush : Opcode := 16

/-- Pushes an `int` given in two bytes. -/
@[match_pattern] abbrev sipush : Opcode := 17

/-- Pushes a constant with a one-byte index. -/
@[match_pattern] abbrev ldc : Opcode := 18

/-- Pushes a constant with a two-byte index. -/
@[match_pattern] abbrev ldcWide : Opcode := 19

/-- Pushes a constant of two slots. -/
@[match_pattern] abbrev ldc2Wide : Opcode := 20

/-- Loads an `int` from a local variable. -/
@[match_pattern] abbrev iload : Opcode := 21

/-- Loads a `long` from a local variable. -/
@[match_pattern] abbrev lload : Opcode := 22

/-- Loads a `float` from a local variable. -/
@[match_pattern] abbrev fload : Opcode := 23

/-- Loads a `double` from a local variable. -/
@[match_pattern] abbrev dload : Opcode := 24

/-- Loads a reference from a local variable. -/
@[match_pattern] abbrev aload : Opcode := 25

/-- Loads an `int` from local variable `0`, the first of the short load forms. -/
@[match_pattern] abbrev iload0 : Opcode := 26

/-- Stores an `int` in a local variable. -/
@[match_pattern] abbrev istore : Opcode := 54

/-- Stores a `long` in a local variable. -/
@[match_pattern] abbrev lstore : Opcode := 55

/-- Stores a reference in a local variable. -/
@[match_pattern] abbrev astore : Opcode := 58

/-- Stores an `int` in local variable `0`, the first of the short store forms. -/
@[match_pattern] abbrev istore0 : Opcode := 59

/-- Doubles the last value. -/
@[match_pattern] abbrev dup : Opcode := 89

/-- Doubles the last two slots. -/
@[match_pattern] abbrev dup2 : Opcode := 92

/-- Exchanges the last two values. -/
@[match_pattern] abbrev swap : Opcode := 95

/-- Subtracts two `long` values. -/
@[match_pattern] abbrev lsub : Opcode := 101

/-- Negates a `long` value. -/
@[match_pattern] abbrev lneg : Opcode := 117

/-- Adds to a local variable. -/
@[match_pattern] abbrev iinc : Opcode := 132

/-- Compares two `long` values. -/
@[match_pattern] abbrev lcmp : Opcode := 148

/-- Jumps if an `int` is zero, the first of the paired conditional jumps. -/
@[match_pattern] abbrev ifeq : Opcode := 153

/-- Jumps if an `int` is not negative. -/
@[match_pattern] abbrev ifge : Opcode := 156

/-- Jumps if two references are equal. -/
@[match_pattern] abbrev ifAcmpeq : Opcode := 165

/-- Jumps if two references differ. -/
@[match_pattern] abbrev ifAcmpne : Opcode := 166

/-- Jumps. -/
@[match_pattern] abbrev goto : Opcode := 167

/-- Calls a subroutine. -/
@[match_pattern] abbrev jsr : Opcode := 168

/-- Returns from a subroutine. -/
@[match_pattern] abbrev ret : Opcode := 169

/-- Jumps by a dense table. -/
@[match_pattern] abbrev tableswitch : Opcode := 170

/-- Jumps by a sparse table. -/
@[match_pattern] abbrev lookupswitch : Opcode := 171

/-- Returns an `int`. -/
@[match_pattern] abbrev ireturn : Opcode := 172

/-- Returns a `long`. -/
@[match_pattern] abbrev lreturn : Opcode := 173

/-- Returns a `float`. -/
@[match_pattern] abbrev freturn : Opcode := 174

/-- Returns a `double`. -/
@[match_pattern] abbrev dreturn : Opcode := 175

/-- Returns a reference. -/
@[match_pattern] abbrev areturn : Opcode := 176

/-- Returns nothing. -/
@[match_pattern] abbrev returnVoid : Opcode := 177

/-- Reads a static field. -/
@[match_pattern] abbrev getstatic : Opcode := 178

/-- Writes a static field. -/
@[match_pattern] abbrev putstatic : Opcode := 179

/-- Reads a field. -/
@[match_pattern] abbrev getfield : Opcode := 180

/-- Writes a field. -/
@[match_pattern] abbrev putfield : Opcode := 181

/-- Calls a method by the class of the receiver. -/
@[match_pattern] abbrev invokevirtual : Opcode := 182

/-- Calls a constructor, a private method or a method of the superclass. -/
@[match_pattern] abbrev invokespecial : Opcode := 183

/-- Calls a static method. -/
@[match_pattern] abbrev invokestatic : Opcode := 184

/-- Calls a method of an interface. -/
@[match_pattern] abbrev invokeinterface : Opcode := 185

/-- Calls a computed call site. -/
@[match_pattern] abbrev invokedynamic : Opcode := 186

/-- Creates an object. -/
@[match_pattern] abbrev create : Opcode := 187

/-- Creates an array of a primitive type. -/
@[match_pattern] abbrev newarray : Opcode := 188

/-- Creates an array of references. -/
@[match_pattern] abbrev anewarray : Opcode := 189

/-- Gives the length of an array. -/
@[match_pattern] abbrev arraylength : Opcode := 190

/-- Throws an object. -/
@[match_pattern] abbrev athrow : Opcode := 191

/-- Checks the class of an object. -/
@[match_pattern] abbrev checkcast : Opcode := 192

/-- Widens the operands of the next instruction. -/
@[match_pattern] abbrev wide : Opcode := 196

/-- Creates an array of several dimensions. -/
@[match_pattern] abbrev multianewarray : Opcode := 197

/-- Jumps if a reference is null. -/
@[match_pattern] abbrev ifnull : Opcode := 198

/-- Jumps if a reference is not null. -/
@[match_pattern] abbrev ifnonnull : Opcode := 199

/-- Jumps by a four-byte offset. -/
@[match_pattern] abbrev gotoWide : Opcode := 200

/-- Calls a subroutine by a four-byte offset. -/
@[match_pattern] abbrev jsrWide : Opcode := 201

/-- Does an opcode lie in a range, ends included? -/
def isBetween (opcode first last : Opcode) : Bool := first ≤ opcode && opcode ≤ last

/-- Does the opcode load a local variable whose slot is an operand? -/
def isLoad (opcode : Opcode) : Bool := opcode.isBetween iload aload

/-- Does the opcode store a local variable whose slot is an operand? -/
def isStore (opcode : Opcode) : Bool := opcode.isBetween istore astore

/-- Does the opcode return from the method? -/
def isReturn (opcode : Opcode) : Bool := opcode.isBetween ireturn returnVoid

/-- Does the opcode jump by a four-byte offset? -/
def isWideJump (opcode : Opcode) : Bool := opcode == gotoWide || opcode == jsrWide

/-- The conditional jump that is taken exactly when this one is not; the paired jumps alternate. -/
def inverse? (opcode : Opcode) : Option Opcode :=
  if opcode.isBetween ifeq ifAcmpne then
    some (if (opcode.toNat - ifeq.toNat) % 2 = 0 then opcode + 1 else opcode - 1)
  else
    match opcode with
    | ifnull => some ifnonnull
    | ifnonnull => some ifnull
    | _ => none

/-- The form of the operands of an instruction. -/
inductive Form where
  /-- No operands. -/
  | plain
  /-- A signed byte. -/
  | signedByte
  /-- Two bytes, signed. -/
  | signedShort
  /-- A one-byte index of a constant to push. -/
  | shortConstant
  /-- A two-byte index of a constant to push. -/
  | longConstant
  /-- A one-byte slot. -/
  | slot
  /-- No operands: the opcode stands for a load or store of a small slot. -/
  | impliedSlot (opcode : Opcode) (slot : UInt16)
  /-- A slot and a signed byte. -/
  | increment
  /-- A two-byte jump. -/
  | jump
  /-- A four-byte jump. -/
  | wideJump
  /-- Padding, a default and a dense table. -/
  | denseTable
  /-- Padding, a default and a sparse table. -/
  | sparseTable
  /-- An index of a field. -/
  | field
  /-- An index of a method. -/
  | method
  /-- An index of an interface method, its argument count and a zero. -/
  | interfaceMethod
  /-- An index of a call site and two zeros. -/
  | callSite
  /-- An index of a class. -/
  | type
  /-- An unsigned byte. -/
  | unsignedByte
  /-- Another opcode with wide operands. -/
  | wide
  /-- An index of a class and a number of dimensions. -/
  | dimensions
  /-- No instruction has the opcode. -/
  | unknown
deriving DecidableEq, Repr

/-- The form of the operands after an opcode.  The short forms of loads and stores come in groups
of four, one group for each type. -/
def form (opcode : Opcode) : Form :=
  let n := opcode.toNat
  if n ≤ 15 then .plain
  else if n = 16 then .signedByte
  else if n = 17 then .signedShort
  else if n = 18 then .shortConstant
  else if n ≤ 20 then .longConstant
  else if n ≤ 25 then .slot
  else if n ≤ 45 then
    .impliedSlot (UInt8.ofNat (iload.toNat + (n - 26) / 4)) (UInt16.ofNat ((n - 26) % 4))
  else if n ≤ 53 then .plain
  else if n ≤ 58 then .slot
  else if n ≤ 78 then
    .impliedSlot (UInt8.ofNat (istore.toNat + (n - 59) / 4)) (UInt16.ofNat ((n - 59) % 4))
  else if n ≤ 131 then .plain
  else if n = 132 then .increment
  else if n ≤ 152 then .plain
  else if n ≤ 168 then .jump
  else if n = 169 then .slot
  else if n = 170 then .denseTable
  else if n = 171 then .sparseTable
  else if n ≤ 177 then .plain
  else if n ≤ 181 then .field
  else if n ≤ 184 then .method
  else if n = 185 then .interfaceMethod
  else if n = 186 then .callSite
  else if n = 187 then .type
  else if n = 188 then .unsignedByte
  else if n = 189 then .type
  else if n ≤ 191 then .plain
  else if n ≤ 193 then .type
  else if n ≤ 195 then .plain
  else if n = 196 then .wide
  else if n = 197 then .dimensions
  else if n ≤ 199 then .jump
  else if n ≤ 201 then .wideJump
  else .unknown

end Opcode

end ClassInstrument
