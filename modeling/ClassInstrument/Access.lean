/-!
# Access flags

The flags of classes and methods are two bytes.  Only the bits that the class file format defines
are kept, so `ofBits` forgets the others.
-/

namespace ClassInstrument

/-- The access flags of a class. -/
structure ClassAccess where
  /-- The flags as a bit set. -/
  bits : UInt16
deriving DecidableEq, Repr

namespace ClassAccess

/-- The bits that classes may carry: public, final, super, interface, abstract, synthetic,
annotation, enum and module. -/
def known : UInt16 := 0xF631

/-- The known flags among the given bits. -/
def ofBits (bits : UInt16) : ClassAccess := ⟨bits &&& known⟩

/-- Is every bit of the mask set? -/
def has (access : ClassAccess) (mask : UInt16) : Bool := access.bits &&& mask == mask

/-- Can classes of other packages name this one? -/
def isPublic (access : ClassAccess) : Bool := access.has 0x0001

/-- Is this an interface? -/
def isInterface (access : ClassAccess) : Bool := access.has 0x0200

/-- Is this an annotation interface? -/
def isAnnotationType (access : ClassAccess) : Bool := access.has 0x2000

end ClassAccess

/-- The access flags of a method. -/
structure MethodAccess where
  /-- The flags as a bit set. -/
  bits : UInt16
deriving DecidableEq, Repr

namespace MethodAccess

/-- The bits that methods may carry: public, private, protected, static, final, synchronized,
bridge, varargs, native, abstract, strict and synthetic. -/
def known : UInt16 := 0x1DFF

/-- The known flags among the given bits. -/
def ofBits (bits : UInt16) : MethodAccess := ⟨bits &&& known⟩

/-- Is every bit of the mask set? -/
def has (access : MethodAccess) (mask : UInt16) : Bool := access.bits &&& mask == mask

/-- Is the method visible only in its own class? -/
def isPrivate (access : MethodAccess) : Bool := access.has 0x0002

/-- Does the method run without a receiver? -/
def isStatic (access : MethodAccess) : Bool := access.has 0x0008

/-- Is the method both public and static? -/
def isPublicStatic (access : MethodAccess) : Bool := access.has 0x0009

/-- Is the method declared without a body? -/
def isAbstract (access : MethodAccess) : Bool := access.has 0x0400

/-- The flags that decide whether two methods occupy the same override slot: visibility and the
other modifiers may change between a method and its override, privacy and staticness may not. -/
def overrideBits (access : MethodAccess) : UInt16 := access.bits &&& 0x000A

/-- The same method made private. -/
def madePrivate (access : MethodAccess) : MethodAccess :=
  ⟨(access.bits &&& ~~~(0x0005 : UInt16)) ||| 0x0002⟩

end MethodAccess

end ClassInstrument
