import ClassInstrument.Fault
import ClassInstrument.Text.ModifiedUtf8
import Std.Data.HashMap

/-!
# The table of constants

A pool read from a class keeps every constant at its index, so whatever refers to it by index stays
valid.  New constants are only ever appended, and asking for a constant that is already there gives
the first index that holds it.

Index `0` holds nothing, and neither does the index after an eight-byte number.  Requests are
written in the monad `Interning`, which keeps what was added before a request failed.
-/

namespace ClassInstrument

/-- What makes slots and positions a table of constants: index `0` holds nothing, indices take two
bytes, and the positions tell the first index that holds each constant. -/
structure IsConstantTable (slots : Array (Option Constant))
    (positions : Std.HashMap Constant PoolIndex) : Prop where
  zero_eq : slots[0]? = some none
  size_le : slots.size ≤ 65536
  position_iff : ∀ (constant : Constant) (index : PoolIndex), positions[constant]? = some index ↔
    slots[index.toNat]? = some (some constant) ∧
      ∀ earlier < index.toNat, slots[earlier]? ≠ some (some constant)

namespace IsConstantTable

variable {slots : Array (Option Constant)} {positions : Std.HashMap Constant PoolIndex}

/-- The slots with a constant behind the others; an eight-byte number is followed by an empty one. -/
def appendSlot (slots : Array (Option Constant)) (constant : Constant) :
    Array (Option Constant) :=
  if constant.isWide then (slots.push (some constant)).push none else slots.push (some constant)

/-- Only the index behind the others changes what it holds when a constant is added. -/
theorem getElem?_appendSlot (slots : Array (Option Constant)) (constant other : Constant)
    (i : Nat) :
    (appendSlot slots constant)[i]? = some (some other) ↔
      slots[i]? = some (some other) ∨ (i = slots.size ∧ constant = other) := by
  unfold appendSlot
  split <;> grind

/-- A constant takes one place or two. -/
theorem size_appendSlot (slots : Array (Option Constant)) (constant : Constant) :
    (appendSlot slots constant).size = slots.size + constant.places := by
  unfold appendSlot Constant.places
  split <;> simp

/-- A constant that some slot holds is held by a first one. -/
theorem exists_first {constant : Constant} {i : Nat} (h : slots[i]? = some (some constant)) :
    ∃ first : Nat, slots[first]? = some (some constant) ∧
      ∀ earlier < first, slots[earlier]? ≠ some (some constant) := by
  induction i using Nat.strongRecOn with
  | ind i ih =>
    by_cases hex : ∃ earlier < i, slots[earlier]? = some (some constant)
    · obtain ⟨earlier, hlt, hheld⟩ := hex
      exact ih earlier hlt hheld
    · exact ⟨i, h, fun earlier hlt hheld => hex ⟨earlier, hlt, hheld⟩⟩

/-- A constant that some slot holds has a position. -/
theorem exists_position (valid : IsConstantTable slots positions) {constant : Constant} {i : Nat}
    (h : slots[i]? = some (some constant)) :
    ∃ index : PoolIndex, positions[constant]? = some index := by
  obtain ⟨first, hheld, hfirst⟩ := exists_first h
  have hlt : first < slots.size := by grind
  have hsize := valid.size_le
  have hnat : (UInt16.ofNat first).toNat = first :=
    UInt16.toNat_ofNat_of_lt' (by simp only [UInt16.size]; omega)
  refine ⟨UInt16.ofNat first, (valid.position_iff _ _).mpr ?_⟩
  rw [hnat]
  exact ⟨hheld, hfirst⟩

/-- A constant added behind the others keeps a table valid. -/
theorem append (valid : IsConstantTable slots positions) (constant : Constant)
    (room : slots.size < 65535) :
    IsConstantTable (appendSlot slots constant)
      (positions.insertIfNew constant (UInt16.ofNat slots.size)) where
  zero_eq := by
    have hzero := valid.zero_eq
    unfold appendSlot
    split <;> grind
  size_le := by
    rw [size_appendSlot, Constant.places]
    split <;> omega
  position_iff := by
    intro other index
    have hnat : (UInt16.ofNat slots.size).toNat = slots.size :=
      UInt16.toNat_ofNat_of_lt' (by simp only [UInt16.size]; omega)
    have hbound : ∀ (i : Nat) (c : Constant), slots[i]? = some (some c) → i < slots.size := by
      grind
    simp only [Std.HashMap.getElem?_insertIfNew, getElem?_appendSlot, ne_eq, not_or]
    by_cases hnew : constant = other ∧ constant ∉ positions
    · obtain ⟨rfl, hmem⟩ := hnew
      have habsent : ∀ i : Nat, slots[i]? ≠ some (some constant) := by
        intro i hi
        obtain ⟨found, hfound⟩ := valid.exists_position hi
        exact hmem (Std.HashMap.mem_iff_isSome_getElem?.mpr (by simp [hfound]))
      simp only [BEq.rfl, hmem, not_false_eq_true, and_self, ↓reduceIte, Option.some.injEq,
        habsent, false_or, and_true, true_and]
      constructor
      · rintro rfl
        exact ⟨hnat, fun earlier hearlier => by omega⟩
      · rintro ⟨hindex, -⟩
        exact UInt16.toNat_inj.mp (by rw [hnat, hindex])
    · have hold : ¬((constant == other) = true ∧ constant ∉ positions) := by simpa using hnew
      rw [if_neg hold, valid.position_iff]
      have hsame : ∀ i : Nat, i = slots.size ∧ constant = other →
          ∃ j < i, slots[j]? = some (some other) := by
        rintro i ⟨rfl, rfl⟩
        have hmem : constant ∈ positions := by simpa using hnew
        obtain ⟨found, hfound⟩ :=
          Option.isSome_iff_exists.mp (Std.HashMap.mem_iff_isSome_getElem?.mp hmem)
        have hheld := ((valid.position_iff _ _).mp hfound).1
        exact ⟨found.toNat, hbound _ _ hheld, hheld⟩
      constructor
      · rintro ⟨hheld, hfirst⟩
        have hlt := hbound _ _ hheld
        exact ⟨Or.inl hheld, fun earlier hearlier => ⟨hfirst earlier hearlier, by omega⟩⟩
      · rintro ⟨hheld | hlast, hfirst⟩
        · exact ⟨hheld, fun earlier hearlier => (hfirst earlier hearlier).1⟩
        · obtain ⟨j, hj, hheld⟩ := hsame _ hlast
          exact absurd hheld (hfirst j hj).1

end IsConstantTable

/-- A table of constants. -/
structure Pool where
  /-- What each index holds. -/
  slots : Array (Option Constant)
  /-- The first index of each constant in the table. -/
  positions : Std.HashMap Constant PoolIndex
  /-- The positions belong to the slots. -/
  valid : IsConstantTable slots positions

/-- A field or method named by its class, its name and its descriptor. -/
structure Member where
  /-- The internal name of the declaring class, or the descriptor of an array type. -/
  owner : String
  /-- The name of the field or method. -/
  name : String
  /-- The descriptor of the field or method. -/
  descriptor : String
  /-- Is the owner of a method an interface? -/
  ofInterface : Bool := false
deriving DecidableEq, Repr

/-- Requests that may add constants to a pool. -/
abbrev Interning := ExceptT Fault (StateM Pool)

namespace Pool

/-- A pool without constants. -/
def empty : Pool where
  slots := #[none]
  positions := ∅
  valid :=
    { zero_eq := rfl
      size_le := by simp
      position_iff := by
        intro constant index
        simp only [Std.HashMap.getElem?_empty, reduceCtorEq, false_iff, not_and]
        intro h
        rcases hi : index.toNat with - | n <;> simp [hi] at h }

/-- The number of indices in use, index `0` included. -/
def size (pool : Pool) : Nat := pool.slots.size

/-- The number of indices in use as the two bytes of the written form tell it. -/
def count (pool : Pool) : UInt16 := UInt16.ofNat pool.slots.size

/-- The largest number of indices that leaves room for no further constant. -/
def capacity : Nat := 65535

/-- Adds a constant behind the others, whether or not the written form has room. -/
def append (pool : Pool) (constant : Constant) (room : pool.slots.size < 65535) : Pool where
  slots := IsConstantTable.appendSlot pool.slots constant
  positions := pool.positions.insertIfNew constant (UInt16.ofNat pool.slots.size)
  valid := pool.valid.append constant room

/-- The index of a constant, which is appended if the pool does not hold it and has room. -/
def request (pool : Pool) (constant : Constant) : Except Fault PoolIndex × Pool :=
  match pool.positions[constant]? with
  | some index => (.ok index, pool)
  | none =>
    if full : pool.slots.size + constant.places > capacity then
      (.error (.poolOverflow constant pool.slots.size), pool)
    else
      (.ok (UInt16.ofNat pool.slots.size), pool.append constant (by
        have := constant.one_le_places
        simp only [capacity] at full
        omega))

/-! ## Reading constants -/

/-- The constant at an index. -/
def get (pool : Pool) (index : PoolIndex) : Except Fault Constant :=
  match pool.slots[index.toNat]? with
  | some (some constant) => .ok constant
  | _ => .error (.badIndex index)

/-- The text at an index. -/
def utf8 (pool : Pool) (index : PoolIndex) : Except Fault String := do
  match ← pool.get index with
  | .utf8 bytes => return ModifiedUtf8.decode bytes
  | _ => throw (.unexpectedConstant index .utf8)

/-- The name of the class at an index. -/
def className (pool : Pool) (index : PoolIndex) : Except Fault String := do
  match ← pool.get index with
  | .classRef name => pool.utf8 name
  | _ => throw (.unexpectedConstant index .classRef)

/-- The name and descriptor at an index. -/
def nameAndType (pool : Pool) (index : PoolIndex) : Except Fault (String × String) := do
  match ← pool.get index with
  | .nameAndType name descriptor => return (← pool.utf8 name, ← pool.utf8 descriptor)
  | _ => throw (.unexpectedConstant index .nameAndType)

/-- The field or method at an index; its name and descriptor are looked up before its owner. -/
def member (pool : Pool) (index : PoolIndex) : Except Fault Member := do
  let (owner, member, ofInterface) ←
    match ← pool.get index with
    | .fieldRef owner member => pure (owner, member, false)
    | .methodRef owner member ofInterface => pure (owner, member, ofInterface)
    | _ => throw (.unexpectedConstant index .member)
  let (name, descriptor) ← pool.nameAndType member
  return { owner := ← pool.className owner, name, descriptor, ofInterface }

/-! ## Asking for constants -/

/-- The index of a constant. -/
def intern (constant : Constant) : Interning PoolIndex :=
  ExceptT.mk (modifyGet fun pool => pool.request constant)

/-- The index of a text. -/
def internUtf8 (text : String) : Interning PoolIndex :=
  intern (.utf8 (ModifiedUtf8.encode text))

/-- The index of a class with a name. -/
def internClass (name : String) : Interning PoolIndex := do
  intern (.classRef (← internUtf8 name))

/-- The index of a text object. -/
def internString (text : String) : Interning PoolIndex := do
  intern (.string (← internUtf8 text))

/-- The index of a method descriptor used as a value. -/
def internMethodType (descriptor : String) : Interning PoolIndex := do
  intern (.methodType (← internUtf8 descriptor))

/-- The index of a name with a descriptor. -/
def internNameAndType (name descriptor : String) : Interning PoolIndex := do
  intern (.nameAndType (← internUtf8 name) (← internUtf8 descriptor))

/-- The index of a field. -/
def internField (field : Member) : Interning PoolIndex := do
  let owner ← internClass field.owner
  intern (.fieldRef owner (← internNameAndType field.name field.descriptor))

/-- The index of a method. -/
def internMethod (method : Member) : Interning PoolIndex := do
  let owner ← internClass method.owner
  let nameAndType ← internNameAndType method.name method.descriptor
  intern (.methodRef owner nameAndType method.ofInterface)

/-! ## Written form -/

/-- The written form of a pool: the number of its indices, then its constants in order. -/
def write (pool : Pool) : Bytes :=
  Bytes.u2 pool.count ++ pool.slots.toList.flatMap fun slot =>
    match slot with
    | some constant => constant.write
    | none => []

/-- Reads constants until a number of indices are in use.  Each constant takes at least one index,
so as many rounds as there are indices suffice. -/
def readUpTo (count : UInt16) : Nat → Pool → Reader Pool
  | 0, pool => return pool
  | rounds + 1, pool => do
    if room : pool.slots.size < count.toNat then
      let constant ← Constant.read
      readUpTo count rounds (pool.append constant (by have := count.toNat_lt; omega))
    else return pool

/-- Reads a pool off the front of a byte string. -/
def read : Reader Pool := do
  let count ← Reader.u2
  readUpTo count count.toNat empty

end Pool

namespace Interning

/-- Runs requests on a pool and gives their result with the pool they leave. -/
def on {α : Type} (requests : Interning α) (pool : Pool) : Except Fault α × Pool :=
  requests.run pool

/-- Runs requests on a pool; a pool is left only if all of them succeed. -/
def finish {α : Type} (requests : Interning α) (pool : Pool) : Except Fault (α × Pool) :=
  match requests.run pool with
  | (.ok value, pool) => .ok (value, pool)
  | (.error fault, _) => .error fault

end Interning

end ClassInstrument
