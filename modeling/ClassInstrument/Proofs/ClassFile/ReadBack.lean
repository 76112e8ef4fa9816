import ClassInstrument.Proofs.Bytes
import ClassInstrument.Proofs.ClassFile.RoundTrip
import ClassInstrument.Proofs.Pool.Interning

/-!
# Class files are read back

A class file has fields of two or four bytes for the numbers of its items and for the lengths of its texts
and attributes.  What is written there is the last digits of the number, so a class file is read back if all
numbers fit (`ClassFile.Fits`): every part as it was written, and the table of constants slot by slot.
-/

namespace ClassInstrument

open Reader

/-! ## Constants -/

namespace Constant

/-- The length of a text fits in two bytes. -/
def Fits : Constant → Prop
  | utf8 bytes => bytes.length < 65536
  | _ => True

instance : DecidablePred Fits
  | utf8 bytes => inferInstanceAs (Decidable (bytes.length < 65536))
  | integer _ | float _ | long _ | double _ | classRef _ | string _ | fieldRef .. | methodRef ..
  | nameAndType .. | methodHandle .. | methodType _ | dynamic .. | invokeDynamic .. | moduleRef _
  | packageRef _ => inferInstanceAs (Decidable True)

/-- The operands of a constant are read back behind its tag. -/
theorem readsBack_of_tagged {constant : Constant} (tag : UInt8) {operands : Bytes}
    (h : ReadsBack (readTagged tag) constant operands) (hwrite : constant.write = tag :: operands) :
    ReadsBack Constant.read constant constant.write := by
  rw [hwrite]
  exact ReadsBack.bind (.u1 tag) h

/-- A constant that fits is read back. -/
theorem readsBack_write {constant : Constant} (h : constant.Fits) :
    ReadsBack Constant.read constant constant.write := by
  have hpair : ∀ (make : PoolIndex → PoolIndex → Constant) (first second : PoolIndex),
      ReadsBack (do return make (← u2) (← u2)) (make first second)
        (Bytes.u2 first ++ Bytes.u2 second) := fun make first second =>
    ReadsBack.bind (u2_append first) (ReadsBack.map (u2_append second))
  cases constant with
  | utf8 bytes =>
    have hlength : (UInt16.ofNat bytes.length).toNat = bytes.length := UInt16.toNat_ofNat_of_lt' h
    have htext : ReadsBack (readTagged 1) (utf8 bytes) (Bytes.length2 bytes.length ++ bytes) := by
      rw [length2_eq h]
      exact ReadsBack.bind (u2_append _) (ReadsBack.map (take_append hlength.symm))
    exact readsBack_of_tagged 1 htext rfl
  | integer value =>
    have hvalue : ReadsBack (readTagged 3) (integer value.toUInt32.toInt32)
        (Bytes.u4 value.toUInt32) := ReadsBack.map (u4_append value.toUInt32)
    exact readsBack_of_tagged 3 hvalue rfl
  | float bits => exact readsBack_of_tagged 4 (ReadsBack.map (u4_append bits)) rfl
  | long value =>
    have hvalue : ReadsBack (readTagged 5) (long value.toUInt64.toInt64)
        (Bytes.u8 value.toUInt64) := ReadsBack.map (u8_append value.toUInt64)
    exact readsBack_of_tagged 5 hvalue rfl
  | double bits => exact readsBack_of_tagged 6 (ReadsBack.map (u8_append bits)) rfl
  | classRef name => exact readsBack_of_tagged 7 (ReadsBack.map (u2_append name)) rfl
  | string text => exact readsBack_of_tagged 8 (ReadsBack.map (u2_append text)) rfl
  | fieldRef owner member => exact readsBack_of_tagged 9 (hpair fieldRef owner member) rfl
  | methodRef owner member ofInterface =>
    cases ofInterface with
    | true => exact readsBack_of_tagged 11 (hpair (methodRef · · true) owner member) rfl
    | false => exact readsBack_of_tagged 10 (hpair (methodRef · · false) owner member) rfl
  | nameAndType name descriptor => exact readsBack_of_tagged 12 (hpair nameAndType name descriptor) rfl
  | methodHandle kind member =>
    have hhandle : ReadsBack (readTagged 15) (methodHandle kind member) (kind :: Bytes.u2 member) :=
      ReadsBack.bind (.u1 kind) (ReadsBack.map (u2_append member))
    exact readsBack_of_tagged 15 hhandle rfl
  | methodType descriptor => exact readsBack_of_tagged 16 (ReadsBack.map (u2_append descriptor)) rfl
  | dynamic bootstrap member => exact readsBack_of_tagged 17 (hpair dynamic bootstrap member) rfl
  | invokeDynamic bootstrap member =>
    exact readsBack_of_tagged 18 (hpair invokeDynamic bootstrap member) rfl
  | moduleRef name => exact readsBack_of_tagged 19 (ReadsBack.map (u2_append name)) rfl
  | packageRef name => exact readsBack_of_tagged 20 (ReadsBack.map (u2_append name)) rfl

end Constant

/-! ## The table of constants -/

namespace Pool

variable {pool later : Pool} {constants : List Constant}

/-- The places that constants take. -/
theorem length_flatMap_slotsOf (constant : Constant) (constants : List Constant) :
    ((constant :: constants).flatMap slotsOf).length =
      constant.places + (constants.flatMap slotsOf).length := by
  rw [List.flatMap_cons, List.length_append, slotsOf, Constant.places]
  split <;> rfl

/-- What is written of a pool that constants were added to. -/
theorem writeConstants_of_slots (h : pool.slots.toList = none :: constants.flatMap slotsOf) :
    pool.writeConstants = constants.flatMap Constant.write := by
  unfold writeConstants
  rw [h, List.flatMap_cons, List.nil_append, List.flatMap_assoc]
  refine List.flatMap_congr fun constant _ => ?_
  unfold slotsOf
  split <;> simp

/-- Constants are read back until all places are in use. -/
theorem readsBack_readUpTo {count : UInt16} {rounds : ℕ} (hfits : ∀ constant ∈ constants, constant.Fits)
    (hsize : pool.slots.size + (constants.flatMap slotsOf).length = count.toNat)
    (hrounds : constants.length ≤ rounds) :
    ∃ later : Pool, later.slots.toList = pool.slots.toList ++ constants.flatMap slotsOf ∧
      ReadsBack (readUpTo count rounds pool) later (constants.flatMap Constant.write) := by
  induction constants generalizing pool rounds with
  | nil =>
    refine ⟨pool, by simp, ?_⟩
    cases rounds with
    | zero => exact .pure pool
    | succ rounds =>
      have hfull : ¬ pool.slots.size < count.toNat := by simp at hsize; omega
      rw [readUpTo, dif_neg hfull]
      exact .pure pool
  | cons constant constants ih =>
    obtain _ | rounds := rounds
    · simp at hrounds
    rw [length_flatMap_slotsOf] at hsize
    have hplaces := constant.one_le_places
    have hroom : pool.slots.size < count.toNat := by omega
    have hlt := count.toNat_lt
    have hgrown : (pool.append constant (by omega)).slots.size =
        pool.slots.size + constant.places := IsConstantTable.size_appendSlot pool.slots constant
    obtain ⟨hfirst, hothers⟩ := List.forall_mem_cons.mp hfits
    obtain ⟨later, hslots, hread⟩ := ih hothers (by rw [hgrown]; omega) (Nat.le_of_succ_le_succ hrounds)
    refine ⟨later, ?_, ?_⟩
    · rw [hslots, toList_slots_append, List.flatMap_cons, List.append_assoc]
    · rw [readUpTo, dif_pos hroom, List.flatMap_cons]
      exact ReadsBack.bind (Constant.readsBack_write hfirst) hread

/-- A table that was built from the empty one is read back slot by slot, if the number of its places fits. -/
theorem readsBack_write (hgrown : empty.GrowsInto pool) (hsize : pool.slots.size < 65536)
    (hfits : ∀ slot ∈ pool.slots.toList, ∀ constant ∈ slot, constant.Fits) :
    ∃ later : Pool, later.slots = pool.slots ∧ ReadsBack Pool.read later pool.write := by
  obtain ⟨constants, hslots⟩ := hgrown
  change pool.slots.toList = none :: constants.flatMap slotsOf at hslots
  have hcount : pool.count.toNat = pool.slots.size := UInt16.toNat_ofNat_of_lt' hsize
  have hlength : pool.slots.size = 1 + (constants.flatMap slotsOf).length := by
    rw [← Array.length_toList, hslots, List.length_cons, Nat.add_comm]
  have hconstants : ∀ constant ∈ constants, constant.Fits := by
    intro constant hmem
    refine hfits (some constant) (hslots ▸ List.mem_cons_of_mem _ (List.mem_flatMap.mpr
      ⟨constant, hmem, ?_⟩)) constant rfl
    unfold slotsOf
    split <;> simp
  have hmany : constants.length ≤ (constants.flatMap slotsOf).length := by
    clear hslots hlength hconstants
    induction constants with
    | nil => exact Nat.le_refl _
    | cons constant constants ih =>
      have hplaces := constant.one_le_places
      rw [length_flatMap_slotsOf, List.length_cons]
      omega
  have hempty : empty.slots.size = 1 := rfl
  obtain ⟨later, hlater, hread⟩ := @readsBack_readUpTo empty constants pool.count pool.count.toNat
    hconstants (by rw [hcount, hlength, hempty]) (by omega)
  refine ⟨later, Array.toList_inj.mp (hlater.trans hslots.symm), ?_⟩
  rw [write_eq, writeConstants_of_slots hslots]
  exact ReadsBack.bind (u2_append pool.count) hread

/-- A table that was read was built from the empty one. -/
theorem growsInto_of_readUpTo {count : UInt16} {rounds : ℕ} {bytes rest : Bytes}
    (h : readUpTo count rounds pool bytes = .ok (later, rest)) : pool.GrowsInto later := by
  induction rounds generalizing pool bytes with
  | zero =>
    obtain ⟨rfl, rfl⟩ := pure_eq_ok.mp h
    exact .refl pool
  | succ rounds ih =>
    rw [readUpTo] at h
    split at h
    · obtain ⟨constant, middle, -, h⟩ := bind_eq_ok.mp h
      refine .trans ⟨[constant], ?_⟩ (ih h)
      rw [toList_slots_append, List.flatMap_singleton]
    · obtain ⟨rfl, rfl⟩ := pure_eq_ok.mp h
      exact .refl pool

theorem growsInto_of_read {bytes rest : Bytes} (h : Pool.read bytes = .ok (pool, rest)) :
    empty.GrowsInto pool := by
  obtain ⟨count, middle, -, h⟩ := bind_eq_ok.mp h
  exact growsInto_of_readUpTo h

end Pool

/-! ## Parts of a class -/

namespace Attribute

/-- The number of some attributes and the lengths of their contents fit in their fields. -/
structure Fit (attributes : List Attribute) : Prop where
  count : attributes.length < 65536
  contents : ∀ attr ∈ attributes, attr.info.length < 4294967296

/-- An attribute is read back if the length of its contents fits in four bytes. -/
theorem readsBack_write {attr : Attribute} (h : attr.info.length < 4294967296) :
    ReadsBack Attribute.read attr attr.write := by
  have hlength : (UInt32.ofNat attr.info.length).toNat = attr.info.length :=
    UInt32.toNat_ofNat_of_lt' h
  rw [write, List.append_assoc, length4_eq h]
  exact ReadsBack.bind (u2_append attr.name) (ReadsBack.bind (u4_append _)
    (ReadsBack.map (take_append hlength.symm)))

/-- Attributes that fit are read back. -/
theorem readsBack_list {attributes : List Attribute} (h : Fit attributes) :
    ReadsBack (Reader.list Attribute.read) attributes (Bytes.list Attribute.write attributes) :=
  list_append (fun attr hmem => readsBack_write (h.contents attr hmem)) h.count

end Attribute

/-- A field is read back if its attributes fit. -/
theorem Field.readsBack_write {field : Field} (h : Attribute.Fit field.attributes) :
    ReadsBack Field.read field field.write := by
  rw [write, List.append_assoc, List.append_assoc]
  exact ReadsBack.bind (u2_append field.access) (ReadsBack.bind (u2_append field.name)
    (ReadsBack.bind (u2_append field.descriptor) (ReadsBack.map (Attribute.readsBack_list h))))

/-- A method is read back if its flags are known and its attributes fit. -/
theorem MethodEntry.readsBack_write {method : MethodEntry}
    (haccess : MethodAccess.ofBits method.access.bits = method.access)
    (h : Attribute.Fit method.attributes) : ReadsBack MethodEntry.read method method.write := by
  obtain ⟨access, name, descriptor, attributes⟩ := method
  have hread : ReadsBack MethodEntry.read ⟨MethodAccess.ofBits access.bits, name, descriptor, attributes⟩
      (Bytes.u2 access.bits ++ (Bytes.u2 name ++ (Bytes.u2 descriptor ++
        Bytes.list Attribute.write attributes))) :=
    ReadsBack.bind (u2_append access.bits) (ReadsBack.bind (u2_append name)
      (ReadsBack.bind (u2_append descriptor) (ReadsBack.map (Attribute.readsBack_list h))))
  rw [write, List.append_assoc, List.append_assoc]
  rwa [haccess] at hread

/-- An index is read back unless it is the one that stands for none. -/
theorem readsBack_optionalIndex {index? : Option PoolIndex} (h : index? ≠ some 0) :
    ReadsBack readOptionalIndex index? (writeOptionalIndex index?) := by
  cases index? with
  | none => exact ReadsBack.map (u2_append 0)
  | some index =>
    have hread : ReadsBack readOptionalIndex (if index = 0 then none else some index)
        (Bytes.u2 index) := ReadsBack.map (u2_append index)
    rwa [if_neg fun hzero => h (congrArg some hzero)] at hread

/-! ## Classes -/

/-- Flags that were read are known. -/
theorem ClassAccess.ofBits_bits (bits : UInt16) : ofBits (ofBits bits).bits = ofBits bits := by
  simp only [ofBits, UInt16.and_assoc, UInt16.and_self]

/-- Flags that were read are known. -/
theorem MethodAccess.ofBits_bits (bits : UInt16) : ofBits (ofBits bits).bits = ofBits bits := by
  simp only [ofBits, UInt16.and_assoc, UInt16.and_self]

namespace ClassFile

/-- A class file that was read has a table that is built of constants. -/
theorem growsInto_of_parse {bytes : Bytes} {file : ClassFile} (h : parse bytes = .ok file) :
    Pool.empty.GrowsInto file.pool := by
  obtain ⟨rest, -, h⟩ := parse_eq_ok h
  obtain ⟨_, middle, -, h⟩ := bind_eq_ok.mp h
  obtain ⟨_, middle, -, h⟩ := bind_eq_ok.mp h
  obtain ⟨pool, behind, hpool, h⟩ := bind_eq_ok.mp h
  obtain ⟨_, middle, -, h⟩ := bind_eq_ok.mp h
  obtain ⟨_, middle, -, h⟩ := bind_eq_ok.mp h
  obtain ⟨_, middle, -, h⟩ := bind_eq_ok.mp h
  obtain ⟨_, middle, -, h⟩ := bind_eq_ok.mp h
  obtain ⟨_, middle, -, h⟩ := bind_eq_ok.mp h
  obtain ⟨_, middle, -, h⟩ := bind_eq_ok.mp h
  obtain ⟨_, middle, -, h⟩ := bind_eq_ok.mp h
  obtain ⟨rfl, -⟩ := pure_eq_ok.mp h
  exact Pool.growsInto_of_read hpool

/-- A class file that was read has known flags. -/
theorem known_of_parse {bytes : Bytes} {file : ClassFile} (h : parse bytes = .ok file) :
    ClassAccess.ofBits file.access.bits = file.access ∧
      ∀ method ∈ file.methods, MethodAccess.ofBits method.access.bits = method.access := by
  obtain ⟨rest, -, h⟩ := parse_eq_ok h
  obtain ⟨count, flags, fronts, -, -, haccess, hmethods⟩ := exists_parts h
  refine ⟨by rw [haccess, ClassAccess.ofBits_bits], fun method hmem => ?_⟩
  obtain ⟨front, -, bits, hbits, -⟩ := Outcome.exists_right_of_forall₂ hmethods hmem
  rw [hbits, MethodAccess.ofBits_bits]

/-- All numbers of items and all lengths in a class file fit in their fields. -/
structure Fits (file : ClassFile) : Prop where
  /-- The number of the places of the table of constants fits in two bytes. -/
  pool : file.pool.slots.size < 65536
  /-- The length of each text fits in two bytes. -/
  constants : ∀ slot ∈ file.pool.slots.toList, ∀ constant ∈ slot, constant.Fits
  interfaces : file.interfaces.length < 65536
  fields : file.fields.length < 65536 ∧ ∀ field ∈ file.fields, Attribute.Fit field.attributes
  methods : file.methods.length < 65536 ∧ ∀ method ∈ file.methods, Attribute.Fit method.attributes
  attributes : Attribute.Fit file.attributes

/-- A class file that fits is read back, with a table of constants that has the same slots. -/
theorem parse_write {file : ClassFile} (h : file.Fits) (hgrown : Pool.empty.GrowsInto file.pool)
    (haccess : ClassAccess.ofBits file.access.bits = file.access)
    (hmethods : ∀ method ∈ file.methods, MethodAccess.ofBits method.access.bits = method.access)
    (hsuper : file.superClass ≠ some 0) :
    ∃ later : Pool, later.slots = file.pool.slots ∧ parse file.write = .ok { file with pool := later } := by
  obtain ⟨later, hslots, hpool⟩ := Pool.readsBack_write hgrown h.pool h.constants
  refine ⟨later, hslots, ?_⟩
  obtain ⟨version, pool, access, thisClass, superClass, interfaces, fields, methods, attributes⟩ := file
  have hbody : ReadsBack readBody
      ⟨version, later, ClassAccess.ofBits access.bits, thisClass, superClass, interfaces, fields, methods,
        attributes⟩
      (Bytes.u2 version.minor ++ (Bytes.u2 version.major ++ (pool.write ++ (Bytes.u2 access.bits ++
        (Bytes.u2 thisClass ++ (writeOptionalIndex superClass ++ (Bytes.list Bytes.u2 interfaces ++
          (Bytes.list Field.write fields ++ (Bytes.list MethodEntry.write methods ++
            Bytes.list Attribute.write attributes))))))))) :=
    ReadsBack.bind (u2_append version.minor) (ReadsBack.bind (u2_append version.major)
      (ReadsBack.bind hpool (ReadsBack.bind (u2_append access.bits)
        (ReadsBack.bind (u2_append thisClass) (ReadsBack.bind (readsBack_optionalIndex hsuper)
          (ReadsBack.bind (list_append (fun index _ => u2_append index) h.interfaces)
            (ReadsBack.bind (list_append (fun field hmem => Field.readsBack_write (h.fields.2 field hmem))
              h.fields.1)
              (ReadsBack.bind (list_append (fun method hmem => MethodEntry.readsBack_write
                (hmethods method hmem) (h.methods.2 method hmem)) h.methods.1)
                (ReadsBack.map (Attribute.readsBack_list h.attributes))))))))))
  have hread := hbody []
  have hfront : magic.length = 4 := rfl
  rw [List.append_nil, show ClassAccess.ofBits access.bits = access from haccess] at hread
  simp only [parse, write, List.append_assoc, List.splitAt_eq, List.take_left' hfront,
    List.drop_left' hfront, hfront, Nat.lt_irrefl, if_false, ne_eq, not_true_eq_false, hread]

end ClassFile

end ClassInstrument
