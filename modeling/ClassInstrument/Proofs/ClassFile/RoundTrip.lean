import ClassInstrument.Proofs.ClassFile.Taking

/-!
# Writing a class file that was read

A class file is written as it was read, but for three kinds of two-byte fields: the count of the table of
constants, which is counted anew, and the flags of the class and of its methods, which lose their unknown
bits.  `Bytes.Changed` says that two byte strings are alike up to such fields, and lists the fields with
what they hold on either side; `ClassFile.write_of_parse` says when each of them stays as it is.
-/

namespace ClassInstrument

namespace Bytes

/-- The two-byte number at an offset. -/
def u2At (bytes : Bytes) (offset : ℕ) : UInt16 := UInt16.ofNat (toNat ((bytes.drop offset).take 2))

/-- A two-byte field with what it holds before and after a change. -/
structure Change where
  /-- Where the field stands. -/
  offset : ℕ
  /-- What the field holds before. -/
  old : UInt16
  /-- What the field holds after. -/
  new : UInt16

/-- The same change in a longer string, behind a number of bytes. -/
def Change.behind (length : ℕ) (change : Change) : Change :=
  { change with offset := length + change.offset }

/-- Two byte strings that are alike up to changes of fields. -/
inductive Changed : List Change → Bytes → Bytes → Prop
  | keep (bytes : Bytes) : Changed [] bytes bytes
  | field (old new : UInt16) : Changed [⟨0, old, new⟩] (u2 old) (u2 new)
  | append {changes more : List Change} {left left' right right' : Bytes}
      (front : Changed changes left right) (rest : Changed more left' right') :
      Changed (changes ++ more.map (Change.behind left.length)) (left ++ left') (right ++ right')

/-- The number at the place where it was written. -/
theorem u2At_append (front rest : Bytes) (n : UInt16) : u2At (front ++ (u2 n ++ rest)) front.length = n := by
  rw [u2At, List.drop_left, List.take_left' (length_u2 n), u2, toNat_ofNat,
    Nat.mod_eq_of_lt (by have := n.toNat_lt; omega), UInt16.ofNat_toNat]

theorem u2_injective {n m : UInt16} (h : u2 n = u2 m) : n = m := by
  have hn := u2At_append [] [] n
  rw [h, u2At_append [] [] m] at hn
  exact hn.symm

namespace Changed

variable {changes : List Change} {left right : Bytes}

theorem length_eq (h : Changed changes left right) : left.length = right.length := by
  induction h with
  | keep => rfl
  | field => simp
  | append _ _ ih ih' => simp [ih, ih']

/-- The strings differ at most in the fields. -/
theorem exists_field (h : Changed changes left right) {i : ℕ} (hne : left[i]? ≠ right[i]?) :
    ∃ change ∈ changes, change.offset ≤ i ∧ i < change.offset + 2 := by
  induction h generalizing i with
  | keep => exact absurd rfl hne
  | field old new =>
    refine ⟨⟨0, old, new⟩, by simp, by simp, ?_⟩
    by_contra hi
    rw [List.getElem?_eq_none (by simp; omega), List.getElem?_eq_none (by simp; omega)] at hne
    exact hne rfl
  | @append changes more left left' right right' hfront _ ih ih' =>
    have hlength := hfront.length_eq
    rcases Nat.lt_or_ge i left.length with hlt | hge
    · rw [List.getElem?_append_left hlt, List.getElem?_append_left (hlength ▸ hlt)] at hne
      obtain ⟨change, hmem, hchange⟩ := ih hne
      exact ⟨change, by simp [hmem], hchange⟩
    · rw [List.getElem?_append_right hge, List.getElem?_append_right (hlength ▸ hge), ← hlength] at hne
      obtain ⟨change, hmem, hle, hlt⟩ := ih' hne
      refine ⟨change.behind left.length, ?_, ?_, ?_⟩
      · exact List.mem_append_right _ (List.mem_map_of_mem hmem)
      · simp only [Change.behind]
        omega
      · simp only [Change.behind]
        omega

/-- The strings are the same if no field changes. -/
theorem eq_iff (h : Changed changes left right) :
    left = right ↔ ∀ change ∈ changes, change.old = change.new := by
  induction h with
  | keep => simp
  | field old new =>
    simp only [List.mem_singleton, forall_eq]
    exact ⟨u2_injective, congrArg u2⟩
  | @append changes more left left' right right' hfront _ ih ih' =>
    have hparts : left ++ left' = right ++ right' ↔ left = right ∧ left' = right' :=
      ⟨fun heq => List.append_inj heq hfront.length_eq, fun ⟨heq, heq'⟩ => heq ▸ heq' ▸ rfl⟩
    rw [hparts, ih, ih']
    simp [or_imp, forall_and, Change.behind]

/-- The fields are found where they stand. -/
theorem exists_split (h : Changed changes left right) {change : Change} (hmem : change ∈ changes) :
    ∃ front rest, left = front ++ (u2 change.old ++ rest) ∧ front.length = change.offset := by
  induction h generalizing change with
  | keep => simp at hmem
  | field old new =>
    obtain rfl := List.mem_singleton.mp hmem
    exact ⟨[], [], by simp, rfl⟩
  | @append changes more left left' right right' _ _ ih ih' =>
    rcases List.mem_append.mp hmem with hmem | hmem
    · obtain ⟨front, rest, rfl, hlength⟩ := ih hmem
      exact ⟨front, rest ++ left', by simp, hlength⟩
    · obtain ⟨original, horiginal, rfl⟩ := List.mem_map.mp hmem
      obtain ⟨front, rest, rfl, hlength⟩ := ih' horiginal
      exact ⟨left ++ front, rest, by simp [Change.behind], by simp [Change.behind, hlength]⟩

theorem u2At_eq (h : Changed changes left right) {change : Change} (hmem : change ∈ changes) :
    u2At left change.offset = change.old := by
  obtain ⟨front, rest, rfl, hlength⟩ := h.exists_split hmem
  rw [← hlength, u2At_append]

end Changed

end Bytes

open Reader

namespace MethodEntry

/-- Where the flags of methods stand, which are written one after the other from an offset on. -/
def flagOffsets : ℕ → List MethodEntry → List ℕ
  | _, [] => []
  | offset, method :: rest => offset :: flagOffsets (offset + method.write.length) rest

theorem write_eq (method : MethodEntry) :
    method.write = Bytes.u2 method.access.bits ++ method.writeBehindFlags := by
  simp [write, writeBehindFlags]

theorem flagOffsets_eq_map (offset : ℕ) (methods : List MethodEntry) :
    flagOffsets offset methods = (flagOffsets 0 methods).map (offset + ·) := by
  induction methods generalizing offset with
  | nil => rfl
  | cons method rest ih =>
    rw [flagOffsets, flagOffsets, ih (offset + _), List.map_cons, Nat.add_zero, ih (0 + _), List.map_map]
    simp [Function.comp_def, Nat.add_assoc]

/-- Methods written with other flags that have the same known ones among them. -/
theorem exists_changed {methods : List MethodEntry} {fronts : List Bytes}
    (h : List.Forall₂ (fun (method : MethodEntry) front =>
      ∃ flags, method.access = MethodAccess.ofBits flags ∧ front = Bytes.u2 flags ++ method.writeBehindFlags)
      methods fronts) :
    ∃ changes, Bytes.Changed changes fronts.flatten (methods.flatMap write) ∧
      changes.map Bytes.Change.offset = flagOffsets 0 methods ∧
      ∀ change ∈ changes, change.new = (MethodAccess.ofBits change.old).bits := by
  induction h with
  | nil => exact ⟨[], .keep [], rfl, by simp⟩
  | @cons method front methods fronts hfirst hrest ih =>
    obtain ⟨flags, haccess, rfl⟩ := hfirst
    obtain ⟨changes, hchanged, hoffsets, hnew⟩ := ih
    have hmethod : Bytes.Changed [⟨0, flags, method.access.bits⟩] (Bytes.u2 flags ++ method.writeBehindFlags)
        method.write := by
      rw [write_eq]
      exact .append (.field flags method.access.bits) (.keep method.writeBehindFlags)
    refine ⟨_, hmethod.append hchanged, ?_, ?_⟩
    · rw [List.map_append, List.map_map, List.map_singleton, flagOffsets, flagOffsets_eq_map,
        ← hoffsets, List.map_map, hmethod.length_eq]
      simp [Function.comp_def, Bytes.Change.behind]
    · intro change hmem
      rcases List.mem_append.mp hmem with hmem | hmem
      · obtain rfl := List.mem_singleton.mp hmem
        rw [haccess]
      · obtain ⟨original, horiginal, rfl⟩ := List.mem_map.mp hmem
        exact hnew original horiginal

end MethodEntry

namespace ClassFile

/-- Where the count of the table of constants stands: behind the magic bytes and the version. -/
def countOffset : ℕ := 8

/-- Where the flags of the class stand: behind the table of constants. -/
def accessOffset (file : ClassFile) : ℕ := countOffset + file.pool.write.length

/-- Where the methods start: behind the flags, the class, its superclass, its interfaces, its fields, and
the number of the methods. -/
def methodsOffset (file : ClassFile) : ℕ :=
  file.accessOffset + 6 + (Bytes.list Bytes.u2 file.interfaces).length +
    (Bytes.list Field.write file.fields).length + 2

/-- Where the flags of the methods stand. -/
def methodAccessOffsets (file : ClassFile) : List ℕ :=
  MethodEntry.flagOffsets file.methodsOffset file.methods

/-- The two-byte fields that may change when a class file is read and written again: the count of the table
of constants, the flags of the class, and the flags of its methods. -/
def looseFields (file : ClassFile) : List ℕ :=
  countOffset :: file.accessOffset :: file.methodAccessOffsets

/-- A byte string that is read as a class file has no unknown flags on the class and its methods. -/
def HasKnownFlags (file : ClassFile) (bytes : Bytes) : Prop :=
  bytes.u2At file.accessOffset &&& ClassAccess.known = bytes.u2At file.accessOffset ∧
    ∀ offset ∈ file.methodAccessOffsets,
      bytes.u2At offset &&& MethodAccess.known = bytes.u2At offset

/-- A whole byte string is read as a class if it starts with the magic bytes and the class ends where the
string does. -/
theorem parse_eq_ok {bytes : Bytes} {file : ClassFile} (h : parse bytes = .ok file) :
    ∃ rest, bytes = magic ++ rest ∧ readBody rest = .ok (file, []) := by
  unfold parse at h
  rw [List.splitAt_eq] at h
  dsimp only at h
  split at h
  · simp at h
  · split at h
    · simp at h
    · next hmagic =>
      refine ⟨bytes.drop 4, ?_, ?_⟩
      · rw [← not_not.mp hmagic, List.take_append_drop]
      · split at h
        · simp at h
        · next hread =>
          obtain rfl := Except.ok.inj h
          exact hread
        · simp at h

/-- The bytes of a class behind the magic ones, with a count and flags that may be written otherwise. -/
theorem exists_parts {bytes rest : Bytes} {file : ClassFile} (h : readBody bytes = .ok (file, rest)) :
    ∃ count flags fronts,
      bytes = Bytes.u2 file.version.minor ++ Bytes.u2 file.version.major ++
        (Bytes.u2 count ++ file.pool.writeConstants) ++ Bytes.u2 flags ++
        (Bytes.u2 file.thisClass ++ writeOptionalIndex file.superClass ++
          Bytes.list Bytes.u2 file.interfaces ++ Bytes.list Field.write file.fields ++
          Bytes.length2 file.methods.length) ++
        List.flatten fronts ++ Bytes.list Attribute.write file.attributes ++ rest ∧
      (count = file.pool.count ↔ 1 ≤ count ∧ ¬ file.pool.EndsWide count) ∧
      file.access = ClassAccess.ofBits flags ∧
      List.Forall₂ (fun (method : MethodEntry) front => ∃ flags,
        method.access = MethodAccess.ofBits flags ∧ front = Bytes.u2 flags ++ method.writeBehindFlags)
        file.methods fronts := by
  obtain ⟨minor, middle, hminor, h⟩ := bind_eq_ok.mp h
  obtain ⟨major, middle, hmajor, h⟩ := bind_eq_ok.mp h
  obtain ⟨pool, middle, hpool, h⟩ := bind_eq_ok.mp h
  obtain ⟨flags, middle, hflags, h⟩ := bind_eq_ok.mp h
  obtain ⟨thisClass, middle, hthis, h⟩ := bind_eq_ok.mp h
  obtain ⟨superClass, middle, hsuper, h⟩ := bind_eq_ok.mp h
  obtain ⟨interfaces, middle, hinterfaces, h⟩ := bind_eq_ok.mp h
  obtain ⟨fields, middle, hfields, h⟩ := bind_eq_ok.mp h
  obtain ⟨methods, middle, hmethods, h⟩ := bind_eq_ok.mp h
  obtain ⟨attributes, middle, hattributes, h⟩ := bind_eq_ok.mp h
  obtain ⟨rfl, rfl⟩ := pure_eq_ok.mp h
  obtain rfl := takes_u2.eq_append hminor
  obtain rfl := takes_u2.eq_append hmajor
  obtain ⟨count, rfl, hcount⟩ := Pool.takes_read hpool
  obtain rfl := takes_u2.eq_append hflags
  obtain rfl := takes_u2.eq_append hthis
  obtain rfl := takes_readOptionalIndex.eq_append hsuper
  obtain rfl := (takes_list_exactly takes_u2).eq_append hinterfaces
  obtain rfl := (takes_list_exactly Field.takes_read).eq_append hfields
  obtain ⟨front, rfl, fronts, hforms, rfl⟩ := takes_list MethodEntry.takes_read _ _ _ hmethods
  obtain rfl := (takes_list_exactly Attribute.takes_read).eq_append hattributes
  exact ⟨count, flags, fronts, by simp only [List.append_assoc], hcount, rfl, hforms⟩

/-- What is taken for a class is what is written of it, up to the loose fields. -/
theorem exists_changed {bytes : Bytes} {file : ClassFile} (h : parse bytes = .ok file) :
    ∃ count flags methodChanges,
      Bytes.Changed ([⟨countOffset, count, file.pool.count⟩, ⟨file.accessOffset, flags, file.access.bits⟩] ++
        methodChanges) bytes file.write ∧
      (count = file.pool.count ↔ 1 ≤ count ∧ ¬ file.pool.EndsWide count) ∧
      file.access = ClassAccess.ofBits flags ∧
      methodChanges.map Bytes.Change.offset = file.methodAccessOffsets ∧
      ∀ change ∈ methodChanges, change.new = (MethodAccess.ofBits change.old).bits := by
  obtain ⟨rest, rfl, hbody⟩ := parse_eq_ok h
  obtain ⟨count, flags, fronts, rfl, hcount, haccess, hforms⟩ := exists_parts hbody
  obtain ⟨changes, hchanged, hoffsets, hnew⟩ := MethodEntry.exists_changed hforms
  have hfile := ((((((Bytes.Changed.keep
    (magic ++ Bytes.u2 file.version.minor ++ Bytes.u2 file.version.major)).append
    (.field count file.pool.count)).append (.keep file.pool.writeConstants)).append
    (.field flags file.access.bits)).append
    (.keep (Bytes.u2 file.thisClass ++ writeOptionalIndex file.superClass ++
      Bytes.list Bytes.u2 file.interfaces ++ Bytes.list Field.write file.fields ++
      Bytes.length2 file.methods.length))).append hchanged).append
    (.keep (Bytes.list Attribute.write file.attributes))
  refine ⟨count, flags, changes.map (Bytes.Change.behind file.methodsOffset), ?_, hcount, haccess, ?_, ?_⟩
  · have hmagic : magic.length = 4 := rfl
    have hoffset : file.accessOffset = 10 + file.pool.writeConstants.length := by
      simp only [accessOffset, countOffset, Pool.write_eq, List.length_append, Bytes.length_u2]
      omega
    have hsuper : (writeOptionalIndex file.superClass).length = 2 := by
      unfold writeOptionalIndex
      split <;> simp
    have hmethods : file.methodsOffset = 10 + file.pool.writeConstants.length + 2 +
        (2 + 2 + (Bytes.list Bytes.u2 file.interfaces).length +
          (Bytes.list Field.write file.fields).length + 2) := by
      rw [methodsOffset, hoffset]
      omega
    convert hfile using 1
    · simp only [List.map_cons, List.map_nil, List.nil_append, List.append_nil, List.cons_append,
        Bytes.Change.behind, List.length_append, Bytes.length_u2, hmagic, hsuper, Nat.add_zero,
        countOffset, hoffset, hmethods, Bytes.length2, Bytes.length_ofNat, Nat.reduceAdd]
    · simp only [List.append_assoc, List.append_nil]
    · simp only [write, Pool.write_eq, Bytes.list, List.append_assoc]
  · rw [List.map_map, methodAccessOffsets, MethodEntry.flagOffsets_eq_map, ← hoffsets, List.map_map]
    rfl
  · intro change hmem
    obtain ⟨original, horiginal, rfl⟩ := List.mem_map.mp hmem
    exact hnew original horiginal

/-- A class file is written as long as it was read, and alike but for the count of the table of constants
and the flags of the class and of its methods.  It is written as it was read exactly if the count is not
zero and the last place that it counts does not hold an eight-byte number, and if all flags are known. -/
theorem write_of_parse {bytes : Bytes} {file : ClassFile} (h : parse bytes = .ok file) :
    file.write.length = bytes.length ∧
      (∀ i, file.write[i]? ≠ bytes[i]? → ∃ offset ∈ file.looseFields, offset ≤ i ∧ i < offset + 2) ∧
      (file.write = bytes ↔
        1 ≤ bytes.u2At countOffset ∧ ¬ file.pool.EndsWide (bytes.u2At countOffset) ∧
          file.HasKnownFlags bytes) := by
  obtain ⟨count, flags, changes, hchanged, hcount, haccess, hoffsets, hnew⟩ := exists_changed h
  have hfields : ∀ change ∈ changes, bytes.u2At change.offset = change.old := by
    intro change hmem
    exact hchanged.u2At_eq (List.mem_append_right _ hmem)
  have hcountAt : bytes.u2At countOffset = count :=
    hchanged.u2At_eq (List.mem_append_left changes List.mem_cons_self)
  have hflagsAt : bytes.u2At file.accessOffset = flags :=
    hchanged.u2At_eq (List.mem_append_left changes (List.mem_cons_of_mem _ List.mem_cons_self))
  refine ⟨hchanged.length_eq.symm, ?_, ?_⟩
  · intro i hne
    obtain ⟨change, hmem, hrange⟩ := hchanged.exists_field (Ne.symm hne)
    refine ⟨change.offset, ?_, hrange⟩
    have hmem := List.mem_map_of_mem (f := Bytes.Change.offset) hmem
    rwa [List.map_append, hoffsets] at hmem
  · rw [eq_comm, hchanged.eq_iff, HasKnownFlags, hcountAt, hflagsAt, ← and_assoc, ← hcount,
      ← hoffsets]
    simp only [List.cons_append, List.nil_append, List.forall_mem_cons, List.mem_map,
      forall_exists_index, and_imp, forall_apply_eq_imp_iff₂]
    have hmethods : (∀ change ∈ changes, change.old = change.new) ↔
        ∀ change ∈ changes,
          bytes.u2At change.offset &&& MethodAccess.known = bytes.u2At change.offset := by
      refine forall₂_congr fun change hmem => ?_
      rw [hnew change hmem, hfields change hmem, eq_comm]
      rfl
    rw [hmethods, haccess, eq_comm (a := flags)]
    rfl

/-- A class whose only constant is an eight-byte number in the last place that is counted, with an unknown
flag on the class and another one on its only method. -/
def looseSample : Bytes :=
  magic ++ [0, 0, 0, 52] ++ [0, 2, 5, 0, 0, 0, 0, 0, 0, 0, 1] ++ [8, 33, 0, 0, 0, 0, 0, 0, 0, 0] ++
    [0, 1, 2, 1, 0, 0, 0, 0, 0, 0] ++ [0, 0]

theorem write_looseSample : ∃ file, parse looseSample = .ok file ∧
    file.looseFields = [8, 19, 31] ∧ file.write.length = looseSample.length ∧
    (∀ i, file.write[i]? ≠ looseSample[i]? →
      ∃ offset ∈ file.looseFields, offset ≤ i ∧ i < offset + 2) ∧
    file.write ≠ looseSample :=
  ⟨_, rfl, by decide, (write_of_parse rfl).1, (write_of_parse rfl).2.1, by decide⟩

end ClassFile

end ClassInstrument
