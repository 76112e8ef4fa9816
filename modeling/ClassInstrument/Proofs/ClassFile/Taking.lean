import ClassInstrument.ClassFile.Basic
import ClassInstrument.Proofs.Bytes
import ClassInstrument.Proofs.Outcome

/-!
# What readers take off the front

`Reader.Takes` says that whatever a reader takes off the front of a byte string is a written form of the
value that it gives.  For most values there is one written form, and the reader has taken exactly that
one.  The flags of a method have several written forms, since unknown bits are forgotten; so a written
form is a relation between values and byte strings, and lists are taken apart into the forms of their
items.

The count in front of a table of constants has several written forms as well.  `Pool.takes_read` says which
ones lead to the same table.
-/

namespace ClassInstrument

namespace Bytes

/-- Digits that fill a width are those of the number they denote. -/
theorem ofNat_toNat (bytes : Bytes) : ofNat bytes.length (toNat bytes) = bytes := by
  induction bytes using List.reverseRecOn with
  | nil => rfl
  | append_singleton bytes byte ih =>
    have hquotient : (toNat bytes * 256 + byte.toNat) / 256 = toNat bytes := by
      have := byte.toNat_lt
      omega
    have hdigit : UInt8.ofNat (toNat bytes * 256 + byte.toNat) = byte := by
      apply UInt8.toNat_inj.mp
      have := byte.toNat_lt
      simp only [UInt8.toNat_ofNat']
      omega
    rw [toNat_append_singleton, List.length_append, List.length_singleton, ofNat, hquotient, hdigit, ih]

/-- A number denoted by digits is below the power of the base that their count stands for. -/
theorem toNat_lt (bytes : Bytes) : toNat bytes < 256 ^ bytes.length := by
  have h := toNat_ofNat bytes.length (toNat bytes)
  rw [ofNat_toNat] at h
  exact h ▸ Nat.mod_lt _ (by positivity)

end Bytes

namespace Reader

variable {α β : Type}

/-- A sequence of two actions succeeds if both do, the second one on what the first one leaves. -/
theorem bind_eq_ok {first : Reader α} {next : α → Reader β} {bytes rest : Bytes} {result : β} :
    (first >>= next) bytes = .ok (result, rest) ↔
      ∃ value middle, first bytes = .ok (value, middle) ∧ next value middle = .ok (result, rest) := by
  change (first bytes >>= fun item => next item.1 item.2) = _ ↔ _
  rw [Outcome.bind_eq_ok, Prod.exists]

/-- A plain value leaves the bytes as they are. -/
theorem pure_eq_ok {value result : α} {bytes rest : Bytes} :
    (pure value : Reader α) bytes = .ok (result, rest) ↔ value = result ∧ bytes = rest := by
  change Except.ok (value, bytes) = _ ↔ _
  simp

/-- A reader that fails gives nothing. -/
theorem throw_ne_ok {fault : ReadFault} {result : α} {bytes rest : Bytes} :
    (throw fault : Reader α) bytes ≠ .ok (result, rest) := by
  change (Except.error fault : Except ReadFault (α × Bytes)) ≠ _
  simp

/-- What a reader takes off the front is a written form of the value that it gives. -/
def Takes (read : Reader α) (written : α → Bytes → Prop) : Prop :=
  ∀ (bytes rest : Bytes) (value : α), read bytes = .ok (value, rest) →
    ∃ front, bytes = front ++ rest ∧ written value front

/-- The only written form of each value is the one that a function gives. -/
def Exactly (write : α → Bytes) (value : α) (front : Bytes) : Prop := front = write value

/-- A reader that takes exactly the written form of its value leaves what is behind it. -/
theorem Takes.eq_append {read : Reader α} {write : α → Bytes} (h : Takes read (Exactly write))
    {bytes rest : Bytes} {value : α} (hread : read bytes = .ok (value, rest)) :
    bytes = write value ++ rest := by
  obtain ⟨front, rfl, rfl⟩ := h _ _ _ hread
  rfl

/-! ## Numbers -/

/-- A number of bytes is taken as it stands. -/
theorem eq_of_take {count : ℕ} {bytes front rest : Bytes} (h : take count bytes = .ok (front, rest)) :
    bytes = front ++ rest ∧ front.length = count := by
  unfold take at h
  split at h
  next front' rest' hsplit =>
  split at h
  · next hlength =>
    obtain ⟨rfl, rfl⟩ := Prod.mk.inj (Except.ok.inj h)
    have hcut : (bytes.take count, bytes.drop count) = (front', rest') := by
      rw [← List.splitAt_eq, hsplit]
    obtain ⟨rfl, rfl⟩ := Prod.mk.inj hcut
    exact ⟨(List.take_append_drop count bytes).symm, hlength⟩
  · simp at h

theorem takes_u1 : Takes u1 (Exactly fun byte => [byte]) := by
  intro bytes rest byte h
  cases bytes with
  | nil => simp [u1] at h
  | cons first others =>
    obtain ⟨rfl, rfl⟩ := Prod.mk.inj (Except.ok.inj h)
    exact ⟨[first], rfl, rfl⟩

/-- A number is taken as the bytes that are read for it, if it fits into these. -/
theorem takes_number {count : ℕ} {ofNumber : ℕ → α} {write : α → Bytes}
    (h : ∀ number < 256 ^ count, write (ofNumber number) = Bytes.ofNat count number) :
    Takes (do return ofNumber (← take count).toNat) (Exactly write) := by
  intro bytes rest value hread
  obtain ⟨front, middle, hfront, hread⟩ := bind_eq_ok.mp hread
  obtain ⟨rfl, rfl⟩ := pure_eq_ok.mp hread
  obtain ⟨rfl, rfl⟩ := eq_of_take hfront
  exact ⟨front, rfl, by rw [Exactly, h _ (Bytes.toNat_lt front), Bytes.ofNat_toNat]⟩

theorem takes_u2 : Takes u2 (Exactly Bytes.u2) :=
  takes_number fun _ hlt => by rw [Bytes.u2, UInt16.toNat_ofNat_of_lt' (by simpa [UInt16.size] using hlt)]

theorem takes_u4 : Takes u4 (Exactly Bytes.u4) :=
  takes_number fun _ hlt => by rw [Bytes.u4, UInt32.toNat_ofNat_of_lt' (by simpa [UInt32.size] using hlt)]

theorem takes_u8 : Takes u8 (Exactly Bytes.u8) :=
  takes_number fun _ hlt => by rw [Bytes.u8, UInt64.toNat_ofNat_of_lt' (by simpa [UInt64.size] using hlt)]

/-! ## Lists -/

section

variable {read : Reader α} {written : α → Bytes → Prop}

/-- Items read one after the other are taken one after the other. -/
theorem takes_repeatAfter (h : Takes read written) {count : ℕ} {done items : List α}
    {bytes rest : Bytes} (hread : repeatAfter read count done bytes = .ok (items, rest)) :
    ∃ more fronts, items = done.reverse ++ more ∧ more.length = count ∧
      bytes = List.flatten fronts ++ rest ∧ List.Forall₂ written more fronts := by
  induction count generalizing done bytes with
  | zero =>
    obtain ⟨rfl, rfl⟩ := pure_eq_ok.mp hread
    exact ⟨[], [], by simp, rfl, rfl, .nil⟩
  | succ count ih =>
    obtain ⟨item, middle, hitem, hothers⟩ := bind_eq_ok.mp hread
    obtain ⟨front, rfl, hfront⟩ := h _ _ _ hitem
    obtain ⟨more, fronts, rfl, hcount, rfl, hmore⟩ := ih hothers
    exact ⟨item :: more, front :: fronts, by simp, by simp [hcount], by simp, .cons hfront hmore⟩

/-- A list is taken with its length in front. -/
theorem takes_list (h : Takes read written) :
    Takes (list read) fun items front => ∃ fronts, List.Forall₂ written items fronts ∧
      front = Bytes.length2 items.length ++ fronts.flatten := by
  intro bytes rest items hread
  obtain ⟨count, middle, hcount, hitems⟩ := bind_eq_ok.mp hread
  obtain rfl := takes_u2.eq_append hcount
  obtain ⟨more, fronts, rfl, hlength, rfl, hmore⟩ := takes_repeatAfter h hitems
  refine ⟨Bytes.u2 count ++ fronts.flatten, by simp, fronts, by simpa using hmore, ?_⟩
  simp [Bytes.u2, Bytes.length2, hlength]

/-- The only forms of items are those that a function gives. -/
theorem flatten_of_exactly {write : α → Bytes} {items : List α} {fronts : List Bytes}
    (h : List.Forall₂ (Exactly write) items fronts) : fronts.flatten = items.flatMap write := by
  induction h with
  | nil => rfl
  | cons hfirst _ ih => rw [List.flatten_cons, List.flatMap_cons, ih, hfirst]

theorem takes_list_exactly {write : α → Bytes} (h : Takes read (Exactly write)) :
    Takes (list read) (Exactly (Bytes.list write)) := by
  intro bytes rest items hread
  obtain ⟨front, rfl, fronts, hitems, rfl⟩ := takes_list h _ _ _ hread
  exact ⟨_, rfl, by rw [Exactly, Bytes.list, flatten_of_exactly hitems]⟩

end

end Reader

open Reader

/-! ## Constants -/

namespace Constant

variable {α β : Type}

/-- A value made from one operand is taken as the operand is. -/
theorem takes_operand {read : Reader α} {write : α → Bytes} (h : Takes read (Exactly write))
    (make : α → Constant) :
    Takes (do return make (← read)) fun constant front => ∃ value, constant = make value ∧ front = write value := by
  intro bytes rest constant hread
  obtain ⟨value, middle, hvalue, hread⟩ := bind_eq_ok.mp hread
  obtain ⟨rfl, rfl⟩ := pure_eq_ok.mp hread
  obtain ⟨front, rfl, hfront⟩ := h _ _ _ hvalue
  exact ⟨front, rfl, value, rfl, hfront⟩

/-- A value made from two operands is taken as they are, one behind the other. -/
theorem takes_operands {read : Reader α} {write : α → Bytes} (h : Takes read (Exactly write))
    (make : α → PoolIndex → Constant) :
    Takes (do return make (← read) (← u2)) fun constant front =>
      ∃ value index, constant = make value index ∧ front = write value ++ Bytes.u2 index := by
  intro bytes rest constant hread
  obtain ⟨value, middle, hvalue, hread⟩ := bind_eq_ok.mp hread
  obtain ⟨index, middle, hindex, hread⟩ := bind_eq_ok.mp hread
  obtain ⟨rfl, rfl⟩ := pure_eq_ok.mp hread
  obtain rfl := h.eq_append hvalue
  obtain rfl := takes_u2.eq_append hindex
  exact ⟨write value ++ Bytes.u2 index, by simp, value, index, rfl, rfl⟩

/-- The operands of a constant are taken as they stand behind its tag. -/
theorem takes_readTagged (tag : UInt8) :
    Takes (readTagged tag) fun constant front => constant.write = tag :: front := by
  intro bytes rest constant h
  unfold readTagged at h
  split at h
  · obtain ⟨length, middle, hlength, h⟩ := bind_eq_ok.mp h
    obtain ⟨text, middle, htext, h⟩ := bind_eq_ok.mp h
    obtain ⟨rfl, rfl⟩ := pure_eq_ok.mp h
    obtain rfl := takes_u2.eq_append hlength
    obtain ⟨rfl, hcount⟩ := eq_of_take htext
    exact ⟨Bytes.u2 length ++ text, by simp, by simp [write, Bytes.length2, Bytes.u2, hcount]⟩
  · obtain ⟨front, rfl, value, rfl, rfl⟩ := takes_operand takes_u4 (integer ∘ UInt32.toInt32) _ _ _ h
    exact ⟨_, rfl, by simp [write]⟩
  · obtain ⟨front, rfl, value, rfl, rfl⟩ := takes_operand takes_u4 float _ _ _ h
    exact ⟨_, rfl, rfl⟩
  · obtain ⟨front, rfl, value, rfl, rfl⟩ := takes_operand takes_u8 (long ∘ UInt64.toInt64) _ _ _ h
    exact ⟨_, rfl, by simp [write]⟩
  · obtain ⟨front, rfl, value, rfl, rfl⟩ := takes_operand takes_u8 double _ _ _ h
    exact ⟨_, rfl, rfl⟩
  · obtain ⟨front, rfl, value, rfl, rfl⟩ := takes_operand takes_u2 classRef _ _ _ h
    exact ⟨_, rfl, rfl⟩
  · obtain ⟨front, rfl, value, rfl, rfl⟩ := takes_operand takes_u2 string _ _ _ h
    exact ⟨_, rfl, rfl⟩
  · obtain ⟨front, rfl, owner, member, rfl, rfl⟩ := takes_operands takes_u2 fieldRef _ _ _ h
    exact ⟨_, rfl, rfl⟩
  · obtain ⟨front, rfl, owner, member, rfl, rfl⟩ :=
      takes_operands takes_u2 (fun owner member => methodRef owner member false) _ _ _ h
    exact ⟨_, rfl, rfl⟩
  · obtain ⟨front, rfl, owner, member, rfl, rfl⟩ :=
      takes_operands takes_u2 (fun owner member => methodRef owner member true) _ _ _ h
    exact ⟨_, rfl, rfl⟩
  · obtain ⟨front, rfl, name, descriptor, rfl, rfl⟩ := takes_operands takes_u2 nameAndType _ _ _ h
    exact ⟨_, rfl, rfl⟩
  · obtain ⟨front, rfl, kind, member, rfl, rfl⟩ := takes_operands takes_u1 methodHandle _ _ _ h
    exact ⟨_, rfl, rfl⟩
  · obtain ⟨front, rfl, value, rfl, rfl⟩ := takes_operand takes_u2 methodType _ _ _ h
    exact ⟨_, rfl, rfl⟩
  · obtain ⟨front, rfl, bootstrap, member, rfl, rfl⟩ := takes_operands takes_u2 dynamic _ _ _ h
    exact ⟨_, rfl, rfl⟩
  · obtain ⟨front, rfl, bootstrap, member, rfl, rfl⟩ := takes_operands takes_u2 invokeDynamic _ _ _ h
    exact ⟨_, rfl, rfl⟩
  · obtain ⟨front, rfl, value, rfl, rfl⟩ := takes_operand takes_u2 moduleRef _ _ _ h
    exact ⟨_, rfl, rfl⟩
  · obtain ⟨front, rfl, value, rfl, rfl⟩ := takes_operand takes_u2 packageRef _ _ _ h
    exact ⟨_, rfl, rfl⟩
  · exact absurd h throw_ne_ok

theorem takes_read : Takes Constant.read (Exactly Constant.write) := by
  intro bytes rest constant h
  obtain ⟨tag, middle, htag, h⟩ := bind_eq_ok.mp h
  obtain rfl := takes_u1.eq_append htag
  obtain ⟨front, rfl, hfront⟩ := takes_readTagged tag _ _ _ h
  exact ⟨tag :: front, rfl, hfront.symm⟩

end Constant

/-! ## Tables of constants -/

namespace Pool

/-- What is written of a table of constants behind the count. -/
def writeConstants (pool : Pool) : Bytes :=
  pool.slots.toList.flatMap fun slot =>
    match slot with
    | some constant => constant.write
    | none => []

/-- Every eight-byte number has the place behind it to itself. -/
def Closed (pool : Pool) : Prop :=
  ∀ index constant, pool.slots[index]? = some (some constant) → constant.isWide →
    pool.slots[index + 1]? = some none

theorem writeConstants_append (pool : Pool) (constant : Constant) (room : pool.slots.size < 65535) :
    (pool.append constant room).writeConstants = pool.writeConstants ++ constant.write := by
  unfold writeConstants append IsConstantTable.appendSlot
  split <;> simp

theorem Closed.append {pool : Pool} (h : pool.Closed) (constant : Constant)
    (room : pool.slots.size < 65535) : (pool.append constant room).Closed := by
  intro index other hother hwide
  have hold := h index other
  unfold Pool.append IsConstantTable.appendSlot at hother ⊢
  dsimp only at hother ⊢
  split at hother
  · next hconstant =>
    rw [if_pos hconstant]
    grind
  · next hconstant =>
    rw [if_neg hconstant]
    grind

/-- The last place that a count allows for holds an eight-byte number, which takes a place more. -/
def EndsWide (pool : Pool) (count : UInt16) : Prop :=
  ∃ constant, pool.slots[count.toNat - 1]? = some (some constant) ∧ constant.isWide

/-- Constants are read until a number of places are in use; the last one may take a place more. -/
theorem takes_readUpTo {count : UInt16} {rounds : ℕ} {pool : Pool} (hclosed : pool.Closed)
    (hrounds : count.toNat ≤ rounds + pool.slots.size) {bytes rest : Bytes} {result : Pool}
    (h : readUpTo count rounds pool bytes = .ok (result, rest)) :
    result.Closed ∧ (∃ front, bytes = front ++ rest ∧
      result.writeConstants = pool.writeConstants ++ front) ∧
      (count.toNat ≤ pool.slots.size ∧ result = pool ∨ result.slots.size = count.toNat ∨
        result.slots.size = count.toNat + 1 ∧ result.EndsWide count) := by
  induction rounds generalizing pool bytes with
  | zero =>
    obtain ⟨rfl, rfl⟩ := pure_eq_ok.mp h
    exact ⟨hclosed, ⟨[], rfl, by simp⟩, Or.inl ⟨by omega, rfl⟩⟩
  | succ rounds ih =>
    rw [readUpTo] at h
    split at h
    · next room =>
      obtain ⟨constant, middle, hconstant, hmore⟩ := bind_eq_ok.mp h
      obtain rfl := Constant.takes_read.eq_append hconstant
      have hroom : pool.slots.size < 65535 := by have := count.toNat_lt; omega
      have hsize : (pool.append constant hroom).slots.size = pool.slots.size + constant.places :=
        IsConstantTable.size_appendSlot pool.slots constant
      have hplaces := constant.one_le_places
      obtain ⟨hresult, ⟨front, rfl, hfront⟩, hend⟩ :=
        ih (hclosed.append constant hroom) (by omega) hmore
      refine ⟨hresult, ⟨constant.write ++ front, by simp, ?_⟩, Or.inr ?_⟩
      · rw [hfront, writeConstants_append, List.append_assoc]
      · rcases hend with ⟨hle, rfl⟩ | hend
        · rw [hsize] at hle ⊢
          by_cases hwide : constant.isWide
          · simp only [Constant.places, hwide, ↓reduceIte] at hle ⊢
            rcases Nat.eq_or_lt_of_le hle with heq | hlt
            · exact Or.inl heq.symm
            · refine Or.inr ⟨by omega, constant, ?_, hwide⟩
              have hlast : count.toNat - 1 = pool.slots.size := by omega
              exact (IsConstantTable.getElem?_appendSlot _ _ _ _).mpr (Or.inr ⟨hlast, rfl⟩)
          · simp only [Constant.places, hwide] at hle ⊢
            exact Or.inl (by simp at hle ⊢; omega)
        · exact hend
    · next hfull =>
      obtain ⟨rfl, rfl⟩ := pure_eq_ok.mp h
      exact ⟨hclosed, ⟨[], rfl, by simp⟩, Or.inl ⟨by omega, rfl⟩⟩

theorem write_eq (pool : Pool) : pool.write = Bytes.u2 pool.count ++ pool.writeConstants := rfl

theorem closed_empty : empty.Closed := by
  intro index constant h
  rcases index with - | index <;> simp [empty] at h

/-- A table is taken with any count that stops behind its last constant: the number of its places, or none
if it is empty, or one less if its last constant is an eight-byte number. -/
theorem takes_read {bytes rest : Bytes} {pool : Pool} (h : Pool.read bytes = .ok (pool, rest)) :
    ∃ count, bytes = Bytes.u2 count ++ pool.writeConstants ++ rest ∧
      (count = pool.count ↔ 1 ≤ count ∧ ¬ pool.EndsWide count) := by
  obtain ⟨count, middle, hcount, hconstants⟩ := bind_eq_ok.mp h
  obtain rfl := takes_u2.eq_append hcount
  obtain ⟨hclosed, ⟨front, rfl, hfront⟩, hend⟩ :=
    takes_readUpTo closed_empty (Nat.le_add_right _ _) hconstants
  have hwrite : pool.writeConstants = front := by simpa [writeConstants, empty] using hfront
  refine ⟨count, by rw [hwrite, List.append_assoc], ?_⟩
  have hlt := count.toNat_lt
  have hzero : pool.slots[0]? = some none := pool.valid.zero_eq
  rcases hend with ⟨hle, rfl⟩ | hsize | ⟨hsize, hwide⟩
  · have hone : count.toNat ≤ 1 := hle
    have hplain : ¬ empty.EndsWide count := by
      rintro ⟨constant, hheld, -⟩
      rw [show count.toNat - 1 = 0 by omega, hzero] at hheld
      simp at hheld
    simp only [hplain, not_false_eq_true, and_true]
    rw [← UInt16.toNat_inj, UInt16.le_iff_toNat_le]
    change count.toNat = 1 ↔ 1 ≤ count.toNat
    omega
  · have hpos : 1 ≤ count.toNat := by
      have := (Array.getElem?_eq_some_iff.mp hzero).1
      omega
    have hplain : ¬ pool.EndsWide count := by
      rintro ⟨constant, hheld, hwide⟩
      have hnext := hclosed _ _ hheld hwide
      have hlast := (Array.getElem?_eq_some_iff.mp hnext).1
      omega
    have hcount : count = pool.count := by rw [Pool.count, hsize, UInt16.ofNat_toNat]
    exact ⟨fun _ => ⟨UInt16.le_iff_toNat_le.mpr hpos, hplain⟩, fun _ => hcount⟩
  · have hcount : count ≠ pool.count := by
      intro heq
      have hnat := congrArg UInt16.toNat heq
      rw [Pool.count, hsize, UInt16.toNat_ofNat'] at hnat
      omega
    exact ⟨fun heq => absurd heq hcount, fun h => absurd hwide h.2⟩

end Pool
/-! ## Parts of a class -/

theorem takes_readOptionalIndex : Takes readOptionalIndex (Exactly writeOptionalIndex) := by
  intro bytes rest index h
  obtain ⟨number, middle, hnumber, h⟩ := bind_eq_ok.mp h
  obtain ⟨rfl, rfl⟩ := pure_eq_ok.mp h
  obtain rfl := takes_u2.eq_append hnumber
  refine ⟨_, rfl, ?_⟩
  by_cases hzero : number = 0 <;> simp [Exactly, writeOptionalIndex, hzero]

theorem Attribute.takes_read : Takes Attribute.read (Exactly Attribute.write) := by
  intro bytes rest attr h
  obtain ⟨name, middle, hname, h⟩ := bind_eq_ok.mp h
  obtain ⟨length, middle, hlength, h⟩ := bind_eq_ok.mp h
  obtain ⟨info, middle, hinfo, h⟩ := bind_eq_ok.mp h
  obtain ⟨rfl, rfl⟩ := pure_eq_ok.mp h
  obtain rfl := takes_u2.eq_append hname
  obtain rfl := takes_u4.eq_append hlength
  obtain ⟨rfl, hcount⟩ := eq_of_take hinfo
  exact ⟨Attribute.write ⟨name, info⟩, by simp [Attribute.write, Bytes.length4, Bytes.u4, hcount], rfl⟩

theorem Field.takes_read : Takes Field.read (Exactly Field.write) := by
  intro bytes rest field h
  obtain ⟨access, middle, haccess, h⟩ := bind_eq_ok.mp h
  obtain ⟨name, middle, hname, h⟩ := bind_eq_ok.mp h
  obtain ⟨descriptor, middle, hdescriptor, h⟩ := bind_eq_ok.mp h
  obtain ⟨attributes, middle, hattributes, h⟩ := bind_eq_ok.mp h
  obtain ⟨rfl, rfl⟩ := pure_eq_ok.mp h
  obtain rfl := takes_u2.eq_append haccess
  obtain rfl := takes_u2.eq_append hname
  obtain rfl := takes_u2.eq_append hdescriptor
  obtain rfl := (takes_list_exactly Attribute.takes_read).eq_append hattributes
  exact ⟨Field.write ⟨access, name, descriptor, attributes⟩, by simp [Field.write], rfl⟩

/-- What is written of a method behind its flags. -/
def MethodEntry.writeBehindFlags (method : MethodEntry) : Bytes :=
  Bytes.u2 method.name ++ Bytes.u2 method.descriptor ++ Bytes.list Attribute.write method.attributes

/-- A method is taken with any flags that have the same known ones among them. -/
theorem MethodEntry.takes_read : Takes MethodEntry.read fun method front =>
    ∃ flags, method.access = MethodAccess.ofBits flags ∧
      front = Bytes.u2 flags ++ method.writeBehindFlags := by
  intro bytes rest method h
  obtain ⟨flags, middle, hflags, h⟩ := bind_eq_ok.mp h
  obtain ⟨name, middle, hname, h⟩ := bind_eq_ok.mp h
  obtain ⟨descriptor, middle, hdescriptor, h⟩ := bind_eq_ok.mp h
  obtain ⟨attributes, middle, hattributes, h⟩ := bind_eq_ok.mp h
  obtain ⟨rfl, rfl⟩ := pure_eq_ok.mp h
  obtain rfl := takes_u2.eq_append hflags
  obtain rfl := takes_u2.eq_append hname
  obtain rfl := takes_u2.eq_append hdescriptor
  obtain rfl := (takes_list_exactly Attribute.takes_read).eq_append hattributes
  exact ⟨Bytes.u2 flags ++ MethodEntry.writeBehindFlags ⟨.ofBits flags, name, descriptor, attributes⟩,
    by simp [MethodEntry.writeBehindFlags], flags, rfl, rfl⟩

end ClassInstrument
