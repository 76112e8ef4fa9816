import Mathlib
import ClassInstrument.ClassFile.Attribute

/-!
# Numbers and lists are read back

Numbers of a fixed width, and lists of at most `65535` items behind their length, are read back as they
were written.  `Reader.ReadsBack` says so of a piece of bytes, with anything behind it, so that readers that
are put together read back pieces that are put together.
-/

namespace ClassInstrument

namespace Bytes

/-- A digit behind others counts once, and shifts them. -/
theorem toNat_append_singleton (bytes : Bytes) (byte : UInt8) :
    toNat (bytes ++ [byte]) = toNat bytes * 256 + byte.toNat := by
  simp [toNat, List.foldl_append]

/-- The digits of a number denote it, up to their width. -/
theorem toNat_ofNat (width n : ℕ) : toNat (ofNat width n) = n % 256 ^ width := by
  induction width generalizing n with
  | zero => simp [ofNat, Nat.mod_one]
  | succ width ih =>
    have hbyte : (UInt8.ofNat n).toNat = n % 256 := by simp
    rw [ofNat, toNat_append_singleton, ih, hbyte, pow_succ', Nat.mod_mul]
    omega

end Bytes

namespace Reader

/-- As many bytes as there are in front are taken off. -/
theorem take_append {count : ℕ} {front : Bytes} (h : front.length = count) (rest : Bytes) :
    take count (front ++ rest) = .ok (front, rest) := by
  unfold take
  simp [List.splitAt_eq, h]

/-- Two bytes are read back. -/
theorem u2_append (n : UInt16) (rest : Bytes) : u2 (Bytes.u2 n ++ rest) = .ok (n, rest) := by
  have hread : UInt16.ofNat (Bytes.toNat (Bytes.u2 n)) = n := by
    rw [Bytes.u2, Bytes.toNat_ofNat, Nat.mod_eq_of_lt (by have := n.toNat_lt; omega), UInt16.ofNat_toNat]
  change (take 2 >>= fun bytes => pure (UInt16.ofNat bytes.toNat)) (Bytes.u2 n ++ rest) = _
  simp only [bind, StateT.bind, take_append (Bytes.length_u2 n) rest, Except.bind, pure,
    StateT.pure, Except.pure, hread]

/-- Four bytes are read back. -/
theorem u4_append (n : UInt32) (rest : Bytes) : u4 (Bytes.u4 n ++ rest) = .ok (n, rest) := by
  have hread : UInt32.ofNat (Bytes.toNat (Bytes.u4 n)) = n := by
    rw [Bytes.u4, Bytes.toNat_ofNat, Nat.mod_eq_of_lt (by have := n.toNat_lt; omega), UInt32.ofNat_toNat]
  change (take 4 >>= fun bytes => pure (UInt32.ofNat bytes.toNat)) (Bytes.u4 n ++ rest) = _
  simp only [bind, StateT.bind, take_append (Bytes.length_u4 n) rest, Except.bind, pure,
    StateT.pure, Except.pure, hread]

/-- Eight bytes are read back. -/
theorem u8_append (n : UInt64) (rest : Bytes) : u8 (Bytes.u8 n ++ rest) = .ok (n, rest) := by
  have hread : UInt64.ofNat (Bytes.toNat (Bytes.u8 n)) = n := by
    rw [Bytes.u8, Bytes.toNat_ofNat, Nat.mod_eq_of_lt (by have := n.toNat_lt; omega), UInt64.ofNat_toNat]
  change (take 8 >>= fun bytes => pure (UInt64.ofNat bytes.toNat)) (Bytes.u8 n ++ rest) = _
  simp only [bind, StateT.bind, take_append (Bytes.length_u8 n) rest, Except.bind, pure,
    StateT.pure, Except.pure, hread]

/-- A length is two bytes. -/
theorem length2_eq {n : ℕ} (h : n < 65536) : Bytes.length2 n = Bytes.u2 (UInt16.ofNat n) := by
  rw [Bytes.u2, UInt16.toNat_ofNat_of_lt' h, Bytes.length2]

/-- A longer length is four bytes. -/
theorem length4_eq {n : ℕ} (h : n < 4294967296) : Bytes.length4 n = Bytes.u4 (UInt32.ofNat n) := by
  rw [Bytes.u4, UInt32.toNat_ofNat_of_lt' h, Bytes.length4]

/-! ## Pieces -/

/-- A piece of bytes is read back as a value, whatever comes behind it. -/
def ReadsBack {ε α : Type} (read : StateT Bytes (Except ε) α) (value : α) (piece : Bytes) : Prop :=
  ∀ rest, read (piece ++ rest) = .ok (value, rest)

namespace ReadsBack

variable {ε α β : Type} {read : StateT Bytes (Except ε) α} {next : α → StateT Bytes (Except ε) β}
  {value : α} {result : β} {piece more : Bytes}

theorem pure (value : α) : ReadsBack (Pure.pure value : StateT Bytes (Except ε) α) value [] :=
  fun _ => rfl

theorem u1 (byte : UInt8) : ReadsBack Reader.u1 byte [byte] := fun _ => rfl

/-- Pieces one behind the other are read back one after the other. -/
theorem bind (h : ReadsBack read value piece) (hnext : ReadsBack (next value) result more) :
    ReadsBack (read >>= next) result (piece ++ more) := by
  intro rest
  simp only [Bind.bind, StateT.bind, List.append_assoc, h (more ++ rest), Except.bind, hnext rest]

/-- What is looked up takes no bytes. -/
theorem lift {action : Except ε α} (haction : action = .ok value)
    (hnext : ReadsBack (next value) result piece) :
    ReadsBack (liftM action >>= next) result piece := by
  subst haction
  exact hnext

/-- The last value is made of what was read. -/
theorem map {make : α → β} (h : ReadsBack read value piece) :
    ReadsBack (do return make (← read)) (make value) piece := by
  have hmake : ReadsBack (do return make (← read)) (make value) (piece ++ []) :=
    h.bind (.pure (make value))
  rwa [List.append_nil] at hmake

/-- Items that are read back one by one are read back one after the other. -/
theorem many {items : List α} {pieces : List Bytes} (h : List.Forall₂ (ReadsBack read) items pieces) :
    ReadsBack (Reader.many read items.length) items pieces.flatten := by
  have hafter : ∀ done : List α, ReadsBack (repeatAfter read items.length done) (done.reverse ++ items)
      pieces.flatten := by
    induction h with
    | nil =>
      intro done
      rw [List.append_nil]
      exact .pure _
    | @cons item piece items pieces hfirst _ ih =>
      intro done
      have hrest := ih (item :: done)
      rw [List.reverse_cons, List.append_assoc, List.singleton_append] at hrest
      exact hfirst.bind hrest
  exact hafter []

end ReadsBack

section

variable {α : Type} {read : Reader α} {write : α → Bytes}

/-- Items that are read back one by one are read back behind their number. -/
theorem readsBack_list {items : List α} {pieces : List Bytes}
    (h : List.Forall₂ (ReadsBack read) items pieces) (hlength : items.length < 65536) :
    ReadsBack (list read) items (Bytes.length2 items.length ++ pieces.flatten) := by
  have hcount : (UInt16.ofNat items.length).toNat = items.length :=
    UInt16.toNat_ofNat_of_lt' hlength
  have hitems := ReadsBack.many h
  rw [← hcount] at hitems
  rw [length2_eq hlength]
  exact ReadsBack.bind (u2_append _) hitems

/-- Items that are read back one by one are read back as a list. -/
theorem list_append {items : List α} (hread : ∀ item ∈ items, ReadsBack read item (write item))
    (hlength : items.length < 65536) (rest : Bytes) :
    list read (Bytes.list write items ++ rest) = .ok (items, rest) := by
  have hpieces : List.Forall₂ (ReadsBack read) items (items.map write) := by
    rw [List.forall₂_map_right_iff, List.forall₂_same]
    exact hread
  exact readsBack_list hpieces hlength rest

end

end Reader

end ClassInstrument
