import ClassInstrument.ClassFile.Attribute
import ClassInstrument.Frame.StackMap
import ClassInstrument.Pool.Basic
import ClassInstrument.Proofs.Bytes
import ClassInstrument.Proofs.Outcome

/-!
# Unpacking lists of frames

Whoever reads a class file unpacks the list of frames of a method one by one.  The first byte of a frame
tells how it differs from the one before, which for the first one is the frame on entry to the method, and how
far it is from it.  `CodeAttribute.unpackFrames` does so from the bytes of the attribute on, and looks up the
classes; it shares nothing with what writes frames.

A frame is chosen such that it is read back (`StackMapFrame.readsBack_write`), and such that it says again what
it was made from (`StackMapFrame.unpack_between`).
-/

namespace ClassInstrument

open Outcome

/-- Why a list of frames says nothing. -/
inductive UnpackFault where
  /-- The bytes end before the list does. -/
  | endOfInput
  /-- There are bytes behind the list. -/
  | leftOver
  /-- No type has the tag. -/
  | unknownType (tag : UInt8)
  /-- No frame has the tag. -/
  | reservedFrame (tag : UInt8)
  /-- An index holds no class. -/
  | badClass (index : PoolIndex)
  /-- More variables are to be taken away than there are. -/
  | tooFewVariables
  /-- There is more than one list. -/
  | severalLists
deriving DecidableEq, Repr

/-! ## Reading frames -/

/-- A reader of lists of frames. -/
abbrev FrameReader := StateT Bytes (Except UnpackFault)

namespace FrameReader

/-- Reads a number. -/
def number {α : Type} (read : Reader α) : FrameReader α := fun bytes =>
  match read bytes with
  | .ok result => .ok result
  | .error _ => .error .endOfInput

/-- Reads a type. -/
def type : FrameReader WrittenType := do
  match ← number Reader.u1 with
  | 0 => return .top
  | 1 => return .int
  | 2 => return .float
  | 3 => return .double
  | 4 => return .long
  | 5 => return .null
  | 6 => return .uninitThis
  | 7 => return .object (← number Reader.u2)
  | 8 => return .uninit (← number Reader.u2)
  | tag => throw (.unknownType tag)

/-- Reads items behind their number. -/
def list {α : Type} (read : FrameReader α) : FrameReader (List α) := do
  let count ← number Reader.u2
  Reader.many read count.toNat

/-- Reads what comes behind a tag and a distance. -/
def distantFrame (tag : UInt8) (delta : UInt16) : FrameReader StackMapFrame := do
  if tag = 247 then return .oneStack delta (← type)
  else if tag ≤ 250 then return .chop delta (251 - tag.toNat)
  else if tag = 251 then return .same delta
  else if tag ≤ 254 then return .append delta (← Reader.many type (tag.toNat - 251))
  else
    let locals ← list type
    return .full delta locals (← list type)

/-- Reads what comes behind a tag, which holds the distance if it is small. -/
def taggedFrame (tag : UInt8) : FrameReader StackMapFrame := do
  if tag ≤ 63 then return .same tag.toUInt16
  else if tag ≤ 127 then return .oneStack (tag - 64).toUInt16 (← type)
  else if tag ≤ 246 then throw (.reservedFrame tag)
  else distantFrame tag (← number Reader.u2)

/-- Reads a frame. -/
def frame : FrameReader StackMapFrame := do
  taggedFrame (← number Reader.u1)

/-- The frames that some bytes list. -/
def readAll (bytes : Bytes) : Except UnpackFault (List StackMapFrame) := do
  match ← list frame bytes with
  | (frames, []) => return frames
  | (_, _ :: _) => throw .leftOver

end FrameReader

/-! ## Unpacking -/

/-- A type that names its class by text, and its creation site by the offset of an instruction. -/
abbrev NamedType := ValueType String ℕ

/-- The frame at an offset of some bytecode. -/
structure BlockFrame where
  /-- The offset of the instruction that the frame is for. -/
  offset : ℕ
  /-- The entries of the local variables. -/
  locals : List NamedType
  /-- The stack values. -/
  stack : List NamedType
deriving DecidableEq, Repr

/-- The type that a written one stands for. -/
def ValueType.lookUp (pool : Pool) : WrittenType → Except UnpackFault NamedType
  | .top => .ok .top
  | .int => .ok .int
  | .float => .ok .float
  | .double => .ok .double
  | .long => .ok .long
  | .null => .ok .null
  | .uninitThis => .ok .uninitThis
  | .object index =>
    match pool.className index with
    | .ok name => .ok (.object name)
    | .error _ => .error (.badClass index)
  | .uninit offset => .ok (.uninit offset.toNat)

namespace StackMapFrame

/-- The distance of a frame from the one before. -/
def delta : StackMapFrame → UInt16
  | same delta | oneStack delta _ | chop delta _ | append delta _ | full delta _ _ => delta

/-- The variables and the stack of a frame that comes behind one with some variables. -/
def unpack (pool : Pool) (previous : List NamedType) :
    StackMapFrame → Except UnpackFault (List NamedType × List NamedType)
  | same _ => return (previous, [])
  | oneStack _ value => return (previous, [← value.lookUp pool])
  | chop _ count =>
    if count ≤ previous.length then return (previous.take (previous.length - count), [])
    else throw .tooFewVariables
  | append _ more => return (previous ++ (← more.mapM (ValueType.lookUp pool)), [])
  | full _ locals stack =>
    return (← locals.mapM (ValueType.lookUp pool), ← stack.mapM (ValueType.lookUp pool))

/-- Unpacks a frame behind others; the first one comes behind the frame on entry. -/
def unpackNext (pool : Pool) (entry : List NamedType) (before : List BlockFrame)
    (frame : StackMapFrame) : Except UnpackFault (List BlockFrame) := do
  match before.getLast? with
  | none =>
    let (locals, stack) ← frame.unpack pool entry
    return before ++ [⟨frame.delta.toNat, locals, stack⟩]
  | some previous =>
    let (locals, stack) ← frame.unpack pool previous.locals
    return before ++ [⟨previous.offset + frame.delta.toNat + 1, locals, stack⟩]

/-- Unpacks frames one after the other. -/
def unpackAll (pool : Pool) (entry : List NamedType) (frames : List StackMapFrame) :
    Except UnpackFault (List BlockFrame) :=
  frames.foldlM (unpackNext pool entry) []

end StackMapFrame

/-- Is an attribute the list of frames? -/
def Attribute.listsFrames (pool : Pool) (attr : Attribute) : Bool :=
  (pool.utf8 attr.name).toOption = some StackMapFrame.attributeName

/-- The frames that the code of a method lists, if the method is entered with some variables. -/
def CodeAttribute.unpackFrames (code : CodeAttribute) (pool : Pool) (entry : List NamedType) :
    Except UnpackFault (List BlockFrame) := do
  match code.attributes.filter (Attribute.listsFrames pool) with
  | [] => return []
  | [attr] => StackMapFrame.unpackAll pool entry (← FrameReader.readAll attr.info)
  | _ => throw .severalLists

/-! ## Frames are read back -/

namespace FrameReader

open Reader

/-- A number is read back. -/
theorem readsBack_number {α : Type} {read : Reader α} {value : α} {piece : Bytes}
    (h : ReadsBack read value piece) : ReadsBack (number read) value piece := by
  intro rest
  rw [number, h rest]

/-- A type is read back. -/
theorem readsBack_type (written : WrittenType) : ReadsBack type written written.write := by
  have htag : ∀ {next : UInt8 → FrameReader WrittenType} {piece : Bytes} (tag : UInt8),
      ReadsBack (next tag) written piece →
        ReadsBack (number Reader.u1 >>= next) written ([tag] ++ piece) :=
    fun tag h => (readsBack_number (.u1 tag)).bind h
  have hindex : ∀ (make : UInt16 → WrittenType) (index : UInt16),
      ReadsBack (do return make (← number Reader.u2)) (make index) (Bytes.u2 index) :=
    fun make index => (readsBack_number (u2_append index)).map
  cases written with
  | object index => exact htag 7 (hindex .object index)
  | uninit offset => exact htag 8 (hindex .uninit offset)
  | top => exact htag 0 (.pure _)
  | int => exact htag 1 (.pure _)
  | float => exact htag 2 (.pure _)
  | double => exact htag 3 (.pure _)
  | long => exact htag 4 (.pure _)
  | null => exact htag 5 (.pure _)
  | uninitThis => exact htag 6 (.pure _)

/-- Types are read back one after the other. -/
theorem readsBack_types (types : List WrittenType) :
    ReadsBack (many type types.length) types (types.flatMap ValueType.write) := by
  refine ReadsBack.many ?_
  rw [List.forall₂_map_right_iff, List.forall₂_same]
  exact fun written _ => readsBack_type written

/-- A list that fits its number is read back. -/
theorem readsBack_list {α : Type} {read : FrameReader α} {write : α → Bytes} {items : List α}
    (h : ∀ item ∈ items, ReadsBack read item (write item)) (hlength : items.length < 65536) :
    ReadsBack (list read) items (Bytes.list write items) := by
  have hcount : (UInt16.ofNat items.length).toNat = items.length :=
    UInt16.toNat_ofNat_of_lt' hlength
  have hitems : ReadsBack (many read items.length) items (items.flatMap write) := by
    refine ReadsBack.many ?_
    rw [List.forall₂_map_right_iff, List.forall₂_same]
    exact h
  rw [← hcount] at hitems
  rw [Bytes.list, length2_eq hlength]
  exact (readsBack_number (u2_append _)).bind hitems

end FrameReader

namespace StackMapFrame

/-- The parts of a frame have the sizes that its written form has room for. -/
def Fits : StackMapFrame → Prop
  | chop _ count => 1 ≤ count ∧ count ≤ 3
  | append _ more => 1 ≤ more.length ∧ more.length ≤ 3
  | full _ locals stack => locals.length < 65536 ∧ stack.length < 65536
  | _ => True

section

open Reader FrameReader

/-- A frame is read back from its tag and what comes behind it. -/
theorem readsBack_frame {tag : UInt8} {value : StackMapFrame} {piece : Bytes}
    (h : ReadsBack (taggedFrame tag) value piece) : ReadsBack frame value (tag :: piece) :=
  (readsBack_number (.u1 tag)).bind h

/-- A frame with a large tag is read back from its distance and what comes behind it. -/
theorem readsBack_distant {tag : UInt8} {delta : UInt16} {value : StackMapFrame} {piece : Bytes}
    (hlarge : 246 < tag) (h : ReadsBack (distantFrame tag delta) value piece) :
    ReadsBack frame value (tag :: Bytes.u2 delta ++ piece) := by
  have hdistance : ReadsBack (number Reader.u2) delta (Bytes.u2 delta) :=
    readsBack_number (u2_append delta)
  have hne : ∀ {bound : UInt8}, bound ≤ 246 → ¬ tag ≤ bound := fun hle =>
    UInt8.not_le.mpr (UInt8.lt_of_le_of_lt hle hlarge)
  refine readsBack_frame ?_
  rw [taggedFrame, if_neg (hne (by decide)), if_neg (hne (by decide)), if_neg (hne (by decide))]
  exact hdistance.bind h

/-- A small distance is read back from one byte. -/
theorem toUInt16_toUInt8 {delta : UInt16} (h : delta ≤ 63) : delta.toUInt8.toUInt16 = delta := by
  rw [UInt16.le_iff_toNat_le] at h
  have h63 : (63 : UInt16).toNat = 63 := rfl
  rw [← UInt16.toNat_inj, UInt8.toNat_toUInt16, UInt16.toNat_toUInt8]
  omega

/-- The byte of a small distance is small. -/
theorem toUInt8_le {delta : UInt16} (h : delta ≤ 63) : delta.toUInt8 ≤ 63 := by
  rw [UInt16.le_iff_toNat_le] at h
  have h63 : (63 : UInt16).toNat = 63 := rfl
  have h63' : (63 : UInt8).toNat = 63 := rfl
  rw [UInt8.le_iff_toNat_le, UInt16.toNat_toUInt8]
  omega

/-- A frame is read back. -/
theorem readsBack_write {written : StackMapFrame} (h : written.Fits) :
    ReadsBack frame written written.write := by
  cases written with
  | same delta =>
    rw [write]
    split
    · next hsmall =>
      refine readsBack_frame ?_
      rw [taggedFrame, if_pos (toUInt8_le hsmall), toUInt16_toUInt8 hsmall]
      exact .pure _
    · have hdistant : ReadsBack (distantFrame 251 delta) (.same delta) [] := .pure _
      simpa using readsBack_distant (by decide) hdistant
  | oneStack delta value =>
    rw [write]
    split
    · next hsmall =>
      have hle := UInt8.le_iff_toNat_le.mp (toUInt8_le hsmall)
      have hsum : (delta.toUInt8 + 64).toNat = delta.toUInt8.toNat + 64 := by
        rw [UInt8.toNat_add]
        exact Nat.mod_eq_of_lt (by change _ + 64 < 256; change _ ≤ 63 at hle; omega)
      have hmiddle : ¬ delta.toUInt8 + 64 ≤ 63 ∧ delta.toUInt8 + 64 ≤ 127 := by
        simp only [UInt8.le_iff_toNat_le, hsum, UInt8.reduceToNat] at hle ⊢
        omega
      refine readsBack_frame ?_
      rw [taggedFrame, if_neg hmiddle.1, if_pos hmiddle.2, UInt8.add_sub_cancel, toUInt16_toUInt8 hsmall]
      exact (readsBack_type value).map
    · exact readsBack_distant (by decide) (readsBack_type value).map
  | chop delta count =>
    obtain ⟨hone, hthree⟩ := h
    have hdistant : ReadsBack (distantFrame (UInt8.ofNat (251 - count)) delta) (.chop delta count) [] := by
      interval_cases count <;> exact .pure _
    have hlarge : 246 < UInt8.ofNat (251 - count) := by
      interval_cases count <;> decide
    simpa [write] using readsBack_distant hlarge hdistant
  | append delta more =>
    obtain ⟨hone, hthree⟩ := h
    have hdistant : ReadsBack (distantFrame (UInt8.ofNat (251 + more.length)) delta) (.append delta more)
        (more.flatMap ValueType.write) := by
      have htypes := readsBack_types more
      generalize more.length = count at *
      interval_cases count <;> exact htypes.map
    have hlarge : 246 < UInt8.ofNat (251 + more.length) := by
      generalize more.length = count at *
      interval_cases count <;> decide
    exact readsBack_distant hlarge hdistant
  | full delta locals stack =>
    have hparts : ReadsBack (distantFrame 255 delta) (.full delta locals stack)
        (Bytes.list ValueType.write locals ++ Bytes.list ValueType.write stack) :=
      (readsBack_list (fun written _ => readsBack_type written) h.1).bind
        (readsBack_list (fun written _ => readsBack_type written) h.2).map
    simpa [write] using readsBack_distant (by decide) hparts

end

/-- A list of frames is read back. -/
theorem readAll_writeTable {frames : List StackMapFrame} (h : ∀ frame ∈ frames, frame.Fits)
    (hlength : frames.length < 65536) : FrameReader.readAll (writeTable frames) = .ok frames := by
  have hread := FrameReader.readsBack_list (fun frame hmem => readsBack_write (h frame hmem)) hlength []
  rw [List.append_nil] at hread
  exact bind_eq_ok.mpr ⟨_, hread, rfl⟩

/-! ## Frames say what they were made from -/

/-- Types are those that written ones stand for. -/
abbrev LooksUp (pool : Pool) : List WrittenType → List NamedType → Prop :=
  List.Forall₂ fun written named => written.lookUp pool = .ok named

variable {pool : Pool} {delta : UInt16} {previous frame : WrittenFrame}

/-- Written types stand for one list of types only. -/
theorem LooksUp.unique {written : List WrittenType} {named named' : List NamedType}
    (h : LooksUp pool written named) (h' : LooksUp pool written named') : named = named' :=
  Except.ok.inj ((mapM_eq_ok.mpr h).symm.trans (mapM_eq_ok.mpr h'))

/-- The types at the front of a list are those at the front of the written ones. -/
theorem LooksUp.take_of_prefix {front written : List WrittenType} {named named' : List NamedType}
    (h : LooksUp pool written named) (hfront : LooksUp pool front named') (hbegins : front <+: written) :
    named.take front.length = named' := by
  have htake : LooksUp pool (written.take front.length) (named.take front.length) :=
    List.forall₂_take front.length h
  rw [← List.prefix_iff_eq_take.mp hbegins] at htake
  exact htake.unique hfront

/-- The difference between two frames has the distance that was asked for. -/
theorem delta_between : (between delta previous frame).delta = delta := by
  unfold between inFull
  dsimp only
  repeat' split
  all_goals rfl

/-- The difference between two frames fits its written form if the frame is small enough. -/
theorem fits_between (hlocals : frame.localEntries.length < 65536)
    (hstack : frame.stack.toList.length < 65536) : (between delta previous frame).Fits := by
  have hfull : (inFull delta frame).Fits := ⟨hlocals, hstack⟩
  unfold between
  dsimp only
  split
  · split
    · split
      · split
        · trivial
        · exact ⟨by omega, by omega⟩
      · exact hfull
    · split
      · next hmore => exact ⟨by rw [List.length_drop]; omega, by rw [List.length_drop]; omega⟩
      · exact hfull
  · split
    · trivial
    · exact hfull
  · exact hfull

/-- **Frames say what they were made from.**  Behind the frame that it is the difference to, the difference is
unpacked to the entries and the stack of the other frame. -/
theorem unpack_between {before locals stack : List NamedType}
    (hbefore : LooksUp pool previous.localEntries before)
    (hlocals : LooksUp pool frame.localEntries locals) (hstack : LooksUp pool frame.stack.toList stack) :
    (between delta previous frame).unpack pool before = .ok (locals, stack) := by
  have hfull : (inFull delta frame).unpack pool before = .ok (locals, stack) :=
    bind_eq_ok.mpr ⟨locals, mapM_eq_ok.mpr hlocals, bind_eq_ok.mpr ⟨stack, mapM_eq_ok.mpr hstack, rfl⟩⟩
  have hlength := hlocals.length_eq
  have hlength' := hbefore.length_eq
  unfold between
  dsimp only
  split
  · next hempty =>
    rw [hempty] at hstack
    obtain rfl := List.forall₂_nil_left_iff.mp hstack
    split
    · next hle =>
      split
      · next hfewer =>
        have htake := hbefore.take_of_prefix hlocals (List.isPrefixOf_iff_prefix.mp hfewer.2)
        split
        · next hsame =>
          rw [List.take_of_length_le (by omega)] at htake
          rw [htake]
          rfl
        · rw [unpack, if_pos (by omega), ← htake]
          congr 3
          omega
      · exact hfull
    · next hmore =>
      split
      · next hbegins =>
        have hbegins := List.isPrefixOf_iff_prefix.mp hbegins.2
        have htake := hlocals.take_of_prefix hbefore hbegins
        have hdrop : LooksUp pool (frame.localEntries.drop previous.localEntries.length)
            (locals.drop previous.localEntries.length) := List.forall₂_drop _ hlocals
        refine bind_eq_ok.mpr ⟨_, mapM_eq_ok.mpr hdrop, ?_⟩
        rw [← htake, List.take_append_drop]
        rfl
      · exact hfull
  · next value hvalue =>
    split
    · next hsame =>
      rw [hsame] at hlocals
      obtain rfl := hbefore.unique hlocals
      rw [hvalue] at hstack
      obtain ⟨named, rest, hnamed, hrest, rfl⟩ := List.forall₂_cons_left_iff.mp hstack
      cases hrest
      exact bind_eq_ok.mpr ⟨named, hnamed, rfl⟩
    · exact hfull
  · exact hfull

end StackMapFrame

end ClassInstrument
