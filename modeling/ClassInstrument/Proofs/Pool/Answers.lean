import ClassInstrument.Proofs.ClassFile.ReadBack

/-!
# What a pool answers

Every request for a constant asks for a constant that is made of the indices of other constants
(`Wanted`).  From that and from the slots of a pool alone it can be told where the constant lies
(`Wanted.LiesAt`), which constant is the first that is missing (`Wanted.Lacks`), and which constants are
added before the pool is full (`Wanted.Fills`).

A request does just that (`Pool.answered`): it fills the pool, and then gives the index at which the constant
lies, or fails with the constant for which there is no room.  One step is about one constant
(`answers_plain`); what is made of parts is asked for by asking for its parts first (`Answers.bind`).
-/

namespace ClassInstrument

open Outcome Interning

/-! ## Constants made of others -/

/-- A constant, by its parts. -/
inductive Wanted where
  /-- A constant without parts. -/
  | plain (constant : Constant)
  /-- A constant with one part. -/
  | one (make : PoolIndex → Constant) (part : Wanted)
  /-- A constant with two parts, of which the first is asked for first. -/
  | two (make : PoolIndex → PoolIndex → Constant) (first second : Wanted)

/-- The first slot with a constant. -/
def IsFirst (slots : List (Option Constant)) (constant : Constant) (index : PoolIndex) : Prop :=
  slots[index.toNat]? = some (some constant) ∧
    ∀ earlier < index.toNat, slots[earlier]? ≠ some (some constant)

namespace Wanted

/-- Where a constant lies that is made of the first indices of its parts. -/
def LiesAt (slots : List (Option Constant)) : Wanted → PoolIndex → Prop
  | plain constant, index => IsFirst slots constant index
  | one make part, index => ∃ i, part.LiesAt slots i ∧ IsFirst slots (make i) index
  | two make first second, index =>
    ∃ i, first.LiesAt slots i ∧ ∃ j, second.LiesAt slots j ∧ IsFirst slots (make i j) index

/-- The first constant that is needed and that no slot holds. -/
def Lacks (slots : List (Option Constant)) : Wanted → Constant → Prop
  | plain needed, constant => needed = constant ∧ some constant ∉ slots
  | one make part, constant => part.Lacks slots constant ∨
    ∃ i, part.LiesAt slots i ∧ make i = constant ∧ some constant ∉ slots
  | two make first second, constant => first.Lacks slots constant ∨
    ∃ i, first.LiesAt slots i ∧ (second.Lacks slots constant ∨
      ∃ j, second.LiesAt slots j ∧ make i j = constant ∧ some constant ∉ slots)

/-- Slots to which the constants that are needed and missing have been added, as far as there is room. -/
inductive Fills (wanted : Wanted) : List (Option Constant) → List (Option Constant) → Prop
  | done (slots : List (Option Constant)) : Fills wanted slots slots
  | add {slots later : List (Option Constant)} {constant : Constant} (lacks : wanted.Lacks slots constant)
      (room : slots.length + constant.places ≤ Pool.capacity)
      (rest : Fills wanted (slots ++ Pool.slotsOf constant) later) : Fills wanted slots later

/-- The first constant that is needed and missing has no room. -/
def Overflows (wanted : Wanted) (slots : List (Option Constant)) (constant : Constant) : Prop :=
  wanted.Lacks slots constant ∧ Pool.capacity < slots.length + constant.places

end Wanted

section

variable {slots later : List (Option Constant)} {constant : Constant} {index : PoolIndex}

/-- A constant has one first slot. -/
theorem IsFirst.unique {other : PoolIndex} (h : IsFirst slots constant index)
    (hother : IsFirst slots constant other) : index = other := by
  refine UInt16.toNat_inj.mp (Nat.le_antisymm ?_ ?_)
  · exact Nat.le_of_not_lt fun hlt => h.2 _ hlt hother.1
  · exact Nat.le_of_not_lt fun hlt => hother.2 _ hlt h.1

/-- The first slot with a constant is the first one when others have been added. -/
theorem IsFirst.mono (h : IsFirst slots constant index) (hbefore : slots <+: later) :
    IsFirst later constant index := by
  obtain ⟨more, rfl⟩ := hbefore
  obtain ⟨hlt, -⟩ := List.getElem?_eq_some_iff.mp h.1
  refine ⟨by rw [List.getElem?_append_left hlt, h.1], fun earlier hearlier => ?_⟩
  rw [List.getElem?_append_left (hearlier.trans hlt)]
  exact h.2 earlier hearlier

/-- A constant with a first slot is there. -/
theorem IsFirst.mem (h : IsFirst slots constant index) : some constant ∈ slots := List.mem_of_getElem? h.1

/-- The position of a constant is its first slot. -/
theorem Pool.positions_eq_some {pool : Pool} :
    pool.positions[constant]? = some index ↔ IsFirst pool.slots.toList constant index := by
  rw [pool.valid.position_iff, IsFirst]
  simp only [Array.getElem?_toList]

namespace Wanted

variable {wanted : Wanted}

/-- A constant lies at one index. -/
theorem LiesAt.unique {other : PoolIndex} (h : wanted.LiesAt slots index) (hother : wanted.LiesAt slots other) :
    index = other := by
  induction wanted generalizing index other with
  | plain _ => exact IsFirst.unique h hother
  | one make part ih =>
    obtain ⟨i, hi, h⟩ := h
    obtain ⟨i', hi', hother⟩ := hother
    obtain rfl := ih hi hi'
    exact h.unique hother
  | two make first second ih ih' =>
    obtain ⟨i, hi, j, hj, h⟩ := h
    obtain ⟨i', hi', j', hj', hother⟩ := hother
    obtain rfl := ih hi hi'
    obtain rfl := ih' hj hj'
    exact h.unique hother

/-- Where a constant lies it lies when others have been added. -/
theorem LiesAt.mono (h : wanted.LiesAt slots index) (hbefore : slots <+: later) : wanted.LiesAt later index := by
  induction wanted generalizing index with
  | plain _ => exact IsFirst.mono h hbefore
  | one make part ih =>
    obtain ⟨i, hi, h⟩ := h
    exact ⟨i, ih hi, h.mono hbefore⟩
  | two make first second ih ih' =>
    obtain ⟨i, hi, j, hj, h⟩ := h
    exact ⟨i, ih hi, j, ih' hj, h.mono hbefore⟩

/-- A constant that lies somewhere lacks nothing. -/
theorem LiesAt.not_lacks (h : wanted.LiesAt slots index) : ¬ wanted.Lacks slots constant := by
  induction wanted generalizing index with
  | plain _ =>
    rintro ⟨rfl, habsent⟩
    exact habsent (IsFirst.mem h)
  | one make part ih =>
    obtain ⟨i, hi, h⟩ := h
    rintro (hlacks | ⟨i', hi', rfl, habsent⟩)
    · exact ih hi hlacks
    · exact habsent (hi.unique hi' ▸ h.mem)
  | two make first second ih ih' =>
    obtain ⟨i, hi, j, hj, h⟩ := h
    rintro (hlacks | ⟨i', hi', hlacks | ⟨j', hj', rfl, habsent⟩⟩)
    · exact ih hi hlacks
    · exact ih' hj hlacks
    · exact habsent (hi.unique hi' ▸ hj.unique hj' ▸ h.mem)

/-- One constant is the first that is missing. -/
theorem Lacks.unique {other : Constant} (h : wanted.Lacks slots constant) (hother : wanted.Lacks slots other) :
    constant = other := by
  induction wanted with
  | plain _ => exact h.1.symm.trans hother.1
  | one make part ih =>
    rcases h with h | ⟨i, hi, rfl, -⟩ <;> rcases hother with hother | ⟨i', hi', rfl, -⟩
    · exact ih h hother
    · exact absurd h hi'.not_lacks
    · exact absurd hother hi.not_lacks
    · rw [hi.unique hi']
  | two make first second ih ih' =>
    rcases h with h | ⟨i, hi, h⟩ <;> rcases hother with hother | ⟨i', hi', hother⟩
    · exact ih h hother
    · exact absurd h hi'.not_lacks
    · exact absurd hother hi.not_lacks
    · obtain rfl := hi.unique hi'
      rcases h with h | ⟨j, hj, rfl, -⟩ <;> rcases hother with hother | ⟨j', hj', rfl, -⟩
      · exact ih' h hother
      · exact absurd h hj'.not_lacks
      · exact absurd hother hj.not_lacks
      · rw [hj.unique hj']

namespace Fills

/-- What is filled in comes behind what was there. -/
theorem exists_constants (h : wanted.Fills slots later) :
    ∃ constants : List Constant, later = slots ++ constants.flatMap Pool.slotsOf := by
  induction h with
  | done slots => exact ⟨[], by simp⟩
  | @add slots later constant _ _ _ ih =>
    obtain ⟨constants, rfl⟩ := ih
    exact ⟨constant :: constants, by rw [List.flatMap_cons, List.append_assoc]⟩

theorem isPrefix (h : wanted.Fills slots later) : slots <+: later := by
  obtain ⟨constants, rfl⟩ := h.exists_constants
  exact List.prefix_append _ _

theorem trans {last : List (Option Constant)} (h : wanted.Fills slots later) (h' : wanted.Fills later last) :
    wanted.Fills slots last := by
  induction h with
  | done _ => exact h'
  | add lacks room _ ih => exact .add lacks room (ih h')

/-- What is missing for a part is missing for the whole. -/
theorem imp {whole : Wanted} (h : wanted.Fills slots later)
    (hlacks : ∀ {middle constant}, slots <+: middle → wanted.Lacks middle constant → whole.Lacks middle constant) :
    whole.Fills slots later := by
  induction h with
  | done _ => exact .done _
  | add lacks room _ ih =>
    exact .add (hlacks List.prefix_rfl lacks) room
      (ih fun hbefore => hlacks ((List.prefix_append _ _).trans hbefore))

/-- Filling goes one way until nothing is missing that has room. -/
theorem unique {last : List (Option Constant)} (h : wanted.Fills slots later) (hlast : wanted.Fills slots last)
    (hend : ∀ constant, wanted.Lacks later constant → Pool.capacity < later.length + constant.places)
    (hend' : ∀ constant, wanted.Lacks last constant → Pool.capacity < last.length + constant.places) :
    later = last := by
  induction h with
  | done slots =>
    cases hlast with
    | done _ => rfl
    | add lacks room _ => exact absurd (hend _ lacks) (Nat.not_lt.mpr room)
  | add lacks room _ ih =>
    cases hlast with
    | done _ => exact absurd (hend' _ lacks) (Nat.not_lt.mpr room)
    | add lacks' room' rest' =>
      obtain rfl := lacks.unique lacks'
      exact ih rest' hend

end Fills

/-- What is given when the slots have been filled: where the constant lies, or what there is no room for. -/
def Ends (wanted : Wanted) (slots : List (Option Constant)) : Except Fault PoolIndex → Prop
  | .ok index => wanted.LiesAt slots index
  | .error fault => ∃ constant, wanted.Overflows slots constant ∧ fault = .poolOverflow constant slots.length

/-- Nothing is missing in the end that has room. -/
theorem Ends.full {outcome : Except Fault PoolIndex} (h : wanted.Ends slots outcome)
    (hlacks : wanted.Lacks slots constant) : Pool.capacity < slots.length + constant.places := by
  cases outcome with
  | ok index => exact absurd hlacks h.not_lacks
  | error fault =>
    obtain ⟨other, ⟨hother, hfull⟩, -⟩ := h
    rwa [hlacks.unique hother]

/-- What is given depends on what lies in the slots and what is missing. -/
theorem Ends.imp {whole : Wanted} {outcome : Except Fault PoolIndex} (h : wanted.Ends slots outcome)
    (hlies : ∀ {index}, wanted.LiesAt slots index → whole.LiesAt slots index)
    (hlacks : ∀ {constant}, wanted.Lacks slots constant → whole.Lacks slots constant) : whole.Ends slots outcome := by
  cases outcome with
  | ok index => exact hlies h
  | error fault =>
    obtain ⟨constant, ⟨hlacking, hfull⟩, hfault⟩ := h
    exact ⟨constant, ⟨hlacks hlacking, hfull⟩, hfault⟩

end Wanted

end

/-! ## Asking for a constant by its parts -/

namespace Wanted

variable {wanted : Wanted} {pool : Pool} {index : PoolIndex}

/-- Asks for the parts of a constant, then for the constant. -/
def intern : Wanted → Interning PoolIndex
  | plain constant => Pool.intern constant
  | one make part => do
    let index ← part.intern
    Pool.intern (make index)
  | two make first second => do
    let firstIndex ← first.intern
    let secondIndex ← second.intern
    Pool.intern (make firstIndex secondIndex)

/-- On every pool, requests fill in what is missing for a constant, and give what that ends with. -/
def Answers (wanted : Wanted) (requests : Interning PoolIndex) : Prop :=
  ∀ pool : Pool, wanted.Fills pool.slots.toList (requests.run pool).2.slots.toList ∧
    wanted.Ends (requests.run pool).2.slots.toList (requests.run pool).1

/-- A constant without parts is found or added. -/
theorem answers_plain (constant : Constant) : (plain constant).Answers (Pool.intern constant) := by
  intro pool
  rw [show (Pool.intern constant).run pool = pool.request constant from rfl]
  have hsize : pool.slots.toList.length = pool.slots.size := Array.length_toList
  unfold Pool.request
  cases hfound : pool.positions[constant]? with
  | some index => exact ⟨.done _, Pool.positions_eq_some.mp hfound⟩
  | none =>
    have habsent : some constant ∉ pool.slots.toList := by
      intro hmem
      obtain ⟨i, hi⟩ := List.mem_iff_getElem?.mp hmem
      obtain ⟨index, hindex⟩ := pool.valid.exists_position (by rwa [← Array.getElem?_toList])
      rw [hfound] at hindex
      cases hindex
    dsimp only
    split
    · next hfull => exact ⟨.done _, constant, ⟨⟨rfl, habsent⟩, by rwa [hsize]⟩, by rw [hsize]⟩
    · next hroom =>
      have hplaces := constant.one_le_places
      have hlt : pool.slots.size < 65535 := by
        simp only [Pool.capacity] at hroom
        omega
      have hnew : constant ∉ pool.positions := by
        rw [Std.HashMap.mem_iff_isSome_getElem?, hfound]
        simp
      refine ⟨.add ⟨rfl, habsent⟩ (by omega) ?_, Pool.positions_eq_some.mp ?_⟩
      · rw [Pool.toList_slots_append]
        exact .done _
      · rw [Pool.append, Std.HashMap.getElem?_insertIfNew, if_pos ⟨by simp, hnew⟩]

/-- What is made of a first part and others is asked for by asking for the first part, then for the rest. -/
theorem Answers.bind {first whole : Wanted} {next : PoolIndex → Wanted} {requests : Interning PoolIndex}
    {others : PoolIndex → Interning PoolIndex} (hfirst : first.Answers requests)
    (hnext : ∀ i, (next i).Answers (others i))
    (hlacks : ∀ {slots constant}, first.Lacks slots constant → whole.Lacks slots constant)
    (hrest : ∀ {slots i constant}, first.LiesAt slots i → (next i).Lacks slots constant → whole.Lacks slots constant)
    (hlies : ∀ {slots i index}, first.LiesAt slots i → (next i).LiesAt slots index → whole.LiesAt slots index) :
    whole.Answers (requests >>= others) := by
  intro pool
  obtain ⟨hfills, hends⟩ := hfirst pool
  rw [run_bind]
  cases hrun : requests.run pool with
  | mk outcome middle =>
    rw [hrun] at hfills hends
    have hwhole : whole.Fills pool.slots.toList middle.slots.toList := hfills.imp fun _ => hlacks
    cases outcome with
    | error fault =>
      obtain ⟨constant, ⟨hlacking, hfull⟩, hfault⟩ := hends
      exact ⟨hwhole, constant, ⟨hlacks hlacking, hfull⟩, hfault⟩
    | ok i =>
      obtain ⟨hfills', hends'⟩ := hnext i middle
      have hpart : first.LiesAt ((others i).run middle).2.slots.toList i := LiesAt.mono hends hfills'.isPrefix
      exact ⟨hwhole.trans (hfills'.imp fun hbefore => hrest (LiesAt.mono hends hbefore)),
        hends'.imp (hlies hpart) (hrest hpart)⟩

/-- A constant is asked for by its parts. -/
theorem answers_intern (wanted : Wanted) : wanted.Answers wanted.intern := by
  induction wanted with
  | plain constant => exact answers_plain constant
  | one make part ih =>
    exact ih.bind (fun i => answers_plain (make i)) .inl
      (fun hi hlacks => .inr ⟨_, hi, hlacks⟩) (fun hi hlies => ⟨_, hi, hlies⟩)
  | two make first second ih ih' =>
    -- when the first part is there, the rest is a constant with one part
    have hrest : ∀ i, (one (make i) second).Answers (second.intern >>= fun j => Pool.intern (make i j)) := fun i =>
      ih'.bind (fun j => answers_plain (make i j)) .inl
        (fun hj hlacks => .inr ⟨_, hj, hlacks⟩) (fun hj hlies => ⟨_, hj, hlies⟩)
    exact ih.bind hrest .inl
      (fun hi hlacks => .inr ⟨_, hi, hlacks⟩) (fun hi hlies => ⟨_, hi, hlies⟩)

/-- A constant that lies somewhere is found there, and nothing is added. -/
theorem run_of_liesAt (h : wanted.LiesAt pool.slots.toList index) : wanted.intern.run pool = (.ok index, pool) := by
  have hplain : ∀ {constant index}, IsFirst pool.slots.toList constant index →
      (Pool.intern constant).run pool = (.ok index, pool) := fun h =>
    Pool.request_of_position (Pool.positions_eq_some.mpr h)
  induction wanted generalizing index with
  | plain constant => exact hplain h
  | one make part ih =>
    obtain ⟨i, hi, h⟩ := h
    rw [intern, run_bind, ih hi]
    exact hplain h
  | two make first second ih ih' =>
    obtain ⟨i, hi, j, hj, h⟩ := h
    rw [intern, run_bind, ih hi]
    dsimp only
    rw [run_bind, ih' hj]
    exact hplain h

/-- Requests fail just if something is missing in the end for which there is no room. -/
theorem Answers.run_eq_error {requests : Interning PoolIndex} (h : wanted.Answers requests) {fault : Fault} :
    (requests.run pool).1 = .error fault ↔ ∃ slots constant, wanted.Fills pool.slots.toList slots ∧
      wanted.Overflows slots constant ∧ fault = .poolOverflow constant slots.length := by
  obtain ⟨hfills, hends⟩ := h pool
  constructor
  · intro hfault
    rw [hfault] at hends
    obtain ⟨constant, hoverflows, hfault⟩ := hends
    exact ⟨_, constant, hfills, hoverflows, hfault⟩
  · rintro ⟨slots, constant, hslots, ⟨hlacks, hfull⟩, rfl⟩
    obtain rfl := hfills.unique hslots (fun _ => hends.full) fun other hother => by rwa [hother.unique hlacks]
    cases houtcome : (requests.run pool).1 with
    | ok index =>
      rw [houtcome] at hends
      exact absurd hlacks (LiesAt.not_lacks hends)
    | error fault =>
      rw [houtcome] at hends
      obtain ⟨other, ⟨hother, -⟩, rfl⟩ := hends
      rw [hother.unique hlacks]

end Wanted

/-! ## The requests of a pool -/

/-- What a pool is asked for. -/
inductive Request where
  | utf8 (text : String)
  | classNamed (name : String)
  | string (text : String)
  | integer (value : Int32)
  | float (bits : UInt32)
  | long (value : Int64)
  | double (bits : UInt64)
  | methodType (descriptor : String)
  | nameAndType (name descriptor : String)
  | fieldNamed (field : Member)
  | methodNamed (method : Member)
  /-- An attribute is asked for by its name. -/
  | attributeNamed (name : String) (info : Bytes)

namespace Request

/-- The index that is asked for. -/
def asked : Request → Interning PoolIndex
  | utf8 text => Pool.internUtf8 text
  | classNamed name => Pool.internClass name
  | string text => Pool.internString text
  | integer value => Pool.intern (.integer value)
  | float bits => Pool.intern (.float bits)
  | long value => Pool.intern (.long value)
  | double bits => Pool.intern (.double bits)
  | methodType descriptor => Pool.internMethodType descriptor
  | nameAndType name descriptor => Pool.internNameAndType name descriptor
  | fieldNamed field => Pool.internField field
  | methodNamed method => Pool.internMethod method
  | attributeNamed name info => do return (← Attribute.make name info).name

/-- A text among the constants. -/
def text (text : String) : Wanted := .plain (.utf8 (ModifiedUtf8.encode text))

/-- A name with a descriptor among the constants. -/
def both (name descriptor : String) : Wanted := .two .nameAndType (text name) (text descriptor)

/-- The constant that is asked for, by its parts. -/
def wanted : Request → Wanted
  | utf8 value | attributeNamed value _ => text value
  | classNamed name => .one .classRef (text name)
  | string value => .one .string (text value)
  | integer value => .plain (.integer value)
  | float bits => .plain (.float bits)
  | long value => .plain (.long value)
  | double bits => .plain (.double bits)
  | methodType descriptor => .one .methodType (text descriptor)
  | nameAndType name descriptor => both name descriptor
  | fieldNamed field => .two .fieldRef (.one .classRef (text field.owner)) (both field.name field.descriptor)
  | methodNamed method => .two (.methodRef · · method.ofInterface) (.one .classRef (text method.owner))
    (both method.name method.descriptor)

/-- All requests ask for a constant by its parts. -/
theorem asked_eq (request : Request) : request.asked = request.wanted.intern := by
  cases request with
  | attributeNamed name info =>
    simp only [asked, Attribute.make, bind_assoc, pure_bind, bind_pure]
    rfl
  | _ => rfl

/-- What is read at the index that was given. -/
def IsReadAt (pool : Pool) (index : PoolIndex) : Request → Prop
  | utf8 text | attributeNamed text _ => pool.utf8 index = .ok text
  | classNamed name => pool.className index = .ok name
  | string text => ∃ i, pool.get index = .ok (.string i) ∧ pool.utf8 i = .ok text
  | integer value => pool.get index = .ok (.integer value)
  | float bits => pool.get index = .ok (.float bits)
  | long value => pool.get index = .ok (.long value)
  | double bits => pool.get index = .ok (.double bits)
  | methodType descriptor => ∃ i, pool.get index = .ok (.methodType i) ∧ pool.utf8 i = .ok descriptor
  | nameAndType name descriptor => pool.nameAndType index = .ok (name, descriptor)
  | fieldNamed field => pool.member index = .ok { field with ofInterface := false }
  | methodNamed method => pool.member index = .ok method

/-- What a request has settled is read where it lies. -/
theorem isReadAt_of_settled {request : Request} {pool : Pool} {index : PoolIndex}
    (h : request.asked.Settled pool index) : request.IsReadAt pool index := by
  have htext : ∀ {make : PoolIndex → Constant} {value : String},
      (Pool.internUtf8 value >>= fun i => Pool.intern (make i)).Settled pool index →
        ∃ i, pool.get index = .ok (make i) ∧ pool.utf8 i = .ok value := by
    intro make value h
    obtain ⟨i, hi, hindex⟩ := (Repeats.settled_bind (Pool.repeats_internUtf8 value) fun _ => .intern _).mp h
    exact ⟨i, Pool.get_of_settled hindex, Pool.utf8_of_settled hi⟩
  cases request with
  | utf8 text => exact Pool.utf8_of_settled h
  | classNamed name => exact Pool.className_of_settled h
  | string text => exact htext h
  | integer value => exact Pool.get_of_settled h
  | float bits => exact Pool.get_of_settled h
  | long value => exact Pool.get_of_settled h
  | double bits => exact Pool.get_of_settled h
  | methodType descriptor => exact htext h
  | nameAndType name descriptor => exact Pool.nameAndType_of_settled h
  | fieldNamed field => exact Pool.member_of_settled_field h
  | methodNamed method => exact Pool.member_of_settled_method h
  | attributeNamed name info =>
    rw [asked_eq] at h
    exact Pool.utf8_of_settled h

/-- What a pool answers to a request: the outcome, and the pool that is left. -/
structure Answered (request : Request) (pool : Pool) (outcome : Except Fault PoolIndex) (left : Pool) : Prop where
  /-- Constants that are needed and missing are added behind the others, and nothing else. -/
  fills : request.wanted.Fills pool.slots.toList left.slots.toList
  /-- What is given is the first index with the constant. -/
  liesAt : ∀ index, outcome = .ok index → request.wanted.LiesAt left.slots.toList index
  /-- A request fails just if a constant that is needed and missing has no room. -/
  overflow : ∀ fault, outcome = .error fault ↔ ∃ slots constant,
    request.wanted.Fills pool.slots.toList slots ∧ request.wanted.Overflows slots constant ∧
      fault = .poolOverflow constant slots.length

/-- All requests are answered. -/
theorem answered (request : Request) (pool : Pool) :
    request.Answered pool (request.asked.on pool).1 (request.asked.on pool).2 := by
  rw [asked_eq]
  have hanswers := Wanted.answers_intern request.wanted
  obtain ⟨hfills, hends⟩ := hanswers pool
  refine ⟨hfills, fun index hindex => ?_, fun fault => hanswers.run_eq_error⟩
  rw [show (request.wanted.intern.run pool).1 = .ok index from hindex] at hends
  exact hends

/-- A constant that lies somewhere is given again, and read there. -/
theorem on_of_liesAt {request : Request} {pool : Pool} {index : PoolIndex}
    (h : request.wanted.LiesAt pool.slots.toList index) :
    request.asked.on pool = (.ok index, pool) ∧ request.IsReadAt pool index := by
  have hrun : request.asked.run pool = (.ok index, pool) := by
    rw [asked_eq]
    exact Wanted.run_of_liesAt h
  refine ⟨hrun, isReadAt_of_settled ?_⟩
  unfold Settled finish
  rw [hrun]

end Request

/-! ## One request after the other -/

namespace Pool

variable {start pool later : Pool}

/-- The pool that is left when requests have been made, whether they succeed or fail. -/
def after (pool : Pool) (requests : List Request) : Pool :=
  requests.foldl (fun pool request => (request.asked.on pool).2) pool

/-- A request adds constants. -/
theorem growsInto_asked (pool : Pool) (request : Request) : pool.GrowsInto (request.asked.on pool).2 :=
  (request.answered pool).fills.exists_constants

/-- Requests add constants. -/
theorem growsInto_after (pool : Pool) (requests : List Request) : pool.GrowsInto (pool.after requests) := by
  induction requests generalizing pool with
  | nil => exact .refl pool
  | cons request rest ih => exact (pool.growsInto_asked request).trans (ih _)

/-- In slots that are built of constants, the one behind an eight-byte number is empty. -/
theorem getElem?_succ_of_isWide {constants : List Constant} {constant : Constant} {i : ℕ}
    (h : (constants.flatMap slotsOf)[i]? = some (some constant)) (hwide : constant.isWide) :
    (constants.flatMap slotsOf)[i + 1]? = some none := by
  induction constants generalizing i with
  | nil => simp at h
  | cons first rest ih =>
    rw [List.flatMap_cons] at h ⊢
    rcases Nat.lt_or_ge i (slotsOf first).length with hlt | hge
    · rw [List.getElem?_append_left hlt] at h
      have hfirst : slotsOf first = [some first, none] ∨ slotsOf first = [some first] ∧ ¬ first.isWide := by
        unfold slotsOf
        split <;> simp [*]
      rcases hfirst with hslots | ⟨hslots, hnarrow⟩
      · rw [hslots] at h ⊢
        match i, h with
        | 0, _ => rfl
        | 1, h => simp at h
        | i + 2, h => simp at h
      · rw [hslots] at h
        match i, h with
        | 0, h =>
          obtain rfl : first = constant := by simpa using h
          exact absurd hwide hnarrow
        | i + 1, h => simp at h
    · rw [List.getElem?_append_right hge] at h
      rw [List.getElem?_append_right (by omega), Nat.sub_add_comm hge]
      exact ih h

/-- The index behind an eight-byte number holds nothing. -/
theorem get_succ_of_isWide (hgrown : empty.GrowsInto pool) {index : PoolIndex} {constant : Constant}
    (h : pool.get index = .ok constant) (hwide : constant.isWide) :
    pool.get (index + 1) = .error (.badIndex (index + 1)) := by
  obtain ⟨constants, hslots⟩ := hgrown
  change pool.slots.toList = none :: constants.flatMap slotsOf at hslots
  have hheld : pool.slots.toList[index.toNat]? = some (some constant) := by
    unfold get at h
    split at h
    · next found hfound =>
      obtain rfl := Except.ok.inj h
      rwa [Array.getElem?_toList]
    · cases h
  have hnext : pool.slots.toList[index.toNat + 1]? = some none := by
    rw [hslots] at hheld ⊢
    cases hindex : index.toNat with
    | zero => simp [hindex] at hheld
    | succ i =>
      rw [hindex, List.getElem?_cons_succ] at hheld
      exact getElem?_succ_of_isWide hheld hwide
  have hlt : index.toNat + 1 < 65536 := by
    have hsize := pool.valid.size_le
    obtain ⟨hlt, -⟩ := List.getElem?_eq_some_iff.mp hnext
    rw [Array.length_toList] at hlt
    omega
  have hsucc : (index + 1).toNat = index.toNat + 1 := by
    rw [UInt16.toNat_add]
    exact Nat.mod_eq_of_lt hlt
  unfold get
  rw [hsucc, ← Array.getElem?_toList, hnext]

/-- Whatever has been asked for, a pool that is new or was read keeps its constants, and a request is answered.
What it gives is read back and given again ever after.  Nothing is found behind an eight-byte number. -/
theorem answers_requests (hstart : start = empty ∨ ∃ bytes rest, Pool.read bytes = .ok (start, rest))
    (earlier : List Request) (request : Request) :
    start.Extends (start.after earlier) ∧
    (∀ index constant, (start.after earlier).get index = .ok constant → constant.isWide →
      (start.after earlier).get (index + 1) = .error (.badIndex (index + 1))) ∧
    ∃ outcome left, request.asked.on (start.after earlier) = (outcome, left) ∧
      (start.after earlier).Extends left ∧ request.Answered (start.after earlier) outcome left ∧
      ∀ more : List Request, left.Extends (left.after more) ∧
        ∀ index, outcome = .ok index → request.wanted.LiesAt (left.after more).slots.toList index ∧
          request.IsReadAt (left.after more) index ∧
          request.asked.on (left.after more) = (.ok index, left.after more) := by
  have hgrown : empty.GrowsInto start := by
    rcases hstart with rfl | ⟨bytes, rest, hread⟩
    · exact .refl _
    · exact growsInto_of_read hread
  have hearlier := start.growsInto_after earlier
  have hleft := (start.after earlier).growsInto_asked request
  have hanswered := request.answered (start.after earlier)
  refine ⟨hearlier.extends, fun index constant => get_succ_of_isWide (hgrown.trans hearlier), _, _, rfl,
    hleft.extends, hanswered, fun more => ?_⟩
  have hmore := ((request.asked.on (start.after earlier)).2.growsInto_after more).extends
  refine ⟨hmore, fun index hindex => ?_⟩
  have hlies := (hanswered.liesAt index hindex).mono hmore
  obtain ⟨hagain, hread⟩ := Request.on_of_liesAt hlies
  exact ⟨hlies, hread, hagain⟩

/-- A pool in which a text and a class stand twice, with an eight-byte number between them. -/
def duplicateSample : Bytes :=
  [0, 7, 1, 0, 1, 65, 1, 0, 1, 65, 5, 0, 0, 0, 0, 0, 0, 0, 5, 7, 0, 1, 7, 0, 1]

/-- The pool with duplicates. -/
def duplicates : Pool := ((Pool.read duplicateSample).toOption.get rfl).1

/-- The first of two equal constants is given, and the index behind the number holds nothing. -/
theorem answers_duplicates : duplicates.get 4 = .error (.badIndex 4) ∧
    ∃ left, (Request.classNamed "A").asked.on duplicates = (.ok 5, left) ∧
      ∀ more : List Request, (left.after more).className 5 = .ok "A" ∧
        (Request.classNamed "A").asked.on (left.after more) = (.ok 5, left.after more) := by
  have hread : Pool.read duplicateSample = .ok (duplicates, []) := rfl
  have hlies : (Request.classNamed "A").wanted.LiesAt duplicates.slots.toList 5 :=
    ⟨1, ⟨by decide +kernel, by decide +kernel⟩, by decide +kernel, by decide +kernel⟩
  obtain ⟨-, hwide, outcome, left, hleft, -, -, hmore⟩ :=
    answers_requests (.inr ⟨duplicateSample, [], hread⟩) [] (.classNamed "A")
  obtain ⟨rfl, rfl⟩ := Prod.mk.inj (hleft.symm.trans (Request.on_of_liesAt hlies).1)
  refine ⟨hwide 3 (.long 5) rfl rfl, _, hleft, fun more => ?_⟩
  obtain ⟨-, hread, hagain⟩ := (hmore more).2 5 rfl
  exact ⟨hread, hagain⟩

end Pool

end ClassInstrument
