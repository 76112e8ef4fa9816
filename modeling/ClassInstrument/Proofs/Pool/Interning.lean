import ClassInstrument.Pool.Basic
import ClassInstrument.Proofs.Outcome
import ClassInstrument.Proofs.Text.ModifiedUtf8

/-!
# Asking for constants

Requests only add constants behind those that a pool has, so whatever has been found at an index stays
there.  Requests that are made again give the same result and leave the pool as it is, however many
constants have been added in between (`Interning.Repeats`).

So what a long sequence of requests has done can be told from the pool that is left in the end alone:
each of them is settled there, and what is read at an index is what was asked for.

Requests fail with what one of them fails with.  So a fault is ruled out for all of them by ruling it out for
each (`Interning.Never`); asking for a constant fails for one reason only, which is that the pool is full.
-/

namespace ClassInstrument

open Outcome

/-! ## Running requests -/

namespace Interning

variable {α β : Type} {pool pool' : Pool}

/-- Requests are run one after the other, until one fails. -/
theorem run_bind (requests : Interning α) (next : α → Interning β) (pool : Pool) :
    (requests >>= next).run pool =
      match requests.run pool with
      | (.ok value, middle) => (next value).run middle
      | (.error fault, middle) => (.error fault, middle) := by
  change (ExceptT.bind requests next).run pool = _
  simp only [ExceptT.bind, ExceptT.run, ExceptT.mk, bind, StateT.bind]
  cases (show StateM Pool (Except Fault α) from requests) pool with
  | mk outcome middle => cases outcome <;> rfl

/-- Two requests succeed if the first does, and then the second. -/
theorem finish_bind {requests : Interning α} {next : α → Interning β} {result : β} :
    (requests >>= next).finish pool = .ok (result, pool') ↔ ∃ value middle,
      requests.finish pool = .ok (value, middle) ∧
        (next value).finish middle = .ok (result, pool') := by
  unfold finish
  rw [run_bind]
  cases requests.run pool with
  | mk outcome middle => cases outcome <;> simp

/-- Two requests fail if the first does, or then the second. -/
theorem finish_bind_eq_error {requests : Interning α} {next : α → Interning β} {fault : Fault} :
    (requests >>= next).finish pool = .error fault ↔ requests.finish pool = .error fault ∨
      ∃ value middle, requests.finish pool = .ok (value, middle) ∧
        (next value).finish middle = .error fault := by
  unfold finish
  rw [run_bind]
  cases requests.run pool with
  | mk outcome middle => cases outcome <;> simp

/-- A plain value is given at once. -/
theorem finish_pure {value result : α} :
    (pure value : Interning α).finish pool = .ok (result, pool') ↔ value = result ∧ pool = pool' := by
  change Except.ok (value, pool) = .ok (result, pool') ↔ _
  simp

/-- A computation without requests leaves the pool as it is. -/
theorem finish_lift {action : Except Fault α} {result : α} :
    (liftM action : Interning α).finish pool = .ok (result, pool') ↔
      action = .ok result ∧ pool = pool' := by
  cases action with
  | ok value =>
    change Except.ok (value, pool) = .ok (result, pool') ↔ _
    simp
  | error fault =>
    change Except.error fault = .ok (result, pool') ↔ _
    simp

/-- A failure gives nothing. -/
theorem finish_throw {fault : Fault} {result : α} :
    (throw fault : Interning α).finish pool ≠ .ok (result, pool') := by
  change Except.error fault ≠ .ok (result, pool')
  simp

end Interning

namespace Pool

variable {pool pool' later : Pool}

/-! ## Later pools -/

/-- A later pool has the constants of an earlier one at the same indices, and perhaps more. -/
def Extends (pool later : Pool) : Prop := pool.slots.toList <+: later.slots.toList

/-- A pool extends itself. -/
theorem Extends.refl (pool : Pool) : pool.Extends pool := List.prefix_rfl

/-- An extension of an extension is one. -/
theorem Extends.trans (h : pool.Extends pool') (h' : pool'.Extends later) : pool.Extends later :=
  List.IsPrefix.trans h h'

/-- What a constant puts into the slots of a pool: an eight-byte number has an empty slot behind it. -/
def slotsOf (constant : Constant) : List (Option Constant) :=
  if constant.isWide then [some constant, none] else [some constant]

/-- A later pool in which constants were added behind those of an earlier one. -/
def GrowsInto (pool later : Pool) : Prop :=
  ∃ constants : List Constant,
    later.slots.toList = pool.slots.toList ++ constants.flatMap slotsOf

/-- A pool to which nothing was added. -/
theorem GrowsInto.refl (pool : Pool) : pool.GrowsInto pool := ⟨[], by simp⟩

/-- Constants are added behind those that were added before. -/
theorem GrowsInto.trans (h : pool.GrowsInto pool') (h' : pool'.GrowsInto later) :
    pool.GrowsInto later := by
  obtain ⟨constants, hconstants⟩ := h
  obtain ⟨more, hmore⟩ := h'
  exact ⟨constants ++ more, by rw [hmore, hconstants, List.append_assoc, List.flatMap_append]⟩

/-- What is added comes behind what was there. -/
theorem GrowsInto.extends (h : pool.GrowsInto later) : pool.Extends later := by
  obtain ⟨constants, hconstants⟩ := h
  exact ⟨_, hconstants.symm⟩

/-- A constant is added with its slots. -/
theorem toList_slots_append (pool : Pool) (constant : Constant) (room : pool.slots.size < 65535) :
    (pool.append constant room).slots.toList = pool.slots.toList ++ slotsOf constant := by
  unfold append IsConstantTable.appendSlot slotsOf
  dsimp only
  split <;> simp [*]

/-- What a slot holds it holds in all later pools. -/
theorem Extends.getElem? (h : pool.Extends later) {i : ℕ} (hlt : i < pool.slots.size) :
    later.slots[i]? = pool.slots[i]? := by
  obtain ⟨more, hmore⟩ := h
  rw [← Array.getElem?_toList, ← Array.getElem?_toList, ← hmore, List.getElem?_append_left]
  simpa using hlt

/-- The constant at an index is there in all later pools. -/
theorem Extends.get (h : pool.Extends later) {index : PoolIndex} {constant : Constant}
    (hget : pool.get index = .ok constant) : later.get index = .ok constant := by
  unfold Pool.get at hget ⊢
  split at hget
  · next found hfound =>
    have hlt : index.toNat < pool.slots.size := by
      by_contra hout
      rw [Array.getElem?_eq_none_iff.mpr (by omega)] at hfound
      simp at hfound
    rw [h.getElem? hlt, hfound]
    exact hget
  · simp at hget

/-- The text at an index is there in all later pools. -/
theorem Extends.utf8 (h : pool.Extends later) {index : PoolIndex} {text : String}
    (hread : pool.utf8 index = .ok text) : later.utf8 index = .ok text := by
  obtain ⟨constant, hconstant, hread⟩ := bind_eq_ok.mp hread
  exact bind_eq_ok.mpr ⟨constant, h.get hconstant, hread⟩

/-- The name of the class at an index is there in all later pools. -/
theorem Extends.className (h : pool.Extends later) {index : PoolIndex} {name : String}
    (hread : pool.className index = .ok name) : later.className index = .ok name := by
  obtain ⟨constant, hconstant, hread⟩ := bind_eq_ok.mp hread
  refine bind_eq_ok.mpr ⟨constant, h.get hconstant, ?_⟩
  cases constant with
  | classRef _ => exact h.utf8 hread
  | _ => simp [throw, throwThe, MonadExceptOf.throw] at hread

/-- The name and descriptor at an index are there in all later pools. -/
theorem Extends.nameAndType (h : pool.Extends later) {index : PoolIndex} {both : String × String}
    (hread : pool.nameAndType index = .ok both) : later.nameAndType index = .ok both := by
  obtain ⟨constant, hconstant, hread⟩ := bind_eq_ok.mp hread
  refine bind_eq_ok.mpr ⟨constant, h.get hconstant, ?_⟩
  cases constant with
  | nameAndType _ _ =>
    obtain ⟨name, hname, hread⟩ := bind_eq_ok.mp hread
    obtain ⟨descriptor, hdescriptor, hread⟩ := bind_eq_ok.mp hread
    exact bind_eq_ok.mpr ⟨name, h.utf8 hname, bind_eq_ok.mpr ⟨descriptor, h.utf8 hdescriptor, hread⟩⟩
  | _ => simp [throw, throwThe, MonadExceptOf.throw] at hread

/-! ## One constant -/

/-- An index that holds a constant and is the first to do so is where the constant is found. -/
theorem request_of_position {constant : Constant} {index : PoolIndex}
    (h : pool.positions[constant]? = some index) : pool.request constant = (.ok index, pool) := by
  unfold request
  rw [h]

/-- A constant that no slot holds is added behind the others if there is room. -/
theorem request_of_not_mem {constant : Constant} (h : some constant ∉ pool.slots)
    (room : pool.slots.size + constant.places ≤ capacity) :
    pool.request constant = (.ok (UInt16.ofNat pool.slots.size), pool.append constant (by
      have := constant.one_le_places
      simp only [capacity] at room
      omega)) := by
  have hnone : pool.positions[constant]? = none := by
    rw [Option.eq_none_iff_forall_ne_some]
    intro index hindex
    exact h (Array.mem_of_getElem? ((pool.valid.position_iff _ _).mp hindex).1)
  unfold request
  rw [hnone]
  dsimp only
  rw [dif_neg (by omega)]

/-- Where a constant is found it is found in all later pools. -/
theorem Extends.position (h : pool.Extends later) {constant : Constant} {index : PoolIndex}
    (hfound : pool.positions[constant]? = some index) : later.positions[constant]? = some index := by
  obtain ⟨hheld, hfirst⟩ := (pool.valid.position_iff _ _).mp hfound
  have hlt : index.toNat < pool.slots.size := by
    by_contra hout
    rw [Array.getElem?_eq_none_iff.mpr (by omega)] at hheld
    simp at hheld
  refine (later.valid.position_iff _ _).mpr ⟨by rw [h.getElem? hlt, hheld], fun earlier hearlier => ?_⟩
  rw [h.getElem? (hearlier.trans hlt)]
  exact hfirst earlier hearlier

/-- A constant that was asked for is in the pool that is left, to which it was added if need be. -/
theorem request_eq_ok {constant : Constant} {index : PoolIndex}
    (h : pool.request constant = (.ok index, pool')) :
    pool.GrowsInto pool' ∧ pool'.positions[constant]? = some index := by
  unfold request at h
  split at h
  · next found hfound =>
    obtain ⟨hindex, rfl⟩ := Prod.mk.inj h
    obtain rfl := Except.ok.inj hindex
    exact ⟨.refl pool, hfound⟩
  · next habsent =>
    split at h
    · simp at h
    · obtain ⟨hindex, rfl⟩ := Prod.mk.inj h
      obtain rfl := Except.ok.inj hindex
      constructor
      · exact ⟨[constant], by rw [toList_slots_append, List.flatMap_singleton]⟩
      · have hnew : constant ∉ pool.positions := by
          rw [Std.HashMap.mem_iff_isSome_getElem?, habsent]
          simp
        rw [append, Std.HashMap.getElem?_insertIfNew, if_pos ⟨by simp, hnew⟩]

/-- Asking for a constant is a request. -/
theorem finish_intern {constant : Constant} {index : PoolIndex} :
    (intern constant).finish pool = .ok (index, pool') ↔
      pool.request constant = (.ok index, pool') := by
  have hrun : (intern constant).run pool = pool.request constant := rfl
  unfold Interning.finish
  rw [hrun]
  rcases pool.request constant with ⟨outcome, left⟩
  cases outcome <;> simp

/-- Asking for a constant fails only if the pool is full. -/
theorem finish_intern_eq_error {constant : Constant} {fault : Fault}
    (h : (intern constant).finish pool = .error fault) : fault = .poolOverflow constant pool.slots.size := by
  have hrun : (intern constant).run pool = pool.request constant := rfl
  unfold Interning.finish at h
  rw [hrun, request] at h
  cases hfound : pool.positions[constant]? with
  | some index => simp [hfound] at h
  | none =>
    simp only [hfound] at h
    split_ifs at h
    exact (Except.error.inj h).symm

/-- What is found where a constant is found is the constant. -/
theorem get_of_position {constant : Constant} {index : PoolIndex}
    (h : pool.positions[constant]? = some index) : pool.get index = .ok constant := by
  unfold get
  rw [((pool.valid.position_iff _ _).mp h).1]

end Pool

/-! ## Requests made again -/

namespace Interning

variable {α β : Type} {pool pool' : Pool}

/-- Requests that give a result and leave the pool as it is. -/
def Settled (requests : Interning α) (pool : Pool) (result : α) : Prop :=
  requests.finish pool = .ok (result, pool)

/-- Requests that add constants to the pool, and are settled in it and in all later ones. -/
structure Repeats (requests : Interning α) : Prop where
  growsInto_of_finish : ∀ {pool result pool'}, requests.finish pool = .ok (result, pool') →
    pool.GrowsInto pool'
  again : ∀ {pool result pool'}, requests.finish pool = .ok (result, pool') →
    ∀ {later}, pool'.Extends later → requests.Settled later result

/-- A plain value is settled. -/
theorem settled_pure {value result : α} :
    (pure value : Interning α).Settled pool result ↔ value = result :=
  finish_pure.trans (and_iff_left rfl)

/-- A computation without requests is settled. -/
theorem settled_lift {action : Except Fault α} {result : α} :
    (liftM action : Interning α).Settled pool result ↔ action = .ok result :=
  finish_lift.trans (and_iff_left rfl)

/-- A failure is no result. -/
theorem not_settled_throw {fault : Fault} {result : α} :
    ¬ (throw fault : Interning α).Settled pool result :=
  finish_throw

/-- Requests that are settled one after the other are settled. -/
theorem Settled.bind {requests : Interning α} {next : α → Interning β} {value : α} {result : β}
    (h : requests.Settled pool value) (hnext : (next value).Settled pool result) :
    (requests >>= next).Settled pool result :=
  finish_bind.mpr ⟨value, pool, h, hnext⟩

/-- Requests that are settled leave all that follows to those behind them. -/
theorem Settled.finish_bind {requests : Interning α} {next : α → Interning β} {value : α}
    (h : requests.Settled pool value) : (requests >>= next).finish pool = (next value).finish pool := by
  cases hnext : (next value).finish pool with
  | ok result => exact Interning.finish_bind.mpr ⟨value, pool, h, hnext⟩
  | error fault => exact finish_bind_eq_error.mpr (.inr ⟨value, pool, h, hnext⟩)

namespace Repeats

/-- Requests that have succeeded extend the pool. -/
theorem extends_of_finish {requests : Interning α} (h : requests.Repeats) {result : α}
    (hfinish : requests.finish pool = .ok (result, pool')) : pool.Extends pool' :=
  (h.growsInto_of_finish hfinish).extends

/-- Requests that have succeeded are settled in the pool that is left. -/
theorem settled {requests : Interning α} (h : requests.Repeats) {result : α}
    (hfinish : requests.finish pool = .ok (result, pool')) : requests.Settled pool' result :=
  h.again hfinish (.refl pool')

/-- Requests that are settled are settled in all later pools. -/
theorem settled_mono {requests : Interning α} (h : requests.Repeats) {result : α} {later : Pool}
    (hsettled : requests.Settled pool result) (hextends : pool.Extends later) :
    requests.Settled later result :=
  h.again hsettled hextends

/-- Requests one after the other are settled if each of them is. -/
theorem settled_bind {requests : Interning α} {next : α → Interning β} (h : requests.Repeats)
    (hnext : ∀ value, (next value).Repeats) {result : β} :
    (requests >>= next).Settled pool result ↔
      ∃ value, requests.Settled pool value ∧ (next value).Settled pool result := by
  constructor
  · intro hsettled
    obtain ⟨value, middle, hvalue, hresult⟩ := finish_bind.mp hsettled
    exact ⟨value, h.again hvalue ((hnext value).extends_of_finish hresult), (hnext value).settled hresult⟩
  · rintro ⟨value, hvalue, hresult⟩
    exact hvalue.bind hresult

theorem pure (value : α) : (Pure.pure value : Interning α).Repeats where
  growsInto_of_finish hfinish := (finish_pure.mp hfinish).2 ▸ .refl _
  again hfinish _ _ := settled_pure.mpr (finish_pure.mp hfinish).1

theorem lift (action : Except Fault α) : (liftM action : Interning α).Repeats where
  growsInto_of_finish hfinish := (finish_lift.mp hfinish).2 ▸ .refl _
  again hfinish _ _ := settled_lift.mpr (finish_lift.mp hfinish).1

theorem throw (fault : Fault) : (MonadExcept.throw fault : Interning α).Repeats where
  growsInto_of_finish hfinish := absurd hfinish finish_throw
  again hfinish := absurd hfinish finish_throw

theorem bind {requests : Interning α} {next : α → Interning β} (h : requests.Repeats)
    (hnext : ∀ value, (next value).Repeats) : (requests >>= next).Repeats where
  growsInto_of_finish hfinish := by
    obtain ⟨value, middle, hvalue, hresult⟩ := finish_bind.mp hfinish
    exact (h.growsInto_of_finish hvalue).trans ((hnext value).growsInto_of_finish hresult)
  again hfinish _ hlater := by
    obtain ⟨value, middle, hvalue, hresult⟩ := finish_bind.mp hfinish
    exact (h.again hvalue (((hnext value).extends_of_finish hresult).trans hlater)).bind
      ((hnext value).again hresult hlater)

theorem mapM {request : α → Interning β} (h : ∀ item, (request item).Repeats) (items : List α) :
    (items.mapM request).Repeats := by
  induction items with
  | nil =>
    rw [List.mapM_nil]
    exact pure _
  | cons item items ih =>
    rw [List.mapM_cons]
    exact (h item).bind fun first => ih.bind fun others => pure _

theorem foldlM {step : β → α → Interning β} (h : ∀ state item, (step state item).Repeats)
    (items : List α) (start : β) : (items.foldlM step start).Repeats := by
  induction items generalizing start with
  | nil =>
    rw [List.foldlM_nil]
    exact pure _
  | cons item items ih =>
    rw [List.foldlM_cons]
    exact (h start item).bind fun next => ih next

theorem optionMapM {request : α → Interning β} (h : ∀ item, (request item).Repeats)
    (item : Option α) : (item.mapM request).Repeats := by
  cases item with
  | none => exact pure _
  | some item => exact (h item).bind fun result => pure _

/-- A request for an item that may be absent is settled if it is, or if the item is absent. -/
theorem settled_optionMapM {request : α → Interning β} (h : ∀ item, (request item).Repeats)
    {item? : Option α} {result? : Option β} : (item?.mapM request).Settled pool result? ↔
      Option.Rel (fun item result => (request item).Settled pool result) item? result? := by
  cases item? with
  | none =>
    rw [show (none : Option α).mapM request = Pure.pure none from rfl, settled_pure]
    constructor
    · rintro rfl
      exact .none
    · rintro ⟨⟩
      rfl
  | some item =>
    rw [show (some item).mapM request = (request item >>= fun result => Pure.pure (some result)) from rfl,
      settled_bind (h item) fun result => pure _]
    constructor
    · rintro ⟨result, hresult, hpure⟩
      obtain rfl := settled_pure.mp hpure
      exact .some hresult
    · rintro ⟨hresult⟩
      exact ⟨_, hresult, settled_pure.mpr rfl⟩

/-- Requests for the items of a list are settled if each of them is. -/
theorem settled_mapM {request : α → Interning β} (h : ∀ item, (request item).Repeats)
    {items : List α} {results : List β} : (items.mapM request).Settled pool results ↔
      List.Forall₂ (fun item result => (request item).Settled pool result) items results := by
  induction items generalizing results with
  | nil =>
    rw [List.mapM_nil, settled_pure]
    cases results <;> simp
  | cons item items ih =>
    rw [List.mapM_cons, settled_bind (h item) fun first => (mapM h items).bind fun others => pure _]
    constructor
    · rintro ⟨first, hfirst, hrest⟩
      obtain ⟨others, hothers, hresults⟩ := (settled_bind (mapM h items) fun _ => pure _).mp hrest
      obtain rfl := settled_pure.mp hresults
      exact .cons hfirst (ih.mp hothers)
    · rintro (_ | ⟨hfirst, hothers⟩)
      exact ⟨_, hfirst, (ih.mpr hothers).bind (settled_pure.mpr rfl)⟩

/-- A constant is asked for again where it was found. -/
theorem intern (constant : Constant) : (Pool.intern constant).Repeats where
  growsInto_of_finish hfinish := (Pool.request_eq_ok (Pool.finish_intern.mp hfinish)).1
  again hfinish _ hlater := Pool.finish_intern.mpr (Pool.request_of_position
    (hlater.position (Pool.request_eq_ok (Pool.finish_intern.mp hfinish)).2))

end Repeats

end Interning

/-! ## What is asked for is read back -/

namespace Pool

open Interning

variable {pool : Pool} {index : PoolIndex}

/-- A constant that is asked for is at the index given. -/
theorem get_of_settled {constant : Constant} (h : (intern constant).Settled pool index) :
    pool.get index = .ok constant :=
  get_of_position (request_eq_ok (finish_intern.mp h)).2

/-- A request is settled where the first slot with the constant is. -/
theorem settled_intern_iff {constant : Constant} : (intern constant).Settled pool index ↔
    pool.slots[index.toNat]? = some (some constant) ∧
      ∀ earlier < index.toNat, pool.slots[earlier]? ≠ some (some constant) := by
  rw [← pool.valid.position_iff]
  exact ⟨fun h => (request_eq_ok (finish_intern.mp h)).2,
    fun h => finish_intern.mpr (request_of_position h)⟩

theorem repeats_internUtf8 (text : String) : (internUtf8 text).Repeats := .intern _

/-- A text that is asked for is read back. -/
theorem utf8_of_settled {text : String} (h : (internUtf8 text).Settled pool index) :
    pool.utf8 index = .ok text :=
  bind_eq_ok.mpr ⟨_, get_of_settled h, congrArg Except.ok (ModifiedUtf8.decode_encode text)⟩

theorem repeats_internClass (name : String) : (internClass name).Repeats :=
  (repeats_internUtf8 name).bind fun _ => .intern _

/-- The name of a class that is asked for is read back. -/
theorem className_of_settled {name : String} (h : (internClass name).Settled pool index) :
    pool.className index = .ok name := by
  obtain ⟨text, htext, hindex⟩ := (Repeats.settled_bind (repeats_internUtf8 name) fun _ => .intern _).mp h
  exact bind_eq_ok.mpr ⟨_, get_of_settled hindex, utf8_of_settled htext⟩

theorem repeats_internNameAndType (name descriptor : String) :
    (internNameAndType name descriptor).Repeats :=
  (repeats_internUtf8 name).bind fun _ => (repeats_internUtf8 descriptor).bind fun _ => .intern _

/-- A name with a descriptor that is asked for is read back. -/
theorem nameAndType_of_settled {name descriptor : String}
    (h : (internNameAndType name descriptor).Settled pool index) :
    pool.nameAndType index = .ok (name, descriptor) := by
  obtain ⟨nameIndex, hname, h⟩ := (Repeats.settled_bind (repeats_internUtf8 name) fun _ =>
    (repeats_internUtf8 descriptor).bind fun _ => .intern _).mp h
  obtain ⟨descriptorIndex, hdescriptor, hindex⟩ :=
    (Repeats.settled_bind (repeats_internUtf8 descriptor) fun _ => .intern _).mp h
  exact bind_eq_ok.mpr ⟨_, get_of_settled hindex, bind_eq_ok.mpr ⟨name, utf8_of_settled hname,
    bind_eq_ok.mpr ⟨descriptor, utf8_of_settled hdescriptor, rfl⟩⟩⟩

theorem repeats_internField (field : Member) : (internField field).Repeats :=
  (repeats_internClass field.owner).bind fun _ =>
    (repeats_internNameAndType field.name field.descriptor).bind fun _ => .intern _

theorem repeats_internMethod (method : Member) : (internMethod method).Repeats :=
  (repeats_internClass method.owner).bind fun _ =>
    (repeats_internNameAndType method.name method.descriptor).bind fun _ => .intern _

/-- A field that is asked for is read back. -/
theorem member_of_settled_field {field : Member} (h : (internField field).Settled pool index) :
    pool.member index = .ok { field with ofInterface := false } := by
  obtain ⟨owner, howner, h⟩ := (Repeats.settled_bind (repeats_internClass field.owner) fun _ =>
    (repeats_internNameAndType field.name field.descriptor).bind fun _ => .intern _).mp h
  obtain ⟨both, hboth, hindex⟩ := (Repeats.settled_bind
    (repeats_internNameAndType field.name field.descriptor) fun _ => .intern _).mp h
  refine bind_eq_ok.mpr ⟨_, get_of_settled hindex, bind_eq_ok.mpr ⟨(owner, both, false), rfl, ?_⟩⟩
  exact bind_eq_ok.mpr ⟨_, nameAndType_of_settled hboth,
    bind_eq_ok.mpr ⟨_, className_of_settled howner, rfl⟩⟩

/-- A method that is asked for is read back. -/
theorem member_of_settled_method {method : Member} (h : (internMethod method).Settled pool index) :
    pool.member index = .ok method := by
  obtain ⟨owner, howner, h⟩ := (Repeats.settled_bind (repeats_internClass method.owner) fun _ =>
    (repeats_internNameAndType method.name method.descriptor).bind fun _ => .intern _).mp h
  obtain ⟨both, hboth, hindex⟩ := (Repeats.settled_bind
    (repeats_internNameAndType method.name method.descriptor) fun _ => .intern _).mp h
  refine bind_eq_ok.mpr
    ⟨_, get_of_settled hindex, bind_eq_ok.mpr ⟨(owner, both, method.ofInterface), rfl, ?_⟩⟩
  exact bind_eq_ok.mpr ⟨_, nameAndType_of_settled hboth,
    bind_eq_ok.mpr ⟨_, className_of_settled howner, rfl⟩⟩

end Pool

/-! ## Faults that requests do not fail with -/

namespace Interning

variable {α β : Type} {p : Fault → Prop}

/-- Requests do not fail with a fault of some kind, whatever pool they are run on. -/
def Never (p : Fault → Prop) (requests : Interning α) : Prop :=
  ∀ pool fault, requests.finish pool = .error fault → ¬ p fault

namespace Never

/-- Faults of a kind are ruled out where those of a wider kind are. -/
theorem imp {q : Fault → Prop} {requests : Interning α} (h : requests.Never p) (hkind : ∀ fault, q fault → p fault) :
    requests.Never q :=
  fun pool fault hfault hq => h pool fault hfault (hkind fault hq)

theorem pure (value : α) : (Pure.pure value : Interning α).Never p := by
  intro pool fault h
  cases h

/-- A failure is ruled out unless it is of the kind. -/
theorem throw {fault : Fault} (h : ¬ p fault) : (MonadExcept.throw fault : Interning α).Never p := by
  intro pool fault' hfault
  obtain rfl := Except.error.inj hfault
  exact h

/-- A computation without requests fails as it does by itself. -/
theorem lift {action : Except Fault α} (h : Outcome.Avoids p action) : (liftM action : Interning α).Never p := by
  intro pool fault hfault
  cases action with
  | ok value => cases hfault
  | error fault' =>
    obtain rfl := Except.error.inj hfault
    exact h _ rfl

/-- What is ruled out for requests and for those that follow is ruled out for all of them. -/
theorem bind {requests : Interning α} {next : α → Interning β} (h : requests.Never p)
    (hnext : ∀ value, (next value).Never p) : (requests >>= next).Never p := by
  intro pool fault hfault
  rcases finish_bind_eq_error.mp hfault with hfirst | ⟨value, middle, -, hsecond⟩
  · exact h pool fault hfirst
  · exact hnext value middle fault hsecond

/-- Requests that follow a computation without requests are made with its result only. -/
theorem bind_lift {action : Except Fault α} {next : α → Interning β} (h : Outcome.Avoids p action)
    (hnext : ∀ value, action = .ok value → (next value).Never p) : (liftM action >>= next).Never p := by
  intro pool fault hfault
  rcases finish_bind_eq_error.mp hfault with hfirst | ⟨value, middle, hvalue, hsecond⟩
  · exact lift h pool fault hfirst
  · obtain ⟨hsuccess, rfl⟩ := finish_lift.mp hvalue
    exact hnext value hsuccess _ fault hsecond

/-- What is ruled out for each item is ruled out for all. -/
theorem mapM {request : α → Interning β} {items : List α} (h : ∀ item ∈ items, (request item).Never p) :
    (items.mapM request).Never p := by
  induction items with
  | nil => exact pure []
  | cons item items ih =>
    obtain ⟨hfirst, hothers⟩ := List.forall_mem_cons.mp h
    rw [List.mapM_cons]
    exact hfirst.bind fun _ => (ih hothers).bind fun _ => pure _

/-- What is ruled out for each step is ruled out for a fold. -/
theorem foldlM {request : β → α → Interning β} {items : List α}
    (h : ∀ state, ∀ item ∈ items, (request state item).Never p) (start : β) :
    (items.foldlM request start).Never p := by
  induction items generalizing start with
  | nil => exact pure start
  | cons item items ih =>
    rw [List.foldlM_cons]
    exact (h start item List.mem_cons_self).bind fun state =>
      ih (fun state other hmem => h state other (List.mem_cons_of_mem _ hmem)) state

/-- Only a full pool refuses a constant. -/
theorem intern (constant : Constant) (h : ∀ offset, ¬ p (.poolOverflow constant offset)) :
    (Pool.intern constant).Never p := by
  intro pool fault hfault
  rw [Pool.finish_intern_eq_error hfault]
  exact h _

end Never

end Interning

end ClassInstrument
