import Mathlib
import ClassInstrument.Frame.Basic

/-!
# Moving creation sites

The type of an object that is not initialized yet names the place of its `new` instruction.  When
instructions move, so do these places, and a frame is the same as before up to where they are.  Moving
them changes neither widths nor offsets, so it goes through all operations on frames.
-/

namespace ClassInstrument

variable {Cls Site Site' : Type}

namespace ValueType

/-- The type with its creation site moved. -/
def mapSite (move : Site → Site') : ValueType Cls Site → ValueType Cls Site'
  | top => top
  | int => int
  | float => float
  | double => double
  | long => long
  | null => null
  | uninitThis => uninitThis
  | object cls => object cls
  | uninit site => uninit (move site)

variable {move : Site → Site'} {type : ValueType Cls Site}

@[simp] theorem mapSite_top : (top : ValueType Cls Site).mapSite move = top := rfl

@[simp] theorem isWide_mapSite : (type.mapSite move).isWide = type.isWide := by
  cases type <;> rfl

@[simp] theorem isReference_mapSite : (type.mapSite move).isReference = type.isReference := by
  cases type <;> rfl

@[simp] theorem width_mapSite : width (type.mapSite move) = width type := by
  simp [width]

/-- Types stay apart if places do. -/
theorem mapSite_injective (h : Function.Injective move) :
    Function.Injective (mapSite move : ValueType Cls Site → ValueType Cls Site') := by
  intro type other hsame
  cases type <;> cases other <;> simp_all [mapSite, h.eq_iff]

@[simp] theorem mapSite_id (type : ValueType Cls Site) : type.mapSite id = type := by
  cases type <;> rfl

/-- Only where the named site goes matters. -/
theorem mapSite_congr {other : Site → Site'} (h : ∀ site, type = .uninit site → move site = other site) :
    type.mapSite move = type.mapSite other := by
  cases type with
  | uninit site => exact congrArg uninit (h site rfl)
  | _ => rfl

/-- A type that names no creation site stays. -/
theorem mapSite_of_plain {move : Site → Site} (h : ∀ site, type ≠ .uninit site) :
    type.mapSite move = type :=
  (mapSite_congr fun site hsite => absurd hsite (h site)).trans (mapSite_id type)

end ValueType

/-! ## Stacks -/

namespace Slots

variable {α β : Type}

/-- The stack with every entry changed, each at its offset. -/
def map (f : α → β) (slots : Slots α) : Slots β :=
  ⟨slots.entries.map fun (offset, entry) => (offset, f entry), slots.used⟩

@[simp] theorem toList_map (f : α → β) (slots : Slots α) : (slots.map f).toList = slots.toList.map f := by
  simp [map, toList, Function.comp_def]

@[simp] theorem used_map (f : α → β) (slots : Slots α) : (slots.map f).used = slots.used := rfl

variable [HasWidth α] [HasWidth β] {f : α → β}

theorem map_push (hwidth : ∀ entry, width (f entry) = width entry) (slots : Slots α) (entry : α) :
    (slots.push entry).map f = (slots.map f).push (f entry) := by
  simp [map, push, hwidth]

theorem map_pushAll (hwidth : ∀ entry, width (f entry) = width entry) (slots : Slots α)
    (entries : List α) : (slots.pushAll entries).map f = (slots.map f).pushAll (entries.map f) := by
  induction entries generalizing slots with
  | nil => rfl
  | cons entry entries ih =>
    have hpush := map_push hwidth slots entry
    simp only [pushAll, List.foldl_cons, List.map_cons] at ih ⊢
    rw [ih, hpush]

theorem map_ofList (hwidth : ∀ entry, width (f entry) = width entry) (entries : List α) :
    (ofList entries).map f = ofList (entries.map f) :=
  map_pushAll hwidth empty entries

end Slots

/-! ## Frames -/

namespace Frame

/-- The frame with all creation sites moved. -/
def mapSites (move : Site → Site') (frame : Frame Cls Site) : Frame Cls Site' where
  locals := frame.locals.map (·.mapSite move)
  stack := frame.stack.map (·.mapSite move)

variable {move : Site → Site'} {frame : Frame Cls Site}

theorem mapSites_push (type : ValueType Cls Site) :
    (frame.push type).mapSites move = (frame.mapSites move).push (type.mapSite move) := by
  simp [mapSites, push, Slots.map_push]

theorem mapSites_pushAll (types : List (ValueType Cls Site)) :
    ({ frame with stack := frame.stack.pushAll types } : Frame Cls Site).mapSites move =
      { frame.mapSites move with
        stack := (frame.mapSites move).stack.pushAll (types.map (·.mapSite move)) } := by
  simp [mapSites, Slots.map_pushAll]

/-- A wide variable is cleared wherever its creation sites are. -/
theorem clearWideAt_map (slot : ℕ) (slots : List (ValueType Cls Site)) :
    clearWideAt slot (slots.map (·.mapSite move)) = (clearWideAt slot slots).map (·.mapSite move) := by
  unfold clearWideAt
  rw [List.getElem?_map]
  cases slots[slot]? with
  | none => rfl
  | some type =>
    by_cases hwide : type.isWide
    · simp [hwide, List.map_set]
    · simp [hwide]

theorem mapSites_setLocal (slot : ℕ) (type : ValueType Cls Site) :
    (frame.setLocal slot type).mapSites move = (frame.mapSites move).setLocal slot (type.mapSite move) := by
  have hpadded : padTo (slot + width type) (frame.locals.map (·.mapSite move)) =
      (padTo (slot + width type) frame.locals).map (·.mapSite move) := by
    simp [padTo]
  have hcleared : (if slot = 0 then padTo (slot + width type) (frame.locals.map (·.mapSite move))
      else clearWideAt (slot - 1) (padTo (slot + width type) (frame.locals.map (·.mapSite move)))) =
      (if slot = 0 then padTo (slot + width type) frame.locals
      else clearWideAt (slot - 1) (padTo (slot + width type) frame.locals)).map (·.mapSite move) := by
    rw [hpadded, clearWideAt_map]
    split <;> rfl
  unfold setLocal mapSites
  simp only [ValueType.isWide_mapSite, ValueType.width_mapSite]
  rw [hcleared]
  split <;> simp [List.map_set]

theorem mapSites_replaceAll [DecidableEq Cls] [DecidableEq Site] [DecidableEq Site']
    (hmove : Function.Injective move) (old new : ValueType Cls Site) :
    (frame.replaceAll old new).mapSites move =
      (frame.mapSites move).replaceAll (old.mapSite move) (new.mapSite move) := by
  have hreplaced (type : ValueType Cls Site) :
      (if type = old then new else type).mapSite move =
        if type.mapSite move = old.mapSite move then new.mapSite move else type.mapSite move := by
    simp only [(ValueType.mapSite_injective hmove).eq_iff]
    split <;> rfl
  simp [mapSites, replaceAll, Slots.map, Slots.replaceAll, hreplaced]

/-- Only where the named sites go matters. -/
theorem mapSites_congr {other : Site → Site'}
    (hlocals : ∀ type ∈ frame.locals, ∀ site, type = .uninit site → move site = other site)
    (hstack : ∀ type ∈ frame.stack.toList, ∀ site, type = .uninit site → move site = other site) :
    frame.mapSites move = frame.mapSites other := by
  have hentries : ∀ entry ∈ frame.stack.entries, (entry.1, entry.2.mapSite move) =
      (entry.1, entry.2.mapSite other) := fun entry hmem =>
    congrArg (Prod.mk entry.1) (ValueType.mapSite_congr (hstack entry.2
      (List.mem_reverse.mpr (List.mem_map_of_mem hmem))))
  simp only [mapSites, Slots.map, Frame.mk.injEq, Slots.mk.injEq, and_true]
  exact ⟨List.map_congr_left fun type hmem => ValueType.mapSite_congr (hlocals type hmem),
    List.map_congr_left hentries⟩

@[simp] theorem mapSites_id (frame : Frame Cls Site) : frame.mapSites id = frame := by
  simp [mapSites, Slots.map]

/-- A frame that names no creation site stays. -/
theorem mapSites_of_plain {move : Site → Site}
    (hlocals : ∀ type ∈ frame.locals, ∀ site, type ≠ .uninit site)
    (hstack : ∀ type ∈ frame.stack.toList, ∀ site, type ≠ .uninit site) :
    frame.mapSites move = frame :=
  (mapSites_congr (fun type hmem site hsite => absurd hsite (hlocals type hmem site))
    fun type hmem site hsite => absurd hsite (hstack type hmem site)).trans (mapSites_id frame)

end Frame

end ClassInstrument
