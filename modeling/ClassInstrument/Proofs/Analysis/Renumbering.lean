import ClassInstrument.Proofs.Analysis.FittingTransfer
import ClassInstrument.Proofs.Frame.Sites

/-!
# Instructions on frames with moved creation sites

An instruction that runs on a frame runs at another place on the frame with its creation sites moved, and
what it gives is moved alike.  The same holds of merges.  Sites may be moved in any way that keeps them
apart, provided that the `new` instructions which frames name are where their sites are moved to.
-/

namespace ClassInstrument

open Outcome

variable {move : ℕ → ℕ}

/-! ## Operations on frames -/

/-- A shuffle goes by the widths of values. -/
theorem Shuffle.plan_map {shuffle : Shuffle} {types pushed : List FlowType} {taken : ℕ}
    (h : shuffle.plan types = .ok (taken, pushed)) :
    shuffle.plan (types.map (·.mapSite move)) = .ok (taken, pushed.map (·.mapSite move)) := by
  revert h
  fun_cases plan shuffle types
  all_goals
    intro h
    first
    | (cases h; done)
    | obtain ⟨rfl, rfl⟩ := Prod.mk.inj (Except.ok.inj h)
  all_goals simp_all [plan]

namespace Frame

variable {frame rest : FlowFrame} {type : FlowType}

theorem pop_mapSites (h : frame.pop = .ok (type, rest)) :
    (frame.mapSites move).pop = .ok (type.mapSite move, rest.mapSites move) := by
  obtain ⟨locals, entries, used⟩ := frame
  cases entries with
  | nil => cases h
  | cons entry entries =>
    cases h
    rfl

theorem drop_mapSites {count : ℕ} (h : frame.drop count = .ok rest) :
    (frame.mapSites move).drop count = .ok (rest.mapSites move) := by
  induction count generalizing frame with
  | zero =>
    cases h
    rfl
  | succ count ih =>
    obtain ⟨⟨type, middle⟩, hpop, h⟩ := bind_eq_ok.mp h
    exact bind_eq_ok.mpr ⟨_, pop_mapSites hpop, ih h⟩

/-- Dropping values adds none. -/
theorem mem_of_drop {count : ℕ} (h : frame.drop count = .ok rest) (hmem : type ∈ rest.stack.toList) :
    type ∈ frame.stack.toList := by
  induction count generalizing frame with
  | zero =>
    cases h
    exact hmem
  | succ count ih =>
    obtain ⟨⟨popped, middle⟩, hpop, h⟩ := bind_eq_ok.mp h
    rw [toList_of_pop hpop]
    exact List.mem_append_left _ (ih h)

theorem shuffle_mapSites {shuffle : Shuffle} (h : frame.shuffle shuffle = .ok rest) :
    (frame.mapSites move).shuffle shuffle = .ok (rest.mapSites move) := by
  obtain ⟨⟨taken, pushed⟩, hplan, h⟩ := bind_eq_ok.mp h
  obtain ⟨below, hbelow, h⟩ := bind_eq_ok.mp h
  obtain rfl := pure_eq_ok.mp h
  have hplan' : shuffle.plan ((frame.mapSites move).stack.entries.map Prod.snd) =
      .ok (taken, pushed.map (·.mapSite move)) := by
    rw [← Shuffle.plan_map hplan, mapSites, Slots.map, List.map_map, List.map_map]
    rfl
  refine bind_eq_ok.mpr ⟨_, hplan', bind_eq_ok.mpr ⟨_, drop_mapSites hbelow, ?_⟩⟩
  rw [mapSites_pushAll]
  rfl

end Frame

/-! ## Effects -/

namespace Effect

/-- The elements of an array name no creation site. -/
theorem elementType_mapSite (type : FlowType) :
    (elementType type).mapSite move = elementType (type.mapSite move) := by
  rw [ValueType.mapSite_of_plain (elementType_ne_uninit type)]
  cases type <;> rfl

theorem apply_mapSites {opcode : Opcode} {effect : Effect} (heffect : ofOpcode? opcode = some effect)
    {frame after : FlowFrame} (h : effect.apply frame = .ok after) :
    effect.apply (frame.mapSites move) = .ok (after.mapSites move) := by
  cases effect with
  | keep =>
    obtain rfl := pure_eq_ok.mp h
    rfl
  | pops count => exact Frame.drop_mapSites h
  | gives count type =>
    obtain ⟨rest, hrest, h⟩ := bind_eq_ok.mp h
    obtain rfl := pure_eq_ok.mp h
    refine bind_eq_ok.mpr ⟨_, Frame.drop_mapSites hrest, ?_⟩
    rw [Frame.mapSites_push, ValueType.mapSite_of_plain (isPlain_ofOpcode? opcode _ heffect)]
    rfl
  | loadsElement =>
    obtain ⟨⟨index, middle⟩, hindex, h⟩ := bind_eq_ok.mp h
    obtain ⟨⟨array, rest⟩, harray, h⟩ := bind_eq_ok.mp h
    obtain rfl := pure_eq_ok.mp h
    refine bind_eq_ok.mpr ⟨_, Frame.pop_mapSites hindex,
      bind_eq_ok.mpr ⟨_, Frame.pop_mapSites harray, ?_⟩⟩
    rw [Frame.mapSites_push, elementType_mapSite]
    rfl
  | shuffles shuffle => exact Frame.shuffle_mapSites h

end Effect

/-! ## Instructions -/

namespace Transfer

open FrameFits (blame_eq_ok)

variable {method : MethodContext} {code code' : Array Instruction} {position place : ℕ}
  {frame after : FlowFrame}

theorem pushResult_mapSites (frame : FlowFrame) (result : Option FieldType) :
    (pushResult frame result).mapSites move = pushResult (frame.mapSites move) result := by
  cases result with
  | none => rfl
  | some type =>
    rw [pushResult, Frame.mapSites_push, ValueType.mapSite_of_plain (ofFieldType_ne_uninit type)]
    rfl

/-- What pops values pops the moved values. -/
theorem blame_drop_mapSites {count : ℕ} {rest : FlowFrame}
    (h : blame position (frame.drop count) = .ok rest) :
    blame place ((frame.mapSites move).drop count) = .ok (rest.mapSites move) :=
  blame_eq_ok.mpr (Frame.drop_mapSites (blame_eq_ok.mp h))

/-- What pops values and pushes one that names no creation site does the same to moved values. -/
theorem exists_drop_push {count : ℕ} {type : FlowType} (hplain : ∀ site, type ≠ .uninit site)
    (h : (do return (← blame position (frame.drop count)).push type : Except Fault FlowFrame) = .ok after) :
    (do return (← blame place ((frame.mapSites move).drop count)).push type : Except Fault FlowFrame) =
      .ok (after.mapSites move) := by
  obtain ⟨rest, hrest, h⟩ := bind_eq_ok.mp h
  obtain rfl := pure_eq_ok.mp h
  refine bind_eq_ok.mpr ⟨_, blame_drop_mapSites hrest, ?_⟩
  rw [Frame.mapSites_push, ValueType.mapSite_of_plain hplain]
  rfl

theorem accessVariable_mapSites {opcode : Opcode} {slot : ℕ}
    (h : accessVariable position opcode slot frame = .ok after) :
    accessVariable place opcode slot (frame.mapSites move) = .ok (after.mapSites move) := by
  unfold accessVariable at h ⊢
  split at h
  · obtain rfl := pure_eq_ok.mp h
    rfl
  · obtain rfl := pure_eq_ok.mp h
    rfl
  · obtain rfl := pure_eq_ok.mp h
    rfl
  · obtain rfl := pure_eq_ok.mp h
    rfl
  · split at h
    · next type hslot =>
      have hslot' : (frame.mapSites move).locals[slot]? = some (type.mapSite move) := by
        rw [Frame.mapSites, List.getElem?_map, hslot]
        rfl
      split at h
      · next href =>
        obtain rfl := pure_eq_ok.mp h
        simp only [hslot', ValueType.isReference_mapSite, href, if_true, Frame.mapSites_push]
        rfl
      · cases h
    · cases h
  · split at h
    · next hstore =>
      obtain ⟨⟨type, rest⟩, hpop, h⟩ := bind_eq_ok.mp h
      obtain rfl := pure_eq_ok.mp h
      rw [if_pos hstore]
      refine bind_eq_ok.mpr ⟨_, blame_eq_ok.mpr (Frame.pop_mapSites (blame_eq_ok.mp hpop)), ?_⟩
      rw [Frame.mapSites_setLocal]
      rfl
    · cases h

/-- An instruction that creates an object names its own place. -/
theorem useType_mapSites {opcode : Opcode} {name : String}
    (h : useType position opcode name frame = .ok after) :
    useType (move position) opcode name (frame.mapSites move) = .ok (after.mapSites move) := by
  unfold useType at h ⊢
  split at h
  · obtain rfl := pure_eq_ok.mp h
    rw [Frame.mapSites_push]
    rfl
  · obtain ⟨rest, hrest, h⟩ := bind_eq_ok.mp h
    obtain ⟨element, helement, h⟩ := bind_eq_ok.mp h
    obtain rfl := pure_eq_ok.mp h
    refine bind_eq_ok.mpr ⟨_, blame_drop_mapSites hrest, bind_eq_ok.mpr ⟨_, helement, ?_⟩⟩
    rw [Frame.mapSites_push]
    rfl
  · exact exists_drop_push (by simp) h
  · exact exists_drop_push (by simp) h

theorem accessField_mapSites {opcode : Opcode} {accessed : Member}
    (h : accessField position opcode accessed frame = .ok after) :
    accessField place opcode accessed (frame.mapSites move) = .ok (after.mapSites move) := by
  unfold accessField at h ⊢
  obtain ⟨type, htype, h⟩ := bind_eq_ok.mp h
  have hplain := ofFieldType_ne_uninit type
  refine bind_eq_ok.mpr ⟨type, htype, ?_⟩
  split at h
  · obtain rfl := pure_eq_ok.mp h
    rw [Frame.mapSites_push, ValueType.mapSite_of_plain hplain]
    rfl
  · exact blame_drop_mapSites h
  · exact exists_drop_push hplain h
  · exact blame_drop_mapSites h

/-- A constructor initializes what was created at a moved site as what was created there before. -/
theorem initialized_mapSite {receiver type : FlowType}
    (hcode : ∀ site, receiver = .uninit site → ∀ name,
      code[site]? = some (.type Opcode.create name) → code'[move site]? = some (.type Opcode.create name))
    (h : initialized method code position receiver = .ok type) :
    initialized method code' place (receiver.mapSite move) = .ok type ∧ type.mapSite move = type := by
  cases receiver with
  | uninitThis =>
    cases h
    exact ⟨rfl, rfl⟩
  | uninit site =>
    simp only [initialized, ValueType.mapSite] at h ⊢
    split at h
    · next name hsite =>
      cases h
      rw [hcode site rfl name hsite]
      exact ⟨rfl, rfl⟩
    · cases h
  | _ => cases h

theorem call_mapSites (hmove : Function.Injective move)
    (hcode : ∀ site, .uninit site ∈ frame.stack.toList → ∀ name,
      code[site]? = some (.type Opcode.create name) → code'[move site]? = some (.type Opcode.create name))
    {opcode : Opcode} {callee : Member} (h : call method code position opcode callee frame = .ok after) :
    call method code' place opcode callee (frame.mapSites move) = .ok (after.mapSites move) := by
  unfold call at h ⊢
  obtain ⟨parsed, hparsed, h⟩ := bind_eq_ok.mp h
  obtain ⟨rest, hrest, h⟩ := bind_eq_ok.mp h
  refine bind_eq_ok.mpr ⟨parsed, hparsed, bind_eq_ok.mpr ⟨_, blame_drop_mapSites hrest, ?_⟩⟩
  split at h
  · next hstatic =>
    obtain rfl := pure_eq_ok.mp h
    rw [if_pos hstatic, pushResult_mapSites]
    rfl
  · next hdynamic =>
    obtain ⟨⟨receiver, below⟩, hpop, h⟩ := bind_eq_ok.mp h
    have hpop := blame_eq_ok.mp hpop
    rw [if_neg hdynamic]
    refine bind_eq_ok.mpr ⟨_, blame_eq_ok.mpr (Frame.pop_mapSites hpop), ?_⟩
    dsimp only at h ⊢
    split at h
    · next hconstructor =>
      obtain ⟨type, htype, h⟩ := bind_eq_ok.mp h
      obtain rfl := pure_eq_ok.mp h
      have hreceiver : receiver ∈ frame.stack.toList := by
        refine Frame.mem_of_drop (blame_eq_ok.mp hrest) ?_
        rw [Frame.toList_of_pop hpop]
        exact List.mem_append_right _ List.mem_cons_self
      obtain ⟨hinitialized, hplain⟩ : initialized method code' place (receiver.mapSite move) = .ok type ∧
          type.mapSite move = type :=
        initialized_mapSite (fun site hsite => hcode site (hsite ▸ hreceiver)) htype
      rw [if_pos hconstructor]
      refine bind_eq_ok.mpr ⟨type, hinitialized, ?_⟩
      rw [pushResult_mapSites, Frame.mapSites_replaceAll hmove, hplain]
      rfl
    · next hordinary =>
      obtain rfl := pure_eq_ok.mp h
      rw [if_neg hordinary, pushResult_mapSites]
      rfl

theorem jump_mapSites {opcode : Opcode} (h : jump position opcode frame = .ok after) :
    jump place opcode (frame.mapSites move) = .ok (after.mapSites move) := by
  unfold jump at h ⊢
  simp only at h ⊢
  split at h
  · next hone =>
    rw [if_pos hone]
    exact blame_drop_mapSites h
  · next hone =>
    rw [if_neg hone]
    split at h
    · next htwo =>
      rw [if_pos htwo]
      exact blame_drop_mapSites h
    · next htwo =>
      rw [if_neg htwo]
      split at h
      · next hgoto =>
        obtain rfl := Except.ok.inj h
        rw [if_pos hgoto]
      · cases h

/-- **Instructions on moved frames.**  An instruction that runs on a frame runs at another place on the
frame with moved creation sites, and gives the same with its sites moved. -/
theorem execute_mapSites (hmove : Function.Injective move)
    (hcode : ∀ site, .uninit site ∈ frame.stack.toList → ∀ name,
      code[site]? = some (.type Opcode.create name) → code'[move site]? = some (.type Opcode.create name))
    {instruction : Instruction} (h : execute method code position instruction frame = .ok after) :
    execute method code' (move position) instruction (frame.mapSites move) = .ok (after.mapSites move) := by
  unfold execute at h
  split at h
  · obtain rfl := pure_eq_ok.mp h
    rfl
  · obtain rfl := pure_eq_ok.mp h
    rfl
  · split at h
    · next effect heffect =>
      simp only [execute, heffect]
      exact blame_eq_ok.mpr (Effect.apply_mapSites heffect (blame_eq_ok.mp h))
    · cases h
  · obtain ⟨rest, hrest, h⟩ := bind_eq_ok.mp h
    split at h
    · next name hname =>
      obtain rfl := pure_eq_ok.mp h
      simp only [execute, hname]
      refine bind_eq_ok.mpr ⟨_, blame_drop_mapSites hrest, ?_⟩
      rw [Frame.mapSites_push]
      rfl
    · cases h
  · next hother =>
    obtain rfl := pure_eq_ok.mp h
    rw [execute, Frame.mapSites_push]
    · rfl
    · exact hother
  · exact accessVariable_mapSites h
  · obtain rfl := pure_eq_ok.mp h
    rfl
  · exact useType_mapSites h
  · exact accessField_mapSites h
  · exact call_mapSites hmove hcode h
  · obtain ⟨parsed, hparsed, h⟩ := bind_eq_ok.mp h
    obtain ⟨rest, hrest, h⟩ := bind_eq_ok.mp h
    obtain rfl := pure_eq_ok.mp h
    refine bind_eq_ok.mpr ⟨parsed, hparsed, bind_eq_ok.mpr ⟨_, blame_drop_mapSites hrest, ?_⟩⟩
    rw [pushResult_mapSites]
    rfl
  · exact jump_mapSites h
  · next constant =>
    obtain ⟨type, htype, h⟩ := bind_eq_ok.mp h
    obtain rfl := pure_eq_ok.mp h
    have hplain := FrameRules.loadedType constant
    rw [htype] at hplain
    refine bind_eq_ok.mpr ⟨type, htype, ?_⟩
    rw [Frame.mapSites_push, ValueType.mapSite_of_plain hplain]
    rfl
  · exact blame_drop_mapSites h
  · exact blame_drop_mapSites h
  · exact exists_drop_push (by simp) h

end Transfer

/-! ## Merges -/

section

variable {hierarchy : Hierarchy} {position place : ℕ}

/-- A merge of types goes by their classes. -/
theorem types_mapSite (hmove : Function.Injective move) {left right : FlowType} {found : Option FlowType}
    (h : Merge.types hierarchy left right = .ok found) :
    Merge.types hierarchy (left.mapSite move) (right.mapSite move) =
      .ok (found.map (·.mapSite move)) := by
  by_cases hsame : left = right
  · subst hsame
    simp only [Merge.types, if_true, pure_eq_ok] at h ⊢
    rw [← h]
    rfl
  have hapart : left.mapSite move ≠ right.mapSite move :=
    (ValueType.mapSite_injective hmove).ne hsame
  unfold Merge.types at h ⊢
  rw [if_neg hsame] at h
  rw [if_neg hapart]
  cases left <;> cases right <;> try (obtain rfl := pure_eq_ok.mp h; rfl)
  obtain ⟨merged, hmerged, h⟩ := bind_eq_ok.mp h
  obtain rfl := pure_eq_ok.mp h
  exact bind_eq_ok.mpr ⟨merged, hmerged, rfl⟩

theorem locals_mapSite (hmove : Function.Injective move) {left right merged : FlowType}
    (h : Merge.locals hierarchy (left, right) = .ok merged) :
    Merge.locals hierarchy (left.mapSite move, right.mapSite move) = .ok (merged.mapSite move) := by
  obtain ⟨found, hfound, h⟩ := bind_eq_ok.mp h
  obtain rfl := pure_eq_ok.mp h
  refine bind_eq_ok.mpr ⟨_, types_mapSite hmove hfound, ?_⟩
  cases found <;> rfl

theorem stackValues_mapSite (hmove : Function.Injective move) {left right merged : FlowType}
    (h : Merge.stackValues hierarchy position (left, right) = .ok merged) :
    Merge.stackValues hierarchy place (left.mapSite move, right.mapSite move) =
      .ok (merged.mapSite move) :=
  stackValues_eq_ok.mpr (types_mapSite hmove (stackValues_eq_ok.mp h))

/-- Lists of moved types are merged as the types are. -/
theorem zip_mapM_mapSite {merge merge' : FlowType × FlowType → Except Fault FlowType}
    (hmerge : ∀ left right merged, merge (left, right) = .ok merged →
      merge' (left.mapSite move, right.mapSite move) = .ok (merged.mapSite move))
    {left right merged : List FlowType} (h : (left.zip right).mapM merge = .ok merged) :
    ((left.map (·.mapSite move)).zip (right.map (·.mapSite move))).mapM merge' =
      .ok (merged.map (·.mapSite move)) := by
  rw [mapM_eq_ok] at h ⊢
  rw [List.zip_map, List.forall₂_map_left_iff, List.forall₂_map_right_iff]
  exact h.imp fun {pair merged} hpair => hmerge pair.1 pair.2 merged hpair

/-- **Merges of moved frames.**  Frames with moved creation sites are merged as the frames are. -/
theorem mergeFrames_mapSites (hmove : Function.Injective move) {existing incoming : FlowFrame}
    {found : Option FlowFrame} (h : mergeFrames hierarchy position existing incoming = .ok found) :
    mergeFrames hierarchy place (existing.mapSites move) (incoming.mapSites move) =
      .ok (found.map (·.mapSites move)) := by
  obtain ⟨hlength, stack, locals, hstack, hlocals, rfl⟩ := mergeFrames_eq_ok.mp h
  have hlist (frame : FlowFrame) :
      (frame.mapSites move).stack.toList = frame.stack.toList.map (·.mapSite move) :=
    Slots.toList_map _ _
  have hclear : Merge.clearWideLast (locals.map (·.mapSite move)) =
      (Merge.clearWideLast locals).map (·.mapSite move) := by
    rw [Merge.clearWideLast, List.length_map, Frame.clearWideAt_map]
    rfl
  have hvalues : Slots.ofList (stack.map (·.mapSite move)) = (Slots.ofList stack).map (·.mapSite move) :=
    (Slots.map_ofList (fun _ => ValueType.width_mapSite) stack).symm
  have hinjective : Function.Injective fun type : FlowType => type.mapSite move :=
    ValueType.mapSite_injective hmove
  refine mergeFrames_eq_ok.mpr ⟨by simpa [hlist] using hlength, stack.map (·.mapSite move),
    locals.map (·.mapSite move), ?_, ?_, ?_⟩
  · rw [hlist, hlist]
    exact zip_mapM_mapSite (fun _ _ _ => stackValues_mapSite hmove) hstack
  · exact zip_mapM_mapSite (fun _ _ _ => locals_mapSite hmove) hlocals
  · have hentry : Function.Injective fun entry : ℕ × FlowType => (entry.1, entry.2.mapSite move) :=
      fun entry other hsame => Prod.ext (Prod.mk.inj hsame).1 (hinjective (Prod.mk.inj hsame).2)
    have hsame : Merge.clearWideLast (locals.map (·.mapSite move)) = (existing.mapSites move).locals ∧
          (Slots.ofList (stack.map (·.mapSite move))).entries = (existing.mapSites move).stack.entries ↔
        Merge.clearWideLast locals = existing.locals ∧
          (Slots.ofList stack).entries = existing.stack.entries := by
      rw [hclear, hvalues]
      exact and_congr hinjective.list_map.eq_iff hentry.list_map.eq_iff
    rw [apply_ite (Option.map _)]
    refine if_congr hsame.symm rfl (congrArg some ?_)
    exact Frame.mk.injEq .. |>.mpr ⟨hclear.symm, hvalues.symm⟩

end

end ClassInstrument
