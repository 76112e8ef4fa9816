import ClassInstrument.Assembly.Basic
import ClassInstrument.Proofs.Assembly.Reaching
import ClassInstrument.Proofs.Pool.Interning

/-!
# Writing jumps that are in range

A distance is refused if it does not fit into its bytes.  Four bytes hold every distance in a method that is
not too long, so what is refused can only be a short jump; if all of those are in range, writing the
instructions never fails for that reason (`Body.InRange.never_write`).
-/

namespace ClassInstrument

open Interning Outcome

namespace Layout

variable {pool : Pool} {start stop : ℕ} {located : List (Instruction × ℕ)}

/-- What is laid out lies between the offsets. -/
theorem Lays.bounds (h : Lays pool start located stop) :
    start ≤ stop ∧ ∀ entry ∈ located, start ≤ entry.2 ∧ entry.2 ≤ stop := by
  induction h with
  | nil => exact ⟨le_rfl, by simp⟩
  | cons first _ ih =>
    obtain ⟨hle, hothers⟩ := ih
    refine ⟨by omega, fun entry hmem => ?_⟩
    rcases List.mem_cons.mp hmem with rfl | hmem
    · exact ⟨le_rfl, by omega⟩
    · have := hothers entry hmem
      omega

/-- A label lies within the code or right behind it. -/
theorem find_le {instructions : List Instruction} {offsets : Offsets}
    (h : (Layout.offsets instructions).Settled pool offsets) {label : Label} {place : ℕ}
    (hfind : (offsets.labels instructions).find label = .ok place) : place ≤ offsets.length := by
  rw [Placements.find_eq_ok, Offsets.labels, Placements.getElem?_ofList_eq_some] at hfind
  obtain ⟨i, here, -⟩ := hfind
  exact ((lays_of_offsets h).2.2.bounds.2 _ (List.mem_of_getElem? here)).2

end Layout

/-- A jump was too long for its operand. -/
def Fault.IsOutOfRange (fault : Fault) : Prop := ∃ offset, fault = .malformedCode offset .jumpOutOfRange

namespace Encoding

variable {labels : Placements} {offset : ℕ} {target : Label} {fault : Fault}

/-- A distance is only refused for its length if the label is placed. -/
theorem exists_find_of_distance_ne_ok {operand : ℤ → Except Fault Bytes}
    (h : (distance labels offset target >>= operand) = .error fault) (hrange : fault.IsOutOfRange) :
    ∃ place : ℕ, labels.find target = .ok place ∧ operand ((place : ℤ) - (offset : ℤ)) = .error fault := by
  obtain ⟨at', rfl⟩ := hrange
  unfold distance Placements.find at h
  unfold Placements.find
  cases hplace : labels[target]? with
  | none => simp [hplace, bind, Except.bind] at h
  | some place => exact ⟨place, rfl, by simpa [hplace, bind, Except.bind, pure, Except.pure] using h⟩

/-- A distance that fits into two bytes is not refused. -/
theorem avoids_shortDistance {place : ℕ} (hfind : labels.find target = .ok place)
    (near : -32768 ≤ (place : ℤ) - (offset : ℤ) ∧ (place : ℤ) - (offset : ℤ) ≤ 32767) :
    Avoids Fault.IsOutOfRange (shortDistance labels offset target) := by
  intro fault h hrange
  obtain ⟨place', hfind', hoperand⟩ := exists_find_of_distance_ne_ok h hrange
  obtain rfl := Except.ok.inj (hfind'.symm.trans hfind)
  rw [if_pos near] at hoperand
  cases hoperand

/-- No distance within the longest code is too long for four bytes. -/
theorem avoids_wideDistance (hlabels : ∀ label place, labels.find label = .ok place → place ≤ Assembly.longestCode)
    (hoffset : offset ≤ Assembly.longestCode) :
    Avoids Fault.IsOutOfRange (wideDistance labels offset target) := by
  intro fault h hrange
  obtain ⟨place, hfind, hoperand⟩ := exists_find_of_distance_ne_ok h hrange
  have hplace := hlabels target place hfind
  simp only [Assembly.longestCode] at hplace hoffset
  rw [if_pos (by omega)] at hoperand
  cases hoperand

section

variable {p : Fault → Prop} (hfull : ∀ constant offset, ¬ p (.poolOverflow constant offset))

/-- A call is refused for its descriptor only. -/
theorem avoids_callOperands (hbad : ∀ text, ¬ p (.badDescriptor text)) (opcode : Opcode) (callee : Member) :
    Avoids p (callOperands opcode callee) := by
  unfold callOperands
  split
  · split
    · exact avoids_pure _
    · exact avoids_error.mpr (hbad _)
  · exact avoids_pure _

/-- A dense table is refused for its distances only. -/
theorem avoids_denseTable (hwide : ∀ target, Avoids p (wideDistance labels offset target)) (low : Int32)
    (default : Label) (targets : List Label) : Avoids p (denseTable labels offset low default targets) :=
  (hwide default).bind fun _ => (Avoids.mapM fun target _ => hwide target).bind fun _ => avoids_pure _

/-- A sparse table is refused for its distances only. -/
theorem avoids_sparseTable (hwide : ∀ target, Avoids p (wideDistance labels offset target))
    (default : Label) (pairs : List (Int32 × Label)) : Avoids p (sparseTable labels offset default pairs) :=
  (hwide default).bind fun _ => (Avoids.mapM fun pair _ =>
    (hwide pair.2).bind fun _ => avoids_pure _).bind fun _ => avoids_pure _

include hfull

/-- A class is refused by a full pool only. -/
theorem never_internClass (name : String) : (Pool.internClass name).Never p :=
  (Never.intern _ (hfull _)).bind fun _ => .intern _ (hfull _)

/-- A constant that is pushed is refused by a full pool only. -/
theorem never_internLoadable (constant : Loadable) : constant.intern.Never p := by
  cases constant with
  | int _ | float _ | long _ | double _ => exact .intern _ (hfull _)
  | string _ | methodType _ => exact (Never.intern _ (hfull _)).bind fun _ => .intern _ (hfull _)
  | cls name => exact never_internClass hfull name
  | pooled _ _ => exact .pure _

/-- An instruction is refused by a full pool, for the descriptor of a call, or for its distances only. -/
theorem never_write (hbad : ∀ text, ¬ p (.badDescriptor text))
    (hwide : ∀ target, Avoids p (wideDistance labels offset target)) {instruction : Instruction}
    (hshort : ∀ opcode target, instruction = .jump opcode target → opcode.isWideJump = false →
      Avoids p (shortDistance labels offset target)) : (write labels offset instruction).Never p := by
  have hnameAndType (name descriptor : String) : (Pool.internNameAndType name descriptor).Never p :=
    (Never.intern _ (hfull _)).bind fun _ => (Never.intern _ (hfull _)).bind fun _ => .intern _ (hfull _)
  have hmember (owner name descriptor : String) (build : PoolIndex → PoolIndex → Constant) :
      (do Pool.intern (build (← Pool.internClass owner) (← Pool.internNameAndType name descriptor)) :
        Interning PoolIndex).Never p :=
    (never_internClass hfull owner).bind fun _ => (hnameAndType _ _).bind fun _ => .intern _ (hfull _)
  cases instruction with
  | label _ | line _ | plain _ | int _ _ | var _ _ | increment _ _ | invokeDynamic _ _ => exact .pure _
  | type _ name => exact (never_internClass hfull name).bind fun _ => .pure _
  | multiArray name _ => exact (never_internClass hfull name).bind fun _ => .pure _
  | field _ field => exact (hmember _ _ _ _).bind fun _ => .pure _
  | method opcode callee =>
    exact (hmember _ _ _ _).bind fun _ =>
      (Never.lift (avoids_callOperands hbad opcode callee)).bind fun _ => .pure _
  | load constant => exact (never_internLoadable hfull constant).bind fun _ => .pure _
  | jump opcode target =>
    unfold write
    dsimp only
    split
    · exact (Never.lift (hwide target)).bind fun _ => .pure _
    · next hnarrow =>
      exact (Never.lift (hshort opcode target rfl (by simpa using hnarrow))).bind fun _ => .pure _
  | tableSwitch => exact .lift (avoids_denseTable hwide _ _ _)
  | lookupSwitch => exact .lift (avoids_sparseTable hwide _ _)

end

end Encoding

/-- Writing the instructions of a body never fails for a jump that is too long, if its jumps are in range and
the code is not too long. -/
theorem Body.InRange.never_write {body : Body} {offsets : Layout.Offsets} {pool : Pool}
    (h : body.InRange offsets)
    (hoffsets : (Layout.offsets body.instructions).Settled pool offsets)
    (hlength : offsets.length ≤ Assembly.longestCode) :
    (Encoding.writeAll (offsets.labels body.instructions) (offsets.locate body.instructions)).Never
      Fault.IsOutOfRange := by
  refine Never.bind (Never.mapM fun entry hmem => ?_) fun _ => .pure _
  have hoffset := ((Layout.lays_of_offsets hoffsets).2.2.bounds.2 entry hmem).2
  refine Encoding.never_write (by simp [Fault.IsOutOfRange]) (by simp [Fault.IsOutOfRange])
    (fun target => Encoding.avoids_wideDistance
      (fun label place hfind => (Layout.find_le hoffsets hfind).trans hlength) (hoffset.trans hlength))
    fun opcode target hjump hshort => ?_
  obtain ⟨place, hfind, hnear⟩ := h opcode target entry.2 (by rw [← hjump]; exact hmem) (by
    rintro rfl
    cases hshort)
  exact Encoding.avoids_shortDistance hfind hnear

end ClassInstrument
