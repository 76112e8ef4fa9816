import Mathlib
import ClassInstrument.Policy.Benchmark
import ClassInstrument.Proofs.Outcome

/-!
# The order in which a split constructor runs

A constructor is split into its delegating call, with everything from the first load of the receiver on,
and a rest.  `DelegatingCall.extract?` keeps the order inside both parts.  What stands before the first
load of the receiver belongs to the rest, so it moves behind the delegating call when the two parts run one
after the other: the whole order is kept exactly if the constructor starts with that load.
-/

namespace ClassInstrument

open Instruction Outcome

namespace Body

end Body

namespace DelegatingCall

/-- A list around the item at a position. -/
theorem eq_append_cons_of_getElem? {α : Type} {items : List α} {position : ℕ} {item : α}
    (h : items[position]? = some item) :
    ∃ before after, items = before ++ item :: after ∧ before.length = position := by
  obtain ⟨hlt, rfl⟩ := List.getElem?_eq_some_iff.mp h
  exact ⟨items.take position, items.drop (position + 1), by simp, by simp; omega⟩

/-- A list around the first of its items that passes a test. -/
theorem eq_append_cons_of_findIdx? {α : Type} {items : List α} {passes : α → Bool} {position : ℕ}
    (h : items.findIdx? passes = some position) :
    ∃ before item after, items = before ++ item :: after ∧ before.length = position ∧ passes item ∧
      ∀ other ∈ before, ¬ passes other := by
  obtain ⟨hlt, hpasses, hbefore⟩ := List.findIdx?_eq_some_iff_getElem.mp h
  obtain ⟨before, after, hitems, hlength⟩ := eq_append_cons_of_getElem? (List.getElem?_eq_getElem hlt)
  refine ⟨before, _, after, hitems, hlength, hpasses, fun other hother => ?_⟩
  obtain ⟨j, hj, rfl⟩ := List.mem_iff_getElem.mp hother
  have hsame : items[j]? = some before[j] := by
    rw [hitems, List.getElem?_append_left hj, List.getElem?_eq_getElem hj]
  rw [← (List.getElem?_eq_some_iff.mp hsame).2]
  exact hbefore j (hlength ▸ hj)

variable {body : Body} {owner : String} {superName : Option String}

/-- A candidate is a call of a constructor. -/
theorem exists_callee_of_mem_candidates {created : List String} {placed : List (Instruction × ℕ)}
    {position : ℕ} (h : position ∈ candidates owner superName created placed) :
    ∃ callee, (.method Opcode.invokespecial callee, position) ∈ placed ∧
      Name.isConstructor callee.name := by
  fun_induction candidates owner superName created placed
  case case1 => simp at h
  case case2 ih | case3 ih | case4 ih | case6 ih | case7 ih =>
    obtain ⟨callee, hmem, hname⟩ := ih h
    exact ⟨callee, List.mem_cons_of_mem _ hmem, hname⟩
  case case5 callee _ _ hname _ _ ih =>
    rcases List.mem_cons.mp h with rfl | h
    · exact ⟨callee, List.mem_cons_self, by simpa using hname⟩
    · obtain ⟨callee, hmem, hname⟩ := ih h
      exact ⟨callee, List.mem_cons_of_mem _ hmem, hname⟩

/-- A unique delegating call is a call of a constructor. -/
theorem exists_callee_of_find {call : ℕ} (h : find body owner superName = unique call) :
    ∃ callee, body.instructions[call]? = some (.method Opcode.invokespecial callee) ∧
      Name.isConstructor callee.name := by
  unfold find at h
  split at h
  · simp at h
  · next position hcandidates =>
    obtain rfl := DelegatingCall.unique.inj h
    have hmem : position ∈ candidates owner superName [] body.instructions.zipIdx := by
      simp [hcandidates]
    obtain ⟨callee, hplaced, hname⟩ := exists_callee_of_mem_candidates hmem
    exact ⟨callee, List.mem_zipIdx_iff_getElem?.mp hplaced, hname⟩
  · simp at h

/-- The call stands behind the first load of the receiver, and everything from that load on up to the call
is cut out, but for labels and lines. -/
theorem exists_range {extracted : List Instruction} {rest : Body}
    (h : extract? body owner superName = some (extracted, rest)) :
    ∃ before arguments callee after,
      body.instructions = before ++ .aload 0 :: (arguments ++ .method Opcode.invokespecial callee :: after) ∧
      .aload 0 ∉ before ∧ Name.isConstructor callee.name ∧
      extracted = .aload 0 :: (arguments.filter isReal ++ [.method Opcode.invokespecial callee]) ∧
      rest.instructions = before ++ arguments.filter (fun i => !i.isReal) ++ after := by
  unfold extract? at h
  split at h
  · next call hfind =>
    obtain ⟨callee, hcall, hname⟩ := exists_callee_of_find hfind
    obtain ⟨front, after, hinstructions, hfront⟩ := eq_append_cons_of_getElem? hcall
    split at h
    · next load hload =>
      rw [hinstructions, List.take_left' hfront] at hload
      obtain ⟨before, first, arguments, rfl, hbefore, hfirst, habsent⟩ := eq_append_cons_of_findIdx? hload
      obtain rfl : first = .aload 0 := by simpa using hfirst
      have hsplit : body.instructions =
          before ++ ((.aload 0 :: (arguments ++ [.method Opcode.invokespecial callee])) ++ after) := by
        simp [hinstructions]
      have hlength : before.length + 1 + arguments.length = call := by
        rw [← hfront, List.length_append, List.length_cons]
        omega
      have hcount : (.aload 0 :: (arguments ++ [Instruction.method Opcode.invokespecial callee])).length =
          call + 1 - load := by
        simp only [List.length_cons, List.length_append, List.length_nil]
        omega
      have hrange : (body.instructions.drop load).take (call + 1 - load) =
          .aload 0 :: (arguments ++ [.method Opcode.invokespecial callee]) := by
        rw [hsplit, List.drop_left' hbefore, List.take_left' hcount]
      have htake : body.instructions.take load = before := by rw [hsplit, List.take_left' hbefore]
      have hdrop : body.instructions.drop (call + 1) = after := by
        rw [hsplit, ← List.append_assoc, List.drop_left' (by rw [List.length_append, hcount]; omega)]
      simp only [cutRange, hrange, htake, hdrop, List.partition_eq_filter_filter] at h
      split at h
      · obtain ⟨rfl, rfl⟩ := Prod.mk.inj (Option.some.inj h)
        refine ⟨before, arguments, callee, after, by simp [hinstructions],
          fun hmem => habsent _ hmem (by simp), hname, ?_, ?_⟩
        · simp [List.filter_cons, isReal, aload]
        · simp [isReal, aload, Function.comp_def]
      · simp at h
    · simp at h
  · simp at h

end DelegatingCall

end ClassInstrument
