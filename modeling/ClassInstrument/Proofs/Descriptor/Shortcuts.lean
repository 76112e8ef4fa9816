import ClassInstrument.Catalog.Fact
import ClassInstrument.Config.Validation
import ClassInstrument.Policy.Editing
import ClassInstrument.Proofs.Descriptor.RoundTrip
import ClassInstrument.Proofs.Execution.Machine

/-!
# What is read off a descriptor without parsing it

The result of a method is read off its descriptor behind the last closing parenthesis, and the parameters
up to the first one.  But a class name may hold parentheses.  So the result is right exactly if no class in
its type has a parenthesis in its name (`resultDescriptor_eq_iff`), and texts of parameters that are equal
may stand for different parameters if both of them are cut inside a name (`parameterText_eq_iff`).
-/

namespace ClassInstrument

open Outcome

/-! ## Texts up to a character and behind it -/

/-- Only what comes first decides how far a text goes up to a character that is in it. -/
theorem takeWhile_append_cons {α : Type} [DecidableEq α] (c : α) (front back : List α) :
    (front ++ c :: back).takeWhile (· != c) = front.takeWhile (· != c) := by
  induction front with
  | nil => simp
  | cons first front ih =>
    simp only [List.cons_append, List.takeWhile_cons, ih]

/-- A text that goes on to its end holds no such character. -/
theorem takeWhile_eq_self_iff {α : Type} [DecidableEq α] {c : α} {text : List α} :
    text.takeWhile (· != c) = text ↔ c ∉ text := by
  rw [List.takeWhile_eq_self_iff]
  refine ⟨fun h hmem => by simpa using h c hmem, fun h other hother => ?_⟩
  exact bne_iff_ne.mpr (ne_of_mem_of_not_mem hother h)

/-- What stands behind the last occurrence of a character is decided behind each occurrence of it. -/
theorem Name.afterLast_append_cons (c : Char) (front back : List Char) :
    afterLast c (front ++ c :: back) = afterLast c back := by
  rw [afterLast, afterLast, List.reverse_append, List.reverse_cons, List.append_assoc,
    List.singleton_append, takeWhile_append_cons]

/-- All of a text stands behind its last occurrence of a character if there is none. -/
theorem Name.afterLast_eq_self_iff {c : Char} {text : List Char} : afterLast c text = text ↔ c ∉ text := by
  rw [afterLast, ← List.reverse_eq_iff.symm, takeWhile_eq_self_iff, List.mem_reverse]

namespace MethodDescriptor

/-- The written forms of the parameters. -/
def parameterChars (descriptor : MethodDescriptor) : List Char :=
  (String.join (descriptor.parameters.map FieldType.render)).toList

/-- The written form of the result. -/
def resultChars (descriptor : MethodDescriptor) : List Char :=
  (renderResult descriptor.result).toList

/-- A descriptor that was parsed, between its parentheses and behind them. -/
theorem toList_of_parse {source : String} {parsed : MethodDescriptor} (h : parse source = .ok parsed) :
    source.toList = '(' :: (parsed.parameterChars ++ ')' :: parsed.resultChars) := by
  rw [← (eq_of_parse h).1]
  simp [render, parameterChars, resultChars]

/-- Two texts with the same types at their starts have the same types. -/
theorem parameters_eq_of_append {first second : List FieldType}
    (hfirst : ∀ type ∈ first, type.IsRenderable) (hsecond : ∀ type ∈ second, type.IsRenderable)
    {rest rest' : List Char}
    (h : (String.join (first.map FieldType.render)).toList ++ ')' :: rest =
      (String.join (second.map FieldType.render)).toList ++ ')' :: rest') : first = second := by
  have hread := readParameters_render hfirst (Nat.le_max_left first.length second.length) rest
  have hread' := readParameters_render hsecond (Nat.le_max_right first.length second.length) rest'
  rw [h, hread'] at hread
  simp only [Except.ok.injEq, Prod.mk.injEq] at hread
  exact hread.1.symm

end MethodDescriptor

/-! ## The result -/

section

variable {descriptor : String} {parsed : MethodDescriptor}

/-- The result is read off behind the last parenthesis of its own written form. -/
theorem toList_resultDescriptor (hparse : MethodDescriptor.parse descriptor = .ok parsed) :
    (resultDescriptor descriptor).toList = Name.afterLast ')' parsed.resultChars := by
  rw [resultDescriptor, String.toList_ofList, MethodDescriptor.toList_of_parse hparse, ← List.cons_append,
    Name.afterLast_append_cons]

/-- The result is read off exactly if its written form holds no parenthesis. -/
theorem resultDescriptor_eq_iff (hparse : MethodDescriptor.parse descriptor = .ok parsed) :
    resultDescriptor descriptor = MethodDescriptor.renderResult parsed.result ↔
      ')' ∉ parsed.resultChars := by
  rw [← String.toList_inj, toList_resultDescriptor hparse]
  exact Name.afterLast_eq_self_iff

end

namespace Editing

/-- The letters that a return instruction other than that for references is chosen by. -/
def resultLetters : List Char := ['V', 'Z', 'B', 'C', 'I', 'S', 'J', 'F', 'D']

/-- What returns zero, null or nothing for a result of some kind. -/
def defaultOf : Option Kind → List Instruction
  | none => [.plain Opcode.returnVoid]
  | some .int => [.plain Opcode.iconst0, .plain Opcode.ireturn]
  | some .long => [.plain Opcode.lconst0, .plain Opcode.lreturn]
  | some .float => [.plain Opcode.fconst0, .plain Opcode.freturn]
  | some .double => [.plain Opcode.dconst0, .plain Opcode.dreturn]
  | some .reference => [.plain Opcode.aconstNull, .plain Opcode.areturn]

variable {descriptor : String} {parsed : MethodDescriptor}

/-- The opcode that is chosen for the return returns. -/
theorem isReturn_returnOpcode (descriptor : String) : (returnOpcode descriptor).isReturn := by
  unfold returnOpcode
  split <;> rfl

/-- A reference is returned unless the result starts with the letter of something else. -/
theorem returnOpcode_eq_areturn_iff :
    returnOpcode descriptor = Opcode.areturn ↔
      ∀ c ∈ (resultDescriptor descriptor).toList.head?, c ∉ resultLetters := by
  unfold returnOpcode
  generalize (resultDescriptor descriptor).toList.head? = first
  split
  case h_10 hV hZ hB hC hI hS hJ hF hD =>
    refine ⟨fun _ c hfirst hmem => ?_, fun _ => rfl⟩
    obtain rfl : first = some c := hfirst
    simp only [resultLetters, List.mem_cons, List.not_mem_nil, or_false] at hmem
    rcases hmem with rfl | rfl | rfl | rfl | rfl | rfl | rfl | rfl | rfl
    exacts [hV rfl, hZ rfl, hB rfl, hC rfl, hI rfl, hS rfl, hJ rfl, hF rfl, hD rfl]
  all_goals exact ⟨fun h => absurd h (by decide), fun h => absurd (by decide) (h _ rfl)⟩

/-- The opcode that returns from a method fits its result. -/
theorem returnOpcode_of_parse (hparse : MethodDescriptor.parse descriptor = .ok parsed)
    (h : ')' ∉ parsed.resultChars) :
    returnOpcode descriptor = Opcode.returning (parsed.result.map FieldType.kind) := by
  rw [returnOpcode, (resultDescriptor_eq_iff hparse).mpr h]
  rcases parsed.result with - | type
  · rfl
  · cases type with
    | base base => cases base <;> rfl
    | object name =>
      simp [MethodDescriptor.renderResult, FieldType.render, FieldType.kind, Opcode.returning]
    | array element =>
      simp [MethodDescriptor.renderResult, FieldType.render, FieldType.kind, Opcode.returning]

/-- A result whose written form holds a parenthesis is a reference. -/
theorem kind_of_mem_resultChars (h : ')' ∈ parsed.resultChars) :
    parsed.result.map FieldType.kind = some .reference := by
  rcases hresult : parsed.result with - | type
  · simp [MethodDescriptor.resultChars, hresult, MethodDescriptor.renderResult] at h
  · cases type with
    | base base =>
      cases base <;>
        simp [MethodDescriptor.resultChars, hresult, MethodDescriptor.renderResult, FieldType.render,
          BaseType.letter] at h
    | object name => rfl
    | array element => rfl

/-- The opcode that returns from a method fits its result exactly if the written form of the result
holds no parenthesis, or no letter of another result behind the last one. -/
theorem returnOpcode_eq_iff (hparse : MethodDescriptor.parse descriptor = .ok parsed) :
    returnOpcode descriptor = Opcode.returning (parsed.result.map FieldType.kind) ↔
      ')' ∉ parsed.resultChars ∨
        ∀ c ∈ (Name.afterLast ')' parsed.resultChars).head?, c ∉ resultLetters := by
  by_cases hmem : ')' ∈ parsed.resultChars
  · rw [kind_of_mem_resultChars hmem, ← toList_resultDescriptor hparse, or_iff_right (not_not.mpr hmem)]
    exact returnOpcode_eq_areturn_iff
  · exact ⟨fun _ => .inl hmem, fun _ => returnOpcode_of_parse hparse hmem⟩

/-- A default return returns zero, null or nothing for a result exactly if its opcode fits the result. -/
theorem defaultReturn_eq_iff {kind : Option Kind} :
    defaultReturn descriptor = defaultOf kind ↔ returnOpcode descriptor = Opcode.returning kind := by
  constructor
  · intro h
    have hlast := congrArg List.getLast? h
    rw [defaultReturn, List.map_append, List.map_singleton, List.getLast?_concat] at hlast
    rcases kind with - | kind
    · exact Instruction.plain.inj (Option.some.inj hlast)
    · cases kind <;> exact Instruction.plain.inj (Option.some.inj hlast)
  · intro h
    rw [defaultReturn, h]
    rcases kind with - | kind
    · rfl
    · cases kind <;> rfl

end Editing

/-! ## The parameters -/

namespace Validation

variable {descriptor descriptor' : String} {parsed parsed' : MethodDescriptor}

/-- The text of the parameters stops behind their first parenthesis. -/
theorem toList_parameterText (hparse : MethodDescriptor.parse descriptor = .ok parsed) :
    (parameterText descriptor).toList =
      '(' :: (parsed.parameterChars.takeWhile (· != ')') ++ [')']) := by
  have hfront : descriptor.toList.takeWhile (· != ')') =
      '(' :: parsed.parameterChars.takeWhile (· != ')') := by
    rw [MethodDescriptor.toList_of_parse hparse, ← List.cons_append, takeWhile_append_cons]
    rfl
  have hshorter : ('(' :: parsed.parameterChars.takeWhile (· != ')')).length < descriptor.toList.length := by
    have hle := (List.takeWhile_sublist (l := parsed.parameterChars) (p := (· != ')'))).length_le
    rw [MethodDescriptor.toList_of_parse hparse, List.length_cons, List.length_cons, List.length_append,
      List.length_cons]
    omega
  rw [parameterText, hfront, if_pos hshorter, String.toList_ofList, List.cons_append]

/-- Texts of parameters without parentheses in their names are those of the same parameters only. -/
theorem parameters_eq_of_parameterText (hparse : MethodDescriptor.parse descriptor = .ok parsed)
    (hparse' : MethodDescriptor.parse descriptor' = .ok parsed') (hplain : ')' ∉ parsed.parameterChars)
    (h : parsed.parameterChars.takeWhile (· != ')') = parsed'.parameterChars.takeWhile (· != ')')) :
    parsed.parameters = parsed'.parameters := by
  rw [takeWhile_eq_self_iff.mpr hplain] at h
  obtain ⟨rest, hrest⟩ : ∃ rest, parsed'.parameterChars ++ ')' :: parsed'.resultChars =
      parsed.parameterChars ++ ')' :: rest := by
    obtain ⟨front, rest, hsplit, hfront⟩ := List.eq_append_cons_of_mem
      (show ')' ∈ parsed'.parameterChars ++ ')' :: parsed'.resultChars by simp)
    have hfirst := congrArg (List.takeWhile (· != ')')) hsplit
    rw [takeWhile_append_cons, takeWhile_append_cons, takeWhile_eq_self_iff.mpr hfront, ← h] at hfirst
    exact ⟨rest, by rw [hsplit, hfirst]⟩
  exact (MethodDescriptor.parameters_eq_of_append (MethodDescriptor.eq_of_parse hparse').2.parameters
    (MethodDescriptor.eq_of_parse hparse).2.parameters hrest).symm

/-- Texts of parameters are equal exactly if the parameters are, or if both are cut inside a name and agree
up to there. -/
theorem parameterText_eq_iff (hparse : MethodDescriptor.parse descriptor = .ok parsed)
    (hparse' : MethodDescriptor.parse descriptor' = .ok parsed') :
    parameterText descriptor = parameterText descriptor' ↔
      parsed.parameters = parsed'.parameters ∨
        ')' ∈ parsed.parameterChars ∧ ')' ∈ parsed'.parameterChars ∧
          parsed.parameterChars.takeWhile (· != ')') = parsed'.parameterChars.takeWhile (· != ')') := by
  have htext : parameterText descriptor = parameterText descriptor' ↔
      parsed.parameterChars.takeWhile (· != ')') = parsed'.parameterChars.takeWhile (· != ')') := by
    rw [← String.toList_inj, toList_parameterText hparse, toList_parameterText hparse']
    simp
  rw [htext]
  constructor
  · intro h
    by_cases hmem : ')' ∈ parsed.parameterChars
    · by_cases hmem' : ')' ∈ parsed'.parameterChars
      · exact .inr ⟨hmem, hmem', h⟩
      · exact .inl (parameters_eq_of_parameterText hparse' hparse hmem' h.symm).symm
    · exact .inl (parameters_eq_of_parameterText hparse hparse' hmem h)
  · rintro (h | ⟨-, -, h⟩)
    · rw [MethodDescriptor.parameterChars, MethodDescriptor.parameterChars, h]
    · exact h

end Validation

/-! ## All of them together -/

/-- **What is read off a descriptor agrees with what is parsed if no class name gets in the way.**  The
result is read off exactly if its written form holds no closing parenthesis; the return opcode and the
default return fit the result exactly if, moreover or instead, no letter of another result stands behind the
last one; and the texts of the parameters of two methods are equal exactly if the parameters are, or if both
texts are cut inside the name of a class and agree up to there. -/
theorem shortcuts_of_parse {descriptor : String} {parsed : MethodDescriptor}
    (hparse : MethodDescriptor.parse descriptor = .ok parsed) :
    let kind := parsed.result.map FieldType.kind
    let fits := ')' ∉ parsed.resultChars ∨
      ∀ c ∈ (Name.afterLast ')' parsed.resultChars).head?, c ∉ Editing.resultLetters
    (resultDescriptor descriptor = MethodDescriptor.renderResult parsed.result ↔
        ')' ∉ parsed.resultChars) ∧
      (∀ fact : MethodFact, fact.signature.descriptor = descriptor →
        (fact.resultDescriptor = MethodDescriptor.renderResult parsed.result ↔
          ')' ∉ parsed.resultChars)) ∧
      (Editing.returnOpcode descriptor = Opcode.returning kind ↔ fits) ∧
      (Editing.defaultReturn descriptor = Editing.defaultOf kind ↔ fits) ∧
      ∀ (other : String) (parsed' : MethodDescriptor), MethodDescriptor.parse other = .ok parsed' →
        (Validation.parameterText descriptor = Validation.parameterText other ↔
          parsed.parameters = parsed'.parameters ∨
            ')' ∈ parsed.parameterChars ∧ ')' ∈ parsed'.parameterChars ∧
              parsed.parameterChars.takeWhile (· != ')') =
                parsed'.parameterChars.takeWhile (· != ')')) := by
  intro kind fits
  refine ⟨resultDescriptor_eq_iff hparse, ?_, Editing.returnOpcode_eq_iff hparse,
    Editing.defaultReturn_eq_iff.trans (Editing.returnOpcode_eq_iff hparse),
    fun other parsed' hparse' => Validation.parameterText_eq_iff hparse hparse'⟩
  rintro fact rfl
  exact resultDescriptor_eq_iff hparse

/-- A method that returns an object of a class named `a)I` seems to return a number, and parameters of
classes named `a)b` and `a)c` seem to be the same with whatever follows; the descriptor of a method without
such names is read off as it is parsed. -/
theorem shortcuts_of_parse_parentheses :
    (resultDescriptor "()La)I;" ≠ "La)I;" ∧ Editing.returnOpcode "()La)I;" ≠ Opcode.areturn ∧
        Editing.defaultReturn "()La)I;" ≠ Editing.defaultOf (some .reference)) ∧
      Validation.parameterText "(La)b;I)V" = Validation.parameterText "(La)c;J)V" ∧
      resultDescriptor "([La;J)[D" = "[D" ∧ Editing.returnOpcode "([La;J)[D" = Opcode.areturn := by
  obtain ⟨hresult, -, hopcode, hdefault, -⟩ :=
    @shortcuts_of_parse "()La)I;" ⟨[], some (.object "a)I")⟩ rfl
  obtain ⟨-, -, -, -, hparameters⟩ :=
    @shortcuts_of_parse "(La)b;I)V" ⟨[.object "a)b", .base .int], none⟩ rfl
  obtain ⟨hplain, -, hplainOpcode, -, -⟩ :=
    @shortcuts_of_parse "([La;J)[D" ⟨[.array (.object "a"), .base .long], some (.array (.base .double))⟩ rfl
  have hmisread : ¬ (')' ∉ ['L', 'a', ')', 'I', ';'] ∨
      ∀ c ∈ (Name.afterLast ')' ['L', 'a', ')', 'I', ';']).head?, c ∉ Editing.resultLetters) := by
    rintro (h | h)
    · exact h (by simp)
    · exact h 'I' rfl (by decide)
  refine ⟨⟨fun h => hresult.mp h (by decide), fun h => hmisread (hopcode.mp h),
    fun h => hmisread (hdefault.mp h)⟩, ?_, hplain.mpr (by decide), hplainOpcode.mpr (.inl (by decide))⟩
  exact (hparameters "(La)c;J)V" ⟨[.object "a)c", .base .long], none⟩ rfl).mpr
    (.inr ⟨by decide, by decide, by decide⟩)

end ClassInstrument
