import Mathlib
import ClassInstrument.Descriptor
import ClassInstrument.Proofs.Outcome

/-!
# Field descriptors and what they spell

`FieldType.read` accepts exactly the rendered forms of types whose class names can be written in a
descriptor, and nothing is lost: the text in front of what is left is the rendering of the type.
The names of class constants round-trip in the same way, and a method descriptor that was parsed is the
rendered form of its types.

The grammars of both kinds of descriptors are stated over characters, apart from any reader.  What is
rendered is in the grammar and what is in the grammar is the rendering of a type, so parsing accepts the
texts of the grammar and no others.
-/

namespace ClassInstrument

open Outcome

namespace FieldType

/-- Can the class names in a type be written in a descriptor?  They must not be empty or hold a
semicolon. -/
def IsRenderable : FieldType → Prop
  | base _ => True
  | object name => name.toList ≠ [] ∧ ';' ∉ name.toList
  | array element => element.IsRenderable

/-- A letter of a primitive type starts no other type. -/
theorem read_letter (type : BaseType) (rest : List Char) :
    read (type.letter :: rest) = .ok (base type, rest) := by
  cases type <;> rfl

/-- A class name is read up to its semicolon. -/
theorem readClassName_append {name : List Char} (hne : name ≠ []) (h : ';' ∉ name)
    (rest : List Char) :
    readClassName (name ++ ';' :: rest) = .ok (object (String.ofList name), rest) := by
  have hall : ∀ c ∈ name, (c != ';') = true := by
    intro c hc
    rw [bne_iff_ne]
    rintro rfl
    exact h hc
  have htake : (name ++ ';' :: rest).takeWhile (· != ';') = name := by
    rw [List.takeWhile_append_of_pos hall]
    simp
  have hdrop : (name ++ ';' :: rest).dropWhile (· != ';') = ';' :: rest := by
    rw [List.dropWhile_append_of_pos hall]
    simp
  simp [readClassName, htake, hdrop, hne]

/-- A rendered type is read back. -/
theorem read_render {type : FieldType} (h : type.IsRenderable) (rest : List Char) :
    read (type.render.toList ++ rest) = .ok (type, rest) := by
  induction type with
  | base type => simpa [render] using read_letter type rest
  | object name =>
    obtain ⟨hne, hname⟩ := h
    have hread := readClassName_append hne hname rest
    simp only [render, String.toList_append, List.append_assoc]
    simpa [read] using hread
  | array element ih =>
    have hread := ih h
    simp only [render, String.toList_append, List.append_assoc]
    simp [read, hread, bind, Except.bind, pure, Except.pure]

/-- A class name that was read is the text in front of a semicolon. -/
theorem eq_of_readClassName {chars rest : List Char} {type : FieldType}
    (h : readClassName chars = .ok (type, rest)) :
    chars = type.render.toList.tail ++ rest ∧ type.IsRenderable ∧ ∃ name, type = object name := by
  unfold readClassName at h
  simp only at h
  split at h
  · simp at h
  · next first tail hdrop =>
    split at h
    · simp at h
    · next hne =>
      simp only [Except.ok.injEq, Prod.mk.injEq] at h
      obtain ⟨rfl, rfl⟩ := h
      have hfirst : first = ';' := by
        have hnot := List.head?_dropWhile_not (p := (· != ';')) chars
        simpa [hdrop] using hnot
      have hsplit := List.takeWhile_append_dropWhile (p := (· != ';')) (l := chars)
      have hmem : ';' ∉ chars.takeWhile (· != ';') := by
        intro hmem
        have := List.mem_takeWhile_imp hmem
        simp at this
      refine ⟨?_, ⟨?_, ?_⟩, _, rfl⟩
      · rw [hdrop, hfirst] at hsplit
        simpa [render] using hsplit.symm
      · simpa using hne
      · simpa using hmem

/-- What was read is the rendering of the type. -/
theorem eq_of_read {chars rest : List Char} {type : FieldType} (h : read chars = .ok (type, rest)) :
    chars = type.render.toList ++ rest ∧ type.IsRenderable := by
  induction chars using read.induct generalizing type rest with
  | case1 => simp [read] at h
  | case2 tail ih =>
    rw [read] at h
    rcases helement : read tail with fault | ⟨element, left⟩
    · simp [helement, bind, Except.bind] at h
    · simp only [helement, bind, Except.bind, pure, Except.pure, Except.ok.injEq,
        Prod.mk.injEq] at h
      obtain ⟨rfl, rfl⟩ := h
      obtain ⟨hchars, hrender⟩ := ih helement
      refine ⟨?_, hrender⟩
      rw [hchars, render]
      simp
  | case3 tail =>
    rw [read] at h
    obtain ⟨hchars, hrender, name, rfl⟩ := eq_of_readClassName h
    refine ⟨?_, hrender⟩
    rw [hchars]
    simp [render]
  | case4 c tail _ _ base hbase =>
    have hread : read (c :: tail) = .ok (.base base, tail) := by
      simp_all [read]
    rw [hread, Except.ok.injEq, Prod.mk.injEq] at h
    obtain ⟨rfl, rfl⟩ := h
    have hletter : c = base.letter := by
      unfold BaseType.ofLetter? at hbase
      split at hbase <;> simp_all [BaseType.letter] <;> subst_vars <;> rfl
    simp [render, hletter, IsRenderable]
  | case5 c tail _ _ hbase => simp_all [read]

/-- A rendered type is parsed back. -/
theorem parse_render {type : FieldType} (h : type.IsRenderable) :
    parse type.render = .ok type := by
  have hread := read_render h []
  rw [List.append_nil] at hread
  simp [parse, hread, bind, Except.bind, pure, Except.pure]

/-- A parsed text is the rendering of its type. -/
theorem eq_of_parse {source : String} {type : FieldType} (h : parse source = .ok type) :
    type.render = source ∧ type.IsRenderable := by
  unfold parse at h
  rcases hread : read source.toList with fault | ⟨found, rest⟩
  · simp [hread, bind, Except.bind] at h
  · cases rest with
    | nil =>
      obtain rfl : found = type := by simpa [hread, bind, Except.bind, pure, Except.pure] using h
      obtain ⟨hchars, hrender⟩ := eq_of_read hread
      rw [List.append_nil] at hchars
      exact ⟨(String.toList_inj.mp hchars).symm, hrender⟩
    | cons c rest => simp [hread, bind, Except.bind] at h

/-! ## The grammar of field types -/

/-- The texts of types that are no arrays: one of the primitive letters, or a class name between `L`
and a semicolon. -/
inductive IsElementText : List Char → Prop where
  /-- A primitive type is a single letter. -/
  | letter (c : Char) (hletter : c ∈ ['B', 'C', 'D', 'F', 'I', 'J', 'S', 'Z']) : IsElementText [c]
  /-- A class name is not empty and holds no semicolon. -/
  | className (name : List Char) (hne : name ≠ []) (hname : ';' ∉ name) :
      IsElementText ('L' :: name ++ [';'])

/-- The texts of field types: brackets and the text of an element behind them. -/
def IsTypeText (chars : List Char) : Prop :=
  ∃ dimensions element, IsElementText element ∧ chars = List.replicate dimensions '[' ++ element

/-- A rendered type is in the grammar. -/
theorem isTypeText_render {type : FieldType} (h : type.IsRenderable) :
    IsTypeText type.render.toList := by
  induction type with
  | base type => exact ⟨0, [type.letter], .letter _ (by cases type <;> decide), by simp [render]⟩
  | object name => exact ⟨0, _, .className name.toList h.1 h.2, by simp [render]⟩
  | array element ih =>
    obtain ⟨dimensions, text, htext, hrender⟩ := ih h
    exact ⟨dimensions + 1, text, htext, by simp [render, hrender, List.replicate_succ]⟩

/-- What is in the grammar is the rendering of a type. -/
theorem exists_render_of_isTypeText {chars : List Char} (h : IsTypeText chars) :
    ∃ type : FieldType, type.IsRenderable ∧ type.render.toList = chars := by
  obtain ⟨dimensions, element, helement, rfl⟩ := h
  induction dimensions with
  | zero =>
    cases helement with
    | letter c hletter =>
      obtain ⟨type, rfl⟩ : ∃ type : BaseType, type.letter = c := by
        revert c
        simp only [List.forall_mem_cons]
        exact ⟨⟨.byte, rfl⟩, ⟨.char, rfl⟩, ⟨.double, rfl⟩, ⟨.float, rfl⟩, ⟨.int, rfl⟩,
          ⟨.long, rfl⟩, ⟨.short, rfl⟩, ⟨.boolean, rfl⟩, by simp⟩
      exact ⟨base type, trivial, by simp [render]⟩
    | className name hne hname =>
      exact ⟨object (String.ofList name), by simpa [IsRenderable] using ⟨hne, hname⟩, by simp [render]⟩
  | succ dimensions ih =>
    obtain ⟨type, hrenderable, hrender⟩ := ih
    exact ⟨array type, hrenderable, by simp [render, hrender, List.replicate_succ]⟩

/-- A text is parsed if and only if it is in the grammar. -/
theorem exists_parse_iff {source : String} :
    (∃ type, parse source = .ok type) ↔ IsTypeText source.toList := by
  constructor
  · rintro ⟨type, hparse⟩
    obtain ⟨rfl, hrenderable⟩ := eq_of_parse hparse
    exact isTypeText_render hrenderable
  · intro htext
    obtain ⟨type, hrenderable, hrender⟩ := exists_render_of_isTypeText htext
    obtain rfl : type.render = source := String.toList_inj.mp hrender
    exact ⟨type, parse_render hrenderable⟩

/-- No type begins with a closing parenthesis or with the letter of a missing result. -/
theorem render_eq_cons (type : FieldType) :
    ∃ c tail, type.render.toList = c :: tail ∧ c ≠ ')' ∧ c ≠ 'V' := by
  cases type with
  | base type => exact ⟨type.letter, [], by simp [render], by cases type <;> decide,
      by cases type <;> decide⟩
  | object name => exact ⟨'L', _, by simp [render]; rfl, by decide, by decide⟩
  | array element => exact ⟨'[', _, by simp [render]; rfl, by decide, by decide⟩

/-! ## Names of class constants -/

/-- Does the name of a class constant stand for the type? -/
def IsNamed : FieldType → Prop
  | base _ => False
  | object name => name.toList.head? ≠ some '['
  | array element => element.IsRenderable

/-- The name of a class constant stands for the type it was made of. -/
theorem ofClassConstantName_of_isNamed {type : FieldType} {name : String} (h : type.IsNamed)
    (hname : type.classConstantName? = some name) : ofClassConstantName name = .ok type := by
  cases type with
  | base _ => simp [IsNamed] at h
  | object other =>
    obtain rfl : other = name := by simpa [classConstantName?] using hname
    simp only [IsNamed] at h
    unfold ofClassConstantName
    split
    · next heq => simp [heq] at h
    · rfl
  | array element =>
    obtain rfl : (array element).render = name := by simpa [classConstantName?] using hname
    have hparse : parse (array element).render = .ok (array element) := parse_render h
    unfold ofClassConstantName
    split
    · exact hparse
    · next hne => exact absurd (by simp [render]) (hne (element.render.toList))

/-- The type that a class constant stands for has the name of the constant. -/
theorem eq_of_ofClassConstantName {name : String} {type : FieldType}
    (h : ofClassConstantName name = .ok type) :
    type.classConstantName? = some name ∧ type.IsNamed := by
  unfold ofClassConstantName at h
  split at h
  · next rest hname =>
    obtain ⟨hrender, hrenderable⟩ := eq_of_parse h
    cases type with
    | base base =>
      rw [← hrender] at hname
      cases base <;> simp [render, BaseType.letter] at hname
    | object other =>
      rw [← hrender] at hname
      simp [render] at hname
    | array element => exact ⟨by rw [classConstantName?, hrender], hrenderable⟩
  · next hne =>
    obtain rfl : object name = type := by simpa using h
    refine ⟨rfl, fun hhead => ?_⟩
    obtain ⟨rest, hrest⟩ := List.head?_eq_some_iff.mp hhead
    exact hne rest hrest

end FieldType

/-! ## Method descriptors -/

namespace MethodDescriptor

/-- Can the class names in a method descriptor be written? -/
structure IsRenderable (descriptor : MethodDescriptor) : Prop where
  /-- Those of the parameters can. -/
  parameters : ∀ type ∈ descriptor.parameters, type.IsRenderable
  /-- Those of the result can. -/
  result : ∀ type ∈ descriptor.result, type.IsRenderable

/-- Each type takes at least one character. -/
theorem length_le_join_render (types : List FieldType) :
    types.length ≤ (String.join (types.map FieldType.render)).toList.length := by
  induction types with
  | nil => simp
  | cons type types ih =>
    obtain ⟨c, tail, hrender, _⟩ := type.render_eq_cons
    rw [List.map_cons, String.join_cons, String.toList_append, hrender]
    simp only [List.length_cons, List.length_append]
    omega

/-- Rendered parameter types are read back, one round for each. -/
theorem readParameters_render {rounds : Nat} {types : List FieldType}
    (h : ∀ type ∈ types, type.IsRenderable) (hrounds : types.length ≤ rounds) (rest : List Char) :
    readParameters rounds ((String.join (types.map FieldType.render)).toList ++ ')' :: rest) =
      .ok (types, rest) := by
  induction types generalizing rounds with
  | nil => simp [readParameters]
  | cons type types ih =>
    obtain ⟨rounds, rfl⟩ : ∃ fewer, rounds = fewer + 1 := ⟨rounds - 1, by simp at hrounds; omega⟩
    obtain ⟨htype, htypes⟩ := List.forall_mem_cons.mp h
    have hrest := ih htypes (Nat.le_of_succ_le_succ hrounds)
    rw [List.map_cons, String.join_cons, String.toList_append, List.append_assoc, readParameters]
    · rw [FieldType.read_render htype]
      simp only [bind, Except.bind, hrest, pure, Except.pure]
    · obtain ⟨c, tail, hrender, hc, _⟩ := type.render_eq_cons
      simp [hrender, hc]

/-- A rendered result type is read back. -/
theorem readResult_render {result : Option FieldType} (h : ∀ type ∈ result, type.IsRenderable) :
    readResult (renderResult result).toList = .ok (result, []) := by
  cases result with
  | none => rfl
  | some type =>
    obtain ⟨c, tail, hrender, _, hc⟩ := type.render_eq_cons
    have hread := FieldType.read_render (h type rfl) []
    rw [List.append_nil] at hread
    rw [renderResult, readResult]
    · simp [hread, bind, Except.bind, pure, Except.pure]
    · simp [hrender, hc]

/-- Parameter types that were read are the text in front of a closing parenthesis. -/
theorem eq_of_readParameters {rounds : Nat} {chars rest : List Char} {types : List FieldType}
    (h : readParameters rounds chars = .ok (types, rest)) :
    chars = (String.join (types.map FieldType.render)).toList ++ ')' :: rest ∧
      ∀ type ∈ types, type.IsRenderable := by
  induction rounds, chars using readParameters.induct generalizing types rest with
  | case1 rounds tail =>
    obtain ⟨rfl, rfl⟩ : [] = types ∧ tail = rest := by simpa [readParameters] using h
    simp [String.join]
  | case2 chars hchars => simp [readParameters] at h
  | case3 rounds chars hchars ih =>
    rw [readParameters] at h
    · obtain ⟨⟨type, afterType⟩, htype, h⟩ := bind_eq_ok.mp h
      obtain ⟨⟨others, left⟩, hothers, h⟩ := bind_eq_ok.mp h
      obtain ⟨rfl, rfl⟩ := Prod.mk.inj (pure_eq_ok.mp h)
      obtain ⟨hchars, hrenderable⟩ := FieldType.eq_of_read htype
      obtain ⟨hrest, hothers⟩ := ih _ hothers
      refine ⟨?_, List.forall_mem_cons.mpr ⟨hrenderable, hothers⟩⟩
      rw [hchars, hrest]
      simp
    · exact hchars

/-- A result type that was read is the text in front of what is left. -/
theorem eq_of_readResult {chars rest : List Char} {result : Option FieldType}
    (h : readResult chars = .ok (result, rest)) :
    chars = (renderResult result).toList ++ rest ∧ ∀ type ∈ result, type.IsRenderable := by
  unfold readResult at h
  split at h
  · obtain ⟨rfl, rfl⟩ : none = result ∧ _ = rest := by simpa using h
    exact ⟨rfl, by simp⟩
  · obtain ⟨⟨type, left⟩, htype, h⟩ := bind_eq_ok.mp h
    obtain ⟨rfl, rfl⟩ := Prod.mk.inj (pure_eq_ok.mp h)
    simpa [renderResult] using FieldType.eq_of_read htype

/-- A rendered method descriptor is parsed back. -/
theorem parse_render {descriptor : MethodDescriptor} (h : descriptor.IsRenderable) :
    parse descriptor.render = .ok descriptor := by
  obtain ⟨parameters, result⟩ := descriptor
  have htext : (MethodDescriptor.render ⟨parameters, result⟩).toList =
      '(' :: ((String.join (parameters.map FieldType.render)).toList ++
        ')' :: (renderResult result).toList) := by
    simp [render]
  have hrounds : parameters.length ≤ ((String.join (parameters.map FieldType.render)).toList ++
      ')' :: (renderResult result).toList).length := by
    have hparameters := length_le_join_render parameters
    rw [List.length_append]
    omega
  unfold parse
  simp only [htext]
  rw [readParameters_render h.parameters hrounds]
  simp [readResult_render h.result, bind, Except.bind, pure, Except.pure]

/-- A parsed text is the written form of its method descriptor. -/
theorem eq_of_parse {source : String} {parsed : MethodDescriptor}
    (h : parse source = .ok parsed) : parsed.render = source ∧ parsed.IsRenderable := by
  unfold parse at h
  split at h
  · next chars hsource =>
    obtain ⟨⟨parameters, afterParameters⟩, hparameters, h⟩ := bind_eq_ok.mp h
    obtain ⟨⟨result, left⟩, hresult, h⟩ := bind_eq_ok.mp h
    dsimp only at h
    split at h
    · obtain rfl := pure_eq_ok.mp h
      obtain ⟨hchars, hrenderable⟩ := eq_of_readParameters hparameters
      obtain ⟨hafter, hrenderable'⟩ := eq_of_readResult hresult
      refine ⟨String.toList_inj.mp ?_, hrenderable, hrenderable'⟩
      rw [hsource, hchars, hafter]
      simp [render]
    · simp [throw, throwThe, MonadExceptOf.throw] at h
  · simp [throw, throwThe, MonadExceptOf.throw] at h

/-! ## The grammar of method descriptors -/

/-- The texts of method descriptors: field types between parentheses, and behind them a field type or
`V`. -/
def IsMethodText (chars : List Char) : Prop :=
  ∃ (parameters : List (List Char)) (result : List Char),
    (∀ text ∈ parameters, FieldType.IsTypeText text) ∧
      (result = ['V'] ∨ FieldType.IsTypeText result) ∧
        chars = '(' :: parameters.flatten ++ ')' :: result

/-- A rendered method descriptor is in the grammar. -/
theorem isMethodText_render {descriptor : MethodDescriptor} (h : descriptor.IsRenderable) :
    IsMethodText descriptor.render.toList := by
  refine ⟨descriptor.parameters.map fun type => type.render.toList,
    (renderResult descriptor.result).toList, ?_, ?_, ?_⟩
  · intro text htext
    obtain ⟨type, htype, rfl⟩ := List.mem_map.mp htext
    exact FieldType.isTypeText_render (h.parameters type htype)
  · rcases hresult : descriptor.result with _ | type
    · exact .inl rfl
    · exact .inr (FieldType.isTypeText_render (h.result type hresult))
  · simp [render, List.flatMap_def, Function.comp_def]

/-- What is in the grammar is the rendering of a method descriptor. -/
theorem exists_render_of_isMethodText {chars : List Char} (h : IsMethodText chars) :
    ∃ descriptor : MethodDescriptor, descriptor.IsRenderable ∧ descriptor.render.toList = chars := by
  obtain ⟨texts, resultText, htexts, hresultText, rfl⟩ := h
  obtain ⟨parameters, hparameters, hjoin⟩ : ∃ parameters : List FieldType,
      (∀ type ∈ parameters, type.IsRenderable) ∧
        (String.join (parameters.map FieldType.render)).toList = texts.flatten := by
    induction texts with
    | nil => exact ⟨[], by simp, by simp [String.join]⟩
    | cons text texts ih =>
      obtain ⟨htext, htexts⟩ := List.forall_mem_cons.mp htexts
      obtain ⟨type, hrenderable, hrender⟩ := FieldType.exists_render_of_isTypeText htext
      obtain ⟨types, hrenderables, hjoin⟩ := ih htexts
      refine ⟨type :: types, List.forall_mem_cons.mpr ⟨hrenderable, hrenderables⟩, ?_⟩
      rw [List.map_cons, String.join_cons, String.toList_append, hrender, hjoin, List.flatten_cons]
  obtain ⟨result, hresult, hrender⟩ : ∃ result : Option FieldType,
      (∀ type ∈ result, type.IsRenderable) ∧ (renderResult result).toList = resultText := by
    rcases hresultText with rfl | htext
    · exact ⟨none, by simp, rfl⟩
    · obtain ⟨type, hrenderable, hrender⟩ := FieldType.exists_render_of_isTypeText htext
      exact ⟨some type, by simpa using hrenderable, hrender⟩
  refine ⟨⟨parameters, result⟩, ⟨hparameters, hresult⟩, ?_⟩
  rw [render, String.toList_append, String.toList_append, String.toList_append, hjoin, hrender]
  simp

/-- A text is parsed if and only if it is in the grammar. -/
theorem exists_parse_iff {source : String} :
    (∃ parsed, parse source = .ok parsed) ↔ IsMethodText source.toList := by
  constructor
  · rintro ⟨parsed, hparse⟩
    obtain ⟨rfl, hrenderable⟩ := eq_of_parse hparse
    exact isMethodText_render hrenderable
  · intro htext
    obtain ⟨descriptor, hrenderable, hrender⟩ := exists_render_of_isMethodText htext
    obtain rfl : descriptor.render = source := String.toList_inj.mp hrender
    exact ⟨descriptor, parse_render hrenderable⟩

end MethodDescriptor

/-- **Descriptors are parsed exactly as their grammars spell them.**  Parsing accepts the texts of the
grammars and no others; rendering what was parsed gives the text back, and parsing a rendering gives
the type back if its class names can be written; and the name of a class constant stands for the type
that it was made of. -/
theorem descriptors_follow_their_grammars :
    (∀ source, (∃ type, FieldType.parse source = .ok type) ↔
        FieldType.IsTypeText source.toList) ∧
      (∀ source, (∃ descriptor, MethodDescriptor.parse source = .ok descriptor) ↔
        MethodDescriptor.IsMethodText source.toList) ∧
      (∀ source type, FieldType.parse source = .ok type → type.render = source) ∧
      (∀ source descriptor, MethodDescriptor.parse source = .ok descriptor →
        descriptor.render = source) ∧
      (∀ type : FieldType, type.IsRenderable → FieldType.parse type.render = .ok type) ∧
      (∀ descriptor : MethodDescriptor, descriptor.IsRenderable →
        MethodDescriptor.parse descriptor.render = .ok descriptor) ∧
      ∀ type : FieldType, type.IsRenderable → type.isReference →
        (∀ name, type = .object name → name.toList.head? ≠ some '[') →
          ∃ name, type.classConstantName? = some name ∧
            FieldType.ofClassConstantName name = .ok type := by
  refine ⟨fun _ => FieldType.exists_parse_iff, fun _ => MethodDescriptor.exists_parse_iff,
    fun _ _ h => (FieldType.eq_of_parse h).1, fun _ _ h => (MethodDescriptor.eq_of_parse h).1,
    fun _ h => FieldType.parse_render h, fun _ h => MethodDescriptor.parse_render h, ?_⟩
  intro type hrenderable hreference hname
  cases type with
  | base type => simp [FieldType.isReference] at hreference
  | object name =>
    have hnamed : (FieldType.object name).IsNamed := hname name rfl
    exact ⟨name, rfl, FieldType.ofClassConstantName_of_isNamed hnamed rfl⟩
  | array element =>
    have hnamed : (FieldType.array element).IsNamed := hrenderable
    exact ⟨_, rfl, FieldType.ofClassConstantName_of_isNamed hnamed rfl⟩

/-- A class name may hold parentheses and brackets: `([L(;J)[La)[;` is read back. -/
theorem descriptors_follow_their_grammars_parentheses :
    MethodDescriptor.parse "([L(;J)[La)[;" =
        .ok ⟨[.array (.object "("), .base .long], some (.array (.object "a)["))⟩ ∧
      FieldType.ofClassConstantName "[La)[;" = .ok (.array (.object "a)[")) := by
  obtain ⟨_, _, _, _, _, hmethod, hconstant⟩ := descriptors_follow_their_grammars
  refine ⟨hmethod ⟨[.array (.object "("), .base .long], some (.array (.object "a)["))⟩ ⟨?_, ?_⟩, ?_⟩
  · simp [FieldType.IsRenderable]
  · simp [FieldType.IsRenderable]
  · obtain ⟨name, hname, hparse⟩ := hconstant (.array (.object "a)["))
      (by simp [FieldType.IsRenderable]) rfl (by simp)
    obtain rfl : "[La)[;" = name := Option.some.inj hname
    exact hparse

end ClassInstrument
