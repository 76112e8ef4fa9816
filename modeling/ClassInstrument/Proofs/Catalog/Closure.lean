import Mathlib
import ClassInstrument.Catalog.Basic

/-!
# Closures are what can be reached

A catalog keeps the first of all declarations of a class.  The walk that `Catalog.spread` does takes up pending names
one after the other, also such that it knows already, and goes round in circles where the supertypes do.  What it has
found is closed under supertypes but for what is still pending, so what is found at the end is exactly what can be
reached (`Catalog.mem_closure`).

A closure is an ascending list, hence determined by its members.  So nothing but the first declarations of the classes
decides about it, in whatever order they are registered (`Catalog.closures_ofList`).
-/

namespace ClassInstrument

/-! ## Ascending names -/

namespace NameTable

variable {α : Type} {name other : String} {value : α} {table : NameTable α}

theorem mem_map_fst_insert :
    other ∈ (insert name value table).map Prod.fst ↔ other = name ∨ other ∈ table.map Prod.fst := by
  induction table with
  | nil => simp [insert]
  | cons entry rest ih =>
    obtain ⟨key, old⟩ := entry
    unfold insert
    split
    · next hsame => simp [hsame]
    · split
      · simp
      · simp only [List.map_cons, List.mem_cons, ih]
        tauto

/-- A table stays in ascending order when a name is entered. -/
theorem pairwise_insert (h : (table.map Prod.fst).Pairwise (· < ·)) :
    ((insert name value table).map Prod.fst).Pairwise (· < ·) := by
  induction table with
  | nil => simp [insert]
  | cons entry rest ih =>
    obtain ⟨key, old⟩ := entry
    obtain ⟨hfirst, hrest⟩ := List.pairwise_cons.mp h
    unfold insert
    split
    · next hsame => exact hsame ▸ h
    · next hne =>
      split
      · next hlt =>
        exact List.pairwise_cons.mpr
          ⟨List.forall_mem_cons.mpr ⟨hlt, fun other hmem => hlt.trans (hfirst other hmem)⟩, h⟩
      · next hle =>
        refine List.pairwise_cons.mpr ⟨fun other hmem => ?_, ih hrest⟩
        rcases mem_map_fst_insert.mp hmem with rfl | hmem
        · exact lt_of_le_of_ne (not_lt.mp hle) (Ne.symm hne)
        · exact hfirst other hmem

end NameTable

theorem mem_sortedNames {names : List String} {name : String} : name ∈ sortedNames names ↔ name ∈ names := by
  have hfold (entries : List (String × Unit)) (table : NameTable Unit) :
      name ∈ (entries.foldl (fun table (name, value) => table.insert name value) table).map Prod.fst ↔
        name ∈ entries.map Prod.fst ∨ name ∈ table.map Prod.fst := by
    induction entries generalizing table with
    | nil => simp
    | cons entry entries ih =>
      rw [List.foldl_cons, ih, NameTable.mem_map_fst_insert, List.map_cons, List.mem_cons]
      tauto
  rw [sortedNames, NameTable.ofList, hfold]
  simp

/-- Sorted names are in ascending order, without repetitions. -/
theorem pairwise_sortedNames (names : List String) : (sortedNames names).Pairwise (· < ·) := by
  have hfold (entries : List (String × Unit)) (table : NameTable Unit) (h : (table.map Prod.fst).Pairwise (· < ·)) :
      ((entries.foldl (fun table (name, value) => table.insert name value) table).map Prod.fst).Pairwise (· < ·) := by
    induction entries generalizing table with
    | nil => exact h
    | cons entry entries ih => exact ih _ (NameTable.pairwise_insert h)
  exact hfold _ [] .nil

/-- Ascending lists of the same names are the same. -/
theorem eq_of_ascending {left right : List String} (hleft : left.Pairwise (· < ·)) (hright : right.Pairwise (· < ·))
    (h : ∀ name, name ∈ left ↔ name ∈ right) : left = right := by
  have hperm : left.Perm right := (List.perm_ext_iff_of_nodup (hleft.imp ne_of_lt) (hright.imp ne_of_lt)).mpr h
  exact hperm.eq_of_pairwise (fun _ _ _ _ hlt hgt => absurd (hlt.trans hgt) (lt_irrefl _)) hleft hright

/-! ## Override slots -/

namespace MethodAccess

theorem and_eq_ite (bits : UInt16) {mask : UInt16} {n : ℕ} (hmask : mask.toNat = 2 ^ n) :
    bits &&& mask = if bits &&& mask == mask then mask else 0 := by
  have hbits : (bits &&& mask).toNat = (bits.toNat.testBit n).toNat * 2 ^ n := by
    rw [UInt16.toNat_and, hmask, Nat.and_two_pow]
  cases hbit : bits.toNat.testBit n with
  | true =>
    have hset : bits &&& mask = mask := UInt16.toNat_inj.mp (by rw [hbits, hbit, hmask]; simp)
    simp [hset]
  | false =>
    have hclear : bits &&& mask = 0 := UInt16.toNat_inj.mp (by rw [hbits, hbit]; simp)
    simp [hclear]

/-- Two methods agree in the flags that matter for overriding if they are both private or both not, and both static or
both not. -/
theorem overrideBits_eq_iff {left right : MethodAccess} : left.overrideBits = right.overrideBits ↔
    left.isPrivate = right.isPrivate ∧ left.isStatic = right.isStatic := by
  have hflags (access : MethodAccess) : access.overrideBits =
      (if access.isPrivate then 0x0002 else 0) ||| (if access.isStatic then 0x0008 else 0) := by
    have hmask : access.bits &&& 0x000A = access.bits &&& 0x0002 ||| access.bits &&& 0x0008 :=
      UInt16.toNat_inj.mp (by simpa using Nat.and_or_distrib_left access.bits.toNat 2 8)
    rw [overrideBits, hmask, and_eq_ite _ (show (0x0002 : UInt16).toNat = 2 ^ 1 from rfl),
      and_eq_ite _ (show (0x0008 : UInt16).toNat = 2 ^ 3 from rfl)]
    rfl
  rw [hflags, hflags]
  cases left.isPrivate <;> cases left.isStatic <;> cases right.isPrivate <;> cases right.isStatic <;> decide

end MethodAccess

/-- A method is in the override slot of a signature: it has its name and its descriptor, is private if that is, and
static if that is. -/
structure Method.InSlot (method : Method) (signature : Signature) : Prop where
  name_eq : method.name = signature.name
  descriptor_eq : method.descriptor = signature.descriptor
  isPrivate_eq : method.access.isPrivate = signature.access.isPrivate
  isStatic_eq : method.access.isStatic = signature.access.isStatic

theorem Signature.sameSlot_iff {left right : Signature} : left.sameSlot right ↔
    left.name = right.name ∧ left.descriptor = right.descriptor ∧
      left.access.isPrivate = right.access.isPrivate ∧ left.access.isStatic = right.access.isStatic := by
  rw [sameSlot, Bool.and_eq_true, Bool.and_eq_true, beq_iff_eq, beq_iff_eq, beq_iff_eq,
    MethodAccess.overrideBits_eq_iff, and_assoc]

theorem Method.inSlot_iff {method : Method} {signature : Signature} :
    method.InSlot signature ↔ signature.sameSlot (.ofMethod method) := by
  rw [Signature.sameSlot_iff]
  exact ⟨fun h => ⟨h.name_eq.symm, h.descriptor_eq.symm, h.isPrivate_eq.symm, h.isStatic_eq.symm⟩,
    fun ⟨hname, hdescriptor, hprivate, hstatic⟩ => ⟨hname.symm, hdescriptor.symm, hprivate.symm, hstatic.symm⟩⟩

instance (method : Method) (signature : Signature) : Decidable (method.InSlot signature) :=
  decidable_of_iff _ Method.inSlot_iff.symm

/-! ## Annotations that are kept -/

namespace Annotation

variable {marker : String} {kept marks : List Annotation}

theorem isSome_find?_iff : (find? marker marks).isSome ↔ ∃ mark ∈ marks, mark.descriptor = marker := by
  simp [find?]

/-- An annotation is kept if there is one with its descriptor. -/
theorem isSome_find?_firstOfEach :
    (find? marker (firstOfEach marks)).isSome ↔ ∃ mark ∈ marks, mark.descriptor = marker := by
  have hfold (step : List Annotation → Annotation → List Annotation)
      (hkeep : ∀ kept mark, (find? mark.descriptor kept).isSome → step kept mark = kept)
      (hadd : ∀ kept mark, find? mark.descriptor kept = none → step kept mark = kept ++ [mark.tabled])
      (kept : List Annotation) : (∃ mark ∈ marks.foldl step kept, mark.descriptor = marker) ↔
        (∃ mark ∈ kept, mark.descriptor = marker) ∨ ∃ mark ∈ marks, mark.descriptor = marker := by
    induction marks generalizing kept with
    | nil => simp
    | cons mark marks ih =>
      rw [List.foldl_cons, ih, List.exists_mem_cons_iff]
      by_cases hknown : (find? mark.descriptor kept).isSome
      · rw [hkeep _ _ hknown]
        constructor
        · exact Or.imp_right .inr
        · rintro (h | rfl | h)
          exacts [.inl h, .inl (isSome_find?_iff.mp hknown), .inr h]
      · rw [hadd _ _ (Option.not_isSome_iff_eq_none.mp hknown)]
        simp [tabled, or_and_right, exists_or, or_assoc]
  refine isSome_find?_iff.trans ((hfold _ ?_ ?_ []).trans (by simp))
  · intro kept mark hknown
    obtain ⟨found, hfound⟩ := Option.isSome_iff_exists.mp hknown
    simp only [hfound]
  · intro kept mark hnew
    simp only [hnew]

end Annotation

/-! ## Walks -/

namespace Catalog

variable {catalog : Catalog} {pending found : List String} {name other super : String}

/-- A registered class has another one as its superclass or as one of its interfaces. -/
def Mentions (catalog : Catalog) (name super : String) : Prop := super ∈ catalog.supertypes name

/-- A class is another one, or stands below it. -/
abbrev Reaches (catalog : Catalog) : String → String → Prop := Relation.ReflTransGen catalog.Mentions

/-- A walk loses nothing. -/
theorem subset_spread (pending found : List String) :
    found ⊆ catalog.spread pending found ∧ pending ⊆ catalog.spread pending found := by
  fun_induction spread catalog pending found with
  | case1 found => simp
  | case2 found name pending hknown ih =>
    have hmem : name ∈ found := by simpa using hknown
    exact ⟨ih.1, List.cons_subset.mpr ⟨ih.1 hmem, ih.2⟩⟩
  | case3 found name pending hnew ih =>
    obtain ⟨hname, hfound⟩ := List.cons_subset.mp ih.1
    exact ⟨hfound, List.cons_subset.mpr ⟨hname, List.Subset.trans (List.subset_append_left _ _) ih.2⟩⟩

/-- A walk finds only what can be reached. -/
theorem reaches_of_mem_spread (h : other ∈ catalog.spread pending found) :
    other ∈ found ∨ ∃ start ∈ pending, catalog.Reaches start other := by
  fun_induction spread catalog pending found with
  | case1 found => exact .inl h
  | case2 found name pending hknown ih =>
    rcases ih h with hfound | ⟨start, hstart, hreach⟩
    · exact .inl hfound
    · exact .inr ⟨start, List.mem_cons_of_mem _ hstart, hreach⟩
  | case3 found name pending hnew ih =>
    rcases ih h with hfound | ⟨start, hstart, hreach⟩
    · rcases List.mem_cons.mp hfound with rfl | hfound
      · exact .inr ⟨other, List.mem_cons_self, .refl⟩
      · exact .inl hfound
    · rcases List.mem_append.mp hstart with hstart | hmentions
      · exact .inr ⟨start, List.mem_cons_of_mem _ hstart, hreach⟩
      · exact .inr ⟨name, List.mem_cons_self, .head hmentions hreach⟩

/-- What a walk finds is closed under supertypes, if the supertypes of what was found before are pending. -/
theorem mem_spread_of_mentions
    (hopen : ∀ name ∈ found, ∀ super, catalog.Mentions name super → super ∈ found ∨ super ∈ pending)
    (hname : name ∈ catalog.spread pending found) (h : catalog.Mentions name super) :
    super ∈ catalog.spread pending found := by
  fun_induction spread catalog pending found with
  | case1 found => exact (hopen name hname super h).resolve_right List.not_mem_nil
  | case2 found first pending hknown ih =>
    have hmem : first ∈ found := by simpa using hknown
    refine ih (fun name hname super h => ?_) hname
    rcases hopen name hname super h with hfound | hpending
    · exact .inl hfound
    · rcases List.mem_cons.mp hpending with rfl | hpending
      exacts [.inl hmem, .inr hpending]
  | case3 found first pending hnew ih =>
    refine ih (fun name hname super h => ?_) hname
    rcases List.mem_cons.mp hname with rfl | hname
    · exact .inr (List.mem_append_right _ h)
    · rcases hopen name hname super h with hfound | hpending
      · exact .inl (List.mem_cons_of_mem _ hfound)
      · rcases List.mem_cons.mp hpending with rfl | hpending
        · exact .inl List.mem_cons_self
        · exact .inr (List.mem_append_left _ hpending)

/-! ## Closures -/

/-- **The closure of a class is what can be reached from it.** -/
theorem mem_closure : other ∈ catalog.closure name ↔ catalog.Reaches name other := by
  rw [closure, mem_sortedNames]
  constructor
  · intro h
    rcases reaches_of_mem_spread h with hnone | ⟨start, hstart, hreach⟩
    · exact absurd hnone List.not_mem_nil
    · exact List.mem_singleton.mp hstart ▸ hreach
  · intro h
    induction h with
    | refl => exact (subset_spread [name] []).2 List.mem_cons_self
    | tail _ hmentions ih => exact mem_spread_of_mentions (by simp) ih hmentions

theorem pairwise_closure (catalog : Catalog) (name : String) : (catalog.closure name).Pairwise (· < ·) :=
  pairwise_sortedNames _

/-- The closure of a class holds the closures of all its members. -/
theorem closure_subset (h : other ∈ catalog.closure name) : catalog.closure other ⊆ catalog.closure name :=
  fun _ hmem => mem_closure.mpr ((mem_closure.mp h).trans (mem_closure.mp hmem))

end Catalog

/-! ## First declarations -/

/-- The first of all declarations of a class. -/
def ClassDecl.first? (decls : List ClassDecl) (name : String) : Option ClassDecl :=
  decls.find? fun decl => decl.name == name

/-- The first declaration of a class has another class as its superclass or as one of its interfaces. -/
def ClassDecl.Mentions (decls : List ClassDecl) (name super : String) : Prop :=
  ∃ decl, first? decls name = some decl ∧ (decl.superName = some super ∨ super ∈ decl.interfaces)

namespace Catalog

variable {decls : List ClassDecl} {name other marker : String} {signature : Signature}

/-- A catalog knows of each class what its first declaration says. -/
theorem class?_ofList (decls : List ClassDecl) (name : String) :
    (ofList decls).class? name = (ClassDecl.first? decls name).map .ofClass := by
  have hfold (catalog : Catalog) : (decls.foldl register catalog).class? name =
      (catalog.class? name).or ((ClassDecl.first? decls name).map .ofClass) := by
    induction decls generalizing catalog with
    | nil => simp [ClassDecl.first?]
    | cons decl decls ih =>
      rw [List.foldl_cons, ih, register, class?_add, Option.or_assoc]
      by_cases hname : decl.name = name <;> simp [ClassFact.ofClass, ClassDecl.first?, hname]
  rw [ofList, hfold, class?_empty, Option.none_or]

theorem mentions_ofList : (ofList decls).Mentions = ClassDecl.Mentions decls := by
  ext name super
  rw [Mentions, supertypes, class?_ofList, ClassDecl.Mentions]
  cases ClassDecl.first? decls name with
  | none => simp
  | some decl => simp [ClassFact.shape, ClassFact.ofClass, ClassShape.supertypes]

/-- The method that a class declares in a slot is the first one there. -/
theorem declared?_ofList (decls : List ClassDecl) (name : String) (signature : Signature) :
    (ofList decls).declared? name signature = (ClassDecl.first? decls name).bind fun decl =>
      (decl.methods.find? fun method => method.InSlot signature).map .ofMethod := by
  rw [declared?, class?_ofList, Option.bind_map]
  congr 1
  funext decl
  rw [Function.comp_apply, ClassFact.method?, ClassFact.ofClass, List.find?_map]
  congr 2
  funext method
  rw [Function.comp_apply, Bool.eq_iff_iff, decide_eq_true_iff, Method.inSlot_iff]
  rfl

theorem mem_methodClosure_ofList : other ∈ (ofList decls).methodClosure name signature ↔
    other ∈ (ofList decls).closure name ∧ ∃ decl, ClassDecl.first? decls other = some decl ∧
      ∃ method ∈ decl.methods, method.InSlot signature := by
  rw [methodClosure, List.mem_filter, declared?_ofList]
  cases ClassDecl.first? decls other <;> simp

theorem mem_annotatedMethodClosure_ofList : other ∈ (ofList decls).annotatedMethodClosure name signature marker ↔
    other ∈ (ofList decls).closure name ∧ ∃ decl method, ClassDecl.first? decls other = some decl ∧
      decl.methods.find? (fun method => method.InSlot signature) = some method ∧
        ∃ mark ∈ method.annotations, mark.descriptor = marker := by
  rw [annotatedMethodClosure, List.mem_filter, methodClosure, List.mem_filter, isMethodAnnotated, declared?_ofList]
  cases ClassDecl.first? decls other with
  | none => simp
  | some decl =>
    cases hfind : decl.methods.find? fun method => method.InSlot signature with
    | none => simp [hfind]
    | some method => simp [hfind, MethodFact.annotation?, MethodFact.ofMethod, Annotation.isSome_find?_firstOfEach]

/-- Catalogs that know the same about each class have the same closures. -/
theorem closure_congr {left right : Catalog} (h : ∀ name, left.class? name = right.class? name) (name : String) :
    left.closure name = right.closure name := by
  refine eq_of_ascending (pairwise_closure _ _) (pairwise_closure _ _) fun other => ?_
  have hmentions : left.Mentions = right.Mentions := by
    ext name super
    rw [Mentions, Mentions, supertypes, supertypes, h]
  rw [mem_closure, mem_closure, Reaches, Reaches, hmentions]

theorem methodClosure_congr {left right : Catalog} (h : ∀ name, left.class? name = right.class? name) (name : String)
    (signature : Signature) : left.methodClosure name signature = right.methodClosure name signature := by
  simp only [methodClosure, declared?, closure_congr h, h]

theorem annotatedMethodClosure_congr {left right : Catalog} (h : ∀ name, left.class? name = right.class? name)
    (name : String) (signature : Signature) (marker : String) :
    left.annotatedMethodClosure name signature marker = right.annotatedMethodClosure name signature marker := by
  simp only [annotatedMethodClosure, isMethodAnnotated, declared?, methodClosure_congr h, h]

/-- **Closures are reachability over the first declarations**, in whatever order classes are registered.  The closure
of a class holds each class that can be reached from it, once; a class without a declaration has nothing above it.
Its members with a method in a slot, or with an annotation on the first such method, are told by their own first
declarations.  Lists of declarations with the same first ones have the same closures. -/
theorem closures_ofList (decls : List ClassDecl) (name : String) (signature : Signature) (marker : String) :
    ((ofList decls).closure name).Pairwise (· < ·) ∧
    (∀ other, other ∈ (ofList decls).closure name ↔ Relation.ReflTransGen (ClassDecl.Mentions decls) name other) ∧
    (∀ other, other ∈ (ofList decls).methodClosure name signature ↔
      Relation.ReflTransGen (ClassDecl.Mentions decls) name other ∧
        ∃ decl, ClassDecl.first? decls other = some decl ∧ ∃ method ∈ decl.methods, method.InSlot signature) ∧
    (∀ other, other ∈ (ofList decls).annotatedMethodClosure name signature marker ↔
      Relation.ReflTransGen (ClassDecl.Mentions decls) name other ∧
        ∃ decl method, ClassDecl.first? decls other = some decl ∧
          decl.methods.find? (fun method => method.InSlot signature) = some method ∧
            ∃ mark ∈ method.annotations, mark.descriptor = marker) ∧
    ∀ others : List ClassDecl, (∀ other, ClassDecl.first? others other = ClassDecl.first? decls other) →
      (ofList others).closure name = (ofList decls).closure name ∧
      (ofList others).methodClosure name signature = (ofList decls).methodClosure name signature ∧
      (ofList others).annotatedMethodClosure name signature marker =
        (ofList decls).annotatedMethodClosure name signature marker := by
  have hclosure (other : String) :
      other ∈ (ofList decls).closure name ↔ Relation.ReflTransGen (ClassDecl.Mentions decls) name other := by
    rw [mem_closure, Reaches, mentions_ofList]
  refine ⟨pairwise_closure _ _, hclosure, fun other => ?_, fun other => ?_, fun others hfirst => ?_⟩
  · rw [mem_methodClosure_ofList, hclosure]
  · rw [mem_annotatedMethodClosure_ofList, hclosure]
  · have hclass (name : String) : (ofList others).class? name = (ofList decls).class? name := by
      rw [class?_ofList, class?_ofList, hfirst]
    exact ⟨closure_congr hclass _, methodClosure_congr hclass _ _, annotatedMethodClosure_congr hclass _ _ _⟩

/-- A class with one method. -/
def oneMethod (name superName : String) (interfaces : List String) (access : UInt16) (visible : List Annotation) :
    ClassDecl where
  version := ⟨52, 0⟩
  access := ⟨0x0021⟩
  name
  superName := some superName
  interfaces
  methods := [{ access := ⟨access⟩, name := "f", descriptor := "()V", visible }]

/-- Two ways up from a class that lead to the same one, and from there back to the class; a superclass that is not
declared; and a second declaration. -/
def circle : List ClassDecl :=
  [oneMethod "c/D" "b/Base" ["a/I"] 1 [], oneMethod "b/Base" "x/Lost" ["a/Top"] 4 [⟨"LM;", []⟩],
    oneMethod "a/I" Name.object ["a/Top"] 2 [⟨"LM;", []⟩], oneMethod "a/Top" Name.object ["c/D"] 1 [],
    oneMethod "b/Base" "x/Other" [] 2 []]

/-- The same declarations in another order, of which the first ones stay the first. -/
def circleReordered : List ClassDecl :=
  [oneMethod "a/Top" Name.object ["c/D"] 1 [], oneMethod "b/Base" "x/Lost" ["a/Top"] 4 [⟨"LM;", []⟩],
    oneMethod "b/Base" "x/Other" [] 2 [], oneMethod "c/D" "b/Base" ["a/I"] 1 [],
    oneMethod "a/I" Name.object ["a/Top"] 2 [⟨"LM;", []⟩]]

/-- The closures of a class on a circle, in both orders. -/
theorem closures_ofList_circle :
    (∀ other, ClassDecl.first? circleReordered other = ClassDecl.first? circle other) ∧
    (ofList circle).closure "c/D" = ["a/I", "a/Top", "b/Base", "c/D", Name.object, "x/Lost"] ∧
    (ofList circle).methodClosure "c/D" ⟨"f", "()V", ⟨1⟩⟩ = ["a/Top", "b/Base", "c/D"] ∧
    (ofList circle).annotatedMethodClosure "c/D" ⟨"f", "()V", ⟨1⟩⟩ "LM;" = ["b/Base"] ∧
    (ofList circleReordered).closure "c/D" = (ofList circle).closure "c/D" ∧
    (ofList circleReordered).methodClosure "c/D" ⟨"f", "()V", ⟨1⟩⟩ =
      (ofList circle).methodClosure "c/D" ⟨"f", "()V", ⟨1⟩⟩ ∧
    (ofList circleReordered).annotatedMethodClosure "c/D" ⟨"f", "()V", ⟨1⟩⟩ "LM;" =
      (ofList circle).annotatedMethodClosure "c/D" ⟨"f", "()V", ⟨1⟩⟩ "LM;" := by
  have hfirst (other : String) : ClassDecl.first? circleReordered other = ClassDecl.first? circle other := by
    by_cases hdeclared : other ∈ circle.map ClassDecl.name
    · simp only [circle, oneMethod, List.map_cons, List.map_nil, List.mem_cons, List.not_mem_nil, or_false] at hdeclared
      rcases hdeclared with rfl | rfl | rfl | rfl | rfl <;> rfl
    · have hnone {decls : List ClassDecl} (h : decls.map ClassDecl.name ⊆ circle.map ClassDecl.name) :
          ClassDecl.first? decls other = none :=
        List.find?_eq_none.mpr fun decl hmem hname =>
          hdeclared (h (List.mem_map.mpr ⟨decl, hmem, beq_iff_eq.mp hname⟩))
      rw [hnone (by decide), hnone (List.Subset.refl _)]
  exact ⟨hfirst, by decide +kernel, by decide +kernel, by decide +kernel,
    (closures_ofList circle "c/D" ⟨"f", "()V", ⟨1⟩⟩ "LM;").2.2.2.2 circleReordered hfirst⟩

end Catalog

end ClassInstrument
