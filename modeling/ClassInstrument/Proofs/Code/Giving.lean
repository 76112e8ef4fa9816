import ClassInstrument.ClassDecl.Basic
import ClassInstrument.Proofs.Code.Placing
import ClassInstrument.Proofs.Code.Taking
import ClassInstrument.Proofs.Execution.Insertion

/-!
# Labels of decoded bodies

While a body is decoded, every offset that something refers to gets a label.  Whatever is read refers only to
labels that were given until then (`CodeReader.Gives`), and each label is placed at the one offset that it was
given to.  So a decoded body owns its labels (`Body.ownsLabels_of_decode`), whatever bytecode it is decoded
from.
-/

namespace ClassInstrument

open Outcome

/-- No labels are given to offsets one to one. -/
theorem OffsetLabels.consistent_empty : ({} : OffsetLabels).Consistent := by
  simp [Consistent, Marks]

/-- All of some labels were given to offsets. -/
def OffsetLabels.Gave (given : OffsetLabels) (labels : List Label) : Prop :=
  ∀ label ∈ labels, label.number < given.offsets.size

/-- Labels that were given stay. -/
theorem OffsetLabels.Gave.mono {given later : OffsetLabels} {labels : List Label} (h : given.Gave labels)
    (hgrows : given.Grows later) : later.Gave labels := by
  intro label hmem
  have hle := List.IsPrefix.length_le hgrows
  rw [Array.length_toList, Array.length_toList] at hle
  exact (h label hmem).trans_le hle

namespace CodeReader

variable {α β γ : Type} {state state' : DecodeState}

/-! ## Actions -/

/-- If some labels were given already, then an action that succeeds gives labels to offsets one to one, and
has given those in its value. -/
def Gives (known : List Label) (action : CodeReader α) (labels : α → List Label) : Prop :=
  ∀ (state state' : DecodeState) (value : α), state.labels.Consistent → state.labels.Gave known →
    action state = .ok (value, state') →
      state'.labels.Consistent ∧ state.labels.Grows state'.labels ∧ state'.labels.Gave (labels value)

namespace Gives

variable {known : List Label} {first : CodeReader α} {next : α → CodeReader β} {labels : α → List Label}
  {labels' : β → List Label}

theorem pure {value : α} (h : ∀ label ∈ labels value, label ∈ known) :
    Gives known (Pure.pure value) labels := by
  intro state state' result hconsistent hknown hrun
  obtain ⟨rfl, rfl⟩ := pure_eq_ok.mp hrun
  exact ⟨hconsistent, .refl _, fun label hmem => hknown label (h label hmem)⟩

/-- A plain value with no labels gives none. -/
theorem nothing {value : α} : Gives known (Pure.pure value) fun _ => [] :=
  pure fun _ hmem => absurd hmem List.not_mem_nil

theorem throw {fault : Fault} : Gives known (MonadExcept.throw fault : CodeReader α) labels := by
  intro state state' result hconsistent hknown hrun
  cases hrun

theorem fail {defect : CodeDefect} : Gives known (CodeReader.fail defect : CodeReader α) labels := by
  intro state state' result hconsistent hknown hrun
  cases hrun

theorem fail_bind {defect : CodeDefect} : Gives known (CodeReader.fail defect >>= next) labels' := by
  intro state state' result hconsistent hknown hrun
  cases hrun

/-- What one action has given is known to the next one. -/
theorem bind (h : Gives known first labels)
    (hnext : ∀ value, Gives (labels value ++ known) (next value) labels') :
    Gives known (first >>= next) labels' := by
  intro state state' result hconsistent hknown hrun
  obtain ⟨value, middle, hfirst, hsecond⟩ := bind_eq_ok.mp hrun
  obtain ⟨hmiddle, hgrows, hgave⟩ := h _ _ _ hconsistent hknown hfirst
  obtain ⟨hlast, hgrows', hgave'⟩ := hnext value _ _ _ hmiddle
    (fun label hmem => (List.mem_append.mp hmem).elim (hgave label) (hknown.mono hgrows label)) hsecond
  exact ⟨hlast, hgrows.trans hgrows', hgave'⟩

/-- A lookup gives no labels. -/
theorem lift {action : Except Fault α} (hnext : ∀ value, Gives known (next value) labels') :
    Gives known (liftM action >>= next) labels' := by
  intro state state' result hconsistent hknown hrun
  obtain ⟨value, middle, hlookup, hsecond⟩ := bind_eq_ok.mp hrun
  obtain ⟨-, rfl⟩ := lift_eq_ok.mp hlookup
  exact hnext value _ _ _ hconsistent hknown hsecond

/-- What is known of the state does not matter for the labels that are given. -/
theorem get {next : DecodeState → CodeReader β} (hnext : ∀ state, Gives known (next state) labels') :
    Gives known (MonadState.get >>= next) labels' := by
  intro state state' result hconsistent hknown hrun
  obtain ⟨same, middle, hsame, hsecond⟩ := bind_eq_ok.mp hrun
  obtain ⟨rfl, rfl⟩ := get_eq_ok.mp hsame
  exact hnext state _ _ _ hconsistent hknown hsecond

/-- Nothing else than what an action has given may be known of its value. -/
theorem mono {more : List Label} {fewer : α → List Label} (h : Gives known first labels)
    (hmore : ∀ label ∈ known, label ∈ more) (hfewer : ∀ value, ∀ label ∈ fewer value, label ∈ labels value) :
    Gives more first fewer := by
  intro state state' result hconsistent hknown hrun
  obtain ⟨hlast, hgrows, hgave⟩ :=
    h _ _ _ hconsistent (fun label hmem => hknown label (hmore label hmem)) hrun
  exact ⟨hlast, hgrows, fun label hmem => hgave label (hfewer _ label hmem)⟩

/-- Reading bytes gives no labels. -/
theorem operand {size : ℕ} {reader : Reader α} :
    Gives known (CodeReader.operand size reader) fun _ => [] := by
  intro state state' result hconsistent hknown hrun
  unfold CodeReader.operand at hrun
  obtain ⟨same, middle, hget, hrun⟩ := bind_eq_ok.mp hrun
  cases hget
  cases hread : reader state.rest with
  | error cause =>
    rw [hread] at hrun
    cases hrun
  | ok taken =>
    rw [hread] at hrun
    cases hrun
    exact ⟨hconsistent, .refl _, by simp [OffsetLabels.Gave]⟩

/-- The label of an offset is given to it. -/
theorem label (offset : ℕ) : Gives known (CodeReader.label offset) fun label => [label] := by
  intro state state' result hconsistent hknown hrun
  obtain ⟨rfl, rfl⟩ := Prod.mk.inj (Except.ok.inj hrun)
  obtain ⟨hlast, hgrows, hmarks, -⟩ := hconsistent.give offset
  refine ⟨hlast, hgrows, fun label hmem => ?_⟩
  obtain rfl := List.mem_singleton.mp hmem
  exact (Array.getElem?_eq_some_iff.mp hmarks).1

theorem relative (distance : ℤ) : Gives known (CodeReader.relative distance) fun label => [label] := by
  unfold CodeReader.relative
  refine .get fun state => ?_
  dsimp only
  split
  · exact .fail
  · exact label _

theorem wideRelative : Gives known CodeReader.wideRelative fun label => [label] :=
  operand.bind fun _ => relative _

theorem skipPadding : Gives known CodeReader.skipPadding fun _ => [] := by
  unfold CodeReader.skipPadding
  refine .get fun state => ?_
  exact operand.bind fun _ => nothing

/-- Labels are given by one action after the other. -/
theorem many (h : ∀ known, Gives known first labels) (count : ℕ) :
    Gives known (Reader.many first count) fun values => values.flatMap labels := by
  have hafter : ∀ (count : ℕ) (done : List α) (known : List Label),
      Gives (done.flatMap labels ++ known) (Reader.repeatAfter first count done)
        fun values => values.flatMap labels := by
    intro count
    induction count with
    | zero =>
      exact fun done known => .pure fun label hmem => List.mem_append_left _ (by simpa using hmem)
    | succ count ih =>
      refine fun done known => (h _).bind fun value => (ih (value :: done) known).mono ?_ fun _ _ => id
      simp
  exact hafter count [] known

theorem mapM {act : γ → CodeReader α} (h : ∀ item known, Gives known (act item) labels) (items : List γ) :
    Gives known (items.mapM act) fun values => values.flatMap labels := by
  induction items generalizing known with
  | nil => exact .pure (by simp)
  | cons item items ih =>
    rw [List.mapM_cons]
    refine (h item known).bind fun value => ih.bind fun values => .pure fun label hmem => ?_
    rw [List.flatMap_cons, List.mem_append] at hmem
    rcases hmem with hmem | hmem
    · exact List.mem_append_right _ (List.mem_append_left _ hmem)
    · exact List.mem_append_left _ hmem

end Gives

/-! ## Instructions -/

variable {known : List Label}

theorem gives_pair : Gives known pair fun item => [item.2] :=
  Gives.operand.bind fun key => Gives.wideRelative.bind fun target => .pure (by simp)

theorem gives_denseTable : Gives known denseTable Instruction.targets := by
  unfold denseTable
  refine Gives.skipPadding.bind fun _ => Gives.operand.bind fun _ => Gives.operand.bind fun low =>
    Gives.operand.bind fun high => ?_
  dsimp only
  split
  · exact .fail_bind
  · refine (Gives.relative _).bind fun default =>
      (Gives.many (fun _ => .wideRelative) _).bind fun targets => .pure ?_
    simp +contextual [Instruction.targets]

theorem gives_sparseTable : Gives known sparseTable Instruction.targets := by
  unfold sparseTable
  refine Gives.skipPadding.bind fun _ => Gives.wideRelative.bind fun default =>
    Gives.operand.bind fun count => (Gives.many (fun _ => gives_pair) _).bind fun pairs =>
      .pure fun _ hmem => ?_
  simp only [Instruction.targets, List.mem_cons, List.mem_map, List.mem_append,
    List.mem_flatMap, List.not_mem_nil, or_false, false_or] at hmem ⊢
  rcases hmem with rfl | ⟨pair, hpair, rfl⟩
  · exact Or.inr (Or.inl rfl)
  · exact Or.inl ⟨pair, hpair, rfl⟩

/-- An instruction without labels gives none. -/
theorem Gives.plain {instruction : Instruction} (h : instruction.targets = []) :
    Gives known (Pure.pure instruction : CodeReader Instruction) Instruction.targets :=
  .pure fun _ hmem => absurd hmem (h ▸ List.not_mem_nil)

theorem gives_widened : Gives known widened Instruction.targets := by
  unfold widened
  refine Gives.operand.bind fun inner => Gives.operand.bind fun slot => ?_
  split
  · exact Gives.operand.bind fun delta => .plain rfl
  · split
    · exact .plain rfl
    · exact .fail

/-- Looking up what an instruction pushes gives no labels. -/
theorem gives_loadable (pool : Pool) (index : PoolIndex) : Gives known (loadable pool index) fun _ => [] := by
  unfold loadable
  refine .lift fun constant => ?_
  cases constant with
  | integer | float | long | double | methodHandle => exact .nothing
  | string | classRef | methodType | dynamic => exact .lift fun _ => .nothing
  | _ => exact .throw

/-- Looking up a call site gives no labels. -/
theorem gives_callSite (pool : Pool) (index : PoolIndex) : Gives known (callSite pool index) fun _ => [] := by
  unfold callSite
  refine .lift fun constant => ?_
  cases constant with
  | invokeDynamic => exact .lift fun _ => .nothing
  | _ => exact .throw

theorem gives_operands (pool : Pool) (opcode : Opcode) :
    Gives known (operands pool opcode) Instruction.targets := by
  unfold operands
  cases opcode.form with
  | plain | impliedSlot => exact .plain rfl
  | signedByte | signedShort | slot | unsignedByte => exact Gives.operand.bind fun _ => .plain rfl
  | shortConstant | longConstant =>
    exact Gives.operand.bind fun _ => (gives_loadable pool _).bind fun _ => .plain rfl
  | increment => exact Gives.operand.bind fun _ => Gives.operand.bind fun _ => .plain rfl
  | jump =>
    exact Gives.operand.bind fun _ => (Gives.relative _).bind fun target =>
      .pure (by simp [Instruction.targets])
  | wideJump =>
    exact Gives.wideRelative.bind fun target => .pure (by simp [Instruction.targets])
  | denseTable => exact gives_denseTable
  | sparseTable => exact gives_sparseTable
  | field | method | type => exact Gives.operand.bind fun _ => .lift fun _ => .plain rfl
  | interfaceMethod =>
    exact Gives.operand.bind fun _ => Gives.operand.bind fun _ => Gives.operand.bind fun _ =>
      .lift fun _ => .plain rfl
  | callSite =>
    exact Gives.operand.bind fun _ => Gives.operand.bind fun _ =>
      (gives_callSite pool _).bind fun _ => .plain rfl
  | wide => exact gives_widened
  | dimensions => exact Gives.operand.bind fun _ => Gives.operand.bind fun _ => .lift fun _ => .plain rfl
  | unknown => exact .fail

theorem gives_instruction (pool : Pool) :
    Gives known (instruction pool) fun entry => entry.2.targets := by
  have hstart : Gives known (modify fun state => { state with start := state.offset } : CodeReader Unit)
      fun _ => [] := by
    intro state state' result hconsistent hknown hrun
    obtain rfl := (Prod.mk.inj (Except.ok.inj hrun)).2
    exact ⟨hconsistent, .refl _, by simp [OffsetLabels.Gave]⟩
  unfold instruction
  refine hstart.bind fun _ => Gives.operand.bind fun opcode => (gives_operands pool opcode).bind fun read =>
    .get fun state => .pure ?_
  simp +contextual

theorem gives_instructions (pool : Pool) (rounds : ℕ) :
    Gives known (instructionsAfter pool rounds []) fun entries => entries.flatMap (·.2.targets) := by
  intro state state' entries hconsistent hknown hrun
  have hread := invariant_instructionsAfter
    (motive := fun later done => later.labels.Consistent ∧ state.labels.Grows later.labels ∧
      later.labels.Gave (done.flatMap (·.2.targets))) ?step
    ⟨hconsistent, .refl _, by simp [OffsetLabels.Gave]⟩ hrun
  case step =>
    rintro middle last done entry ⟨hmiddle, hgrows, hgave⟩ hnext
    obtain ⟨hlast, hgrows', hgave'⟩ := gives_instruction pool _ _ _ hmiddle hgave hnext
    refine ⟨hlast, hgrows.trans hgrows', fun label hmem => ?_⟩
    rw [List.flatMap_cons, List.mem_append] at hmem
    exact hmem.elim (hgave' label) (hgave.mono hgrows' label)
  obtain ⟨hlast, hgrows, hgave⟩ := hread
  exact ⟨hlast, hgrows, fun label hmem => hgave label (by simpa using hmem)⟩

/-! ## Tables -/

theorem gives_handler (pool : Pool) (entry : HandlerEntry) : Gives known (handler pool entry)
    fun handler => [handler.start, handler.stop, handler.handler] := by
  have hcaught : Gives known (entry.caught.mapM fun index => (pool.className index : CodeReader String))
      fun _ => [] := by
    cases entry.caught with
    | none => exact .nothing
    | some index => exact .lift fun _ => .nothing
  unfold handler
  refine hcaught.bind fun caught => (Gives.label _).bind fun start => (Gives.label _).bind fun stop =>
    (Gives.label _).bind fun place => .pure ?_
  simp

theorem gives_variableRange (entry : VariableEntry) : Gives known (variableRange entry)
    fun range => [range.start, range.stop] := by
  unfold variableRange
  refine (Gives.label _).bind fun start => (Gives.label _).bind fun stop => .pure ?_
  simp

/-! ## Offsets -/

/-- Instructions are read at increasing offsets, since each one takes a byte at least. -/
theorem sorted_of_instructionsAfter {pool : Pool} {rounds : ℕ} {entries : List (ℕ × Instruction)}
    (h : instructionsAfter pool rounds [] state = .ok (entries, state')) :
    entries.Pairwise (·.1 < ·.1) ∧ ∀ entry ∈ entries, entry.1 < state.offset + state.rest.length := by
  have hread := invariant_instructionsAfter
    (motive := fun later done => later.offset + later.rest.length = state.offset + state.rest.length ∧
      done.Pairwise (·.1 > ·.1) ∧ ∀ entry ∈ done, entry.1 < later.offset) ?step ⟨rfl, .nil, by simp⟩ h
  case step =>
    rintro middle last done entry ⟨hlength, hsorted, hdone⟩ hnext
    obtain ⟨hplace, opcode, operands, hrest, hoffset, -⟩ := exists_of_instruction hnext
    have hlt : middle.offset < last.offset := by omega
    refine ⟨?_, List.pairwise_cons.mpr ⟨fun other hmem => hplace ▸ hdone other hmem, hsorted⟩,
      List.forall_mem_cons.mpr ⟨hplace ▸ hlt, fun other hmem => (hdone other hmem).trans hlt⟩⟩
    rw [hrest, List.length_cons, List.length_append] at hlength
    omega
  obtain ⟨hlength, hsorted, hdone⟩ := hread
  refine ⟨List.pairwise_reverse.mp hsorted, fun entry hmem => ?_⟩
  have hlt := hdone entry (List.mem_reverse.mpr hmem)
  omega

end CodeReader

/-! ## Decoded bodies -/

namespace BodyTables

/-- The labels in the scopes of variables. -/
def scopeLabels (tables : BodyTables) : List Label :=
  (tables.scopes ++ tables.typeScopes).flatMap fun range => [range.start, range.stop]

variable {known : List Label}

theorem gives_note (pool : Pool) (tables : BodyTables) (attr : Attribute) :
    CodeReader.Gives (tables.scopeLabels ++ known) (note pool tables attr) scopeLabels := by
  have hranges : ∀ (entries : List VariableEntry) (known : List Label),
      CodeReader.Gives known (entries.mapM CodeReader.variableRange)
        fun ranges => ranges.flatMap fun range => [range.start, range.stop] :=
    fun entries known => .mapM (fun entry _ => CodeReader.gives_variableRange entry) entries
  unfold note
  refine .lift fun name => ?_
  split
  · exact .lift fun entries => .pure fun label hmem => List.mem_append_left _ hmem
  · split
    · refine .lift fun entries => (hranges entries _).bind fun ranges => .pure fun label hmem => ?_
      rw [scopeLabels, List.flatMap_append, List.mem_append] at hmem ⊢
      exact hmem.imp_right fun hkept => by simp [hkept]
    · split
      · refine .lift fun entries => (hranges entries _).bind fun ranges => .pure fun label hmem => ?_
        rw [scopeLabels, List.flatMap_append, List.mem_append] at hmem
        rw [List.mem_append]
        exact hmem.symm.imp_right fun hkept => by simp [scopeLabels, hkept]
      · exact .pure fun label hmem => List.mem_append_left _ hmem

theorem gives_notes (pool : Pool) (attrs : List Attribute) (tables : BodyTables) (known : List Label) :
    CodeReader.Gives (tables.scopeLabels ++ known) (attrs.foldlM (note pool) tables) scopeLabels := by
  induction attrs generalizing tables known with
  | nil => exact .pure fun label hmem => List.mem_append_left _ hmem
  | cons attr attrs ih =>
    rw [List.foldlM_cons]
    exact (gives_note pool tables attr).bind fun noted => ih noted _

end BodyTables

/-- **A decoded body owns its labels.** -/
theorem Body.ownsLabels_of_decode {code : CodeAttribute} {pool : Pool} {body : Body}
    (hdecode : decode code pool = .ok body) : body.OwnsLabels := by
  obtain ⟨⟨⟨instructions, handlers, tables⟩, state⟩, hparts, h⟩ := bind_eq_ok.mp hdecode
  obtain ⟨entries, middle, hentries, hparts⟩ := CodeReader.bind_eq_ok.mp hparts
  obtain ⟨entered, middle', hhandlers, hparts⟩ := CodeReader.bind_eq_ok.mp hparts
  obtain ⟨noted, last, htables, hparts⟩ := CodeReader.bind_eq_ok.mp hparts
  obtain ⟨hsame, rfl⟩ := CodeReader.pure_eq_ok.mp hparts
  simp only [Prod.mk.injEq] at hsame
  obtain ⟨rfl, rfl, rfl⟩ := hsame
  have hempty : ∀ given : OffsetLabels, given.Gave [] := fun _ _ hmem => absurd hmem List.not_mem_nil
  obtain ⟨hmiddle, -, htargets⟩ := CodeReader.gives_instructions pool _ _ _ _
    OffsetLabels.consistent_empty (hempty _) hentries
  obtain ⟨hmiddle', hgrows, hentered⟩ := CodeReader.Gives.mapM
    (fun entry known => CodeReader.gives_handler pool entry) code.handlers _ _ _ hmiddle (hempty _) hhandlers
  obtain ⟨hlast, hgrows', hscopes⟩ :=
    BodyTables.gives_notes pool code.attributes {} [] _ _ _ hmiddle' (hempty _) htables
  have hlisting : code.listing pool = .ok entries := bind_eq_ok.mpr ⟨_, hentries, rfl⟩
  obtain ⟨listed, hlisted, hfilter⟩ := Body.listing_of_decode hdecode
  obtain rfl := Except.ok.inj (hlisted.symm.trans hlisting)
  obtain ⟨hsorted, hbound⟩ := CodeReader.sorted_of_instructionsAfter hentries
  dsimp only at h
  split at h
  · cases h
  have hbody := pure_eq_ok.mp h
  have hplaced : body.WellLabelled := wellLabelled_placedAll
    (congrArg Body.instructions hbody).symm (congrArg Body.nextLabel hbody).symm hlast
    (fun entry hmem => (CodeAttribute.standsAt_of_listing hlisting entry hmem).real) hsorted
    (by simpa using hbound)
  refine ⟨fun label hmem => ?_, hplaced.placedOnce⟩
  have hgiven : label.number < last.labels.offsets.size → label.number < body.nextLabel := by
    rw [← hbody]
    exact id
  rw [labels, List.append_assoc, List.mem_append, List.mem_append] at hmem
  rcases hmem with hmem | hmem | hmem
  · exact hplaced.handedOut label hmem
  · obtain ⟨instruction, hmem, htarget⟩ := List.mem_flatMap.mp hmem
    have hlisted : instruction ∈ listed.map Prod.snd :=
      hfilter ▸ List.mem_filter.mpr ⟨hmem, Instruction.isReal_of_target htarget⟩
    obtain ⟨entry, hentry, rfl⟩ := List.mem_map.mp hlisted
    exact hgiven ((htargets.mono (hgrows.trans hgrows')) label
      (List.mem_flatMap.mpr ⟨entry, hentry, htarget⟩))
  · rw [← hbody, tableLabels, List.mem_append] at hmem
    exact hgiven (hmem.elim (hentered.mono hgrows' label) (hscopes label))

/-- A method has a body that owns its labels, unless it was opened for editing and does not. -/
theorem ClassDecl.ownsLabels_of_decodeBody {decl : ClassDecl} {method : Method} {body : Body}
    (h : decl.decodeBody method = .ok (some body))
    (howns : ∀ body, method.body = .edited body → body.OwnsLabels) : body.OwnsLabels := by
  unfold decodeBody at h
  cases hbody : method.body with
  | absent =>
    rw [hbody] at h
    cases h
  | raw attr =>
    rw [hbody] at h
    obtain ⟨code, -, h⟩ := bind_eq_ok.mp h
    obtain ⟨decoded, hdecoded, h⟩ := bind_eq_ok.mp h
    obtain rfl := Option.some.inj (pure_eq_ok.mp h)
    exact Body.ownsLabels_of_decode hdecoded
  | edited edited =>
    rw [hbody] at h
    obtain rfl := Option.some.inj (pure_eq_ok.mp h)
    exact howns _ hbody

end ClassInstrument
