import ClassInstrument.Proofs.Assembly.Marking
import ClassInstrument.Proofs.Assembly.MissingFrames
import ClassInstrument.Proofs.Assembly.Retyping

/-!
# Analyzing what was decoded

The frames of a body that is ready to be laid out are a typing of it, and so each body that says the same has one.
It follows that such a body is accepted, and that as many stack slots and local variables are in use in it once its
dead code was replaced (`Assembly.Ready.exists_collapsesAgain`).
-/

namespace ClassInstrument

open Interning Outcome

/-! ## Bodies that say the same -/

@[simp] theorem Instruction.isKnown_bare {hierarchy : Hierarchy} {instruction : Instruction} :
    instruction.bare.IsKnown hierarchy ↔ instruction.IsKnown hierarchy := by
  cases instruction <;> rfl

theorem Instruction.isKnown_of_unreal {hierarchy : Hierarchy} {instruction : Instruction}
    (unreal : instruction.isReal = false) : instruction.IsKnown hierarchy := by
  cases instruction <;> trivial

namespace Body

variable {body original : Body} {hierarchy : Hierarchy}

/-- The labels of a body that says the same as another one are placed. -/
theorem Restores.resolved (h : body.Restores original) : body.Resolved where
  targets {instruction} hmem target htarget := by
    obtain ⟨other, -, -, htargets⟩ := exists_right_of_forall₂ h.mirrors.instructions
      (List.mem_filter.mpr ⟨hmem, Instruction.isReal_of_target htarget⟩)
    obtain ⟨written, -, hsame⟩ := htargets target htarget
    exact hsame.mem
  handlers hmem := by
    obtain ⟨other, -, hmatches⟩ := exists_right_of_forall₂ h.handlers hmem
    exact ⟨hmatches.start.mem, hmatches.stop.mem, hmatches.handler.mem⟩

/-- A body that says the same as another one mentions the same classes. -/
theorem Restores.classesKnown (h : body.Restores original) (hknown : original.ClassesKnown hierarchy) :
    body.ClassesKnown hierarchy where
  instructions instruction hmem := by
    by_cases real : instruction.isReal
    · obtain ⟨other, hother, hbare, -⟩ :=
        exists_right_of_forall₂ h.mirrors.instructions (List.mem_filter.mpr ⟨hmem, real⟩)
      rw [← Instruction.isKnown_bare, hbare, Instruction.isKnown_bare]
      exact hknown.instructions other (List.mem_of_mem_filter hother)
    · exact Instruction.isKnown_of_unreal (by simpa using real)
  handlers handler hmem := by
    obtain ⟨other, hother, hmatches⟩ := exists_right_of_forall₂ h.handlers hmem
    rw [hmatches.caught]
    exact hknown.handlers other (List.mem_of_mem_filter hother)

/-- What control reaches in a closed body has an instruction at it or behind it. -/
theorem Closed.exists_real (h : body.Closed) {entries : List ℕ} {position : ℕ}
    (hentries : ∀ entry ∈ entries, ∃ later instruction, entry ≤ later ∧
      body.instructions[later]? = some instruction ∧ instruction.isReal)
    (hreach : body.Reachable entries position) : ∃ later instruction, position ≤ later ∧
      body.instructions[later]? = some instruction ∧ instruction.isReal := by
  obtain ⟨entry, hentry, hpath⟩ := hreach
  have hbehind {place : ℕ} (hreal : body.RealBehind place) : ∃ later instruction, place ≤ later ∧
      body.instructions[later]? = some instruction ∧ instruction.isReal := by
    obtain ⟨later, instruction, hlt, here, real⟩ := hreal
    exact ⟨later, instruction, hlt.le, here, real⟩
  induction hpath with
  | refl => exact hentries entry hentry
  | tail _ hflows ih =>
    cases hflows with
    | @next instruction here falls room =>
      by_cases real : instruction.isReal
      · obtain ⟨later, other, hlt, hother, hreal⟩ := h.falls here real falls
        exact ⟨later, other, hlt, hother, hreal⟩
      · -- A label or line number is not the instruction itself.
        obtain ⟨later, other, hle, hother, hreal⟩ := ih
        refine ⟨later, other, Nat.lt_of_le_of_ne hle ?_, hother, hreal⟩
        rintro rfl
        obtain rfl := Option.some.inj (here.symm.trans hother)
        exact real hreal
    | jump here targeted placed => exact hbehind (h.jumps here targeted placed.1)
    | throw here real listed starts stops covered placed =>
      exact hbehind (h.throws listed ⟨_, _, starts.1, stops.1, covered⟩ here real placed.1)

/-- What arrives at the start of a typed body arrives at the start of each body. -/
theorem Typing.arrives_zero {typing : ℕ → Option FlowFrame} {method : MethodContext} {source : Array Instruction}
    {site : ℕ → ℕ} {frame : FlowFrame} (htyping : original.Typing hierarchy typing method source site)
    (hclosed : original.Closed) (h : Arrives hierarchy typing 0 frame) :
    Arrives hierarchy (body.retype original typing) 0 frame := by
  obtain ⟨position, instruction, here, real⟩ := hclosed.nonempty
  obtain ⟨later, hlater⟩ := exists_realPositions here real (Nat.zero_le position)
  obtain ⟨super, hsuper, hfits⟩ := htyping.arrives_pass h hlater
  exact ⟨super, retype_eq_some.mpr ⟨later, hlater, hsuper⟩, hfits⟩

end Body

namespace Assembly

variable {body final : Body} {method : MethodContext} {hierarchy : Hierarchy} {pool : Pool} {roots : List Root}
  {analysis : Analysis}

/-! ## Bodies that are ready -/

/-- The frame of replaced dead code fits itself if what is thrown there is known. -/
theorem fits_deadCodeFrame {site : ℕ → ℕ} (hthrowable : NameKnown hierarchy Name.throwable) :
    FrameFits hierarchy site deadCodeFrame deadCodeFrame :=
  have hempty : FrameFits hierarchy site (Frame.ofTypes [] []) (Frame.ofTypes [] []) := .ofTypes (by simp) (by simp)
  hempty.push (.refl hthrowable (by simp))

/-- The classes that a body mentions when it is ready to be laid out are known. -/
theorem Prepared.classesKnown {first : Analysis} {runs : List DeadRun} {middle : Body} {changed : Bool}
    (h : Prepared body method hierarchy pool first runs middle changed roots final analysis)
    (hknown : body.ClassesKnown hierarchy) : final.ClassesKnown hierarchy where
  instructions := h.forall_mem hknown.instructions (fun _ => trivial) trivial (fun _ => trivial)
    fun _ _ _ _ => trivial
  handlers := by
    have hmiddle : ∀ handler ∈ middle.handlers, NameKnown hierarchy (handler.caught.getD Name.throwable) := by
      by_cases hruns : runs = []
      · rw [h.replaced.unchanged hruns]
        exact hknown.handlers
      · obtain ⟨parts, hparts, hhandlers⟩ := h.replaced.handlers hruns
        intro part hmem
        obtain ⟨left, hleft, hmem⟩ := List.mem_flatten.mp (hhandlers ▸ hmem)
        obtain ⟨handler, hhandler, hcut⟩ := exists_left_of_forall₂ hparts hleft
        rw [((DeadCode.spans_cutHandler hcut).1 part hmem).2.1]
        exact hknown.handlers handler hhandler
    exact (Body.widenJumps_induction (fun next => ∀ handler ∈ next.handlers,
      NameKnown hierarchy (handler.caught.getD Name.throwable))
      (fun hround hkept => hround.handlers ▸ hkept) hmiddle h.widened).1

/-- A body that is ready to be laid out, with its frames: control gets to all of it from the start or from a root,
and each root is at what was put in place of dead code. -/
structure Ready (final : Body) (method : MethodContext) (hierarchy : Hierarchy) (roots : List Root)
    (analysis : Analysis) : Prop where
  wellLabelled : final.WellLabelled
  closed : final.Closed
  condensed : final.Condensed
  analyzed : analyze final method hierarchy roots = .ok analysis
  rooted : ∀ root ∈ roots, final.instructions[root.1]? = some (.plain Opcode.athrow) ∧ root.2 = deadCodeFrame
  reaches : ∀ {position : ℕ} {instruction : Instruction}, final.instructions[position]? = some instruction →
    instruction.isReal → analysis.reaches position

/-- What is prepared is ready to be laid out, unless control runs off the end. -/
theorem exists_ready (hlabelled : body.WellLabelled) (hoff : ¬ body.RunsOff)
    (h : (prepare body method hierarchy).Settled pool (final, analysis)) :
    ∃ roots, Ready final method hierarchy roots analysis := by
  obtain ⟨first, runs, middle, changed, roots, hprepared⟩ := exists_prepared h
  exact ⟨roots, hprepared.wellLabelled hlabelled, (hprepared.closed_iff hlabelled).2.mpr hoff,
    condensed_of_settled hlabelled h, hprepared.analyzed, fun root hmem => hprepared.of_mem_roots hlabelled hmem,
    reaches_of_settled hlabelled h⟩

namespace Ready

variable (h : Ready final method hierarchy roots analysis)
include h

theorem lt_of_mem_roots {root : Root} (hmem : root ∈ roots) : root.1 < final.instructions.length :=
  (List.getElem?_eq_some_iff.mp (h.rooted root hmem).1).1

/-- There is a root wherever control does not get to from the start. -/
theorem exists_root {position : ℕ} (hstrays : final.Strays position) : ∃ root ∈ roots, root.1 = position := by
  obtain ⟨⟨instruction, here, real⟩, hnot⟩ := id hstrays
  obtain ⟨entry, hentry, hpath⟩ :=
    (reaches_iff (fun _ hmem => h.lt_of_mem_roots hmem) h.analyzed position).mp (h.reaches here real)
  have hstart : ¬ final.Reachable [0] entry := fun ⟨start, hmem, hprefix⟩ =>
    hnot ⟨start, hmem, hprefix.trans hpath⟩
  rcases List.mem_cons.mp hentry with rfl | hentry
  · exact absurd (Body.reachable_entry List.mem_cons_self) hstart
  · obtain ⟨root, hroot, rfl⟩ := List.mem_map.mp hentry
    refine ⟨root, hroot, ?_⟩
    rcases hpath.cases_head with hsame | ⟨next, hflows, -⟩
    · exact hsame
    · exact absurd hflows (h.condensed.not_flows ⟨⟨_, (h.rooted root hroot).1, rfl⟩, hstart⟩)

variable (hwf : hierarchy.WellFormed) (hknown : final.ClassesKnown hierarchy)
  (harrays : analysis.FindsReferences final)
include hwf hknown harrays

/-- The frames of a body that is ready are a typing of it. -/
theorem exists_typing_initial : ∃ typing initial, final.Typing hierarchy typing method final.instructions.toArray id ∧
    method.initialFrame = .ok initial ∧ ∀ root ∈ (0, initial) :: roots,
      ∃ super, typing root.1 = some super ∧ FrameBelow hierarchy root.2 super := by
  have hentries : ∀ entry ∈ 0 :: roots.map Prod.fst, ∃ later instruction, entry ≤ later ∧
      final.instructions[later]? = some instruction ∧ instruction.isReal := by
    intro entry hentry
    rcases List.mem_cons.mp hentry with rfl | hentry
    · obtain ⟨position, instruction, here, real⟩ := h.closed.nonempty
      exact ⟨position, instruction, Nat.zero_le position, here, real⟩
    · obtain ⟨root, hroot, rfl⟩ := List.mem_map.mp hentry
      exact ⟨root.1, _, le_rfl, (h.rooted root hroot).1, rfl⟩
  obtain ⟨htyping, initial, hinitial, hheld⟩ := exists_typing_of_roots hwf
    (fun root hmem => ⟨h.lt_of_mem_roots hmem, by rw [(h.rooted root hmem).2]; exact Frame.Canonical.empty.push _⟩) h.analyzed
    (fun {position instruction} here unreal hreaches => by
      obtain ⟨later, other, hle, hother, real⟩ := h.closed.exists_real hentries
        ((reaches_iff (fun _ hmem => h.lt_of_mem_roots hmem) h.analyzed position).mp hreaches)
      have hlength := (List.getElem?_eq_some_iff.mp hother).1
      refine lt_of_le_of_lt (Nat.succ_le_of_lt (Nat.lt_of_le_of_ne hle ?_)) hlength
      rintro rfl
      obtain rfl := Option.some.inj (here.symm.trans hother)
      exact absurd real (by simp [unreal]))
    hknown harrays
  refine ⟨_, initial, htyping, hinitial, fun root hmem => ?_⟩
  obtain ⟨super, hsuper, hbelow⟩ := hheld root hmem
  exact ⟨super, by rw [hsuper]; rfl, hbelow⟩

/-- **What says the same is accepted, and needs as much room.**  If a body says the same as one that is ready to be
laid out, then it can be analyzed, its dead code is replaced by itself, and with that as many stack slots and local
variables are in use as before. -/
theorem exists_collapsesAgain_of_restores (hmethod : method.ClassesKnown hierarchy) (hrestores : body.Restores final) :
    ∃ first marked dead roots' analysis', analyze body method hierarchy [] = .ok first ∧
      body.CollapsesAgain method hierarchy first final marked dead roots' analysis' ∧
        analysis'.maxStack = analysis.maxStack ∧ analysis'.maxLocals = analysis.maxLocals := by
  obtain ⟨typing, initial, htyping, hinitial, hheld⟩ := h.exists_typing_initial hwf hknown harrays
  have hself (site : ℕ → ℕ) : FrameFits hierarchy site initial initial := hmethod.fits_initialFrame hinitial
  have hroots (site : ℕ → ℕ) : ∀ root ∈ (0, initial) :: roots, ∃ super, typing root.1 = some super ∧
      FrameFits hierarchy site root.2 super := by
    intro root hmem
    obtain ⟨super, hsuper, hbelow⟩ := hheld root hmem
    refine ⟨super, hsuper, FrameFits.below ?_ hbelow⟩
    rcases List.mem_cons.mp hmem with rfl | hmem
    · exact hself site
    · rw [(h.rooted root hmem).2]
      exact fits_deadCodeFrame hmethod.throwable
  -- At the start each body has the frame of the first instruction.
  obtain ⟨super, hsuper, hbelow⟩ := hheld _ List.mem_cons_self
  have hstart (body : Body) : ∃ super, body.retype final typing 0 = some super ∧
      ∀ site, FrameFits hierarchy site initial super := by
    have harrives : Arrives hierarchy (body.retype final typing) 0 initial :=
      htyping.arrives_zero h.closed ⟨super, hsuper, fun site own hown => hown.below hbelow⟩
    obtain ⟨super, hsuper, hfits⟩ := harrives
    exact ⟨super, hsuper, fun site => hfits site initial (hself site)⟩
  have htyping' {other : Body} (hrestores : other.Restores final) :=
    hrestores.mirrors.typing_retype hrestores.wellLabelled h.wellLabelled h.closed hrestores.resolved
      (hrestores.classesKnown hknown) htyping
  obtain ⟨found, hfound, hfits⟩ := hstart body
  obtain ⟨first, hfirst⟩ := (htyping' hrestores).exists_analyze hwf hmethod.root hmethod.owner
    (List.ne_nil_of_length_pos ((htyping' hrestores).inside hfound)) hinitial hfound (hfits _)
  obtain ⟨marked, dead, roots', analysis', hagain⟩ :=
    hrestores.exists_collapsesAgain h.wellLabelled h.condensed hfirst
  refine ⟨first, marked, dead, roots', analysis', hfirst, hagain, ?_⟩
  have hmarked := hagain.restores
  refine hmarked.mirrors.maxima_eq hwf hmethod.root hmethod.owner hmarked.wellLabelled h.wellLabelled h.closed
    hmarked.resolved (hmarked.classesKnown hknown) htyping hinitial (hroots id) (fun root hmem => ?_) (fun root hmem => ?_)
    h.analyzed hagain.analyzed h.reaches hagain.reaches
  · rcases List.mem_cons.mp hmem with rfl | hmem
    · obtain ⟨found, hfound, hfits⟩ := hstart marked
      exact ⟨found, hfound, hfits _⟩
    · obtain ⟨hframe, place, hplace, hstrays⟩ := hagain.rooted root hmem
      obtain ⟨other, hother, rfl⟩ := h.exists_root hstrays
      obtain ⟨super, hsuper, hfits⟩ := hroots (marked.counterpart final) other (List.mem_cons_of_mem _ hother)
      rw [(h.rooted other hother).2, ← hframe] at hfits
      exact ⟨super, Body.retype_eq_some.mpr ⟨_, hplace, hsuper⟩, hfits⟩
  · have hframe : root.2 = deadCodeFrame := (List.mem_append.mp hmem).elim
      (fun hmem => (h.rooted root hmem).2) fun hmem => (hagain.rooted root hmem).1
    rw [hframe]
    rfl

end Ready

end Assembly

end ClassInstrument
