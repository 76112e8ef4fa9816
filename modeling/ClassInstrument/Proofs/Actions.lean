import Mathlib

/-!
# Actions whose changes stay

An action may fail, and what it has changed before stays.  Running it gives a result and the state that
is left.  `Leaves` says how that state is related to the one before, whatever the result is; actions
one after the other leave what each of them leaves.  `Ensures` is about an invariant of the state
together with what the result is like.
-/

namespace ClassInstrument

namespace Acting

variable {ε σ α β : Type} {act : ExceptT ε (StateM σ) α} {next : α → ExceptT ε (StateM σ) β}

/-! ## Running actions -/

/-- The second of two actions starts from what the first one leaves, if that succeeds. -/
theorem run_bind (act : ExceptT ε (StateM σ) α) (next : α → ExceptT ε (StateM σ) β) (state : σ) :
    (act >>= next).run state =
      match act.run state with
      | (.ok value, left) => (next value).run left
      | (.error fault, left) => (.error fault, left) := by
  change ExceptT.run (ExceptT.bind act next) state = _
  simp only [ExceptT.bind, ExceptT.run, ExceptT.mk, bind, StateT.bind]
  cases (show StateM σ (Except ε α) from act) state with
  | mk outcome left => cases outcome <;> rfl

theorem run_pure (value : α) (state : σ) :
    (pure value : ExceptT ε (StateM σ) α).run state = (.ok value, state) := rfl

theorem run_lift (action : Except ε α) (state : σ) :
    (liftM action : ExceptT ε (StateM σ) α).run state = (action, state) := by
  cases action <;> rfl

theorem run_get (state : σ) :
    (get : ExceptT ε (StateM σ) σ).run state = (.ok state, state) := rfl

/-- What comes in the place of an action that fails starts from what that has left. -/
theorem run_tryCatch (act : ExceptT ε (StateM σ) α) (rescue : ε → ExceptT ε (StateM σ) α) (state : σ) :
    (tryCatch act rescue).run state =
      match act.run state with
      | (.ok value, left) => (.ok value, left)
      | (.error fault, left) => (rescue fault).run left := by
  change ExceptT.run (ExceptT.tryCatch act rescue) state = _
  simp only [ExceptT.tryCatch, ExceptT.run, ExceptT.mk, bind, StateT.bind]
  cases (show StateM σ (Except ε α) from act) state with
  | mk outcome left => cases outcome <;> rfl

/-! ## What actions leave -/

/-- Whether an action succeeds or fails, the state that it leaves is related to the one before. -/
def Leaves (related : σ → σ → Prop) (act : ExceptT ε (StateM σ) α) : Prop :=
  ∀ state, related state (act.run state).2

namespace Leaves

variable {related : σ → σ → Prop}

theorem pure [Std.Refl related] (value : α) :
    Leaves related (Pure.pure value : ExceptT ε (StateM σ) α) :=
  fun state => refl_of related state

theorem throw [Std.Refl related] (fault : ε) :
    Leaves related (MonadExcept.throw fault : ExceptT ε (StateM σ) α) :=
  fun state => refl_of related state

theorem get [Std.Refl related] : Leaves related (MonadState.get : ExceptT ε (StateM σ) σ) :=
  fun state => refl_of related state

theorem bind [IsTrans σ related] (h : Leaves related act) (hnext : ∀ value, Leaves related (next value)) :
    Leaves related (act >>= next) := by
  intro state
  rw [run_bind]
  have hfirst := h state
  rcases hrun : act.run state with ⟨_ | value, left⟩
  · rwa [hrun] at hfirst
  · rw [hrun] at hfirst
    exact trans_of related hfirst (hnext value left)

theorem tryCatch [IsTrans σ related] {rescue : ε → ExceptT ε (StateM σ) α} (h : Leaves related act)
    (hrescue : ∀ fault, Leaves related (rescue fault)) :
    Leaves related (MonadExcept.tryCatch act rescue) := by
  intro state
  rw [run_tryCatch]
  have hfirst := h state
  rcases hrun : act.run state with ⟨fault | _, left⟩
  · rw [hrun] at hfirst
    exact trans_of related hfirst (hrescue fault left)
  · rwa [hrun] at hfirst

end Leaves

/-! ## What actions ensure -/

/-- From a state with an invariant an action leaves one with it, whatever its result is; its value has a
property, and so has its fault. -/
def Ensures (inv : σ → Prop) (good : α → Prop) (bad : ε → Prop) (act : ExceptT ε (StateM σ) α) : Prop :=
  ∀ state, inv state → inv (act.run state).2 ∧
    match (act.run state).1 with
    | .ok value => good value
    | .error fault => bad fault

namespace Ensures

variable {inv : σ → Prop} {good : α → Prop} {goodNext : β → Prop} {bad : ε → Prop}

theorem pure {value : α} (h : good value) :
    Ensures inv good bad (Pure.pure value : ExceptT ε (StateM σ) α) :=
  fun _ hinv => ⟨hinv, h⟩

theorem throw {fault : ε} (h : bad fault) :
    Ensures inv good bad (MonadExcept.throw fault : ExceptT ε (StateM σ) α) :=
  fun _ hinv => ⟨hinv, h⟩

theorem get : Ensures inv inv bad (MonadState.get : ExceptT ε (StateM σ) σ) :=
  fun _ hinv => ⟨hinv, hinv⟩

theorem changes {change : σ → σ} (h : ∀ state, inv state → inv (change state)) :
    Ensures inv (fun _ => True) bad (modify change : ExceptT ε (StateM σ) PUnit) :=
  fun state hinv => ⟨h state hinv, trivial⟩

theorem lift {action : Except ε α} (hgood : ∀ value, action = .ok value → good value)
    (hbad : ∀ fault, action = .error fault → bad fault) :
    Ensures inv good bad (liftM action : ExceptT ε (StateM σ) α) := by
  intro state hinv
  rw [run_lift]
  cases action with
  | ok value => exact ⟨hinv, hgood value rfl⟩
  | error fault => exact ⟨hinv, hbad fault rfl⟩

theorem bind (h : Ensures inv good bad act)
    (hnext : ∀ value, good value → Ensures inv goodNext bad (next value)) :
    Ensures inv goodNext bad (act >>= next) := by
  intro state hinv
  rw [run_bind]
  have hfirst := h state hinv
  rcases hrun : act.run state with ⟨fault | value, left⟩
  · rwa [hrun] at hfirst
  · rw [hrun] at hfirst
    exact hnext value hfirst.2 left hfirst.1

end Ensures

end Acting

end ClassInstrument
