import ClassInstrument.Proofs.Policy.Headers

/-!
# Which methods are told apart

The methods of a class are told apart by their names and descriptors.  A policy that moves a body makes a
name up for it: shielding puts `safe_` in front of the name of a callback, timing puts `__benchmark_` in
front of the name of a method, with dollar signs in place of angle brackets.  Neither looks whether the
class has a method of that name already, and with the dollar signs two methods may get the same name.

`Policy.madeKeys` lists what is made up.  The methods of a class that were distinct stay so exactly if the
keys that are made up are distinct and new (`Policy.keys_nodup_iff`), and there is a condition on names
alone (`Policy.keys_nodup_of_freshNames`).
-/

namespace ClassInstrument

open Outcome

/-- What tells a method from the others of its class. -/
def Method.key (method : Method) : String × String := (method.name, method.descriptor)

/-- What tells the methods of a class apart, in their order. -/
def ClassDecl.keys (decl : ClassDecl) : List (String × String) := decl.methods.map Method.key

theorem Method.Rebodied.key_eq {method after : Method} (h : method.Rebodied after) :
    after.key = method.key := by
  rw [Method.key, Method.key, h.name_eq, h.descriptor_eq]

/-- A list in which some items are replaced by other ones, with the replacements in front. -/
theorem perm_map_ite {α β : Type} (passes : α → Bool) (f g : α → β) (items : List α) :
    List.Perm (items.map fun item => if passes item then f item else g item)
      ((items.filter passes).map f ++ (items.filter fun item => !passes item).map g) := by
  have hfront : (items.filter passes).map f =
      (items.filter passes).map fun item => if passes item then f item else g item :=
    List.map_congr_left fun item hmem => (if_pos (List.mem_filter.mp hmem).2).symm
  have hback : (items.filter fun item => !passes item).map g =
      (items.filter fun item => !passes item).map fun item => if passes item then f item else g item := by
    refine List.map_congr_left fun item hmem => ?_
    have hpasses : passes item = false := by simpa using (List.mem_filter.mp hmem).2
    rw [hpasses]
    rfl
  rw [hfront, hback, ← List.map_append]
  exact ((List.filter_append_perm passes items).map _).symm

namespace Policy

/-- Does a policy move the body of a method to a name that it makes up? -/
def movesBody (policy : Policy) (catalog : Catalog) (decl : ClassDecl) (method : Method) : Bool :=
  match policy with
  | crashShield shield => shield.moves catalog decl method
  | benchmark timing => timing.times catalog decl method
  | _ => false

/-- The name that a policy makes up for a body that it moves. -/
def madeName : Policy → String → String
  | crashShield _, name => CrashShield.movedName name
  | benchmark _, name => Benchmark.movedName name
  | _, name => name

/-- What tells a moved body from the methods of its class. -/
def madeKey (policy : Policy) (method : Method) : String × String :=
  (policy.madeName method.name, method.descriptor)

/-- What tells the bodies that a policy moves from the methods of their class, in their order. -/
def madeKeys (policy : Policy) (catalog : Catalog) (decl : ClassDecl) : List (String × String) :=
  if policy.skips decl.name then []
  else (decl.methods.filter (policy.movesBody catalog decl)).map policy.madeKey

end Policy

section

variable {catalog : Catalog} {decl after : ClassDecl}

theorem CallLogger.keys_of_apply {policy : CallLogger} (h : policy.apply decl = .ok after) :
    after.keys = decl.keys :=
  (map_eq_map_of_forall₂ (policy.apply_eq_ok h).2 fun _ _ happly =>
    (policy.rebodied_of_applyToMethod happly).key_eq.symm).symm

theorem ThreadCheck.keys_of_apply {policy : ThreadCheck} (h : policy.apply catalog decl = .ok after) :
    after.keys = decl.keys := by
  obtain ⟨-, ofClass, -, hmethods⟩ := policy.apply_eq_ok h
  exact (map_eq_map_of_forall₂ hmethods fun _ _ happly =>
    (policy.rebodied_of_applyToMethod happly).key_eq.symm).symm

/-- Shielding replaces the names of the callbacks that it moves. -/
theorem CrashShield.keys_of_apply {shield : CrashShield} (h : shield.apply catalog decl = .ok after) :
    after.keys = decl.methods.map fun method =>
      if shield.moves catalog decl method then (movedName method.name, method.descriptor)
      else method.key := by
  obtain ⟨-, -, hmethods⟩ := shield.apply_eq_ok h
  refine (map_eq_map_of_forall₂ hmethods fun method treated hbody => ?_).symm
  rw [Method.key, Method.key, hbody.name_eq, hbody.descriptor_eq]
  dsimp only [nameAfter]
  split <;> rfl

/-- Timing replaces the names of the methods that it times, and the forwarders get the names back. -/
theorem Benchmark.keys_of_apply {timing : Benchmark} (h : timing.apply catalog decl = .ok after) :
    after.keys =
      (decl.methods.map fun method =>
        if timing.times catalog decl method then (movedName method.name, method.descriptor)
        else method.key) ++
      (decl.methods.filter (timing.times catalog decl)).map Method.key := by
  obtain ⟨treated, rfl, hmethods⟩ := timing.apply_eq_ok h
  have hmoved : decl.methods.map (fun method =>
      if timing.times catalog decl method then (movedName method.name, method.descriptor)
      else method.key) = treated.map fun pair => pair.1.key := by
    refine map_eq_map_of_forall₂ hmethods ?_
    rintro method ⟨moved, forwarder⟩ happly
    rcases timing.applyToMethod_eq_ok happly with ⟨htimes, rfl, -⟩ | ⟨htimes, hbody, -⟩
    · rw [htimes]
      rfl
    · change _ = (moved.name, moved.descriptor)
      rw [htimes, hbody.name_eq, hbody.descriptor_eq]
      rfl
  have hforwarders : decl.methods.filterMap (fun method =>
      (Option.guard (timing.times catalog decl) method).map Method.key) =
        treated.filterMap fun pair => pair.2.map Method.key := by
    refine filterMap_eq_filterMap_of_forall₂ hmethods ?_
    rintro method ⟨moved, forwarder⟩ happly
    rcases timing.applyToMethod_eq_ok happly with ⟨htimes, -, rfl⟩ | ⟨htimes, -, -, made, rfl, hmade⟩
    · simp [Option.guard, htimes]
    · simp [Option.guard, htimes, Method.key, hmade.name_eq, hmade.descriptor_eq]
  rw [hmoved, ← List.filterMap_eq_filter, List.map_filterMap, hforwarders, ClassDecl.keys,
    List.map_append, List.map_map, List.map_filterMap]
  rfl

end

namespace Policy

variable {policy : Policy} {catalog : Catalog} {decl after : ClassDecl}

/-- No moved callback of a view has the name of one. -/
theorem isViewCallback_movedName (name descriptor : String) :
    CrashShield.isViewCallback (CrashShield.movedName name) descriptor = false := by
  have hfirst : ∀ callback ∈ CrashShield.viewCallbacks, callback.name.toList.head? ≠ some 's' := by decide
  unfold CrashShield.isViewCallback
  rw [List.contains_eq_mem, decide_eq_false_iff_not]
  intro hmem
  refine hfirst _ hmem ?_
  simp [CrashShield.movedName, CrashShield.safeStart]

/-- The keys afterwards are those that are made up, and others that come from the class: all of its keys, or
those that no moved callback gave up. -/
theorem exists_perm_keys (h : policy.apply catalog decl = .ok after) : ∃ kept : List (String × String),
    List.Perm after.keys (policy.madeKeys catalog decl ++ kept) ∧ kept.Sublist decl.keys ∧
      ∀ key ∈ policy.madeKeys catalog decl, key ∈ decl.keys → key ∈ kept := by
  have hstays : after.keys = decl.keys → policy.madeKeys catalog decl = [] → ∃ kept,
      List.Perm after.keys (policy.madeKeys catalog decl ++ kept) ∧ kept.Sublist decl.keys ∧
        ∀ key ∈ policy.madeKeys catalog decl, key ∈ decl.keys → key ∈ kept := by
    intro hkeys hnone
    rw [hkeys, hnone]
    exact ⟨decl.keys, .refl _, .refl _, by simp⟩
  unfold apply at h
  split at h
  · next hskipped =>
    obtain rfl := Except.ok.inj h
    exact hstays rfl (if_pos hskipped)
  · next hkept =>
    have hmade : policy.madeKeys catalog decl =
        (decl.methods.filter (policy.movesBody catalog decl)).map policy.madeKey := if_neg hkept
    cases policy with
    | crashShield shield =>
      rw [hmade, CrashShield.keys_of_apply h]
      refine ⟨_, perm_map_ite _ _ _ _, List.filter_sublist.map _, fun key hnew hold => ?_⟩
      obtain ⟨moved, -, rfl⟩ := List.mem_map.mp hnew
      obtain ⟨method, hmethod, hkey⟩ := List.mem_map.mp hold
      refine hkey ▸ List.mem_map_of_mem (List.mem_filter.mpr ⟨hmethod, ?_⟩)
      have hcallback := isViewCallback_movedName moved.name method.descriptor
      rw [← show method.name = CrashShield.movedName moved.name from congrArg Prod.fst hkey] at hcallback
      simp [CrashShield.moves, hcallback]
    | benchmark timing =>
      rw [hmade, Benchmark.keys_of_apply h]
      refine ⟨decl.keys, ?_, .refl _, fun _ _ hold => hold⟩
      refine ((perm_map_ite _ _ _ _).append_right _).trans ?_
      rw [List.append_assoc]
      refine List.Perm.append_left _ ?_
      rw [← List.map_append]
      exact (List.perm_append_comm.trans (List.filter_append_perm _ _)).map _
    | threadCheck check => exact hstays (check.keys_of_apply h) (by rw [hmade]; simp [movesBody])
    | callLogger logger => exact hstays (logger.keys_of_apply h) (by rw [hmade]; simp [movesBody])

/-- What is told apart once angle brackets have become dollar signs. -/
def sanitizedKey (method : Method) : String × String := (Name.sanitized method.name, method.descriptor)

/-- The names of the methods of a class are none that policies make up, and the methods are told apart by
them with dollar signs in place of angle brackets as well. -/
structure PlainNames (decl : ClassDecl) : Prop where
  /-- No method is called like a moved callback. -/
  callbacks : ∀ method ∈ decl.methods, ∀ name, method.name ≠ CrashShield.safeStart ++ name
  /-- No method is called like a moved body. -/
  bodies : ∀ method ∈ decl.methods, ∀ name, method.name ≠ Editing.movedBodyStart ++ name
  /-- Angle brackets do not matter. -/
  sanitized : (decl.methods.map sanitizedKey).Nodup

/-- Methods with one key that is made up have one key with dollar signs in place of angle brackets. -/
theorem sanitizedKey_eq_of_madeKey_eq {left right : Method}
    (h : policy.madeKey left = policy.madeKey right) : sanitizedKey left = sanitizedKey right := by
  obtain ⟨hname, hdescriptor⟩ := Prod.mk.inj h
  unfold sanitizedKey
  rw [hdescriptor]
  cases policy with
  | crashShield shield => rw [(String.append_right_inj _).mp hname]
  | benchmark timing => rw [(String.append_right_inj _).mp hname]
  | threadCheck check => rw [show left.name = right.name from hname]
  | callLogger logger => rw [show left.name = right.name from hname]

/-- What is made up is distinct and new if the names of the methods are plain. -/
theorem madeKeys_of_plainNames (hplain : PlainNames decl) :
    (policy.madeKeys catalog decl).Nodup ∧ ∀ key ∈ policy.madeKeys catalog decl, key ∉ decl.keys := by
  unfold madeKeys
  split
  · exact ⟨.nil, by simp⟩
  · constructor
    · have hsanitized : decl.methods.Pairwise fun left right => sanitizedKey left ≠ sanitizedKey right :=
        List.pairwise_map.mp hplain.sanitized
      exact List.pairwise_map.mpr ((hsanitized.filter _).imp fun hne hsame =>
        hne (sanitizedKey_eq_of_madeKey_eq hsame))
    · intro key hnew hold
      obtain ⟨moved, hmoved, rfl⟩ := List.mem_map.mp hnew
      obtain ⟨method, hmethod, hkey⟩ := List.mem_map.mp hold
      have hname : method.name = policy.madeName moved.name := congrArg Prod.fst hkey
      have hmoves := (List.mem_filter.mp hmoved).2
      cases policy with
      | crashShield shield => exact hplain.callbacks method hmethod _ hname
      | benchmark timing => exact hplain.bodies method hmethod _ hname
      | threadCheck check => cases hmoves
      | callLogger logger => cases hmoves

/-- Methods that were distinct stay so exactly if the keys that a policy makes up are distinct and new.
Plain names are enough for that. -/
theorem keys_nodup_of_apply (hdistinct : decl.keys.Nodup) (h : policy.apply catalog decl = .ok after) :
    (after.keys.Nodup ↔ (policy.madeKeys catalog decl).Nodup ∧
      ∀ key ∈ policy.madeKeys catalog decl, key ∉ decl.keys) ∧
      (PlainNames decl → after.keys.Nodup) := by
  obtain ⟨kept, hperm, hsub, hkept⟩ := exists_perm_keys h
  have hiff : after.keys.Nodup ↔ (policy.madeKeys catalog decl).Nodup ∧
      ∀ key ∈ policy.madeKeys catalog decl, key ∉ decl.keys := by
    rw [hperm.nodup_iff, List.nodup_append]
    constructor
    · rintro ⟨hmade, -, hdisjoint⟩
      exact ⟨hmade, fun key hnew hold => hdisjoint key hnew key (hkept key hnew hold) rfl⟩
    · rintro ⟨hmade, hnew⟩
      refine ⟨hmade, hdistinct.sublist hsub, ?_⟩
      rintro key hmem other hother rfl
      exact hnew key hmem (hsub.subset hother)
  exact ⟨hiff, fun hplain => hiff.mpr (madeKeys_of_plainNames hplain)⟩

/-- A view that has a callback, and a method with the name that the callback gets. -/
def crowdedView : ClassDecl where
  version := ⟨52, 0⟩
  access := ⟨0x0021⟩
  name := "a/V"
  superName := some CrashShield.view
  methods :=
    [{ access := ⟨1⟩, name := "onFinishInflate", descriptor := "()V"
       body := .edited { instructions := [.plain Opcode.returnVoid] } },
      { access := ⟨1⟩, name := "safe_onFinishInflate", descriptor := "()V"
        body := .edited { instructions := [.plain Opcode.returnVoid] } }]

/-- Shielding of views. -/
def shieldingViews : Policy := .crashShield { handler := some "h/H", views := true, safeClasses := [] }

/-- Shielding gives the callback a name that is taken. -/
theorem not_keys_nodup_crowdedView : ∃ after,
    shieldingViews.apply (.ofList [crowdedView]) crowdedView = .ok after ∧
      crowdedView.keys.Nodup ∧ ¬after.keys.Nodup := by
  have hok : ((shieldingViews.apply (.ofList [crowdedView]) crowdedView).toOption.isSome) := by
    decide +kernel
  obtain ⟨after, hafter⟩ := Option.isSome_iff_exists.mp hok
  have hafter := toOption_eq_some.mp hafter
  have hdistinct : crowdedView.keys.Nodup := by decide +kernel
  have htaken : ¬∀ key ∈ shieldingViews.madeKeys (.ofList [crowdedView]) crowdedView,
      key ∉ crowdedView.keys := by decide +kernel
  exact ⟨after, hafter, hdistinct, fun hnodup =>
    htaken ((keys_nodup_of_apply hdistinct hafter).1.mp hnodup).2⟩

end Policy

end ClassInstrument
