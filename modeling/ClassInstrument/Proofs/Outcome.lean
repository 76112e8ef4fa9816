import Mathlib

/-!
# Outcomes of computations that may fail

Computations are taken apart by what it means that a composed one succeeds or fails.
-/

namespace ClassInstrument

namespace Outcome

variable {ε α β γ : Type}

/-- A sequence of two computations succeeds if both do. -/
theorem bind_eq_ok {x : Except ε α} {f : α → Except ε β} {b : β} :
    x >>= f = .ok b ↔ ∃ a, x = .ok a ∧ f a = .ok b := by
  cases x <;> simp [bind, Except.bind]

/-- A sequence of two computations fails if the first or then the second does. -/
theorem bind_eq_error {x : Except ε α} {f : α → Except ε β} {e : ε} :
    x >>= f = .error e ↔ x = .error e ∨ ∃ a, x = .ok a ∧ f a = .error e := by
  cases x <;> simp [bind, Except.bind]

/-- What is done to a value is done to a success. -/
theorem map_eq_ok {x : Except ε α} {f : α → β} {b : β} : x.map f = .ok b ↔ ∃ a, x = .ok a ∧ f a = b := by
  cases x <;> simp [Except.map]

/-- A plain value is a success. -/
theorem pure_eq_ok {a b : α} : (pure a : Except ε α) = .ok b ↔ a = b := by
  simp [pure, Except.pure]

/-- A plain value is no failure. -/
theorem pure_ne_error {a : α} {e : ε} : (pure a : Except ε α) ≠ .error e := by
  simp [pure, Except.pure]

/-- What is left of a computation when its failures are forgotten. -/
theorem toOption_eq_some {x : Except ε α} {a : α} : x.toOption = some a ↔ x = .ok a := by
  cases x <;> simp [Except.toOption]

/-- A computation over a list succeeds if it does so for each item. -/
theorem mapM_eq_ok {f : α → Except ε β} {items : List α} {results : List β} :
    items.mapM f = .ok results ↔ List.Forall₂ (fun item result => f item = .ok result) items results := by
  induction items generalizing results with
  | nil => cases results <;> simp [pure_eq_ok]
  | cons item rest ih =>
    rw [List.mapM_cons, bind_eq_ok]
    constructor
    · rintro ⟨first, hfirst, h⟩
      obtain ⟨others, hothers, h⟩ := bind_eq_ok.mp h
      obtain rfl := pure_eq_ok.mp h
      exact .cons hfirst (ih.mp hothers)
    · rintro (_ | ⟨hfirst, hrest⟩)
      exact ⟨_, hfirst, bind_eq_ok.mpr ⟨_, ih.mpr hrest, rfl⟩⟩

/-- A computation over a list gives results that are related to others item by item, if it does so for each
item. -/
theorem exists_mapM_eq_ok {f : α → Except ε β} {r : γ → β → Prop} {others : List γ} {items : List α}
    (h : List.Forall₂ (fun other item => ∃ result, f item = .ok result ∧ r other result) others items) :
    ∃ results, items.mapM f = .ok results ∧ List.Forall₂ r others results := by
  induction h with
  | nil => exact ⟨[], rfl, .nil⟩
  | cons hfirst _ ih =>
    obtain ⟨result, hresult, hr⟩ := hfirst
    obtain ⟨results, hresults, hrest⟩ := ih
    exact ⟨result :: results, mapM_eq_ok.mpr (.cons hresult (mapM_eq_ok.mp hresults)), .cons hr hrest⟩

/-- A check of a list succeeds if it does so for each item. -/
theorem forM_eq_ok {f : α → Except ε PUnit} {items : List α} :
    items.forM f = .ok () ↔ ∀ item ∈ items, f item = .ok () := by
  induction items with
  | nil => exact iff_of_true rfl (by simp)
  | cons item rest ih =>
    change (f item >>= fun _ => rest.forM f) = .ok () ↔ _
    rw [bind_eq_ok, List.forall_mem_cons, ← ih]
    exact ⟨fun ⟨_, hfirst, hrest⟩ => ⟨hfirst, hrest⟩, fun ⟨hfirst, hrest⟩ => ⟨(), hfirst, hrest⟩⟩

/-- What is on the right of related lists is related to something on the left. -/
theorem exists_left_of_forall₂ {r : α → β → Prop} {items : List α} {results : List β}
    (h : List.Forall₂ r items results) {result : β} (hmem : result ∈ results) :
    ∃ item ∈ items, r item result := by
  induction h with
  | nil => exact absurd hmem List.not_mem_nil
  | cons hfirst _ ih =>
    rcases List.mem_cons.mp hmem with rfl | hmem
    · exact ⟨_, List.mem_cons_self, hfirst⟩
    · obtain ⟨item, hitem, hr⟩ := ih hmem
      exact ⟨item, List.mem_cons_of_mem _ hitem, hr⟩

/-- What is on the left of related lists is related to something on the right. -/
theorem exists_right_of_forall₂ {r : α → β → Prop} {items : List α} {results : List β}
    (h : List.Forall₂ r items results) {item : α} (hmem : item ∈ items) :
    ∃ result ∈ results, r item result := by
  obtain ⟨result, hresult, hr⟩ := exists_left_of_forall₂ h.flip hmem
  exact ⟨result, hresult, hr⟩

/-- Related lists have related items at each position. -/
theorem getElem?_of_forall₂ {r : α → β → Prop} {items : List α} {results : List β}
    (h : List.Forall₂ r items results) {position : ℕ} {item : α} (hitem : items[position]? = some item) :
    ∃ result, results[position]? = some result ∧ r item result := by
  obtain ⟨hlength, hget⟩ := List.forall₂_iff_get.mp h
  obtain ⟨hlt, rfl⟩ := List.getElem?_eq_some_iff.mp hitem
  exact ⟨results[position], List.getElem?_eq_getElem _, hget position hlt (hlength ▸ hlt)⟩

/-- Lists that are related to the same list are related to each other. -/
theorem forall₂_trans {r : α → β → Prop} {s : β → γ → Prop} {t : α → γ → Prop} {items : List α}
    {between : List β} {results : List γ} (h : List.Forall₂ r items between)
    (h' : List.Forall₂ s between results) (htrans : ∀ {item middle result}, r item middle →
      s middle result → t item result) : List.Forall₂ t items results := by
  induction h generalizing results with
  | nil => cases h'; exact .nil
  | cons hfirst _ ih =>
    cases h' with
    | cons hfirst' hrest' => exact .cons (htrans hfirst hfirst') (ih hrest')

/-- Related lists are related by what follows for their items. -/
theorem forall₂_imp_mem {r s : α → β → Prop} {items : List α} {results : List β}
    (h : List.Forall₂ r items results)
    (himp : ∀ item ∈ items, ∀ result, r item result → s item result) : List.Forall₂ s items results := by
  induction h with
  | nil => exact .nil
  | cons hfirst _ ih =>
    obtain ⟨himp, hothers⟩ := List.forall_mem_cons.mp himp
    exact .cons (himp _ hfirst) (ih hothers)

/-- Results of distinct items are distinct if items with the same result are the same. -/
theorem nodup_map_of_forall₂ {r : α → β → Prop} {items : List α} {results : List β} {f : β → γ}
    (h : List.Forall₂ r items results) (hitems : items.Nodup)
    (hsame : ∀ {item other result result'}, r item result → r other result' → f result = f result' →
      item = other) : (results.map f).Nodup := by
  induction h with
  | nil => exact List.nodup_nil
  | cons hfirst hrest ih =>
    obtain ⟨hnew, hitems⟩ := List.nodup_cons.mp hitems
    refine List.nodup_cons.mpr ⟨fun hmem => ?_, ih hitems⟩
    obtain ⟨result, hresult, heq⟩ := List.mem_map.mp hmem
    obtain ⟨other, hother, hr⟩ := exists_left_of_forall₂ hrest hresult
    exact hnew (hsame hfirst hr heq.symm ▸ hother)

/-- What is kept of a list has one image if all of its items have it. -/
theorem map_filter_eq_replicate {f : α → β} {keeps : α → Bool} {items : List α} {b : β}
    (h : ∀ item ∈ items, f item = b) : (items.filter keeps).map f = List.replicate (items.countP keeps) b := by
  rw [List.countP_eq_length_filter, List.map_eq_replicate_iff]
  exact fun item hmem => h item (List.mem_of_mem_filter hmem)

/-- Functions that agree on what is related give the same lists. -/
theorem map_eq_map_of_forall₂ {r : α → β → Prop} {items : List α} {results : List β}
    (h : List.Forall₂ r items results) {f : α → γ} {g : β → γ}
    (hsame : ∀ item result, r item result → f item = g result) : items.map f = results.map g := by
  induction h with
  | nil => rfl
  | cons hfirst _ ih => rw [List.map_cons, List.map_cons, hsame _ _ hfirst, ih]

/-- Functions that agree on what is related keep the same results. -/
theorem filterMap_eq_filterMap_of_forall₂ {r : α → β → Prop} {items : List α} {results : List β}
    (h : List.Forall₂ r items results) {f : α → Option γ} {g : β → Option γ}
    (hsame : ∀ item result, r item result → f item = g result) :
    items.filterMap f = results.filterMap g := by
  induction h with
  | nil => rfl
  | cons hfirst _ ih => rw [List.filterMap_cons, List.filterMap_cons, hsame _ _ hfirst, ih]

/-- What is looked up in a list is in the list. -/
theorem mem_of_lookup [BEq α] [LawfulBEq α] {entries : List (α × β)} {key : α} {value : β}
    (h : entries.lookup key = some value) : (key, value) ∈ entries := by
  obtain ⟨before, after, rfl, -⟩ := List.lookup_eq_some_iff.mp h
  exact List.mem_append_right _ List.mem_cons_self

/-- A computation over a list fails as it does for one of the items. -/
theorem exists_of_mapM_eq_error {f : α → Except ε β} {items : List α} {e : ε}
    (h : items.mapM f = .error e) : ∃ item ∈ items, f item = .error e := by
  induction items with
  | nil => simp [pure_ne_error] at h
  | cons item rest ih =>
    rw [List.mapM_cons, bind_eq_error] at h
    rcases h with h | ⟨first, -, h⟩
    · exact ⟨item, List.mem_cons_self, h⟩
    · rcases bind_eq_error.mp h with h | ⟨_, -, h⟩
      · obtain ⟨other, hother, h⟩ := ih h
        exact ⟨other, List.mem_cons_of_mem _ hother, h⟩
      · exact absurd h pure_ne_error

/-- A filter succeeds if its test does for each item, and keeps the items that pass. -/
theorem filterM_eq_ok {passes : α → Except ε Bool} {items kept : List α} :
    items.filterM passes = .ok kept ↔ (∀ item ∈ items, ∃ keep, passes item = .ok keep) ∧
      kept = items.filter fun item => (passes item).toOption == some true := by
  have hafter (items done kept : List α) : items.filterAuxM passes done = .ok kept ↔
      (∀ item ∈ items, ∃ keep, passes item = .ok keep) ∧
        kept = (items.filter fun item => (passes item).toOption == some true).reverse ++ done := by
    induction items generalizing done with
    | nil => simpa [List.filterAuxM] using pure_eq_ok.trans eq_comm
    | cons item items ih =>
      rw [List.filterAuxM, bind_eq_ok, List.forall_mem_cons]
      constructor
      · rintro ⟨keep, hkeep, h⟩
        obtain ⟨hrest, rfl⟩ := (ih _).mp h
        exact ⟨⟨⟨keep, hkeep⟩, hrest⟩, by cases keep <;> simp [hkeep, Except.toOption]⟩
      · rintro ⟨⟨⟨keep, hkeep⟩, hrest⟩, rfl⟩
        exact ⟨keep, hkeep, (ih _).mpr ⟨hrest, by cases keep <;> simp [hkeep, Except.toOption]⟩⟩
  rw [List.filterM, bind_eq_ok]
  simp only [hafter, pure_eq_ok, List.append_nil]
  constructor
  · rintro ⟨_, ⟨hpasses, rfl⟩, rfl⟩
    exact ⟨hpasses, List.reverse_reverse _⟩
  · rintro ⟨hpasses, rfl⟩
    exact ⟨_, ⟨hpasses, rfl⟩, List.reverse_reverse _⟩

/-- A filter keeps the items that pass. -/
theorem mem_of_filterM_eq_ok {passes : α → Except ε Bool} {items kept : List α}
    (h : items.filterM passes = .ok kept) {item : α} :
    item ∈ kept ↔ item ∈ items ∧ passes item = .ok true := by
  rw [(filterM_eq_ok.mp h).2, List.mem_filter, beq_iff_eq, toOption_eq_some]

/-- What every step of a fold keeps, the fold keeps. -/
theorem foldlM_induction {f : β → α → Except ε β} (motive : β → Prop) {items : List α}
    {start result : β}
    (hstep : ∀ state item next, item ∈ items → motive state → f state item = .ok next → motive next)
    (hstart : motive start) (h : items.foldlM f start = .ok result) : motive result := by
  induction items generalizing start with
  | nil =>
    obtain rfl := pure_eq_ok.mp h
    exact hstart
  | cons item rest ih =>
    rw [List.foldlM_cons] at h
    obtain ⟨next, hnext, h⟩ := bind_eq_ok.mp h
    refine ih (fun state other next hother => hstep state other next (List.mem_cons_of_mem _ hother))
      ?_ h
    exact hstep start item next List.mem_cons_self hstart hnext

/-- Folds over related lists go on in lock-step if each of their steps does. -/
theorem exists_foldlM_of_forall₂ {σ τ : Type} {r : α → γ → Prop} {related : σ → τ → Prop}
    {f : σ → α → Except ε σ} {g : τ → γ → Except ε τ} {items : List α} {others : List γ}
    (hitems : List.Forall₂ r items others)
    (hstep : ∀ {item other state state' next}, item ∈ items → r item other → related state state' →
      f state item = .ok next → ∃ next', g state' other = .ok next' ∧ related next next')
    {start result : σ} {start' : τ} (hstart : related start start')
    (h : items.foldlM f start = .ok result) :
    ∃ result', others.foldlM g start' = .ok result' ∧ related result result' := by
  induction hitems generalizing start start' with
  | nil =>
    obtain rfl := pure_eq_ok.mp h
    exact ⟨start', rfl, hstart⟩
  | cons hfirst _ ih =>
    rw [List.foldlM_cons] at h
    obtain ⟨next, hnext, h⟩ := bind_eq_ok.mp h
    obtain ⟨next', hnext', hrelated⟩ := hstep List.mem_cons_self hfirst hstart hnext
    obtain ⟨result', hresult', hrelated⟩ :=
      ih (fun hmem => hstep (List.mem_cons_of_mem _ hmem)) hrelated h
    refine ⟨result', ?_, hrelated⟩
    rw [List.foldlM_cons]
    exact bind_eq_ok.mpr ⟨next', hnext', hresult'⟩

/-- A fold succeeds if each of its steps does, whatever came before. -/
theorem exists_foldlM_eq_ok {f : β → α → Except ε β} {items : List α}
    (h : ∀ item ∈ items, ∀ state, ∃ next, f state item = .ok next) (start : β) :
    ∃ result, items.foldlM f start = .ok result := by
  induction items generalizing start with
  | nil => exact ⟨start, rfl⟩
  | cons item rest ih =>
    obtain ⟨hfirst, hrest⟩ := List.forall_mem_cons.mp h
    obtain ⟨next, hnext⟩ := hfirst start
    obtain ⟨result, hresult⟩ := ih hrest next
    exact ⟨result, by rw [List.foldlM_cons]; exact bind_eq_ok.mpr ⟨next, hnext, hresult⟩⟩

/-! ## Failures that are avoided -/

/-- A computation avoids failures of some kind. -/
def Avoids (p : ε → Prop) (x : Except ε α) : Prop := ∀ e, x = .error e → ¬ p e

section

variable {p : ε → Prop}

@[simp] theorem avoids_ok (a : α) : Avoids p (.ok a : Except ε α) := by
  intro e h
  cases h

@[simp] theorem avoids_pure (a : α) : Avoids p (pure a : Except ε α) := avoids_ok a

@[simp] theorem avoids_error {e : ε} : Avoids p (.error e : Except ε α) ↔ ¬ p e := by
  simp [Avoids]

@[simp] theorem avoids_throw {e : ε} : Avoids p (throw e : Except ε α) ↔ ¬ p e := avoids_error

/-- Failures of a kind are avoided where those of a wider kind are. -/
theorem Avoids.imp {q : ε → Prop} {x : Except ε α} (h : Avoids p x) (hkind : ∀ e, q e → p e) : Avoids q x :=
  fun e he hq => h e he (hkind e hq)

/-- What a computation avoids, and what follows its values avoids, both together avoid. -/
theorem Avoids.bind_ok {x : Except ε α} {f : α → Except ε β} (h : Avoids p x)
    (hnext : ∀ a, x = .ok a → Avoids p (f a)) : Avoids p (x >>= f) := by
  intro e he
  rcases bind_eq_error.mp he with hfirst | ⟨a, ha, hsecond⟩
  · exact h e hfirst
  · exact hnext a ha e hsecond

/-- What a computation and what follows avoid, both together avoid. -/
theorem Avoids.bind {x : Except ε α} {f : α → Except ε β} (h : Avoids p x) (hnext : ∀ a, Avoids p (f a)) :
    Avoids p (x >>= f) :=
  h.bind_ok fun a _ => hnext a

/-- A computation that avoids every failure succeeds. -/
theorem avoids_true {x : Except ε α} : Avoids (fun _ => True) x ↔ ∃ a, x = .ok a := by
  cases x <;> simp [Avoids]

/-- What is avoided for each item is avoided for all. -/
theorem Avoids.mapM {f : α → Except ε β} {items : List α} (h : ∀ item ∈ items, Avoids p (f item)) :
    Avoids p (items.mapM f) := by
  intro e he
  obtain ⟨item, hmem, hitem⟩ := exists_of_mapM_eq_error he
  exact h item hmem e hitem

/-- What is avoided in each step is avoided in a fold. -/
theorem Avoids.foldlM {f : β → α → Except ε β} {items : List α}
    (h : ∀ state, ∀ item ∈ items, Avoids p (f state item)) (start : β) : Avoids p (items.foldlM f start) := by
  induction items generalizing start with
  | nil => exact avoids_pure start
  | cons item items ih =>
    rw [List.foldlM_cons]
    exact (h start item List.mem_cons_self).bind
      (ih fun state other hmem => h state other (List.mem_cons_of_mem _ hmem))

end

end Outcome

end ClassInstrument
