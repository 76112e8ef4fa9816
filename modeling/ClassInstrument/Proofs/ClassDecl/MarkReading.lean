import ClassInstrument.Proofs.ClassDecl.ReadBack

/-!
# Annotations are read back

Values nest, and a reader of values is given a bound on the depth.  It never comes to it on byte strings that
are no longer than the bound: two readers that agree on shorter strings (`PoolReader.Agree`) agree behind a
tag.  So the bound says nothing about what is read, and reading without one would end.

A reader does not look at what comes behind the bytes that it takes (`PoolReader.Continues`).  So contents
that are read as a whole are not read if anything is put behind them.
-/

namespace ClassInstrument

open Outcome Interning Reader

/-! ## Readers -/

namespace PoolReader

variable {α β : Type} {read other : PoolReader α} {next next' : α → PoolReader β} {length : ℕ}

/-- One reader reads what another leaves. -/
theorem apply_bind (bytes : Bytes) : (read >>= next) bytes =
    match read bytes with
    | .ok (value, rest) => next value rest
    | .error fault => .error fault := by
  simp only [bind, StateT.bind, Except.bind]
  cases read bytes <;> rfl

/-- What is taken off the front makes a byte string no longer. -/
theorem Takes.length_le {written : α → Bytes → Prop} (h : Takes read written) {bytes rest : Bytes} {value : α}
    (hread : read bytes = .ok (value, rest)) : rest.length ≤ bytes.length := by
  obtain ⟨front, rfl, -⟩ := h _ _ _ hread
  simp

/-- Two readers give the same on byte strings up to some length. -/
def Agree (length : ℕ) (read other : PoolReader α) : Prop :=
  ∀ bytes : Bytes, bytes.length ≤ length → read bytes = other bytes

theorem Agree.refl (length : ℕ) (read : PoolReader α) : Agree length read read := fun _ _ => rfl

/-- Readers that follow readers that agree read no longer byte strings than these. -/
theorem Agree.bind {written : α → Bytes → Prop} (h : Agree length read other) (htakes : Takes read written)
    (hnext : ∀ value, Agree length (next value) (next' value)) : Agree length (read >>= next) (other >>= next') := by
  intro bytes hlength
  rw [apply_bind, apply_bind, ← h bytes hlength]
  cases hread : read bytes with
  | error fault => rfl
  | ok result => exact hnext _ _ ((htakes.length_le hread).trans hlength)

/-- Items are read alike if each of them is. -/
theorem Agree.many {written : α → Bytes → Prop} (h : Agree length read other) (htakes : Takes read written)
    (count : ℕ) : Agree length (Reader.many read count) (Reader.many other count) := by
  have hafter : ∀ done, Agree length (repeatAfter read count done) (repeatAfter other count done) := by
    induction count with
    | zero => exact fun done => .refl _ _
    | succ count ih => exact fun done => h.bind htakes fun item => ih (item :: done)
  exact hafter []

/-- A reader reads on in the same way if more bytes come behind. -/
def Continues (read : PoolReader α) : Prop :=
  ∀ (bytes rest : Bytes) (value : α), read bytes = .ok (value, rest) →
    ∀ more : Bytes, read (bytes ++ more) = .ok (value, rest ++ more)

namespace Continues

theorem pure (value : α) : Continues (Pure.pure value) := by
  intro bytes rest result h more
  obtain ⟨rfl, rfl⟩ := PoolReader.pure_eq_ok.mp h
  rfl

theorem lift (action : Except Fault α) : Continues (liftM action) := by
  intro bytes rest result h more
  obtain ⟨hresult, rfl⟩ := PoolReader.lift_eq_ok.mp h
  exact PoolReader.lift_eq_ok.mpr ⟨hresult, rfl⟩

theorem throw (fault : Fault) : Continues (MonadExcept.throw fault : PoolReader α) :=
  fun _ _ _ h => absurd h throw_ne_ok

theorem bind (h : Continues read) (hnext : ∀ value, Continues (next value)) : Continues (read >>= next) := by
  intro bytes rest result hread more
  obtain ⟨value, middle, hvalue, hresult⟩ := PoolReader.bind_eq_ok.mp hread
  exact PoolReader.bind_eq_ok.mpr ⟨value, _, h _ _ _ hvalue more, hnext value _ _ _ hresult more⟩

/-- What is taken in the one form in which it is read back is read back if more comes behind. -/
theorem ofReader {reader : Reader α} {write : α → Bytes} (htakes : Reader.Takes reader (Reader.Exactly write))
    (hback : ∀ value, ReadsBack reader value (write value)) : Continues (ofReader reader) := by
  intro bytes rest value h more
  obtain ⟨front, rfl, rfl⟩ := takes_ofReader htakes _ _ _ h
  rw [List.append_assoc]
  exact readsBack_ofReader (hback value) _

theorem u1 : Continues (PoolReader.ofReader Reader.u1) := ofReader takes_u1 .u1

theorem u2 : Continues (PoolReader.ofReader Reader.u2) := ofReader takes_u2 u2_append

theorem constant (pool : Pool) : Continues (PoolReader.constant pool) := u2.bind fun _ => lift _

theorem utf8 (pool : Pool) : Continues (PoolReader.utf8 pool) := u2.bind fun _ => lift _

theorem many (h : Continues read) (count : ℕ) : Continues (Reader.many read count) := by
  have hafter : ∀ done, Continues (repeatAfter read count done) := by
    induction count with
    | zero => exact fun done => pure _
    | succ count ih => exact fun done => h.bind fun item => ih (item :: done)
  exact hafter []

/-- Contents that are read as a whole are not read if anything comes behind them. -/
theorem whole_append (h : Continues read) {name : String} {info more : Bytes} {value : α}
    (hread : whole name read info = .ok value) (hmore : more ≠ []) :
    whole name read (info ++ more) = .error (.malformedAttribute name) := by
  obtain ⟨⟨result, rest⟩, hresult, hwhole⟩ := Outcome.bind_eq_ok.mp hread
  cases rest with
  | nil =>
    refine bind_eq_error.mpr (.inr ⟨_, h _ _ _ hresult more, ?_⟩)
    obtain ⟨byte, behind, rfl⟩ := List.exists_cons_of_ne_nil hmore
    rfl
  | cons => cases hwhole

end Continues

end PoolReader

/-! ## Values -/

namespace ElementValue

open PoolReader

variable {pool : Pool} {readValue readOther : PoolReader ElementValue} {length : ℕ}

/-- Reads a value behind its tag, with a reader for nested values. -/
def readBehind (pool : Pool) (readValue : PoolReader ElementValue) (tag : UInt8) : PoolReader ElementValue :=
  match tag with
  | 64 => do
    let descriptor ← PoolReader.utf8 pool
    return nested descriptor (← readProperties pool readValue)
  | 91 => do
    let count ← PoolReader.ofReader Reader.u2
    return array (← Reader.many readValue count.toNat)
  | tag => readFlat pool tag

theorem read_succ (pool : Pool) (depth : ℕ) : ElementValue.read pool (depth + 1) =
    ofReader u1 >>= readBehind pool (ElementValue.read pool depth) := rfl

/-- What a value is taken as. -/
theorem takes_value (pool : Pool) (depth : ℕ) : Takes (ElementValue.read pool depth) (Spells pool.Holds) :=
  takes_read (composes_spells pool) depth

theorem agree_readProperties {form : ElementValue → Bytes → Prop} (h : Agree length readValue readOther)
    (htakes : Takes readValue form) :
    Agree length (readProperties pool readValue) (readProperties pool readOther) := by
  have hproperty : Agree length (readProperty pool readValue) (readProperty pool readOther) :=
    (Agree.refl length _).bind (takes_utf8 pool) fun name => h.bind htakes fun value => .refl _ _
  exact (Agree.refl length _).bind (takes_ofReader takes_u2) fun _ =>
    hproperty.many (takes_readProperty htakes) _

/-- Behind a tag, values are read alike if nested ones are. -/
theorem agree_readBehind {form : ElementValue → Bytes → Prop} (h : Agree length readValue readOther)
    (htakes : Takes readValue form) (tag : UInt8) :
    Agree length (readBehind pool readValue tag) (readBehind pool readOther tag) := by
  unfold readBehind
  split
  · exact (Agree.refl length _).bind (takes_utf8 pool) fun descriptor =>
      (agree_readProperties h htakes).bind (takes_readProperties htakes) fun values => .refl _ _
  · exact (Agree.refl length _).bind (takes_ofReader takes_u2) fun _ =>
      (h.many htakes _).bind (takes_many htakes _) fun elements => .refl _ _
  · exact .refl _ _

/-- Values in a byte string nest at most as deep as it is long. -/
theorem agree_read (pool : Pool) {depth : ℕ} (hdepth : length ≤ depth) :
    Agree length (ElementValue.read pool length) (ElementValue.read pool depth) := by
  induction length generalizing depth with
  | zero =>
    intro bytes hbytes
    obtain rfl := List.eq_nil_of_length_eq_zero (Nat.le_zero.mp hbytes)
    cases depth <;> rfl
  | succ length ih =>
    obtain _ | depth := depth
    · exact absurd hdepth (Nat.not_succ_le_zero length)
    have hbehind : ∀ tag, Agree length (readBehind pool (ElementValue.read pool length) tag)
        (readBehind pool (ElementValue.read pool depth) tag) :=
      agree_readBehind (ih (Nat.le_of_succ_le_succ hdepth)) (takes_value pool length)
    rw [read_succ, read_succ]
    rintro (_ | ⟨tag, bytes⟩) hbytes
    · rfl
    · exact hbehind tag bytes (Nat.le_of_succ_le_succ hbytes)

/-- A value that does not nest is read on alike. -/
theorem continues_readFlat (pool : Pool) (tag : UInt8) : Continues (readFlat pool tag) := by
  have hconstant : ∀ {next : Constant → PoolReader ElementValue}, (∀ constant, Continues (next constant)) →
      Continues (PoolReader.constant pool >>= next) := (Continues.constant pool).bind
  unfold readFlat
  split
  · refine hconstant fun constant => ?_
    split
    · exact .pure _
    · exact .throw _
  · split
    · refine hconstant fun constant => ?_
      split
      · exact .pure _
      · exact .throw _
    · refine hconstant fun constant => ?_
      split
      · exact .pure _
      · exact .throw _
    · refine hconstant fun constant => ?_
      split
      · exact .pure _
      · exact .throw _
    · exact (Continues.utf8 pool).bind fun _ => .pure _
    · exact (Continues.utf8 pool).bind fun _ => (Continues.utf8 pool).bind fun _ => .pure _
    · exact (Continues.utf8 pool).bind fun _ => .pure _
    · exact .throw _

theorem continues_readProperties (h : Continues readValue) : Continues (readProperties pool readValue) :=
  .bind .u2 fun _ => .many (.bind (.utf8 pool) fun _ => h.bind fun _ => .pure _) _

/-- Behind a tag, values are read on alike if nested ones are. -/
theorem continues_readBehind (h : Continues readValue) (tag : UInt8) : Continues (readBehind pool readValue tag) := by
  unfold readBehind
  split
  · exact (Continues.utf8 pool).bind fun _ => (continues_readProperties h).bind fun _ => .pure _
  · exact Continues.u2.bind fun _ => (h.many _).bind fun _ => .pure _
  · exact continues_readFlat pool _

theorem continues_read (pool : Pool) (depth : ℕ) : Continues (ElementValue.read pool depth) := by
  induction depth with
  | zero => exact .throw _
  | succ depth ih => exact .bind .u1 (continues_readBehind ih)

mutual

/-- A value is refused by a full pool only. -/
theorem never_write {p : Fault → Prop} (hfull : ∀ constant offset, ¬ p (.poolOverflow constant offset))
    (value : ElementValue) : value.write.Never p := by
  cases value with
  | int _ _ | long _ | float _ | double _ | string _ | cls _ =>
    exact (Never.intern _ (hfull _)).bind fun _ => .pure _
  | enum _ _ => exact (Never.intern _ (hfull _)).bind fun _ => (Never.intern _ (hfull _)).bind fun _ => .pure _
  | nested _ values =>
    exact (Never.intern _ (hfull _)).bind fun _ => (never_writeValues hfull values).bind fun _ => .pure _
  | array elements => exact (never_writeElements hfull elements).bind fun _ => .pure _

theorem never_writeElements {p : Fault → Prop} (hfull : ∀ constant offset, ¬ p (.poolOverflow constant offset))
    (elements : List ElementValue) : (writeElements elements).Never p := by
  cases elements with
  | nil => exact .pure _
  | cons element rest =>
    exact (never_write hfull element).bind fun _ => (never_writeElements hfull rest).bind fun _ => .pure _

theorem never_writeValues {p : Fault → Prop} (hfull : ∀ constant offset, ¬ p (.poolOverflow constant offset))
    (values : List (String × ElementValue)) : (writeValues values).Never p := by
  cases values with
  | nil => exact .pure _
  | cons property rest =>
    exact (Never.intern _ (hfull _)).bind fun _ => (never_write hfull property.2).bind fun _ =>
      (never_writeValues hfull rest).bind fun _ => .pure _

end

end ElementValue

/-! ## Annotations -/

namespace Annotation

open PoolReader

/-- Reads a list of annotations in which values nest at most `depth` deep. -/
def readMarks (pool : Pool) (depth : ℕ) : PoolReader (List Annotation) := do
  let count ← PoolReader.ofReader Reader.u2
  Reader.many ( Annotation.read pool depth) count.toNat

/-- The annotations that an attribute lists, if values nest at most `depth` deep in it. -/
def readListWithin (pool : Pool) (depth : ℕ) (info : Bytes) : Except Fault (List Annotation) :=
  whole visibleAttribute (readMarks pool depth) info

/-- Readers that agree on all contents read them as a whole alike. -/
theorem whole_congr {α : Type} {read other : PoolReader α} {info : Bytes} (h : Agree info.length read other)
    (name : String) : whole name read info = whole name other info := by
  unfold whole
  rw [h info le_rfl]

theorem agree_readMarks (pool : Pool) {length depth : ℕ} (hdepth : length ≤ depth) :
    Agree length (readMarks pool length) (readMarks pool depth) := by
  have hvalue := ElementValue.agree_read pool hdepth
  have htakes := ElementValue.takes_value pool length
  have hmark : Agree length ( Annotation.read pool length) ( Annotation.read pool depth) :=
    (Agree.refl length _).bind (takes_utf8 pool) fun _ =>
      (ElementValue.agree_readProperties hvalue htakes).bind (ElementValue.takes_readProperties htakes)
        fun _ => .refl _ _
  exact (Agree.refl length _).bind (takes_ofReader takes_u2) fun _ =>
    hmark.many (takes_mark (ElementValue.composes_spells pool) length) _

/-- The bound on the depth is not felt in a list of annotations if it is as large as the number of bytes. -/
theorem readListWithin_eq {pool : Pool} {depth : ℕ} {info : Bytes} (hdepth : info.length ≤ depth) :
    readListWithin pool depth info = readList pool info :=
  (whole_congr (agree_readMarks pool hdepth) visibleAttribute).symm

/-- A list of annotations is read on alike. -/
theorem continues_readMarks (pool : Pool) (depth : ℕ) : Continues (readMarks pool depth) :=
  .bind .u2 fun _ => .many (.bind (.utf8 pool) fun _ =>
    (ElementValue.continues_readProperties (ElementValue.continues_read pool depth)).bind fun _ => .pure _) _

/-- No bytes are left over of a list of annotations: with more bytes it is no list. -/
theorem readList_append {pool : Pool} {info more : Bytes} {marks : List Annotation}
    (h : readList pool info = .ok marks) (hmore : more ≠ []) :
    readList pool (info ++ more) = .error (.malformedAttribute visibleAttribute) := by
  have hdepth : info.length ≤ (info ++ more).length := by simp
  rw [← readListWithin_eq hdepth] at h
  exact (continues_readMarks pool _).whole_append h hmore

/-- Annotations are refused by a full pool only. -/
theorem never_writeList {p : Fault → Prop} (hfull : ∀ constant offset, ¬ p (.poolOverflow constant offset))
    (name : String) (marks : List Annotation) : (writeList name marks).Never p := by
  have hmark (mark : Annotation) : mark.write.Never p :=
    (Never.intern _ (hfull _)).bind fun _ => (ElementValue.never_writeValues hfull _).bind fun _ => .pure _
  unfold writeList
  split
  · exact .pure _
  · exact (Never.mapM fun mark _ => hmark mark).bind fun _ => ((Never.intern _ (hfull _)).bind fun _ => .pure _).bind
      fun _ => .pure _

/-- A default is refused by a full pool only. -/
theorem never_writeDefault {p : Fault → Prop} (hfull : ∀ constant offset, ¬ p (.poolOverflow constant offset))
    (value : ElementValue) : (writeDefault value).Never p :=
  (ElementValue.never_write hfull value).bind fun _ => (Never.intern _ (hfull _)).bind fun _ => .pure _

/-- A fault that says that a pool has no room. -/
def IsOverflow (fault : Fault) : Prop := ∃ constant offset, fault = .poolOverflow constant offset

/-- Annotations and defaults are written to a pool with room, and read back with all pools that extend the one
that is left.  Lists of annotations are read to an end in all byte strings, and never with bytes left over. -/
theorem reads_back (pool : Pool) :
    (∀ name marks, FitsList marks →
      (∀ fault, (writeList name marks).finish pool = .error fault → IsOverflow fault) ∧
      ∀ attr left, (writeList name marks).finish pool = .ok (some attr, left) →
        ∀ later : Pool, left.Extends later → readList later attr.info = .ok marks) ∧
    (∀ value : ElementValue, value.Fits →
      (∀ fault, (writeDefault value).finish pool = .error fault → IsOverflow fault) ∧
      ∀ attr left, (writeDefault value).finish pool = .ok (attr, left) →
        ∀ later : Pool, left.Extends later → readDefault later attr.info = .ok value) ∧
    (∀ info depth, info.length ≤ depth → readListWithin pool depth info = readList pool info) ∧
    ∀ info marks more, readList pool info = .ok marks → more ≠ [] →
      readList pool (info ++ more) = .error (.malformedAttribute visibleAttribute) := by
  have hfull : ∀ constant offset, ¬ ¬ IsOverflow (.poolOverflow constant offset) :=
    fun constant offset h => h ⟨constant, offset, rfl⟩
  have hrefused : ∀ {α : Type} {requests : Interning α}, requests.Never (fun fault => ¬ IsOverflow fault) →
      ∀ fault, requests.finish pool = .error fault → IsOverflow fault :=
    fun hnever fault hfault => not_not.mp (hnever pool fault hfault)
  refine ⟨fun name marks hfits =>
      ⟨hrefused (never_writeList hfull name marks), fun attr left hfinish later hlater => ?_⟩,
    fun value hfits =>
      ⟨hrefused (never_writeDefault hfull value), fun attr left hfinish later hlater => ?_⟩,
    fun info depth hdepth => readListWithin_eq hdepth, fun info marks more hread hmore => readList_append hread hmore⟩
  · exact readList_of_settled hfits ((repeats_writeList name marks).again hfinish hlater)
  · exact readDefault_of_settled hfits ((repeats_writeDefault value).again hfinish hlater)

/-- An annotation that carries another one is read back, and no longer if a byte comes behind it. -/
theorem reads_back_nested :
    readList defaultPool [0, 1, 0, 8, 0, 1, 0, 9, 64, 0, 8, 0, 0] =
      .ok [⟨"LM;", [("w", .nested "LM;" [])]⟩] ∧
    readDefault defaultPool [91, 0, 1, 73, 0, 6] = .ok (.array [.int .int 7]) ∧
    readListWithin defaultPool 100 [0, 1, 0, 8, 0, 1, 0, 9, 64, 0, 8, 0, 0] =
      .ok [⟨"LM;", [("w", .nested "LM;" [])]⟩] ∧
    readList defaultPool ([0, 1, 0, 8, 0, 1, 0, 9, 64, 0, 8, 0, 0] ++ [0]) =
      .error (.malformedAttribute visibleAttribute) := by
  have hmarks : FitsList [⟨"LM;", [("w", .nested "LM;" [])]⟩] := by
    simp [FitsList, Fits, ElementValue.FitsValues, ElementValue.Fits]
  have hvalue : ElementValue.Fits (.array [.int .int 7]) := ⟨by decide, trivial, trivial⟩
  obtain ⟨hlist, hdefault, hdepth, hmore⟩ := reads_back defaultPool
  have hread := (hlist _ _ hmarks).2 _ _ settled_writeList_defaultPool defaultPool (.refl _)
  refine ⟨hread, (hdefault _ hvalue).2 _ _ settled_writeDefault_defaultPool defaultPool (.refl _), ?_, ?_⟩
  · rw [hdepth _ 100 (by decide), hread]
  · exact hmore _ _ [0] hread (by decide)

end Annotation

end ClassInstrument
