import ClassInstrument.Proofs.Assembly.Bounds
import ClassInstrument.Proofs.Code.Reading

/-!
# Reading back the tables of a body

Handlers and scopes of variables are written with the offsets of their labels, and read back with labels
that are given to these offsets.  Lines are written with the offsets at which they stand.  The list of
frames is passed over.  No table may have more than `65535` entries, because their number takes two bytes.
-/

namespace ClassInstrument

open Interning Outcome

/-! ## Entries -/

/-- A handler is another one but for its labels, which are related. -/
structure Handler.Matches (related : Label → Label → Prop) (entry original : Handler) : Prop where
  start : related entry.start original.start
  stop : related entry.stop original.stop
  handler : related entry.handler original.handler
  caught : entry.caught = original.caught

/-- The scope of a variable is another one but for its labels, which are related. -/
structure VariableRange.Matches (related : Label → Label → Prop) (range original : VariableRange) :
    Prop where
  start : related range.start original.start
  stop : related range.stop original.stop
  name : range.name = original.name
  descriptor : range.descriptor = original.descriptor
  slot : range.slot = original.slot

theorem Handler.Matches.mono {related related' : Label → Label → Prop} {entry original : Handler}
    (h : entry.Matches related original)
    (himp : ∀ label original, related label original → related' label original) :
    entry.Matches related' original :=
  ⟨himp _ _ h.start, himp _ _ h.stop, himp _ _ h.handler, h.caught⟩

theorem VariableRange.Matches.mono {related related' : Label → Label → Prop}
    {range original : VariableRange} (h : range.Matches related original)
    (himp : ∀ label original, related label original → related' label original) :
    range.Matches related' original :=
  ⟨himp _ _ h.start, himp _ _ h.stop, h.name, h.descriptor, h.slot⟩

/-- A line is read back. -/
theorem LineEntry.read_append (entry : LineEntry) (rest : Bytes) :
    read (entry.write ++ rest) = .ok (entry, rest) := by
  change (Reader.u2 >>= fun start => Reader.u2 >>= fun line =>
    (pure ⟨start, line⟩ : Reader LineEntry)) _ = _
  simp only [write, List.append_assoc, bind, StateT.bind, Reader.u2_append, Except.bind]
  rfl

/-- The scope of a variable is read back. -/
theorem VariableEntry.read_append (entry : VariableEntry) (rest : Bytes) :
    read (entry.write ++ rest) = .ok (entry, rest) := by
  change (Reader.u2 >>= fun start => Reader.u2 >>= fun length => Reader.u2 >>= fun name =>
    Reader.u2 >>= fun descriptor => Reader.u2 >>= fun slot =>
      (pure ⟨start, length, name, descriptor, slot⟩ : Reader VariableEntry)) _ = _
  simp only [write, List.append_assoc, bind, StateT.bind, Reader.u2_append, Except.bind]
  rfl

namespace Attribute

/-- A table that fits its length is read back as a whole. -/
theorem decode_list {α : Type} {read : Reader α} {write : α → Bytes}
    (hread : ∀ item rest, read (write item ++ rest) = .ok (item, rest)) {items : List α}
    (hlength : items.length ≤ 65535) (name : String) {attr : Attribute}
    (hinfo : attr.info = Bytes.list write items) :
    attr.decode name (Reader.list read) = .ok items := by
  have hitems := Reader.list_append (fun item _ => hread item) (Nat.lt_succ_of_le hlength) []
  rw [List.append_nil] at hitems
  rw [decode, hinfo, hitems]

end Attribute

/-! ## Handlers and scopes -/

namespace CodeReader

variable {labels : Placements} {pool : Pool} {start offset : ℕ}

/-- Items that are read back one by one without taking bytes are read back in a list. -/
theorem Reads.mapM {α γ δ : Type} {action : γ → CodeReader α} {related : OffsetLabels → α → δ → Prop}
    {items : List γ} {originals : List δ}
    (h : List.Forall₂ (fun item original => Reads labels start offset (action item) []
      fun later value => related later value original) items originals) :
    Reads labels start offset (items.mapM action) []
      fun later values => List.Forall₂ (related later) values originals := by
  induction h with
  | nil =>
    rw [List.mapM_nil]
    exact .pure fun _ => .nil
  | cons hfirst _ ih =>
    rw [List.mapM_cons]
    exact hfirst.bind fun value => ih.bind fun values => .pure fun _ hvalues hvalue =>
      .cons hvalue hvalues

/-- The class that a handler catches is looked up where it was put. -/
theorem reads_caught {caught : Option String} {index : Option PoolIndex}
    (h : (caught.mapM Pool.internClass : Interning _).Settled pool index) :
    Reads labels start offset
      (index.mapM fun index => (pool.className index : CodeReader String)) []
      fun _ value => value = caught := by
  cases caught with
  | none =>
    obtain rfl := settled_pure.mp h
    exact .pure fun _ => rfl
  | some name =>
    obtain ⟨found, hfound, h⟩ := ((Pool.repeats_internClass name).settled_bind fun _ => .pure _).mp h
    obtain rfl := settled_pure.mp h
    rw [Option.mapM_some, map_eq_pure_bind]
    exact .lift (Pool.className_of_settled hfound) (.pure fun _ => rfl)

/-- A handler is read back from the offsets of its labels, which fit in two bytes. -/
theorem reads_handler {original : Handler} {entry : HandlerEntry}
    (hplaced : ∀ {label place}, labels.find label = .ok place → (UInt16.ofNat place).toNat = place)
    (h : (Assembly.handlerEntry labels original).Settled pool (some entry)) :
    Reads labels start offset (handler pool entry) []
      fun later value => value.Matches (Agrees later labels) original := by
  obtain ⟨first, last, hfirst, hlast, ⟨-, hnone⟩ | ⟨-, place, caught, hplace, hcaught, hentry⟩⟩ :=
    Assembly.handlerEntry_settled h
  · cases hnone
  · obtain rfl := Option.some.inj hentry
    unfold handler
    rw [hplaced hfirst, hplaced hlast, hplaced hplace]
    refine (reads_caught hcaught).bind fun value => .label hfirst fun _ => .label hlast fun _ =>
      .label hplace fun _ => .pure fun _ hentered hstop hstart hvalue => ?_
    exact ⟨hstart, hstop, hentered, hvalue⟩

/-- The scope of a variable that does not stop before it starts is read back from the offsets of its
labels, which fit in two bytes. -/
theorem reads_variableRange {original : VariableRange} {entry : VariableEntry}
    (hplaced : ∀ {label place}, labels.find label = .ok place → (UInt16.ofNat place).toNat = place)
    (hordered : ∀ first last, labels.find original.start = .ok first →
      labels.find original.stop = .ok last → first ≤ last)
    (h : Assembly.variableEntry labels original = .ok entry) :
    Reads labels start offset (variableRange entry) []
      fun later value => value.Matches (Agrees later labels) original := by
  obtain ⟨first, hfirst, h⟩ := Outcome.bind_eq_ok.mp h
  obtain ⟨last, hlast, h⟩ := Outcome.bind_eq_ok.mp h
  obtain rfl := Outcome.pure_eq_ok.mp h
  have hle := hordered _ _ hfirst hlast
  have hlength : (UInt16.ofNat (last - first)).toNat = last - first := by
    have := hplaced hlast
    rw [UInt16.toNat_ofNat'] at this ⊢
    omega
  have hlast' : labels.find original.stop =
      .ok ((UInt16.ofNat first).toNat + (UInt16.ofNat (last - first)).toNat) := by
    rw [hplaced hfirst, hlength, hlast]
    congr 1
    omega
  have hfirst' : labels.find original.start = .ok (UInt16.ofNat first).toNat := by
    rw [hplaced hfirst, hfirst]
  unfold variableRange
  exact .label hfirst' fun _ => .label hlast' fun _ => .pure fun _ hstop hstart =>
    ⟨hstart, hstop, rfl, rfl, rfl⟩

/-! ## Attributes -/

/-- An attribute that is made unless a table is empty: there is none, or it is taken in. -/
theorem reads_optional {requests : Interning Attribute} (hrepeats : requests.Repeats) {empty : Bool}
    {attrs : List Attribute}
    (h : (if empty then return [] else return [← requests] : Interning (List Attribute)).Settled
      pool attrs) {tables : BodyTables} {post : OffsetLabels → BodyTables → Prop}
    (hnone : empty → ∀ later, post later tables)
    (hsome : empty = false → ∀ attr, requests.Settled pool attr →
      Reads labels start offset (BodyTables.note pool tables attr) [] post) :
    Reads labels start offset (attrs.foldlM (BodyTables.note pool) tables) [] post := by
  cases empty with
  | true =>
    obtain rfl := settled_pure.mp h
    exact .pure (hnone rfl)
  | false =>
    obtain ⟨attr, hattr, h⟩ := (hrepeats.settled_bind fun _ => .pure _).mp h
    obtain rfl := settled_pure.mp h
    rw [List.foldlM_cons]
    simp only [List.foldlM_nil, bind_pure]
    exact hsome rfl attr hattr

open BodyTables in
/-- A list of frames is passed over. -/
theorem reads_frameAttributes {version : Version} {body : Body} {method : MethodContext}
    {analysis : Analysis} {offsets : Array ℕ} {attrs : List Attribute}
    (h : (Assembly.frameAttributes version body method analysis offsets).Settled pool attrs)
    (tables : BodyTables) :
    Reads labels start offset (attrs.foldlM (note pool) tables) [] fun _ value => value = tables := by
  unfold Assembly.frameAttributes at h
  split at h
  · obtain ⟨frames, -, h⟩ := ((BlockFrames.repeats_list body method analysis offsets).settled_bind
      fun frames => by
        split
        · exact .pure _
        · exact (Attribute.repeats_make _ _).bind fun _ => .pure _).mp h
    refine reads_optional (Attribute.repeats_make _ _) h (fun _ _ => rfl) fun _ attr hattr => ?_
    refine .lift (Attribute.of_settled_make hattr).1 ?_
    rw [if_neg (by decide), if_neg (by decide), if_neg (by decide)]
    exact .pure fun _ => rfl
  · obtain rfl := settled_pure.mp h
    exact .pure fun _ => rfl

open BodyTables in
/-- A table of lines is added to those that are known. -/
theorem reads_lineAttributes {body : Body} {offsets : Layout.Offsets} {attrs : List Attribute}
    (h : (Assembly.lineAttributes body offsets).Settled pool attrs)
    (hlength : (Assembly.lineEntries body offsets).length ≤ 65535) (tables : BodyTables) :
    Reads labels start offset (attrs.foldlM (note pool) tables) [] fun _ value =>
      value = { tables with
        lines := (Assembly.lineEntries body offsets).foldl noteLine tables.lines } := by
  refine reads_optional (Attribute.repeats_make _ _) h (fun hnone _ => ?_) fun _ attr hattr => ?_
  · rw [List.isEmpty_iff.mp hnone]
    rfl
  · obtain ⟨hname, hinfo⟩ := Attribute.of_settled_make hattr
    refine .lift hname ?_
    rw [if_pos rfl]
    exact .lift (Attribute.decode_list LineEntry.read_append hlength _ hinfo) (.pure fun _ => rfl)

open BodyTables in
/-- The scopes of variables are read back from the table of their attribute. -/
theorem reads_variableAttributes {name : String} {ranges : List VariableRange}
    {attrs : List Attribute} (h : (Assembly.variableAttributes name labels ranges).Settled pool attrs)
    (hlength : ranges.length ≤ 65535)
    (hplaced : ∀ {label place}, labels.find label = .ok place → (UInt16.ofNat place).toNat = place)
    (hordered : ∀ range ∈ ranges, ∀ first last, labels.find range.start = .ok first →
      labels.find range.stop = .ok last → first ≤ last)
    {tables : BodyTables} {taken : List VariableRange → BodyTables}
    (hempty : ranges = [] → taken [] = tables)
    (htaken : ∀ attr, pool.utf8 attr.name = .ok name → note pool tables attr = (do
      let entries ← attr.decode VariableEntry.attributeName VariableEntry.readTable
      return taken (← entries.mapM variableRange))) :
    Reads labels start offset (attrs.foldlM (note pool) tables) [] fun later value =>
      ∃ scopes, value = taken scopes ∧
        List.Forall₂ (fun range original => range.Matches (Agrees later labels) original)
          scopes ranges := by
  unfold Assembly.variableAttributes at h
  split at h
  · next hnone =>
    obtain rfl := List.isEmpty_iff.mp hnone
    obtain rfl := settled_pure.mp h
    exact .pure fun _ => ⟨[], (hempty rfl).symm, .nil⟩
  · obtain ⟨entries, hentries, h⟩ := ((Repeats.lift _).settled_bind fun entries =>
      (Attribute.repeats_make _ _).bind fun _ => .pure _).mp h
    obtain ⟨attr, hattr, h⟩ := ((Attribute.repeats_make _ _).settled_bind fun _ => .pure _).mp h
    obtain rfl := settled_pure.mp h
    obtain ⟨hname, hinfo⟩ := Attribute.of_settled_make hattr
    have hentries := mapM_eq_ok.mp (settled_lift.mp hentries)
    rw [List.foldlM_cons]
    simp only [List.foldlM_nil, bind_pure]
    rw [htaken attr hname]
    refine .lift (Attribute.decode_list VariableEntry.read_append (hentries.length_eq ▸ hlength) _
      hinfo) ?_
    have hread : List.Forall₂ (fun entry range => Reads labels start offset (variableRange entry) []
        fun later value => value.Matches (Agrees later labels) range) entries ranges :=
      (((List.forall₂_and_left _ _).mpr ⟨hordered, hentries⟩).imp fun range entry h =>
        reads_variableRange hplaced h.1 h.2).flip
    rw [← List.append_nil ([] : Bytes)]
    exact (Reads.mapM hread).bind fun scopes => .pure fun _ hscopes => ⟨scopes, rfl, hscopes⟩

section

variable {ranges : List VariableRange} {attrs : List Attribute} {tables : BodyTables}
  (hlength : ranges.length ≤ 65535)
  (hplaced : ∀ {label place}, labels.find label = .ok place → (UInt16.ofNat place).toNat = place)
  (hordered : ∀ range ∈ ranges, ∀ first last, labels.find range.start = .ok first →
    labels.find range.stop = .ok last → first ≤ last)
include hlength hplaced hordered

open BodyTables in
/-- The scopes of variables with descriptors are read back. -/
theorem reads_scopes
    (h : (Assembly.variableAttributes VariableEntry.attributeName labels ranges).Settled pool attrs)
    (hnone : tables.scopes = []) :
    Reads labels start offset (attrs.foldlM (note pool) tables) [] fun later value =>
      ∃ scopes, value = { tables with scopes } ∧
        List.Forall₂ (VariableRange.Matches (Agrees later labels)) scopes ranges := by
  refine reads_variableAttributes h hlength hplaced hordered (fun _ => ?_) fun attr hname => ?_
  · rw [← hnone]
  · unfold note
    rw [hname]
    rfl

open BodyTables in
/-- The scopes of variables with generic signatures are read back. -/
theorem reads_typeScopes
    (h : (Assembly.variableAttributes VariableEntry.typeAttributeName labels ranges).Settled pool attrs)
    (hnone : tables.typeScopes = []) :
    Reads labels start offset (attrs.foldlM (note pool) tables) [] fun later value =>
      ∃ typeScopes, value = { tables with typeScopes } ∧
        List.Forall₂ (VariableRange.Matches (Agrees later labels)) typeScopes ranges := by
  refine reads_variableAttributes h hlength hplaced hordered (fun _ => ?_) fun attr hname => ?_
  · rw [← hnone]
  · unfold note
    rw [hname]
    rfl

end

end CodeReader

end ClassInstrument
