import ClassInstrument.Classpath.Hierarchy
import ClassInstrument.Proofs.Assembly.Strings
import ClassInstrument.Proofs.ClassDecl.FlatMarks

/-!
# How texts are spelled when a class is written back

Texts are read into characters and written as their encoding.  So a class that is read and written back
refers to the same texts at the same places, but each one is spelled anew (`ModifiedUtf8.respell`): the
names and descriptors of methods, whatever annotations hold, and the texts that a body pushes when it was
opened.  Bytes that encode no text, such as a surrogate without its partner, do not come back.
-/

namespace ClassInstrument

open Interning Outcome

/-! ## Single texts -/

/-- The text at an index is spelled anew at an index of another table. -/
def Pool.Respelled (pool later : Pool) (index index' : PoolIndex) : Prop :=
  ∃ bytes, pool.get index = .ok (.utf8 bytes) ∧
    later.get index' = .ok (.utf8 (ModifiedUtf8.respell bytes))

namespace Pool

variable {pool later : Pool} {text : String} {index index' : PoolIndex}

/-- A text is spelled anew where it is asked for. -/
theorem respelled_of_holds (h : pool.Holds text index) (h' : later.Asked text index') :
    pool.Respelled later index index' := by
  obtain ⟨constant, hconstant, htext⟩ := bind_eq_ok.mp h
  cases constant with
  | utf8 bytes =>
    obtain rfl := pure_eq_ok.mp htext
    exact ⟨bytes, hconstant, get_of_settled h'⟩
  | _ => cases htext

/-- Texts are spelled anew one by one. -/
theorem respelled_of_forall₂ {texts : List String} {indices indices' : List PoolIndex}
    (h : List.Forall₂ pool.Holds texts indices) (h' : List.Forall₂ later.Asked texts indices') :
    List.Forall₂ (pool.Respelled later) indices indices' := by
  induction h generalizing indices' with
  | nil =>
    cases h'
    exact .nil
  | cons hfirst _ ih =>
    obtain _ | ⟨hfirst', hrest'⟩ := h'
    exact .cons (respelled_of_holds hfirst hfirst') (ih hrest')

end Pool

/-! ## Annotations -/

/-- The indices of the texts of all annotations that the attributes of a name list. -/
def Attribute.ListTexts (name : String) (pool : Pool) (attributes : List Attribute)
    (texts : List PoolIndex) : Prop :=
  ∃ lists : List (List FlatMark),
    List.Forall₂ (fun attr flats => attr.info = Bytes.list FlatMark.write flats)
      (withName pool name attributes) lists ∧
    texts = lists.flatten.flatMap FlatMark.texts

/-- The indices of the texts of the default that the last attribute of its name holds. -/
def Attribute.DefaultTexts (pool : Pool) (attributes : List Attribute) (texts : List PoolIndex) : Prop :=
  match (withName pool Annotation.defaultAttribute attributes).getLast? with
  | none => texts = []
  | some attr => ∃ flat : FlatValue, attr.info = flat.write ∧ texts = flat.texts

/-- Some texts of attributes are spelled anew in the attributes of another class. -/
def Attribute.Respelled (textsOf : Pool → List Attribute → List PoolIndex → Prop) (pool later : Pool)
    (attributes attributes' : List Attribute) : Prop :=
  ∃ texts texts', textsOf pool attributes texts ∧ textsOf later attributes' texts' ∧
    List.Forall₂ (pool.Respelled later) texts texts'

namespace Annotation

variable {pool later : Pool} {name : String} {attributes attributes' : List Attribute}
  {marks : List Annotation}

/-- The texts of annotations that are read stand in the attributes of their name. -/
theorem listTexts_of_readAll (h : readAll pool name attributes = .ok marks) :
    ∃ texts, Attribute.ListTexts name pool attributes texts ∧
      List.Forall₂ pool.Holds (marks.flatMap Annotation.texts) texts := by
  obtain ⟨lists, hlists, h⟩ := bind_eq_ok.mp h
  obtain rfl := pure_eq_ok.mp h
  have hspells := (mapM_eq_ok.mp hlists).imp fun _ _ => spellsList_of_readList
  have hflats : ∀ {found : List Attribute} {lists : List (List Annotation)},
      List.Forall₂ (fun attr marks => SpellsList pool.Holds marks attr.info) found lists →
      ∃ flats : List (List FlatMark),
        List.Forall₂ (fun attr flats => attr.info = Bytes.list FlatMark.write flats) found flats ∧
        List.Forall₂ pool.Holds (lists.flatten.flatMap Annotation.texts)
          (flats.flatten.flatMap FlatMark.texts) := by
    intro found lists h
    induction h with
    | nil => exact ⟨[], .nil, .nil⟩
    | cons hfirst _ ih =>
      obtain ⟨flat, hinfo, htexts⟩ := hfirst
      obtain ⟨flats, hothers, hmore⟩ := ih
      refine ⟨flat :: flats, .cons hinfo hothers, ?_⟩
      simp only [List.flatten_cons, List.flatMap_append]
      exact List.rel_append htexts hmore
  obtain ⟨flats, hinfos, htexts⟩ := hflats hspells
  exact ⟨_, ⟨flats, hinfos, rfl⟩, htexts⟩

/-- The texts of annotations that are written stand in the attribute of their name. -/
theorem listTexts_of_settled {attr? : Option Attribute}
    (h : (writeList name marks).Settled later attr?)
    (hfound : Attribute.withName later name attributes' = attr?.toList) :
    ∃ texts, Attribute.ListTexts name later attributes' texts ∧
      List.Forall₂ later.Asked (marks.flatMap Annotation.texts) texts := by
  rcases spellsList_of_settled h with ⟨rfl, rfl⟩ | ⟨attr, rfl, -, flats, hinfo, htexts⟩
  · exact ⟨[], ⟨[], hfound ▸ .nil, rfl⟩, .nil⟩
  · exact ⟨_, ⟨[flats], hfound ▸ .cons hinfo .nil, rfl⟩, by simpa using htexts⟩

/-- Annotations that are read and written are spelled anew. -/
theorem respelled_of_settled {attr? : Option Attribute} (hread : readAll pool name attributes = .ok marks)
    (hwrite : (writeList name marks).Settled later attr?)
    (hfound : Attribute.withName later name attributes' = attr?.toList) :
    Attribute.Respelled (Attribute.ListTexts name) pool later attributes attributes' := by
  obtain ⟨texts, htexts, hholds⟩ := listTexts_of_readAll hread
  obtain ⟨texts', htexts', hasked⟩ := listTexts_of_settled hwrite hfound
  exact ⟨texts, texts', htexts, htexts', Pool.respelled_of_forall₂ hholds hasked⟩

end Annotation

/-! ## Methods -/

/-- The texts that bytecode pushes are spelled anew in bytecode that was assembled from it, as far as they
are reached. -/
def CodeAttribute.Respelled (method : MethodContext) (hierarchy : Hierarchy) (pool later : Pool)
    (code code' : CodeAttribute) : Prop :=
  ∃ body analysis entries entries', Body.decode code pool = .ok body ∧
    analyze body method hierarchy [] = .ok analysis ∧
    code.listing pool = .ok entries ∧ code'.listing later = .ok entries' ∧
    entries'.filterMap (fun entry => stringAt? later code'.code entry.1) =
      ((reachedOffsets analysis body entries).filterMap (stringAt? pool code.code)).map
        ModifiedUtf8.respell

/-- The texts of a method are spelled anew in the method that was written. -/
structure MethodEntry.Respelled (pool later : Pool) (entry entry' : MethodEntry) : Prop where
  name : pool.Respelled later entry.name entry'.name
  descriptor : pool.Respelled later entry.descriptor entry'.descriptor
  visible : Attribute.Respelled (Attribute.ListTexts Annotation.visibleAttribute) pool later
    entry.attributes entry'.attributes
  invisible : Attribute.Respelled (Attribute.ListTexts Annotation.invisibleAttribute) pool later
    entry.attributes entry'.attributes
  default : Attribute.Respelled Attribute.DefaultTexts pool later entry.attributes entry'.attributes

/-- The texts of the last body of a method are spelled anew in the only body that was written. -/
def MethodEntry.RespelledBody (method : MethodContext) (hierarchy : Hierarchy) (pool later : Pool)
    (entry entry' : MethodEntry) : Prop :=
  ∃ attr code attr' code',
    (Attribute.withName pool CodeAttribute.name entry.attributes).getLast? = some attr ∧
    attr.decode CodeAttribute.name CodeAttribute.read = .ok code ∧
    Attribute.withName later CodeAttribute.name entry'.attributes = [attr'] ∧
    attr'.info = code'.write ∧ CodeAttribute.Respelled method hierarchy pool later code code'

namespace Method

variable {pool later : Pool} {entry entry' : MethodEntry} {method after : Method} {body : MethodBody}
  {owner : String} {version : Version} {hierarchy : Hierarchy}

/-- A default that is read and written is spelled anew. -/
theorem respelled_default (hread : ReadFrom pool entry method)
    (hsorted : { method with body }.SortedInto owner version hierarchy later entry'.attributes) :
    Attribute.Respelled Attribute.DefaultTexts pool later entry.attributes entry'.attributes := by
  have hnote := hread.notes.default
  have hwrite := hsorted.default
  unfold Method.defaultAttribute at hwrite
  unfold Attribute.Respelled Attribute.DefaultTexts
  cases hlast : (Attribute.withName pool Annotation.defaultAttribute entry.attributes).getLast? with
  | none =>
    rw [hlast] at hnote
    rw [show method.default = none from hnote] at hwrite
    rw [← settled_pure.mp hwrite]
    exact ⟨[], [], rfl, rfl, .nil⟩
  | some attr =>
    rw [hlast] at hnote
    obtain ⟨value, hvalue, hdefault⟩ := hnote
    rw [hdefault] at hwrite
    have hrepeats := Annotation.repeats_writeDefault value
    obtain ⟨attr', hattr, hwrite⟩ := (hrepeats.settled_bind fun _ => .pure _).mp hwrite
    rw [← settled_pure.mp hwrite]
    obtain ⟨flat, hinfo, hholds⟩ := Annotation.spells_of_readDefault hvalue
    obtain ⟨-, flat', hinfo', hasked⟩ := Annotation.spells_of_settled_writeDefault hattr
    exact ⟨_, _, ⟨flat, hinfo, rfl⟩, ⟨flat', hinfo', rfl⟩, Pool.respelled_of_forall₂ hholds hasked⟩

/-- A method that is read and written is spelled anew, whatever happened to its body. -/
theorem respelled_of_writtenTo (hread : ReadFrom pool entry method)
    (hwritten : { method with body }.WrittenTo owner version hierarchy later entry')
    (hsorted : { method with body }.SortedInto owner version hierarchy later entry'.attributes) :
    entry.Respelled pool later entry' := by
  obtain ⟨visible, hvisible, hmarks⟩ := hread.notes.visible
  obtain ⟨invisible, hinvisible, hothers⟩ := hread.notes.invisible
  obtain ⟨attr?, hwrite, hfound⟩ := hsorted.visible
  obtain ⟨other?, hwrite', hfound'⟩ := hsorted.invisible
  obtain rfl : method.visible = visible := hmarks
  obtain rfl : method.invisible = invisible := hothers
  exact {
    name := Pool.respelled_of_holds hread.name hwritten.name
    descriptor := Pool.respelled_of_holds hread.descriptor hwritten.descriptor
    visible := Annotation.respelled_of_settled hvisible hwrite hfound
    invisible := Annotation.respelled_of_settled hinvisible hwrite' hfound'
    default := respelled_default hread hsorted }

/-- What is pushed by a body that was opened is spelled anew. -/
theorem respelledBody_of_openIn (hread : ReadFrom pool entry method)
    (hopen : method.body.openIn pool = .ok body) (hedited : { method with body }.isEdited = true)
    (hextends : pool.Extends later)
    (hsorted : { method with body }.SortedInto owner version hierarchy later entry'.attributes) :
    entry.RespelledBody (method.context owner) hierarchy pool later entry' := by
  have hbody := hread.notes.body_eq
  obtain ⟨opened, hdecode, hopen⟩ := bind_eq_ok.mp hopen
  cases hlast : (Attribute.withName pool CodeAttribute.name entry.attributes).getLast? with
  | none =>
    rw [show method.body = .absent by simpa [hlast] using hbody] at hdecode
    obtain rfl := pure_eq_ok.mp hdecode
    obtain rfl := pure_eq_ok.mp hopen
    cases hedited
  | some attr =>
    rw [show method.body = .raw attr by simpa [hlast] using hbody] at hdecode
    obtain ⟨code, hcode, hdecode⟩ := bind_eq_ok.mp hdecode
    obtain ⟨decoded, hdecoded, hdecode⟩ := bind_eq_ok.mp hdecode
    obtain rfl := pure_eq_ok.mp hdecode
    obtain rfl := pure_eq_ok.mp hopen
    have hwrite := hsorted.body
    obtain ⟨code', hassemble, hwrite⟩ := ((decoded.repeats_assemble _ version hierarchy).settled_bind
      fun _ => (Attribute.repeats_make _ _).bind fun _ => .pure _).mp hwrite
    obtain ⟨attr', hmade, hwrite⟩ := ((Attribute.repeats_make _ _).settled_bind fun _ =>
      .pure _).mp hwrite
    obtain ⟨analysis, entries, entries', hanalysis, hlisting, hlisting', htexts⟩ :=
      Body.strings_of_assemble hdecoded hextends hassemble
    exact ⟨attr, code, attr', code', hlast, hcode, (settled_pure.mp hwrite).symm,
      ( Attribute.of_settled_make hmade).2, decoded, analysis, entries, entries', hdecoded, hanalysis,
      hlisting, hlisting', htexts⟩

/-- What was written for a method that was read can be told from the names of its attributes, whether or not
its body was opened. -/
theorem sorted_of_openIn (hread : ReadFrom pool entry method)
    (hopen : body = method.body ∨ method.body.openIn pool = .ok body) (hextends : pool.Extends later)
    (hwritten : { method with body }.WrittenTo owner version hierarchy later entry') :
    { method with body }.SortedInto owner version hierarchy later entry'.attributes := by
  refine hwritten.sorted ?_ ?_
  · rintro attr (rfl : body = .raw attr)
    rcases hopen with hsame | hopen
    · exact hextends.utf8 (Attribute.utf8_of_mem_withName hread.notes.named
        (hread.mem_of_raw hsame.symm))
    · obtain ⟨_ | _, -, hopen⟩ := bind_eq_ok.mp hopen <;> cases hopen
  · intro attr hmem
    obtain ⟨name, hnot, hname⟩ := hread.attributes_named attr hmem
    exact ⟨name, hnot, hextends.utf8 hname⟩

end Method

/-! ## Classes -/

/-- The texts of a class are spelled anew in the class that was written. -/
structure ClassFile.Respelled (file : ClassFile) (owner : String) (hierarchy : Hierarchy)
    (before after : List Method) (written : ClassFile) : Prop where
  visible : Attribute.Respelled (Attribute.ListTexts Annotation.visibleAttribute) file.pool written.pool
    file.attributes written.attributes
  invisible : Attribute.Respelled (Attribute.ListTexts Annotation.invisibleAttribute) file.pool
    written.pool file.attributes written.attributes
  /-- No method is added or left out. -/
  length_eq : written.methods.length = file.methods.length
  /-- Every method is spelled anew at its position. -/
  methods : ∀ {position : ℕ} {entry entry' : MethodEntry}, file.methods[position]? = some entry →
    written.methods[position]? = some entry' → entry.Respelled file.pool written.pool entry'
  /-- So is what is pushed by each body that was opened. -/
  bodies : ∀ {position : ℕ} {entry entry' : MethodEntry} {method opened : Method},
    file.methods[position]? = some entry → written.methods[position]? = some entry' →
    before[position]? = some method → after[position]? = some opened → opened.isEdited = true →
    entry.RespelledBody (method.context owner) hierarchy file.pool written.pool entry'

/-- A class that is read, of which any bodies are opened, and that is written back has every text where it
was, spelled anew; only texts that some characters encode are spelled as they were. -/
theorem ClassDecl.respelled_of_toBytes {bytes out : Bytes} {decl : ClassDecl} {methods : List Method}
    {hierarchy : Hierarchy} (hparse : ClassDecl.parse bytes = .ok decl)
    (hmethods : List.Forall₂ (fun method after => after = method ∨ decl.openBody method = .ok after)
      decl.methods methods)
    (hwrite : { decl with methods }.toBytes hierarchy = .ok out) :
    (∃ file written, ClassFile.parse bytes = .ok file ∧ out = written.write ∧
      file.Respelled decl.name hierarchy decl.methods methods written) ∧
    ∀ text, ModifiedUtf8.respell text = text ↔ ∃ chars, ModifiedUtf8.encode chars = text := by
  refine ⟨?_, fun _ => ModifiedUtf8.respell_eq_iff⟩
  obtain ⟨file, hfile, hdecl⟩ := bind_eq_ok.mp hparse
  obtain ⟨written, hwritten, hout⟩ := bind_eq_ok.mp hwrite
  refine ⟨file, written, hfile, (pure_eq_ok.mp hout).symm, ?_⟩
  have hread := readFrom_of_ofClassFile hdecl
  have hwritten := writtenTo_of_toClassFile hwritten
  have hextends : file.pool.Extends written.pool := hread.pool_eq ▸ hwritten.extends_pool
  have hsorted := hwritten.sorted fun attr hmem => by
    obtain ⟨name, hnot, hname⟩ := hread.attributes_named attr hmem
    exact ⟨name, hnot, hextends.utf8 hname⟩
  obtain ⟨attr?, hvisible, hfound⟩ := hsorted.visible
  obtain ⟨other?, hinvisible, hfound'⟩ := hsorted.invisible
  have hopens : ∀ {method after : Method}, after = method ∨ decl.openBody method = .ok after →
      ∃ body, after = { method with body } ∧
        (body = method.body ∨ method.body.openIn file.pool = .ok body) := by
    rintro method after (rfl | hopen)
    · exact ⟨after.body, rfl, .inl rfl⟩
    · obtain ⟨body, hopen, hafter⟩ := bind_eq_ok.mp hopen
      exact ⟨body, (pure_eq_ok.mp hafter).symm, .inr (hread.pool_eq ▸ hopen)⟩
  -- the method that stands between what was read at a position and what was written there
  have hbetween : ∀ {position : ℕ} {entry entry' : MethodEntry}, file.methods[position]? = some entry →
      written.methods[position]? = some entry' → ∃ method body, decl.methods[position]? = some method ∧
        methods[position]? = some { method with body } ∧ Method.ReadFrom file.pool entry method ∧
        (body = method.body ∨ method.body.openIn file.pool = .ok body) ∧
        { method with body }.WrittenTo decl.name decl.version hierarchy written.pool entry' := by
    intro position entry entry' hentry hentry'
    obtain ⟨method, hmethod, hentryRead⟩ := getElem?_of_forall₂ hread.methods hentry
    obtain ⟨after, hafter, hopen⟩ := getElem?_of_forall₂ hmethods hmethod
    obtain ⟨body, rfl, hbody⟩ := hopens hopen
    obtain ⟨other, hother, hentryWritten⟩ := getElem?_of_forall₂ hwritten.methods hafter
    obtain rfl : other = entry' := Option.some.inj (hother.symm.trans hentry')
    exact ⟨method, body, hmethod, hafter, hentryRead, hbody, hentryWritten⟩
  refine ⟨ Annotation.respelled_of_settled hread.visible hvisible hfound,
    Annotation.respelled_of_settled hread.invisible hinvisible hfound', ?_, ?_, ?_⟩
  · rw [← hwritten.methods.length_eq, ← hmethods.length_eq, hread.methods.length_eq]
  · intro position entry entry' hentry hentry'
    obtain ⟨method, body, -, -, hentryRead, hbody, hentryWritten⟩ := hbetween hentry hentry'
    exact Method.respelled_of_writtenTo hentryRead hentryWritten
      (Method.sorted_of_openIn hentryRead hbody hextends hentryWritten)
  · intro position entry entry' method opened hentry hentry' hmethod hopened hedited
    obtain ⟨same, body, hsame, hafter, hentryRead, hbody, hentryWritten⟩ := hbetween hentry hentry'
    obtain rfl : same = method := Option.some.inj (hsame.symm.trans hmethod)
    obtain rfl : { same with body } = opened := Option.some.inj (hafter.symm.trans hopened)
    have hsorted := Method.sorted_of_openIn hentryRead hbody hextends hentryWritten
    rcases hbody with rfl | hopen
    · exact absurd hedited (by simp [hentryRead.isEdited_eq])
    · exact Method.respelledBody_of_openIn hentryRead hopen hedited hextends hsorted

/-- A class with a static method that returns a constant text.  The text and the name of the method are a
surrogate without its partner, and what stands for it when it is read is among the constants as well. -/
def loneSurrogateSample : Bytes :=
  ClassFile.magic ++ [0, 0, 0, 52] ++
    -- "A", the class "A", the surrogate, "()Ljava/lang/String;", "Code"
    [0, 9, 1, 0, 1, 65, 7, 0, 1, 1, 0, 3, 0xED, 0xA0, 0x80] ++
    [1, 0, 20, 40, 41, 76, 106, 97, 118, 97, 47, 108, 97, 110, 103, 47, 83, 116, 114, 105, 110, 103, 59] ++
    [1, 0, 4, 67, 111, 100, 101] ++
    -- the replacement character, and a text object of each
    [1, 0, 3, 0xEF, 0xBF, 0xBD, 8, 0, 3, 8, 0, 6] ++
    [0, 33, 0, 2, 0, 0, 0, 0, 0, 0] ++
    [0, 1, 0, 9, 0, 3, 0, 4, 0, 1, 0, 5, 0, 0, 0, 15, 0, 1, 0, 0, 0, 0, 0, 3, 18, 7, 176, 0, 0, 0, 0] ++
    [0, 0]

/-- The constants of the class. -/
def loneSurrogatePool : Pool := ((ClassFile.parse loneSurrogateSample).toOption.get rfl).pool

/-- Its method with some body. -/
def loneSurrogateMethod (body : MethodBody) : Method where
  access := ⟨9⟩
  name := "\uFFFD"
  descriptor := "()Ljava/lang/String;"
  body := body

/-- The class with some body of its method. -/
def loneSurrogateClass (body : MethodBody) : ClassDecl where
  version := ⟨52, 0⟩
  pool := loneSurrogatePool
  access := ⟨33⟩
  name := "A"
  superName := none
  methods := [loneSurrogateMethod body]

/-- The body as it is read. -/
def loneSurrogateCode : Attribute := ⟨5, [0, 1, 0, 0, 0, 0, 0, 3, 18, 7, 176, 0, 0, 0, 0]⟩

/-- The body in its editable form. -/
def loneSurrogateBody : Body where
  instructions := [.load (.string "\uFFFD"), .plain Opcode.areturn]

/-- The body is opened. -/
theorem openBody_loneSurrogate (body : MethodBody) :
    (loneSurrogateClass body).openBody (loneSurrogateMethod (.raw loneSurrogateCode)) =
      .ok (loneSurrogateMethod (.edited loneSurrogateBody)) := by
  have hcode : loneSurrogateCode.decode CodeAttribute.name CodeAttribute.read =
      .ok ⟨1, 0, [18, 7, 176], [], []⟩ := rfl
  have hparts : (Body.decodeParts ⟨1, 0, [18, 7, 176], [], []⟩ loneSurrogatePool).run
      { rest := [18, 7, 176] } =
        .ok (([(0, .load (.string "\uFFFD")), (2, .plain Opcode.areturn)], [], {}),
          { rest := [], offset := 3, start := 2 }) := rfl
  have hdecode : Body.decode ⟨1, 0, [18, 7, 176], [], []⟩ loneSurrogatePool = .ok loneSurrogateBody := by
    refine bind_eq_ok.mpr ⟨_, hparts, ?_⟩
    simp [Body.strayOffset?, Body.placed, Body.placedLabel, loneSurrogateBody]
    rfl
  have hopen : (MethodBody.raw loneSurrogateCode).openIn loneSurrogatePool =
      .ok (.edited loneSurrogateBody) :=
    bind_eq_ok.mpr ⟨_, bind_eq_ok.mpr ⟨_, hcode, bind_eq_ok.mpr ⟨_, hdecode, rfl⟩⟩, rfl⟩
  exact bind_eq_ok.mpr ⟨_, hopen, rfl⟩

/-- The body is assembled without new constants, and pushes another text. -/
theorem assemble_loneSurrogate :
    (loneSurrogateBody.assemble ⟨"A", "\uFFFD", "()Ljava/lang/String;", true⟩ ⟨52, 0⟩
      Classpath.empty.hierarchy).Settled loneSurrogatePool ⟨1, 0, [18, 8, 176], [], []⟩ := by
  have hanalysis : analyze loneSurrogateBody ⟨"A", "\uFFFD", "()Ljava/lang/String;", true⟩
      Classpath.empty.hierarchy [] =
        .ok ⟨#[some Frame.empty, some (Frame.empty.push (.object Name.string))], 1, 0⟩ := by cbv
  have htext : (Pool.internUtf8 "\uFFFD").Settled loneSurrogatePool 6 :=
    Pool.settled_intern_iff.mpr ⟨by decide +kernel, by decide +kernel⟩
  have hstring : (Pool.internString "\uFFFD").Settled loneSurrogatePool 8 :=
    htext.bind (Pool.settled_intern_iff.mpr ⟨by decide +kernel, by decide +kernel⟩)
  have hsize : (Layout.size 0 (.load (.string "\uFFFD"))).Settled loneSurrogatePool 2 :=
    hstring.bind (settled_pure.mpr rfl)
  have hpush : (Layout.place ⟨#[], 0⟩ (.load (.string "\uFFFD"))).Settled loneSurrogatePool
      ⟨#[0], 2⟩ := hsize.bind (settled_pure.mpr rfl)
  have hreturn : (Layout.place ⟨#[0], 2⟩ (.plain Opcode.areturn)).Settled loneSurrogatePool
      ⟨#[0, 2], 3⟩ := settled_pure.mpr rfl
  have hlaid : (Layout.offsets loneSurrogateBody.instructions).Settled loneSurrogatePool
      ⟨#[0, 2], 3⟩ := hpush.bind (hreturn.bind (settled_pure.mpr rfl))
  have hwidened : (Widening.widenAt loneSurrogateBody ⟨#[0, 2], 3⟩) =
      .ok ⟨loneSurrogateBody.instructions.reverse, false, 0⟩ := rfl
  have hround : (Widening.round loneSurrogateBody).Settled loneSurrogatePool
      (loneSurrogateBody, false) :=
    hlaid.bind ((settled_lift.mpr hwidened).bind (settled_pure.mpr rfl))
  have hwiden : loneSurrogateBody.widenJumps.Settled loneSurrogatePool (loneSurrogateBody, false) :=
    hround.bind (settled_pure.mpr rfl)
  have hreplace : loneSurrogateBody.replaceDeadCode
      ⟨#[some Frame.empty, some (Frame.empty.push (.object Name.string))], 1, 0⟩ =
        .ok (loneSurrogateBody, []) := rfl
  have hpieces : List.Forall₂ (fun (entry : Instruction × ℕ) bytes =>
      (Encoding.write (Layout.Offsets.labels ⟨#[0, 2], 3⟩ loneSurrogateBody.instructions) entry.2
        entry.1).Settled loneSurrogatePool bytes)
      [(.load (.string "\uFFFD"), 0), (.plain Opcode.areturn, 2)] [[18, 8], [176]] :=
    .cons (hstring.bind (settled_pure.mpr rfl)) (.cons (settled_pure.mpr rfl) .nil)
  have hcode : (Encoding.writeAll (Layout.Offsets.labels ⟨#[0, 2], 3⟩ loneSurrogateBody.instructions)
      [(.load (.string "\uFFFD"), 0), (.plain Opcode.areturn, 2)]).Settled loneSurrogatePool
        [18, 8, 176] :=
    ((Repeats.settled_mapM fun entry : Instruction × ℕ =>
      Encoding.repeats_write _ entry.2 entry.1).mpr hpieces).bind (settled_pure.mpr rfl)
  have hattributes : (Assembly.attributes ⟨52, 0⟩ loneSurrogateBody
      ⟨"A", "\uFFFD", "()Ljava/lang/String;", true⟩
      ⟨#[some Frame.empty, some (Frame.empty.push (.object Name.string))], 1, 0⟩
      ⟨#[0, 2], 3⟩).Settled loneSurrogatePool [] := rfl
  have hhandlers : (loneSurrogateBody.handlers.mapM (Assembly.handlerEntry
      (Layout.Offsets.labels ⟨#[0, 2], 3⟩ loneSurrogateBody.instructions))).Settled loneSurrogatePool
        [] := settled_pure.mpr rfl
  have hprepare : (Assembly.prepare loneSurrogateBody ⟨"A", "\uFFFD", "()Ljava/lang/String;", true⟩
      Classpath.empty.hierarchy).Settled loneSurrogatePool (loneSurrogateBody,
        ⟨#[some Frame.empty, some (Frame.empty.push (.object Name.string))], 1, 0⟩) :=
    (settled_lift.mpr hanalysis).bind ((settled_lift.mpr hreplace).bind
      (hwiden.bind (settled_pure.mpr rfl)))
  exact hprepare.bind (hlaid.bind (hcode.bind (hhandlers.bind (hattributes.bind
    ((settled_lift.mpr rfl).bind ((settled_lift.mpr rfl).bind (settled_pure.mpr rfl)))))))

/-- The class is written without new constants once its body is opened. -/
theorem toClassFile_loneSurrogate : (loneSurrogateClass (.edited loneSurrogateBody)).toClassFile
    Classpath.empty.hierarchy = .ok {
      version := ⟨52, 0⟩, pool := loneSurrogatePool, access := ⟨33⟩, thisClass := 2
      superClass := none, interfaces := [], fields := []
      methods := [⟨⟨9⟩, 6, 4, [⟨5, [0, 1, 0, 0, 0, 0, 0, 3, 18, 8, 176, 0, 0, 0, 0]⟩]⟩]
      attributes := [] } := by
  have hutf8 : ∀ text index,
      loneSurrogatePool.slots[index.toNat]? = some (some (.utf8 (ModifiedUtf8.encode text))) →
      (∀ earlier < index.toNat,
        loneSurrogatePool.slots[earlier]? ≠ some (some (.utf8 (ModifiedUtf8.encode text)))) →
      (Pool.internUtf8 text).Settled loneSurrogatePool index := fun text index hheld hfirst =>
    Pool.settled_intern_iff.mpr ⟨hheld, hfirst⟩
  have hnone : ∀ name, ( Annotation.writeList name []).Settled loneSurrogatePool none := fun _ =>
    settled_pure.mpr rfl
  have hclass : (Pool.internClass "A").Settled loneSurrogatePool 2 :=
    (hutf8 "A" 1 (by decide +kernel) (by decide +kernel)).bind
      (Pool.settled_intern_iff.mpr ⟨by decide +kernel, by decide +kernel⟩)
  have hmake : ( Attribute.make CodeAttribute.name
      (CodeAttribute.write ⟨1, 0, [18, 8, 176], [], []⟩)).Settled loneSurrogatePool
        ⟨5, [0, 1, 0, 0, 0, 0, 0, 3, 18, 8, 176, 0, 0, 0, 0]⟩ :=
    (hutf8 "Code" 5 (by decide +kernel) (by decide +kernel)).bind (settled_pure.mpr rfl)
  have hmethod : (loneSurrogateMethod (.edited loneSurrogateBody)).WrittenTo "A" ⟨52, 0⟩
      Classpath.empty.hierarchy loneSurrogatePool
        ⟨⟨9⟩, 6, 4, [⟨5, [0, 1, 0, 0, 0, 0, 0, 3, 18, 8, 176, 0, 0, 0, 0]⟩]⟩ := by
    refine ⟨rfl, hutf8 "\uFFFD" 6 (by decide +kernel) (by decide +kernel),
      hutf8 "()Ljava/lang/String;" 4 (by decide +kernel) (by decide +kernel),
      [⟨5, [0, 1, 0, 0, 0, 0, 0, 3, 18, 8, 176, 0, 0, 0, 0]⟩], none, none, [], ?_, hnone _, hnone _,
      settled_pure.mpr rfl, rfl⟩
    exact assemble_loneSurrogate.bind (hmake.bind (settled_pure.mpr rfl))
  exact ClassDecl.toClassFile_of_writtenTo ⟨.refl _, rfl, rfl, rfl, hclass, settled_pure.mpr rfl, .nil,
    .cons hmethod .nil, none, none, hnone _, hnone _, rfl⟩ rfl

/-- A class is read, its body is opened, and it is written with the replacement character in the place of
the surrogate. -/
theorem ClassDecl.respelled_loneSurrogate : ∃ decl methods out,
    ClassDecl.parse loneSurrogateSample = .ok decl ∧
    List.Forall₂ (fun method after => after = method ∨ decl.openBody method = .ok after)
      decl.methods methods ∧
    { decl with methods }.toBytes Classpath.empty.hierarchy = .ok out ∧
    (∃ file written, ClassFile.parse loneSurrogateSample = .ok file ∧ out = written.write ∧
      file.Respelled decl.name Classpath.empty.hierarchy decl.methods methods written) ∧
    ∀ text, ModifiedUtf8.respell text = text ↔ ∃ chars, ModifiedUtf8.encode chars = text := by
  have hparse : ClassDecl.parse loneSurrogateSample =
      .ok (loneSurrogateClass (.raw loneSurrogateCode)) := rfl
  have hmethods : List.Forall₂ (fun method after => after = method ∨
      (loneSurrogateClass (.raw loneSurrogateCode)).openBody method = .ok after)
      [loneSurrogateMethod (.raw loneSurrogateCode)]
      [loneSurrogateMethod (.edited loneSurrogateBody)] :=
    .cons (.inr (openBody_loneSurrogate _)) .nil
  have hwrite : ∃ out, (loneSurrogateClass (.edited loneSurrogateBody)).toBytes
      Classpath.empty.hierarchy = .ok out := ⟨_, bind_eq_ok.mpr ⟨_, toClassFile_loneSurrogate, rfl⟩⟩
  obtain ⟨out, hwrite⟩ := hwrite
  exact ⟨_, _, _, hparse, hmethods, hwrite, respelled_of_toBytes hparse hmethods hwrite⟩

end ClassInstrument
