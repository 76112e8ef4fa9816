import ClassInstrument.Config.Basic
import ClassInstrument.Proofs.Outcome

/-!
# The order of the lines

A line of a configuration that says something makes one entry: it gives a setting its value, or it adds to
one of the two lists.  A text can be read if each of its lines makes an entry and no setting is given twice,
and neither depends on the order of the lines.  What is given to a setting does not depend on it either, so
only the lists can tell in which order their own lines stand.

The settings that a policy needs are asked for at the end.  They are looked up by name, so texts with the
same entries make the same configuration, or fail alike (`Configuration.parse_rearranged`).
-/

namespace ClassInstrument

open Outcome

/-! ## Entries -/

/-- What a line of a configuration says. -/
inductive SettingEntry where
  /-- A setting has a value. -/
  | setting (name value : String)
  /-- A class has a safe replacement. -/
  | safeClass (unsafeName safeName : String)
  /-- The classes of a package are not shielded. -/
  | ignoredPackage (package : String)

namespace SettingEntry

/-- The setting that an entry gives a value to. -/
def name? : SettingEntry → Option String
  | setting name _ => some name
  | safeClass .. | ignoredPackage _ => none

/-- The class with a safe replacement. -/
def safeClass? : SettingEntry → Option (String × String)
  | safeClass unsafeName safeName => some (unsafeName, safeName)
  | setting .. | ignoredPackage _ => none

/-- The package whose classes are not shielded. -/
def ignoredPackage? : SettingEntry → Option String
  | ignoredPackage package => some package
  | setting .. | safeClass .. => none

end SettingEntry

namespace Directive

/-- The contents, if they are one value without blanks. -/
def single? (directive : Directive) : Option String :=
  if directive.contents = "" ∨ directive.contents.toList.any isBlank then none else some directive.contents

/-- What a directive says, if it is known and has as many values as it needs. -/
def said? (directive : Directive) : Option SettingEntry :=
  if unique.contains directive.name then directive.single?.map (.setting directive.name)
  else if directive.name = safeClass then
    match (Text.words directive.contents.toList).map String.ofList with
    | [unsafeName, safeName] => some (.safeClass unsafeName safeName)
    | _ => none
  else if directive.name = shieldIgnoredPackage then directive.single?.map .ignoredPackage
  else none

variable {directive : Directive} {place : Position} {entry : SettingEntry}

/-- Where a directive stands does not matter for its value. -/
theorem single_eq_ok {value : String} :
    directive.single place = .ok value ↔ directive.single? = some value := by
  unfold single single?
  split <;> simp

/-- Where a directive stands does not matter for its values. -/
theorem values_eq_ok {expected : ℕ} {found : List String} : directive.values place expected = .ok found ↔
    (Text.words directive.contents.toList).map String.ofList = found ∧ found.length = expected := by
  unfold values
  dsimp only
  split <;> grind

/-- Only the directive for safe classes names one. -/
theorem name_of_safeClass? (h : directive.said? = some entry) (hsafe : entry.safeClass?.isSome) :
    directive.name = safeClass := by
  unfold said? at h
  split_ifs at h with hunique hname hpackage
  · obtain ⟨_, -, rfl⟩ := Option.map_eq_some_iff.mp h
    cases hsafe
  · exact hname
  · obtain ⟨_, -, rfl⟩ := Option.map_eq_some_iff.mp h
    cases hsafe

/-- Only the directive for ignored packages names one. -/
theorem name_of_ignoredPackage? (h : directive.said? = some entry) (hignored : entry.ignoredPackage?.isSome) :
    directive.name = shieldIgnoredPackage := by
  unfold said? at h
  split_ifs at h with hunique hname hpackage
  · obtain ⟨_, -, rfl⟩ := Option.map_eq_some_iff.mp h
    cases hignored
  · split at h
    · obtain rfl := Option.some.inj h
      cases hignored
    · cases h
  · exact hpackage

end Directive

/-! ## One line after the other -/

namespace Settings

variable {settings later : Settings} {place : Position} {path name : String} {entry : SettingEntry}

/-- Settings with one more entry. -/
def add (settings : Settings) : SettingEntry → Settings
  | .setting name value => { settings with given := settings.given.insert name value }
  | .safeClass unsafeName safeName =>
    { settings with safeClasses := settings.safeClasses ++ [(unsafeName, safeName)] }
  | .ignoredPackage package => { settings with ignoredPackages := settings.ignoredPackages ++ [package] }

/-- May an entry be taken in?  The setting that it gives a value to has none yet. -/
def Admits (settings : Settings) (entry : SettingEntry) : Prop :=
  ∀ name ∈ entry.name?, settings.given.find? name = none

/-- A setting without a value is given one. -/
theorem give_eq_ok {value : String} : settings.give place name value = .ok later ↔
    settings.Admits (.setting name value) ∧ settings.add (.setting name value) = later := by
  unfold give UniqueSetting.give setting Admits
  rw [bind_eq_ok]
  cases hfound : settings.given.find? name with
  | none => simp [pure_eq_ok, add, SettingEntry.name?, hfound]
  | some previous => simp [SettingEntry.name?, hfound]

/-- A directive is taken in if it says something that is admitted. -/
theorem note_eq_ok {directive : Directive} : settings.note place directive = .ok later ↔
    ∃ entry, directive.said? = some entry ∧ settings.Admits entry ∧ settings.add entry = later := by
  unfold note Directive.said?
  split
  · simp only [bind_eq_ok, Directive.single_eq_ok, give_eq_ok, Option.map_eq_some_iff, exists_exists_and_eq_and]
  · split
    · rw [bind_eq_ok]
      simp only [Directive.values_eq_ok]
      split
      · next unsafeName safeName hfound => simp [hfound, pure_eq_ok, Admits, add, SettingEntry.name?]
      · next hother =>
        refine iff_of_false ?_ (by simp)
        rintro ⟨found, ⟨hfound, hlength⟩, -⟩
        obtain ⟨unsafeName, safeName, rfl⟩ := List.length_eq_two.mp hlength
        exact hother _ _ hfound
    · split
      · simp only [bind_eq_ok, Directive.single_eq_ok, pure_eq_ok, Option.map_eq_some_iff,
          exists_exists_and_eq_and]
        simp [Admits, add, SettingEntry.name?]
      · simp [throw, throwThe, MonadExceptOf.throw]

/-- A setting has no value after an entry if it had none before and is not given one. -/
theorem find?_add_eq_none : (settings.add entry).given.find? name = none ↔
    entry.name? ≠ some name ∧ settings.given.find? name = none := by
  cases entry with
  | setting given value =>
    simp only [add, NameTable.find?_insert, SettingEntry.name?]
    grind
  | safeClass => simp [add, SettingEntry.name?]
  | ignoredPackage => simp [add, SettingEntry.name?]

/-- Entries can be taken in one after the other: no setting is given twice, nor one that has a value. -/
def AdmitsAll (settings : Settings) (entries : List SettingEntry) : Prop :=
  (entries.filterMap SettingEntry.name?).Nodup ∧ ∀ entry ∈ entries, settings.Admits entry

/-- The first of some entries is taken in before the others. -/
theorem admitsAll_cons {entries : List SettingEntry} : settings.AdmitsAll (entry :: entries) ↔
    settings.Admits entry ∧ (settings.add entry).AdmitsAll entries := by
  have hfresh : ∀ name, entry.name? = some name → (((entry :: entries).filterMap SettingEntry.name?).Nodup ↔
      name ∉ entries.filterMap SettingEntry.name? ∧ (entries.filterMap SettingEntry.name?).Nodup) := by
    intro name hname
    rw [List.filterMap_cons_some hname, List.nodup_cons]
  unfold AdmitsAll
  rw [List.forall_mem_cons]
  constructor
  · rintro ⟨hnodup, hfirst, hothers⟩
    refine ⟨hfirst, hnodup.sublist ((List.sublist_cons_self entry entries).filterMap _), ?_⟩
    intro other hother name hname
    refine find?_add_eq_none.mpr ⟨fun hsame => ?_, hothers other hother name hname⟩
    exact ((hfresh name hsame).mp hnodup).1 (List.mem_filterMap.mpr ⟨other, hother, hname⟩)
  · rintro ⟨hfirst, hnodup, hothers⟩
    refine ⟨?_, hfirst, fun other hother name hname => (find?_add_eq_none.mp (hothers other hother name hname)).2⟩
    cases hname : entry.name? with
    | none => rwa [List.filterMap_cons_none hname]
    | some name =>
      refine (hfresh name hname).mpr ⟨fun hmem => ?_, hnodup⟩
      obtain ⟨other, hother, hsame⟩ := List.mem_filterMap.mp hmem
      exact (find?_add_eq_none.mp (hothers other hother name hsame)).1 hname

/-- What a trimmed line says. -/
def entryOf (line : List Char) : Option SettingEntry := (Directive.ofChars line).said?

/-- Those of some lines that say something, without the blanks at their ends. -/
def loud (lines : List (List Char)) : List (List Char) :=
  (lines.map Text.trim).filter fun line => !isSilent line

/-- Lines can be taken in if each one that is not silent makes an entry, and these can be taken in. -/
theorem foldlM_noteLine_eq_ok {lines : List (List Char)} {start : ℕ} :
    (lines.zipIdx start).foldlM (noteLine path) settings = .ok later ↔
      ∃ entries, List.Forall₂ (fun line entry => entryOf line = some entry) (loud lines) entries ∧
        settings.AdmitsAll entries ∧ entries.foldl add settings = later := by
  induction lines generalizing settings start with
  | nil => simp [loud, pure_eq_ok, AdmitsAll]
  | cons line rest ih =>
    rw [List.zipIdx_cons, List.foldlM_cons, bind_eq_ok]
    simp only [ih]
    by_cases hsilent : isSilent (Text.trim line)
    · have hloud : loud (line :: rest) = loud rest := by simp [loud, hsilent]
      simp [noteLine, hsilent, hloud]
    · have hloud : loud (line :: rest) = Text.trim line :: loud rest := by simp [loud, hsilent]
      simp only [noteLine, hsilent, Bool.false_eq_true, if_false, note_eq_ok, hloud]
      constructor
      · rintro ⟨_, ⟨entry, hentry, hadmits, rfl⟩, entries, hentries, hothers, rfl⟩
        exact ⟨entry :: entries, .cons hentry hentries, admitsAll_cons.mpr ⟨hadmits, hothers⟩, rfl⟩
      · rintro ⟨_, _ | ⟨hentry, hentries⟩, hadmits, rfl⟩
        obtain ⟨hfirst, hothers⟩ := admitsAll_cons.mp hadmits
        exact ⟨_, ⟨_, hentry, hfirst, rfl⟩, _, hentries, hothers, rfl⟩

/-- The lines of a text that say something, without the blanks at their ends. -/
def spoken (text : String) : List (List Char) := loud (Text.lines text.toList)

/-- The entries of a text, in the order of its lines. -/
def said (text : String) : List SettingEntry := (spoken text).filterMap entryOf

/-- Lines make entries one by one if each of them makes one. -/
theorem forall₂_entryOf {lines : List (List Char)} {entries : List SettingEntry} :
    List.Forall₂ (fun line entry => entryOf line = some entry) lines entries ↔
      (∀ line ∈ lines, (entryOf line).isSome) ∧ lines.filterMap entryOf = entries := by
  constructor
  · intro h
    induction h with
    | nil => simp
    | cons hfirst _ ih =>
      exact ⟨List.forall_mem_cons.mpr ⟨by simp [hfirst], ih.1⟩, by rw [List.filterMap_cons_some hfirst, ih.2]⟩
  · rintro ⟨hall, rfl⟩
    induction lines with
    | nil => exact .nil
    | cons line rest ih =>
      obtain ⟨hfirst, hothers⟩ := List.forall_mem_cons.mp hall
      obtain ⟨entry, hentry⟩ := Option.isSome_iff_exists.mp hfirst
      rw [List.filterMap_cons_some hentry]
      exact .cons hentry (ih hothers)

/-- A text can be read if each of its lines that is not silent makes an entry, and no setting is given twice. -/
theorem parse_eq_ok {text : String} : parse path text = .ok settings ↔
    (∀ line ∈ spoken text, (entryOf line).isSome) ∧ ({} : Settings).AdmitsAll (said text) ∧
      (said text).foldl add {} = settings := by
  unfold parse
  rw [foldlM_noteLine_eq_ok]
  simp only [forall₂_entryOf, and_assoc, exists_and_left, exists_eq_left']
  rfl

/-! ## What the entries come to -/

variable {entries : List SettingEntry}

/-- The safe classes are those of the entries, in their order. -/
theorem safeClasses_foldl_add : (entries.foldl add settings).safeClasses =
    settings.safeClasses ++ entries.filterMap SettingEntry.safeClass? := by
  induction entries generalizing settings with
  | nil => simp
  | cons entry rest ih =>
    rw [List.foldl_cons, ih]
    cases entry <;> simp [add, SettingEntry.safeClass?, List.filterMap_cons]

/-- The ignored packages are those of the entries, in their order. -/
theorem ignoredPackages_foldl_add : (entries.foldl add settings).ignoredPackages =
    settings.ignoredPackages ++ entries.filterMap SettingEntry.ignoredPackage? := by
  induction entries generalizing settings with
  | nil => simp
  | cons entry rest ih =>
    rw [List.foldl_cons, ih]
    cases entry <;> simp [add, SettingEntry.ignoredPackage?, List.filterMap_cons]

/-- A setting that is given once has the value that it is given. -/
theorem find?_foldl_add {value : String} (h : settings.AdmitsAll entries) :
    (entries.foldl add settings).given.find? name = some value ↔
      .setting name value ∈ entries ∨ settings.given.find? name = some value := by
  induction entries generalizing settings with
  | nil => simp
  | cons entry rest ih =>
    obtain ⟨hfirst, hothers⟩ := admitsAll_cons.mp h
    rw [List.foldl_cons, ih hothers, List.mem_cons]
    cases entry with
    | setting given value' =>
      have hnone : settings.given.find? given = none := hfirst given rfl
      simp only [add, NameTable.find?_insert, SettingEntry.setting.injEq]
      split <;> grind
    | safeClass => simp [add]
    | ignoredPackage => simp [add]

/-- Two settings say the same: each setting has the same value in both, and the lists are equal. -/
structure Agrees (settings later : Settings) : Prop where
  find?_eq : ∀ name, settings.given.find? name = later.given.find? name
  safeClasses_eq : settings.safeClasses = later.safeClasses
  ignoredPackages_eq : settings.ignoredPackages = later.ignoredPackages

/-- Settings that say the same configure all policies alike, or fail alike. -/
theorem Agrees.configure_eq (h : settings.Agrees later) (path : String) :
    settings.crashShield path = later.crashShield path ∧ settings.benchmark path = later.benchmark path ∧
      settings.threadCheck path = later.threadCheck path ∧ settings.callLogger path = later.callLogger path := by
  have hsetting : ∀ name, settings.setting name = later.setting name := by
    intro name
    rw [setting, setting, h.find?_eq]
  refine ⟨?_, ?_, ?_, ?_⟩
  · simp only [crashShield, isEnabled, demand, value?, hsetting, h.safeClasses_eq, h.ignoredPackages_eq]
  · simp only [benchmark, isEnabled, demand, value?, hsetting]
  · simp only [threadCheck, isEnabled, demand, value?, hsetting]
  · simp only [callLogger, isEnabled, demand, value?, hsetting]

/-! ## Other orders -/

/-- The lines of a text with some directive, in their order. -/
def linesOf (directive text : String) : List (List Char) :=
  (spoken text).filter fun line => (Directive.ofChars line).name == directive

/-- Two texts have the same lines, apart from silent ones, in any order.  Only the lines for safe classes stand
in the same order among each other, and so do those for ignored packages. -/
structure Rearranged (text other : String) : Prop where
  perm : (spoken text).Perm (spoken other)
  safeClasses : linesOf Directive.safeClass text = linesOf Directive.safeClass other
  ignoredPackages : linesOf Directive.shieldIgnoredPackage text = linesOf Directive.shieldIgnoredPackage other

variable {text other : String}

theorem Rearranged.symm (h : Rearranged text other) : Rearranged other text :=
  ⟨h.perm.symm, h.safeClasses.symm, h.ignoredPackages.symm⟩

/-- What some entries are about is told by the lines with the directive for it. -/
theorem filterMap_said {α : Type} {about : SettingEntry → Option α} {directive : String}
    (hname : ∀ {line entry}, entryOf line = some entry → (about entry).isSome →
      (Directive.ofChars line).name = directive) (text : String) :
    (said text).filterMap about = ((linesOf directive text).filterMap entryOf).filterMap about := by
  rw [said, linesOf, List.filterMap_filterMap, List.filterMap_filterMap, List.filterMap_filter]
  refine List.filterMap_congr fun line _ => ?_
  split
  · rfl
  · next hother =>
    cases hentry : entryOf line with
    | none => rfl
    | some entry =>
      by_contra hsome
      exact hother (beq_iff_eq.mpr (hname hentry (Option.isSome_iff_ne_none.mpr hsome)))

/-- Texts with the same lines say the same. -/
theorem Rearranged.exists_parse (h : Rearranged text other) (hparse : parse path text = .ok settings) :
    ∃ later, parse path other = .ok later ∧ settings.Agrees later := by
  obtain ⟨hentries, hadmits, rfl⟩ := parse_eq_ok.mp hparse
  have hperm : (said text).Perm (said other) := h.perm.filterMap _
  have hother : ({} : Settings).AdmitsAll (said other) :=
    ⟨(hperm.filterMap _).nodup_iff.mp hadmits.1, fun entry hmem => hadmits.2 entry (hperm.mem_iff.mpr hmem)⟩
  refine ⟨_, parse_eq_ok.mpr ⟨fun line hmem => hentries line (h.perm.mem_iff.mpr hmem), hother, rfl⟩, ?_, ?_, ?_⟩
  · intro name
    refine Option.ext fun value => ?_
    rw [find?_foldl_add hadmits, find?_foldl_add hother, hperm.mem_iff]
  · rw [safeClasses_foldl_add, safeClasses_foldl_add, filterMap_said Directive.name_of_safeClass?,
      filterMap_said Directive.name_of_safeClass?, h.safeClasses]
  · rw [ignoredPackages_foldl_add, ignoredPackages_foldl_add, filterMap_said Directive.name_of_ignoredPackage?,
      filterMap_said Directive.name_of_ignoredPackage?, h.ignoredPackages]

end Settings

namespace Configuration

variable {path text other : String} {config : Configuration}

/-- Texts with the same lines make the same configuration. -/
theorem parse_of_rearranged (h : Settings.Rearranged text other) (hparse : parse path text = .ok config) :
    parse path other = .ok config := by
  obtain ⟨settings, hsettings, hconfig⟩ := bind_eq_ok.mp hparse
  obtain ⟨later, hlater, hagrees⟩ := h.exists_parse hsettings
  obtain ⟨hshield, hbenchmark, hthreads, hlogger⟩ := hagrees.configure_eq path
  refine bind_eq_ok.mpr ⟨later, hlater, ?_⟩
  rw [← hshield, ← hbenchmark, ← hthreads, ← hlogger]
  exact hconfig

/-- Texts that differ in the order of their lines and in their silent lines only can be read if one of them can, and
then they make the same configuration. -/
theorem parse_rearranged (path : String) (h : Settings.Rearranged text other) :
    ((∃ config, parse path text = .ok config) ↔ ∃ config, parse path other = .ok config) ∧
      ∀ config config', parse path text = .ok config → parse path other = .ok config' → config = config' := by
  refine ⟨⟨fun ⟨config, hparse⟩ => ⟨config, parse_of_rearranged h hparse⟩,
    fun ⟨config, hparse⟩ => ⟨config, parse_of_rearranged h.symm hparse⟩⟩, fun config config' hparse hother => ?_⟩
  exact Except.ok.inj ((parse_of_rearranged h hparse).symm.trans hother)

/-- A configuration that keeps its policies apart. -/
def grouped : String :=
  "# shielding\ncrash-shield-safe-class a.A b.B\ncrash-shield-ignored-package p\n" ++
    "crash-shield-ignored-package q\n\n# logging\ncall-logging-enabled true\nlog-call d.L\ncall-logger d.G\n"

/-- The same configuration in another order. -/
def mixed : String :=
  "crash-shield-ignored-package p\n  call-logger d.G\nlog-call d.L\ncrash-shield-ignored-package q\r\n" ++
    "call-logging-enabled true\n\n\n\t#\ncrash-shield-safe-class a.A b.B"

/-- Policies need not be kept apart. -/
theorem parse_grouped_mixed : Settings.Rearranged grouped mixed ∧
    ∃ config, parse "c" grouped = .ok config ∧ parse "c" mixed = .ok config := by
  have hsame : Settings.Rearranged grouped mixed :=
    ⟨by decide +kernel, by decide +kernel, by decide +kernel⟩
  obtain ⟨hreadable, hequal⟩ := parse_rearranged "c" hsame
  have hgrouped : (parse "c" grouped).toOption.isSome := by
    decide +kernel
  obtain ⟨config, hconfig⟩ := Option.isSome_iff_exists.mp hgrouped
  rw [toOption_eq_some] at hconfig
  obtain ⟨config', hconfig'⟩ := hreadable.mp ⟨config, hconfig⟩
  exact ⟨hsame, config, hconfig, by rw [hequal config config' hconfig hconfig', hconfig']⟩

end Configuration

end ClassInstrument
