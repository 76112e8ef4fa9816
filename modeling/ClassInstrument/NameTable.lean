/-!
# Tables and sets of names

A `NameTable` gives values to names.  Its entries are listed by ascending name, and a name that is
entered again takes its last value.  Names are ordered by their characters, which is also the order
of their encodings in bytes.
-/

namespace ClassInstrument

/-- A list of names with their values, by ascending name. -/
abbrev NameTable (α : Type) := List (String × α)

namespace NameTable

variable {α : Type}

/-- Gives a value to a name, in place of an earlier one. -/
def insert (name : String) (value : α) : NameTable α → NameTable α
  | [] => [(name, value)]
  | (other, old) :: rest =>
    if name = other then (name, value) :: rest
    else if name < other then (name, value) :: (other, old) :: rest
    else (other, old) :: insert name value rest

/-- The table of a list of entries, in which later ones count. -/
def ofList (entries : List (String × α)) : NameTable α :=
  entries.foldl (fun table (name, value) => insert name value table) []

/-- The value of a name. -/
def find? (name : String) (table : NameTable α) : Option α := table.lookup name

theorem lookup_cons (name key : String) (value : α) (rest : NameTable α) :
    List.lookup name ((key, value) :: rest) =
      if name = key then some value else List.lookup name rest := by
  by_cases h : name = key
  · simp [h]
  · rw [List.lookup_cons, beq_eq_false_iff_ne.mpr h, if_neg h]

/-- A name has the value it was given last. -/
@[simp] theorem find?_insert (name other : String) (value : α) (table : NameTable α) :
    find? other (insert name value table) =
      if other = name then some value else find? other table := by
  induction table with
  | nil => simp [insert, find?, lookup_cons]
  | cons entry rest ih =>
    obtain ⟨key, old⟩ := entry
    simp only [find?] at ih ⊢
    unfold insert
    split
    · next h => subst h; grind [lookup_cons]
    · split <;> grind [lookup_cons]

end NameTable

/-- The names of a list in ascending order, each once. -/
def sortedNames (names : List String) : List String :=
  (NameTable.ofList (names.map fun name => (name, ()))).map Prod.fst

end ClassInstrument
