import ClassInstrument.Policy.Fault
import ClassInstrument.Storage.Tree

/-!
# What can go wrong with a batch

One file may fail while the others go through, so the failures of a batch are listed in the order of
its files.  A broken archive among the files that are searched for classes ends a batch before any
file is written.
-/

namespace ClassInstrument

/-- Why a file cannot be transformed. -/
inductive ItemFault where
  /-- A file operation is refused. -/
  | refused (cause : FileFault)
  /-- The file starts like an archive and cannot be read as one. -/
  | badArchive (cause : ArchiveFault)
  /-- A class cannot be read, instrumented or written. -/
  | rejected (cause : PolicyFault)
  /-- The directory for the output cannot be created. -/
  | noDirectory (directory : String) (cause : FileFault)
  /-- Something failed while something else was being done. -/
  | within (context : String) (cause : ItemFault)
deriving DecidableEq, Repr

/-- The text shown for a file that cannot be transformed. -/
def ItemFault.message : ItemFault → String
  | refused cause => cause.message
  | badArchive cause => cause.message
  | rejected cause => cause.message
  | noDirectory directory cause => s!"Failed to create directory '{directory}': {cause.message}"
  | within context cause => s!"{context}: {cause.message}"

/-- Why a batch does not succeed. -/
inductive BatchFault where
  /-- The batch ended before any file was written. -/
  | early (cause : ItemFault)
  /-- Some files could not be transformed. -/
  | failures (causes : List ItemFault)
deriving DecidableEq, Repr

/-- The text shown for a batch that does not succeed. -/
def BatchFault.message : BatchFault → String
  | early cause => cause.message
  | failures causes =>
    String.join ("Error running annotation processor:" ::
      causes.map fun cause => "\n" ++ cause.message)

end ClassInstrument
