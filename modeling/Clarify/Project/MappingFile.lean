import Clarify.Json.Reader
import Clarify.Naming.Name
import Clarify.Project.Database

/-!
# Mappings in files

A mapping is written to a file as a JSON object that has the new name under each old one. A file
of that form can be taken in: its entries are manual ones then.
-/

namespace Clarify

namespace MappingFile

/-- The text of a file with the given entries (part of `map_export_command`). -/
def print (records : List MappingRecord) : String :=
  (Json.Output.record (records.map fun r => (r.oldName, .text r.newName))).pretty

/-- The entries in the text of a file, where the last one under a key counts (part of
`map_import_command`). -/
def parse? (text : String) : Option (Std.TreeMap String String) := do
  match ← Json.parse? text with
  | .object members =>
    return .ofList (← members.mapM fun (old, new) => do return (old, ← new.text?))
  | _ => none

/-- Whether an entry may be set by hand. -/
def isStorable (old new : String) : Bool := !old.isEmpty && Name.isValid new

/-- The first of the entries that may not be set by hand (part of `map_import_command`). -/
def refused? (entries : Std.TreeMap String String) : Option (String × String) :=
  entries.toList.find? fun (old, new) => !isStorable old new

end MappingFile

namespace Database

/-- Writes a manual entry; tells whether it was written (part of `map_set_command`). -/
def setManual (d : Database) (old new time : String) : Bool × Database :=
  d.upsert ⟨old, new, .manual, time⟩

/-- Writes the entries of a file as manual ones; tells how many were written (part of
`map_import_command`). -/
def takeIn (d : Database) (entries : Std.TreeMap String String) (time : String) :
    Nat × Database :=
  d.save (entries.toList.map fun (old, new) => ⟨old, new, .manual, time⟩)

end Database

end Clarify
