import PropertyTables.Navigation

/-! # Settings

* `Settings`: texts under names, in increasing order of the names.
* `Settings.validate`: whether every name is a writable path; the first that is not is the fault.
-/

namespace PropertyTables
set_option autoImplicit false

/-- Named texts. -/
structure Settings where
  entries : Index String

namespace Settings

/-- The settings of some pairs; the last of one name counts. -/
def ofList (pairs : List (String × String)) : Settings := ⟨Index.ofList pairs⟩

def get? (s : Settings) (key : String) : Option String := s.entries.find? key

/-- Sets a text under a name and gives the text that was there. -/
def insert (s : Settings) (key value : String) : Option String × Settings :=
  (s.get? key, ⟨s.entries.insert key value⟩)

def size (s : Settings) : Nat := s.entries.size

/-- Checks names in order, up to the first that is no writable path. -/
def checkNames (t : Table) : List String → Browsing Unit
  | [] => return
  | key :: rest => do
    if ← t.canWrite key then checkNames t rest else throw (.unknownSetting key)

/-- Checks that every name is a writable path of the table. -/
def validate (s : Settings) (t : Table) : Browsing Unit := checkNames t s.entries.names

end Settings

end PropertyTables
