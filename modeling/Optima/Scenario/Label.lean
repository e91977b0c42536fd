import Optima.Datum.Order

/-!
The names of scenarios. A name is mostly a text, but any value will do and is shown as it was given.
Where things are stored under names, a name must be a value that things can be stored under.
-/

namespace Optima

structure Label where
  value : Datum

namespace Label

def ofText (name : String) : Label := ⟨.text name⟩

def same (a b : Label) : Bool := a.value.same b.value

def check (name : Label) : Except Fault Unit := do
  let _ ← name.value.key

def distinct (names : List Label) : List Label :=
  names.foldl (fun kept name => if kept.any name.same then kept else kept ++ [name]) []

def repeated (names : List Label) : List Label :=
  distinct (names.filter fun name => 1 < names.countP name.same)

end Label

end Optima
