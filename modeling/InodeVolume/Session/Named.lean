/-!
Values by name, in a session: a finite map in which setting a name again replaces its value.
-/
namespace InodeVolume

/-- A finite map from names; each name stands for at most one value. -/
structure Named (α : Type) where
  entries : List (String × α)

namespace Named

variable {α : Type}

def empty : Named α := ⟨[]⟩

def get? (n : Named α) (name : String) : Option α := n.entries.lookup name

def erase (n : Named α) (name : String) : Named α := ⟨n.entries.filter fun e => e.1 != name⟩

def set (n : Named α) (name : String) (a : α) : Named α := ⟨(name, a) :: (n.erase name).entries⟩

end Named

end InodeVolume
