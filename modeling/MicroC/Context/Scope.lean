import MicroC.RiscV.Register

/-!
Names and where their values live.
-/

namespace MicroC

open RiscV (Reg)

inductive Storage where
  /-- A slot of the frame, by its offset from `s0`. -/
  | stack (offset : Int32)
  | register (reg : Reg)
  /-- A function, of which only the label is known. -/
  | function (label : String)
  deriving DecidableEq

/-- The names that one region of a program binds. -/
structure Scope where
  bindings : List (String × Storage)
  deriving DecidableEq

namespace Scope

def empty : Scope := ⟨[]⟩

def find? (s : Scope) (name : String) : Option Storage := s.bindings.lookup name

def insert (s : Scope) (name : String) (storage : Storage) : Scope :=
  ⟨(name, storage) :: s.bindings⟩

@[simp] theorem find?_empty (name : String) : empty.find? name = none := rfl

@[simp] theorem find?_insert (s : Scope) (name other : String) (storage : Storage) :
    (s.insert name storage).find? other = if other = name then some storage else s.find? other := by
  simp only [find?, insert, List.lookup_cons]
  by_cases h : other = name
  · simp [h]
  · rw [beq_false_of_ne h, if_neg h]

end Scope

end MicroC
