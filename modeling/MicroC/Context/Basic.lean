import MicroC.Context.Scope
import MicroC.Emission.Error
import MicroC.Frame.Basic

/-!
What is known at a point of a program that is being compiled: the names in
scope and, inside a function, its frame, the registers and labels handed out,
and whether it has returned.
-/

namespace MicroC

open RiscV

structure CurrentFunction where
  name : String
  frame : Frame
  /-- How many scratch registers were handed out. -/
  scratches : Nat
  /-- How many labels were handed out. -/
  labels : UInt32
  returned : Bool
  deriving DecidableEq

structure Context where
  target : Target
  /-- The scope of the whole program, which is never left. -/
  globals : Scope
  /-- The scopes entered since, the innermost first. -/
  inner : List Scope
  function : Option CurrentFunction
  deriving DecidableEq

namespace Context

def empty (target : Target) : Context := ⟨target, .empty, [], none⟩

/-- The number of the innermost scope, where that of the whole program is
zero. -/
def depth (c : Context) : Nat := c.inner.length

def enterScope (c : Context) : Context := { c with inner := .empty :: c.inner }

def exitScope (c : Context) : Except Breach Context :=
  match c.inner with
  | [] => .error .globalScopePopped
  | _ :: outer => .ok { c with inner := outer }

/-- Binds a name in the innermost scope, where it may hide a binding further
out. -/
def declare (c : Context) (name : String) (storage : Storage) : Except EmitError Context :=
  match c.inner with
  | [] =>
      if (c.globals.find? name).isSome then .error (.redefinition name)
      else .ok { c with globals := c.globals.insert name storage }
  | scope :: outer =>
      if (scope.find? name).isSome then .error (.redefinition name)
      else .ok { c with inner := scope.insert name storage :: outer }

/-- What a name is bound to, innermost scope first. -/
def resolve (c : Context) (name : String) : Except EmitError Storage :=
  match c.inner.findSome? (·.find? name) <|> c.globals.find? name with
  | some storage => .ok storage
  | none => .error (.unbound name)

/-- Binds a function in the scope of the whole program and enters its scope. -/
def openFunction (c : Context) (name : String) : Except EmitError Context :=
  match c.function with
  | some outer => .error (.unsupported (.nestedFunction name outer.name))
  | none =>
      if (c.globals.find? name).isSome then .error (.redefinition name)
      else .ok { c with
        globals := c.globals.insert name (.function name)
        inner := .empty :: c.inner
        function := some ⟨name, .empty c.target, 0, 0, false⟩ }

def insideFunction (c : Context) : Bool := c.function.isSome

def currentName? (c : Context) : Option String := c.function.map (·.name)

def current (c : Context) : Except Breach CurrentFunction :=
  match c.function with
  | some state => .ok state
  | none => .error .outsideFunction

def currentFrame (c : Context) : Except Breach Frame := return (← c.current).frame

/-- Adds a slot to the current frame and gives its offset from `s0`. -/
def reserveSlot (c : Context) (size : UInt32) : Except Breach (Int32 × Context) := do
  let state ← c.current
  let (offset, frame) ← state.frame.reserve size
  return (offset, { c with function := some { state with frame } })

/-- The registers that hold intermediate values, in the order in which they
are handed out. -/
def scratchRegisters : List Reg := Reg.temporaries ++ Reg.preserved

/-- Hands out a register that the current function has not used yet. One that
must be preserved is saved in the frame. -/
def takeScratch (c : Context) : Except (Halt EmitError) (Reg × Context) :=
  match c.current with
  | .error breach => .error (.breach breach)
  | .ok state =>
      match scratchRegisters[state.scratches]? with
      | none => .error (.failure (.outOfRegisters state.name))
      | some reg =>
          let frame :=
            if reg ∈ Reg.temporaries then .ok state.frame else state.frame.preserve reg
          match frame with
          | .error breach => .error (.breach breach)
          | .ok frame =>
              .ok (reg, { c with
                function := some { state with frame, scratches := state.scratches + 1 } })

/-- A label that the current function has not used yet. -/
def freshLabel (c : Context) : Except Breach (String × Context) := do
  let state ← c.current
  let labels ← Checked.add state.labels 1
  return (s!".L{state.name}_{state.labels}", { c with function := some { state with labels } })

def setReturned (c : Context) : Except Breach Context := do
  let state ← c.current
  return { c with function := some { state with returned := true } }

def returned (c : Context) : Bool :=
  match c.function with
  | some state => state.returned
  | none => false

/-- Nothing may follow the return of a function. -/
def requireReachable (c : Context) : Except EmitError Unit :=
  if c.returned then .error (.unsupported .afterReturn) else .ok ()

end Context

end MicroC
