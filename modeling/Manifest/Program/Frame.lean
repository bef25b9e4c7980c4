import Manifest.Program.Error

/-!
# Frames

The names that are visible during evaluation live in frames: one for the
bindings of the caller, one for every section and one for every call.  All
names of a section are entered before any of them is evaluated, so a binding
may use one that is defined later.  A binding is evaluated when it is first
asked for, in the frame that owns it.
-/

namespace Manifest

/-- The state of one name. -/
inductive Slot where
  | pending (operand : Expr)
  /-- Its evaluation is under way. -/
  | resolving
  | ready (value : Value)
  | function (lambda : Lambda Expr)

/-- The names of one section or call, and the frame around it. -/
structure Frame where
  slots : List (String × Slot)
  parent : Option Nat

/-- The frames that have been opened, and the arguments that wait for a call. -/
structure Memory where
  frames : Array Frame
  /-- Next argument first. -/
  arguments : List Value

/-- A step of evaluation.  A failure keeps the memory in which it arose. -/
abbrev Machine := EStateM EvalError Memory

namespace Frame

/-- What a name stands for in one frame. -/
def get? (frame : Frame) (name : String) : Option Slot :=
  (frame.slots.find? fun entry => entry.1 == name).map Prod.snd

/-- Let a name stand for something, in place of what it stood for. -/
def set (frame : Frame) (name : String) (slot : Slot) : Frame :=
  { frame with slots := go frame.slots }
where
  go : List (String × Slot) → List (String × Slot)
    | [] => [(name, slot)]
    | (other, held) :: rest =>
        if other = name then (name, slot) :: rest else (other, held) :: go rest

/-- The frame of a caller's bindings. -/
def ofBindings (bindings : Value.Bindings) : Frame :=
  ⟨bindings.map fun (name, value) => (name, .ready value), none⟩

end Frame

namespace Memory

/-- The nearest frame outwards that has a name, with what it stands for there.
A frame is always younger than the frame around it. -/
def owner? (memory : Memory) (frame : Nat) (name : String) : Option (Nat × Slot) :=
  match memory.frames[frame]? with
  | none => none
  | some found =>
      match found.get? name with
      | some slot => some (frame, slot)
      | none =>
          match found.parent with
          | none => none
          | some parent => if parent < frame then memory.owner? parent name else none
termination_by frame

/-- The memory in front of an evaluation. -/
def ofBindings (bindings : Value.Bindings) : Memory := ⟨#[.ofBindings bindings], []⟩

end Memory

namespace Machine

/-- Open a frame and return its number. -/
def openFrame (frame : Frame) : Machine Nat := do
  let memory ← get
  set { memory with frames := memory.frames.push frame }
  return memory.frames.size

def setSlot (frame : Nat) (name : String) (slot : Slot) : Machine Unit :=
  modify fun memory =>
    { memory with frames := memory.frames.modify frame fun found => found.set name slot }

/-- How many arguments wait. -/
def waiting : Machine Nat := do
  return (← get).arguments.length

def pushArgument (value : Value) : Machine Unit :=
  modify fun memory => { memory with arguments := value :: memory.arguments }

/-- Take the next argument above a height of the stack. -/
def popArgument? (base : Nat) : Machine (Option Value) := do
  let memory ← get
  match memory.arguments with
  | [] => return none
  | argument :: rest =>
      if memory.arguments.length ≤ base then return none
      else
        set { memory with arguments := rest }
        return some argument

/-- Drop the arguments above a height of the stack, and tell whether there were any. -/
def dropArguments (base : Nat) : Machine Bool := do
  let memory ← get
  let extra := memory.arguments.length - base
  set { memory with arguments := memory.arguments.drop extra }
  return extra != 0

/-- Run a step and hand its failure on as a value. -/
def attempt {α : Type} (step : Machine α) : Machine (Except EvalError α) := fun memory =>
  match step memory with
  | .ok value memory => .ok (.ok value) memory
  | .error failure memory => .ok (.error failure) memory

end Machine
end Manifest
