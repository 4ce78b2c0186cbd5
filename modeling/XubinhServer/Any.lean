import XubinhServer.Lib.OwnedHeap

/-! Variables that hold a value of any type. The value is in a holder on the heap. -/
namespace XubinhServer.Any

open OwnedHeap

/-- A slot for each variable, and one for the unnamed temporary of an expression. A value is
together with its type. -/
abbrev State (Name : Type) {Tag : Type} (Value : Tag → Type) :=
  OwnedHeap.State (Option Name) (Sigma Value)

variable {Name Tag : Type} {Value : Tag → Type} [DecidableEq Name]

/-- A virtual member: the pointer must not be null. -/
def clone (s : State Name Value) (base : Option Nat) : Except Fault (Nat × State Name Value) := do
  let held ← s.deref base
  pure (s.next, s.new held)

def default (s : State Name Value) (x : Option Name) : State Name Value :=
  s.setSlot x (some none)

def value (s : State Name Value) (x : Option Name) (held : Sigma Value) : State Name Value :=
  (s.new held).setSlot x (some (some s.next))

def copy (s : State Name Value) (x other : Option Name) : Except Fault (State Name Value) := do
  let base ← s.pointer other
  let (newBase, s) ← clone s base
  pure (s.setSlot x (some (some newBase)))

def move (s : State Name Value) (x other : Option Name) : Except Fault (State Name Value) := do
  let base ← s.pointer other
  pure ((s.setSlot x (some base)).setSlot other (some none))

def destroy (s : State Name Value) (x : Option Name) : Except Fault (State Name Value) := do
  let base ← s.pointer x
  let s ← s.delete base
  pure (s.setSlot x none)

def swap (s : State Name Value) (x other : Option Name) : Except Fault (State Name Value) := do
  let temp ← s.pointer x
  let base ← s.pointer other
  pure ((s.setSlot x (some base)).setSlot other (some temp))

def copyAssign (s : State Name Value) (x other : Name) : Except Fault (State Name Value) := do
  let s ← copy s none other
  let s ← swap s none x
  destroy s none

def valueAssign (s : State Name Value) (x : Name) (held : Sigma Value) :
    Except Fault (State Name Value) := do
  let s ← swap (value s none held) none x
  destroy s none

def clear (s : State Name Value) (x : Name) : Except Fault (State Name Value) := do
  let s ← swap (default s none) none x
  destroy s none

def moveAssign (s : State Name Value) (x other : Name) : Except Fault (State Name Value) := do
  let s ← swap s other x
  let s ← swap (default s none) none other
  destroy s none

def empty (s : State Name Value) (x : Name) : Except Fault Bool := do
  let base ← s.pointer x
  pure base.isNone

/-- No type stands for `void`. -/
def type (s : State Name Value) (x : Name) : Except Fault (Option Tag) := do
  let base ← s.pointer x
  if base = none then pure none
  else
    let held ← s.deref base
    pure (some held.1)

section Cast

variable [DecidableEq Tag]

/-- What a holder is for a cast to a type: a value where the type is its own. -/
def valueAs (t : Tag) (held : Sigma Value) : Option (Value t) :=
  if h : held.1 = t then some (h ▸ held.2) else none

/-- `any_cast` of the address of a variable. The result may be null. -/
def anyCastPointer (s : State Name Value) (x : Name) (t : Tag) : Except Fault (Option Nat) := do
  let type ← type s x
  if type = some t then s.pointer x else pure none

/-- `any_cast` to a value, which throws `bad_any_cast` where there is no result. -/
def anyCast (s : State Name Value) (x : Name) (t : Tag) : Except Fault (Option (Value t)) := do
  let valuePtr ← anyCastPointer s x t
  if valuePtr = none then pure none
  else
    let held ← s.deref valuePtr
    pure (valueAs t held)

/-- `any_cast` to a reference, and an assignment to it. -/
def assignThrough (s : State Name Value) (x : Name) (t : Tag) (newValue : Value t) :
    Except Fault (Option (State Name Value)) := do
  let valuePtr ← anyCastPointer s x t
  match valuePtr with
  | none => pure none
  | some p => pure (some (s.store p ⟨t, newValue⟩))

end Cast

/-- What a program does with its variables. -/
inductive Op (Name : Type) {Tag : Type} (Value : Tag → Type)
  | default (x : Name)
  | value (x : Name) (held : Sigma Value)
  | copy (x other : Name)
  | move (x other : Name)
  | destroy (x : Name)
  | copyAssign (x other : Name)
  | moveAssign (x other : Name)
  | valueAssign (x : Name) (held : Sigma Value)
  | swap (x other : Name)
  | clear (x : Name)
  | empty (x : Name)
  | type (x : Name)
  | anyCast (x : Name) (t : Tag)
  | assignThrough (x : Name) (t : Tag) (newValue : Value t)

inductive Result {Tag : Type} (Value : Tag → Type)
  | done
  | empty (isEmpty : Bool)
  | type (t : Option Tag)
  | value (held : Sigma Value)
  | badAnyCast

def exec [DecidableEq Tag] (s : State Name Value) :
    Op Name Value → Except Fault (State Name Value × Result Value)
  | .default x => pure (default s x, .done)
  | .value x held => pure (value s x held, .done)
  | .copy x other => return (← copy s x other, .done)
  | .move x other => return (← move s x other, .done)
  | .destroy x => return (← destroy s x, .done)
  | .copyAssign x other => return (← copyAssign s x other, .done)
  | .moveAssign x other => return (← moveAssign s x other, .done)
  | .valueAssign x held => return (← valueAssign s x held, .done)
  | .swap x other => return (← swap s x other, .done)
  | .clear x => return (← clear s x, .done)
  | .empty x => return (s, .empty (← empty s x))
  | .type x => return (s, .type (← type s x))
  | .anyCast x t => do
    match ← anyCast s x t with
    | none => pure (s, .badAnyCast)
    | some v => pure (s, .value ⟨t, v⟩)
  | .assignThrough x t newValue => do
    match ← assignThrough s x t newValue with
    | none => pure (s, .badAnyCast)
    | some s' => pure (s', .done)

end XubinhServer.Any
