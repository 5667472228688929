/-! A stack of named scopes. A name is looked up from the innermost scope outwards; assigning to a
name that no scope has adds it to the innermost one. The global scope is never removed. -/
namespace MatScript

/-- A named set of bindings. -/
structure Scope (α : Type) where
  name : String
  bindings : List (String × α) := []

namespace Scope

variable {α : Type}

def get? (s : Scope α) (key : String) : Option α := s.bindings.lookup key

def contains (s : Scope α) (key : String) : Bool := (s.get? key).isSome

/-- Replace the first binding of a name, or add one at the end. -/
def insertBinding (key : String) (value : α) : List (String × α) → List (String × α)
  | [] => [(key, value)]
  | (k, v) :: rest => if k = key then (k, value) :: rest else (k, v) :: insertBinding key value rest

def insert (s : Scope α) (key : String) (value : α) : Scope α :=
  { s with bindings := insertBinding key value s.bindings }

end Scope

/-- The scopes above the global one, innermost first, and the global one. -/
structure Scopes (α : Type) where
  inner : List (Scope α)
  base : Scope α

namespace Scopes

variable {α : Type}

/-- The global scope alone, without any binding. -/
def empty : Scopes α := ⟨[], ⟨"global", []⟩⟩

instance : Inhabited (Scopes α) := ⟨empty⟩

/-- All scopes, innermost first. -/
def toList (s : Scopes α) : List (Scope α) := s.inner ++ [s.base]

def push (s : Scopes α) (name : String) : Scopes α := { s with inner := ⟨name, []⟩ :: s.inner }

/-- Remove the innermost scope, unless it is the global one. -/
def pop? (s : Scopes α) : Option (Scopes α) :=
  match s.inner with
  | [] => none
  | _ :: rest => some { s with inner := rest }

/-- The innermost scope removed; the global scope alone stays as it is. -/
def pop (s : Scopes α) : Scopes α := { s with inner := s.inner.tail }

def current (s : Scopes α) : Scope α := s.inner.headD s.base

/-- The scope around the innermost one. -/
def parent? (s : Scopes α) : Option (Scope α) := s.toList[1]?

def hasScope (s : Scopes α) (name : String) : Bool := s.toList.any (·.name == name)

def get? (s : Scopes α) (key : String) : Option α := s.toList.findSome? (·.get? key)

def contains (s : Scopes α) (key : String) : Bool := s.toList.any (·.contains key)

/-- Assign in the first scope that has the name. -/
def assignIn? (key : String) (value : α) : List (Scope α) → Option (List (Scope α))
  | [] => none
  | s :: rest =>
    if s.contains key then some (s.insert key value :: rest)
    else (assignIn? key value rest).map (s :: ·)

/-- Assign to a name: in the innermost scope that has it, else in the innermost scope. -/
def set (s : Scopes α) (key : String) (value : α) : Scopes α :=
  match assignIn? key value s.inner with
  | some inner => { s with inner }
  | none =>
    if s.base.contains key then { s with base := s.base.insert key value }
    else match s.inner with
      | [] => { s with base := s.base.insert key value }
      | scope :: rest => { s with inner := scope.insert key value :: rest }

/-- The values changed, the names and scopes kept. -/
def map {β : Type} (f : α → β) (s : Scopes α) : Scopes β :=
  let scope (t : Scope α) : Scope β := ⟨t.name, t.bindings.map fun b => (b.1, f b.2)⟩
  ⟨s.inner.map scope, scope s.base⟩

end Scopes

end MatScript
