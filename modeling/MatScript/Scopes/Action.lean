import MatScript.Scopes

/-! Sequences of operations on a table of scopes, with what each of them answers. -/
namespace MatScript

namespace Scopes

/-- An operation on a table. `within` works inside a scope of its own; a failure in it leaves that
scope on the table. -/
inductive Action (α : Type) where
  | push (name : String)
  | pop
  | set (key : String) (value : α)
  | get (key : String)
  | contains (key : String)
  | hasScope (name : String)
  | current
  | parent
  | base
  | within (name : String) (body : List (Action α)) (failure : Option String)

instance {α : Type} : Inhabited (Action α) := ⟨.pop⟩

/-- The answer to an operation. -/
inductive Reply (α : Type) where
  | done
  | value (v : Option α)
  | truth (b : Bool)
  | scope (s : Option (Scope α))
  /-- The global scope was to be removed. -/
  | baseScope
  | failed (message : String)

/-- An answer, the table after the operation, and the records of the operations inside it. -/
inductive Record (α : Type) where
  | mk (reply : Reply α) (table : Scopes α) (body : Option (List (Record α)))

namespace Record

variable {α : Type}

def reply : Record α → Reply α
  | mk r _ _ => r

def table : Record α → Scopes α
  | mk _ t _ => t

def body : Record α → Option (List (Record α))
  | mk _ _ b => b

end Record

variable {α : Type}

/-- Remove the innermost scope, or answer that it is the global one. -/
def popReply (t : Scopes α) : Reply α × Scopes α :=
  match t.pop? with
  | some t => (.done, t)
  | none => (.baseScope, t)

mutual

/-- Perform an operation. -/
def perform (t : Scopes α) : Action α → Record α
  | .push name => .mk .done (t.push name) none
  | .pop => .mk t.popReply.1 t.popReply.2 none
  | .set key value => .mk .done (t.set key value) none
  | .get key => .mk (.value (t.get? key)) t none
  | .contains key => .mk (.truth (t.contains key)) t none
  | .hasScope name => .mk (.truth (t.hasScope name)) t none
  | .current => .mk (.scope (some t.current)) t none
  | .parent => .mk (.scope t.parent?) t none
  | .base => .mk (.scope (some t.base)) t none
  | .within name body failure =>
    let (records, t) := performAll (t.push name) body
    match failure with
    | some message => .mk (.failed message) t (some records)
    | none => .mk t.popReply.1 t.popReply.2 (some records)

/-- Perform operations one after the other, whatever they answer. -/
def performAll (t : Scopes α) : List (Action α) → List (Record α) × Scopes α
  | [] => ([], t)
  | a :: rest =>
    let r := perform t a
    let (records, t) := performAll r.table rest
    (r :: records, t)

end

end Scopes

end MatScript
