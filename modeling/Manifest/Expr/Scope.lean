import Manifest.Expr

/-!
# Lexical scopes

The scopes of a document are numbered in the order of their creation.  A
scope names the scope around it, which is always older, so the way outwards
ends.
-/

namespace Manifest

/-- What a name stands for in a scope. -/
inductive Binding where
  /-- A parameter, whose value is known in a call only. -/
  | parameter
  | expression (operand : Expr)

/-- One scope: the scope around it and its names, oldest first. -/
structure ScopeRecord where
  parent : Option Nat
  symbols : List (String × Binding)

instance : Inhabited ScopeRecord := ⟨⟨none, []⟩⟩

/-- All scopes of a document. -/
structure Scopes where
  records : Array ScopeRecord

namespace Scopes

def empty : Scopes := ⟨#[]⟩

def size (scopes : Scopes) : Nat := scopes.records.size

/-- Open a scope inside another and return its number. -/
def push (scopes : Scopes) (parent : Option Nat) : Nat × Scopes :=
  (scopes.size, ⟨scopes.records.push ⟨parent, []⟩⟩)

def get? (scopes : Scopes) (id : Nat) : Option ScopeRecord :=
  scopes.records[id]?

/-- Enter a name into a scope.  It shadows an earlier entry of the same name. -/
def bind (scopes : Scopes) (id : Nat) (name : String) (binding : Binding) : Scopes :=
  ⟨scopes.records.modify id fun record =>
    { record with symbols := record.symbols ++ [(name, binding)] }⟩

end Scopes

/-- The latest entry of a name in one scope. -/
def ScopeRecord.latest? (record : ScopeRecord) (name : String) : Option Binding :=
  (record.symbols.reverse.find? fun entry => entry.1 == name).map Prod.snd

namespace Scopes

/-- What a name stands for in a scope: its latest entry in the nearest scope
outwards that has one. -/
def lookup (scopes : Scopes) (id : Nat) (name : String) : Option Binding :=
  match scopes.get? id with
  | none => none
  | some record =>
      match record.latest? name with
      | some binding => some binding
      | none =>
          match record.parent with
          | none => none
          | some parent => if parent < id then scopes.lookup parent name else none
termination_by id

end Scopes

/-- A parsed document: its expression and the scopes that belong to it. -/
structure Document where
  root : Expr
  scopes : Scopes

end Manifest
