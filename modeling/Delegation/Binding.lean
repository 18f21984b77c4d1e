import Delegation.Callable
import Delegation.Stack

/-!
# Bindings

A binding pairs a callable with the way its body is to run. A function sees an enclosing scope and
the globals, a method sees the entity it is declared on, a closure sees the frame in which it was
made. A method stored in the tables of its own entity names that entity without owning it; any other
method owns it.
-/

namespace Delegation

/-- The ways of running a body. -/
inductive BindingKind where
  | function
  | method
  | closure
  deriving DecidableEq, Repr

def BindingKind.text : BindingKind → String
  | .function => "function"
  | .method => "method"
  | .closure => "closure"

/-- What a binding adds to its callable. -/
inductive Strategy where
  | function (enclosing : Option ScopeId)
  /-- A method that owns its entity. -/
  | method (owner : EntityId)
  /-- A method in a table of its entity, which it does not own. -/
  | declared (owner : EntityId)
  | closure (captured : Frame)
  deriving DecidableEq

def Strategy.kind : Strategy → BindingKind
  | .function _ => .function
  | .method _ | .declared _ => .method
  | .closure _ => .closure

/-- A callable together with the way its body runs. -/
structure Binding where
  callable : Callable
  strategy : Strategy
  deriving DecidableEq

instance : Inhabited Binding := ⟨⟨.nullary "" (.script 0), .function none⟩⟩

end Delegation
