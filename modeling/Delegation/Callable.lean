import Delegation.Failure

/-!
# Callables

A callable pairs a list of parameter names with a body. The body is a script of the program or one
of the methods that every root object carries; a script is named by its address in the code of the
session. Parameters are identifiers without repetition, which is checked when a callable is created,
name by name from the left, and holds of every callable from then on.
-/

namespace Delegation

inductive RootMethod where
  | id | type | super | text | hasMember
  deriving DecidableEq, Repr

/-- What runs when a callable is invoked. -/
inductive Body where
  /-- The script at an address. -/
  | script (address : Nat)
  | root (method : RootMethod)
  deriving DecidableEq, Repr

namespace Callable

/-- Checks names from the left: each must be an identifier, and none may repeat one in `seen`. -/
def checkParams (seen : List String) : List String → Except Cause Unit
  | [] => .ok ()
  | param :: rest =>
      if !isIdentifier param then .error (.invalidSymbol param .identifier)
      else if seen.contains param then .error (.duplicateSymbol param)
      else checkParams (param :: seen) rest

/-- The check passes exactly for identifiers without repetition, none of them seen before. -/
theorem checkParams_eq_ok_iff {seen params : List String} :
    checkParams seen params = .ok () ↔
      (∀ param ∈ params, isIdentifier param = true ∧ param ∉ seen) ∧ params.Nodup := by
  induction params generalizing seen with
  | nil => simp [checkParams]
  | cons param rest ih =>
    unfold checkParams
    by_cases identifier : isIdentifier param = true
    · by_cases repeated : param ∈ seen
      · simp [identifier, repeated]
      · simp only [identifier, repeated, List.contains_iff_mem, ih, List.mem_cons, List.nodup_cons,
          Bool.not_true, Bool.false_eq_true, if_false]
        constructor
        · intro ⟨others, distinct⟩
          refine ⟨fun other place => ?_, fun place => (others param place).2 (.inl rfl), distinct⟩
          rcases place with rfl | place
          · exact ⟨identifier, repeated⟩
          · exact ⟨(others other place).1, fun old => (others other place).2 (.inr old)⟩
        · intro ⟨all, new, distinct⟩
          refine ⟨fun other place => ⟨(all other (.inr place)).1, ?_⟩, distinct⟩
          rintro (rfl | old)
          · exact new place
          · exact (all other (.inr place)).2 old
    · simp [identifier]

end Callable

/-- A name, parameter names and a body. -/
structure Callable where
  name : String
  params : List String
  body : Body
  identifiers : ∀ param ∈ params, isIdentifier param = true
  distinct : params.Nodup
  deriving DecidableEq, Repr

namespace Callable

def arity (callable : Callable) : Nat := callable.params.length

/-- A callable with the given parameters, if they are identifiers without repetition. -/
def create (name : String) (params : List String) (body : Body) : Except Cause Callable :=
  match checked : checkParams [] params with
  | .ok () =>
      have valid := checkParams_eq_ok_iff.1 checked
      .ok ⟨name, params, body, fun param place => (valid.1 param place).1, valid.2⟩
  | .error cause => .error cause

def nullary (name : String) (body : Body) : Callable := ⟨name, [], body, nofun, .nil⟩

end Callable

end Delegation
