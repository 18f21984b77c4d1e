import Delegation.Invocation

/-!
# Parameters

The parameters of a callable are identifiers without repetition, so putting arguments into a fresh
scope under their names never fails. What is left of an invocation with the right number of
arguments is to add that scope to the heap and to run the body with it in front.
-/

namespace Delegation

/-- Declaring succeeds for distinct, admitted, new names on an open scope, and adds the cells behind
the others in their order. -/
theorem Scope.declareAll_eq_ok {scope : Scope} {entries : List (String × Cell)}
    (accepted : ∀ entry ∈ entries, scope.policy.accepts entry.1 = true)
    (isOpen : scope.isSealed = false) (new : ∀ entry ∈ entries, entry.1 ∉ scope.symbols)
    (distinct : (entries.map Prod.fst).Nodup) :
    scope.declareAll entries = .ok { scope with cells := scope.cells ++ entries } := by
  induction entries generalizing scope with
  | nil => simp only [declareAll, List.append_nil]
  | cons entry rest ih =>
    obtain ⟨name, cell⟩ := entry
    rw [List.forall_mem_cons] at accepted new
    rw [List.map_cons, List.nodup_cons] at distinct
    have absent : scope.declares name = false := by
      rw [← Bool.not_eq_true, declares_iff]
      exact new.1
    obtain ⟨after, declared, is⟩ : ∃ after, scope.declare name cell = .ok after ∧
        after = { scope with cells := scope.cells ++ [(name, cell)] } :=
      ⟨_, declare_eq_ok_iff.2 ⟨accepted.1, isOpen, absent, rfl⟩, rfl⟩
    rw [declareAll, declared]
    have others : after.declareAll rest = .ok { after with cells := after.cells ++ rest } := by
      refine ih (is ▸ accepted.2) (is ▸ isOpen) (fun entry place => ?_) distinct.2
      rw [symbols_of_declare declared, List.mem_append, List.mem_singleton]
      rintro (old | same)
      · exact new.2 entry place old
      · exact distinct.1 (List.mem_map.2 ⟨entry, place, same⟩)
    apply Eq.trans others
    rw [is]
    simp only [List.append_assoc, List.singleton_append]

namespace Callable

/-- The scope with the parameters of a callable as constants. -/
def parameters (callable : Callable) (args : List Value) : Scope :=
  { Scope.root .identifier with cells := callable.params.zip (args.map .constant) }

variable {callable : Callable} {args : List Value}

theorem symbols_parameters (enough : args.length = callable.arity) :
    (callable.parameters args).symbols = callable.params :=
  List.map_fst_zip (by rw [List.length_map, enough]; exact Nat.le_refl _)

theorem bindParameters_eq_ok (enough : args.length = callable.arity) :
    bindParameters callable args = .ok (callable.parameters args) := by
  have names := symbols_parameters enough
  refine Scope.declareAll_eq_ok (fun entry place => ?_) rfl (fun _ _ => List.not_mem_nil) ?_
  · refine callable.identifiers _ (names ▸ ?_)
    exact List.mem_map_of_mem place
  · have keys : (callable.params.zip (args.map Cell.constant)).map Prod.fst = callable.params :=
      names
    rw [keys]
    exact callable.distinct

theorem invoke_eq (run : Runner) (enough : args.length = callable.arity) :
    callable.invoke run args =
      (newScope (callable.parameters args) >>= fun s => withScope s (run callable.body)) := by
  simp only [invoke, if_neg (not_not_intro enough), bindParameters_eq_ok enough]

end Callable

end Delegation
