import Delegation.Proofs.Heeding
import Delegation.Proofs.Twins.Relation

/-!
# Agreement

Two actions agree from twins if they end in the same way, up to traces, and leave twins behind with
as much on both stacks. The rules follow the way actions are put together. Where one action follows
another, the second one begins in a fit session, and what the first one gives is in its heap.
-/

namespace Delegation

open Object (untracedAll refsAll)

open Delegation.Action

variable {α β : Type} {callers : Callers} {upper : List Frame} {s t u v : Session}

/-! ## What twins refer to -/

namespace Object

mutual

theorem refs_untraced : ∀ x : Object, x.untraced.refs = x.refs
  | .list items => refsAll_untracedAll items
  | .value _ | .scope _ | .cell _ | .chain _ | .callable _ | .frame _ | .stack _ | .weak _
  | .failure _ | .builder _ | .registry _ | .machine _ => rfl

theorem refsAll_untracedAll : ∀ xs : List Object, refsAll (untracedAll xs) = refsAll xs
  | [] => rfl
  | x :: xs => by
    simp only [untracedAll, refsAll, refs_untraced x, refsAll_untracedAll xs]

end

theorem Alike.refs {x y : Object} (alike : x.Alike y) : y.refs = x.refs := by
  rw [← y.refs_untraced, ← alike, x.refs_untraced]

end Object

/-- Twins of which the first one is fit. -/
structure FitTwins (callers : Callers) (upper : List Frame) (s t : Session) : Prop
    extends Twin callers upper s t where
  fit : s.Fit true
  known : s.heap.HasAll (callers.lower'.flatMap Frame.owned)

namespace FitTwins

theorem knownOwned (twins : FitTwins callers upper s t) {xs ys : List Node}
    (known : s.heap.HasAll xs) (within : ys ⊆ xs ++ callers.lower'.flatMap Frame.owned) :
    s.heap.HasAll ys :=
  fun y place => Heap.hasAll_append.2 ⟨known, twins.known⟩ y (within place)

theorem sound' (twins : FitTwins callers upper s t) : t.Sound := by
  obtain ⟨around, is⟩ : ∃ around, t = s.amid around := ⟨_, twins.around⟩
  have heap := twins.heap
  have sound := twins.fit.toSound
  have vars : ∀ entry ∈ t.vars, s.heap.HasAll entry.2.refs := by
    intro entry place
    have listed : (entry.1, entry.2.untraced) ∈ s.untracedVars := by
      rw [twins.vars]
      exact List.mem_map_of_mem place
    obtain ⟨other, there, same⟩ := List.mem_map.1 listed
    injection same with _ alike
    rw [Object.Alike.refs alike]
    exact sound.vars other there
  have held : ∀ x ∈ t.held, s.heap.HasAll x.refs := by
    intro x place
    have listed : x.untraced ∈ untracedAll s.held := by
      rw [twins.held, Object.untracedAll_eq_map]
      exact List.mem_map_of_mem place
    rw [Object.untracedAll_eq_map] at listed
    obtain ⟨other, there, alike⟩ := List.mem_map.1 listed
    rw [Object.Alike.refs alike]
    exact sound.held other there
  have machines : ∀ machine ∈ t.machines, s.heap.HasAll machine.owned := by
    intro machine place
    obtain ⟨i, below, at_i⟩ := Array.mem_iff_getElem.1 place
    have below' : i < s.machines.size := twins.size ▸ below
    have owned := twins.owned i
    rw [Array.getD_eq_getD_getElem?, Array.getD_eq_getD_getElem?, Array.getElem?_eq_getElem below,
      Array.getElem?_eq_getElem below', at_i] at owned
    exact twins.knownOwned (sound.machines _ (Array.getElem_mem below')) owned
  have machine := twins.knownOwned sound.machine twins.machine.owned
  subst is
  exact { sound with vars, held, machines, machine }

end FitTwins

/-! ## Agreement -/

/-- Twins that two actions leave behind, on the machine that they began on. -/
structure Ends (callers : Callers) (upper : List Frame) (s u v : Session) : Prop
    extends Twin callers upper u v where
  back : u.running = s.running

/-- Two actions end in the same way, up to traces. -/
inductive Agrees (callers : Callers) (upper : List Frame) (R : α → α → Prop) (s t : Session)
    (action action' : Action α) : Prop
  | ok {a a' : α} {u v : Session} (gives : action s = .ok a u) (gives' : action' t = .ok a' v)
      (same : R a a') (ends : Ends callers upper s u v)
  | error {stop stop' : Stop} {u v : Session} (stops : action s = .error stop u)
      (stops' : action' t = .error stop' v) (same : stop.untraced = stop'.untraced)
      (ends : Ends callers upper s u v)

section Rules

variable {R : α → α → Prop} {S : β → β → Prop} {action action' : Action α}

theorem Twin.ends (twin : Twin callers upper s t) : Ends callers upper s s t :=
  { twin with back := rfl }

theorem agrees_pure (twin : Twin callers upper s t) {a a' : α} (same : R a a') :
    Agrees callers upper R s t (pure a) (pure a') := .ok rfl rfl same twin.ends

theorem agrees_throw (twin : Twin callers upper s t) {stop stop' : Stop}
    (same : stop.untraced = stop'.untraced) :
    Agrees callers upper R s t (throw stop) (throw stop') := .error rfl rfl same twin.ends

theorem agrees_fail (twin : Twin callers upper s t) (cause : Cause) :
    Agrees callers upper R s t (fail cause) (fail cause) := agrees_throw twin rfl

theorem agrees_malformed (twin : Twin callers upper s t) (reason : String) :
    Agrees callers upper R s t (malformed reason) (malformed reason) := agrees_throw twin rfl

theorem Agrees.weaken {weaker : α → α → Prop} (agrees : Agrees callers upper R s t action action')
    (weak : ∀ a a', R a a' → weaker a a') : Agrees callers upper weaker s t action action' := by
  cases agrees with
  | ok gives gives' same ends => exact .ok gives gives' (weak _ _ same) ends
  | error stops stops' same ends => exact .error stops stops' same ends

theorem Agrees.of_eq {outer outer' : Action α} (agrees : Agrees callers upper R s t action action')
    (is : outer s = action s) (is' : outer' t = action' t) :
    Agrees callers upper R s t outer outer' := by
  cases agrees with
  | ok gives gives' same ends => exact .ok (is.trans gives) (is'.trans gives') same ends
  | error stops stops' same ends => exact .error (is.trans stops) (is'.trans stops') same ends

/-- One action after another: the second ones begin in what the first ones leave. -/
theorem Agrees.andThen {next next' : α → Action β}
    (first : Agrees callers upper R s t action action')
    (second : ∀ a a' u v, action s = .ok a u → action' t = .ok a' v → R a a' →
      Ends callers upper s u v → Agrees callers upper S u v (next a) (next' a')) :
    Agrees callers upper S s t (action >>= next) (action' >>= next') := by
  cases first with
  | ok gives gives' same ends =>
    have rest := second _ _ _ _ gives gives' same ends
    cases rest with
    | ok gives₂ gives₂' same₂ ends₂ =>
      refine .ok ?_ ?_ same₂ { ends₂ with back := ends₂.back.trans ends.back }
      · simp only [Bind.bind, EStateM.bind, gives, gives₂]
      · simp only [Bind.bind, EStateM.bind, gives', gives₂']
    | error stops stops' same₂ ends₂ =>
      refine .error ?_ ?_ same₂ { ends₂ with back := ends₂.back.trans ends.back }
      · simp only [Bind.bind, EStateM.bind, gives, stops]
      · simp only [Bind.bind, EStateM.bind, gives', stops']
  | error stops stops' same ends =>
    refine .error ?_ ?_ same ends
    · simp only [Bind.bind, EStateM.bind, stops]
    · simp only [Bind.bind, EStateM.bind, stops']

/-- What holds of every session that an action leads to. -/
structure Onward (s u : Session) : Prop where
  running : u.running = s.running
  grows : s.heap.Grows u.heap

theorem Agrees.bind {next next' : α → Action β} {refs : α → List Node}
    (first : Agrees callers upper R s t action action') (twins : FitTwins callers upper s t)
    (runs : Runs true s action refs)
    (second : ∀ a a' u v, action s = .ok a u → action' t = .ok a' v → R a a' → Onward s u →
      FitTwins callers upper u v → u.heap.HasAll (refs a) →
      Agrees callers upper S u v (next a) (next' a')) :
    Agrees callers upper S s t (action >>= next) (action' >>= next') := by
  refine first.andThen fun a a' u v gives gives' same ends => ?_
  obtain ⟨run, known⟩ := Leads.result runs gives
  have later := run.later twins.fit
  exact second a a' u v gives gives' same ⟨ends.back, later.grows⟩
    { ends.toTwin with
      fit := run.fit twins.fit
      known := later.grows.hasAll twins.known } known

theorem Agrees.map (agrees : Agrees callers upper R s t action action') {f f' : α → β}
    (same : ∀ a a', R a a' → S (f a) (f' a')) :
    Agrees callers upper S s t (action >>= fun a => pure (f a))
      (action' >>= fun a => pure (f' a)) :=
  agrees.andThen fun _ _ _ _ _ _ related ends => agrees_pure ends.toTwin (same _ _ related)

theorem agrees_get_bind {next next' : Session → Action α}
    (agrees : Agrees callers upper R s t (next s) (next' t)) :
    Agrees callers upper R s t (get >>= next) (get >>= next') := agrees.of_eq rfl rfl

theorem agrees_lift_bind (twin : Twin callers upper s t) {found : Except Stop α}
    {next next' : α → Action β}
    (agrees : ∀ a, found = .ok a → Agrees callers upper S s t (next a) (next' a)) :
    Agrees callers upper S s t ((liftM found : Action α) >>= next)
      ((liftM found : Action α) >>= next') := by
  cases found with
  | error stop => exact .error rfl rfl rfl twin.ends
  | ok a => exact (agrees a rfl).of_eq rfl rfl

/-- Actions that do not look around agree. -/
theorem Oblivious.agrees (oblivious : Oblivious action) (twin : Twin callers upper s t) :
    Agrees callers upper Eq s t action action := by
  have here := oblivious s s.surroundings
  have there := oblivious s t.surroundings
  rw [← twin.around] at there
  rw [Session.amid_surroundings] at here
  unfold Action.bracket at here there
  cases ends : action s with
  | ok a u =>
    rw [ends] at here there
    injection here with _ kept
    have running : u.running = s.running := by rw [kept]; rfl
    exact .ok ends there rfl { twin.amid kept with back := running }
  | error stop u =>
    rw [ends] at here there
    injection here with _ kept
    have running : u.running = s.running := by rw [kept]; rfl
    exact .error ends there rfl { twin.amid kept with back := running }

/-! ## Brackets -/

/-- Two actions agree if they do something, run actions that agree, and undo something. -/
theorem Agrees.bracket {outer outer' : Action α} {upper' : List Frame} {inside inside' : Session}
    {leave leave' : Session → Session}
    (agrees : Agrees callers upper' R inside inside' action action')
    (is : outer s = bracket inside leave action) (is' : outer' t = bracket inside' leave' action')
    (ends : ∀ u v, Ends callers upper' inside u v → Ends callers upper s (leave u) (leave' v)) :
    Agrees callers upper R s t outer outer' := by
  cases agrees with
  | ok gives gives' same left =>
    exact .ok (by rw [is, Action.bracket, gives]) (by rw [is', Action.bracket, gives']) same
      (ends _ _ left)
  | error stops stops' same left =>
    exact .error (by rw [is, Action.bracket, stops]) (by rw [is', Action.bracket, stops']) same
      (ends _ _ left)

theorem agrees_holding (twins : FitTwins callers upper s t) {x x' : Object} (alike : x.Alike x')
    (known : s.heap.HasAll x.refs)
    (inner : FitTwins callers upper { s with held := x :: s.held }
        { t with held := x' :: t.held } →
      Agrees callers upper R { s with held := x :: s.held } { t with held := x' :: t.held }
        action action') :
    Agrees callers upper R s t (holding x action) (holding x' action') := by
  have held : FitTwins callers upper { s with held := x :: s.held }
      { t with held := x' :: t.held } :=
    { twins.toTwin.hold alike with fit := twins.fit.hold known, known := twins.known }
  exact (inner held).bracket rfl rfl fun u v ends =>
    { twins.toTwin.release ends.toTwin with back := ends.back }

/-- A failure may be changed on its way out, if what becomes of it does not depend on traces. -/
theorem Agrees.onFailure {outer outer' : Action α} {f f' : Session → Failure → Failure}
    (agrees : Agrees callers upper R s t action action')
    (is : outer s = match action s with
      | .error (.failure failure) u => .error (.failure (f u failure)) u
      | result => result)
    (is' : outer' t = match action' t with
      | .error (.failure failure) v => .error (.failure (f' v failure)) v
      | result => result)
    (same : ∀ u v failure failure', failure.untraced = failure'.untraced →
      (f u failure).untraced = (f' v failure').untraced) :
    Agrees callers upper R s t outer outer' := by
  cases agrees with
  | ok gives gives' related ends =>
    exact .ok (by rw [is, gives]) (by rw [is', gives']) related ends
  | @error stop stop' u v stops stops' alike ends =>
    rw [stops] at is
    rw [stops'] at is'
    rcases Stop.eq_or_failures alike with ⟨_, _, rfl, rfl, failures⟩ | ⟨rfl, other⟩
    · exact .error is is' (congrArg Stop.failure (same _ _ _ _ failures)) ends
    · cases stop' with
      | failure failure => exact absurd rfl (other failure)
      | malformed reason => exact .error is is' rfl ends
      | exhausted => exact .error is is' rfl ends

/-- What is held on both sides is in place for the actions inside. -/
theorem agrees_keeping (twins : FitTwins callers upper s t) {x x' : Object} (alike : x.Alike x')
    (known : s.heap.HasAll x.refs) {inner inner' : Session → Prop}
    (calm : Heeding.keeping x inner s) (calm' : Heeding.keeping x' inner' t)
    (agrees : ∀ u v, FitTwins callers upper u v → u.running = s.running → u.heap = s.heap →
      inner u → inner' v → Agrees callers upper R u v action action') :
    Agrees callers upper R s t (holding x action) (holding x' action') :=
  agrees_holding twins alike known fun held => agrees _ _ held rfl rfl calm calm'

theorem Agrees.tracing (agrees : Agrees callers upper R s t action action') :
    Agrees callers upper R s t (tracing action) (tracing action') :=
  agrees.onFailure rfl rfl fun u v failure failure' same => by
    simpa using same

theorem Agrees.mapFailure (agrees : Agrees callers upper R s t action action')
    {f : Failure → Failure}
    (same : ∀ failure failure', failure.untraced = failure'.untraced →
      (f failure).untraced = (f failure').untraced) :
    Agrees callers upper R s t (mapFailure f action) (mapFailure f action') :=
  agrees.onFailure rfl rfl fun _ _ => same

end Rules

end Delegation
