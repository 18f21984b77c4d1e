import Delegation.Action

/-!
# Outcomes of actions

An action ends in a result or stops, and leaves a session behind either way. `Leads` says both at
once: the session left behind stands in a relation to the one before, whatever way the action ends,
and a result meets a condition. The rules follow the way actions are put together; the relation has
to be transitive for two actions in a row, and to hold of a session and itself where nothing
happens.
-/

namespace Delegation

variable {α β : Type}

namespace Action

/-- The session that an action leaves behind, whatever way it ends. -/
def after (action : Action α) (session : Session) : Session :=
  match action session with
  | .ok _ after => after
  | .error _ after => after

/-- Whether the action gives a result. -/
def succeeds (action : Action α) (session : Session) : Bool :=
  match action session with
  | .ok _ _ => true
  | .error _ _ => false

theorem eq_ok_of_succeeds {action : Action Unit} {session : Session}
    (succeeds : action.succeeds session = true) :
    action session = .ok () (action.after session) := by
  unfold Action.succeeds at succeeds
  unfold Action.after
  cases ends : action session with
  | ok => rfl
  | error =>
    rw [ends] at succeeds
    cases succeeds

section After

variable {action : Action α} {next : α → Action β} {a : α} {stop : Stop} {s t : Session}

theorem after_of_ok (ends : action s = .ok a t) : action.after s = t := by
  simp only [after, ends]

theorem after_of_error (ends : action s = .error stop t) : action.after s = t := by
  simp only [after, ends]

theorem after_bind_of_ok (ends : action s = .ok a t) :
    (action >>= next).after s = (next a).after t := by
  simp only [after, bind, EStateM.bind, ends]

theorem after_bind_of_error (ends : action s = .error stop t) :
    (action >>= next).after s = t := by
  simp only [after, bind, EStateM.bind, ends]

/-- To catch a failure does not change what the action leaves behind. -/
theorem after_attempt (action : Action α) (s : Session) :
    (attempt action).after s = action.after s := by
  simp only [after, attempt]
  cases action s with
  | ok => rfl
  | error stop => cases stop <;> rfl

theorem after_mapFailure (f : Failure → Failure) (action : Action α) (s : Session) :
    (mapFailure f action).after s = action.after s := by
  simp only [after, mapFailure]
  cases action s with
  | ok => rfl
  | error stop => cases stop <;> rfl

end After

/-- The action leaves a session that is related to the one before, and its result, if it has one,
meets a condition. -/
def Leads (R : Session → Session → Prop) (s : Session) (action : Action α)
    (post : Session → α → Prop) : Prop :=
  match action s with
  | .ok a t => R s t ∧ post t a
  | .error _ t => R s t

variable {R : Session → Session → Prop} {s : Session} {post : Session → β → Prop}

theorem Leads.after {action : Action β} (leads : action.Leads R s post) : R s (action.after s) := by
  unfold Leads at leads
  unfold Action.after
  split at leads
  · exact leads.1
  · exact leads

/-- Another relation may take the place of the one by which a condition was shown. -/
theorem Leads.change {action : Action β} {R' : Session → Session → Prop}
    (leads : action.Leads R s post) (other : R' s (action.after s)) : action.Leads R' s post := by
  unfold Leads Action.after at *
  cases ends : action s with
  | ok b t =>
    rw [ends] at leads other
    exact ⟨other, leads.2⟩
  | error stop t =>
    rw [ends] at other
    exact other

theorem Leads.result {action : Action β} (leads : action.Leads R s post) {b : β} {t : Session}
    (ends : action s = .ok b t) : R s t ∧ post t b := by
  simpa only [Leads, ends] using leads

theorem Leads.weaken {action : Action β} {weaker : Session → β → Prop}
    (leads : action.Leads R s post) (weak : ∀ t b, R s t → post t b → weaker t b) :
    action.Leads R s weaker := by
  unfold Leads at *
  split at leads
  · exact ⟨leads.1, weak _ _ leads.1 leads.2⟩
  · exact leads

theorem leads_pure (here : R s s) {b : β} (holds : post s b) :
    (pure b : Action β).Leads R s post := ⟨here, holds⟩

theorem leads_throw (here : R s s) (stop : Stop) : (throw stop : Action β).Leads R s post := here

theorem leads_fail (here : R s s) (cause : Cause) : (fail cause : Action β).Leads R s post := here

theorem leads_malformed (here : R s s) (reason : String) :
    (malformed reason : Action β).Leads R s post := here

theorem Leads.bind {action : Action α} {next : α → Action β} {middle : Session → α → Prop}
    (trans : ∀ {t u}, R s t → R t u → R s u) (first : action.Leads R s middle)
    (second : ∀ t a, R s t → middle t a → (next a).Leads R t post) :
    (action >>= next).Leads R s post := by
  simp only [Leads, Bind.bind, EStateM.bind] at *
  split at first
  · next a t ends =>
    have rest := second t a first.1 first.2
    rw [ends]
    dsimp only
    split at rest
    · exact ⟨trans first.1 rest.1, rest.2⟩
    · exact trans first.1 rest
  · next ends =>
    rw [ends]
    exact first

theorem get_eq_ok (s : Session) : (get : Action Session) s = .ok s s := rfl

theorem getThe_eq_ok (s : Session) : (getThe Session : Action Session) s = .ok s s := rfl

/-- A result of two actions in a row comes from a result of each. -/
theorem bind_eq_ok {action : Action α} {next : α → Action β} {b : β} {u : Session}
    (ends : (action >>= next) s = .ok b u) :
    ∃ a t, action s = .ok a t ∧ next a t = .ok b u := by
  simp only [Bind.bind, EStateM.bind] at ends
  split at ends
  · next a t first => exact ⟨a, t, first, ends⟩
  · cases ends

theorem leads_get_bind {next : Session → Action β} (leads : (next s).Leads R s post) :
    (get >>= next).Leads R s post := leads

/-- What was found out without the session goes into what follows. -/
theorem leads_lift_bind {found : Except Stop α} {next : α → Action β} (here : R s s)
    (leads : ∀ a, found = .ok a → (next a).Leads R s post) :
    ((liftM found : Action α) >>= next).Leads R s post := by
  cases found with
  | error stop => exact here
  | ok a => exact leads a rfl

theorem leads_lift {found : Except Stop β} (here : R s s) (holds : ∀ b, found = .ok b → post s b) :
    (liftM found : Action β).Leads R s post := by
  cases found with
  | error stop => exact here
  | ok b => exact ⟨here, holds b rfl⟩

theorem Leads.attempt {action : Action β} (leads : action.Leads R s post) :
    (attempt action).Leads R s fun t result => ∀ b, result = .ok b → post t b := by
  unfold Leads at *
  simp only [Delegation.attempt]
  split at leads
  · next ends =>
    rw [ends]
    exact ⟨leads.1, fun b is => by cases is; exact leads.2⟩
  · next stop _ ends =>
    rw [ends]
    cases stop with
    | failure failure => exact ⟨leads, nofun⟩
    | malformed reason => exact leads
    | exhausted => exact leads

theorem Leads.mapFailure {action : Action β} (leads : action.Leads R s post)
    (f : Failure → Failure) : (mapFailure f action).Leads R s post := by
  unfold Leads at *
  simp only [Delegation.mapFailure]
  split at leads
  · next ends =>
    rw [ends]
    exact leads
  · next stop _ ends =>
    rw [ends]
    cases stop <;> exact leads

/-- Runs an action from one session and changes the session that it leaves behind. -/
def bracket (inside : Session) (leave : Session → Session) (action : Action β) :
    EStateM.Result Stop Session β :=
  match action inside with
  | .ok b t => .ok b (leave t)
  | .error stop t => .error stop (leave t)

theorem after_of_bracket {outer inner : Action β} {inside : Session} {leave : Session → Session}
    (is : outer s = bracket inside leave inner) : outer.after s = leave (inner.after inside) := by
  simp only [Action.after, is, bracket]
  cases inner inside <;> rfl

/-- An action that does something, runs another one, and undoes something. -/
theorem Leads.bracket {inner outer : Action β} {inside : Session} {leave : Session → Session}
    (leads : inner.Leads R inside post) (is : outer s = bracket inside leave inner)
    (ends : ∀ t, R inside t → R s (leave t)) (kept : ∀ t b, post t b → post (leave t) b) :
    outer.Leads R s post := by
  unfold Leads at leads ⊢
  rw [is]
  unfold Action.bracket
  split at leads
  · exact ⟨ends _ leads.1, kept _ _ leads.2⟩
  · exact ends _ leads

end Action

end Delegation
