import Delegation.Proofs.Course
import Delegation.Proofs.Secrecy.Hidden

/-!
# Actions that do not see a secret

An action does not see a secret if it does the same whichever of the two tables is in place, leaves
a session behind that hides the secret again, and gives nothing that leads to it. The rules follow
the way actions are put together; what happens meanwhile has to spare the table.
-/

namespace Delegation

variable {α β : Type} {secret : Secret} {s t : Session}

namespace Action

/-- The action ends in the same way under the veil and keeps the secret, and its result meets a
condition. -/
inductive Veiled (secret : Secret) (s : Session) (action : Action α) (post : α → Prop) : Prop
  | ok {a : α} {t : Session} (gives : action s = .ok a t)
      (veiled : action (s.veil secret) = .ok a (t.veil secret)) (hides : t.Hides secret)
      (holds : post a)
  | error {stop : Stop} {t : Session} (stops : action s = .error stop t)
      (veiled : action (s.veil secret) = .error stop (t.veil secret)) (hides : t.Hides secret)

/-- From a session that hides the secret the action does not see it, if what happens meanwhile
spares it. -/
def Blind (secret : Secret) (s : Session) (action : Action α) (post : α → Prop) (c : Chronicle) :
    Prop := s.Hides secret → c.Spares secret.owner → Veiled secret s action post

variable {action : Action α} {post : α → Prop} {post' : β → Prop} {c : Chronicle}
  {inner : Session → Chronicle}

/-! ## Sequences -/

theorem Veiled.andThen {next : α → Action β} (first : Veiled secret s action post)
    (second : ∀ a t, action s = .ok a t → t.Hides secret → post a →
      Veiled secret t (next a) post') : Veiled secret s (action >>= next) post' := by
  cases first with
  | ok gives veiled hides holds =>
    cases second _ _ gives hides holds with
    | @ok b u gives' veiled' hides' holds' =>
      have ends : (action >>= next) s = .ok b u := by
        simp only [Bind.bind, EStateM.bind, gives, gives']
      refine .ok ends ?_ hides' holds'
      simp only [Bind.bind, EStateM.bind, veiled, veiled']
    | @error stop u stops' veiled' hides' =>
      have ends : (action >>= next) s = .error stop u := by
        simp only [Bind.bind, EStateM.bind, gives, stops']
      refine .error ends ?_ hides'
      simp only [Bind.bind, EStateM.bind, veiled, veiled']
  | @error stop t stops veiled hides =>
    have ends : (action >>= next) s = .error stop t := by
      simp only [Bind.bind, EStateM.bind, stops]
    refine .error ends ?_ hides
    simp only [Bind.bind, EStateM.bind, veiled]

/-- That the session hides the secret may be used. -/
theorem blind_of_hides (blind : s.Hides secret → Blind secret s action post c) :
    Blind secret s action post c := fun hides spares => blind hides hides spares

theorem Blind.noted (blind : Blind secret s action post c) (moment : Moment) :
    Blind secret s action post (moment :: c) := fun hides spares =>
  blind hides (Chronicle.spares_cons.1 spares).2

theorem Blind.followed (blind : Blind secret s action post c) (d : Chronicle) :
    Blind secret s action post (c ++ d) := fun hides spares =>
  blind hides (Chronicle.spares_append.1 spares).1

/-- Where nothing happens, anything is spared. -/
theorem Blind.still (blind : Blind secret s action post []) : Blind secret s action post c :=
  fun hides _ => blind hides Chronicle.spares_nil

theorem blind_pure {a : α} (holds : post a) : Blind secret s (pure a) post c :=
  fun hides _ => .ok rfl rfl hides holds

theorem blind_throw (stop : Stop) : Blind secret s (throw stop) post c :=
  fun hides _ => .error rfl rfl hides

theorem blind_fail (cause : Cause) : Blind secret s (fail cause) post c := blind_throw _

theorem blind_malformed (reason : String) : Blind secret s (malformed reason) post c :=
  blind_throw _

theorem Blind.bind {next : α → Action β} {rest : α → Session → Chronicle}
    (first : Blind secret s action post c)
    (second : ∀ a t, action s = .ok a t → post a → Blind secret t (next a) post' (rest a t)) :
    Blind secret s (action >>= next) post' (c ++ Chronicle.next action rest s) := by
  intro hides spares
  obtain ⟨before, after⟩ := Chronicle.spares_append.1 spares
  exact (first hides before).andThen fun a t ends hides holds =>
    second a t ends holds hides (after.next ends)

theorem Blind.step {next : α → Action β} {rest : α → Session → Chronicle}
    (first : Blind secret s action post [])
    (second : ∀ a t, action s = .ok a t → post a → Blind secret t (next a) post' (rest a t)) :
    Blind secret s (action >>= next) post' (Chronicle.step action rest s) := fun hides spares =>
  (first hides Chronicle.spares_nil).andThen fun a t ends hides holds =>
    second a t ends holds hides (spares.step ends)

/-- What follows does nothing that is told. -/
theorem Blind.onwards {next : α → Action β} (first : Blind secret s action post c)
    (second : ∀ a t, t.Hides secret → post a → Blind secret t (next a) post' []) :
    Blind secret s (action >>= next) post' c := fun hides spares =>
  (first hides spares).andThen fun a t _ hides holds =>
    second a t hides holds hides Chronicle.spares_nil

theorem Blind.map {f : α → β} (first : Blind secret s action post c)
    (kept : ∀ a, post a → post' (f a)) :
    Blind secret s (action >>= fun a => pure (f a)) post' c :=
  first.onwards fun a _ _ holds => blind_pure (kept a holds)

/-- Of the session nothing may be used but what does not depend on the table. -/
theorem blind_get_bind {next : Session → Action α}
    (same : s.Hides secret → next (s.veil secret) = next s)
    (blind : Blind secret s (next s) post c) : Blind secret s (get >>= next) post c := by
  intro hides spares
  have veiled : (get >>= next) (s.veil secret) = next s (s.veil secret) :=
    congrFun (same hides) (s.veil secret)
  cases blind hides spares with
  | ok gives veiled' hides holds => exact .ok gives (veiled.trans veiled') hides holds
  | error stops veiled' hides => exact .error stops (veiled.trans veiled') hides

theorem blind_lift {found : Except Stop α} (holds : ∀ a, found = .ok a → post a) :
    Blind secret s (liftM found : Action α) post c := by
  cases found with
  | error stop => exact blind_throw stop
  | ok a => exact blind_pure (holds a rfl)

theorem blind_lift_bind {found : Except Stop α} {next : α → Action β}
    (second : ∀ a, found = .ok a → Blind secret s (next a) post' c) :
    Blind secret s ((liftM found : Action α) >>= next) post' c := by
  cases found with
  | error stop => exact blind_throw stop
  | ok a => exact second a rfl

theorem blind_given {found : Except Stop α} {next : α → Action β}
    {rest : α → Session → Chronicle}
    (second : ∀ a, found = .ok a → Blind secret s (next a) post' (rest a s)) :
    Blind secret s ((liftM found : Action α) >>= next) post' (Chronicle.given found rest s) := by
  cases found with
  | error stop => exact blind_throw stop
  | ok a => exact second a rfl

theorem blind_ite {p : Prop} [Decidable p] {yes no : Action α} {d : Chronicle}
    (blind : p → Blind secret s yes post c) (blind' : ¬p → Blind secret s no post d) :
    Blind secret s (if p then yes else no) post (if p then c else d) := by
  by_cases holds : p
  · rw [if_pos holds, if_pos holds]
    exact blind holds
  · rw [if_neg holds, if_neg holds]
    exact blind' holds

/-! ## Brackets -/

theorem Veiled.of_eq {outer : Action α} (veiled : Veiled secret s action post)
    (is : outer s = action s) (is' : outer (s.veil secret) = action (s.veil secret)) :
    Veiled secret s outer post := by
  cases veiled with
  | ok gives veiled hides holds => exact .ok (is.trans gives) (is'.trans veiled) hides holds
  | error stops veiled hides => exact .error (is.trans stops) (is'.trans veiled) hides

theorem Veiled.bracket {outer : Action α} {inside : Session} {leave : Session → Session}
    (veiled : Veiled secret inside action post) (is : outer s = bracket inside leave action)
    (is' : outer (s.veil secret) = bracket (inside.veil secret) leave action)
    (commutes : ∀ t, leave (t.veil secret) = (leave t).veil secret)
    (keeps : ∀ t, t.Hides secret → (leave t).Hides secret) : Veiled secret s outer post := by
  cases veiled with
  | @ok a t gives veiled hides holds =>
    have ends : outer s = .ok a (leave t) := by rw [is, Action.bracket, gives]
    refine .ok ends ?_ (keeps t hides) holds
    rw [is', Action.bracket, veiled, ← commutes]
  | @error stop t stops veiled hides =>
    have ends : outer s = .error stop (leave t) := by rw [is, Action.bracket, stops]
    refine .error ends ?_ (keeps t hides)
    rw [is', Action.bracket, veiled, ← commutes]

theorem blind_holding {x : Object} (bare : secret.Bare x)
    (blind : Blind secret { s with held := x :: s.held } action post
      (inner { s with held := x :: s.held })) :
    Blind secret s (holding x action) post (Chronicle.keeping x inner s) := by
  intro hides spares
  have leaves : holding x action s = bracket { s with held := x :: s.held }
      (fun t => { t with held := s.held }) action := rfl
  exact (blind (hides.hold bare) spares).bracket leaves rfl (fun _ => rfl) fun _ hides' =>
    hides'.withHeld hides.held

/-- A failure may be changed on its way out. -/
theorem Veiled.onFailure {outer : Action α} {f : Session → Failure → Failure}
    (veiled : Veiled secret s action post)
    (is : ∀ s, outer s = match action s with
      | .error (.failure failure) t => .error (.failure (f t failure)) t
      | result => result)
    (same : ∀ t failure, f (t.veil secret) failure = f t failure) :
    Veiled secret s outer post := by
  cases veiled with
  | ok gives veiled hides holds =>
    exact .ok (by rw [is, gives]) (by rw [is, veiled]) hides holds
  | @error stop t stops veiled hides =>
    cases stop with
    | failure failure =>
      exact .error (by rw [is, stops]) (by rw [is, veiled]; dsimp only; rw [same]) hides
    | malformed | exhausted => exact .error (by rw [is, stops]) (by rw [is, veiled]) hides

theorem Blind.tracing (blind : Blind secret s action post c) :
    Blind secret s (tracing action) post c := fun hides spares =>
  (blind hides spares).onFailure (f := fun t failure =>
    t.heap.attachTrace t.machine.stack failure) (fun _ => rfl) fun _ _ => rfl

theorem Blind.mapFailure (blind : Blind secret s action post c) (f : Failure → Failure) :
    Blind secret s (mapFailure f action) post c := fun hides spares =>
  (blind hides spares).onFailure (f := fun _ => f) (fun _ => rfl) fun _ _ => rfl

section Frames

variable {traced : Bool} {frame : Frame} (clear : secret.Clear frame.owned)
  (blind : ∀ t, Blind secret t action post (inner t))

section

include clear blind

theorem blind_enterFrame {told : Action α} :
    Blind secret s (enterFrame frame action) post
      (Chronicle.inFrame traced frame told inner s) := by
  intro hides spares
  cases pushed : s.machine.stack.push frame with
  | error cause =>
    exact .error (enterFrame_of_full pushed action)
      (enterFrame_of_full (s := s.veil secret) pushed action) hides
  | ok stack =>
    have entered : pushFrame frame s = .ok () (s.withStack stack) := by
      simp only [pushFrame, pushed]
      rfl
    have inside := Chronicle.spares_cons.1 (Chronicle.spares_append.1 (spares.step entered)).1
    exact (blind _ (hides.pushFrame clear entered) inside.2).bracket
      (enterFrame_of_push pushed action) (enterFrame_of_push (s := s.veil secret) pushed action)
      (fun _ => rfl) fun _ hides => hides.popFrame

theorem blind_withFrame :
    Blind secret s (withFrame frame action) post (Chronicle.inFrame true frame action inner s) :=
  blind_enterFrame clear fun t => (blind t).tracing

end

include blind

theorem blind_shadowing {x : ScopeId} (found : ¬secret.lost (.node (.scope x))) :
    Blind secret s (shadowing x action) post (Chronicle.shadowed x inner s) := by
  intro hides spares
  have leaves : shadowing x action s =
      bracket (s.mapFrame (·.pushInner x)) (·.mapFrame Frame.popInner) action := rfl
  exact (blind _ (hides.pushInner found) spares).bracket leaves rfl (fun _ => rfl) fun _ hides =>
    hides.popInner

theorem blind_withScope {x : ScopeId} (found : ¬secret.lost (.node (.scope x))) :
    Blind secret s (withScope x action) post (Chronicle.inScope x action inner s) := by
  apply blind_of_hides
  intro hides
  have toplevel : secret.Clear s.machine.toplevelFrame.owned :=
    Secret.clear_cons.2 ⟨hides.globals, Secret.clear_nil⟩
  unfold Chronicle.inScope
  split
  · next outside =>
    have entered : Blind secret s (withFrame s.machine.toplevelFrame (shadowing x action)) post _ :=
      blind_withFrame toplevel fun t => blind_shadowing blind found
    exact fun hides spares => (entered hides spares).of_eq (if_pos outside) (if_pos outside)
  · next framed =>
    have shadowed : Blind secret s (shadowing x action) post _ := blind_shadowing blind found
    exact fun hides spares => (shadowed hides spares).of_eq (if_neg framed) (if_neg framed)

theorem blind_onMachine {m : MachineId} (found : ¬secret.lost (.machine m)) :
    Blind secret s (onMachine m action) post (Chronicle.onMachine m inner s) := by
  intro hides spares
  have bare : secret.Bare (.machine s.running) := List.forall_mem_singleton.2 hides.running
  have held : Blind secret (s.switch m) (holding (.machine s.running) action) post _ :=
    blind_holding bare (blind _)
  have leaves : onMachine m action s =
      bracket (s.switch m) (·.switch s.running) (holding (.machine s.running) action) := rfl
  have leaves' : onMachine m action (s.veil secret) =
      bracket ((s.switch m).veil secret) (·.switch s.running)
        (holding (.machine s.running) action) := by
    rw [← s.switch_veil]
    rfl
  exact (held (hides.switch found) (Chronicle.spares_cons.1 spares).2).bracket leaves leaves'
    (fun t => t.switch_veil secret s.running) fun _ hides' => hides'.switch hides.running

end Frames

/-! ## Failures that are caught -/

theorem Blind.attempt {d : Chronicle} (blind : Blind secret s action post c) :
    Blind secret s (attempt action) (fun result => ∀ a, result = .ok a → post a) (c ++ d) := by
  intro hides spares
  cases blind hides (Chronicle.spares_append.1 spares).1 with
  | @ok a t gives veiled hides holds =>
    have ends : Delegation.attempt action s = .ok (.ok a) t := by
      simp only [Delegation.attempt, gives]
    refine .ok ends ?_ hides fun b is => ?_
    · simp only [Delegation.attempt, veiled]
    · cases is
      exact holds
  | @error stop t stops veiled hides =>
    cases stop with
    | failure failure =>
      have ends : Delegation.attempt action s = .ok (.error failure) t := by
        simp only [Delegation.attempt, stops]
      exact .ok ends (by simp only [Delegation.attempt, veiled]) hides fun _ is => by cases is
    | malformed reason =>
      have ends : Delegation.attempt action s = .error (.malformed reason) t := by
        simp only [Delegation.attempt, stops]
      exact .error ends (by simp only [Delegation.attempt, veiled]) hides
    | exhausted =>
      have ends : Delegation.attempt action s = .error .exhausted t := by
        simp only [Delegation.attempt, stops]
      exact .error ends (by simp only [Delegation.attempt, veiled]) hides

theorem Blind.rescue {action : Action Object} {d : Chronicle}
    (blind : Blind secret s action secret.Bare c) :
    Blind secret s (rescue action) secret.Bare (c ++ d) :=
  blind.attempt.onwards fun result _ _ holds => by
    cases result with
    | ok x => exact blind_pure (holds x rfl)
    | error failure => exact blind_pure (Secret.bare_of_nil rfl)

/-! ## Changes of the heap -/

/-- A change of the heap that does not depend on the table and keeps the secret. -/
theorem blind_onHeap {f : Heap → α × Heap}
    (veiled : s.heap.Hides secret →
      f (s.heap.veil secret) = ((f s.heap).1, (f s.heap).2.veil secret))
    (keeps : s.heap.Hides secret → (f s.heap).2.Hides secret)
    (holds : s.heap.Hides secret → post (f s.heap).1) : Blind secret s (onHeap f) post c := by
  intro hides _
  have leaves : onHeap f s = .ok (f s.heap).1 { s with heap := (f s.heap).2 } := rfl
  refine .ok leaves ?_ (hides.withHeap (keeps hides.heap)) (holds hides.heap)
  have is : onHeap f (s.veil secret) =
      .ok (f (s.heap.veil secret)).1 { s with heap := (f (s.heap.veil secret)).2 } := rfl
  rw [is, veiled hides.heap]
  rfl

theorem blind_newScope {scope : Scope} (clear : secret.Clear scope.refs) :
    Blind secret s (newScope scope) (fun x => ¬secret.lost (.node (.scope x))) c :=
  blind_onHeap (fun hides => hides.addScope_veil scope) (fun hides => hides.addScope clear)
    fun hides => hides.fresh_scope

theorem blind_newBinding {binding : Binding} (clear : secret.Clear binding.strategy.refs) :
    Blind secret s (newBinding binding) (fun b => ¬secret.lost (.node (.binding b))) c :=
  blind_onHeap (fun _ => rfl) (fun hides => hides.addBinding clear) fun hides => hides.fresh_binding

end Action

end Delegation
