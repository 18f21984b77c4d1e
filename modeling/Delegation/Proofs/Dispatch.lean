import Mathlib.Data.List.Chain
import Delegation.Proofs.Answering

/-!
# Dispatch through delegation

A chain of layers is asked at any of them. The nearest layer at or below the one asked that declares
a method answers, with the method declared there; without one the request is refused. The body runs
on behalf of the last layer, whichever was asked, and finds as `super` the layer below the one that
declares it. So what it asks `self` for goes to the highest declaration of the whole chain, and what
it asks `super` for to the highest one below its own.

The proof follows the chain down from the layer asked: a layer that declares nothing hands the name
on to the layer below, whose table its own stands on.
-/

namespace Delegation

namespace Session

/-- A chain of layers from its root up, each built on the one before. The last one is alive. -/
structure Tiers (s : Session) (layers : List EntityId) (top : EntityId) : Prop where
  bottom : ∀ root ∈ layers.head?, (s.heap.entity root).super = none
  unbroken : layers.IsChain fun base d => (s.heap.entity d).super = some base
  last : layers.getLast? = some top
  live : s.isLive top = true

/-- A chain of layers of which the last one carries no other. -/
structure Layered (s : Session) (layers : List EntityId) (top : EntityId) : Prop
    extends s.Tiers layers top where
  underived : (s.heap.entity top).derived = none

/-- What the layers of a chain declare in answer to a request. Each declares a method, at some time
before, or nothing. -/
structure Declares (s : Session) (request : Request) (layers : List EntityId)
    (declared : EntityId → Option Callable) : Prop where
  method : ∀ d ∈ layers, ∀ callable, declared d = some callable → s.Declared request d callable
  silent : ∀ d ∈ layers, declared d = none → request.own s.heap d = none

end Session

/-- The layer below the one at a place, if there is one. -/
def layerBelow (layers : List EntityId) : Nat → Option EntityId
  | 0 => none
  | j + 1 => layers[j]?

/-- Of the layers up to the one at `i`, the one at `j` is the last that declares a method. -/
structure Nearest (layers : List EntityId) (declared : EntityId → Option Callable) (i j : Nat)
    (owner : EntityId) (callable : Callable) : Prop where
  below : j ≤ i
  layer : layers[j]? = some owner
  declares : declared owner = some callable
  between : ∀ k d, j < k → k ≤ i → layers[k]? = some d → declared d = none

/-- No layer up to the one at `i` declares a method. -/
def Silent (layers : List EntityId) (declared : EntityId → Option Callable) (i : Nat) : Prop :=
  ∀ k d, k ≤ i → layers[k]? = some d → declared d = none

namespace Session

/-- A later session in which everyone alive still is, with entities and scopes as they were. -/
structure Sustains (s u : Session) : Prop where
  later : s.Later u
  lives : ∀ e, s.isLive e = true → u.isLive e = true
  entity : ∀ d, u.heap.entity d = s.heap.entity d
  scope : ∀ x, s.heap.Has (.scope x) → u.heap.scope x = s.heap.scope x

/-- In another session the chain is still as it was, with the same declarations. -/
structure Carries (s u : Session) (layers : List EntityId) (top : EntityId) : Prop where
  reachable : u.Reachable
  layered : u.Layered layers top
  declares : ∀ request declared, s.Declares request layers declared →
    u.Declares request layers declared

/-- The layer at `i` answers a request the way delegation has it: as the nearest declaration says,
on behalf of the last layer. -/
structure Dispatches (s : Session) (layers : List EntityId) (top : EntityId) (request : Request)
    (declared : EntityId → Option Callable) (i : Nat) (e : EntityId) : Prop where
  refuses : Silent layers declared i → ∀ run args,
    request.ask run e args s = .error (.failure (.ofCause (request.refusal s.heap e))) s
  answers : ∀ j owner callable args, Nearest layers declared i j owner callable → s.Affords →
    args.length = callable.arity → (∀ v ∈ args, s.heap.HasAll v.owned) →
    "self" ∉ callable.params → "super" ∉ callable.params →
    ∃ u, Enters (fun run => request.ask run e args) s callable.body u ∧ u.Serves top ∧
      (∀ run, lookup run "super" u = .ok (.ofEntity? (layerBelow layers j)) u) ∧
      s.Carries u layers top

variable {s : Session} {layers : List EntityId} {top e owner base : EntityId} {i j : Nat}
  {request : Request} {declared : EntityId → Option Callable} {callable : Callable}

/-! ## Chains -/

namespace Tiers

variable (tiers : s.Tiers layers top)

include tiers

theorem super_succ (here : layers[i + 1]? = some e) :
    ∃ base, layers[i]? = some base ∧ (s.heap.entity e).super = some base := by
  obtain ⟨inside, is⟩ := List.getElem?_eq_some_iff.1 here
  refine ⟨layers[i], List.getElem?_eq_getElem _, ?_⟩
  rw [← is]
  exact List.isChain_iff_getElem.1 tiers.unbroken i inside

theorem super_zero (here : layers[0]? = some e) : (s.heap.entity e).super = none :=
  tiers.bottom e (List.head?_eq_getElem? ▸ here)

theorem super_eq (here : layers[j]? = some owner) :
    (s.heap.entity owner).super = layerBelow layers j := by
  cases j with
  | zero => exact tiers.super_zero here
  | succ j =>
    obtain ⟨base, below, is⟩ := tiers.super_succ here
    exact is.trans below.symm

theorem builtOn (place : e ∈ layers) : s.heap.BuiltOn top e := by
  obtain ⟨-, chain, last, -⟩ := tiers
  induction layers generalizing e with
  | nil => cases place
  | cons first rest ih =>
    cases rest with
    | nil =>
      cases last
      rw [List.mem_singleton.1 place]
      exact .refl
    | cons second rest =>
      rw [List.isChain_cons_cons] at chain
      rcases List.mem_cons.1 place with rfl | place
      · have above : s.heap.BuiltOn top second := ih List.mem_cons_self chain.2 last
        exact above.tail chain.1
      · exact ih place chain.2 last

theorem isLive (sound : s.Sound) (place : e ∈ layers) : s.isLive e = true :=
  sound.isLive_of_builtOn (tiers.builtOn place) tiers.live

/-- The last layer receives for all of them, unless there is one alive on top of it. -/
theorem receiver (sound : s.Sound) (mostDerived : s.upgrade? top = none) (place : e ∈ layers) :
    s.receiver e = top := by
  rw [sound.receiver_of_builtOn (tiers.builtOn place) tiers.live]
  exact sound.receiver_of_none (sound.has_of_isLive tiers.live) mostDerived

/-- A layer is older than those that are built on it, so the layers of a chain are different. -/
theorem nodup (sound : s.Sound) : layers.Nodup := by
  have rising : (layers.map EntityId.index).IsChain (· < ·) := by
    rw [List.isChain_map, List.isChain_iff_getElem]
    intro i inside
    have has := sound.has_of_isLive (tiers.isLive sound (List.getElem_mem inside))
    exact sound.heap.older_super has (List.isChain_iff_getElem.1 tiers.unbroken i inside)
  have sorted := List.isChain_iff_pairwise.1 rising
  exact List.Nodup.of_map _ (sorted.imp Nat.ne_of_lt)

theorem sustained {u : Session} (sustains : s.Sustains u) : u.Tiers layers top where
  bottom root is := by
    rw [sustains.entity]
    exact tiers.bottom root is
  unbroken := by
    simp only [sustains.entity]
    exact tiers.unbroken
  last := tiers.last
  live := sustains.lives top tiers.live

end Tiers

theorem Layered.mostDerived (layered : s.Layered layers top) : s.upgrade? top = none := by
  rw [upgrade?, layered.underived]
  rfl

/-! ## Declarations -/

theorem resolve_below (sound : s.Sound) (tiers : s.Tiers layers top)
    (declares : s.Declares request layers declared) (here : layers[i + 1]? = some e)
    (silent : declared e = none) :
    ∃ base, layers[i]? = some base ∧ (s.heap.entity e).super = some base ∧
      request.resolve s.heap e = request.resolve s.heap base := by
  obtain ⟨base, below, is⟩ := tiers.super_succ here
  have place := List.mem_of_getElem? here
  have has := sound.has_of_isLive (tiers.isLive sound place)
  exact ⟨base, below, is,
    Request.resolve_of_super sound.heap has (declares.silent e place silent) is⟩

theorem finds_of_nearest (sound : s.Sound) (tiers : s.Tiers layers top)
    (declares : s.Declares request layers declared) (here : layers[i]? = some e)
    (nearest : Nearest layers declared i j owner callable) :
    s.heap.Finds request e owner callable := by
  obtain ⟨below, layer, is, between⟩ := nearest
  induction below generalizing e with
  | refl =>
    rw [here, Option.some.injEq] at layer
    subst layer
    obtain ⟨b, own, binding⟩ := (declares.method e (List.mem_of_getElem? here) _ is).own
    exact ⟨.refl, b, Request.resolve_of_own own, binding⟩
  | @step i below ih =>
    have silent := between (i + 1) e (Nat.lt_succ_of_le below) (Nat.le_refl _) here
    obtain ⟨base, there, super, same⟩ := resolve_below sound tiers declares here silent
    have found := ih there fun k d above within => between k d above (Nat.le_succ_of_le within)
    exact ⟨.head super found.on, same ▸ found.resolved⟩

theorem resolve_of_silent (sound : s.Sound) (tiers : s.Tiers layers top)
    (declares : s.Declares request layers declared) (here : layers[i]? = some e)
    (silent : Silent layers declared i) : request.resolve s.heap e = none := by
  have place := List.mem_of_getElem? here
  induction i generalizing e with
  | zero =>
    have has := sound.has_of_isLive (tiers.isLive sound place)
    exact Request.resolve_of_root sound.heap has
      (declares.silent e place (silent 0 e (Nat.le_refl _) here)) (tiers.super_zero here)
  | succ i ih =>
    obtain ⟨base, there, _, same⟩ :=
      resolve_below sound tiers declares here (silent _ e (Nat.le_refl _) here)
    rw [same]
    exact ih there (fun k d within => silent k d (Nat.le_succ_of_le within))
      (List.mem_of_getElem? there)

theorem Declares.sustained {u : Session} (declares : s.Declares request layers declared)
    (sound : s.Sound) (tiers : s.Tiers layers top) (sustains : s.Sustains u) :
    u.Declares request layers declared where
  method d is callable declared := (declares.method d is callable declared).later sustains.later
  silent d is silent := by
    have tableHas := request.has_table sound.heap (sound.has_of_isLive (tiers.isLive sound is))
    rw [Request.own, sustains.entity, sustains.scope _ tableHas]
    exact declares.silent d is silent

/-! ## Sessions that sustain a chain -/

theorem Sustains.trans {t u : Session} (first : s.Sustains t) (second : t.Sustains u) :
    s.Sustains u where
  later := first.later.trans second.later
  lives e live := second.lives e (first.lives e live)
  entity d := (second.entity d).trans (first.entity d)
  scope x has := (second.scope x (first.later.heap.grows.has _ has)).trans (first.scope x has)

theorem Steady.sustains {t : Session} (steady : s.Steady t) (sound : s.Sound) (later : s.Later t) :
    s.Sustains t where
  later := later
  lives _ live := (steady.isLive_eq sound (sound.has_of_isLive live)).trans live
  entity d := by simp only [Heap.entity, steady.entities]
  scope x _ := by simp only [Heap.scope, steady.scopes]

theorem Sound.sustains_serving {args : List Value} (sound : s.Sound)
    (ownerHas : s.heap.Has (.entity owner)) (has : s.heap.Has (.entity e))
    (known : ∀ v ∈ args, s.heap.HasAll v.owned) (enough : args.length = callable.arity) :
    s.Sustains (s.serving callable owner e args) where
  later := sound.later_serving ownerHas has known enough
  lives _ := (s.retains_serving callable owner e args).isLive sound
    ((sound.later_serving ownerHas has known enough).sound sound)
  entity _ := rfl
  scope _ := scope_serving

/-! ## Dispatch -/

/-- A chain is carried along by whatever sustains it. -/
theorem Layered.carries {u : Session} (layered : s.Layered layers top) (reachable : s.Reachable)
    (sustains : s.Sustains u) : s.Carries u layers top where
  reachable := reachable.later sustains.later
  layered := ⟨layered.toTiers.sustained sustains, by
    rw [sustains.entity]
    exact layered.underived⟩
  declares _ _ declares := declares.sustained reachable.sound layered.toTiers sustains

theorem dispatches (reachable : s.Reachable) (layered : s.Layered layers top)
    (declares : s.Declares request layers declared) (here : layers[i]? = some e) :
    s.Dispatches layers top request declared i e := by
  have sound := reachable.sound
  refine ⟨fun silent run args => ?_,
    fun j owner callable args nearest affords enough known self super => ?_⟩
  · have none := resolve_of_silent sound layered.toTiers declares here silent
    exact request.ask_of_none none run args
  · have finds := finds_of_nearest sound layered.toTiers declares here nearest
    have place := List.mem_of_getElem? here
    obtain ⟨t, steady, later, enters⟩ := request.enters_ask sound finds
      (layered.isLive sound place) affords enough
    rw [layered.receiver sound layered.mostDerived place] at enters
    have grows := later.heap.grows
    have ownerHas := sound.has_of_isLive
      (layered.isLive sound (List.mem_of_getElem? nearest.layer))
    have sustains : s.Sustains (t.serving callable owner top args) :=
      (steady.sustains sound later).trans (steady.sound.sustains_serving (grows.has _ ownerHas)
        (grows.has _ (sound.has_of_isLive layered.live))
        (fun v is => grows.hasAll (known v is)) enough)
    refine ⟨_, enters, serves_serving enough self, fun run => ?_,
      layered.carries reachable sustains⟩
    have base : (t.heap.entity owner).super = layerBelow layers j := by
      rw [← layered.super_eq nearest.layer, Heap.entity, steady.entities]
      rfl
    rw [← base]
    exact lookup_super_serving enough super run

theorem silent_or_nearest (layers : List EntityId) (declared : EntityId → Option Callable) (i : Nat)
    (inside : i < layers.length) : Silent layers declared i ∨
      ∃ j owner callable, Nearest layers declared i j owner callable := by
  induction i with
  | zero =>
    cases is : declared layers[0] with
    | none =>
      refine .inl fun k d within here => ?_
      rw [Nat.le_zero.1 within, List.getElem?_eq_getElem inside, Option.some.injEq] at here
      rw [← here, is]
    | some callable =>
      exact .inr ⟨0, _, callable, Nat.le_refl _, List.getElem?_eq_getElem inside, is,
        fun k d above within => absurd within (Nat.not_le.2 above)⟩
  | succ i ih =>
    cases is : declared layers[i + 1] with
    | none =>
      have here (d : EntityId) (at' : layers[i + 1]? = some d) : declared d = none := by
        rw [List.getElem?_eq_getElem inside, Option.some.injEq] at at'
        rw [← at', is]
      rcases ih (Nat.lt_of_succ_lt inside) with silent | ⟨j, owner, callable, nearest⟩
      · refine .inl fun k d within place => ?_
        rcases Nat.le_succ_iff.1 within with older | rfl
        · exact silent k d older place
        · exact here d place
      · refine .inr ⟨j, owner, callable, Nat.le_succ_of_le nearest.below, nearest.layer,
          nearest.declares, fun k d above within place => ?_⟩
        rcases Nat.le_succ_iff.1 within with older | rfl
        · exact nearest.between k d above older place
        · exact here d place
    | some callable =>
      exact .inr ⟨i + 1, _, callable, Nat.le_refl _, List.getElem?_eq_getElem inside, is,
        fun k d above within => absurd within (Nat.not_le.2 above)⟩

/-- A chain of layers dispatches every request to the nearest declaration at or below the layer that
is asked, on behalf of the last layer, for which the body runs in turn. Reading a member that way
gives the method itself. All this holds again wherever the chain is carried, so for what a body asks
`self` or `super` for. -/
theorem dispatch (reachable : s.Reachable) (layered : s.Layered layers top)
    (declares : s.Declares request layers declared) (here : layers[i]? = some e) :
    (Silent layers declared i ∨ ∃ j owner callable, Nearest layers declared i j owner callable) ∧
    (∀ name, request = .member name →
      (Silent layers declared i → ∀ run, getMember run e name s =
        .error (.failure (.ofCause (.unknownMember name (s.heap.entity e).name))) s) ∧
      ∀ j owner callable, Nearest layers declared i j owner callable →
        ∃ b t, t.heap.binding b = ⟨callable, .method owner⟩ ∧
          ∀ run, getMember run e name s = .ok (.binding b) t) ∧
    s.Dispatches layers top request declared i e ∧
    ∀ u, s.Carries u layers top → ∀ k d, layers[k]? = some d →
      u.Dispatches layers top request declared k d := by
  have sound := reachable.sound
  have inside := (List.getElem?_eq_some_iff.1 here).1
  refine ⟨silent_or_nearest layers declared i inside, ?_,
    dispatches reachable layered declares here,
    fun u carries k d there =>
      dispatches carries.reachable carries.layered (carries.declares _ _ declares) there⟩
  rintro name rfl
  refine ⟨fun silent => getMember_of_none
    (resolve_of_silent sound layered.toTiers declares here silent),
    fun j owner callable nearest => ?_⟩
  have ownerLive := layered.isLive sound (List.mem_of_getElem? nearest.layer)
  exact ⟨_, _, Heap.binding_addBinding _ _,
    getMember_of_finds (finds_of_nearest sound layered.toTiers declares here nearest) ownerLive⟩

/-- Two layers of which the lower one declares a method, before the upper one is built. -/
theorem dispatch_to_lower_layer : ∃ s : Session, s.Layered [⟨0⟩, ⟨1⟩] ⟨1⟩ ∧
    ∃ u, Enters (fun run => invokeMember run ⟨1⟩ "text" []) s (.root .text) u ∧ u.Serves ⟨1⟩ ∧
      ∀ run, lookup run "super" u = .ok .void u := by
  let text : Callable := .nullary "text" (.root .text)
  let upper : Expr := .bind "b" (.apply (.command (.entity .entity)) [.str "B", .var "a"])
  obtain ⟨first, reachable, has, declares, facts⟩ : ∃ first : Session, first.Reachable ∧
      0 < first.heap.entities.size ∧ (declareMethod ⟨0⟩ "text" text).succeeds first = true ∧
      let s := (Program.runSteps [upper]).after ((declareMethod ⟨0⟩ "text" text).after first)
      s.isLive ⟨1⟩ = true ∧ (s.heap.entity ⟨0⟩).super = none ∧
        (s.heap.entity ⟨1⟩).super = some ⟨0⟩ ∧ (s.heap.entity ⟨1⟩).derived = none ∧
        (Request.member "text").own s.heap ⟨1⟩ = none ∧ s.machine.stack.limit = none ∧
        (s.machine.countCall .method).overBudget? = none :=
    ⟨_, Program.reachable_runSteps {}
      [.bind "a" (.apply (.command (.entity .entity)) [.str "A"])], by decide +kernel⟩
  have fit := reachable.sound.fit
  have declared : first.Later ((declareMethod ⟨0⟩ "text" text).after first) :=
    (runs_declareMethod fit has "text" text).after.steps fit
  have later := Program.later_runSteps (declared.sound reachable.sound) [upper]
  generalize (Program.runSteps [upper]).after ((declareMethod ⟨0⟩ "text" text).after first) = s
    at facts later
  obtain ⟨live, bottom, above, underived, silent, unlimited, budget⟩ := facts
  have layered : s.Layered [⟨0⟩, ⟨1⟩] ⟨1⟩ :=
    ⟨⟨by simpa using bottom, .cons_cons above (.singleton _), rfl, live⟩, underived⟩
  let declaredOn (e : EntityId) : Option Callable := if e = ⟨0⟩ then some text else none
  have method : s.Declares (.member "text") [⟨0⟩, ⟨1⟩] declaredOn := by
    refine ⟨fun d place callable is => ?_, fun d place is => ?_⟩
    · obtain ⟨rfl, rfl⟩ : d = ⟨0⟩ ∧ callable = text := by simpa [declaredOn, eq_comm] using is
      exact ⟨first, _, reachable, has, Action.eq_ok_of_succeeds declares, later⟩
    · simp only [List.mem_cons, List.not_mem_nil, or_false] at place
      rcases place with rfl | rfl
      · cases is
      · exact silent
  have nearest : Nearest [⟨0⟩, ⟨1⟩] declaredOn 1 0 ⟨0⟩ text := by
    refine ⟨Nat.zero_le 1, rfl, rfl, fun k d above within here => ?_⟩
    obtain rfl : k = 1 := Nat.le_antisymm within above
    cases here
    rfl
  obtain ⟨u, enters, serves, super, _⟩ := (dispatch (reachable.later (declared.trans later)) layered
    method (i := 1) (e := ⟨1⟩) rfl).2.2.1.answers 0 ⟨0⟩ text [] nearest
      ⟨by simp [unlimited], budget⟩ rfl nofun nofun nofun
  exact ⟨s, layered, u, enters, serves, super⟩

end Session

end Delegation
