import Delegation.Proofs.Heap.Layers
import Delegation.Proofs.Run.Soundness
import Delegation.Proofs.Secrecy.Veil

/-!
# Sessions that hide a secret

A session hides a secret if its heap does and nothing that the program has in hand refers to
anything lost. Who is alive, who receives messages, and how a value or a chain is reported does not
depend on which of the two tables is in place; and what a program does to the session beside its
heap keeps the secret as long as the program uses what it has in hand.
-/

namespace Delegation

/-- How objects are let go depends on nothing of a heap but on who owns what. -/
theorem Census.release_congr {heap heap' : Heap} (owned : heap'.owned = heap.owned) (n : Nat)
    (pending : List Node) (census : Census) :
    Census.release heap' n pending census = Census.release heap n pending census := by
  induction n generalizing pending census with
  | zero => rfl
  | succ n ih =>
    cases pending with
    | nil => rfl
    | cons x pending => simp only [Census.release, owned, ih]

namespace Session

/-- The session with the other table in the place of the one that is hidden. -/
def veil (s : Session) (secret : Secret) : Session := { s with heap := s.heap.veil secret }

theorem switch_veil (s : Session) (secret : Secret) (m : MachineId) :
    (s.veil secret).switch m = (s.switch m).veil secret := by
  by_cases same : m = s.running
  · have same' : m = (s.veil secret).running := same
    rw [Session.switch, if_pos same', Session.switch, if_pos same]
  · have same' : ¬m = (s.veil secret).running := same
    rw [Session.switch, if_neg same', Session.switch, if_neg same]
    rfl

mutual

theorem ownedBy_veil (s : Session) (secret : Secret) (x : Object) :
    (s.veil secret).ownedBy x = s.ownedBy x := by
  cases x with
  | list items => exact ownedByAll_veil s secret items
  | value | scope | cell | chain | callable | frame | stack | weak | failure | builder | registry
  | machine => rfl

theorem ownedByAll_veil (s : Session) (secret : Secret) (xs : List Object) :
    (s.veil secret).ownedByAll xs = s.ownedByAll xs := by
  cases xs with
  | nil => rfl
  | cons x xs =>
    rw [ownedByAll, ownedByAll, ownedBy_veil s secret x, ownedByAll_veil s secret xs]

end

theorem roots_veil (s : Session) (secret : Secret) : (s.veil secret).roots = s.roots := by
  have owns : (s.veil secret).ownedBy = s.ownedBy := funext (ownedBy_veil s secret)
  rw [roots, owns, roots]
  rfl

theorem isRooted_veil (s : Session) (secret : Secret) (x : Node) :
    (s.veil secret).isRooted x = s.isRooted x := by
  rw [Bool.eq_iff_iff, isRooted_iff, isRooted_iff, roots_veil]

theorem layersAbove_veil (s : Session) (secret : Secret) (e : EntityId) :
    (s.veil secret).layersAbove e = s.layersAbove e := by
  have layers (n : Nat) (e : EntityId) :
      (s.heap.veil secret).layersAbove n e = s.heap.layersAbove n e := by
    induction n generalizing e with
    | zero => rfl
    | succ n ih => simp only [Heap.layersAbove, ih]; rfl
  exact layers _ e

/-- A session in which nothing that the program has in hand refers to anything lost. -/
structure Hides (secret : Secret) (s : Session) : Prop where
  heap : s.heap.Hides secret
  running : ¬secret.lost (.machine s.running)
  chains : ∀ c, ¬secret.lost (.chain c) → secret.Clear (Chain.owned (s.chain c))
  sharedStacks : ∀ c, ¬secret.lost (.stack c) → secret.Clear (s.stack c).owned
  builders : ∀ b, ¬secret.lost (.builder b) →
    ∀ registry, s.builders.getD b.index none = some registry → secret.Clear registry.owned
  machines : ∀ m, ¬secret.lost (.machine m) → secret.Clear (s.machineAt m).owned
  oldChains : ∀ c, secret.lost (.chain c) → c.index < s.sharedChains.size
  oldStacks : ∀ c, secret.lost (.stack c) → c.index < s.sharedStacks.size
  oldBuilders : ∀ b, secret.lost (.builder b) → b.index < s.builders.size
  oldMachines : ∀ m, secret.lost (.machine m) → m.index < s.machines.size
  vars : ∀ entry ∈ s.vars, secret.Bare entry.2
  held : ∀ x ∈ s.held, secret.Bare x

namespace Hides

variable {secret : Secret} {s : Session} (hides : s.Hides secret)

include hides

/-! ## What is in hand -/

theorem machine : secret.Clear s.machine.owned := by
  have clear := hides.machines _ hides.running
  rwa [machineAt, if_pos rfl] at clear

theorem stack : secret.Clear s.machine.stack.owned := (Secret.clear_append.1 hides.machine).1

theorem registry : secret.Clear s.machine.registry.owned :=
  (Secret.clear_append.1 hides.machine).2

theorem globals : ¬secret.lost (.node (.scope s.machine.globals)) :=
  (Secret.clear_cons.1 hides.registry).1

theorem receiver {e : EntityId} (found : ¬secret.lost (.node (.entity e))) :
    ¬secret.lost (.node (.entity (s.receiver e))) := by
  rcases List.mem_cons.1 (s.receiver_mem e) with same | above
  · rwa [same]
  · exact hides.heap.layersAbove found _ above

theorem currentFrame : secret.Clear s.machine.currentFrame.owned := by
  unfold Machine.currentFrame
  cases is : s.machine.stack.current with
  | none => exact Secret.clear_singleton.2 hides.globals
  | some frame =>
    exact hides.stack.subset (CallStack.owned_subset_of_mem (List.mem_of_mem_head? is))

theorem currentChain : secret.Clear (Chain.owned s.machine.currentChain) := by
  have frameClear := (Secret.clear_append.1 hides.currentFrame).2
  unfold Machine.currentFrame at frameClear
  unfold Machine.currentChain
  cases is : s.machine.stack.current with
  | none =>
    rw [is] at frameClear
    exact frameClear
  | some frame =>
    rw [is] at frameClear
    exact frameClear

/-! ## What does not depend on the table -/

theorem hasMember_veil {e : EntityId} (found : ¬secret.lost (.node (.entity e)))
    (name : String) : (s.veil secret).heap.hasMember e name = s.heap.hasMember e name :=
  hides.heap.contains_veil (hides.heap.members found) name

theorem supportsHook_veil {e : EntityId} (found : ¬secret.lost (.node (.entity e)))
    (name : String) : (s.veil secret).heap.supportsHook e name = s.heap.supportsHook e name :=
  hides.heap.contains_veil (hides.heap.hooks found) name

theorem census_veil : (s.veil secret).census = s.census := by
  have owned : (s.veil secret).heap.owned = s.heap.owned := hides.heap.owned_veil
  have nodes : (s.veil secret).heap.nodes = s.heap.nodes := by
    simp [Heap.nodes, Session.veil, Heap.veil, Heap.setScope]
  have zero : Census.zero (s.veil secret).heap = Census.zero s.heap := by
    simp [Census.zero, Session.veil, Heap.veil, Heap.setScope]
  have owners : Census.owners (s.veil secret) = Census.owners s := by
    simp only [Census.owners, owned, roots_veil, nodes, zero]
  simp only [Session.census, nodes, owners, Census.release_congr owned]

theorem isLive_veil (e : EntityId) : (s.veil secret).isLive e = s.isLive e := by
  simp only [isLive, hides.census_veil, isRooted_veil, layersAbove_veil]

theorem receiver_veil (e : EntityId) : (s.veil secret).receiver e = s.receiver e := by
  simp only [Session.receiver, hides.census_veil, isRooted_veil, layersAbove_veil]

theorem owner?_veil (b : BindingId) : (s.veil secret).owner? b = s.owner? b := by
  simp only [owner?, hides.isLive_veil]
  rfl

/-! ## What keeps the secret -/

theorem withHeap {heap : Heap} (after : heap.Hides secret) :
    { s with heap }.Hides secret := { hides with heap := after }

theorem withMachine {machine : Machine} (clear : secret.Clear machine.owned) :
    { s with machine }.Hides secret :=
  { hides with
    machines := fun m found => by
      unfold machineAt
      split
      · exact clear
      · next other =>
        have there := hides.machines m found
        rwa [machineAt, if_neg other] at there }

theorem withStack {stack : CallStack} (clear : secret.Clear stack.owned) :
    (s.withStack stack).Hides secret :=
  hides.withMachine (Secret.clear_append.2 ⟨clear, hides.registry⟩)

theorem withHeld {held : List Object} (bare : ∀ x ∈ held, secret.Bare x) :
    { s with held }.Hides secret := { hides with held := bare }

theorem hold {x : Object} (bare : secret.Bare x) : { s with held := x :: s.held }.Hides secret :=
  hides.withHeld (List.forall_mem_cons.2 ⟨bare, hides.held⟩)

theorem setVariable (name : String) {x : Object} (bare : secret.Bare x) :
    { s with vars := (name, x) :: s.varsBut name }.Hides secret :=
  { hides with
    vars := List.forall_mem_cons.2
      ⟨bare, fun entry place => hides.vars entry (List.mem_filter.1 place).1⟩ }

theorem dropVariable (name : String) : { s with vars := s.varsBut name }.Hides secret :=
  { hides with vars := fun entry place => hides.vars entry (List.mem_filter.1 place).1 }

theorem popFrame : s.popFrame.Hides secret :=
  hides.withStack (hides.stack.subset (CallStack.owned_pop_subset _))

theorem pushInner {x : ScopeId} (found : ¬secret.lost (.node (.scope x))) :
    (s.mapFrame (·.pushInner x)).Hides secret :=
  hides.withStack ((Secret.clear_cons.2 ⟨found, hides.stack⟩).subset
    (CallStack.owned_pushInner_subset _ x))

theorem popInner : (s.mapFrame Frame.popInner).Hides secret :=
  hides.withStack (hides.stack.subset (CallStack.owned_popInner_subset _))

theorem pushFrame {frame : Frame} {t : Session} (clear : secret.Clear frame.owned)
    (pushed : Delegation.pushFrame frame s = .ok () t) : t.Hides secret := by
  unfold Delegation.pushFrame at pushed
  split at pushed
  · next stack fits =>
    cases pushed
    refine hides.withStack ?_
    rw [CallStack.owned_push fits]
    exact Secret.clear_append.2 ⟨clear, hides.stack⟩
  · cases pushed

theorem «switch» {m : MachineId} (found : ¬secret.lost (.machine m)) :
    (s.switch m).Hides secret := by
  by_cases same : m = s.running
  · rwa [Session.switch, if_pos same]
  have machines : ∀ k, ¬secret.lost (.machine k) → secret.Clear ((s.switch m).machineAt k).owned := by
    intro k open_k
    by_cases present : k.index < s.machines.size
    · rw [machineAt_switch present]
      exact hides.machines k open_k
    · rw [machineAt_switch_of_absent same (Nat.le_of_not_lt present)]
      exact Secret.clear_cons.2 ⟨secret.open_first, Secret.clear_nil⟩
  rw [Session.switch, if_neg same] at machines ⊢
  exact { hides with
    running := found
    machines
    oldMachines := fun k lost => by simpa using hides.oldMachines k lost }

/-! ## Shared things -/

theorem fresh_chain : ¬secret.lost (.chain ⟨s.sharedChains.size⟩) :=
  fun lost => Nat.lt_irrefl _ (hides.oldChains _ lost)

theorem fresh_stack : ¬secret.lost (.stack ⟨s.sharedStacks.size⟩) :=
  fun lost => Nat.lt_irrefl _ (hides.oldStacks _ lost)

theorem fresh_builder : ¬secret.lost (.builder ⟨s.builders.size⟩) :=
  fun lost => Nat.lt_irrefl _ (hides.oldBuilders _ lost)

theorem fresh_machine : ¬secret.lost (.machine ⟨s.machines.size⟩) :=
  fun lost => Nat.lt_irrefl _ (hides.oldMachines _ lost)

theorem addChain {chain : Chain} (clear : secret.Clear (Chain.owned chain)) :
    { s with sharedChains := s.sharedChains.push chain }.Hides secret :=
  { hides with
    chains := fun c found =>
      Array.getD_push_of (P := fun chain : Chain => secret.Clear (Chain.owned chain))
        (hides.chains c found) clear
    oldChains := fun c lost => Nat.lt_of_lt_of_le (hides.oldChains c lost) (by simp) }

theorem modifyChain {c : ChainId} (found : ¬secret.lost (.chain c)) {f : Chain → Chain}
    (keeps : secret.Clear (Chain.owned (s.chain c)) →
      secret.Clear (Chain.owned (f (s.chain c)))) :
    { s with sharedChains := s.sharedChains.modify c.index f }.Hides secret :=
  { hides with
    chains := fun d open_d => by
      have old := hides.chains d open_d
      have changed := keeps (hides.chains c found)
      simp only [Session.chain, Array.getD_eq_getD_getElem?, Array.getElem?_modify] at *
      by_cases same : c.index = d.index
      · rw [if_pos same]
        rw [same] at changed
        cases there : s.sharedChains[d.index]? with
        | none => simpa [there] using old
        | some chain => simpa [there] using changed
      · rwa [if_neg same]
    oldChains := fun d lost => by simpa using hides.oldChains d lost }

theorem addStack {stack : CallStack} (clear : secret.Clear stack.owned) :
    { s with sharedStacks := s.sharedStacks.push stack }.Hides secret :=
  { hides with
    sharedStacks := fun c found =>
      Array.getD_push_of (P := fun stack : CallStack => secret.Clear stack.owned)
        (hides.sharedStacks c found) clear
    oldStacks := fun c lost => Nat.lt_of_lt_of_le (hides.oldStacks c lost) (by simp) }

theorem putStack (c : StackId) {stack : CallStack} (clear : secret.Clear stack.owned) :
    { s with sharedStacks := s.sharedStacks.setIfInBounds c.index stack }.Hides secret :=
  { hides with
    sharedStacks := fun d found =>
      Array.getD_setIfInBounds_of (P := fun stack : CallStack => secret.Clear stack.owned)
        (hides.sharedStacks d found) clear c.index
    oldStacks := fun d lost => by simpa using hides.oldStacks d lost }

theorem addBuilder {registry : Registry} (clear : secret.Clear registry.owned) :
    { s with builders := s.builders.push (some registry) }.Hides secret :=
  { hides with
    builders := fun b found =>
      Array.getD_push_of (P := fun place : Option Registry =>
          ∀ registry, place = some registry → secret.Clear registry.owned)
        (hides.builders b found) fun _ is => Option.some.inj is ▸ clear
    oldBuilders := fun b lost => Nat.lt_of_lt_of_le (hides.oldBuilders b lost) (by simp) }

theorem setBuilder (b : BuilderId) {registry : Option Registry}
    (clear : ∀ r, registry = some r → secret.Clear r.owned) :
    { s with builders := s.builders.setIfInBounds b.index registry }.Hides secret :=
  { hides with
    builders := fun d found =>
      Array.getD_setIfInBounds_of (P := fun place : Option Registry =>
          ∀ registry, place = some registry → secret.Clear registry.owned)
        (hides.builders d found) clear b.index
    oldBuilders := fun d lost => by simpa using hides.oldBuilders d lost }

theorem addMachine {machine : Machine} (clear : secret.Clear machine.owned) :
    { s with machines := s.machines.push machine }.Hides secret :=
  { hides with
    machines := fun m found => by
      have old := hides.machines m found
      unfold machineAt at old ⊢
      split
      · next here => rwa [if_pos here] at old
      · next other =>
        rw [if_neg other] at old
        exact Array.getD_push_of (P := fun machine : Machine => secret.Clear machine.owned) old
          clear
    oldMachines := fun m lost => Nat.lt_of_lt_of_le (hides.oldMachines m lost) (by simp) }

end Hides

end Session

end Delegation
