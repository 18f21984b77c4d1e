import Delegation.Proofs.Resolution

/-!
# Chains are flat

A chain is searched in two stages: for the first of its scopes that contains the name, and then once
more along the path of that scope. This comes to the same as one search through a flat list, in
which each scope of the chain is replaced by its path. Scopes may stand in the chain more than once
or share ancestors; the flat list then has tables more than once, and the first place counts.
-/

namespace Delegation

variable {α : Type} {s : Session} {x y : ScopeId} {chain : Chain} {tables : List ScopeId}
  {name : String} {cell : Cell} {v : Value}

namespace Heap

variable {heap : Heap}

/-- The tables of a chain: its scopes in order, each with its ancestors behind it. -/
def flatten (heap : Heap) (chain : Chain) : List ScopeId := chain.flatMap heap.path

theorem flatten_cons (heap : Heap) (x : ScopeId) (chain : Chain) :
    heap.flatten (x :: chain) = heap.path x ++ heap.flatten chain := List.flatMap_cons

theorem flatten_append (heap : Heap) (front back : Chain) :
    heap.flatten (front ++ back) = heap.flatten front ++ heap.flatten back := List.flatMap_append

theorem flatten_singleton (heap : Heap) (x : ScopeId) : heap.flatten [x] = heap.path x :=
  List.flatMap_singleton ..

theorem path_of_root (root : (heap.scope x).lineage = []) : heap.path x = [x] := by
  rw [path, root]

theorem first?_append (heap : Heap) (front back : List ScopeId) (name : String) :
    heap.first? (front ++ back) name = (heap.first? front name).or (heap.first? back name) :=
  List.findSome?_append

/-- The scope of a chain that contains the name has the first cell of all tables, and if there is no
such scope no table has one. -/
theorem first?_flatten (heap : Heap) (chain : Chain) (name : String) :
    heap.first? (heap.flatten chain) name =
      (heap.findScope chain name).bind fun x => heap.first? (heap.path x) name := by
  induction chain with
  | nil => rfl
  | cons x rest ih =>
    rw [flatten_cons, first?_append, findScope, List.find?_cons,
      contains_eq_isSome_resolve, resolve_eq_first?]
    cases here : heap.first? (heap.path x) name with
    | some found => exact here.symm
    | none => exact ih

/-- What a name leads to in a chain is what the flat list has first. -/
theorem resolveIn_eq_first? (heap : Heap) (chain : Chain) (name : String) :
    heap.resolveIn chain name = heap.first? (heap.flatten chain) name :=
  (heap.first?_flatten chain name).symm

theorem any_contains_eq (heap : Heap) (chain : Chain) (name : String) :
    (chain.any fun x => heap.contains x name) =
      (heap.flatten chain).any fun x => (heap.scope x).declares name := by
  rw [flatten, List.any_flatMap]
  rfl

theorem Ordered.paths (ordered : heap.Ordered) (known : ∀ x ∈ chain, heap.Has (.scope x)) :
    List.Forall₂ heap.Ascends chain (chain.map heap.path) ∧
      ∀ others, List.Forall₂ heap.Ascends chain others → others = chain.map heap.path := by
  induction chain with
  | nil => exact ⟨.nil, fun others walks => List.forall₂_nil_left_iff.1 walks⟩
  | cons x rest ih =>
    obtain ⟨has, known⟩ := List.forall_mem_cons.1 known
    obtain ⟨walks, only⟩ := ih known
    refine ⟨.cons (ordered.path has).1 walks, fun others walks => ?_⟩
    cases walks with
    | cons walk further => rw [ordered.path_eq has walk, only _ further, List.map_cons]

end Heap

/-! ## Reading and assigning -/

theorem holding_congr {x : Object} {action action' : Action α}
    (same : action { s with held := x :: s.held } = action' { s with held := x :: s.held }) :
    holding x action s = holding x action' s := by
  simp only [holding, same]

theorem readIn_congr {other : List ScopeId} (run : Runner)
    (same : s.heap.first? tables name = s.heap.first? other name) :
    readIn run tables name s = readIn run other name s := by
  simp only [readIn, bind, EStateM.bind, Action.get_eq_ok, same]

theorem writeIn_congr {other : List ScopeId} (run : Runner)
    (same : s.heap.first? tables name = s.heap.first? other name) :
    writeIn run tables name v s = writeIn run other name v s := by
  simp only [writeIn, bind, EStateM.bind, Action.get_eq_ok, same]

/-- A chain is read like the flat list of its tables. -/
theorem Chain.get_eq (run : Runner) (chain : Chain) (name : String) (s : Session) :
    Chain.get run chain name s =
      holding (.ofScopes chain) (readIn run (s.heap.flatten chain) name) s := by
  have flat := s.heap.first?_flatten chain name
  let inside : Session := { s with held := .ofScopes chain :: s.held }
  refine holding_congr ?_
  simp only [bind, EStateM.bind, Action.getThe_eq_ok]
  cases is : s.heap.findScope chain name with
  | some x =>
    rw [is] at flat
    exact (x.get_eq run name _).trans (readIn_congr run flat.symm)
  | none =>
    rw [is] at flat
    exact (readIn_of_lacks (s := inside) (Heap.first?_eq_none_iff.1 flat) run).symm

theorem Chain.set_eq (run : Runner) (chain : Chain) (name : String) (v : Value) (s : Session) :
    Chain.set run chain name v s =
      holding (.ofScopes chain) (writeIn run (s.heap.flatten chain) name v) s := by
  have flat := s.heap.first?_flatten chain name
  let inside : Session := { s with held := .ofScopes chain :: s.held }
  refine holding_congr ?_
  simp only [bind, EStateM.bind, Action.getThe_eq_ok]
  cases is : s.heap.findScope chain name with
  | some x =>
    rw [is] at flat
    exact (x.set_eq run name v _).trans (writeIn_congr run flat.symm)
  | none =>
    rw [is] at flat
    exact (writeIn_of_lacks (s := inside) (Heap.first?_eq_none_iff.1 flat) run).symm

section First

variable (run : Runner) (first : s.heap.First (s.heap.flatten chain) name x cell)

include first

theorem Chain.get_of_first :
    Chain.get run chain name s = holding (.ofScopes chain) (cell.read run) s :=
  (Chain.get_eq run chain name s).trans (holding_congr (readIn_of_first run first))

theorem Chain.set_of_first (v : Value) :
    Chain.set run chain name v s = holding (.ofScopes chain) (cell.write run x name v) s :=
  (Chain.set_eq run chain name v s).trans (holding_congr (writeIn_of_first run first))

end First

theorem Session.Ignorant.holding {action : Runner → Action α} {x : Object}
    (ignorant : Ignorant { s with held := x :: s.held } name action) :
    s.Ignorant name fun run => holding x (action run) := by
  intro run
  simp only [Delegation.holding, ignorant run]

theorem Chain.ignorant_get_iff :
    (s.Ignorant name fun run => Chain.get run chain name) ↔
      s.heap.Lacks (s.heap.flatten chain) name := by
  constructor
  · intro ignorant
    refine (s.heap.first_or_lacks _ name).resolve_left fun ⟨x, cell, first⟩ => ?_
    exact ((cell.read_spares name).holding _).not_ignorant (Chain.get_of_first _ first) ignorant
  · intro lacks run
    have ignorant : Session.Ignorant { s with held := .ofScopes chain :: s.held } name fun run =>
        readIn run (s.heap.flatten chain) name := readIn_of_lacks lacks
    exact (Chain.get_eq run chain name s).trans (ignorant.holding run)

theorem Chain.ignorant_set_iff :
    (s.Ignorant name fun run => Chain.set run chain name v) ↔
      s.heap.Lacks (s.heap.flatten chain) name := by
  constructor
  · intro ignorant
    refine (s.heap.first_or_lacks _ name).resolve_left fun ⟨x, cell, first⟩ => ?_
    exact ((cell.write_spares x name v).holding _).not_ignorant (Chain.set_of_first _ first v)
      ignorant
  · intro lacks run
    have ignorant : Session.Ignorant { s with held := .ofScopes chain :: s.held } name fun run =>
        writeIn run (s.heap.flatten chain) name v := writeIn_of_lacks lacks
    exact (Chain.set_eq run chain name v s).trans (ignorant.holding run)

/-! ## Flat chains -/

namespace Session

/-- A chain answers for a name as a flat list of tables does. -/
structure Flat (s : Session) (chain : Chain) (tables : List ScopeId) (name : String) : Prop where
  contains : (chain.any fun x => s.heap.contains x name) =
    tables.any fun x => (s.heap.scope x).declares name
  answer : ∀ c, s.chain c = chain →
    TableQuery.contains.answer s [.chain c, .value (.str name)] =
      .ok (.ofBool (tables.any fun x => (s.heap.scope x).declares name))
  get : ∀ run, Chain.get run chain name s = holding (.ofScopes chain) (readIn run tables name) s
  set : ∀ run v, Chain.set run chain name v s =
    holding (.ofScopes chain) (writeIn run tables name v) s
  unknown : (s.Ignorant name fun run => Chain.get run chain name) ↔ s.heap.Lacks tables name
  unassigned : ∀ v, (s.Ignorant name fun run => Chain.set run chain name v) ↔
    s.heap.Lacks tables name
  /-- The first match is what is read: its value, or what its getter gives. -/
  reads : ∀ y cell, s.heap.First tables name y cell → ∀ run,
    Chain.get run chain name s = holding (.ofScopes chain) (cell.read run) s
  stores : ∀ y w, s.heap.First tables name y (.mutable w) → ∀ v,
    ∃ t, (∀ run, Chain.set run chain name v s = .ok () t) ∧ s.Stores y name v t
  hands : ∀ y getter setter, s.heap.First tables name y (.computed getter (some setter)) →
    ∀ run v, Chain.set run chain name v s =
      holding (.ofScopes chain) (setter.call run [v] >>= fun _ => pure ()) s
  /-- What comes behind a first match that cannot be assigned to stays as it is. -/
  blocks : ∀ y cell, s.heap.First tables name y cell →
    cell.kind = .constant ∨ cell.kind = .readOnlyComputed → ∀ run v,
      Chain.set run chain name v s = .error (.failure (.ofCause (.constantAssignment name))) s

theorem flat_flatten (sound : s.Sound) (known : ∀ x ∈ chain, s.heap.Has (.scope x))
    (name : String) : s.Flat chain (s.heap.flatten chain) name where
  contains := s.heap.any_contains_eq chain name
  answer c is := by
    rw [← s.heap.any_contains_eq chain name, ← is]
    rfl
  get run := Chain.get_eq run chain name s
  set run v := Chain.set_eq run chain name v s
  unknown := Chain.ignorant_get_iff
  unassigned _ := Chain.ignorant_set_iff
  reads y cell first run := Chain.get_of_first run first
  stores y w first v := by
    have yHas : s.heap.Has (.scope y) := by
      obtain ⟨before, after, is, -⟩ := first.place
      obtain ⟨x, place, within⟩ := List.mem_flatMap.1
        (is ▸ List.mem_append_right before List.mem_cons_self : y ∈ s.heap.flatten chain)
      exact sound.heap.has_path (known x place) within
    have leads : s.heap.resolveIn chain name = some (y, .mutable w) :=
      (s.heap.resolveIn_eq_first? chain name).trans (Heap.first?_eq_some_iff.2 first)
    exact ⟨_, fun run => Chain.set_of_mutable leads run v,
      stores_modifyScope yHas first.declares v⟩
  hands y getter setter first run v := Chain.set_of_first run first v
  blocks y cell first is run v := by
    have fails : Cell.write run y name v cell { s with held := .ofScopes chain :: s.held } =
        .error (.failure (.ofCause (.constantAssignment name)))
          { s with held := .ofScopes chain :: s.held } := by
      cases cell with
      | mutable => rcases is with is | is <;> cases is
      | constant => rfl
      | computed getter setter =>
        cases setter with
        | none => rfl
        | some => rcases is with is | is <;> cases is
    rw [Chain.set_of_first run first]
    simp only [holding, fails]

/-- A chain answers for every name as the flat list does in which each of its scopes is replaced by
the walk from it to its ancestors. So a chain of one scope answers as the scope does. -/
theorem chain_resolution (reachable : s.Reachable) (known : ∀ x ∈ chain, s.heap.Has (.scope x))
    (name : String) :
    (∃ paths, List.Forall₂ s.heap.Ascends chain paths ∧
      (∀ others, List.Forall₂ s.heap.Ascends chain others → others = paths) ∧
      s.Flat chain paths.flatten name) ∧
      ∀ x, chain = [x] →
        (chain.any fun x => s.heap.contains x name) = s.heap.contains x name ∧
        (∀ run, Chain.get run chain name s =
          holding (.ofScopes chain) (x.get run name) s) ∧
        ∀ run v, Chain.set run chain name v s =
          holding (.ofScopes chain) (x.set run name v) s := by
  obtain ⟨walks, only⟩ := reachable.ordered.paths known
  refine ⟨⟨_, walks, only, flat_flatten reachable.sound known name⟩, ?_⟩
  rintro x rfl
  refine ⟨Bool.or_false _, fun run => ?_, fun run v => ?_⟩
  · rw [Chain.get_eq, Heap.flatten_singleton]
    exact holding_congr (x.get_eq run name { s with held := .ofScopes [x] :: s.held }).symm
  · rw [Chain.set_eq, Heap.flatten_singleton]
    exact holding_congr (x.set_eq run name v { s with held := .ofScopes [x] :: s.held }).symm

/-- A chain in which a scope stands twice, and in which a constant comes before a mutable cell of
the same name. -/
theorem chain_resolution_of_shadowing :
    let s := (Program.runSteps
      [.bind "p" (.apply (.command (.table .scope)) [.str "identifier"]),
        .apply (.command (.table .declare))
          [.var "p", .str "n", .apply (.query (.table .mutable)) [.int 1]],
        .bind "c" (.apply (.command (.table .child)) [.var "p", .str "identifier"]),
        .apply (.command (.table .declare))
          [.var "c", .str "n", .apply (.query (.table .constant)) [.int 2]]]).after
            (Program.ready {})
    s.Reachable ∧ (∀ x ∈ ([⟨2⟩, ⟨1⟩] : Chain), s.heap.Has (.scope x)) ∧
      s.Flat [⟨2⟩, ⟨1⟩] [⟨2⟩, ⟨1⟩, ⟨1⟩] "n" ∧
      ∀ run v, Chain.set run [⟨2⟩, ⟨1⟩] "n" v s =
        .error (.failure (.ofCause (.constantAssignment "n"))) s := by
  let steps : List Expr :=
    [.bind "p" (.apply (.command (.table .scope)) [.str "identifier"]),
      .apply (.command (.table .declare))
        [.var "p", .str "n", .apply (.query (.table .mutable)) [.int 1]],
      .bind "c" (.apply (.command (.table .child)) [.var "p", .str "identifier"]),
      .apply (.command (.table .declare))
        [.var "c", .str "n", .apply (.query (.table .constant)) [.int 2]]]
  intro s
  have reachable : s.Reachable := Program.reachable_runSteps {} steps
  have facts : 2 < s.heap.scopes.size ∧ s.heap.flatten [⟨2⟩, ⟨1⟩] = [⟨2⟩, ⟨1⟩, ⟨1⟩] ∧
      s.heap.first? [⟨2⟩, ⟨1⟩, ⟨1⟩] "n" = some (⟨2⟩, .constant (.int 2)) := by decide +kernel
  obtain ⟨size, is, found⟩ := facts
  have known : ∀ x ∈ ([⟨2⟩, ⟨1⟩] : Chain), s.heap.Has (.scope x) :=
    List.forall_mem_cons.2 ⟨size, List.forall_mem_singleton.2 (Nat.lt_of_succ_lt size)⟩
  obtain ⟨⟨paths, -, only, flat⟩, -⟩ := chain_resolution reachable known "n"
  rw [← only _ (reachable.ordered.paths known).1, ← List.flatMap_def, ← Heap.flatten, is] at flat
  exact ⟨reachable, known, flat, flat.blocks _ _ (Heap.first?_eq_some_iff.1 found) (.inl rfl)⟩

end Session

end Delegation
