import JoinForest.Proofs.Schema.Request
import JoinForest.Query.Sql

set_option autoImplicit false

/-!
# Assembled queries

What a query is made of when one is made: a plan for the tables that the request mentions, the node
of its root and those of its steps (`Schema.select_eq_ok_iff`). A statement has an entry of its FROM
clause for each of these nodes, in the order of the plan (`Builder.run_statement`).
-/

namespace JoinForest

/-! ## Tables of a request -/

theorem mem_insertName {name n : String} {names : List String} :
    n ∈ insertName name names ↔ n = name ∨ n ∈ names := by
  induction names with
  | nil => simp [insertName]
  | cons first names ih =>
    rw [insertName]
    split
    · next heq => simp [heq]
    · split
      · simp
      · simp only [List.mem_cons, ih]
        exact or_left_comm

theorem mem_sortedNames {names : List String} {n : String} : n ∈ sortedNames names ↔ n ∈ names := by
  induction names with
  | nil => rfl
  | cons name names ih =>
    rw [sortedNames, List.foldr_cons, ← sortedNames, mem_insertName, ih, List.mem_cons]

theorem Request.mem_tables {r : Request} {table : String} :
    table ∈ r.tables ↔
      (∃ p ∈ r.projections, p.table? = some table) ∨ ∃ c ∈ r.columns, c.table = table := by
  simp [tables, mem_sortedNames]

namespace Schema

variable {s : Schema}

/-! ## Plans of requests -/

theorem lookup_isOk_iff {name : String} : (∃ e, s.lookup name = .ok e) ↔ name ∈ s.names := by
  simp only [lookup_eq_ok_iff, ← contains_iff, contains, Option.isSome_iff_exists]

/-- A request has a plan when its tables are known, offer the columns, and have one. -/
theorem planFor_eq_ok_iff {r : Request} {p : Plan} :
    s.planFor r = .ok p ↔ (∀ t ∈ r.tables, t ∈ s.names) ∧
      (∀ c ∈ r.columns, ∃ e col, s.lookup c.table = .ok e ∧
        Source.column (Entry.source e) c.column = .ok col) ∧ s.plan r.tables = .ok p := by
  have htables : (r.tables.forM fun t => discard (s.lookup t)) = .ok ⟨⟩ ↔
      ∀ t ∈ r.tables, t ∈ s.names := by
    simp only [forM_eq_ok_iff, discard_eq_ok_iff, lookup_isOk_iff]
  have hcolumns : (r.columns.forM fun c => do
        let e ← s.lookup c.table
        discard (Source.column (Entry.source e) c.column)) = .ok ⟨⟩ ↔
      ∀ c ∈ r.columns, ∃ e col, s.lookup c.table = .ok e ∧
        Source.column (Entry.source e) c.column = .ok col := by
    simp only [forM_eq_ok_iff, bind_eq_ok_iff, discard_eq_ok_iff, exists_and_left]
  rw [planFor, bind_eq_ok_iff, ← htables, ← hcolumns]
  constructor
  · rintro ⟨_, ht, h⟩
    obtain ⟨_, hc, hp⟩ := bind_eq_ok_iff.1 h
    exact ⟨ht, hc, hp⟩
  · rintro ⟨ht, hc, hp⟩
    exact ⟨_, ht, bind_eq_ok_iff.2 ⟨_, hc, hp⟩⟩

end Schema

/-! ## Builders led through plans -/

section Builders

variable {From Query : Type}

/-- What a builder makes of a root, the joined nodes with their steps, and a request. -/
def Builder.run (b : Builder From Query) (root : Entry) (joined : List (Step × Entry))
    (r : Request) : Query :=
  b.finish (joined.foldl (fun start sc => b.join start sc.2 sc.1) (b.start root)) r

namespace Schema

variable {s : Schema} {b : Builder From Query} {r : Request}

/-- The nodes that the steps of a plan lead onto, in order. -/
def Locates (s : Schema) (steps : List Step) (children : List Entry) : Prop :=
  List.Forall₂ (fun st e => s.lookup st.child = .ok e) steps children

/-- Steps onto known tables have their nodes. -/
theorem exists_locates {steps : List Step} (h : ∀ st ∈ steps, st.child ∈ s.names) :
    ∃ children, s.Locates steps children := by
  induction steps with
  | nil => exact ⟨[], .nil⟩
  | cons st steps ih =>
    rw [List.forall_mem_cons] at h
    obtain ⟨e, he⟩ := lookup_isOk_iff.2 h.1
    obtain ⟨children, hchildren⟩ := ih h.2
    exact ⟨e :: children, .cons he hchildren⟩

/-- The nodes that steps lead onto have their names. -/
theorem Locates.mem_zip {steps : List Step} {children : List Entry}
    (h : s.Locates steps children) {step : Step} {e : Entry}
    (hmem : (step, e) ∈ steps.zip children) :
    step ∈ steps ∧ e ∈ s.entries ∧ Entry.name e = step.child := by
  induction h with
  | nil => simp at hmem
  | @cons first located steps children he _ ih =>
    rw [List.zip_cons_cons] at hmem
    rcases List.mem_cons.1 hmem with heq | hmem
    · obtain ⟨rfl, rfl⟩ := Prod.mk.inj heq
      exact ⟨List.mem_cons_self, name_of_node? (lookup_eq_ok_iff.1 he)⟩
    · obtain ⟨hstep, hentry⟩ := ih hmem
      exact ⟨List.mem_cons_of_mem first hstep, hentry⟩

/-- The loop of the joins succeeds when every step finds its node, and hands the nodes to the
builder in order. -/
theorem foldlM_join_eq_ok_iff {steps : List Step} {start all : From} :
    (steps.foldlM (fun start st => do
        let child ← s.lookup st.child
        return b.join start child st) start : Except SchemaError From) = .ok all ↔
      ∃ children, s.Locates steps children ∧
        (steps.zip children).foldl (fun start sc => b.join start sc.2 sc.1) start = all := by
  induction steps generalizing start with
  | nil =>
    constructor
    · intro h
      exact ⟨[], .nil, Except.ok.inj h⟩
    · rintro ⟨_, -, rfl⟩
      rfl
  | cons st steps ih =>
    rw [List.foldlM_cons, bind_eq_ok_iff]
    constructor
    · rintro ⟨next, hnext, h⟩
      obtain ⟨e, he, hjoin⟩ := bind_eq_ok_iff.1 hnext
      obtain rfl := Except.ok.inj hjoin
      obtain ⟨children, hchildren, hall⟩ := ih.1 h
      exact ⟨e :: children, .cons he hchildren, hall⟩
    · rintro ⟨_, hchildren, hall⟩
      cases hchildren with
      | cons he hchildren =>
        exact ⟨_, bind_eq_ok_iff.2 ⟨_, he, rfl⟩, ih.2 ⟨_, hchildren, hall⟩⟩

/-- A query is assembled exactly if the nodes of the plan are found, and then by these very nodes.
-/
theorem assemble_eq_ok_iff {p : Plan} {q : Query} :
    s.assemble b p r = .ok q ↔ ∃ root children, s.lookup p.root = .ok root ∧
      s.Locates p.steps children ∧ b.run root (p.steps.zip children) r = q := by
  simp only [assemble, bind_eq_ok_iff, foldlM_join_eq_ok_iff]
  constructor
  · rintro ⟨root, hroot, all, ⟨children, hchildren, rfl⟩, h⟩
    exact ⟨root, children, hroot, hchildren, Except.ok.inj h⟩
  · rintro ⟨root, children, hroot, hchildren, h⟩
    exact ⟨root, hroot, _, ⟨children, hchildren, rfl⟩, congrArg Except.ok h⟩

/-- A query is made along the plan of its request. -/
theorem select_eq_ok_iff {q : Query} :
    s.select b r = .ok q ↔ ∃ p root children, s.planFor r = .ok p ∧ s.lookup p.root = .ok root ∧
      s.Locates p.steps children ∧ b.run root (p.steps.zip children) r = q := by
  simp only [select, bind_eq_ok_iff, assemble_eq_ok_iff, exists_and_left]

end Schema

end Builders

/-! ## Statements -/

theorem TableSource.name_ofSource (s : Source) : (ofSource s).name = s.name := by
  rw [ofSource]
  split
  · split <;> rfl
  · rfl

/-- The entries of a FROM clause, the root first. -/
def FromClause.sources (clause : FromClause) : List TableSource :=
  clause.root :: clause.joins.map JoinClause.source

/-- The join of a node as an entry of the FROM clause. -/
def JoinClause.ofStep (st : Step) (e : Entry) : JoinClause :=
  ⟨st.kind, TableSource.ofSource (Entry.source e), st.condition⟩

/-- Joins have the kinds, the names and the conditions of their steps. -/
theorem Schema.Locates.map_ofStep {s : Schema} {steps : List Step} {children : List Entry}
    (h : s.Locates steps children) :
    ((steps.zip children).map fun sc => JoinClause.ofStep sc.1 sc.2).map
        (fun j => (j.kind, j.source.name, j.condition)) =
      steps.map fun step => (step.kind, step.child, step.condition) := by
  induction h with
  | nil => rfl
  | @cons step e _ _ he _ ih =>
    have hname : (TableSource.ofSource (Entry.source e)).name = step.child :=
      (TableSource.name_ofSource _).trans (name_of_node? (lookup_eq_ok_iff.1 he)).2
    rw [List.zip_cons_cons, List.map_cons, List.map_cons, ih, List.map_cons, JoinClause.ofStep,
      hname]

/-- A statement lists the root and then the joined nodes. -/
theorem Builder.run_statement (root : Entry) (joined : List (Step × Entry)) (r : Request) :
    Builder.statement.run root joined r =
      ⟨r.projections, ⟨TableSource.ofSource (Entry.source root),
        joined.map fun sc => JoinClause.ofStep sc.1 sc.2⟩, r.filters, r.groupBy, r.orderBy,
        r.limit⟩ := by
  have hfold (clause : FromClause) :
      joined.foldl (fun start sc => Builder.statement.join start sc.2 sc.1) clause =
        { clause with
          joins := clause.joins ++ joined.map fun sc => JoinClause.ofStep sc.1 sc.2 } := by
    induction joined generalizing clause with
    | nil => simp
    | cons sc joined ih =>
      rw [List.foldl_cons, ih]
      simp [Builder.statement, JoinClause.ofStep]
  rw [Builder.run, hfold]
  rfl

/-- A statement lists the tables of a plan, joined as its steps say, and what a request asks for. -/
structure Statement.Follows (st : Statement) (p : Plan) (r : Request) : Prop where
  parts_eq : st = ⟨r.projections, st.source, r.filters, r.groupBy, r.orderBy, r.limit⟩
  root_eq : st.source.root.name = p.root
  joins_eq : st.source.joins.map (fun j => (j.kind, j.source.name, j.condition)) =
    p.steps.map fun step => (step.kind, step.child, step.condition)
  ofSource : ∀ t ∈ st.source.sources, ∃ source, t = TableSource.ofSource source

/-- Statements of requests follow the plans of these requests. -/
theorem Schema.exists_follows_of_select {s : Schema} {r : Request} {st : Statement}
    (h : s.select Builder.statement r = .ok st) : ∃ p, s.planFor r = .ok p ∧ st.Follows p r := by
  obtain ⟨p, root, children, hp, hroot, hchildren, rfl⟩ := select_eq_ok_iff.1 h
  rw [Builder.run_statement]
  refine ⟨p, hp, rfl, ?_, ?_, ?_⟩
  · exact (TableSource.name_ofSource _).trans (name_of_node? (lookup_eq_ok_iff.1 hroot)).2
  · exact hchildren.map_ofStep
  · intro t ht
    rw [FromClause.sources, List.map_map, List.mem_cons] at ht
    rcases ht with rfl | ht
    · exact ⟨_, rfl⟩
    · obtain ⟨sc, -, rfl⟩ := List.mem_map.1 ht
      exact ⟨_, rfl⟩

namespace Statement.Follows

variable {st : Statement} {p : Plan} {r : Request} (h : st.Follows p r)

include h

/-- The entries stand for the tables of the plan. -/
theorem names_eq : st.source.sources.map TableSource.name = p.tables := by
  have hjoins := congrArg (List.map fun x : JoinKind × String × Condition => x.2.1) h.joins_eq
  rw [List.map_map, List.map_map] at hjoins
  rw [FromClause.sources, List.map_cons, List.map_map, h.root_eq, Plan.tables]
  exact congrArg _ hjoins

/-- Each join is that of the step at its place. -/
theorem exists_step {before after : List JoinClause} {clause : JoinClause}
    (hsplit : st.source.joins = before ++ clause :: after) :
    ∃ earlier step later, p.steps = earlier ++ step :: later ∧
      earlier.map Step.child = before.map (·.source.name) ∧ clause.kind = step.kind ∧
        clause.source.name = step.child ∧ clause.condition = step.condition := by
  have hjoins := h.joins_eq
  rw [hsplit, List.map_append, List.map_cons, eq_comm, List.map_eq_append_iff] at hjoins
  obtain ⟨earlier, rest, hsteps, hearlier, hrest⟩ := hjoins
  obtain ⟨step, later, rfl, hstep, -⟩ := List.map_eq_cons_iff.1 hrest
  simp only [Prod.mk.injEq] at hstep
  refine ⟨earlier, step, later, hsteps, ?_, hstep.1.symm, hstep.2.1.symm, hstep.2.2.symm⟩
  have hnames := congrArg (List.map fun x : JoinKind × String × Condition => x.2.1) hearlier
  rw [List.map_map, List.map_map] at hnames
  exact hnames

end Statement.Follows

end JoinForest
