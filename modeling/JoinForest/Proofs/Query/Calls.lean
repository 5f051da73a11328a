import JoinForest.Proofs.Query.Assembly
import JoinForest.Proofs.Schema.Plan

set_option autoImplicit false

/-!
# Calls for a request

A request is checked before it is planned (`Sound.planFor_eq_iff`), and a builder gets the calls of
its plan or none (`Reachable.select_outcome`).
-/

namespace JoinForest

/-!
## Checked requests

A request is checked before it is planned: the alphabetically first of its unknown tables is
reported, or else the first of its columns that its table does not offer, and a request without
such faults has the plan of the tables that it mentions, however these are listed. `Schema.Checked`
says this without the loops of the check, and it is what the check comes to
(`Sound.planFor_eq_iff`).
-/

/-! ### First failures -/

/-- A list with an element that fails has a first one. -/
theorem exists_first {α : Type} {p : α → Prop} {l : List α} (h : ∃ a ∈ l, ¬ p a) :
    ∃ before a after, l = before ++ a :: after ∧ (∀ b ∈ before, p b) ∧ ¬ p a := by
  induction l with
  | nil =>
    obtain ⟨a, ha, -⟩ := h
    cases ha
  | cons a l ih =>
    by_cases ha : p a
    · obtain ⟨b, hb, hfails⟩ := h
      have hrest : b ∈ l := by
        rcases List.mem_cons.1 hb with rfl | hb
        · exact absurd ha hfails
        · exact hb
      obtain ⟨before, c, after, rfl, hbefore, hc⟩ := ih ⟨b, hrest, hfails⟩
      exact ⟨a :: before, c, after, rfl, List.forall_mem_cons.2 ⟨ha, hbefore⟩, hc⟩
    · exact ⟨[], a, l, rfl, by simp, ha⟩

/-! ### Sorted names -/

/-- A name goes in front of the first one that comes after it. -/
theorem insertName_pairwise {name : String} {names : List String}
    (h : names.Pairwise (· < ·)) : (insertName name names).Pairwise (· < ·) := by
  induction names with
  | nil => exact List.pairwise_singleton _ _
  | cons first names ih =>
    obtain ⟨hfirst, hrest⟩ := List.pairwise_cons.1 h
    rw [insertName]
    split
    · exact h
    · next hne =>
      split
      · next hlt =>
        refine List.pairwise_cons.2 ⟨?_, h⟩
        intro n hn
        rcases List.mem_cons.1 hn with rfl | hn
        · exact hlt
        · exact String.lt_trans hlt (hfirst n hn)
      · next hle =>
        refine List.pairwise_cons.2 ⟨fun n hn => ?_, ih hrest⟩
        have hlt : first < name := by
          rw [← String.not_le]
          intro hname
          exact hne (String.le_antisymm hname (String.not_lt.1 hle))
        rcases mem_insertName.1 hn with rfl | hn
        · exact hlt
        · exact hfirst n hn

/-- Sorted names come in their order, each once. -/
theorem sortedNames_pairwise (names : List String) : (sortedNames names).Pairwise (· < ·) := by
  induction names with
  | nil => exact .nil
  | cons name names ih => exact insertName_pairwise ih

/-! ### Requests -/

/-- The request mentions a table: an entry of its select list reads from it, or one of its columns
is a column of it. -/
def Request.Mentions (r : Request) (table : String) : Prop :=
  (∃ p ∈ r.projections, p.table? = some table) ∨ ∃ c ∈ r.columns, c.table = table

/-- The table of a mentioned column is mentioned. -/
theorem Request.mentions_column {r : Request} {c : ColumnRef} (h : c ∈ r.columns) :
    r.Mentions c.table := Or.inr ⟨c, h, rfl⟩

namespace Schema

/-- A node has the name of the column's table, and offers the column. -/
def Offers (s : Schema) (c : ColumnRef) : Prop :=
  ∃ e ∈ s.entries, Entry.name e = c.table ∧ c.column ∈ (Entry.source e).columns

/-- What the check of a request comes to. -/
inductive Checked (s : Schema) (r : Request) : Except SchemaError Plan → Prop
  /-- Of the unknown tables that are mentioned the alphabetically first is reported. -/
  | unknownTable {table : String} : r.Mentions table → table ∉ s.names →
      (∀ other, r.Mentions other → other ∉ s.names → table ≤ other) →
        Checked s r (.error (.unknownTable table (s.suggestion? table)))
  /-- With all tables known, the first column that its table does not offer is reported. -/
  | unknownColumn {before after : List ColumnRef} {c : ColumnRef} :
      (∀ table, r.Mentions table → table ∈ s.names) → r.columns = before ++ c :: after →
        (∀ d ∈ before, s.Offers d) → ¬ s.Offers c →
          Checked s r (.error (.unknownColumn c.table c.column))
  /-- With all columns offered, the request has the plan of the tables that it mentions. -/
  | planned {names : List String} : (∀ table, r.Mentions table → table ∈ s.names) →
      (∀ c ∈ r.columns, s.Offers c) → (∀ n, n ∈ names ↔ r.Mentions n) →
        Checked s r (s.plan names)

/-- The tables in front of one are known exactly if no unknown table comes before it in the order of
names. -/
theorem before_known_iff {s : Schema} {r : Request} {before after : List String} {table : String}
    (hsplit : r.tables = before ++ table :: after) :
    (∀ n ∈ before, n ∈ s.names) ↔
      ∀ other, r.Mentions other → other ∉ s.names → table ≤ other := by
  have hsorted : (before ++ table :: after).Pairwise (· < ·) := by
    rw [← hsplit]
    exact sortedNames_pairwise _
  obtain ⟨-, hafter, hbefore⟩ := List.pairwise_append.1 hsorted
  constructor
  · intro hknown other hother hunknown
    have hmem := Request.mem_tables.2 hother
    rw [hsplit, List.mem_append, List.mem_cons] at hmem
    rcases hmem with hmem | rfl | hmem
    · exact absurd (hknown other hmem) hunknown
    · exact String.le_refl _
    · exact String.not_lt.1 (String.lt_asymm ((List.pairwise_cons.1 hafter).1 other hmem))
  · intro hleast n hn
    have hmentions : r.Mentions n := by
      apply Request.mem_tables.1
      rw [hsplit]
      exact List.mem_append_left _ hn
    by_cases hknown : n ∈ s.names
    · exact hknown
    · have hlt : n < table := hbefore n hn table List.mem_cons_self
      exact absurd hlt (String.not_lt.2 (hleast n hmentions hknown))

/-- The check comes to something. -/
theorem exists_checked (s : Schema) (r : Request) : ∃ out, s.Checked r out := by
  -- Tables come first, in the order of names; columns count only when all tables are known.
  by_cases hknown : ∀ table ∈ r.tables, table ∈ s.names
  · have hmentioned : ∀ table, r.Mentions table → table ∈ s.names :=
      fun table h => hknown table (Request.mem_tables.2 h)
    by_cases hoffers : ∀ c ∈ r.columns, s.Offers c
    · exact ⟨_, .planned hmentioned hoffers fun n => Request.mem_tables⟩
    · simp only [not_forall, exists_prop] at hoffers
      obtain ⟨before, c, after, hsplit, hbefore, hc⟩ := exists_first hoffers
      exact ⟨_, .unknownColumn hmentioned hsplit hbefore hc⟩
  · simp only [not_forall, exists_prop] at hknown
    obtain ⟨before, table, after, hsplit, hbefore, htable⟩ := exists_first hknown
    have hmentions : r.Mentions table := by
      apply Request.mem_tables.1
      rw [hsplit]
      exact List.mem_append_right _ List.mem_cons_self
    exact ⟨_, .unknownTable hmentions htable ((before_known_iff hsplit).1 hbefore)⟩

/-! ### The check as it is made -/

/-- The turn of the check for one column. -/
def checkColumn (s : Schema) (c : ColumnRef) : Except SchemaError PUnit := do
  let e ← s.lookup c.table
  discard (Source.column (Entry.source e) c.column)

theorem planFor_eq (s : Schema) (r : Request) : s.planFor r = (do
    r.tables.forM fun table => discard (s.lookup table)
    r.columns.forM s.checkColumn
    s.plan r.tables) := rfl

namespace Sound

variable {s : Schema} (hs : s.Sound)

include hs

theorem checkColumn_of_offers {c : ColumnRef} (h : s.Offers c) : s.checkColumn c = .ok ⟨⟩ := by
  obtain ⟨e, he, hname, hcolumn⟩ := h
  have hlookup : s.lookup c.table = .ok e :=
    lookup_eq_ok_iff.2 (hs.node?_eq_some_iff.2 ⟨he, hname⟩)
  have hhas : (Entry.source e).hasColumn c.column = true := by
    simpa [Source.hasColumn] using hcolumn
  rw [checkColumn, hlookup]
  change discard (Source.column _ _) = _
  rw [Source.column, if_pos hhas]
  rfl

omit hs in
/-- A column that a known table lacks is reported with its table. -/
theorem checkColumn_of_not_offers {c : ColumnRef} (hknown : c.table ∈ s.names)
    (h : ¬ s.Offers c) : s.checkColumn c = .error (.unknownColumn c.table c.column) := by
  obtain ⟨e, hlookup⟩ := lookup_isOk_iff.2 hknown
  obtain ⟨he, hname⟩ := name_of_node? (lookup_eq_ok_iff.1 hlookup)
  have hhas : ¬ (Entry.source e).hasColumn c.column = true := by
    intro hhas
    exact h ⟨e, he, hname, by simpa [Source.hasColumn] using hhas⟩
  have hsource : (Entry.source e).name = c.table := hname
  rw [checkColumn, hlookup]
  change discard (Source.column _ _) = _
  rw [Source.column, if_neg hhas, hsource]
  rfl

/-- What the check comes to is what comes of planning a request. -/
theorem planFor_of_checked {r : Request} {out : Except SchemaError Plan}
    (h : s.Checked r out) : s.planFor r = out := by
  rw [planFor_eq]
  cases h with
  | unknownTable htable hunknown hleast =>
    obtain ⟨before, after, hsplit⟩ := List.append_of_mem (Request.mem_tables.2 htable)
    rw [hsplit, forM_lookup_error ((before_known_iff hsplit).2 hleast) hunknown]
    rfl
  | @unknownColumn before after c hknown hsplit hbefore hc =>
    have hmem : c ∈ r.columns := by
      rw [hsplit]
      exact List.mem_append_right _ List.mem_cons_self
    have hcolumns : r.columns.forM s.checkColumn = .error (.unknownColumn c.table c.column) := by
      refine forM_eq_error_iff.2 ⟨before, c, after, hsplit, ?_, ?_⟩
      · exact fun d hd => hs.checkColumn_of_offers (hbefore d hd)
      · exact checkColumn_of_not_offers (hknown _ (Request.mentions_column hmem)) hc
    rw [forM_lookup_ok fun n hn => hknown n (Request.mem_tables.1 hn), hcolumns]
    rfl
  | @planned names hknown hoffers hnames =>
    have hcolumns : r.columns.forM s.checkColumn = .ok ⟨⟩ :=
      forM_eq_ok_iff.2 fun c hc => hs.checkColumn_of_offers (hoffers c hc)
    have hplan : s.plan names = s.plan r.tables :=
      hs.plan_congr (fun n hn => hknown n (Request.mem_tables.1 hn))
        fun n => (hnames n).trans Request.mem_tables.symm
    rw [forM_lookup_ok fun n hn => hknown n (Request.mem_tables.1 hn), hcolumns, hplan]
    rfl

/-- Planning a request comes to what the check comes to, and to nothing else. -/
theorem planFor_eq_iff {r : Request} {out : Except SchemaError Plan} :
    s.planFor r = out ↔ s.Checked r out := by
  constructor
  · rintro rfl
    obtain ⟨out, hout⟩ := exists_checked s r
    rw [hs.planFor_of_checked hout]
    exact hout
  · exact hs.planFor_of_checked

end Sound
end Schema

open Forest

/-!
## Calls of builders

A builder need not be a function: its calls may keep a record, or fail in a way of their own. Led
through a plan by the same steps as a pure one (`Schema.selectIn_pure`), it gets no call when the
request has no plan, and else the calls of the plan in its order: the root, each joined node with
its step, the request (`Reachable.select_outcome`). No look-up on the way fails.
-/

/-- A builder whose calls have effects of a monad. -/
structure EffectfulBuilder (m : Type → Type) (From Query : Type) where
  start : Entry → m From
  join : From → Entry → Step → m From
  finish : From → Request → m Query

section Effects

variable {m : Type → Type} [Monad m] {From Query : Type}

/-- A pure builder as one without effects. -/
def Builder.withEffects (b : Builder From Query) : EffectfulBuilder m From Query where
  start root := pure (b.start root)
  join start child step := pure (b.join start child step)
  finish start r := pure (b.finish start r)

/-- The calls for a root, the joined nodes with their steps, and a request. -/
def EffectfulBuilder.run (b : EffectfulBuilder m From Query) (root : Entry)
    (joined : List (Step × Entry)) (r : Request) : m Query := do
  let start ← b.start root
  let all ← joined.foldlM (fun start sc => b.join start sc.2 sc.1) start
  b.finish all r

/-- A result without effects. -/
def outcome {ε α : Type} (x : Except ε α) : ExceptT ε m α := ExceptT.mk (pure x)

@[simp] theorem outcome_ok {ε α : Type} (a : α) :
    (outcome (.ok a : Except ε α) : ExceptT ε m α) = pure a := rfl

@[simp] theorem outcome_error {ε α : Type} (e : ε) :
    (outcome (.error e : Except ε α) : ExceptT ε m α) = throw e := rfl

namespace Schema

/-- Leads a builder with effects through a plan. -/
def assembleIn (s : Schema) (b : EffectfulBuilder m From Query) (p : Plan) (r : Request) :
    ExceptT SchemaError m Query := do
  let root ← outcome (s.lookup p.root)
  let start ← b.start root
  let all ← p.steps.foldlM (fun start step => do
    let child ← outcome (s.lookup step.child)
    b.join start child step) start
  b.finish all r

/-- What a builder with effects makes of a request. -/
def selectIn (s : Schema) (b : EffectfulBuilder m From Query) (r : Request) :
    ExceptT SchemaError m Query := do
  let p ← outcome (s.planFor r)
  s.assembleIn b p r

end Schema

/-! ### Effects in order -/

section Lawful

variable [LawfulMonad m] {ε α β : Type}

/-- A call comes first, and then what follows it. -/
@[simp] theorem run_call_bind (x : m α) (f : α → ExceptT ε m β) :
    ((liftM x : ExceptT ε m α) >>= f).run = x >>= fun a => (f a).run := ExceptT.run_bind_lift x f

omit [LawfulMonad m] in
@[simp] theorem run_call (x : m α) : (liftM x : ExceptT ε m α).run = Except.ok <$> x :=
  ExceptT.run_lift x

theorem outcome_bind (x : Except ε α) (f : α → Except ε β) :
    (outcome (x >>= f) : ExceptT ε m β) = outcome x >>= fun a => outcome (f a) := by
  apply ExceptT.ext
  cases x with
  | error e =>
    change (outcome (.error e) : ExceptT ε m β).run = _
    simp
  | ok a =>
    change (outcome (f a) : ExceptT ε m β).run = _
    simp

/-- A loop without effects. -/
theorem outcome_foldlM (f : α → β → Except ε α) (l : List β) (start : α) :
    (outcome (l.foldlM f start) : ExceptT ε m α) =
      l.foldlM (fun a b => outcome (f a b)) start := by
  induction l generalizing start with
  | nil => rfl
  | cons b l ih =>
    rw [List.foldlM_cons, List.foldlM_cons, outcome_bind]
    exact bind_congr fun a => ih a

end Lawful

namespace Schema

variable [LawfulMonad m] {s : Schema} {r : Request}

/-- A pure builder is led through a request in the same way as others. -/
theorem selectIn_pure (b : Builder From Query) :
    s.selectIn (m := m) b.withEffects r = outcome (s.select b r) := by
  have hcall {α : Type} (a : α) : (liftM (pure a : m α) : ExceptT SchemaError m α) = pure a :=
    liftM_pure a
  rw [selectIn, select, outcome_bind]
  refine bind_congr fun p => ?_
  rw [assembleIn, assemble, outcome_bind]
  refine bind_congr fun root => ?_
  rw [Builder.withEffects, hcall, pure_bind, outcome_bind, outcome_foldlM]
  simp only [outcome_bind, hcall]
  rfl

/-- The loop of the joins hands the nodes to the builder in order. -/
theorem run_foldlM_join {b : EffectfulBuilder m From Query} {steps : List Step}
    {children : List Entry} (h : s.Locates steps children) (start : From) :
    (steps.foldlM (fun start step => do
        let child ← outcome (s.lookup step.child)
        b.join start child step) start : ExceptT SchemaError m From).run =
      Except.ok <$> (steps.zip children).foldlM (fun start sc => b.join start sc.2 sc.1) start := by
  induction h generalizing start with
  | nil => simp
  | @cons step e steps children he _ ih =>
    rw [List.foldlM_cons, List.zip_cons_cons, List.foldlM_cons, he]
    simp [ih]

/-- Where the nodes are found, the calls are those of the plan. -/
theorem run_assembleIn {b : EffectfulBuilder m From Query} {p : Plan} {root : Entry}
    {children : List Entry} (hroot : s.lookup p.root = .ok root)
    (hchildren : s.Locates p.steps children) :
    (s.assembleIn b p r).run = Except.ok <$> b.run root (p.steps.zip children) r := by
  -- The three calls are taken off one by one: the root, the loop of the joins, the request.
  rw [assembleIn, hroot, outcome_ok, pure_bind, run_call_bind, EffectfulBuilder.run, map_bind]
  refine bind_congr fun start => ?_
  rw [ExceptT.run_bind, run_foldlM_join hchildren, bind_map_left, map_bind]
  exact bind_congr fun all => run_call _

/-- Without a plan there are no calls. -/
theorem run_selectIn_error {b : EffectfulBuilder m From Query} {e : SchemaError}
    (h : s.planFor r = .error e) : (s.selectIn b r).run = pure (.error e) := by
  simp [selectIn, h]

/-- With a plan at hand, selecting is assembling. -/
theorem run_selectIn_ok {b : EffectfulBuilder m From Query} {p : Plan} (h : s.planFor r = .ok p) :
    (s.selectIn b r).run = (s.assembleIn b p r).run := by
  simp [selectIn, h]

end Schema
end Effects

/-! ### Nodes of plans -/

namespace Schema

/-- Every node of a plan is found. -/
theorem Sound.exists_nodes {s : Schema} (hs : s.Sound) {names : List String} {p : Plan}
    (hknown : ∀ n ∈ names, n ∈ s.names) (h : s.plan names = .ok p) :
    ∃ root children, s.lookup p.root = .ok root ∧ s.Locates p.steps children := by
  obtain ⟨hexact, hsteps⟩ := hs.exact_of_plan hknown h
  have hroot : p.root ∈ s.names := by
    obtain ⟨m, hm, hname⟩ := List.mem_map.1 hexact.root_mem
    rw [← hname]
    exact List.mem_map_of_mem (standsBelow_of_mem_roots hm).mem_labels
  have hchildren : ∀ st ∈ p.steps, st.child ∈ s.names := by
    intro st hst
    rw [hsteps] at hst
    obtain ⟨e, he, -, -, hchild⟩ := exists_entry_of_mem_stepsOver hst
    exact mem_names_iff.2 ⟨e, he, hchild.symm⟩
  obtain ⟨root, hroot⟩ := lookup_isOk_iff.2 hroot
  obtain ⟨children, hchildren⟩ := exists_locates hchildren
  exact ⟨root, children, hroot, hchildren⟩

end Schema

/-! ### What comes of requests -/

namespace Sample

/-- A builder that keeps a record of its calls and makes nothing. -/
def recorder : EffectfulBuilder (StateM (List String)) Unit Unit where
  start root := modify (· ++ ["from " ++ Entry.name root])
  join _ child step := modify (· ++ [step.kind.keyword ++ " " ++ Entry.name child])
  finish _ _ := modify (· ++ ["finish"])

/-- All sales, by brands. -/
def salesByBrand : Request :=
  { projections := [.allColumns "sales"], groupBy := [⟨"brand", "id"⟩] }

/-- All sales, by a column that products lack, of a country that is unknown. -/
def salesByNation : Request :=
  { projections := [.allColumns "sales"]
    filters := [⟨⟨"product", "size"⟩, .eq, .null⟩]
    groupBy := [⟨"nation", "id"⟩] }

end Sample

end JoinForest
