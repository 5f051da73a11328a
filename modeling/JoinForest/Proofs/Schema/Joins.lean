import JoinForest.Proofs.Join.Inference
import JoinForest.Proofs.Schema.Construction
import JoinForest.Proofs.Schema.Detachment
import JoinForest.Proofs.Schema.Reachable

set_option autoImplicit false

/-!
# Joins of schemas

Every join of a reachable schema was made from the sources that it joins (`Reachable.joinsMade`),
and one with a derived relation has to be given explicitly unless a key names it
(`Source.derived_join_iff`).
-/

namespace JoinForest

open Forest

/-!
## Where joins come from

Every join of a reachable schema was made from the sources that it joins, by an override or by
foreign keys (`Reachable.joinsMade`); the constructions move joins about and change none. A
condition by columns therefore equates columns of the parent with columns of the child
(`Condition.Relates`), and so do the steps of plans (`Reachable.relates_of_mem_stepsOver`).
-/

/-! ### Conditions between two sources -/

/-- A condition by columns equates at least one column of the first source with one of the second,
and no columns of others. -/
def Condition.Relates (parent child : String) : Condition → Prop
  | .columns pairs => pairs ≠ [] ∧ ∀ pair ∈ pairs, pair.1.table = parent ∧ pair.2.table = child
  | .expression _ => True

namespace Source

variable {parent child : Source}

/-- Foreign keys without pairs are not counted. -/
theorem ne_nil_of_mem_keysTowards {s target : Source} {pairs : List (String × String)}
    (h : pairs ∈ s.keysTowards target) : pairs ≠ [] := by
  obtain ⟨-, hne⟩ := List.mem_filter.1 h
  simpa using hne

/-- A candidate is made of a key of the parent or of one of the child, which give their columns on
different sides. -/
theorem exists_key_of_mem_joinCandidates {reverse : Bool} {pairs : List (ColumnRef × ColumnRef)}
    (h : pairs ∈ parent.joinCandidates child reverse) :
    (∃ key ∈ parent.keysTowards child,
        key.map (fun ct => (⟨parent.name, ct.1⟩, ⟨child.name, ct.2⟩)) = pairs) ∨
      ∃ key ∈ child.keysTowards parent,
        key.map (fun ct => (⟨parent.name, ct.2⟩, ⟨child.name, ct.1⟩)) = pairs := by
  rw [joinCandidates] at h
  split at h
  · rcases List.mem_append.1 h with h | h
    · exact Or.inl (List.mem_map.1 h)
    · exact Or.inr (List.mem_map.1 h)
  · exact Or.inl (List.mem_map.1 h)

/-- What foreign keys offer equates columns of the two sources. -/
theorem relates_of_mem_joinCandidates {reverse : Bool} {pairs : List (ColumnRef × ColumnRef)}
    (h : pairs ∈ parent.joinCandidates child reverse) :
    (Condition.columns pairs).Relates parent.name child.name := by
  rcases exists_key_of_mem_joinCandidates h with ⟨key, hkey, rfl⟩ | ⟨key, hkey, rfl⟩
  all_goals
    have hne := ne_nil_of_mem_keysTowards hkey
    refine ⟨by simpa using hne, ?_⟩
    intro pair hpair
    obtain ⟨_, -, rfl⟩ := List.mem_map.1 hpair
    exact ⟨rfl, rfl⟩

/-- What is inferred is a candidate. -/
theorem exists_candidate_of_inferCondition {reverse : Bool} {condition : Condition}
    (h : parent.inferCondition child reverse = .ok condition) :
    ∃ pairs ∈ parent.joinCandidates child reverse, .columns pairs = condition := by
  rw [inferCondition] at h
  split at h
  · cases h
  · next pairs hcandidates =>
    exact ⟨pairs, by rw [hcandidates]; exact List.mem_singleton.2 rfl, Except.ok.inj h⟩
  · cases h

/-- An inferred condition compares columns of the two relations. -/
theorem relates_of_inferCondition {reverse : Bool} {condition : Condition}
    (h : parent.inferCondition child reverse = .ok condition) :
    condition.Relates parent.name child.name := by
  obtain ⟨pairs, hpairs, rfl⟩ := exists_candidate_of_inferCondition h
  exact relates_of_mem_joinCandidates hpairs

theorem table_of_column {s : Source} {name : String} {c : ColumnRef} (h : s.column name = .ok c) :
    c.table = s.name := by
  rw [column] at h
  split at h
  · obtain rfl := Except.ok.inj h
    rfl
  · cases h

/-- As many equalities as were asked for, each between a column of the parent and one of the
child. -/
theorem columnPairs_eq_ok {asked : List (String × String)} {pairs : List (ColumnRef × ColumnRef)}
    (h : parent.columnPairs child asked = .ok pairs) :
    pairs.length = asked.length ∧
      ∀ pair ∈ pairs, pair.1.table = parent.name ∧ pair.2.table = child.name := by
  induction asked generalizing pairs with
  | nil =>
    obtain rfl : [] = pairs := Except.ok.inj h
    simp
  | cons names asked ih =>
    simp only [columnPairs, bind_eq_ok_iff] at h
    obtain ⟨left, hleft, right, hright, others, hothers, h⟩ := h
    obtain rfl : (left, right) :: others = pairs := Except.ok.inj h
    obtain ⟨hlength, hall⟩ := ih hothers
    refine ⟨by simp [hlength], ?_⟩
    rw [List.forall_mem_cons]
    exact ⟨⟨table_of_column hleft, table_of_column hright⟩, hall⟩

theorem relates_of_overrideCondition {reverse : Bool} {asked : OverrideCondition}
    {condition : Condition} (h : parent.overrideCondition child reverse asked = .ok condition) :
    condition.Relates parent.name child.name := by
  cases asked with
  | inferred => exact relates_of_inferCondition h
  | columns asked =>
    cases asked with
    | nil => cases h
    | cons names asked =>
      obtain ⟨pairs, hpairs, rfl⟩ := map_eq_ok_iff.1 h
      obtain ⟨hlength, hall⟩ := columnPairs_eq_ok hpairs
      refine ⟨?_, hall⟩
      rintro rfl
      simp at hlength
  | expression text =>
    obtain rfl : Condition.expression text = condition := Except.ok.inj h
    exact trivial

/-- A join that could be made equates columns of its two sources. -/
theorem relates_of_joinWith {override : Option Override} {settings : BuildSettings} {join : Join}
    (h : parent.joinWith child override settings = .ok join) :
    join.condition.Relates parent.name child.name := by
  cases override with
  | none =>
    obtain ⟨condition, hcondition, h⟩ := bind_eq_ok_iff.1 h
    obtain rfl := Except.ok.inj h
    exact relates_of_inferCondition hcondition
  | some o =>
    obtain ⟨condition, hcondition, h⟩ := bind_eq_ok_iff.1 h
    obtain rfl := Except.ok.inj h
    exact relates_of_overrideCondition hcondition

end Source

/-! ### Joins of reachable schemas -/

/-- The join of a member below another one was made from the sources of the two. -/
def Member.JoinMade (parent : Option Member) (m : Member) : Prop :=
  ∀ p join, parent = some p → m.join = some join →
    ∃ override settings, p.source.joinWith m.source override settings = .ok join

/-- Only the source of the parent is looked at. -/
theorem Member.joinMade_congr {parent parent' : Member} (h : parent.source = parent'.source)
    (m : Member) : m.JoinMade (some parent) ↔ m.JoinMade (some parent') := by
  simp only [JoinMade, Option.some.injEq, forall_comm (α := Member), forall_eq', h]

theorem Member.joinMade_none (m : Member) : m.JoinMade none := by
  intro p join hp
  cases hp

namespace Schema

/-- Every join of a schema was made from the sources that it joins. -/
def JoinsMade (s : Schema) : Prop := ∀ pm ∈ s.forest.withParents none, pm.2.JoinMade pm.1

/-- Building makes the joins of the pairs and no others. -/
theorem joinsMade_of_build {topology : Topology} {overrides : Overrides}
    {settings : BuildSettings} {s : Schema} (h : build topology overrides settings = .ok s) :
    s.JoinsMade := by
  obtain ⟨-, -, -, hjoined⟩ := build_eq_ok_iff.1 h
  rintro ⟨parent, m⟩ hpm p join rfl hjoin
  obtain ⟨made, hmade, hsome⟩ := map_eq_ok_iff.1 (hjoined _ hpm)
  obtain rfl : made = join := Option.some.inj (hsome.trans hjoin)
  exact ⟨_, _, hmade⟩

/-- In a tree by itself the joins are those below its top node. -/
theorem JoinsMade.of_tree {s : Schema} {top : Member} {below : Forest Member}
    {join : Option Join} (hforest : s.forest = .tree { top with join := join } below) :
    s.JoinsMade ↔ ∀ pm ∈ below.withParents (some top), pm.2.JoinMade pm.1 := by
  have hbelow := forall_withParents_congr (P := fun p m => Member.JoinMade p m) (some top)
    (some { top with join := join }) (Member.joinMade_congr rfl) below
  rw [hbelow, JoinsMade, hforest, Forest.tree, withParents, List.forall_mem_cons, withParents,
    List.append_nil]
  exact and_iff_right (Member.joinMade_none _)

/-- Detaching takes a join away and makes none. -/
theorem JoinsMade.detach {g t : Schema} (hg : g.JoinsMade) {top : Member} {below : Forest Member}
    (h : Detached g t top below) : t.JoinsMade := by
  obtain ⟨before, above, after, heq⟩ := h.treeIn.withParents_eq none
  refine (JoinsMade.of_tree h.forest_eq).2 ?_
  intro pm hpm
  refine hg pm ?_
  rw [heq]
  exact List.mem_append_right _ (List.mem_cons_of_mem _ (List.mem_append_left _ hpm))

/-- Composing makes one join, that of the attached root. -/
theorem JoinsMade.compose {g h k : Schema} (hg : g.JoinsMade) (hh : h.JoinsMade)
    {host top : Member} {below : Forest Member} {override : Option Override}
    {settings : BuildSettings} {join : Join} (hforest : h.forest = .tree top below)
    (hjoin : host.source.joinWith top.source override settings = .ok join)
    (hgraft : GraftedAt (.tree { top with join := some join } below) host g.forest k.forest) :
    k.JoinsMade := by
  have hroot : h.forest = .tree { top with join := top.join } below := hforest
  have hbelow := (JoinsMade.of_tree hroot).1 hh
  refine (hgraft.forall_withParents_iff none).2 ⟨hg, ?_⟩
  rw [Forest.tree, withParents, withParents, List.append_nil, List.forall_mem_cons]
  constructor
  · intro p made hp hmade
    obtain rfl := Option.some.inj hp
    obtain rfl := Option.some.inj hmade
    exact ⟨override, settings, hjoin⟩
  · exact (forall_withParents_congr (P := fun p m => Member.JoinMade p m) (some top)
      (some { top with join := some join }) (Member.joinMade_congr rfl) below).1 hbelow

theorem JoinsMade.merge {g h k : Schema} (hg : g.JoinsMade) (hh : h.JoinsMade)
    (hforest : k.forest = g.forest ++ h.forest) : k.JoinsMade := by
  rw [JoinsMade, hforest, withParents_append, List.forall_mem_append]
  exact ⟨hg, hh⟩

end Schema

/-- Every join that can be reached was made from the sources that it joins. -/
theorem Reachable.joinsMade {s : Schema} (h : Reachable s) : s.JoinsMade := by
  induction h with
  | build hs => exact Schema.joinsMade_of_build hs
  | parse hs =>
    obtain ⟨_, _, hs⟩ := Catalog.build_of_parseSchema hs
    exact Schema.joinsMade_of_build hs
  | load hs =>
    obtain ⟨_, _, hs⟩ := Catalog.build_of_loadSchema hs
    exact Schema.joinsMade_of_build hs
  | detach hg ht ih =>
    obtain ⟨_, _, -, hdetached⟩ := (Schema.detach_eq_ok_iff hg.sound).1 ht
    exact ih.detach hdetached
  | compose hg hh hk ihg ihh =>
    obtain ⟨_, _, _, _, -, -, hforest, hjoin, hgraft⟩ :=
      (Schema.compose_eq_ok_iff hg.sound hh.sound).1 hk
    exact ihg.compose ihh hforest hjoin hgraft
  | merge hg hh hk ihg ihh =>
    exact ihg.merge ihh ((Schema.merge_eq_ok_iff hg.sound hh.sound).1 hk).2

/-- The steps of a plan equate columns of what is joined onto with columns of what is joined. -/
theorem Reachable.relates_of_mem_stepsOver {s : Schema} (h : Reachable s) {test : String → Bool}
    {st : Step} (hst : st ∈ s.stepsOver test) : st.condition.Relates st.parent st.child := by
  rw [Schema.stepsOver_eq] at hst
  obtain ⟨⟨parent, m⟩, hpm, hst⟩ := List.mem_filterMap.1 hst
  obtain ⟨-, hst⟩ := Option.ite_none_right_eq_some.1 hst
  simp only [Member.stepOnto?, Option.bind_eq_some_iff, Option.map_eq_some_iff] at hst
  obtain ⟨p, hp, join, hjoin, rfl⟩ := hst
  obtain ⟨override, settings, hmade⟩ := h.joinsMade _ hpm p join hp hjoin
  exact Source.relates_of_joinWith hmade

/-!
## Joins with derived relations

A derived relation has no foreign keys and no primary key, so keys lead to it only by its exposed
name and with columns of their own choice (`Source.IsDerived.leadsTo_iff`). Without such a key every
join with it has to be given explicitly (`Source.derived_join_iff`); with one it is inferred like
any other (`Sample.derived_inferred`).
-/

/-! ### Keys towards derived relations -/

/-- The source stands for the text of a query. -/
def Source.IsDerived (s : Source) : Prop := ∃ sql, s.relation = .derived sql

/-- The key refers to a relation of this name and lists as many columns of it, at least one, as it
has itself. -/
def ForeignKey.ListsColumnsOf (key : ForeignKey) (name : String) : Prop :=
  key.references = name ∧ key.columns ≠ [] ∧ key.referencedColumns.length = key.columns.length

/-- The override says what the condition is, and not only the kind. -/
def Override.IsExplicit (o : Override) : Prop := o.condition ≠ .inferred

namespace Source

/-- A foreign key of one side takes the exposed name of a derived relation on the other for that of
a relation of the database. Keys of the child count as they do for any join. -/
def KeyedByName (parent child : Source) (reverse : Bool) : Prop :=
  (child.IsDerived ∧ ∃ key ∈ parent.foreignKeys, key.ListsColumnsOf child.name) ∨
    reverse = true ∧ parent.IsDerived ∧ parent.name ≠ child.relationName ∧
      ∃ key ∈ child.foreignKeys, key.ListsColumnsOf parent.name

namespace IsDerived

variable {s : Source} (h : s.IsDerived)

include h

theorem exists_subquery : ∃ q, s = .subquery q := by
  obtain ⟨sql, hsql⟩ := h
  cases s with
  | table t => cases hsql
  | aliased n t => cases hsql
  | subquery q => exact ⟨q, rfl⟩

theorem foreignKeys_eq_nil : s.foreignKeys = [] := by
  obtain ⟨q, rfl⟩ := h.exists_subquery
  rfl

theorem primaryKey_eq_nil : s.primaryKey = [] := by
  obtain ⟨q, rfl⟩ := h.exists_subquery
  rfl

theorem relationName_eq : s.relationName = s.name := by
  obtain ⟨q, rfl⟩ := h.exists_subquery
  rfl

/-- There is no primary key to fall back on, so the key has to list its targets. -/
theorem leadsTo_iff (key : ForeignKey) : key.LeadsTo s ↔ key.ListsColumnsOf s.name := by
  have htargets : key.targets s = key.referencedColumns := by
    rw [ForeignKey.targets, h.primaryKey_eq_nil]
    split
    · next hempty => exact (List.isEmpty_iff.1 hempty).symm
    · rfl
  constructor
  · rintro ⟨href, hcolumns, hlength⟩
    rw [htargets] at hlength
    exact ⟨href.trans h.relationName_eq, hcolumns, hlength.symm⟩
  · rintro ⟨href, hcolumns, hlength⟩
    exact ⟨href.trans h.relationName_eq.symm, hcolumns, by rw [htargets, hlength]⟩

end IsDerived

variable {parent child : Source}

/-- With a derived relation on one side, the keys that count are those that take its name for that
of a relation. -/
theorem joinCandidates_derived_eq_nil_iff (hderived : parent.IsDerived ∨ child.IsDerived)
    (reverse : Bool) :
    parent.joinCandidates child reverse = [] ↔ ¬ parent.KeyedByName child reverse := by
  have hforward : (∃ key ∈ parent.foreignKeys, key.LeadsTo child) ↔
      child.IsDerived ∧ ∃ key ∈ parent.foreignKeys, key.ListsColumnsOf child.name := by
    by_cases hchild : child.IsDerived
    · simp only [hchild.leadsTo_iff, hchild, true_and]
    · simp [hchild, (hderived.resolve_right hchild).foreignKeys_eq_nil]
  have hbackward : (parent.relationName ≠ child.relationName ∧
        ∃ key ∈ child.foreignKeys, key.LeadsTo parent) ↔
      parent.IsDerived ∧ parent.name ≠ child.relationName ∧
        ∃ key ∈ child.foreignKeys, key.ListsColumnsOf parent.name := by
    by_cases hparent : parent.IsDerived
    · simp only [hparent.leadsTo_iff, hparent.relationName_eq, hparent, true_and]
    · simp [hparent, (hderived.resolve_left hparent).foreignKeys_eq_nil]
  rw [joinCandidates_eq_nil_iff, hforward, hbackward]
  rfl

/-! ### Joins that are not explicit -/

/-- Without an explicit condition the join fails as the inference of its condition does. -/
theorem joinWith_eq_error_iff {override : Option Override} {settings : BuildSettings}
    {e : SchemaError} (hinferred : ∀ o, override = some o → ¬ o.IsExplicit) :
    parent.joinWith child override settings = .error e ↔
      parent.inferCondition child settings.inferReverseForeignKeys = .error e := by
  have hcondition (f : Condition → Join) :
      (do let condition ← parent.inferCondition child settings.inferReverseForeignKeys
          return f condition : Except SchemaError Join) = .error e ↔
        parent.inferCondition child settings.inferReverseForeignKeys = .error e := by
    cases parent.inferCondition child settings.inferReverseForeignKeys <;>
      simp [bind, Except.bind, pure, Except.pure]
  cases override with
  | none => exact hcondition _
  | some o =>
    obtain ⟨condition, kind⟩ := o
    obtain rfl : condition = .inferred := not_not.1 (hinferred _ rfl)
    exact hcondition _

/-- With a derived relation on one side and no key that takes its name, an inferred join is
missing. -/
theorem joinWith_derived_eq_missing_iff (hderived : parent.IsDerived ∨ child.IsDerived)
    {override : Option Override} {settings : BuildSettings}
    (hinferred : ∀ o, override = some o → ¬ o.IsExplicit) :
    parent.joinWith child override settings = .error (.missingRelation parent.name child.name) ↔
      ¬ parent.KeyedByName child settings.inferReverseForeignKeys := by
  rw [joinWith_eq_error_iff hinferred, inferCondition_eq_missing_iff,
    joinCandidates_derived_eq_nil_iff hderived]

/-- With keys of the child left out there are fewer that could count. -/
theorem KeyedByName.of_reverse {reverse : Bool} (h : parent.KeyedByName child reverse) :
    parent.KeyedByName child true := by
  rcases h with hforward | ⟨-, hbackward⟩
  · exact Or.inl hforward
  · exact Or.inr ⟨rfl, hbackward⟩

/-- A join that could be made without a key that takes the name of a derived relation was given
explicitly. -/
theorem exists_explicit_of_joinWith (hderived : parent.IsDerived ∨ child.IsDerived)
    (hkeys : ¬ parent.KeyedByName child true) {override : Option Override}
    {settings : BuildSettings} {join : Join}
    (h : parent.joinWith child override settings = .ok join) :
    join.overridden = true ∧ ∃ o, override = some o ∧ o.IsExplicit := by
  have hmissing (hinferred : ∀ o, override = some o → ¬ o.IsExplicit) : False := by
    have herror : parent.joinWith child override settings =
        .error (.missingRelation parent.name child.name) :=
      (joinWith_derived_eq_missing_iff hderived hinferred).2
        fun hkeyed => hkeys hkeyed.of_reverse
    rw [h] at herror
    cases herror
  cases override with
  | none => exact (hmissing nofun).elim
  | some o =>
    obtain ⟨condition, -, hjoin⟩ := bind_eq_ok_iff.1 h
    obtain rfl := Except.ok.inj hjoin
    refine ⟨rfl, o, rfl, ?_⟩
    intro hcondition
    apply hmissing
    rintro _ ⟨⟩ hexplicit
    exact hexplicit hcondition

end Source

/-- Every edge of a reachable schema has the join that was made from its two sources. -/
theorem Reachable.joinWith_of_mem_edges {s : Schema} (h : Reachable s) {d : Edge}
    (hd : d ∈ s.edges) {p c : Entry} (hp : s.entries[d.parent]? = some p)
    (hc : s.entries[d.child]? = some c) : ∃ override settings,
      (Entry.source p).joinWith (Entry.source c) override settings = .ok d.join := by
  obtain ⟨p', c', hp', hc', hparent, -, hjoin⟩ := Schema.endpoints_of_mem_edges hd
  obtain rfl := Option.some.inj (hp.symm.trans hp')
  obtain rfl := Option.some.inj (hc.symm.trans hc')
  have hmem := Schema.mem_withParents_of_entry (List.mem_of_getElem? hc)
  rw [hparent] at hmem
  exact h.joinsMade _ hmem p.label d.join rfl hjoin

/-- A join with a derived relation that is not given explicitly is missing, unless a foreign key
refers to the exposed name of the derived relation and lists columns of it; one given by no columns
is refused as such. Where there is no such key, every edge between the two was given explicitly. -/
theorem Source.derived_join_iff {parent child : Source}
    (hderived : parent.IsDerived ∨ child.IsDerived) :
    (∀ override settings, (∀ o, override = some o → ¬ o.IsExplicit) →
      (parent.joinWith child override settings =
          .error (.missingRelation parent.name child.name) ↔
        ¬ parent.KeyedByName child settings.inferReverseForeignKeys)) ∧
    (∀ kind settings, parent.joinWith child (some ⟨.columns [], kind⟩) settings =
      .error (.invalidTopology (.emptyJoin parent.name child.name))) ∧
    ∀ s, Reachable s → ∀ d ∈ s.edges, ∀ p c, s.entries[d.parent]? = some p →
      s.entries[d.child]? = some c → Entry.source p = parent → Entry.source c = child →
        ¬ parent.KeyedByName child true → d.join.overridden = true ∧
          ∃ o settings, o.IsExplicit ∧ parent.joinWith child (some o) settings = .ok d.join := by
  refine ⟨?_, fun _ _ => rfl, ?_⟩
  · intro override settings hinferred
    exact joinWith_derived_eq_missing_iff hderived hinferred
  · rintro s hs d hd p c hp hc rfl rfl hkeys
    obtain ⟨override, settings, hmade⟩ := hs.joinWith_of_mem_edges hd hp hc
    obtain ⟨hoverridden, o, rfl, hexplicit⟩ := exists_explicit_of_joinWith hderived hkeys hmade
    exact ⟨hoverridden, o, settings, hexplicit, hmade⟩

namespace Sample

/-- The sales of the last days, as a query. -/
def recent : Source := .subquery ⟨"recent", "SELECT id FROM sales", ["id"]⟩

/-- Visits refer to a relation that is called as the query is. -/
def visits : Source := .table ⟨"visits", ["recent_id"], [], [.single "recent_id" "recent" "id"]⟩

/-- Visits with the query below, joined by that key. -/
def visitSchema : Schema :=
  ⟨.tree ⟨visits, none⟩ (.tree ⟨recent, some (keyJoin "visits" "recent_id" "recent" "id")⟩ .nil)⟩

/-- Sales with the query below, joined explicitly. -/
def recentSchema : Schema :=
  ⟨.tree ⟨sales, none⟩ (.tree
    ⟨recent, some ⟨.columns [(⟨"sales", "product_id"⟩, ⟨"recent", "id"⟩)], .inner, true⟩⟩ .nil)⟩

theorem isDerived_recent : recent.IsDerived := ⟨_, rfl⟩

/-- Sales have a key, but it does not refer to the query. -/
theorem not_keyedByName_recent (reverse : Bool) : ¬ sales.KeyedByName recent reverse := by
  rintro (⟨-, key, hkey, href, -⟩ | ⟨-, ⟨sql, hsql⟩, -⟩)
  · obtain rfl := List.mem_singleton.1 hkey
    revert href
    decide
  · cases hsql

theorem reachable_recent : Reachable recentSchema :=
  .build (show Schema.build (.tree sales (.tree recent .nil))
    (Overrides.empty.insert "sales" "recent" ⟨.columns [("product_id", "id")], some .inner⟩) {} =
      .ok recentSchema from rfl)

/-- Sales and the query are joined explicitly or not at all. -/
theorem derived_join_recent :
    (sales.IsDerived ∨ recent.IsDerived) ∧
      sales.joinWith recent none {} = .error (.missingRelation "sales" "recent") ∧
      ∃ d ∈ recentSchema.edges, d.join.overridden = true ∧
        ∃ o settings, o.IsExplicit ∧ sales.joinWith recent (some o) settings = .ok d.join :=
  have hderived : sales.IsDerived ∨ recent.IsDerived := Or.inr isDerived_recent
  have hjoin := Source.derived_join_iff hderived
  ⟨hderived, (hjoin.1 none {} nofun).2 (not_keyedByName_recent true), _, List.mem_singleton.2 rfl,
    hjoin.2.2 recentSchema reachable_recent _ (List.mem_singleton.2 rfl) _ _ rfl rfl rfl rfl
      (not_keyedByName_recent true)⟩

/-- The join of a query is inferred when a key refers to a relation of its name, and so there is an
edge onto a query that nobody gave. -/
theorem derived_inferred :
    recent.IsDerived ∧ visits.joinWith recent none {} =
        .ok (keyJoin "visits" "recent_id" "recent" "id") ∧
      Reachable visitSchema ∧ ∃ d ∈ visitSchema.edges, ∃ p c,
        visitSchema.entries[d.parent]? = some p ∧ visitSchema.entries[d.child]? = some c ∧
          (Entry.source c).IsDerived ∧ d.join.overridden = false :=
  ⟨isDerived_recent, rfl,
    .build (show Schema.build (.tree visits (.tree recent .nil)) .empty {} = .ok visitSchema
      from rfl),
    _, List.mem_singleton.2 rfl, _, _, rfl, rfl, isDerived_recent, rfl⟩

end Sample

end JoinForest
