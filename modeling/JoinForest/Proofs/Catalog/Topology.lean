import JoinForest.Catalog
import JoinForest.Proofs.Catalog.KeyColumns
import JoinForest.Proofs.Schema.Construction
import Mathlib.Data.List.Forall2

set_option autoImplicit false

/-!
# Topologies of catalogs

From the placements of a catalog to a schema: the faults that stop it, the sources and overrides
that placements are resolved to, and the joins of what is built of these
(`Catalog.topology_outcome`).
-/

namespace JoinForest

open Forest

/-!
## Faulty placements

A placement is faulty in its join, when a root has one or when it gives both column pairs and an
expression, and else in its table, when the catalog does not declare it (`Placement.Faulty`).
Arranging goes through the placements in pre-order (`Catalog.discard_arrange`), so that the first
faulty one is reported (`Catalog.topology_of_faulty`); if there is none and no name is declared
twice, there is a topology (`Catalog.exists_topology`).
-/

/-! ### Joins written beside placements -/

namespace JoinNote

variable {n : JoinNote} {parent child : String}

/-- A note that gives both column pairs and an expression. -/
def Conflicting (n : JoinNote) : Prop := n.on ≠ [] ∧ n.expression.isSome

instance (n : JoinNote) : Decidable n.Conflicting :=
  inferInstanceAs (Decidable (n.on ≠ [] ∧ n.expression.isSome))

/-- What a note says: its expression, or else its column pairs, or else what foreign keys give; and
its kind, if it has one. -/
def asked (n : JoinNote) : Override where
  condition :=
    match n.expression, n.on with
    | some text, _ => .expression text
    | none, [] => .inferred
    | none, pairs => .columns pairs
  kind := n.kind

/-- A note with both column pairs and an expression is refused, with the two names. -/
theorem override_of_conflicting (h : n.Conflicting) :
    n.override parent child = .error (.invalidTopology (.conflictingJoin parent child)) := by
  obtain ⟨on, expression, kind⟩ := n
  obtain ⟨hon, hexpression⟩ := h
  obtain ⟨pair, pairs, rfl⟩ := List.exists_cons_of_ne_nil hon
  obtain ⟨text, rfl⟩ := Option.isSome_iff_exists.1 hexpression
  rfl

theorem override_of_not_conflicting (h : ¬ n.Conflicting) :
    n.override parent child = .ok n.asked := by
  obtain ⟨on, expression, kind⟩ := n
  cases on with
  | nil => cases expression <;> rfl
  | cons pair pairs =>
    cases expression with
    | none => rfl
    | some text => exact absurd ⟨List.cons_ne_nil pair pairs, rfl⟩ h

end JoinNote

namespace Placement

variable {above : Option Placement} {p : Placement} {fault : TopologyFault}

/-- What is wrong with the join of a placement below another one, or of a root. -/
inductive JoinFault : Option Placement → Placement → TopologyFault → Prop
  /-- A root has a join. -/
  | root {p : Placement} : p.join ≠ none → JoinFault none p (.rootWithJoin p.name)
  /-- The join gives both column pairs and an expression. -/
  | conflict {q p : Placement} {note : JoinNote} :
      p.join = some note → note.Conflicting → JoinFault (some q) p (.conflictingJoin q.name p.name)

/-- What is wrong with a placement: its join, or else its table. -/
inductive Faulty (declared : List String) (above : Option Placement) (p : Placement) :
    TopologyFault → Prop
  | join {fault : TopologyFault} : JoinFault above p fault → Faulty declared above p fault
  | table : (∀ fault, ¬ JoinFault above p fault) → p.table ∉ declared →
      Faulty declared above p (.undeclared p.table)

/-- The override that a placement brings for its parent and itself. -/
def ownOverride? (above : Option Placement) (p : Placement) : Option OverrideEntry :=
  above.bind fun q => p.join.map fun note => ((q.name, p.name), note.asked)

theorem name_of_ownOverride? {entry : OverrideEntry} (h : p.ownOverride? above = some entry) :
    entry.1.2 = p.name := by
  obtain ⟨q, -, h⟩ := Option.bind_eq_some_iff.1 h
  obtain ⟨note, -, rfl⟩ := Option.map_eq_some_iff.1 h
  rfl

theorem overrides_of_joinFault (h : JoinFault above p fault) :
    p.overrides (above.map Placement.name) = .error (.invalidTopology fault) := by
  cases h with
  | root hjoin =>
    obtain ⟨note, hnote⟩ := Option.ne_none_iff_exists'.1 hjoin
    simp [Placement.overrides, hnote]
  | conflict hnote hconflict =>
    simp only [Placement.overrides, Option.map_some, hnote,
      JoinNote.override_of_conflicting hconflict]
    rfl

/-- Without a fault the overrides of a placement are its own one, if it has one. -/
theorem overrides_of_no_joinFault (h : ∀ fault, ¬ JoinFault above p fault) :
    p.overrides (above.map Placement.name) = .ok (p.ownOverride? above).toList := by
  cases hnote : p.join with
  | none => cases above <;> simp [Placement.overrides, ownOverride?, hnote]
  | some note =>
    cases above with
    | none => exact absurd (.root (by simp [hnote])) (h _)
    | some q =>
      have hconflict : ¬ note.Conflicting := fun hconflict => h _ (.conflict hnote hconflict)
      simp only [Placement.overrides, Option.map_some, hnote,
        JoinNote.override_of_not_conflicting hconflict, ownOverride?]
      rfl

/-- Overrides that are accepted are the one that the placement brings. -/
theorem eq_ownOverride?_of_overrides {own : List OverrideEntry}
    (h : p.overrides (above.map Placement.name) = .ok own) :
    own = (p.ownOverride? above).toList := by
  by_cases hfault : ∃ fault, JoinFault above p fault
  · obtain ⟨fault, hfault⟩ := hfault
    rw [overrides_of_joinFault hfault] at h
    cases h
  · rw [overrides_of_no_joinFault (not_exists.1 hfault)] at h
    exact (Except.ok.inj h).symm

end Placement

namespace Catalog

variable {c : Catalog} {p : Placement} {above : Option Placement} {fault : TopologyFault}

/-! ### Declared names -/

/-- The declared names, of tables and then of subqueries. -/
def declared (c : Catalog) : List String :=
  c.tables.map Table.name ++ c.subqueries.map Subquery.name

theorem map_name_sources (c : Catalog) : c.sources.map Source.name = c.declared := by
  rw [sources, declared, List.map_append, List.map_map, List.map_map]
  rfl

theorem find?_name_isSome_iff {name : String} :
    (c.sources.find? (·.name == name)).isSome ↔ name ∈ c.declared := by
  rw [← map_name_sources, List.find?_isSome, List.mem_map]
  simp

theorem exists_resolve (h : p.table ∈ c.declared) : ∃ s, resolve c.sources p = .ok s := by
  obtain ⟨s, hs⟩ := Option.isSome_iff_exists.1 (find?_name_isSome_iff.2 h)
  exact ⟨s.renamed p.rename, by rw [resolve, hs]⟩

theorem resolve_of_not_mem (h : p.table ∉ c.declared) :
    resolve c.sources p = .error (.invalidTopology (.undeclared p.table)) := by
  rw [← find?_name_isSome_iff, Option.not_isSome_iff_eq_none] at h
  rw [resolve, h]

/-! ### The first faulty placement -/

/-- Whether a placement can be arranged: its join is looked at before its table. -/
def check (sources : List Source) (above : Option Placement) (p : Placement) :
    Except SchemaError PUnit := do
  discard (p.overrides (above.map Placement.name))
  discard (resolve sources p)

theorem check_of_faulty (h : p.Faulty c.declared above fault) :
    check c.sources above p = .error (.invalidTopology fault) := by
  cases h with
  | join hjoin =>
    rw [check, Placement.overrides_of_joinFault hjoin]
    rfl
  | table hjoin htable =>
    rw [check, Placement.overrides_of_no_joinFault hjoin, resolve_of_not_mem htable]
    rfl

/-- A placement passes the checks exactly if nothing is wrong with it. -/
theorem check_eq_ok_iff :
    check c.sources above p = .ok ⟨⟩ ↔ ∀ fault, ¬ p.Faulty c.declared above fault := by
  constructor
  · intro hcheck fault hfaulty
    rw [check_of_faulty hfaulty] at hcheck
    cases hcheck
  · intro h
    have hjoin : ∀ fault, ¬ Placement.JoinFault above p fault := fun fault hfault =>
      h fault (.join hfault)
    have htable : p.table ∈ c.declared := by
      by_contra hmem
      exact h _ (.table hjoin hmem)
    obtain ⟨s, hs⟩ := exists_resolve htable
    rw [check, Placement.overrides_of_no_joinFault hjoin, hs]
    rfl

/-- Arranging a forest checks its placements in pre-order. -/
theorem discard_arrange (sources : List Source) (above : Option Placement)
    (f : Forest Placement) : discard (arrange sources (above.map Placement.name) f) =
      (f.withParents above).forM fun pm => check sources pm.1 pm.2 := by
  simp only [List.forM_eq_forM]
  induction f generalizing above with
  | nil => rfl
  | cons p cs rest ihc ihr =>
    have hc := ihc (some p)
    rw [Option.map_some] at hc
    rw [withParents, List.forM_cons, List.forM_append, ← hc, ← ihr, arrange, check]
    -- The first of the four parts that fails ends both sides with its error.
    cases p.overrides (above.map Placement.name) with
    | error e => rfl
    | ok own =>
      cases resolve sources p with
      | error e => rfl
      | ok source =>
        cases arrange sources (some p.name) cs with
        | error e => rfl
        | ok below => cases arrange sources (above.map Placement.name) rest <;> rfl

/-- Arranging fails where one of the placements, in their order, does not pass the checks. -/
theorem discard_arrange_schema (c : Catalog) : discard (arrange c.sources none c.schema) =
    (c.schema.withParents none).forM fun pm => check c.sources pm.1 pm.2 :=
  discard_arrange c.sources none c.schema

/-- Names declared once leave the placements to be arranged. -/
theorem topology_of_nodup (h : c.declared.Nodup) : c.topology =
    (arrange c.sources none c.schema).map fun (t, entries) => (t, collect entries) := by
  rw [topology, map_name_sources, firstRepeat?_eq_none_iff.2 ⟨h, by simp⟩]

/-- The first name that was declared before is reported, whatever the placements are. -/
theorem topology_of_declaredTwice {before after : List String} {name : String}
    (hsplit : c.declared = before ++ name :: after) (hnodup : before.Nodup) (hmem : name ∈ before) :
    c.topology = .error (.invalidTopology (.declaredTwice name)) := by
  rw [topology, map_name_sources, hsplit, firstRepeat?_append hnodup (by simp) (Or.inr hmem)]

/-- The first faulty placement ends the work. -/
theorem topology_of_faulty (hnodup : c.declared.Nodup)
    {before after : List (Option Placement × Placement)} {pm : Option Placement × Placement}
    (hsplit : c.schema.withParents none = before ++ pm :: after)
    (hbefore : ∀ qm ∈ before, ∀ fault', ¬ qm.2.Faulty c.declared qm.1 fault')
    (hfaulty : pm.2.Faulty c.declared pm.1 fault) :
    c.topology = .error (.invalidTopology fault) := by
  have harrange : arrange c.sources none c.schema = .error (.invalidTopology fault) := by
    rw [← discard_eq_error_iff, discard_arrange_schema, forM_eq_error_iff]
    refine ⟨before, pm, after, hsplit, ?_, check_of_faulty hfaulty⟩
    intro qm hqm
    exact check_eq_ok_iff.2 (hbefore qm hqm)
  rw [topology_of_nodup hnodup, harrange]
  rfl

/-- Distinct names and placements without fault give a topology. -/
theorem exists_topology (hnodup : c.declared.Nodup)
    (h : ∀ pm ∈ c.schema.withParents none, ∀ fault, ¬ pm.2.Faulty c.declared pm.1 fault) :
    ∃ t overrides, c.topology = .ok (t, overrides) := by
  obtain ⟨⟨t, entries⟩, harrange⟩ : ∃ arranged, arrange c.sources none c.schema = .ok arranged := by
    rw [← discard_eq_ok_iff, discard_arrange_schema, forM_eq_ok_iff]
    intro pm hpm
    exact check_eq_ok_iff.2 (h pm hpm)
  refine ⟨t, collect entries, ?_⟩
  rw [topology_of_nodup hnodup, harrange]
  rfl

end Catalog

/-!
## Arranged catalogs

Placements are resolved to declared sources (`Catalog.Denotes`). An arranged forest has a source for
each placement, in pre-order and below the same parents, and an override for each one below another
that has a join (`Catalog.arrange_eq_ok`). Overrides for equal pairs would replace one another;
where names are distinct none does, and under the pair of a placement and its parent stands what
is written in that placement (`Catalog.get?_collect_entries`).
-/

namespace Catalog

variable {c : Catalog}

/-! ### What placements stand for -/

/-- The source that a placement stands for: a declared table with its key columns, under another
name if one is given, or a declared subquery under the name of the placement. -/
inductive Denotes (c : Catalog) (p : Placement) : Source → Prop
  | table {t : Table} : t ∈ c.tables → t.name = p.table → p.rename = none →
      Denotes c p (.table t.withKeyColumns)
  | aliased {t : Table} {name : String} : t ∈ c.tables → t.name = p.table →
      p.rename = some name → Denotes c p (.aliased name t.withKeyColumns)
  | subquery {q : Subquery} : q ∈ c.subqueries → q.name = p.table →
      Denotes c p (.subquery { q with name := p.name })

theorem Denotes.name_eq {p : Placement} {s : Source} (h : c.Denotes p s) : s.name = p.name := by
  cases h with
  | table _ hname hrename =>
    rw [Placement.name, hrename]
    exact hname
  | aliased _ _ hrename =>
    rw [Placement.name, hrename]
    rfl
  | subquery => rfl

theorem denotes_of_resolve {p : Placement} {s : Source} (h : resolve c.sources p = .ok s) :
    c.Denotes p s := by
  rw [resolve] at h
  split at h
  · rename_i s' hfind
    obtain rfl := Except.ok.inj h
    have hname : s'.name = p.table := by simpa using List.find?_some hfind
    rcases List.mem_append.1 (List.mem_of_find?_eq_some hfind) with hmem | hmem
    · obtain ⟨t, ht, rfl⟩ := List.mem_map.1 hmem
      cases hrename : p.rename with
      | none => exact .table ht hname hrename
      | some name => exact .aliased ht hname hrename
    · obtain ⟨q, hq, rfl⟩ := List.mem_map.1 hmem
      have hq' : (Source.subquery q).renamed p.rename = .subquery { q with name := p.name } := by
        cases hrename : p.rename with
        | none =>
          rw [Placement.name, hrename, Option.getD_none, ← hname]
          rfl
        | some name =>
          rw [Placement.name, hrename]
          rfl
      rw [hq']
      exact .subquery hq hname
  · cases h

/-- A placement of a table offers its key columns. -/
theorem Denotes.hasColumn {p : Placement} {s : Source} (h : c.Denotes p s)
    (hnodup : c.declared.Nodup) {t : Table} (ht : t ∈ c.tables) (hname : t.name = p.table)
    {column : String} (hcolumn : column ∈ t.keyColumns) : s.hasColumn column := by
  obtain ⟨htables, -, hdisjoint⟩ := List.nodup_append.1 hnodup
  have hunique {t' : Table} (ht' : t' ∈ c.tables) (hname' : t'.name = p.table) : t' = t :=
    List.inj_on_of_nodup_map htables ht' ht (hname'.trans hname.symm)
  have hoffered : column ∈ t.withKeyColumns.columns := Table.mem_withKeyColumns.2 (Or.inr hcolumn)
  rw [Source.hasColumn, List.contains_iff_mem]
  cases h with
  | table ht' hname' =>
    rw [hunique ht' hname']
    exact hoffered
  | aliased ht' hname' =>
    rw [hunique ht' hname']
    exact hoffered
  | subquery hq hname' =>
    exact absurd (hname.trans hname'.symm)
      (hdisjoint _ (List.mem_map_of_mem ht) _ (List.mem_map_of_mem hq))

/-! ### Arranged forests -/

/-- Both are top placements, or the one above is resolved to the other. -/
def Resolved (sources : List Source) (pm : Option Placement × Placement)
    (sm : Option Source × Source) : Prop :=
  Option.Rel (fun p s => resolve sources p = .ok s) pm.1 sm.1 ∧ resolve sources pm.2 = .ok sm.2

/-- An arranged forest has the sources of the placements, below the same parents, and their
overrides. -/
theorem arrange_eq_ok {sources : List Source} {f : Forest Placement} (above : Option Placement)
    {parent : Option Source} {t : Topology} {entries : List OverrideEntry}
    (h : arrange sources (above.map Placement.name) f = .ok (t, entries))
    (hparent : Option.Rel (fun p s => resolve sources p = .ok s) above parent) :
    List.Forall₂ (Resolved sources) (f.withParents above) (t.withParents parent) ∧
      entries = (f.withParents above).flatMap fun pm => (pm.2.ownOverride? pm.1).toList := by
  induction f generalizing above parent t entries with
  | nil =>
    obtain ⟨rfl, rfl⟩ := Prod.mk.inj (Except.ok.inj h)
    exact ⟨.nil, rfl⟩
  | cons p cs rest ihc ihr =>
    simp only [arrange, bind_eq_ok_iff] at h
    obtain ⟨own, hown, source, hsource, ⟨below, inner⟩, hbelow, ⟨after, others⟩, hafter, h⟩ := h
    obtain ⟨rfl, rfl⟩ := Prod.mk.inj (Except.ok.inj h)
    obtain ⟨hc, rfl⟩ := ihc (some p) hbelow (.some hsource)
    obtain ⟨hr, rfl⟩ := ihr above hafter hparent
    refine ⟨.cons ⟨hparent, hsource⟩ (List.rel_append hc hr), ?_⟩
    rw [withParents, List.flatMap_cons, List.flatMap_append, List.append_assoc,
      Placement.eq_ownOverride?_of_overrides hown]

theorem names_of_resolved {c : Catalog} {f : Forest Placement} {t : Topology}
    (h : List.Forall₂ (Resolved c.sources) (f.withParents none) (t.withParents none)) :
    t.names = f.labels.map Placement.name := by
  have hnames : List.Forall₂ Eq ((t.withParents none).map fun sm => sm.2.name)
      ((f.withParents none).map fun pm => pm.2.name) := by
    rw [List.forall₂_map_left_iff, List.forall₂_map_right_iff]
    exact h.flip.imp fun sm pm hresolved => (denotes_of_resolve hresolved.2).name_eq
  rw [List.forall₂_eq_eq_eq] at hnames
  rw [Topology.names, ← map_snd_withParents none f, ← map_snd_withParents none t, List.map_map,
    List.map_map]
  exact hnames

/-- A topology is an arranged forest of a catalog that declares no name twice. -/
theorem exists_arrange_of_topology {t : Topology} {overrides : Overrides}
    (h : c.topology = .ok (t, overrides)) : c.declared.Nodup ∧
      ∃ entries, arrange c.sources none c.schema = .ok (t, entries) ∧
        overrides = collect entries := by
  cases hrepeat : firstRepeat? [] c.declared with
  | some name =>
    rw [topology, map_name_sources, hrepeat] at h
    cases h
  | none =>
    have hnodup := (firstRepeat?_eq_none_iff.1 hrepeat).1
    rw [topology_of_nodup hnodup, map_eq_ok_iff] at h
    obtain ⟨⟨t', entries⟩, harrange, heq⟩ := h
    obtain ⟨rfl, rfl⟩ := Prod.mk.inj heq
    exact ⟨hnodup, entries, harrange, rfl⟩

/-! ### Overrides of arranged forests -/

/-- Entries for other pairs leave the override of a pair as it was. -/
theorem get?_foldl_of_not_mem {entries : List OverrideEntry} (pair : String × String)
    (h : pair ∉ entries.map Prod.fst) (os : Overrides) :
    (entries.foldl (fun os ((parent, child), o) => os.insert parent child o) os).get?
      pair.1 pair.2 = os.get? pair.1 pair.2 := by
  induction entries generalizing os with
  | nil => rfl
  | cons entry entries ih =>
    rw [List.map_cons, List.mem_cons, not_or] at h
    rw [List.foldl_cons, ih h.2, Overrides.get?_insert, if_neg h.1]

/-- Among entries for distinct pairs none replaces another. -/
theorem get?_foldl_of_mem {entries : List OverrideEntry} (entry : OverrideEntry)
    (hnodup : (entries.map Prod.fst).Nodup) (h : entry ∈ entries) (os : Overrides) :
    (entries.foldl (fun os ((parent, child), o) => os.insert parent child o) os).get?
      entry.1.1 entry.1.2 = some entry.2 := by
  induction entries generalizing os with
  | nil => cases h
  | cons first entries ih =>
    rw [List.map_cons, List.nodup_cons] at hnodup
    rw [List.foldl_cons]
    rcases List.mem_cons.1 h with rfl | h
    · rw [get?_foldl_of_not_mem _ hnodup.1, Overrides.get?_insert, if_pos rfl]
    · exact ih hnodup.2 h _

/-- Where names are distinct, the override for a placement and its parent is the one written in this
placement. -/
theorem get?_collect_entries {f : Forest Placement}
    (hnames : (f.labels.map Placement.name).Nodup) {q p : Placement}
    (h : (some q, p) ∈ f.withParents none) :
    (collect ((f.withParents none).flatMap fun pm => (pm.2.ownOverride? pm.1).toList)).get?
      q.name p.name = p.join.map JoinNote.asked := by
  rw [← map_snd_withParents none f, List.map_map] at hnames
  rw [← List.filterMap_eq_flatMap_toList]
  cases hnote : p.join with
  | some note =>
    refine get?_foldl_of_mem ((q.name, p.name), note.asked) ?_ ?_ .empty
    · refine List.pairwise_map.2 (List.pairwise_filterMap.2 ((List.pairwise_map.1 hnames).imp ?_))
      intro a b hne x hx y hy heq
      apply hne
      rw [Function.comp_apply, Function.comp_apply, ← Placement.name_of_ownOverride? hx,
        ← Placement.name_of_ownOverride? hy, heq]
    · refine List.mem_filterMap.2 ⟨_, h, ?_⟩
      simp [Placement.ownOverride?, hnote]
  | none =>
    refine get?_foldl_of_not_mem (q.name, p.name) ?_ .empty
    intro hmem
    -- An entry for this pair would stem from a placement of this name, so from `p` itself.
    obtain ⟨entry, hentry, hpair⟩ := List.mem_map.1 hmem
    obtain ⟨pm, hpm, hfrom⟩ := List.mem_filterMap.1 hentry
    have hname := Placement.name_of_ownOverride? hfrom
    rw [hpair] at hname
    obtain rfl : pm = (some q, p) := List.inj_on_of_nodup_map hnames hpm h hname.symm
    simp [Placement.ownOverride?, hnote] at hfrom

end Catalog

/-!
## Built catalogs

A schema built from a catalog realizes its placements one by one (`Catalog.Realizes`): building asks
for distinct names, so every join is made by the override that is written in its own placement
(`Catalog.realizes_of_build`). `Catalog.topology_outcome` brings this together with the faults that
stop a catalog before.
-/

namespace Catalog

variable {c : Catalog}

/-- A node of a schema realizes a placement of a catalog: it bears its name, offers what the
catalog declares under its table, and is joined onto the node of the placement above by the join of
the two that is written in this very placement. -/
structure Realizes (c : Catalog) (settings : BuildSettings) (s : Schema)
    (pm : Option Placement × Placement) (e : Entry) : Prop where
  name_eq : Entry.name e = pm.2.name
  denotes : c.Denotes pm.2 (Entry.source e)
  /-- A table offers its key columns. -/
  hasColumn : ∀ t ∈ c.tables, t.name = pm.2.table → ∀ column ∈ t.keyColumns,
    (Entry.source e).hasColumn column
  /-- A top placement becomes a root, onto which nothing is joined. -/
  top : pm.1 = none → s.parent? e = none ∧ e.edge? = none
  /-- Any other one is joined onto the placement above. -/
  below : ∀ q, pm.1 = some q → ∃ p join, s.parent? e = some p ∧ Entry.name p = q.name ∧
    c.Denotes q (Entry.source p) ∧
      (Entry.source p).joinWith (Entry.source e) (pm.2.join.map JoinNote.asked) settings =
        .ok join ∧ e.edge? = some ⟨p.key, e.key, join⟩

/-- A placement and the node made from it have the join that was written in the placement. -/
theorem realizes_of_resolved {t : Topology} {overrides : Overrides} {settings : BuildSettings}
    {s : Schema} (hbuilt : s.BuiltFrom t overrides settings) (hnodup : c.declared.Nodup)
    {pm : Option Placement × Placement} {e : Entry} (he : e ∈ s.entries)
    (hresolved : Resolved c.sources pm ((s.parent? e).map Entry.source, Entry.source e))
    (hoverride : ∀ q, pm.1 = some q →
      overrides.get? q.name pm.2.name = pm.2.join.map JoinNote.asked) :
    c.Realizes settings s pm e := by
  obtain ⟨habove, hresolve⟩ := hresolved
  have hdenotes := denotes_of_resolve hresolve
  refine ⟨hdenotes.name_eq, hdenotes, ?_, ?_, ?_⟩
  · intro t ht hname column hcolumn
    exact hdenotes.hasColumn hnodup ht hname hcolumn
  · intro htop
    cases hparent : s.parent? e with
    | none => exact ⟨rfl, hbuilt.edge_root e he hparent⟩
    | some p =>
      rw [htop, hparent] at habove
      cases habove
  · intro q hq
    cases hparent : s.parent? e with
    | none =>
      rw [hq, hparent] at habove
      cases habove
    | some p =>
      rw [hq, hparent] at habove
      obtain ⟨hp⟩ := habove
      have hdenotes' := denotes_of_resolve hp
      obtain ⟨join, hjoin, hedge⟩ := hbuilt.edge_below e he p hparent
      have hname : Entry.name p = q.name := hdenotes'.name_eq
      have hname' : Entry.name e = pm.2.name := hdenotes.name_eq
      rw [hname, hname', hoverride q hq] at hjoin
      exact ⟨p, join, rfl, hname, hdenotes', hjoin, hedge⟩

theorem realizes_of_build {t : Topology} {overrides : Overrides} {settings : BuildSettings}
    {s : Schema} (htopology : c.topology = .ok (t, overrides))
    (hs : Schema.build t overrides settings = .ok s) :
    List.Forall₂ (c.Realizes settings s) (c.schema.withParents none) s.entries := by
  obtain ⟨hnodup, entries, harrange, rfl⟩ := exists_arrange_of_topology htopology
  obtain ⟨hresolved, rfl⟩ := arrange_eq_ok none harrange .none
  have hbuilt := Schema.builtFrom_of_build hs
  have hnames : (c.schema.labels.map Placement.name).Nodup := by
    rw [← names_of_resolved hresolved]
    exact (Schema.build_eq_ok_iff.1 hs).1
  -- Placements and nodes are compared in pairs, so that each is known to be one of its list.
  rw [← hbuilt.nodes_eq, List.forall₂_map_right_iff, List.forall₂_iff_zip] at hresolved
  refine List.forall₂_iff_zip.2 ⟨hresolved.1, ?_⟩
  intro pm e hzip
  obtain ⟨hpm, he⟩ := List.of_mem_zip hzip
  refine realizes_of_resolved hbuilt hnodup he (hresolved.2 hzip) ?_
  intro q hq
  exact get?_collect_entries hnames (hq ▸ hpm)

/-- What comes of a catalog. A name declared twice is reported, the first one in the order of the
declarations, and then the first faulty placement in pre-order; without faults there is a topology.
In a schema built from it the nodes realize the placements, in pre-order and one by one, each with
the join that is written in it. -/
theorem topology_outcome (c : Catalog) :
    (∀ before name after, c.declared = before ++ name :: after → before.Nodup → name ∈ before →
      c.topology = .error (.invalidTopology (.declaredTwice name))) ∧
    (c.declared.Nodup →
      (∀ before pm after fault, c.schema.withParents none = before ++ pm :: after →
        (∀ qm ∈ before, ∀ fault', ¬ qm.2.Faulty c.declared qm.1 fault') →
          pm.2.Faulty c.declared pm.1 fault → c.topology = .error (.invalidTopology fault)) ∧
      ((∀ pm ∈ c.schema.withParents none, ∀ fault, ¬ pm.2.Faulty c.declared pm.1 fault) →
        ∃ t overrides, c.topology = .ok (t, overrides))) ∧
    ∀ t overrides settings s, c.topology = .ok (t, overrides) →
      Schema.build t overrides settings = .ok s →
        List.Forall₂ (c.Realizes settings s) (c.schema.withParents none) s.entries := by
  refine ⟨?_, ?_, ?_⟩
  · intro before name after hsplit hnodup hmem
    exact topology_of_declaredTwice hsplit hnodup hmem
  · intro hnodup
    constructor
    · intro before pm after fault hsplit hbefore hfaulty
      exact topology_of_faulty hnodup hsplit hbefore hfaulty
    · intro hnone
      exact exists_topology hnodup hnone
  · intro t overrides settings s htopology hs
    exact realizes_of_build htopology hs

end Catalog

namespace Sample

/-- Sales with a column of their own, and products that declare a key only. -/
def shopTables : List Table :=
  [⟨"sales", ["amount"], [], [.single "product_id" "product" "id"]⟩, ⟨"product", [], ["id"], []⟩]

/-- Sales with their products, and with products again as gifts. -/
def shop : Catalog :=
  ⟨shopTables, [], .tree ⟨"sales", none, none⟩
    (.cons ⟨"product", none, some ⟨[], none, some .inner⟩⟩ .nil
      (.tree ⟨"product", some "gift", some ⟨[("amount", "id")], none, none⟩⟩ .nil))⟩

/-- A placement with two faults behind one without. -/
def faultyShop : Catalog :=
  ⟨shopTables, [], .tree ⟨"sales", none, none⟩
    (.tree ⟨"brand", none, some ⟨[("brand_id", "id")], some "brand.id = 1", none⟩⟩ .nil)⟩

/-- Products declared twice, a faulty placement, and sales with products and gifts. -/
theorem outcome_shop :
    Catalog.topology ⟨shopTables, [⟨"product", "", []⟩], .nil⟩ =
        .error (.invalidTopology (.declaredTwice "product")) ∧
      faultyShop.topology = .error (.invalidTopology (.conflictingJoin "sales" "brand")) ∧
      (∃ t overrides, shop.topology = .ok (t, overrides)) ∧
      ∃ t overrides s, shop.topology = .ok (t, overrides) ∧
        Schema.build t overrides {} = .ok s ∧
          List.Forall₂ (shop.Realizes {} s) (shop.schema.withParents none) s.entries := by
  refine ⟨?_, ?_, ?_, ?_⟩
  · exact (Catalog.topology_outcome ⟨shopTables, [⟨"product", "", []⟩], .nil⟩).1
      ["sales", "product"] "product" [] rfl (by decide) (by decide)
  · refine ((Catalog.topology_outcome faultyShop).2.1 (by decide)).1
      [(none, ⟨"sales", none, none⟩)] _ [] _ rfl ?_ (.join (.conflict rfl (by decide)))
    intro qm hqm
    obtain rfl := List.mem_singleton.1 hqm
    exact Catalog.check_eq_ok_iff.1 rfl
  · refine ((Catalog.topology_outcome shop).2.1 (by decide)).2 ?_
    intro pm hpm
    simp only [shop, tree, withParents, List.nil_append, List.append_nil,
      List.mem_cons, List.not_mem_nil, or_false] at hpm
    rcases hpm with rfl | rfl | rfl
    · exact Catalog.check_eq_ok_iff.1 rfl
    · exact Catalog.check_eq_ok_iff.1 rfl
    · exact Catalog.check_eq_ok_iff.1 rfl
  · obtain ⟨t, overrides, s, htopology, hs⟩ : ∃ t overrides s,
        shop.topology = .ok (t, overrides) ∧ Schema.build t overrides {} = .ok s :=
      ⟨_, _, _, rfl, rfl⟩
    exact ⟨t, overrides, s, htopology, hs,
      (Catalog.topology_outcome shop).2.2 t overrides {} s htopology hs⟩

end Sample

end JoinForest
