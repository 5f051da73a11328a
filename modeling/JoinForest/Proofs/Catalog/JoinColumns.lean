import JoinForest.Proofs.Catalog.Topology
import JoinForest.Proofs.Schema.Joins

set_option autoImplicit false

/-!
# Columns of joins

Which columns a join may name that are not there. Column pairs given explicitly are looked up, and
key columns are on offer wherever a table is placed (`Catalog.Denotes.offersKeys`), so the only way
for a column to come into a condition unseen is the list of referenced columns of a foreign key.
A join names a column that is not on offer exactly if it follows a key that lists such a column
(`Catalog.missing_column_iff`); where keys refer to columns that are there, no join does.
-/

namespace JoinForest

open Forest

namespace Source

variable {parent child : Source}

/-- All columns of the pairs are on offer, the left ones at the parent and the right ones at the
child. -/
def OffersPairs (parent child : Source) (pairs : List (ColumnRef × ColumnRef)) : Prop :=
  ∀ pair ∈ pairs, (pair.1.table = parent.name ∧ parent.hasColumn pair.1.column) ∧
    pair.2.table = child.name ∧ child.hasColumn pair.2.column

/-- The primary key and the columns of the foreign keys are on offer. -/
structure OffersKeys (s : Source) : Prop where
  primary : ∀ column ∈ s.primaryKey, s.hasColumn column
  foreign : ∀ key ∈ s.foreignKeys, ∀ column ∈ key.columns, s.hasColumn column

/-! ## Pairs given explicitly -/

theorem column_eq_ok_iff {s : Source} {name : String} {c : ColumnRef} :
    s.column name = .ok c ↔ s.hasColumn name ∧ ⟨s.name, name⟩ = c := by
  by_cases hcolumn : s.hasColumn name <;> simp [column, hcolumn]

theorem offersPairs_of_columnPairs {asked : List (String × String)}
    {pairs : List (ColumnRef × ColumnRef)} (h : parent.columnPairs child asked = .ok pairs) :
    parent.OffersPairs child pairs := by
  induction asked generalizing pairs with
  | nil =>
    obtain rfl : [] = pairs := Except.ok.inj h
    exact fun _ hpair => absurd hpair List.not_mem_nil
  | cons names asked ih =>
    simp only [columnPairs, bind_eq_ok_iff, column_eq_ok_iff] at h
    obtain ⟨_, ⟨hleft, rfl⟩, _, ⟨hright, rfl⟩, others, hothers, h⟩ := h
    obtain rfl := Except.ok.inj h
    exact List.forall_mem_cons.2 ⟨⟨⟨rfl, hleft⟩, rfl, hright⟩, ih hothers⟩

/-! ## Pairs of foreign keys -/

/-- The pairs are those of a foreign key of one source that leads to the other, which is
`target`. -/
inductive FollowsKey (parent child : Source) (key : ForeignKey) :
    Source → List (ColumnRef × ColumnRef) → Prop
  | ofParent : key ∈ parent.foreignKeys → key.LeadsTo child →
      FollowsKey parent child key child ((key.pairs child).map fun (column, target) =>
        (⟨parent.name, column⟩, ⟨child.name, target⟩))
  | ofChild : key ∈ child.foreignKeys → key.LeadsTo parent →
      FollowsKey parent child key parent ((key.pairs parent).map fun (column, target) =>
        (⟨parent.name, target⟩, ⟨child.name, column⟩))

/-- Every condition that is inferred follows a key of the one side to the other. -/
theorem exists_followsKey {reverse : Bool} {pairs : List (ColumnRef × ColumnRef)}
    (h : pairs ∈ parent.joinCandidates child reverse) :
    ∃ key target, parent.FollowsKey child key target pairs := by
  rcases exists_key_of_mem_joinCandidates h with ⟨_, hmem, rfl⟩ | ⟨_, hmem, rfl⟩
  · obtain ⟨key, hkey, hleads, rfl⟩ := mem_keysTowards_iff.1 hmem
    exact ⟨key, child, .ofParent hkey hleads⟩
  · obtain ⟨key, hkey, hleads, rfl⟩ := mem_keysTowards_iff.1 hmem
    exact ⟨key, parent, .ofChild hkey hleads⟩

/-- The columns of a key and its targets are on offer exactly if those are that it lists as
referenced: its own are key columns, and so are its targets where it lists none. -/
theorem forall_pairs_iff {s target : Source} (hs : s.OffersKeys) (htarget : target.OffersKeys)
    {key : ForeignKey} (hkey : key ∈ s.foreignKeys) (hleads : key.LeadsTo target) :
    (∀ pair ∈ key.pairs target, s.hasColumn pair.1 ∧ target.hasColumn pair.2) ↔
      ∀ column ∈ key.referencedColumns, target.hasColumn column := by
  rw [ForeignKey.pairs, if_pos hleads.length_eq]
  have htargets : key.referencedColumns ≠ [] → key.targets target = key.referencedColumns :=
    fun hne => if_neg (by simpa using hne)
  constructor
  · intro h column hcolumn
    rw [← htargets (List.ne_nil_of_mem hcolumn)] at hcolumn
    obtain ⟨i, hi, rfl⟩ := List.getElem_of_mem hcolumn
    have hmem := List.getElem_mem (l := key.columns.zip (key.targets target)) (n := i)
      (by rw [List.length_zip, hleads.length_eq, Nat.min_self]; exact hi)
    rw [List.getElem_zip] at hmem
    exact (h _ hmem).2
  · rintro h ⟨column, column'⟩ hpair
    obtain ⟨hcolumn, htargeted⟩ := List.of_mem_zip hpair
    refine ⟨hs.foreign key hkey column hcolumn, ?_⟩
    by_cases hlisted : key.referencedColumns = []
    · rw [ForeignKey.targets, hlisted] at htargeted
      exact htarget.primary column' htargeted
    · rw [htargets hlisted] at htargeted
      exact h column' htargeted

/-- Where both sides offer the columns of their keys, a key gives columns of both sides exactly if
its referenced columns are there. -/
theorem offersPairs_iff_of_followsKey (hp : parent.OffersKeys) (hc : child.OffersKeys)
    {key : ForeignKey} {target : Source} {pairs : List (ColumnRef × ColumnRef)}
    (h : parent.FollowsKey child key target pairs) :
    parent.OffersPairs child pairs ↔ ∀ column ∈ key.referencedColumns, target.hasColumn column := by
  cases h with
  | ofParent hkey hleads =>
    rw [← forall_pairs_iff hp hc hkey hleads, OffersPairs, List.forall_mem_map]
    simp
  | ofChild hkey hleads =>
    rw [← forall_pairs_iff hc hp hkey hleads, OffersPairs, List.forall_mem_map]
    simp [and_comm]

/-- The columns of a join were looked up one by one, or they are those of a foreign key. -/
theorem offersPairs_or_followsKey {override : Option Override} {settings : BuildSettings}
    {join : Join} (h : parent.joinWith child override settings = .ok join)
    {pairs : List (ColumnRef × ColumnRef)} (hpairs : join.condition = .columns pairs) :
    parent.OffersPairs child pairs ∨ ∃ key target, parent.FollowsKey child key target pairs := by
  have hinferred {reverse : Bool}
      (hinfer : parent.inferCondition child reverse = .ok (.columns pairs)) :
      ∃ key target, parent.FollowsKey child key target pairs := by
    obtain ⟨pairs', hpairs', heq⟩ := exists_candidate_of_inferCondition hinfer
    obtain rfl := Condition.columns.inj heq
    exact exists_followsKey hpairs'
  rcases override with _ | ⟨asked, kind⟩
  · obtain ⟨condition, hcondition, hjoin⟩ := bind_eq_ok_iff.1 h
    obtain rfl := Except.ok.inj hjoin
    obtain rfl : condition = .columns pairs := hpairs
    exact Or.inr (hinferred hcondition)
  · obtain ⟨condition, hcondition, hjoin⟩ := bind_eq_ok_iff.1 h
    obtain rfl := Except.ok.inj hjoin
    obtain rfl : condition = .columns pairs := hpairs
    rcases asked with _ | ⟨_ | ⟨names, asked⟩⟩ | text
    · exact Or.inr (hinferred hcondition)
    · cases hcondition
    · obtain ⟨_, hlooked, heq⟩ := map_eq_ok_iff.1 hcondition
      obtain rfl := Condition.columns.inj heq
      exact Or.inl (offersPairs_of_columnPairs hlooked)
    · cases hcondition

end Source

namespace Catalog

variable {c : Catalog}

/-- Placed tables offer the columns of their keys, for they were added when they were declared. -/
theorem Denotes.offersKeys {p : Placement} {s : Source} (h : c.Denotes p s) : s.OffersKeys := by
  have hkeys (t : Table) {column : String} (hcolumn : column ∈ t.keyColumns) :
      t.withKeyColumns.columns.contains column = true :=
    List.contains_iff_mem.2 (Table.mem_withKeyColumns.2 (Or.inr hcolumn))
  have hprimary (t : Table) (column : String) (hcolumn : column ∈ t.primaryKey) :=
    hkeys t (List.mem_append_left _ hcolumn)
  have hforeign (t : Table) (key : ForeignKey) (hkey : key ∈ t.foreignKeys) (column : String)
      (hcolumn : column ∈ key.columns) :=
    hkeys t (List.mem_append_right _ (List.mem_flatMap.2 ⟨key, hkey, hcolumn⟩))
  cases h with
  | @table t => exact ⟨hprimary t, hforeign t⟩
  | @aliased t => exact ⟨hprimary t, hforeign t⟩
  | subquery => exact ⟨nofun, nofun⟩

/-- Foreign keys list columns that are there: of the tables that they refer to, and of the
subqueries that are placed under the name that they refer to. -/
def KeysFit (c : Catalog) : Prop :=
  ∀ t ∈ c.tables, ∀ key ∈ t.foreignKeys, ∀ column ∈ key.referencedColumns,
    (∀ u ∈ c.tables, u.name = key.references → column ∈ u.columns ∨ column ∈ u.keyColumns) ∧
      ∀ p ∈ c.schema.labels, p.name = key.references →
        ∀ q ∈ c.subqueries, q.name = p.table → column ∈ q.columns

/-- Where keys fit, a key of one placed source that leads to another refers to columns on offer
there. -/
theorem KeysFit.hasColumn (h : c.KeysFit) {p q : Placement} {s target : Source}
    (hs : c.Denotes p s) (htarget : c.Denotes q target) (hq : q ∈ c.schema.labels)
    {key : ForeignKey} (hkey : key ∈ s.foreignKeys) (hleads : key.LeadsTo target)
    {column : String} (hcolumn : column ∈ key.referencedColumns) : target.hasColumn column := by
  obtain ⟨t, ht, hkey⟩ : ∃ t ∈ c.tables, key ∈ t.foreignKeys := by
    cases hs with
    | @table t ht => exact ⟨t, ht, hkey⟩
    | @aliased t _ ht => exact ⟨t, ht, hkey⟩
    | subquery => cases hkey
  obtain ⟨htables, hqueries⟩ := h t ht key hkey column hcolumn
  have hname := hleads.references_eq.symm
  rw [Source.hasColumn, List.contains_iff_mem]
  cases htarget with
  | table hu => exact Table.mem_withKeyColumns.2 (htables _ hu hname)
  | aliased hu => exact Table.mem_withKeyColumns.2 (htables _ hu hname)
  | @subquery query hquery htable => exact hqueries q hq hname query hquery htable

/-- Every node of a schema stands for what a placement of its catalog denotes. -/
theorem exists_denotes {t : Topology} {overrides : Overrides} {settings : BuildSettings}
    {s : Schema} (htopology : c.topology = .ok (t, overrides))
    (hs : Schema.build t overrides settings = .ok s) {e : Entry} (he : e ∈ s.entries) :
    ∃ p ∈ c.schema.labels, c.Denotes p (Entry.source e) := by
  obtain ⟨hlength, hrealizes⟩ := List.forall₂_iff_get.1 (realizes_of_build htopology hs)
  obtain ⟨i, hi, rfl⟩ := List.getElem_of_mem he
  have hi' : i < (c.schema.withParents none).length := hlength ▸ hi
  exact ⟨_, mem_labels_of_mem_withParents (List.getElem_mem hi'), (hrealizes i hi' hi).denotes⟩

/-- A catalog gives a schema in three steps: it is read, arranged and built. -/
theorem parseSchema_eq_ok_iff {format : Format} {text : String} {settings : BuildSettings}
    {s : Schema} : parseSchema format text settings = .ok s ↔
      ∃ c t overrides, parse format text = .ok c ∧ c.topology = .ok (t, overrides) ∧
        Schema.build t overrides settings = .ok s := by
  simp only [parseSchema, parseTopology, bind_eq_ok_iff, mapError_eq_ok_iff]
  constructor
  · rintro ⟨⟨t, overrides⟩, ⟨c, hparse, htopology⟩, hs⟩
    exact ⟨c, t, overrides, hparse, htopology, hs⟩
  · rintro ⟨c, t, overrides, hparse, htopology, hs⟩
    exact ⟨(t, overrides), ⟨c, hparse, htopology⟩, hs⟩

/-- Which columns of its joins a loaded schema does not offer: those that a foreign key lists as
referenced and that are not there, where a join follows this key. Any other column of a join is on
offer, at the parent if it stands on the left and at the child if it stands on the right; and where
the foreign keys of the catalog fit, every column of a join is. -/
theorem missing_column_iff {format : Format} {text : String} {settings : BuildSettings}
    {s : Schema} (h : parseSchema format text settings = .ok s) {d : Edge} (hd : d ∈ s.edges)
    {p e : Entry} (hp : s.entries[d.parent]? = some p) (he : s.entries[d.child]? = some e)
    {pairs : List (ColumnRef × ColumnRef)} (hpairs : d.join.condition = .columns pairs) :
    (¬ (Entry.source p).OffersPairs (Entry.source e) pairs ↔
      ∃ key target, (Entry.source p).FollowsKey (Entry.source e) key target pairs ∧
        ∃ column ∈ key.referencedColumns, ¬ target.hasColumn column) ∧
    ∀ c, parse format text = .ok c → c.KeysFit →
      (Entry.source p).OffersPairs (Entry.source e) pairs := by
  obtain ⟨override, settings', hjoin⟩ :=
    (Reachable.parse h).joinWith_of_mem_edges hd hp he
  obtain ⟨c, t, overrides, hparse, htopology, hs⟩ := parseSchema_eq_ok_iff.1 h
  obtain ⟨q, hq, hdenotes⟩ := exists_denotes htopology hs (List.mem_of_getElem? hp)
  obtain ⟨q', hq', hdenotes'⟩ := exists_denotes htopology hs (List.mem_of_getElem? he)
  have hoffers {key : ForeignKey} {target : Source}
      (hfollows : (Entry.source p).FollowsKey (Entry.source e) key target pairs) :=
    Source.offersPairs_iff_of_followsKey hdenotes.offersKeys hdenotes'.offersKeys hfollows
  have hcases := Source.offersPairs_or_followsKey hjoin hpairs
  refine ⟨⟨?_, ?_⟩, ?_⟩
  · intro hmissing
    obtain ⟨key, target, hfollows⟩ := hcases.resolve_left hmissing
    rw [hoffers hfollows] at hmissing
    push Not at hmissing
    exact ⟨key, target, hfollows, hmissing⟩
  · rintro ⟨key, target, hfollows, column, hcolumn, hmissing⟩ hall
    exact hmissing ((hoffers hfollows).1 hall column hcolumn)
  · intro c' hparse' hfit
    obtain rfl := Except.ok.inj (hparse'.symm.trans hparse)
    rcases hcases with hall | ⟨key, target, hfollows⟩
    · exact hall
    · refine (hoffers hfollows).2 fun column hcolumn => ?_
      cases hfollows with
      | ofParent hkey hleads => exact hfit.hasColumn hdenotes hdenotes' hq' hkey hleads hcolumn
      | ofChild hkey hleads => exact hfit.hasColumn hdenotes' hdenotes hq hkey hleads hcolumn

end Catalog

namespace Sample

/-- Sales whose key refers to a code that products do not have. -/
def codeText : String :=
  "\x7b\"tables\": [\x7b\"name\": \"sale\", \"foreign_keys\": [" ++
  "\x7b\"columns\": [\"product_id\"], \"references\": \"product\", " ++
  "\"referenced_columns\": [\"code\"]\x7d]\x7d, " ++
  "\x7b\"name\": \"product\", \"primary_key\": [\"id\"]\x7d], " ++
  "\"schema\": [\x7b\"table\": \"sale\", \"children\": [\x7b\"table\": \"product\"\x7d]\x7d]\x7d"

/-- The sales of the text, with the column of their key. -/
def codeSale : Source :=
  .table ⟨"sale", ["product_id"], [], [.single "product_id" "product" "code"]⟩

/-- The products of the text, with their key. -/
def codeProduct : Source := .table ⟨"product", ["id"], ["id"], []⟩

/-- The schema of the text. -/
def codeSchema : Schema :=
  ⟨.tree ⟨codeSale, none⟩
    (.tree ⟨codeProduct, some (keyJoin "sale" "product_id" "product" "code")⟩ .nil)⟩

theorem parseSchema_code : Catalog.parseSchema .json codeText {} = .ok codeSchema := by
  decide +kernel

/-- The text loads, and products are joined by a code that they do not offer. -/
theorem missing_code : Catalog.parseSchema .json codeText {} = .ok codeSchema ∧
    ∃ d ∈ codeSchema.edges, ∃ p e pairs, codeSchema.entries[d.parent]? = some p ∧
      codeSchema.entries[d.child]? = some e ∧ d.join.condition = .columns pairs ∧
        ∃ pair ∈ pairs, ¬ (Entry.source e).hasColumn pair.2.column :=
  ⟨parseSchema_code, _, List.mem_singleton.2 rfl, _, _, _, rfl, rfl, rfl, _,
    List.mem_singleton.2 rfl, by decide⟩

/-- The column that is not on offer is one that the key lists. -/
theorem missing_column_code : Catalog.parseSchema .json codeText {} = .ok codeSchema ∧
    ∃ key target, codeSale.FollowsKey codeProduct key target
        [(⟨"sale", "product_id"⟩, ⟨"product", "code"⟩)] ∧
      ∃ column ∈ key.referencedColumns, ¬ target.hasColumn column := by
  refine ⟨parseSchema_code, ?_⟩
  have hedge : codeSchema.edges = [⟨0, 1, keyJoin "sale" "product_id" "product" "code"⟩] := rfl
  refine (Catalog.missing_column_iff parseSchema_code (hedge ▸ List.mem_singleton.2 rfl) rfl rfl
    rfl).1.1 ?_
  intro hall
  exact absurd (hall _ (List.mem_singleton.2 rfl)).2.2 (by decide)

end Sample

end JoinForest
