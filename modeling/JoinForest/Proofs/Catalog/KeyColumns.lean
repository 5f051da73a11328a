import JoinForest.Source
import Mathlib.Data.List.Basic
import Mathlib.Data.List.Nodup
import Mathlib.Data.List.Perm.Basic

set_option autoImplicit false

/-!
# Key columns of tables

Completing a table appends the key columns that it lacks, each once and in the order in which the
keys first name them (`exists_foldl_addColumn`), and there is only one such list
(`Completes.unique`). A table that lacks none stays as it is (`Table.withKeyColumns_eq_self`), and
so does every table that was made call by call: each call lists the columns of the keys it declares
(`Table.ListsKeys.call`), and none takes a column away (`Table.key_columns`).
-/

namespace JoinForest

/-! ## Adding a column -/

theorem addColumn_of_mem {columns : List String} {column : String} (h : column ∈ columns) :
    addColumn columns column = columns :=
  if_pos (List.contains_iff_mem.2 h)

theorem addColumn_of_notMem {columns : List String} {column : String} (h : column ∉ columns) :
    addColumn columns column = columns ++ [column] :=
  if_neg (mt List.contains_iff_mem.1 h)

theorem mem_addColumn {columns : List String} {column added : String} :
    column ∈ addColumn columns added ↔ column ∈ columns ∨ column = added := by
  by_cases h : added ∈ columns
  · rw [addColumn_of_mem h]
    constructor
    · exact Or.inl
    · rintro (hcolumn | rfl)
      · exact hcolumn
      · exact h
  · rw [addColumn_of_notMem h, List.mem_append, List.mem_singleton]

/-! ## Completing a list of columns -/

/-- The added columns are those wanted that are not present, in the order in which they are first
wanted. As their places grow strictly, none comes twice. -/
structure Completes (present wanted added : List String) : Prop where
  mem_iff : ∀ column, column ∈ added ↔ column ∈ wanted ∧ column ∉ present
  ordered : added.Pairwise fun a b => wanted.idxOf a < wanted.idxOf b

namespace Completes

variable {present wanted added : List String} {column : String}

theorem nil (present : List String) : Completes present [] [] where
  mem_iff := by simp
  ordered := .nil

/-- Behind one more column in front, the places of all others are moved by one. -/
theorem ordered_cons (h : added.Pairwise fun a b => wanted.idxOf a < wanted.idxOf b)
    (hnew : column ∉ added) :
    added.Pairwise fun a b => (column :: wanted).idxOf a < (column :: wanted).idxOf b := by
  refine h.imp_of_mem ?_
  intro a b ha hb hlt
  have hne : ∀ c ∈ added, column ≠ c := fun c hc heq => hnew (heq ▸ hc)
  rw [List.idxOf_cons_ne _ (hne a ha), List.idxOf_cons_ne _ (hne b hb)]
  exact Nat.succ_lt_succ hlt

/-- A column that is present need not be added. -/
theorem cons_of_mem (h : Completes present wanted added) (hmem : column ∈ present) :
    Completes present (column :: wanted) added where
  mem_iff := by
    intro a
    rw [h.mem_iff, List.mem_cons]
    constructor
    · rintro ⟨ha, hpresent⟩
      exact ⟨Or.inr ha, hpresent⟩
    · rintro ⟨rfl | ha, hpresent⟩
      · exact absurd hmem hpresent
      · exact ⟨ha, hpresent⟩
  ordered := ordered_cons h.ordered fun hadded => ((h.mem_iff column).1 hadded).2 hmem

/-- A column that is not present is added in front of what is lacking with it. -/
theorem cons_of_notMem (h : Completes (present ++ [column]) wanted added)
    (hnew : column ∉ present) : Completes present (column :: wanted) (column :: added) := by
  have hadded : column ∉ added := fun hmem => ((h.mem_iff column).1 hmem).2 (by simp)
  refine ⟨?_, List.pairwise_cons.2 ⟨?_, ordered_cons h.ordered hadded⟩⟩
  · intro a
    rw [List.mem_cons, List.mem_cons, h.mem_iff, List.mem_append, List.mem_singleton, not_or]
    constructor
    · rintro (rfl | ⟨ha, hpresent, -⟩)
      · exact ⟨Or.inl rfl, hnew⟩
      · exact ⟨Or.inr ha, hpresent⟩
    · rintro ⟨rfl | ha, hpresent⟩
      · exact Or.inl rfl
      · by_cases heq : a = column
        · exact Or.inl heq
        · exact Or.inr ⟨ha, hpresent, heq⟩
  · intro b hb
    have hne : column ≠ b := fun heq => hadded (heq ▸ hb)
    rw [List.idxOf_cons_self, List.idxOf_cons_ne _ hne]
    exact Nat.succ_pos _

theorem nodup (h : Completes present wanted added) : added.Nodup := by
  refine h.ordered.imp ?_
  rintro a _ hlt rfl
  exact Nat.lt_irrefl _ hlt

/-- Only one list completes the columns. -/
theorem unique {added' : List String} (h : Completes present wanted added)
    (h' : Completes present wanted added') : added = added' := by
  have hperm : added.Perm added' :=
    (List.perm_ext_iff_of_nodup h.nodup h'.nodup).2 fun a => (h.mem_iff a).trans (h'.mem_iff a).symm
  refine hperm.eq_of_pairwise ?_ h.ordered h'.ordered
  intro a b _ _ hab hba
  exact absurd hba (Nat.lt_asymm hab)

end Completes

/-- Adding columns one by one, where each is looked for among those added so far, appends the ones
that were lacking. -/
theorem exists_foldl_addColumn (wanted present : List String) :
    ∃ added, wanted.foldl addColumn present = present ++ added ∧
      Completes present wanted added := by
  -- By induction on the columns wanted; what has been added before counts as present.
  induction wanted generalizing present with
  | nil => exact ⟨[], (List.append_nil present).symm, .nil present⟩
  | cons column wanted ih =>
    by_cases hmem : column ∈ present
    · obtain ⟨added, heq, h⟩ := ih present
      refine ⟨added, ?_, h.cons_of_mem hmem⟩
      rw [List.foldl_cons, addColumn_of_mem hmem, heq]
    · obtain ⟨added, heq, h⟩ := ih (present ++ [column])
      refine ⟨column :: added, ?_, h.cons_of_notMem hmem⟩
      rw [List.foldl_cons, addColumn_of_notMem hmem, heq, List.append_assoc,
        List.singleton_append]

namespace Table

variable {t : Table}

theorem mem_withKeyColumns {column : String} :
    column ∈ t.withKeyColumns.columns ↔ column ∈ t.columns ∨ column ∈ t.keyColumns := by
  obtain ⟨added, heq, h⟩ := exists_foldl_addColumn t.keyColumns t.columns
  rw [withKeyColumns, heq, List.mem_append, h.mem_iff]
  tauto

/-- Every key column is among the columns. -/
def ListsKeys (t : Table) : Prop := ∀ column ∈ t.keyColumns, column ∈ t.columns

/-- A table that lacks no key column stays as it is. -/
theorem withKeyColumns_eq_self (h : t.ListsKeys) : t.withKeyColumns = t := by
  obtain ⟨added, heq, hadded⟩ := exists_foldl_addColumn t.keyColumns t.columns
  have hnil : added = [] := by
    apply List.eq_nil_iff_forall_not_mem.2
    intro column hmem
    obtain ⟨hkey, hnew⟩ := (hadded.mem_iff column).1 hmem
    exact hnew (h column hkey)
  rw [withKeyColumns, heq, hnil, List.append_nil]

theorem listsKeys_withKeyColumns (t : Table) : t.withKeyColumns.ListsKeys :=
  fun _ hkey => mem_withKeyColumns.2 (Or.inr hkey)

/-! ## Tables made call by call -/

/-- A call on a table in the making. -/
inductive Call where
  | column (name : String)
  | columns (names : List String)
  | primaryKey (column : String)
  | foreignKey (column references referenced : String)
  deriving DecidableEq, Repr

/-- What a call makes of a table. -/
def call (t : Table) : Call → Table
  | .column name => t.withColumn name
  | .columns names => t.withColumns names
  | .primaryKey column => t.withPrimaryKey column
  | .foreignKey column references referenced => t.withForeignKey column references referenced

/-- The table that some calls make, one after the other. -/
def made (name : String) (calls : List Call) : Table := calls.foldl call (empty name)

/-- A call keeps every key column among the columns, also when it declares the primary key anew. -/
theorem ListsKeys.call (h : t.ListsKeys) (c : Call) : (t.call c).ListsKeys := by
  have hprimary : ∀ column ∈ t.primaryKey, column ∈ t.columns :=
    fun column hkey => h column (List.mem_append_left _ hkey)
  have hforeign : ∀ column ∈ t.foreignKeys.flatMap ForeignKey.columns, column ∈ t.columns :=
    fun column hkey => h column (List.mem_append_right _ hkey)
  intro column hkey
  cases c with
  | column name => exact List.mem_append_left _ (h column hkey)
  | columns names => exact List.mem_append_left _ (h column hkey)
  | primaryKey name =>
    rcases List.mem_append.1 hkey with hkey | hkey
    · exact mem_addColumn.2 (Or.inr (List.mem_singleton.1 hkey))
    · exact mem_addColumn.2 (Or.inl (hforeign column hkey))
  | foreignKey name references referenced =>
    rcases List.mem_append.1 hkey with hkey | hkey
    · exact mem_addColumn.2 (Or.inl (hprimary column hkey))
    · obtain ⟨key, hmem, hcolumn⟩ := List.mem_flatMap.1 hkey
      rcases List.mem_append.1 hmem with hmem | hmem
      · exact mem_addColumn.2 (Or.inl (hforeign column (List.mem_flatMap.2 ⟨key, hmem, hcolumn⟩)))
      · obtain rfl := List.mem_singleton.1 hmem
        exact mem_addColumn.2 (Or.inr (List.mem_singleton.1 hcolumn))

/-- A table lists the columns of its keys after every series of calls. -/
theorem listsKeys_made (name : String) (calls : List Call) : (made name calls).ListsKeys := by
  have hstart : (empty name).ListsKeys := by simp [ListsKeys, keyColumns, empty]
  rw [made]
  -- By induction on the calls, from any table that lists its keys.
  generalize empty name = t at hstart ⊢
  induction calls generalizing t with
  | nil => exact hstart
  | cons c calls ih => exact ih (t.call c) (hstart.call c)

/-- Completing a table appends the key columns that it lacks, in their order and each once, and
leaves the rest as it is; to do it again changes nothing. A table made call by call has them all. -/
theorem key_columns :
    (∀ t : Table, ∃ added,
      (∀ other, Completes t.columns t.keyColumns other ↔ other = added) ∧
        t.withKeyColumns = { t with columns := t.columns ++ added }) ∧
    (∀ t : Table, t.withKeyColumns.withKeyColumns = t.withKeyColumns) ∧
    ∀ (name : String) (calls : List Call),
      (∀ column ∈ (made name calls).keyColumns, column ∈ (made name calls).columns) ∧
        (made name calls).withKeyColumns = made name calls := by
  refine ⟨?_, ?_, ?_⟩
  · intro t
    obtain ⟨added, heq, h⟩ := exists_foldl_addColumn t.keyColumns t.columns
    refine ⟨added, ?_, by rw [withKeyColumns, heq]⟩
    intro other
    constructor
    · intro hother
      exact hother.unique h
    · rintro rfl
      exact h
  · intro t
    exact withKeyColumns_eq_self t.listsKeys_withKeyColumns
  · intro name calls
    have h := listsKeys_made name calls
    exact ⟨h, withKeyColumns_eq_self h⟩

end Table

/-- The column of a primary key that is declared anew stays, and both keys have theirs. -/
theorem Sample.key_columns_anew :
    (Table.made "sale"
        [.primaryKey "id", .primaryKey "code", .foreignKey "id" "item" "id"]).columns =
        ["id", "code"] ∧
      "code" ∈ (Table.made "sale"
        [.primaryKey "id", .primaryKey "code", .foreignKey "id" "item" "id"]).keyColumns ∧
      "code" ∈ (Table.made "sale"
        [.primaryKey "id", .primaryKey "code", .foreignKey "id" "item" "id"]).columns := by
  have hkey : "code" ∈ (Table.made "sale"
      [.primaryKey "id", .primaryKey "code", .foreignKey "id" "item" "id"]).keyColumns := by decide
  exact ⟨by decide, hkey, (Table.key_columns.2.2 _ _).1 _ hkey⟩

end JoinForest
