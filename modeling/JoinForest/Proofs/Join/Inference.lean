import JoinForest.Join
import Mathlib.Data.List.Zip

set_option autoImplicit false

/-!
# Inferred conditions

The foreign keys that count for the join of two sources, what their number decides
(`Source.inference_outcome`), and what becomes of it with the two sources exchanged
(`Source.inference_symmetric`).
-/

namespace JoinForest

/-!
## Foreign keys as candidates

Which foreign keys count when the join of two sources is inferred. A key leads to a source if it
refers to its relation and has as many columns, at least one, as it has targets there
(`ForeignKey.LeadsTo`). The candidates are the pairs of the keys that lead to the other side
(`Source.mem_keysTowards_iff`), so the condition is missing exactly if there is no such key
(`Source.inferCondition_eq_missing_iff`).
-/

namespace ForeignKey

/-- The key refers to the relation of the target and has as many columns, at least one, as it has
targets there. -/
structure LeadsTo (key : ForeignKey) (target : Source) : Prop where
  references_eq : key.references = target.relationName
  columns_ne_nil : key.columns ≠ []
  length_eq : key.columns.length = (key.targets target).length

/-- A key without columns has no pairs, nor has one that does not match its targets. -/
theorem pairs_ne_nil_iff {key : ForeignKey} {target : Source} :
    key.pairs target ≠ [] ↔
      key.columns ≠ [] ∧ key.columns.length = (key.targets target).length := by
  rw [pairs]
  split
  · next hlength =>
    rw [ne_eq, List.zip_eq_nil_iff, not_or]
    refine ⟨fun h => ⟨h.1, hlength⟩, fun h => ⟨h.1, fun htargets => h.1 ?_⟩⟩
    rwa [htargets, List.length_nil, List.length_eq_zero_iff] at hlength
  · next hlength => simp [hlength]

end ForeignKey

namespace Source

variable {parent child s target : Source} {reverse : Bool}

/-- The candidates towards a source are the pairs of the keys that lead there. -/
theorem mem_keysTowards_iff {pairs : List (String × String)} :
    pairs ∈ s.keysTowards target ↔
      ∃ key ∈ s.foreignKeys, key.LeadsTo target ∧ key.pairs target = pairs := by
  simp only [keysTowards, List.mem_filter, List.mem_map, beq_iff_eq, Bool.not_eq_true',
    List.isEmpty_eq_false_iff]
  constructor
  · rintro ⟨⟨key, ⟨hkey, href⟩, rfl⟩, hne⟩
    obtain ⟨hcolumns, hlength⟩ := ForeignKey.pairs_ne_nil_iff.1 hne
    exact ⟨key, hkey, ⟨href, hcolumns, hlength⟩, rfl⟩
  · rintro ⟨key, hkey, ⟨href, hcolumns, hlength⟩, rfl⟩
    exact ⟨⟨key, ⟨hkey, href⟩, rfl⟩, ForeignKey.pairs_ne_nil_iff.2 ⟨hcolumns, hlength⟩⟩

theorem keysTowards_eq_nil_iff :
    s.keysTowards target = [] ↔ ¬ ∃ key ∈ s.foreignKeys, key.LeadsTo target := by
  rw [List.eq_nil_iff_forall_not_mem]
  simp only [mem_keysTowards_iff]
  constructor
  · rintro h ⟨key, hkey, hleads⟩
    exact h _ ⟨key, hkey, hleads, rfl⟩
  · rintro h _ ⟨key, hkey, hleads, -⟩
    exact h ⟨key, hkey, hleads⟩

/-- Nothing is offered if no key of the parent leads to the child and, where keys of the child
count, none of these leads to the parent. -/
theorem joinCandidates_eq_nil_iff :
    parent.joinCandidates child reverse = [] ↔
      ¬ ((∃ key ∈ parent.foreignKeys, key.LeadsTo child) ∨
        reverse = true ∧ parent.relationName ≠ child.relationName ∧
          ∃ key ∈ child.foreignKeys, key.LeadsTo parent) := by
  rw [joinCandidates, not_or, ← keysTowards_eq_nil_iff, not_and, not_and,
    ← keysTowards_eq_nil_iff]
  -- Keys of the child are left out where both have one relation, or they would count twice.
  split
  · next hreverse =>
    rw [Bool.and_eq_true, bne_iff_ne] at hreverse
    simp [hreverse.1, hreverse.2]
  · next hreverse =>
    rw [Bool.and_eq_true, bne_iff_ne, not_and] at hreverse
    rw [List.map_eq_nil_iff, iff_self_and]
    intro _ hon hne
    exact absurd hne (hreverse hon)

theorem inferCondition_eq_missing_iff :
    parent.inferCondition child reverse = .error (.missingRelation parent.name child.name) ↔
      parent.joinCandidates child reverse = [] := by
  rw [inferCondition]
  split <;> simp_all

end Source

/-!
## Keys that count

The keys that count for the join of a parent and a child are those of the parent that lead to the
child and, where keys of children count and the two relations differ, those of the child that lead
to the parent (`Source.countedKeys`). Their number decides: without such a key the relation is
missing, with several it is ambiguous, and the only one gives the condition, its columns beside its
targets (`Source.inference_outcome`). Keys that do not count change nothing.

With the two sources exchanged the same keys count, each from the other side
(`Source.countedKeys_perm`). So the outcome is the same but for the sides of the equalities
(`Source.inference_symmetric`).
-/

instance (key : ForeignKey) (target : Source) : Decidable (key.LeadsTo target) :=
  decidable_of_iff (key.references = target.relationName ∧ key.columns ≠ [] ∧
      key.columns.length = (key.targets target).length)
    ⟨fun h => ⟨h.1, h.2.1, h.2.2⟩, fun h => ⟨h.references_eq, h.columns_ne_nil, h.length_eq⟩⟩

/-! ### Keys that count -/

/-- A foreign key between a parent and a child, on the side that declares it. -/
inductive SidedKey where
  | ofParent (key : ForeignKey)
  | ofChild (key : ForeignKey)
  deriving DecidableEq, Repr

namespace SidedKey

/-- The columns of the parent that the key speaks of. -/
def parentColumns (parent : Source) : SidedKey → List String
  | ofParent key => key.columns
  | ofChild key => key.targets parent

/-- The columns of the child that the key speaks of. -/
def childColumns (child : Source) : SidedKey → List String
  | ofParent key => key.targets child
  | ofChild key => key.columns

/-- The key seen with parent and child exchanged. -/
def mirror : SidedKey → SidedKey
  | ofParent key => ofChild key
  | ofChild key => ofParent key

/-- The key leads from the source that declares it to the other one. -/
def Leads (parent child : Source) : SidedKey → Prop
  | ofParent key => key.LeadsTo child
  | ofChild key => key.LeadsTo parent

/-- The equalities that the key asks for, position by position. -/
def equalities (parent child : Source) (key : SidedKey) : List (ColumnRef × ColumnRef) :=
  ((key.parentColumns parent).zip (key.childColumns child)).map fun (left, right) =>
    (⟨parent.name, left⟩, ⟨child.name, right⟩)

variable {parent child : Source} {key : SidedKey}

/-- Exchanging parent and child exchanges the sides of every equality. -/
theorem equalities_mirror (parent child : Source) (key : SidedKey) :
    key.mirror.equalities child parent = (key.equalities parent child).map Prod.swap := by
  have hzip : (key.mirror.parentColumns child).zip (key.mirror.childColumns parent) =
      ((key.parentColumns parent).zip (key.childColumns child)).map Prod.swap := by
    rw [List.zip_swap]
    cases key <;> rfl
  rw [equalities, equalities, hzip, List.map_map, List.map_map]
  rfl

namespace Leads

/-- A key that leads somewhere has as many columns as targets, so both sides are of one length. -/
theorem length_eq (h : key.Leads parent child) :
    (key.parentColumns parent).length = (key.childColumns child).length := by
  cases key with
  | ofParent key => exact ForeignKey.LeadsTo.length_eq h
  | ofChild key => exact (ForeignKey.LeadsTo.length_eq h).symm

theorem parentColumns_ne_nil (h : key.Leads parent child) : key.parentColumns parent ≠ [] := by
  cases key with
  | ofParent key => exact ForeignKey.LeadsTo.columns_ne_nil h
  | ofChild key =>
    intro hnil
    have hlength := h.length_eq
    rw [hnil] at hlength
    exact ForeignKey.LeadsTo.columns_ne_nil h (List.length_eq_zero_iff.1 hlength.symm)

/-- The left columns are all those of the parent, in their order. -/
theorem map_fst_equalities (h : key.Leads parent child) :
    (key.equalities parent child).map Prod.fst =
      (key.parentColumns parent).map (ColumnRef.mk parent.name) := by
  rw [equalities, List.map_map]
  change List.map (ColumnRef.mk parent.name ∘ Prod.fst) _ = _
  rw [← List.map_map, List.map_fst_zip (le_of_eq h.length_eq)]

/-- The right columns are all those of the child, in their order. -/
theorem map_snd_equalities (h : key.Leads parent child) :
    (key.equalities parent child).map Prod.snd =
      (key.childColumns child).map (ColumnRef.mk child.name) := by
  rw [equalities, List.map_map]
  change List.map (ColumnRef.mk child.name ∘ Prod.snd) _ = _
  rw [← List.map_map, List.map_snd_zip (le_of_eq h.length_eq.symm)]

theorem equalities_ne_nil (h : key.Leads parent child) : key.equalities parent child ≠ [] := by
  intro hnil
  have hfst := h.map_fst_equalities
  rw [hnil, List.map_nil, eq_comm, List.map_eq_nil_iff] at hfst
  exact h.parentColumns_ne_nil hfst

end Leads
end SidedKey

namespace Source

/-- The keys of `s` that lead to the target, in order of declaration. -/
def keysLeadingTo (s target : Source) : List ForeignKey :=
  s.foreignKeys.filter fun key => decide (key.LeadsTo target)

theorem mem_keysLeadingTo_iff {s target : Source} {key : ForeignKey} :
    key ∈ s.keysLeadingTo target ↔ key ∈ s.foreignKeys ∧ key.LeadsTo target := by
  rw [keysLeadingTo, List.mem_filter, decide_eq_true_iff]

/-- The keys that count between parent and child. Those of the child do so only when `reverse` is
set and the two relations differ. -/
def countedKeys (parent child : Source) (reverse : Bool) : List SidedKey :=
  (parent.keysLeadingTo child).map .ofParent ++
    if reverse = true ∧ parent.relationName ≠ child.relationName then
      (child.keysLeadingTo parent).map .ofChild
    else []

variable {parent child : Source} {reverse : Bool}

/-- Keys that are counted lead from the one side to the other. -/
theorem leads_of_mem_countedKeys {key : SidedKey} (h : key ∈ parent.countedKeys child reverse) :
    key.Leads parent child := by
  rcases List.mem_append.1 h with h | h
  · obtain ⟨k, hk, rfl⟩ := List.mem_map.1 h
    exact (mem_keysLeadingTo_iff.1 hk).2
  · split at h
    · obtain ⟨k, hk, rfl⟩ := List.mem_map.1 h
      exact (mem_keysLeadingTo_iff.1 hk).2
    · cases h

/-! ### Candidates -/

/-- What keys give towards a source is what the keys that lead there give. -/
theorem keysTowards_eq (s target : Source) :
    s.keysTowards target = (s.keysLeadingTo target).map fun key =>
      key.columns.zip (key.targets target) := by
  rw [keysTowards, List.filter_map, List.filter_filter]
  have hfilter : (s.foreignKeys.filter fun key =>
      ((fun pairs => !List.isEmpty pairs) ∘ fun key => key.pairs target) key &&
        key.references == target.relationName) = s.keysLeadingTo target := by
    refine List.filter_congr fun key _ => ?_
    have hpairs : key.pairs target ≠ [] ↔
        key.columns ≠ [] ∧ key.columns.length = (key.targets target).length :=
      ForeignKey.pairs_ne_nil_iff
    rw [Bool.eq_iff_iff]
    simp only [Function.comp_apply, Bool.and_eq_true, Bool.not_eq_true', List.isEmpty_eq_false_iff,
      beq_iff_eq, decide_eq_true_eq, hpairs]
    exact ⟨fun h => ⟨h.2, h.1.1, h.1.2⟩,
      fun h => ⟨⟨h.columns_ne_nil, h.length_eq⟩, h.references_eq⟩⟩
  rw [hfilter]
  refine List.map_congr_left fun key hkey => ?_
  rw [ForeignKey.pairs, if_pos (mem_keysLeadingTo_iff.1 hkey).2.length_eq]

/-- The candidates are the equalities of the keys that count. -/
theorem joinCandidates_eq (parent child : Source) (reverse : Bool) :
    parent.joinCandidates child reverse =
      (parent.countedKeys child reverse).map (SidedKey.equalities parent child) := by
  have hforward : ((parent.keysTowards child).map fun pairs => pairs.map fun (key, target) =>
      ((⟨parent.name, key⟩, ⟨child.name, target⟩) : ColumnRef × ColumnRef)) =
        ((parent.keysLeadingTo child).map .ofParent).map (SidedKey.equalities parent child) := by
    rw [keysTowards_eq, List.map_map, List.map_map]
    rfl
  have hbackward : ((child.keysTowards parent).map fun pairs => pairs.map fun (key, target) =>
      ((⟨parent.name, target⟩, ⟨child.name, key⟩) : ColumnRef × ColumnRef)) =
        ((child.keysLeadingTo parent).map .ofChild).map (SidedKey.equalities parent child) := by
    rw [keysTowards_eq, List.map_map, List.map_map]
    refine List.map_congr_left fun key _ => ?_
    simp only [Function.comp_apply, SidedKey.equalities, SidedKey.parentColumns,
      SidedKey.childColumns]
    rw [← List.zip_swap, List.map_map]
    rfl
  simp only [joinCandidates, countedKeys, hforward, hbackward, Bool.and_eq_true, bne_iff_ne]
  split
  · rw [List.map_append]
  · rw [List.append_nil]

/-! ### Keys that do not count -/

/-- The source with those of its foreign keys that are to be kept. -/
def keepKeys (keep : ForeignKey → Bool) : Source → Source
  | table t => table { t with foreignKeys := t.foreignKeys.filter keep }
  | aliased name t => aliased name { t with foreignKeys := t.foreignKeys.filter keep }
  | subquery q => subquery q

variable (keep : ForeignKey → Bool) (s : Source)

@[simp] theorem name_keepKeys : (s.keepKeys keep).name = s.name := by cases s <;> rfl

@[simp] theorem relationName_keepKeys : (s.keepKeys keep).relationName = s.relationName := by
  cases s <;> rfl

@[simp] theorem primaryKey_keepKeys : (s.keepKeys keep).primaryKey = s.primaryKey := by
  cases s <;> rfl

@[simp] theorem foreignKeys_keepKeys :
    (s.keepKeys keep).foreignKeys = s.foreignKeys.filter keep := by cases s <;> rfl

@[simp] theorem targets_keepKeys (key : ForeignKey) :
    key.targets (s.keepKeys keep) = key.targets s := by simp [ForeignKey.targets]

theorem leadsTo_keepKeys_iff (key : ForeignKey) :
    key.LeadsTo (s.keepKeys keep) ↔ key.LeadsTo s := by
  constructor
  · rintro ⟨hreferences, hcolumns, hlength⟩
    exact ⟨by simpa using hreferences, hcolumns, by simpa using hlength⟩
  · rintro ⟨hreferences, hcolumns, hlength⟩
    exact ⟨by simpa using hreferences, hcolumns, by simpa using hlength⟩

variable {keep s} {target : Source} {keep' : ForeignKey → Bool}

theorem keysLeadingTo_keepKeys (h : ∀ key ∈ s.foreignKeys, key.LeadsTo target → keep key = true) :
    (s.keepKeys keep).keysLeadingTo (target.keepKeys keep') = s.keysLeadingTo target := by
  rw [keysLeadingTo, foreignKeys_keepKeys, List.filter_filter, keysLeadingTo]
  refine List.filter_congr fun key hkey => ?_
  rw [Bool.eq_iff_iff]
  simp only [Bool.and_eq_true, decide_eq_true_eq, leadsTo_keepKeys_iff]
  exact and_iff_left_of_imp (h key hkey)

/-- Keys that lead elsewhere are not counted, so leaving them out changes nothing. -/
theorem countedKeys_keepKeys
    (hkeep : ∀ key ∈ parent.foreignKeys, key.LeadsTo child → keep key = true)
    (hkeep' : ∀ key ∈ child.foreignKeys, key.LeadsTo parent → keep' key = true) :
    (parent.keepKeys keep).countedKeys (child.keepKeys keep') reverse =
      parent.countedKeys child reverse := by
  simp only [countedKeys, keysLeadingTo_keepKeys hkeep, keysLeadingTo_keepKeys hkeep',
    relationName_keepKeys]

theorem equalities_keepKeys (parent child : Source) (key : SidedKey) :
    key.equalities (parent.keepKeys keep) (child.keepKeys keep') =
      key.equalities parent child := by
  cases key <;> simp [SidedKey.equalities, SidedKey.parentColumns, SidedKey.childColumns]

/-! ### The outcome -/

/-- The number of counted keys decides between the three outcomes. -/
theorem inferCondition_eq (parent child : Source) (reverse : Bool) :
    parent.inferCondition child reverse =
      match parent.countedKeys child reverse with
      | [] => .error (.missingRelation parent.name child.name)
      | [key] => .ok (.columns (key.equalities parent child))
      | keys => .error (.ambiguousJoin parent.name child.name keys.length) := by
  rw [inferCondition, joinCandidates_eq]
  rcases parent.countedKeys child reverse with _ | ⟨key, _ | ⟨key', keys⟩⟩
  · rfl
  · rfl
  · simp

/-- Several keys make the relation ambiguous. -/
theorem inferCondition_of_two_le (h : 2 ≤ (parent.countedKeys child reverse).length) :
    parent.inferCondition child reverse = .error (.ambiguousJoin parent.name child.name
      (parent.countedKeys child reverse).length) := by
  rw [inferCondition_eq]
  split
  · next hkeys => simp [hkeys] at h
  · next hkeys => simp [hkeys] at h
  · rfl

/-- The outcome of inferring a condition. Without a key that counts the relation is missing, and
with several it is ambiguous. The only one gives the condition: on the left its columns at the
parent and on the right those at the child, each in their order, which are its own columns on the
side that declares it and its targets on the other. Keys that do not lead from the one source to the
other can be taken away from both. -/
theorem inference_outcome (parent child : Source) (reverse : Bool) :
    ((parent.countedKeys child reverse).length = 0 →
      parent.inferCondition child reverse =
        .error (.missingRelation parent.name child.name)) ∧
    (2 ≤ (parent.countedKeys child reverse).length →
      parent.inferCondition child reverse = .error (.ambiguousJoin parent.name child.name
        (parent.countedKeys child reverse).length)) ∧
    ((parent.countedKeys child reverse).length = 1 →
      ∃ key pairs, parent.countedKeys child reverse = [key] ∧
        parent.inferCondition child reverse = .ok (.columns pairs) ∧ pairs ≠ [] ∧
          pairs.map Prod.fst = (key.parentColumns parent).map (ColumnRef.mk parent.name) ∧
            pairs.map Prod.snd = (key.childColumns child).map (ColumnRef.mk child.name)) ∧
    ∀ keep keep' : ForeignKey → Bool,
      (∀ key ∈ parent.foreignKeys, key.LeadsTo child → keep key = true) →
        (∀ key ∈ child.foreignKeys, key.LeadsTo parent → keep' key = true) →
          (parent.keepKeys keep).inferCondition (child.keepKeys keep') reverse =
            parent.inferCondition child reverse := by
  refine ⟨?_, inferCondition_of_two_le, ?_, ?_⟩
  · intro hnone
    rw [inferCondition_eq, List.length_eq_zero_iff.1 hnone]
  · intro hone
    obtain ⟨key, hkey⟩ := List.length_eq_one_iff.1 hone
    have hmem : key ∈ parent.countedKeys child reverse := by
      rw [hkey]
      exact List.mem_singleton_self key
    have hleads : key.Leads parent child := leads_of_mem_countedKeys hmem
    refine ⟨key, key.equalities parent child, hkey, ?_, hleads.equalities_ne_nil,
      hleads.map_fst_equalities, hleads.map_snd_equalities⟩
    rw [inferCondition_eq, hkey]
  · intro keep keep' hkeep hkeep'
    simp only [inferCondition_eq, countedKeys_keepKeys hkeep hkeep', equalities_keepKeys,
      name_keepKeys]

end Source

namespace Sample

/-- Flights leave from one airport and arrive at another; a third key has a column too many. -/
def flight : Source := .table ⟨"flight", ["number", "day", "origin", "destination"],
  ["number", "day"], [.single "origin" "airport" "id", .single "destination" "airport" "id",
    ⟨["origin", "day"], "airport", ["id"]⟩]⟩

/-- Airports refer to nothing. -/
def airport : Source := .table ⟨"airport", ["id"], ["id"], []⟩

/-- Tickets are for one flight, by its primary key; a second key has no columns. -/
def ticket : Source := .table ⟨"ticket", ["number", "day"], [],
  [⟨["number", "day"], "flight", []⟩, ⟨[], "flight", []⟩]⟩

/-- Airports have no tickets, flights two airports each, and a ticket below its flight is joined by
its key, which stays when the keys that do not count are taken away. -/
theorem outcome_ticket :
    airport.inferCondition ticket true = .error (.missingRelation "airport" "ticket") ∧
      flight.inferCondition airport true = .error (.ambiguousJoin "flight" "airport" 2) ∧
      (∃ key pairs, flight.countedKeys ticket true = [key] ∧
        flight.inferCondition ticket true = .ok (.columns pairs) ∧ pairs ≠ [] ∧
          pairs.map Prod.fst = (key.parentColumns flight).map (ColumnRef.mk "flight") ∧
            pairs.map Prod.snd = (key.childColumns ticket).map (ColumnRef.mk "ticket")) ∧
      (flight.keepKeys fun _ => false).inferCondition
          (ticket.keepKeys fun key => !key.columns.isEmpty) true =
        flight.inferCondition ticket true := by
  refine ⟨?_, ?_, ?_, ?_⟩
  · exact (Source.inference_outcome airport ticket true).1 (by decide)
  · exact (Source.inference_outcome flight airport true).2.1 (by decide)
  · exact (Source.inference_outcome flight ticket true).2.2.1 (by decide)
  · refine (Source.inference_outcome flight ticket true).2.2.2 _ _ ?_ ?_
    · decide
    · decide

end Sample

/-! ### Parent and child exchanged -/

namespace Source

variable {a b : Source}

/-- Between different relations the same keys count from either side. -/
theorem countedKeys_perm (h : a.relationName ≠ b.relationName) :
    (b.countedKeys a true).Perm ((a.countedKeys b true).map SidedKey.mirror) := by
  simp only [countedKeys, ne_eq, h, h.symm, not_false_eq_true, and_self, if_true, List.map_append,
    List.map_map]
  -- The keys of either side come first where that side is the parent.
  exact List.perm_append_comm

/-- Between different relations, with keys of both sides counted, it does not matter which of two
sources is the parent: the same equalities are inferred with their sides exchanged, or the relation
is missing both ways, or ambiguous both ways with as many keys. -/
theorem inference_symmetric (h : a.relationName ≠ b.relationName) :
    (∃ pairs, a.inferCondition b true = .ok (.columns pairs) ∧
      b.inferCondition a true = .ok (.columns (pairs.map Prod.swap))) ∨
    (a.inferCondition b true = .error (.missingRelation a.name b.name) ∧
      b.inferCondition a true = .error (.missingRelation b.name a.name)) ∨
    ∃ count, 2 ≤ count ∧
      a.inferCondition b true = .error (.ambiguousJoin a.name b.name count) ∧
        b.inferCondition a true = .error (.ambiguousJoin b.name a.name count) := by
  have hperm := countedKeys_perm h
  have hlength : (b.countedKeys a true).length = (a.countedKeys b true).length := by
    rw [hperm.length_eq, List.length_map]
  rcases hkeys : a.countedKeys b true with _ | ⟨key, _ | ⟨key', keys⟩⟩
  · rw [hkeys, List.map_nil, List.perm_nil] at hperm
    refine Or.inr (Or.inl ⟨?_, ?_⟩)
    · rw [inferCondition_eq, hkeys]
    · rw [inferCondition_eq, hperm]
  · rw [hkeys, List.map_singleton, List.perm_singleton] at hperm
    refine Or.inl ⟨key.equalities a b, ?_, ?_⟩
    · rw [inferCondition_eq, hkeys]
    · rw [inferCondition_eq, hperm, ← SidedKey.equalities_mirror]
  · have htwo : 2 ≤ (a.countedKeys b true).length := by simp [hkeys]
    refine Or.inr (Or.inr ⟨(a.countedKeys b true).length, htwo, ?_, ?_⟩)
    · exact inferCondition_of_two_le htwo
    · rw [← hlength] at htwo ⊢
      exact inferCondition_of_two_le htwo

end Source

namespace Sample

/-- A flight with its tickets below and a ticket with its flight below have the same equalities. -/
theorem symmetric_ticket :
    flight.relationName ≠ ticket.relationName ∧
      ∃ pairs, flight.inferCondition ticket true = .ok (.columns pairs) ∧
        ticket.inferCondition flight true = .ok (.columns (pairs.map Prod.swap)) := by
  have hne : flight.relationName ≠ ticket.relationName := by decide
  refine ⟨hne, ?_⟩
  obtain hpairs | ⟨hmissing, -⟩ | ⟨_, -, hambiguous, -⟩ := Source.inference_symmetric hne
  · exact hpairs
  · cases hmissing
  · cases hambiguous

end Sample

end JoinForest
