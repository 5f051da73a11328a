import JoinForest.Proofs.Schema.Numbering
import JoinForest.Proofs.Schema.Sound
import JoinForest.Schema.Reshape

set_option autoImplicit false

/-!
# Building

What building puts together, and what it comes to when a fault is met (`Schema.build_outcome`).
-/

namespace JoinForest

open Forest

/-!
## Built schemas

Building puts the sources of the topology in their places, each joined onto its parent as the
overrides and the settings say (`joined_eq_ok_iff`). It succeeds exactly for topologies with a
root and distinct names in which all these joins can be made (`build_eq_ok_iff`).
-/

theorem firstRepeat?_eq_none_iff {α : Type} [DecidableEq α] {seen xs : List α} :
    firstRepeat? seen xs = none ↔ xs.Nodup ∧ ∀ a ∈ xs, a ∉ seen := by
  induction xs generalizing seen with
  | nil => simp [firstRepeat?]
  | cons a xs ih =>
    by_cases ha : a ∈ seen
    · simp [firstRepeat?, ha]
    · simp only [firstRepeat?, ha, if_false, ih, List.nodup_cons, List.forall_mem_cons,
        not_false_eq_true, true_and]
      constructor
      · rintro ⟨hxs, hseen⟩
        simp only [List.mem_cons, not_or] at hseen
        exact ⟨⟨fun h => (hseen a h).1 rfl, hxs⟩, fun b hb => (hseen b hb).2⟩
      · rintro ⟨⟨hna, hxs⟩, hseen⟩
        refine ⟨hxs, fun b hb => ?_⟩
        simp only [List.mem_cons, not_or]
        exact ⟨fun heq => hna (heq ▸ hb), hseen b hb⟩

/-- The first element that equals an earlier one is found. -/
theorem firstRepeat?_append {α : Type} [DecidableEq α] {seen before after : List α} {a : α}
    (hbefore : before.Nodup) (hseen : ∀ b ∈ before, b ∉ seen) (ha : a ∈ seen ∨ a ∈ before) :
    firstRepeat? seen (before ++ a :: after) = some a := by
  induction before generalizing seen with
  | nil =>
    have hmem : a ∈ seen := ha.resolve_right List.not_mem_nil
    simp [firstRepeat?, hmem]
  | cons b before ih =>
    rw [List.nodup_cons] at hbefore
    rw [List.forall_mem_cons] at hseen
    rw [List.cons_append, firstRepeat?, if_neg hseen.1]
    apply ih hbefore.2
    · intro c hc hmem
      rcases List.mem_cons.1 hmem with rfl | hmem
      · exact hbefore.1 hc
      · exact hseen.2 c hc hmem
    · rcases ha with ha | ha
      · exact Or.inl (List.mem_cons_of_mem b ha)
      · rcases List.mem_cons.1 ha with rfl | ha
        · exact Or.inl List.mem_cons_self
        · exact Or.inr ha

/-- Every member of a forest below `parent` has the join that building makes for it. -/
def Joined (overrides : Overrides) (settings : BuildSettings) (parent : Option Member)
    (f : Forest Member) : Prop :=
  ∀ pm ∈ f.withParents parent, Topology.joinOnto overrides settings (pm.1.map Member.source)
    pm.2.source = .ok pm.2.join

namespace Topology

/-- Joining gives the forest of the sources in which every member has the join onto its parent. -/
theorem joined_eq_ok_iff (overrides : Overrides) (settings : BuildSettings) (t : Forest Source)
    (f : Forest Member) (parent : Option Member) :
    joined overrides settings (parent.map Member.source) t = .ok f ↔
      f.map Member.source = t ∧ Joined overrides settings parent f := by
  induction t generalizing f parent with
  | nil =>
    cases f <;> simp [joined, Forest.map, Joined, withParents]
  | cons source cs rest ihc ihr =>
    simp only [joined, bind_eq_ok_iff]
    constructor
    · rintro ⟨join, hjoin, below, hbelow, after, hafter, hf⟩
      obtain rfl : cons ⟨source, join⟩ below after = f := Except.ok.inj hf
      have hc := (ihc below (some ⟨source, join⟩)).1 hbelow
      have hr := (ihr after parent).1 hafter
      refine ⟨by rw [Forest.map, hc.1, hr.1], ?_⟩
      simp only [Joined, withParents, List.forall_mem_cons, List.forall_mem_append]
      exact ⟨hjoin, hc.2, hr.2⟩
    · rintro ⟨hmap, hall⟩
      cases f with
      | nil => simp [Forest.map] at hmap
      | cons m below after =>
        simp only [Forest.map, Forest.cons.injEq] at hmap
        obtain ⟨rfl, hc, hr⟩ := hmap
        simp only [Joined, withParents, List.forall_mem_cons, List.forall_mem_append] at hall
        exact ⟨m.join, hall.1, below, (ihc below (some m)).2 ⟨hc, hall.2.1⟩, after,
          (ihr after parent).2 ⟨hr, hall.2.2⟩, rfl⟩

/-- Joined members carry a join exactly if they have a parent. -/
theorem join_isSome_of_joinOnto {overrides : Overrides} {settings : BuildSettings}
    {parent : Option Source} {source : Source} {join : Option Join}
    (h : joinOnto overrides settings parent source = .ok join) : join.isSome = parent.isSome := by
  cases parent with
  | none =>
    obtain rfl : none = join := Except.ok.inj h
    rfl
  | some p =>
    obtain ⟨j, -, rfl⟩ := map_eq_ok_iff.1 h
    rfl

end Topology

theorem names_eq_of_map_source {t : Topology} {s : Schema} (h : s.forest.map Member.source = t) :
    s.names = t.names := by
  rw [Topology.names, ← h, labels_map, List.map_map]
  rfl

/-- Building succeeds exactly for topologies with distinct names and a root in which every join
can be made, and gives the forest with these joins. -/
theorem Schema.build_eq_ok_iff {t : Topology} {overrides : Overrides} {settings : BuildSettings}
    {s : Schema} :
    Schema.build t overrides settings = .ok s ↔
      t.names.Nodup ∧ t ≠ .nil ∧ s.forest.map Member.source = t ∧
        Joined overrides settings none s.forest := by
  have hjoined (f : Forest Member) := Topology.joined_eq_ok_iff overrides settings t f none
  constructor
  · intro h
    cases hrepeat : firstRepeat? [] t.names with
    | some name => simp [Schema.build, hrepeat] at h
    | none =>
      cases hf : Topology.joined overrides settings none t with
      | error e => simp [Schema.build, hrepeat, hf] at h
      | ok f =>
        simp only [Schema.build, hrepeat, hf, Schema.ofForest_eq_ok_iff] at h
        obtain ⟨rfl, hs⟩ := h
        obtain ⟨hmap, hall⟩ := (hjoined _).1 hf
        refine ⟨(firstRepeat?_eq_none_iff.1 hrepeat).1, ?_, hmap, hall⟩
        rintro rfl
        cases hforest : s.forest with
        | nil => exact hs.ne_nil hforest
        | cons m cs rest => simp [hforest, Forest.map] at hmap
  · rintro ⟨hnames, hne, hmap, hall⟩
    have hrepeat : firstRepeat? [] t.names = none :=
      firstRepeat?_eq_none_iff.2 ⟨hnames, by simp⟩
    have hf : Topology.joined overrides settings none t = .ok s.forest :=
      (hjoined s.forest).2 ⟨hmap, hall⟩
    simp only [Schema.build, hrepeat, hf, Schema.ofForest_eq_ok_iff, true_and]
    refine ⟨?_, fun pm hpm => ?_, ?_⟩
    · rw [names_eq_of_map_source hmap]
      exact hnames
    · rw [Topology.join_isSome_of_joinOnto (hall pm hpm), Option.isSome_map]
    · intro hforest
      rw [hforest] at hmap
      exact hne hmap.symm

/-!
## The outcome of building

Building looks for faults in a fixed order: a name that repeats an earlier one, a join that cannot
be made, and a missing root, the first two in pre-order. The joins are one loop over the nodes with
their parents (`discard_joined`), so that the first one that cannot be made is reported. Without
faults every node is joined onto its parent as the overrides and the settings say
(`Schema.BuiltFrom`). `Schema.build_outcome` brings these together.
-/

/-! ### Joins that cannot be made -/

namespace Topology

variable {overrides others : Overrides} {settings : BuildSettings}

/-- The join of a source onto its parent fails with an error. -/
def JoinFails (overrides : Overrides) (settings : BuildSettings) (pm : Option Source × Source)
    (e : SchemaError) : Prop :=
  ∃ p, pm.1 = some p ∧
    p.joinWith pm.2 (overrides.get? p.name pm.2.name) settings = .error e

/-- Joining onto a parent ends in exactly the errors that are described. -/
theorem joinOnto_eq_error_iff {pm : Option Source × Source} {e : SchemaError} :
    joinOnto overrides settings pm.1 pm.2 = .error e ↔ JoinFails overrides settings pm e := by
  obtain ⟨parent, source⟩ := pm
  cases parent with
  | none => simp [joinOnto, JoinFails]
  | some p =>
    cases hjoin : p.joinWith source (overrides.get? p.name source.name) settings with
    | error e' => simp [joinOnto, JoinFails, hjoin, Except.map]
    | ok join => simp [joinOnto, JoinFails, hjoin, Except.map]

theorem discard_joinOnto_eq_ok_iff {pm : Option Source × Source} :
    discard (joinOnto overrides settings pm.1 pm.2) = .ok ⟨⟩ ↔
      ∀ e, ¬ JoinFails overrides settings pm e := by
  simp only [← joinOnto_eq_error_iff]
  cases joinOnto overrides settings pm.1 pm.2 with
  | error e => exact iff_of_false nofun fun h => h e rfl
  | ok join => exact iff_of_true rfl nofun

/-- Joining a forest goes through its nodes in pre-order. -/
theorem discard_joined (parent : Option Source) (t : Forest Source) :
    discard (joined overrides settings parent t) =
      (t.withParents parent).forM fun pm => discard (joinOnto overrides settings pm.1 pm.2) := by
  simp only [List.forM_eq_forM]
  induction t generalizing parent with
  | nil => rfl
  | cons source cs rest ihc ihr =>
    rw [withParents, List.forM_cons, List.forM_append, ← ihc, ← ihr, joined]
    cases joinOnto overrides settings parent source with
    | error e => rfl
    | ok join =>
      cases joined overrides settings (some source) cs with
      | error e => rfl
      | ok below => cases joined overrides settings parent rest <;> rfl

/-- The first join that cannot be made ends the work. -/
theorem joined_eq_error {parent : Option Source} {t : Forest Source}
    {before after : List (Option Source × Source)} {pm : Option Source × Source} {e : SchemaError}
    (hsplit : t.withParents parent = before ++ pm :: after)
    (hbefore : ∀ qm ∈ before, ∀ e', ¬ JoinFails overrides settings qm e')
    (hfails : JoinFails overrides settings pm e) :
    joined overrides settings parent t = .error e := by
  rw [← discard_eq_error_iff, discard_joined, forM_eq_error_iff]
  refine ⟨before, pm, after, hsplit, ?_, ?_⟩
  · intro qm hqm
    exact discard_joinOnto_eq_ok_iff.2 (hbefore qm hqm)
  · exact discard_eq_error_iff.2 (joinOnto_eq_error_iff.2 hfails)

/-- If every node can be joined onto its parent, the topology can. -/
theorem exists_joined {parent : Option Source} {t : Forest Source}
    (h : ∀ pm ∈ t.withParents parent, ∀ e, ¬ JoinFails overrides settings pm e) :
    ∃ f, joined overrides settings parent t = .ok f := by
  rw [← discard_eq_ok_iff, discard_joined, forM_eq_ok_iff]
  intro pm hpm
  exact discard_joinOnto_eq_ok_iff.2 (h pm hpm)

/-- Of the overrides only those for a parent and its child are read. -/
theorem joined_congr {parent : Option Source} {t : Forest Source}
    (h : ∀ pm ∈ t.withParents parent, ∀ p, pm.1 = some p →
      overrides.get? p.name pm.2.name = others.get? p.name pm.2.name) :
    joined overrides settings parent t = joined others settings parent t := by
  induction t generalizing parent with
  | nil => rfl
  | cons source cs rest ihc ihr =>
    rw [withParents, List.forall_mem_cons, List.forall_mem_append] at h
    obtain ⟨hown, hc, hr⟩ := h
    have hjoin : joinOnto overrides settings parent source =
        joinOnto others settings parent source := by
      cases parent with
      | none => rfl
      | some p => rw [joinOnto, joinOnto, hown p rfl]
    rw [joined, joined, hjoin, ihc hc, ihr hr]

end Topology

namespace Schema

variable {t : Topology} {overrides : Overrides} {settings : BuildSettings} {s : Schema}

/-- Distinct names leave the joins to be made. -/
theorem build_of_nodup (h : t.names.Nodup) : build t overrides settings =
    Topology.joined overrides settings none t >>= ofForest := by
  rw [build, firstRepeat?_eq_none_iff.2 ⟨h, by simp⟩]
  cases Topology.joined overrides settings none t <;> rfl

/-! ### What is built -/

/-- The nodes are the sources of the topology in pre-order, below the same parents and joined onto
them as the overrides and the settings say. -/
structure BuiltFrom (s : Schema) (t : Topology) (overrides : Overrides)
    (settings : BuildSettings) : Prop where
  /-- The nodes come in pre-order, with their parents. -/
  nodes_eq : s.entries.map (fun e => ((s.parent? e).map Entry.source, Entry.source e)) =
    t.withParents none
  /-- The roots come in order. -/
  roots_eq : s.roots.map Member.source = t.roots
  /-- Nothing is joined onto a root. -/
  edge_root : ∀ e ∈ s.entries, s.parent? e = none → e.edge? = none
  /-- Any other node is joined onto its parent by the join of the two. -/
  edge_below : ∀ e ∈ s.entries, ∀ p, s.parent? e = some p → ∃ join,
    (Entry.source p).joinWith (Entry.source e)
      (overrides.get? (Entry.name p) (Entry.name e)) settings = .ok join ∧
        e.edge? = some ⟨p.key, e.key, join⟩

/-- A built schema has the relations of the topology and the joins of its pairs. -/
theorem builtFrom_of_build (h : build t overrides settings = .ok s) :
    s.BuiltFrom t overrides settings := by
  obtain ⟨-, -, hmap, hjoined⟩ := build_eq_ok_iff.1 h
  refine ⟨?_, ?_, ?_, ?_⟩
  · have hparents := withParents_map Member.source none s.forest
    rw [Option.map_none, hmap, ← map_parent_entries, List.map_map] at hparents
    rw [hparents]
    refine List.map_congr_left ?_
    intro e _
    simp only [Function.comp_apply, Option.map_map]
    rfl
  · rw [← hmap, roots_map]
    rfl
  · intro e he hp
    have hparent := parent?_isSome he
    rw [hp] at hparent
    cases hk : e.parent with
    | none => simp [Entry.edge?, hk]
    | some k => simp [hk] at hparent
  · intro e he p hp
    have hjoin := hjoined _ (mem_withParents_of_entry he)
    rw [hp] at hjoin
    obtain ⟨join, hjoin, hsome⟩ := map_eq_ok_iff.1 hjoin
    exact ⟨join, hjoin, edge?_eq_some_iff.2 ⟨(parent_of_parent? hp).2, rfl, hsome.symm⟩⟩

/-- Without faults building succeeds. -/
theorem exists_build (hnodup : t.names.Nodup) (hne : t ≠ .nil)
    (h : ∀ pm ∈ t.withParents none, ∀ e, ¬ Topology.JoinFails overrides settings pm e) :
    ∃ s, build t overrides settings = .ok s := by
  obtain ⟨f, hf⟩ := Topology.exists_joined h
  obtain ⟨hmap, hall⟩ := (Topology.joined_eq_ok_iff overrides settings t f none).1 hf
  exact ⟨⟨f⟩, build_eq_ok_iff.2 ⟨hnodup, hne, hmap, hall⟩⟩

/-- The outcome of building, for every topology. A repeated name is reported, the first one in
pre-order; then the first join that cannot be made; then a missing root. Without faults a schema is
built from the topology. Overrides for other pairs than a node and its parent play no part. -/
theorem build_outcome (t : Topology) (overrides : Overrides) (settings : BuildSettings) :
    (∀ before name after, t.names = before ++ name :: after → before.Nodup → name ∈ before →
      build t overrides settings = .error (.duplicateName name)) ∧
    (t.names.Nodup →
      (∀ before pm after e, t.withParents none = before ++ pm :: after →
        (∀ qm ∈ before, ∀ e', ¬ Topology.JoinFails overrides settings qm e') →
          Topology.JoinFails overrides settings pm e → build t overrides settings = .error e) ∧
      ((∀ pm ∈ t.withParents none, ∀ e, ¬ Topology.JoinFails overrides settings pm e) →
        (t = .nil → build t overrides settings = .error (.invalidTopology .noRoot)) ∧
        (t ≠ .nil → ∃ s, build t overrides settings = .ok s ∧
          s.BuiltFrom t overrides settings))) ∧
    ∀ others : Overrides,
      (∀ pm ∈ t.withParents none, ∀ p, pm.1 = some p →
        overrides.get? p.name pm.2.name = others.get? p.name pm.2.name) →
      build t overrides settings = build t others settings := by
  refine ⟨?_, ?_, ?_⟩
  · intro before name after hsplit hnodup hmem
    rw [build, hsplit, firstRepeat?_append hnodup (by simp) (Or.inr hmem)]
  · intro hnodup
    constructor
    · intro before pm after e hsplit hbefore hfails
      rw [build_of_nodup hnodup, Topology.joined_eq_error hsplit hbefore hfails]
      rfl
    · intro hnone
      constructor
      · rintro rfl
        rfl
      · intro hne
        -- Nothing else can fail: what was joined is sound, so it is a schema.
        obtain ⟨s, hs⟩ := exists_build hnodup hne hnone
        exact ⟨s, hs, builtFrom_of_build hs⟩
  · intro others hagree
    rw [build, build, Topology.joined_congr hagree]

end Schema

namespace Sample

/-- A product below another one, two joins for which there is no foreign key, no sources at all, and
the sales with their products, also with an override for a pair that does not occur. -/
theorem outcome_sales :
    Schema.build (.tree sales (.tree product (.tree product .nil))) .empty {} =
        .error (.duplicateName "product") ∧
      Schema.build (.tree sales (.cons country .nil (.tree brand .nil))) .empty {} =
        .error (.missingRelation "sales" "country") ∧
      Schema.build .nil .empty {} = .error (.invalidTopology .noRoot) ∧
      (∃ s, Schema.build (.tree sales (.tree product .nil)) .empty {} = .ok s ∧
        s.BuiltFrom (.tree sales (.tree product .nil)) .empty {}) ∧
      Schema.build (.tree sales (.tree product .nil)) .empty {} =
        Schema.build (.tree sales (.tree product .nil))
          (Overrides.empty.insert "product" "sales" ⟨.inferred, none⟩) {} := by
  refine ⟨?_, ?_, ?_, ?_, ?_⟩
  · exact (Schema.build_outcome (.tree sales (.tree product (.tree product .nil))) .empty {}).1
      ["sales", "product"] "product" [] rfl (by decide) (by decide)
  · have houtcome := (Schema.build_outcome (.tree sales (.cons country .nil (.tree brand .nil)))
      .empty {}).2.1 (by decide)
    refine houtcome.1 [(none, sales)] (some sales, country) [(some sales, brand)] _ rfl ?_
      ⟨sales, rfl, rfl⟩
    rintro _ hmem _ ⟨_, hparent, -⟩
    obtain rfl := List.mem_singleton.1 hmem
    cases hparent
  · have houtcome := (Schema.build_outcome .nil .empty {}).2.1 (by decide)
    exact (houtcome.2 nofun).1 rfl
  · have houtcome := (Schema.build_outcome (.tree sales (.tree product .nil)) .empty {}).2.1
      (by decide)
    refine (houtcome.2 ?_).2 (by decide)
    intro pm hpm e hfails
    rw [← Topology.joinOnto_eq_error_iff] at hfails
    simp only [tree, withParents, List.append_nil, List.mem_cons, List.not_mem_nil, or_false] at hpm
    rcases hpm with rfl | rfl
    · cases hfails
    · cases hfails
  · apply (Schema.build_outcome (.tree sales (.tree product .nil)) .empty {}).2.2
    intro pm hpm p hp
    simp only [tree, withParents, List.append_nil, List.mem_cons, List.not_mem_nil, or_false] at hpm
    rcases hpm with rfl | rfl
    · cases hp
    · obtain rfl := Option.some.inj hp
      rfl

end Sample

end JoinForest
