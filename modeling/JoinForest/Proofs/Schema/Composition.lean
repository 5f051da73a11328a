import JoinForest.Proofs.Schema.Construction
import JoinForest.Proofs.Schema.Reachable
import JoinForest.Proofs.Schema.Request

set_option autoImplicit false

/-!
# Building in parts

What is built in parts is what is built in one go: parts that are attached (`build_graftedAt_iff`)
and parts that are merged (`Schema.merge_union`).
-/

namespace JoinForest

open Forest

/-!
## Building in one go

Building a topology in which a tree hangs below a node is the same as building the topology without
the tree and the tree by itself, and then attaching the one to the other (`build_graftedAt_iff`).
The joins inside either part are made from the same sources in both ways (`Joined`); the one
between the parts is made last when attaching, and in its place when building.
-/

namespace Joined

variable {overrides : Overrides} {settings : BuildSettings}

/-- Only the source of the parent is looked at. -/
theorem congr_parent (parent parent' : Option Member)
    (h : parent.map Member.source = parent'.map Member.source) (f : Forest Member) :
    Joined overrides settings parent f ↔ Joined overrides settings parent' f :=
  forall_withParents_congr
    (P := fun p m =>
      Topology.joinOnto overrides settings (p.map Member.source) m.source = .ok m.join)
    parent parent' (fun _ => by simp only [h]) f

theorem tree_iff {parent : Option Member} {top : Member} {below : Forest Member} :
    Joined overrides settings parent (.tree top below) ↔
      Topology.joinOnto overrides settings (parent.map Member.source) top.source = .ok top.join ∧
        Joined overrides settings (some top) below := by
  simp [Joined, Forest.tree, withParents]

/-- A tree below a member is a tree by itself, but for the join onto this member. -/
theorem tree_below_iff {host top : Member} {below : Forest Member} :
    Joined overrides settings (some host) (.tree top below) ↔
      (∃ join, top.join = some join ∧ host.source.joinWith top.source
        (overrides.get? host.name top.name) settings = .ok join) ∧
        Joined overrides settings none (.tree { top with join := none } below) := by
  have hbelow : Joined overrides settings (some top) below ↔
      Joined overrides settings (some { top with join := none }) below :=
    congr_parent (some top) (some { top with join := none }) rfl below
  rw [tree_iff, tree_iff, hbelow]
  simp only [Option.map_some, Option.map_none, Topology.joinOnto, map_eq_ok_iff, true_and]
  refine and_congr_left fun _ => ?_
  constructor
  · rintro ⟨join, hjoin, htop⟩
    exact ⟨join, htop.symm, hjoin⟩
  · rintro ⟨join, htop, hjoin⟩
    exact ⟨join, hjoin, htop.symm⟩

end Joined

namespace Schema

theorem names_of_build {t : Topology} {overrides : Overrides} {settings : BuildSettings}
    {s : Schema} (h : Schema.build t overrides settings = .ok s) : s.names = t.names :=
  names_eq_of_map_source (build_eq_ok_iff.1 h).2.2.1

/-- A forest with a single tree as its image is a single tree. -/
theorem exists_tree_of_map {f : Forest Member} {t : Source} {children : Forest Source}
    (h : f.map Member.source = .tree t children) :
    ∃ top below, f = .tree top below ∧ top.source = t ∧ below.map Member.source = children := by
  rcases f with _ | ⟨top, below, _ | ⟨_, _, _⟩⟩
  · simp [Forest.map, Forest.tree] at h
  · simp only [Forest.map, Forest.tree, Forest.cons.injEq, and_true] at h
    exact ⟨top, below, rfl, h.1, h.2⟩
  · simp [Forest.map, Forest.tree] at h

/-- Building with a tree below a node is building both parts and attaching the tree. -/
theorem build_graftedAt_iff {A A' children : Topology} {p t : Source}
    (h : GraftedAt (.tree t children) p A A') (overrides : Overrides) (settings : BuildSettings)
    (k : Schema) :
    Schema.build A' overrides settings = .ok k ↔
      ∃ a b, Schema.build A overrides settings = .ok a ∧
        Schema.build (.tree t children) overrides settings = .ok b ∧
          a.compose b p.name (overrides.get? p.name t.name) settings = .ok k := by
  have hperm : A'.names.Perm (A.names ++ Topology.names (.tree t children)) :=
    h.map_labels_perm Source.name
  constructor
  · intro hk
    obtain ⟨hnodup, -, hmap, hjoined⟩ := build_eq_ok_iff.1 hk
    rw [hperm.nodup_iff, List.nodup_append] at hnodup
    obtain ⟨hA, hT, hdisjoint⟩ := hnodup
    -- What was built is itself grafted, so it can be taken apart where the topology can.
    obtain ⟨scion, host, f, hgraft, hscion, rfl, rfl⟩ := h.exists_of_map hmap
    obtain ⟨top, below, rfl, rfl, rfl⟩ := exists_tree_of_map hscion
    obtain ⟨hold, hnew⟩ := (hgraft.forall_withParents_iff none).1 hjoined
    obtain ⟨⟨join, htop, hjoin⟩, hnew⟩ := Joined.tree_below_iff.1 hnew
    have ha : Schema.build (f.map Member.source) overrides settings = .ok ⟨f⟩ :=
      build_eq_ok_iff.2 ⟨hA, h.ne_nil.1, rfl, hold⟩
    have hb : Schema.build (.tree top.source (below.map Member.source)) overrides settings =
        .ok ⟨.tree { top with join := none } below⟩ :=
      build_eq_ok_iff.2 ⟨hT, by simp [Forest.tree], rfl, hnew⟩
    refine ⟨_, _, ha, hb, (compose_eq_ok_iff (sound_of_build ha) (sound_of_build hb)).2 ?_⟩
    refine ⟨host, _, below, join, rfl, ?_, rfl, hjoin, ?_⟩
    · intro name hname hmem
      rw [names_of_build ha] at hmem
      rw [names_of_build hb] at hname
      exact hdisjoint name hmem name hname rfl
    · rw [← htop]
      exact hgraft
  · rintro ⟨a, b, ha, hb, hk⟩
    obtain ⟨host, top, below, join, hhost, hdisjoint, hforest, hjoin, hgraft⟩ :=
      (compose_eq_ok_iff (sound_of_build ha) (sound_of_build hb)).1 hk
    have hnodup := hdisjoint.nodup_append (sound_of_build ha).names_nodup
      (sound_of_build hb).names_nodup
    rw [names_of_build ha, names_of_build hb, ← hperm.nodup_iff] at hnodup
    obtain ⟨hA, -, rfl, hold⟩ := build_eq_ok_iff.1 ha
    obtain ⟨-, -, hmap, hnew⟩ := build_eq_ok_iff.1 hb
    rw [hforest] at hmap hnew
    simp only [Forest.tree, Forest.map, Forest.cons.injEq, and_true] at hmap
    obtain ⟨rfl, rfl⟩ := hmap
    obtain ⟨rfl, rfl⟩ := h.unique hA (hgraft.map Member.source) hhost.symm
    have htop : { top with join := none } = top := by
      have hnone : none = top.join := Except.ok.inj (Joined.tree_iff.1 hnew).1
      rw [hnone]
    have hscion : Joined overrides settings (some host)
        (.tree { top with join := some join } below) := by
      refine Joined.tree_below_iff.2 ⟨⟨join, rfl, hjoin⟩, ?_⟩
      rw [htop]
      exact hnew
    exact build_eq_ok_iff.2
      ⟨hnodup, h.ne_nil.2, rfl, (hgraft.forall_withParents_iff none).2 ⟨hold, hscion⟩⟩

end Schema

/-- A chain of tables built in one go comes of its two halves. -/
theorem Sample.build_chain : ∃ a b,
    Schema.build (.tree sales (.tree product .nil)) .empty {} = .ok a ∧
      Schema.build (.tree brand (.tree country .nil)) .empty {} = .ok b ∧
        a.compose b "product" none {} = .ok chainSchema :=
  (Schema.build_graftedAt_iff (.inside sales .nil (.here .nil .nil)) .empty {} chainSchema).1 rfl

/-!
## Merging as union

Merging puts the trees of two schemas side by side and touches neither: both are kept as they were
(`Merged.kept_left`, `Merged.kept_right`). Requests for nodes of one part are therefore answered as
by this part alone, and no plan reaches both (`Merged.plan_both`). Topologies side by side are built
one by one and then merged (`build_append_iff`), and three schemas are merged in either grouping
(`Sound.merge_assoc`). `Schema.merge_union` brings these together.
-/

namespace Schema

/-- The third schema has the trees of the first one and after them those of the second one. -/
structure Merged (g h k : Schema) : Prop where
  left : g.Sound
  right : h.Sound
  sound : k.Sound
  disjoint : DisjointNames g h
  forest_eq : k.forest = g.forest ++ h.forest

/-- Sound schemas without a shared name are merged when they stand side by side. -/
theorem Sound.merged {g h k : Schema} (hg : g.Sound) (hh : h.Sound)
    (hdisjoint : DisjointNames g h) (hforest : k.forest = g.forest ++ h.forest) : Merged g h k :=
  ⟨hg, hh, hg.of_append hh hdisjoint hforest, hdisjoint, hforest⟩

/-- Merging succeeds exactly for disjoint names, and puts the forests side by side. -/
theorem Sound.merge_iff {g h k : Schema} (hg : g.Sound) (hh : h.Sound) :
    g.merge h = .ok k ↔ Merged g h k := by
  rw [merge_eq_ok_iff hg hh]
  constructor
  · rintro ⟨hdisjoint, hforest⟩
    exact hg.merged hh hdisjoint hforest
  · intro hk
    exact ⟨hk.disjoint, hk.forest_eq⟩

/-- The root of a node is a node itself. -/
theorem root_mem_names {s : Schema} {name root : String} (h : s.rootName? name = some root) :
    root ∈ s.names := by
  obtain ⟨m, hm, -, hname⟩ := exists_rootOf (mem_names_of_rootName? h)
  obtain rfl : root = m.name := Option.some.inj (h.symm.trans hname)
  exact List.mem_map_of_mem (standsBelow_of_mem_roots hm).mem_labels

namespace Merged

variable {g h k : Schema} (hk : Merged g h k)

include hk

theorem mem_names_iff {name : String} : name ∈ k.names ↔ name ∈ g.names ∨ name ∈ h.names := by
  rw [names, hk.forest_eq, labels_append, List.map_append, List.mem_append]
  rfl

/-! ### Both parts are kept -/

/-- A path leads through the part its name is from. -/
theorem path?_eq (name : String) : k.path? name = (g.path? name).or (h.path? name) := by
  rw [path?, hk.forest_eq, path?_append]
  rfl

theorem path?_eq_none_left {name : String} (hname : name ∈ h.names) : g.path? name = none := by
  rw [Option.eq_none_iff_forall_ne_some]
  intro path hpath
  exact hk.disjoint name hname (path?_isSome.1 (by rw [hpath]; rfl))

theorem kept_left : Kept g k where
  source := hk.left
  sound := hk.sound
  path?_eq n hn := by
    obtain ⟨path, hpath⟩ := Option.isSome_iff_exists.1 (path?_isSome.2 hn)
    rw [hk.path?_eq, hpath, Option.some_or]
  withParents_eq := by
    have hright := filter_withParents_eq_nil (s := g) none hk.disjoint
    rw [hk.forest_eq, withParents_append, List.filter_append, filter_withParents_self, hright,
      List.append_nil]

theorem kept_right : Kept h k where
  source := hk.right
  sound := hk.sound
  path?_eq n hn := by
    rw [hk.path?_eq, hk.path?_eq_none_left hn, Option.none_or]
  withParents_eq := by
    have hleft := filter_withParents_eq_nil (s := h) none hk.disjoint.symm
    rw [hk.forest_eq, withParents_append, List.filter_append, filter_withParents_self, hleft,
      List.nil_append]

/-! ### Requests -/

variable {names : List String}

/-- The first root of the whole is that of the first part, so even an empty request is answered as
there. -/
theorem plan_left (hnames : ∀ n ∈ names, n ∈ g.names) : k.plan names = g.plan names := by
  apply hk.kept_left.plan_eq hnames
  intro _
  rw [roots, hk.forest_eq, roots_append]
  exact List.head?_append_of_ne_nil _ hk.left.roots_ne_nil

theorem plan_right (hne : names ≠ []) (hnames : ∀ n ∈ names, n ∈ h.names) :
    k.plan names = h.plan names := by
  apply hk.kept_right.plan_eq hnames
  intro hnil
  exact absurd hnil hne

/-- Nodes of both parts have roots of both parts, and these differ. -/
theorem plan_both (hnames : ∀ n ∈ names, n ∈ k.names) (hleft : ∃ n ∈ names, n ∈ g.names)
    (hright : ∃ n ∈ names, n ∈ h.names) :
    ∃ first root second root', k.plan names = .error (.disconnected first root second root') := by
  obtain ⟨a, ha, hag⟩ := hleft
  obtain ⟨b, hb, hbh⟩ := hright
  rcases hk.sound.plan_cases hnames with ⟨root, hroot, -, -⟩ |
    ⟨first, _, second, _, root, root', -, -, -, -, hplan⟩
  · have haroot := hroot a ha
    have hbroot := hroot b hb
    rw [hk.kept_left.rootName?_eq hag] at haroot
    rw [hk.kept_right.rootName?_eq hbh] at hbroot
    exact absurd (root_mem_names haroot) (hk.disjoint root (root_mem_names hbroot))
  · exact ⟨first, root, second, root', hplan⟩

end Merged

/-! ### Merging three schemas -/

/-- It makes no difference which two of three schemas in a row are merged first. -/
theorem Sound.merge_assoc {f g h k : Schema} (hf : f.Sound) (hg : g.Sound) (hh : h.Sound) :
    (f.merge g >>= fun m => m.merge h) = .ok k ↔ (g.merge h >>= fun m => f.merge m) = .ok k := by
  simp only [bind_eq_ok_iff]
  constructor
  · rintro ⟨m, hm, hk⟩
    have hfirst := (hf.merge_iff hg).1 hm
    have hwhole := (hfirst.sound.merge_iff hh).1 hk
    obtain ⟨hfh, hgh⟩ := (disjointNames_left_iff hfirst.mem_names_iff).1 hwhole.disjoint
    have hlast : Merged g h ⟨g.forest ++ h.forest⟩ := hg.merged hh hgh rfl
    refine ⟨_, (hg.merge_iff hh).2 hlast, (hf.merge_iff hlast.sound).2 ?_⟩
    apply hf.merged hlast.sound
    · exact (disjointNames_right_iff hlast.mem_names_iff).2 ⟨hfirst.disjoint, hfh⟩
    · rw [hwhole.forest_eq, hfirst.forest_eq, append_assoc]
  · rintro ⟨m, hm, hk⟩
    have hlast := (hg.merge_iff hh).1 hm
    have hwhole := (hf.merge_iff hlast.sound).1 hk
    obtain ⟨hfg, hfh⟩ := (disjointNames_right_iff hlast.mem_names_iff).1 hwhole.disjoint
    have hfirst : Merged f g ⟨f.forest ++ g.forest⟩ := hf.merged hg hfg rfl
    refine ⟨_, (hf.merge_iff hg).2 hfirst, (hfirst.sound.merge_iff hh).2 ?_⟩
    apply hfirst.sound.merged hh
    · exact (disjointNames_left_iff hfirst.mem_names_iff).2 ⟨hfh, hlast.disjoint⟩
    · rw [hwhole.forest_eq, hlast.forest_eq, append_assoc]

/-! ### Building side by side -/

/-- Topologies side by side are joined each for itself. -/
theorem joined_append_iff {overrides : Overrides} {settings : BuildSettings}
    {parent : Option Member} {f₁ f₂ : Forest Member} :
    Joined overrides settings parent (f₁ ++ f₂) ↔
      Joined overrides settings parent f₁ ∧ Joined overrides settings parent f₂ := by
  rw [Joined, withParents_append, List.forall_mem_append]
  rfl

/-- Topologies side by side are built by themselves and then merged. -/
theorem build_append_iff {A B : Topology} (hA : A ≠ .nil) (hB : B ≠ .nil) (overrides : Overrides)
    (settings : BuildSettings) (k : Schema) :
    Schema.build (A ++ B) overrides settings = .ok k ↔
      ∃ a b, Schema.build A overrides settings = .ok a ∧
        Schema.build B overrides settings = .ok b ∧ a.merge b = .ok k := by
  have hnames : (A ++ B).names = A.names ++ B.names := by
    rw [Topology.names, labels_append, List.map_append]
    rfl
  constructor
  · intro hk
    obtain ⟨hnodup, -, hmap, hjoined⟩ := build_eq_ok_iff.1 hk
    rw [hnames, List.nodup_append] at hnodup
    obtain ⟨hnodupA, hnodupB, hdisjoint⟩ := hnodup
    obtain ⟨f₁, f₂, hforest, rfl, rfl⟩ := exists_append_of_map hmap
    rw [hforest] at hjoined
    obtain ⟨hjoined₁, hjoined₂⟩ := joined_append_iff.1 hjoined
    have ha : Schema.build (f₁.map Member.source) overrides settings = .ok ⟨f₁⟩ :=
      build_eq_ok_iff.2 ⟨hnodupA, hA, rfl, hjoined₁⟩
    have hb : Schema.build (f₂.map Member.source) overrides settings = .ok ⟨f₂⟩ :=
      build_eq_ok_iff.2 ⟨hnodupB, hB, rfl, hjoined₂⟩
    refine ⟨⟨f₁⟩, ⟨f₂⟩, ha, hb, ?_⟩
    refine (merge_eq_ok_iff (sound_of_build ha) (sound_of_build hb)).2 ⟨?_, hforest⟩
    intro name hname hmem
    rw [names_of_build ha] at hmem
    rw [names_of_build hb] at hname
    exact hdisjoint name hmem name hname rfl
  · rintro ⟨a, b, ha, hb, hk⟩
    have hmerged := ((sound_of_build ha).merge_iff (sound_of_build hb)).1 hk
    obtain ⟨-, -, hmapA, hjoinedA⟩ := build_eq_ok_iff.1 ha
    obtain ⟨-, -, hmapB, hjoinedB⟩ := build_eq_ok_iff.1 hb
    have hmap : k.forest.map Member.source = A ++ B := by
      rw [hmerged.forest_eq, map_append, hmapA, hmapB]
    refine build_eq_ok_iff.2 ⟨?_, ?_, hmap, ?_⟩
    · rw [← names_eq_of_map_source hmap]
      exact hmerged.sound.names_nodup
    · intro hnil
      cases A with
      | nil => exact hA rfl
      | cons source cs rest => cases hnil
    · rw [hmerged.forest_eq]
      exact joined_append_iff.2 ⟨hjoinedA, hjoinedB⟩

/-- Merging is the union of forests. Topologies with roots give side by side the merged schema of
both; merging is associative; and a merged schema answers requests for nodes of one part, for the
first one also the empty request, as this part does, and refuses those for nodes of both. -/
theorem merge_union :
    (∀ (A B : Topology) (overrides : Overrides) (settings : BuildSettings) (k : Schema),
      A ≠ .nil → B ≠ .nil → (Schema.build (A ++ B) overrides settings = .ok k ↔
        ∃ a b, Schema.build A overrides settings = .ok a ∧
          Schema.build B overrides settings = .ok b ∧ a.merge b = .ok k)) ∧
    (∀ f g h k : Schema, Reachable f → Reachable g → Reachable h →
      ((f.merge g >>= fun m => m.merge h) = .ok k ↔
        (g.merge h >>= fun m => f.merge m) = .ok k)) ∧
    ∀ g h k : Schema, Reachable g → Reachable h → g.merge h = .ok k → ∀ names : List String,
      ((∀ n ∈ names, n ∈ g.names) → k.plan names = g.plan names) ∧
      (names ≠ [] → (∀ n ∈ names, n ∈ h.names) → k.plan names = h.plan names) ∧
      ((∀ n ∈ names, n ∈ k.names) → (∃ n ∈ names, n ∈ g.names) → (∃ n ∈ names, n ∈ h.names) →
        ∃ first root second root',
          k.plan names = .error (.disconnected first root second root')) := by
  refine ⟨?_, ?_, ?_⟩
  · intro A B overrides settings k hA hB
    exact build_append_iff hA hB overrides settings k
  · intro f g h k hf hg hh
    exact hf.sound.merge_assoc hg.sound hh.sound
  · intro g h k hg hh hk names
    have hmerged := (hg.sound.merge_iff hh.sound).1 hk
    refine ⟨?_, ?_, ?_⟩
    · intro hnames
      exact hmerged.plan_left hnames
    · intro hne hnames
      exact hmerged.plan_right hne hnames
    · intro hnames hleft hright
      exact hmerged.plan_both hnames hleft hright

end Schema

namespace Sample

/-- Sales and brands built together, merged with stores, and requested from. -/
theorem union_galaxy :
    (∃ a b, Schema.build (.tree sales (.tree product .nil)) .empty {} = .ok a ∧
      Schema.build (.tree brand (.tree country .nil)) .empty {} = .ok b ∧
        a.merge b = .ok galaxySchema) ∧
    (∃ k, galaxySchema.merge storeSchema = .ok k ∧
      (brandSchema.merge storeSchema >>= fun m => salesSchema.merge m) = .ok k) ∧
    galaxySchema.plan ["product"] = salesSchema.plan ["product"] ∧
    galaxySchema.plan [] = salesSchema.plan [] ∧
    galaxySchema.plan ["country"] = brandSchema.plan ["country"] ∧
    ∃ first root second root', galaxySchema.plan ["country", "product"] =
      .error (.disconnected first root second root') := by
  obtain ⟨hbuild, hassoc, hplan⟩ := Schema.merge_union
  have hgalaxy := hplan salesSchema brandSchema galaxySchema reachable_sales reachable_brand
    merge_brand
  have hstore : galaxySchema.merge storeSchema =
      .ok ⟨galaxySchema.forest ++ storeSchema.forest⟩ :=
    (Schema.merge_eq_ok_iff reachable_galaxy.sound reachable_store.sound).2 ⟨by decide, rfl⟩
  refine ⟨?_, ⟨_, hstore, ?_⟩, ?_, ?_, ?_, ?_⟩
  · exact (hbuild (.tree sales (.tree product .nil)) (.tree brand (.tree country .nil)) .empty {}
      galaxySchema (by decide) (by decide)).1 rfl
  · refine (hassoc _ _ _ _ reachable_sales reachable_brand reachable_store).1 ?_
    rw [merge_brand]
    exact hstore
  · exact (hgalaxy ["product"]).1 (by decide)
  · exact (hgalaxy []).1 (by decide)
  · exact (hgalaxy ["country"]).2.1 (by decide) (by decide)
  · exact (hgalaxy ["country", "product"]).2.2 (by decide) (by decide) (by decide)

end Sample

end JoinForest
