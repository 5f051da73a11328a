import JoinForest.Proofs.Forest.Grafting
import JoinForest.Proofs.Schema.Attachment
import JoinForest.Proofs.Schema.Detachment
import JoinForest.Proofs.Schema.Reachable

set_option autoImplicit false

/-!
# Orders of constructions

Constructions that may be done in either order: detaching and any other one
(`Reachable.detach_commutes`), and attaching twice (`Reachable.compose_exchange`).
-/

namespace JoinForest

open Forest

/-!
## Detaching and the other constructions

Detaching depends on nothing but the tree at the chosen node (`Sound.detach_of_treeIn`). So it may
be done before or after another construction: after detaching a tree around the node
(`Sound.detach_detach`), after attaching a schema elsewhere, around the node of the attachment or
with the node inside the attached schema (`Attached.detach_right`, `Attached.detach_apart`,
`Attached.detach_around`), and after merging (`Sound.detach_merge`). `Reachable.detach_commutes`
brings these together.
-/

namespace Schema

/-- The second name is that of a node at the first one or below it. -/
def InSubtree (s : Schema) (name other : String) : Prop :=
  ∃ members, s.subtree name = .ok members ∧ other ∈ members.map Member.name

/-- A tree as a schema of its own, without the join above it. -/
def ofTree (top : Member) (below : Forest Member) : Schema :=
  ⟨.tree { top with join := none } below⟩

/-- Detaching depends on nothing but the tree at the chosen node. -/
theorem Sound.detach_of_treeIn {s : Schema} (hs : s.Sound) {top : Member} {below : Forest Member}
    (h : TreeIn top below s.forest) : s.detach top.name = .ok (ofTree top below) :=
  (detach_eq_ok_iff hs).2 ⟨top, below, rfl, hs.detached h⟩

theorem InSubtree.mem_names {s : Schema} {name other : String} (h : s.InSubtree name other) :
    name ∈ s.names := by
  obtain ⟨members, hmembers, -⟩ := h
  by_contra hname
  have hfind : s.forest.find? (Member.name · == name) = none :=
    find?_eq_none_iff.2 (beq_key_eq_false hname)
  simp [Schema.subtree, subtree?, orUnknown, hfind] at hmembers

/-- A name is in a subtree if it is that of the top node or of a node below. -/
theorem Sound.inSubtree_iff {s : Schema} (hs : s.Sound) {top : Member} {below : Forest Member}
    (h : TreeIn top below s.forest) {name : String} :
    s.InSubtree top.name name ↔ name ∈ (top :: below.labels).map Member.name := by
  have hsubtree := hs.subtree_of_treeIn h
  constructor
  · rintro ⟨members, hmembers, hname⟩
    obtain rfl := Except.ok.inj (hmembers.symm.trans hsubtree)
    exact hname
  · intro hname
    exact ⟨_, hsubtree, hname⟩

/-- A schema with one root is the tree at this root. -/
theorem Sound.exists_forest_eq {s : Schema} (hs : s.Sound) {root : Member}
    (hroot : s.roots = [root]) : ∃ below, s.forest = .tree root below ∧ root.join = none := by
  obtain ⟨forest⟩ := s
  cases forest with
  | nil => simp [Schema.roots, Forest.roots] at hroot
  | cons a cs rest =>
    simp only [Schema.roots, Forest.roots, List.cons.injEq] at hroot
    obtain ⟨rfl, hrest⟩ := hroot
    cases rest with
    | nil =>
      refine ⟨cs, rfl, ?_⟩
      have hjoin := hs.join_isSome (none, a) (by simp [withParents])
      simpa using hjoin
    | cons b ds later => simp [Forest.roots] at hrest

/-- What is grafted upon a tree is grafted upon it without the join above it. -/
theorem exists_graftedAt_ofTree {scion under under' : Forest Member} {host x : Member}
    (hgraft : GraftedAt scion host (.tree x under) (.tree x under')) :
    ∃ host' : Member, host'.source = host.source ∧
      GraftedAt scion host' (ofTree x under).forest (ofTree x under').forest := by
  obtain ⟨under'', host', heq, hsource, hgraft'⟩ := exists_graftedAt_with_join hgraft none
  obtain rfl : under' = under'' := by simpa [Forest.tree] using heq
  exact ⟨host', hsource, hgraft'⟩

/-! ### After detaching -/

/-- A schema with one root is what detaching this root gives. -/
theorem Sound.detach_root {s : Schema} (hs : s.Sound) {root : Member} (hroot : s.roots = [root]) :
    s.detach root.name = .ok s := by
  obtain ⟨below, hforest, hjoin⟩ := hs.exists_forest_eq hroot
  have hin : TreeIn root below s.forest := by
    rw [hforest]
    exact .here nil
  have heq : ofTree root below = s := by
    obtain ⟨source, join⟩ := root
    obtain ⟨forest⟩ := s
    subst hforest hjoin
    rfl
  rw [hs.detach_of_treeIn hin, heq]

/-- A subtree of a subtree can be detached at once. -/
theorem Sound.detach_detach {s : Schema} (hs : s.Sound) {a b : String} (h : s.InSubtree a b) :
    ∃ t u, s.detach a = .ok t ∧ s.detach b = .ok u ∧ t.detach b = .ok u := by
  obtain ⟨top, below, rfl, hin⟩ := exists_treeIn_of_mem_names h.mem_names
  have ht : (ofTree top below).Sound := hs.of_treeIn hin rfl
  have hb := (hs.inSubtree_iff hin).1 h
  rw [List.map_cons, List.mem_cons] at hb
  rcases hb with rfl | hb
  · have htop : TreeIn { top with join := none } below (ofTree top below).forest := .here nil
    have hdetach := ht.detach_of_treeIn htop
    exact ⟨_, ofTree top below, hs.detach_of_treeIn hin, hs.detach_of_treeIn hin, hdetach⟩
  · obtain ⟨x, hx, rfl⟩ := List.mem_map.1 hb
    obtain ⟨under, hunder⟩ := exists_treeIn hx
    exact ⟨_, ofTree x under, hs.detach_of_treeIn hin, hs.detach_of_treeIn (hin.trans hunder),
      ht.detach_of_treeIn (.inside _ nil hunder)⟩

/-! ### After attaching -/

namespace Attached

variable {g h k : Schema} {host top : Member} {below : Forest Member} {join : Join}
  (hk : Attached g h k host top below join)

include hk

/-- The trees of the attached schema are found in the whole. -/
theorem detach_right {name : String} (hname : name ∈ h.names) :
    ∃ t, k.detach name = .ok t ∧ h.detach name = .ok t := by
  obtain ⟨x, under, rfl, hin⟩ := exists_treeIn_of_mem_names hname
  refine ⟨ofTree x under, ?_, hk.right.detach_of_treeIn hin⟩
  rw [hk.forest_eq, treeIn_tree_iff] at hin
  rcases hin with ⟨rfl, rfl⟩ | hin
  · have htop : TreeIn { x with join := some join } under k.forest :=
      hk.grafted.treeIn_scion (.here nil)
    have hdetach := hk.sound.detach_of_treeIn htop
    exact hdetach
  · exact hk.sound.detach_of_treeIn (hk.grafted.treeIn_scion (.inside _ nil hin))

/-- Trees of the host without the node attached to are not changed. -/
theorem detach_apart {name : String} (hname : name ∈ g.names)
    (happart : ¬ g.InSubtree name host.name) :
    ∃ t, k.detach name = .ok t ∧ g.detach name = .ok t := by
  obtain ⟨x, under, rfl, hin⟩ := exists_treeIn_of_mem_names hname
  refine ⟨ofTree x under, ?_, hk.left.detach_of_treeIn hin⟩
  rw [hk.left.inSubtree_iff hin] at happart
  have hhost : host ∉ x :: under.labels := fun hmem => happart (List.mem_map_of_mem hmem)
  exact hk.sound.detach_of_treeIn (hk.grafted.treeIn_apart hin hhost)

/-- A tree around the node attached to is detached and then attached to, or the other way round. -/
theorem detach_around {override : Option Override} {settings : BuildSettings}
    (hjoin : host.source.joinWith top.source override settings = .ok join) {name : String}
    (haround : g.InSubtree name host.name) :
    ∃ t u, g.detach name = .ok t ∧ t.compose h host.name override settings = .ok u ∧
      k.detach name = .ok u := by
  obtain ⟨x, under, rfl, hin⟩ := exists_treeIn_of_mem_names haround.mem_names
  rw [hk.left.inSubtree_iff hin] at haround
  -- Names are distinct, so the node of this name in the tree is the one attached to.
  have hhost : host ∈ x :: under.labels := by
    obtain ⟨y, hy, heq⟩ := List.mem_map.1 haround
    have hmem : y ∈ g.forest.labels := hin.sublist_labels.subset hy
    obtain rfl := List.inj_on_of_nodup_map hk.left.names_nodup hmem hk.grafted.mem_labels heq
    exact hy
  obtain ⟨under', hgraft, hin'⟩ :=
    hk.grafted.treeIn_around (hk.left.names_nodup.of_map Member.name) hin hhost
  obtain ⟨host', hsource, hgraft'⟩ := exists_graftedAt_ofTree hgraft
  have hdetached := hk.left.detached hin
  refine ⟨ofTree x under, ofTree x under', hk.left.detach_of_treeIn hin, ?_,
    hk.sound.detach_of_treeIn hin'⟩
  refine (compose_eq_ok_iff hdetached.sound hk.right).2
    ⟨host', top, below, join, ?_, ?_, hk.forest_eq, ?_, hgraft'⟩
  · rw [Member.name, hsource, Member.name]
  · intro n hn hmem
    exact hk.disjoint n hn (hdetached.mem_names_source hmem)
  · rw [hsource]
    exact hjoin

end Attached

/-! ### After merging -/

/-- The trees of two merged schemas are those of the one and those of the other. -/
theorem Sound.detach_merge {g h m : Schema} (hg : g.Sound) (hh : h.Sound)
    (hm : g.merge h = .ok m) :
    (∀ n ∈ g.names, ∃ t, m.detach n = .ok t ∧ g.detach n = .ok t) ∧
      ∀ n ∈ h.names, ∃ t, m.detach n = .ok t ∧ h.detach n = .ok t := by
  obtain ⟨hdisjoint, hforest⟩ := (merge_eq_ok_iff hg hh).1 hm
  have hsound := hg.of_append hh hdisjoint hforest
  constructor
  · intro n hn
    obtain ⟨x, under, rfl, hin⟩ := exists_treeIn_of_mem_names hn
    refine ⟨ofTree x under, hsound.detach_of_treeIn ?_, hg.detach_of_treeIn hin⟩
    rw [hforest]
    exact treeIn_append_iff.2 (Or.inl hin)
  · intro n hn
    obtain ⟨x, under, rfl, hin⟩ := exists_treeIn_of_mem_names hn
    refine ⟨ofTree x under, hsound.detach_of_treeIn ?_, hh.detach_of_treeIn hin⟩
    rw [hforest]
    exact treeIn_append_iff.2 (Or.inr hin)

end Schema

/-- Detaching commutes with every construction: with another detachment around the node, with
attaching a schema, by where the node attached to stands, and with merging. The schemas that come of
both orders are equal, with all their nodes, joins and roots in order. -/
theorem Reachable.detach_commutes {g h : Schema} (hg : Reachable g) (hh : Reachable h) :
    (∀ a b, g.InSubtree a b →
      ∃ t u, g.detach a = .ok t ∧ g.detach b = .ok u ∧ t.detach b = .ok u) ∧
    (∀ root, g.roots = [root] → g.detach root.name = .ok g) ∧
    (∀ attachTo override settings k, g.compose h attachTo override settings = .ok k →
      (∀ n ∈ h.names, ∃ t, k.detach n = .ok t ∧ h.detach n = .ok t) ∧
      (∀ root, h.roots = [root] → k.detach root.name = .ok h) ∧
      (∀ n ∈ g.names, ¬ g.InSubtree n attachTo →
        ∃ t, k.detach n = .ok t ∧ g.detach n = .ok t) ∧
      ∀ n, g.InSubtree n attachTo →
        ∃ t u, g.detach n = .ok t ∧ t.compose h attachTo override settings = .ok u ∧
          k.detach n = .ok u) ∧
    ∀ m, g.merge h = .ok m →
      (∀ n ∈ g.names, ∃ t, m.detach n = .ok t ∧ g.detach n = .ok t) ∧
        ∀ n ∈ h.names, ∃ t, m.detach n = .ok t ∧ h.detach n = .ok t := by
  refine ⟨?_, ?_, ?_, ?_⟩
  · intro a b hb
    exact hg.sound.detach_detach hb
  · intro root hroot
    exact hg.sound.detach_root hroot
  · intro attachTo override settings k hk
    obtain ⟨host, top, below, join, rfl, hjoin, hattached⟩ :=
      hg.sound.attached_of_compose hh.sound hk
    refine ⟨?_, ?_, ?_, ?_⟩
    · intro n hn
      exact hattached.detach_right hn
    · intro root hroot
      have hmem : root ∈ h.forest.labels := by
        obtain ⟨under, hforest, -⟩ := hh.sound.exists_forest_eq hroot
        rw [hforest]
        exact List.mem_cons_self
      obtain ⟨t, hkt, hht⟩ := hattached.detach_right (List.mem_map_of_mem hmem)
      rw [hh.sound.detach_root hroot] at hht
      obtain rfl := Except.ok.inj hht
      exact hkt
    · intro n hn happart
      exact hattached.detach_apart hn happart
    · intro n haround
      exact hattached.detach_around hjoin haround
  · intro m hm
    exact hg.sound.detach_merge hh.sound hm

/-- Detaching the products from the sales with the brands, or before the brands are attached. -/
theorem Sample.detach_chain : ∃ t u, salesSchema.detach "product" = .ok t ∧
    t.compose brandSchema "product" none {} = .ok u ∧ chainSchema.detach "product" = .ok u :=
  ((Reachable.detach_commutes reachable_sales reachable_brand).2.2.1 "product" none {} chainSchema
    compose_brand).2.2.2 "product" ⟨_, rfl, by decide⟩

/-!
## Attaching twice

The order in which two schemas are attached does not matter. At two nodes of one host either of them
may come first (`Sound.compose_swap`). When the second one belongs to a node of the first, it may
also be attached there before the first one is attached to the host (`Sound.compose_inner_first`,
`Sound.compose_outer_first`). `Reachable.compose_exchange` brings these together.
-/

namespace Schema

/-- A schema grafted without a shared name is attached. -/
theorem Sound.attached {g h k : Schema} {host top : Member} {below : Forest Member} {join : Join}
    (hg : g.Sound) (hh : h.Sound) (hdisjoint : DisjointNames g h)
    (hforest : h.forest = .tree top below)
    (hgraft : GraftedAt (.tree { top with join := some join } below) host g.forest k.forest) :
    Attached g h k host top below join :=
  ⟨hg, hh, hg.of_graftedAt hh hdisjoint hforest hgraft, hdisjoint, hforest, hgraft⟩

namespace Attached

variable {g h k : Schema} {host top : Member} {below : Forest Member} {join : Join}
  (hk : Attached g h k host top below join)

include hk

/-- Attaching by a join that can be made gives the attached schema. -/
theorem compose_eq {override : Option Override} {settings : BuildSettings}
    (hjoin : host.source.joinWith top.source override settings = .ok join) :
    g.compose h host.name override settings = .ok k :=
  (compose_eq_ok_iff hk.left hk.right).2
    ⟨host, top, below, join, rfl, hk.disjoint, hk.forest_eq, hjoin, hk.grafted⟩

end Attached

variable {g a b m l k : Schema} {p q : String} {ja jb : Option Override} {settings : BuildSettings}

/-- At another node of the host, the schema attached second may come first. -/
theorem Sound.compose_swap (hg : g.Sound) (ha : a.Sound) (hb : b.Sound) (hq : q ∈ g.names)
    (hne : p ≠ q) (hm : g.compose a p ja settings = .ok m)
    (hk : m.compose b q jb settings = .ok k) :
    ∃ m', g.compose b q jb settings = .ok m' ∧ m'.compose a p ja settings = .ok k := by
  obtain ⟨host, top, below, join, rfl, hjoin, hma⟩ := hg.attached_of_compose ha hm
  obtain ⟨host', top', below', join', rfl, hjoin', hkb⟩ := hma.sound.attached_of_compose hb hk
  obtain ⟨hgb, hab⟩ := (disjointNames_left_iff hma.mem_names_iff).1 hkb.disjoint
  have hhost : host ≠ host' := by
    rintro rfl
    exact hne rfl
  have hout : host' ∉ (Forest.tree { top with join := some join } below).labels := by
    intro hmem
    refine hma.disjoint host'.name ?_ hq
    rw [← hma.map_name_scion]
    exact List.mem_map_of_mem hmem
  obtain ⟨f, hgraft', hgraft⟩ := hma.grafted.swap hkb.grafted hhost hout
  have hfirst : Attached g b ⟨f⟩ host' top' below' join' :=
    hg.attached hb hgb hkb.forest_eq hgraft'
  have hdisjoint := (disjointNames_left_iff hfirst.mem_names_iff).2 ⟨hma.disjoint, hab.symm⟩
  have hsecond : Attached ⟨f⟩ a k host top below join :=
    hfirst.sound.attached ha hdisjoint hma.forest_eq hgraft
  exact ⟨⟨f⟩, hfirst.compose_eq hjoin', hsecond.compose_eq hjoin⟩

/-- A schema attached to a node of an attached one may be attached to this one first. -/
theorem Sound.compose_inner_first (hg : g.Sound) (ha : a.Sound) (hb : b.Sound) (hq : q ∈ a.names)
    (hm : g.compose a p ja settings = .ok m) (hk : m.compose b q jb settings = .ok k) :
    ∃ l, a.compose b q jb settings = .ok l ∧ g.compose l p ja settings = .ok k := by
  obtain ⟨host, top, below, join, rfl, hjoin, hma⟩ := hg.attached_of_compose ha hm
  obtain ⟨host', top', below', join', rfl, hjoin', hkb⟩ := hma.sound.attached_of_compose hb hk
  obtain ⟨hgb, hab⟩ := (disjointNames_left_iff hma.mem_names_iff).1 hkb.disjoint
  have hout : host' ∉ g.forest.labels := by
    intro hmem
    exact hma.disjoint _ hq (List.mem_map_of_mem hmem)
  obtain ⟨scion, hinner, houter⟩ := hma.grafted.exists_of_later hkb.grafted hout
  obtain ⟨under, host'', rfl, hsource, hinner⟩ := exists_graftedAt_with_join hinner top.join
  have hl : Attached a b ⟨.tree top under⟩ host'' top' below' join' := by
    refine ha.attached hb hab hkb.forest_eq ?_
    rw [hma.forest_eq]
    exact hinner
  have hdisjoint := (disjointNames_right_iff hl.mem_names_iff).2 ⟨hma.disjoint, hgb⟩
  have hwhole : Attached g ⟨.tree top under⟩ k host top under join :=
    hg.attached hl.sound hdisjoint rfl houter
  have hname : host''.name = host'.name := by rw [Member.name, hsource, Member.name]
  rw [← hsource] at hjoin'
  rw [← hname]
  exact ⟨_, hl.compose_eq hjoin', hwhole.compose_eq hjoin⟩

/-- A schema that was attached to another one first may be attached to it in the host. -/
theorem Sound.compose_outer_first (hg : g.Sound) (ha : a.Sound) (hb : b.Sound)
    (hl : a.compose b q jb settings = .ok l) (hk : g.compose l p ja settings = .ok k) :
    ∃ m, g.compose a p ja settings = .ok m ∧ m.compose b q jb settings = .ok k := by
  obtain ⟨host', top', below', join', rfl, hjoin', hlb⟩ := ha.attached_of_compose hb hl
  obtain ⟨host, top, under, join, rfl, hjoin, hkl⟩ := hg.attached_of_compose hlb.sound hk
  obtain ⟨hga, hgb⟩ := (disjointNames_right_iff hlb.mem_names_iff).1 hkl.disjoint
  have hinner := hlb.grafted
  rw [hkl.forest_eq] at hinner
  obtain ⟨below, hforest⟩ := hinner.exists_tree
  rw [hforest] at hinner
  obtain ⟨under', host'', heq, hsource, hinner⟩ := exists_graftedAt_with_join hinner (some join)
  obtain rfl : under = under' := by simpa [Forest.tree] using heq
  obtain ⟨f, hgraft, hgraft'⟩ := hkl.grafted.exists_of_scion hinner
  have hm : Attached g a ⟨f⟩ host top below join := hg.attached ha hga hforest hgraft
  have hdisjoint := (disjointNames_left_iff hm.mem_names_iff).2 ⟨hgb, hlb.disjoint⟩
  have hwhole : Attached ⟨f⟩ b k host'' top' below' join' :=
    hm.sound.attached hb hdisjoint hlb.forest_eq hgraft'
  have hname : host''.name = host'.name := by rw [Member.name, hsource, Member.name]
  rw [← hsource] at hjoin'
  rw [← hname]
  exact ⟨⟨f⟩, hm.compose_eq hjoin, hwhole.compose_eq hjoin'⟩

end Schema

/-- Two schemas can be attached in either order, at two nodes of one host, or one of them at a node
of the other: both orders succeed together and give one schema, with all its nodes, joins and roots
in order. -/
theorem Reachable.compose_exchange {g a b : Schema} (hg : Reachable g) (ha : Reachable a)
    (hb : Reachable b) (ja jb : Option Override) (settings : BuildSettings) :
    (∀ p ∈ g.names, ∀ q ∈ g.names, p ≠ q → ∀ k,
      (g.compose a p ja settings >>= fun m => m.compose b q jb settings) = .ok k ↔
        (g.compose b q jb settings >>= fun m => m.compose a p ja settings) = .ok k) ∧
    ∀ p, ∀ q ∈ a.names, ∀ k,
      (g.compose a p ja settings >>= fun m => m.compose b q jb settings) = .ok k ↔
        (a.compose b q jb settings >>= fun l => g.compose l p ja settings) = .ok k := by
  simp only [bind_eq_ok_iff]
  constructor
  · intro p hp q hq hne k
    constructor
    · rintro ⟨m, hm, hk⟩
      exact hg.sound.compose_swap ha.sound hb.sound hq hne hm hk
    · rintro ⟨m, hm, hk⟩
      exact hg.sound.compose_swap hb.sound ha.sound hp hne.symm hm hk
  · intro p q hq k
    constructor
    · rintro ⟨m, hm, hk⟩
      exact hg.sound.compose_inner_first ha.sound hb.sound hq hm hk
    · rintro ⟨l, hl, hk⟩
      exact hg.sound.compose_outer_first ha.sound hb.sound hl hk

namespace Sample

/-- A join onto stores. -/
def atStore : Override := ⟨.expression "store.id = 1", none⟩

/-- Stores beside the products of the chain, or at its end. -/
theorem exists_compose_store :
    (∃ k, chainSchema.compose storeSchema "sales" (some atStore) {} = .ok k) ∧
      ∃ k, chainSchema.compose storeSchema "country" (some atStore) {} = .ok k := by
  constructor
  · exact ⟨⟨_⟩, (Schema.compose_eq_ok_iff reachable_chain.sound reachable_store.sound).2
      ⟨_, _, _, _, rfl, by decide, rfl, rfl, .here _ .nil⟩⟩
  · exact ⟨⟨_⟩, (Schema.compose_eq_ok_iff reachable_chain.sound reachable_store.sound).2
      ⟨_, _, _, _, rfl, by decide, rfl, rfl,
        .inside _ .nil (.inside _ .nil (.inside _ .nil (.here .nil .nil)))⟩⟩

/-- Stores attached to the sales before the brands are attached to the products, and stores attached
to the countries before these are attached. -/
theorem exchange_store :
    (∃ k, chainSchema.compose storeSchema "sales" (some atStore) {} = .ok k ∧
      (salesSchema.compose storeSchema "sales" (some atStore) {} >>= fun m =>
        m.compose brandSchema "product" none {}) = .ok k) ∧
    ∃ k, chainSchema.compose storeSchema "country" (some atStore) {} = .ok k ∧
      (brandSchema.compose storeSchema "country" (some atStore) {} >>= fun l =>
        salesSchema.compose l "product" none {}) = .ok k := by
  obtain ⟨⟨beside, hbeside⟩, atEnd, hatEnd⟩ := exists_compose_store
  obtain ⟨hswap, hnested⟩ := Reachable.compose_exchange reachable_sales reachable_brand
    reachable_store none (some atStore) {}
  refine ⟨⟨beside, hbeside, ?_⟩, atEnd, hatEnd, ?_⟩
  · refine (hswap "product" (by decide) "sales" (by decide) (by decide) beside).1 ?_
    rw [compose_brand]
    exact hbeside
  · refine (hnested "product" "country" (by decide) atEnd).1 ?_
    rw [compose_brand]
    exact hatEnd

end Sample

end JoinForest
