import JoinForest.Catalog
import JoinForest.Proofs.Forest.Grafting
import JoinForest.Proofs.Schema.Sound
import JoinForest.Schema.Reshape

set_option autoImplicit false

/-!
# Reachable schemas

When schemas can be attached and merged, and the schemas that any sequence of building, loading,
detaching, attaching and merging can give. Every one of them is sound (`Reachable.sound`).
-/

namespace JoinForest

open Forest

/-!
## Reshaped schemas

When a schema can be attached below a node of another one, and what comes of it
(`compose_eq_ok_iff`): one root, no shared name, a join that can be made, and then the forest of
the host with this root and its descendants grafted upon the node. Merging asks for no shared name
only (`merge_eq_ok_iff`).
-/

namespace Schema

theorem mem_sortedNames {s : Schema} {name : String} : name ∈ s.sortedNames ↔ name ∈ s.names := by
  simp [sortedNames, entriesByName, mem_names_iff]

/-- Two schemas have no name in common. -/
def DisjointNames (s other : Schema) : Prop := ∀ name ∈ other.names, name ∉ s.names

instance (s other : Schema) : Decidable (DisjointNames s other) :=
  inferInstanceAs (Decidable (∀ name ∈ other.names, name ∉ s.names))

theorem DisjointNames.symm {s other : Schema} (hdisjoint : DisjointNames s other) :
    DisjointNames other s := by
  intro name hname hmem
  exact hdisjoint name hmem hname

section Combined

variable {g h k o : Schema}
  (hk : ∀ {name : String}, name ∈ k.names ↔ name ∈ g.names ∨ name ∈ h.names)

include hk

/-- A schema that combines two has no name in common with a third one if neither of them has. -/
theorem disjointNames_left_iff : DisjointNames k o ↔ DisjointNames g o ∧ DisjointNames h o := by
  simp only [DisjointNames, hk, not_or, imp_and, forall_and]

theorem disjointNames_right_iff : DisjointNames o k ↔ DisjointNames o g ∧ DisjointNames o h := by
  simp only [DisjointNames, hk, or_imp, forall_and]

end Combined

/-- The check passes exactly if no name is in both schemas. -/
theorem checkDisjoint_eq_ok_iff {s other : Schema} :
    s.checkDisjoint other = .ok () ↔ DisjointNames s other := by
  cases hfind : other.sortedNames.find? s.contains with
  | none =>
    have hdisjoint : DisjointNames s other := fun name hname hmem =>
      List.find?_eq_none.1 hfind name (mem_sortedNames.2 hname) (contains_iff.2 hmem)
    simp [checkDisjoint, hfind, hdisjoint]
  | some name =>
    have hmem := contains_iff.1 (List.find?_some hfind)
    have hother := mem_sortedNames.1 (List.mem_of_find?_eq_some hfind)
    have hshared : ¬ DisjointNames s other := fun h => h name hother hmem
    simp [checkDisjoint, hfind, hshared]

theorem DisjointNames.nodup_append {s other : Schema} (hdisjoint : DisjointNames s other)
    (hs : s.names.Nodup) (hother : other.names.Nodup) : (s.names ++ other.names).Nodup := by
  refine List.nodup_append.2 ⟨hs, hother, ?_⟩
  rintro name hname _ hname' rfl
  exact hdisjoint name hname' hname

/-- A root becomes the top node of a scion by the join that it is given. -/
theorem names_tree_with_join (top : Member) (join : Option Join) (below : Forest Member) :
    (Forest.tree { top with join := join } below).labels.map Member.name =
      (Forest.tree top below).labels.map Member.name := by
  simp [Forest.tree, labels, Member.name]

/-- What is grafted upon a tree is grafted upon it also under another join of its top node. -/
theorem exists_graftedAt_with_join {scion under f : Forest Member} {host x : Member}
    (hgraft : GraftedAt scion host (.tree x under) f) (join : Option Join) :
    ∃ (under' : Forest Member) (host' : Member), f = .tree x under' ∧
      host'.source = host.source ∧
        GraftedAt scion host' (.tree { x with join := join } under)
          (.tree { x with join := join } under') := by
  cases hgraft with
  | here => exact ⟨_, { host with join := join }, rfl, rfl, .here under .nil⟩
  | inside _ _ hgraft => exact ⟨_, host, rfl, rfl, .inside _ .nil hgraft⟩
  | later _ _ hgraft => cases hgraft

section Compose

variable {g h k : Schema} {host top : Member} {below : Forest Member} {join : Join}

theorem names_perm_of_graftedAt (hforest : h.forest = .tree top below)
    (hgraft : GraftedAt (.tree { top with join := some join } below) host g.forest k.forest) :
    k.names.Perm (g.names ++ h.names) := by
  have hperm := hgraft.map_labels_perm Member.name
  rw [names_tree_with_join, ← hforest] at hperm
  exact hperm

/-- Grafting a sound schema with one root upon a sound one without a shared name gives a sound
one. -/
theorem Sound.of_graftedAt (hg : g.Sound) (hh : h.Sound) (hdisjoint : DisjointNames g h)
    (hforest : h.forest = .tree top below)
    (hgraft : GraftedAt (.tree { top with join := some join } below) host g.forest k.forest) :
    k.Sound := by
  refine ⟨?_, (hgraft.forall_withParents_iff none).2 ⟨hg.join_isSome, ?_⟩, hgraft.ne_nil.2⟩
  · rw [(names_perm_of_graftedAt hforest hgraft).nodup_iff]
    exact hdisjoint.nodup_append hg.names_nodup hh.names_nodup
  · have hnew := hh.join_isSome
    rw [hforest, Forest.tree, withParents, List.forall_mem_cons, withParents, List.append_nil]
      at hnew
    rw [Forest.tree, withParents, withParents, List.append_nil, List.forall_mem_cons]
    refine ⟨rfl, ?_⟩
    exact (forall_withParents_congr (P := fun p m => m.join.isSome = p.isSome) (some top)
      (some { top with join := some join }) (fun _ => Iff.rfl) below).1 hnew.2

/-- Attaching succeeds exactly at a node of the host, for a schema with one root and without a
shared name, when the join can be made, and grafts the joined root with its descendants. -/
theorem compose_eq_ok_iff (hg : g.Sound) (hh : h.Sound) {attachTo : String}
    {override : Option Override} {settings : BuildSettings} :
    g.compose h attachTo override settings = .ok k ↔
      ∃ host top below join, host.name = attachTo ∧ DisjointNames g h ∧
        h.forest = .tree top below ∧
          host.source.joinWith top.source override settings = .ok join ∧
            GraftedAt (.tree { top with join := some join } below) host g.forest k.forest := by
  constructor
  · intro hk
    simp only [compose, bind_eq_ok_iff, lookup_eq_ok_iff] at hk
    obtain ⟨e, he, _, hdisjoint, hk⟩ := hk
    obtain ⟨hmem, hname⟩ := name_of_node? he
    have hgraft (scion : Forest Member) := graftedAt_graft scion hg.names_nodup
      (label_mem_of_mem_entries hmem)
    split at hk
    · rename_i top below hforest
      obtain ⟨join, hjoin, hk⟩ := bind_eq_ok_iff.1 hk
      obtain ⟨hk, -⟩ := ofForest_eq_ok_iff.1 hk
      refine ⟨e.label, top, below, join, hname, checkDisjoint_eq_ok_iff.1 hdisjoint, hforest,
        hjoin, ?_⟩
      rw [hk, ← hname]
      exact hgraft _
    · exact absurd hk (by simp [throw, throwThe, MonadExceptOf.throw])
  · rintro ⟨host, top, below, join, hname, hdisjoint, hforest, hjoin, hgraft⟩
    obtain ⟨e, he, hhost⟩ : ∃ e ∈ g.entries, e.label = host := by
      have hmem := hgraft.mem_labels
      rw [← map_label_entries] at hmem
      exact List.mem_map.1 hmem
    have hnode : g.node? attachTo = some e :=
      hg.node?_eq_some_iff.2 ⟨he, by rw [← hname, ← hhost]; rfl⟩
    simp only [compose, bind_eq_ok_iff, lookup_eq_ok_iff]
    refine ⟨e, hnode, (), checkDisjoint_eq_ok_iff.2 hdisjoint, ?_⟩
    rw [hforest]
    refine bind_eq_ok_iff.2 ⟨join, by rw [← hhost] at hjoin; exact hjoin, ?_⟩
    rw [ofForest_eq_ok_iff, ← hname]
    exact ⟨(hgraft.graft_eq hg.names_nodup).symm,
      hg.of_graftedAt hh hdisjoint hforest hgraft⟩

end Compose

/-! ### Side by side -/

/-- Two sound schemas without a shared name are sound side by side. -/
theorem Sound.of_append {g h k : Schema} (hg : g.Sound) (hh : h.Sound)
    (hdisjoint : DisjointNames g h) (hforest : k.forest = g.forest ++ h.forest) : k.Sound := by
  refine ⟨?_, ?_, fun hnil => ?_⟩
  · rw [names, hforest, labels_append, List.map_append]
    exact hdisjoint.nodup_append hg.names_nodup hh.names_nodup
  · rw [hforest, withParents_append, List.forall_mem_append]
    exact ⟨hg.join_isSome, hh.join_isSome⟩
  · rw [hnil] at hforest
    cases hforest' : g.forest with
    | nil => exact hg.ne_nil hforest'
    | cons m cs rest => simp [hforest'] at hforest

/-- Merging succeeds exactly without a shared name, and puts the trees side by side. -/
theorem merge_eq_ok_iff {g h k : Schema} (hg : g.Sound) (hh : h.Sound) :
    g.merge h = .ok k ↔ DisjointNames g h ∧ k.forest = g.forest ++ h.forest := by
  simp only [merge, bind_eq_ok_iff, ofForest_eq_ok_iff]
  constructor
  · rintro ⟨_, hdisjoint, hforest, -⟩
    exact ⟨checkDisjoint_eq_ok_iff.1 hdisjoint, hforest⟩
  · rintro ⟨hdisjoint, hforest⟩
    exact ⟨(), checkDisjoint_eq_ok_iff.2 hdisjoint, hforest, hg.of_append hh hdisjoint hforest⟩

end Schema

/-!
## What can be reached

The schemas that any sequence of building, loading, detaching, attaching and merging can give.
Every one of them is sound (`Reachable.sound`).
-/

/-- What building, loading and reshaping can give, in any order and from any inputs. -/
inductive Reachable : Schema → Prop
  | build {topology : Topology} {overrides : Overrides} {settings : BuildSettings} {s : Schema} :
      Schema.build topology overrides settings = .ok s → Reachable s
  | parse {format : Format} {text : String} {settings : BuildSettings} {s : Schema} :
      Catalog.parseSchema format text settings = .ok s → Reachable s
  | load {read : String → FileContent} {path : String} {settings : BuildSettings} {s : Schema} :
      Catalog.loadSchema read path settings = .ok s → Reachable s
  | detach {s t : Schema} {name : String} :
      Reachable s → s.detach name = .ok t → Reachable t
  | compose {g h k : Schema} {attachTo : String} {override : Option Override}
      {settings : BuildSettings} :
      Reachable g → Reachable h → g.compose h attachTo override settings = .ok k → Reachable k
  | merge {g h k : Schema} : Reachable g → Reachable h → g.merge h = .ok k → Reachable k

namespace Schema

/-- Building checks what it has joined, so the result is sound. -/
theorem sound_of_build {topology : Topology} {overrides : Overrides} {settings : BuildSettings}
    {s : Schema} (h : build topology overrides settings = .ok s) : s.Sound := by
  rw [build] at h
  split at h
  · cases h
  · split at h
    · cases h
    · exact (ofForest_eq_ok_iff.1 h).2

theorem sound_of_detach {s t : Schema} {name : String} (h : s.detach name = .ok t) : t.Sound := by
  rw [detach, bind_eq_ok_iff] at h
  obtain ⟨_, -, h⟩ := h
  exact (ofForest_eq_ok_iff.1 h).2

theorem sound_of_merge {g h k : Schema} (hk : g.merge h = .ok k) : k.Sound := by
  rw [merge, bind_eq_ok_iff] at hk
  obtain ⟨_, -, hk⟩ := hk
  exact (ofForest_eq_ok_iff.1 hk).2

end Schema

namespace Catalog

/-- A schema read from a text is built. -/
theorem build_of_parseSchema {format : Format} {text : String} {settings : BuildSettings}
    {s : Schema} (h : parseSchema format text settings = .ok s) :
    ∃ topology overrides, Schema.build topology overrides settings = .ok s := by
  rw [parseSchema, bind_eq_ok_iff] at h
  obtain ⟨_, -, h⟩ := h
  exact ⟨_, _, mapError_eq_ok_iff.1 h⟩

/-- A schema read from a file is built. -/
theorem build_of_loadSchema {read : String → FileContent} {path : String}
    {settings : BuildSettings} {s : Schema} (h : loadSchema read path settings = .ok s) :
    ∃ topology overrides, Schema.build topology overrides settings = .ok s := by
  rw [loadSchema, bind_eq_ok_iff] at h
  obtain ⟨_, -, h⟩ := h
  exact ⟨_, _, mapError_eq_ok_iff.1 h⟩

end Catalog

/-- Every schema that can be reached is sound. -/
theorem Reachable.sound {s : Schema} (h : Reachable s) : s.Sound := by
  induction h with
  | build hs => exact Schema.sound_of_build hs
  | parse hs =>
    obtain ⟨_, _, hs⟩ := Catalog.build_of_parseSchema hs
    exact Schema.sound_of_build hs
  | load hs =>
    obtain ⟨_, _, hs⟩ := Catalog.build_of_loadSchema hs
    exact Schema.sound_of_build hs
  | detach _ ht _ => exact Schema.sound_of_detach ht
  | compose _ _ hk hg hh =>
    obtain ⟨_, _, _, _, -, hdisjoint, hforest, -, hgraft⟩ :=
      (Schema.compose_eq_ok_iff hg hh).1 hk
    exact hg.of_graftedAt hh hdisjoint hforest hgraft
  | merge _ _ hk _ _ => exact Schema.sound_of_merge hk

/-! ### Small schemas and what comes of them -/

namespace Sample

/-- The join that a foreign key of one column makes when nothing else is said. -/
def keyJoin (parent column child referenced : String) : Join :=
  ⟨.columns [(⟨parent, column⟩, ⟨child, referenced⟩)], .leftOuter, false⟩

/-- Sales refer to products. -/
def sales : Source := .table ⟨"sales", ["product_id"], [], [.single "product_id" "product" "id"]⟩

/-- Products refer to brands. -/
def product : Source :=
  .table ⟨"product", ["id", "brand_id"], ["id"], [.single "brand_id" "brand" "id"]⟩

/-- Brands refer to countries. -/
def brand : Source :=
  .table ⟨"brand", ["id", "country_id"], ["id"], [.single "country_id" "country" "id"]⟩

/-- Countries refer to nothing. -/
def country : Source := .table ⟨"country", ["id"], ["id"], []⟩

/-- Sales with the products below. -/
def salesSchema : Schema :=
  ⟨.tree ⟨sales, none⟩ (.tree ⟨product, some (keyJoin "sales" "product_id" "product" "id")⟩ .nil)⟩

/-- Brands with the countries below. -/
def brandSchema : Schema :=
  ⟨.tree ⟨brand, none⟩ (.tree ⟨country, some (keyJoin "brand" "country_id" "country" "id")⟩ .nil)⟩

/-- Stores, to which no foreign key refers. -/
def storeSchema : Schema := ⟨.tree ⟨.table ⟨"store", ["id"], ["id"], []⟩, none⟩ .nil⟩

/-- Sales with the products, brands and countries, each below the one before. -/
def chainSchema : Schema :=
  ⟨.tree ⟨sales, none⟩ (.tree ⟨product, some (keyJoin "sales" "product_id" "product" "id")⟩
    (.tree ⟨brand, some (keyJoin "product" "brand_id" "brand" "id")⟩
      (.tree ⟨country, some (keyJoin "brand" "country_id" "country" "id")⟩ .nil)))⟩

/-- Sales and brands side by side. -/
def galaxySchema : Schema := ⟨salesSchema.forest ++ brandSchema.forest⟩

theorem reachable_sales : Reachable salesSchema :=
  .build (show Schema.build (.tree sales (.tree product .nil)) .empty {} = .ok salesSchema from rfl)

theorem reachable_brand : Reachable brandSchema :=
  .build (show Schema.build (.tree brand (.tree country .nil)) .empty {} = .ok brandSchema from rfl)

theorem reachable_store : Reachable storeSchema :=
  .build (show Schema.build (.tree (.table ⟨"store", ["id"], ["id"], []⟩) .nil) .empty {} =
    .ok storeSchema from rfl)

/-- The brands attached to the products. -/
theorem compose_brand : salesSchema.compose brandSchema "product" none {} = .ok chainSchema :=
  (Schema.compose_eq_ok_iff reachable_sales.sound reachable_brand.sound).2
    ⟨_, _, _, _, rfl, by decide, rfl, rfl, .inside _ .nil (.here .nil .nil)⟩

theorem reachable_chain : Reachable chainSchema :=
  .compose reachable_sales reachable_brand compose_brand

/-- Sales and brands merged. -/
theorem merge_brand : salesSchema.merge brandSchema = .ok galaxySchema :=
  (Schema.merge_eq_ok_iff reachable_sales.sound reachable_brand.sound).2 ⟨by decide, rfl⟩

theorem reachable_galaxy : Reachable galaxySchema :=
  .merge reachable_sales reachable_brand merge_brand

end Sample

end JoinForest
