import JoinForest.Proofs.Schema.Detachment
import JoinForest.Proofs.Schema.Numbering

set_option autoImplicit false

/-!
# What reshaping refuses

Each way to make a schema of others looks for faults in a fixed order and reports the first kind
that it finds: an unknown name, the smallest shared name, the number of roots, a join that cannot be
made. `DetachOutcome`, `MergeOutcome` and `ComposeOutcome` have one constructor for every way to
end, and `Reachable.reshape_outcome` says that the operations end so and in no other way. The forest
that is left when these checks are passed is always a schema (`Drafted`), so none of the faults that
`Schema.ofForest` looks for is ever found.
-/

namespace JoinForest

open Forest

namespace Schema

/-! ## The smallest shared name -/

/-- The first element of a sorted list that passes a test is the least one that does. -/
theorem find?_eq_some_iff_least {names : List String} (h : names.Pairwise (· < ·))
    {p : String → Bool} {name : String} :
    names.find? p = some name ↔
      name ∈ names ∧ p name = true ∧ ∀ other ∈ names, p other = true → name ≤ other := by
  induction names with
  | nil => simp
  | cons first names ih =>
    obtain ⟨hfirst, hrest⟩ := List.pairwise_cons.1 h
    by_cases hp : p first = true
    · rw [List.find?_cons_of_pos hp, Option.some.injEq]
      constructor
      · rintro rfl
        refine ⟨List.mem_cons_self, hp, ?_⟩
        intro other hother _
        rcases List.mem_cons.1 hother with rfl | hother
        · exact String.le_refl _
        · exact String.not_lt.1 (String.lt_asymm (hfirst other hother))
      · rintro ⟨hname, -, hleast⟩
        rcases List.mem_cons.1 hname with rfl | hname
        · rfl
        · exact absurd (hfirst name hname) (String.not_lt.2 (hleast first List.mem_cons_self hp))
    · rw [List.find?_cons_of_neg hp, ih hrest, List.mem_cons, List.forall_mem_cons]
      constructor
      · rintro ⟨hname, hpass, hleast⟩
        exact ⟨Or.inr hname, hpass, fun hfails => absurd hfails hp, hleast⟩
      · rintro ⟨rfl | hname, hpass, -, hleast⟩
        · exact absurd hpass hp
        · exact ⟨hname, hpass, hleast⟩

theorem Sound.sortedNames_pairwise {s : Schema} (hs : s.Sound) :
    s.sortedNames.Pairwise (· < ·) :=
  List.pairwise_map.2 hs.entriesByName_pairwise

/-- The smallest of the names that two schemas have in common. -/
structure SmallestShared (g h : Schema) (name : String) : Prop where
  left : name ∈ g.names
  right : name ∈ h.names
  least : ∀ other ∈ g.names, other ∈ h.names → name ≤ other

/-- The smallest name that both have is the one that is reported. -/
theorem SmallestShared.checkDisjoint_eq {g h : Schema} (hh : h.Sound) {name : String}
    (hname : SmallestShared g h name) : g.checkDisjoint h = .error (.duplicateName name) := by
  have hfind : h.sortedNames.find? g.contains = some name := by
    refine (find?_eq_some_iff_least hh.sortedNames_pairwise).2
      ⟨mem_sortedNames.2 hname.right, contains_iff.2 hname.left, ?_⟩
    intro other hother hshared
    exact hname.least other (contains_iff.1 hshared) (mem_sortedNames.1 hother)
  rw [checkDisjoint, hfind]

/-- Two schemas have no name in common, or a smallest one. -/
theorem disjointNames_or_smallestShared (g : Schema) {h : Schema} (hh : h.Sound) :
    DisjointNames g h ∨ ∃ name, SmallestShared g h name := by
  cases hfind : h.sortedNames.find? g.contains with
  | none =>
    left
    rw [← checkDisjoint_eq_ok_iff, checkDisjoint, hfind]
  | some name =>
    right
    obtain ⟨hmem, hshared, hleast⟩ := (find?_eq_some_iff_least hh.sortedNames_pairwise).1 hfind
    refine ⟨name, contains_iff.1 hshared, mem_sortedNames.1 hmem, ?_⟩
    intro other hleft hright
    exact hleast other (mem_sortedNames.2 hright) (contains_iff.2 hleft)

/-! ## Outcomes -/

variable {g h : Schema} {name attachTo : String} {override : Option Override}
  {settings : BuildSettings} {out : Except SchemaError Schema}

/-- What detaching at a name comes to. -/
inductive DetachOutcome (g : Schema) (name : String) : Except SchemaError Schema → Prop
  /-- No node has the name. -/
  | unknown : name ∉ g.names →
      DetachOutcome g name (.error (.unknownTable name (g.suggestion? name)))
  /-- The tree at the node of the name is taken, without the join above it. -/
  | detached {top : Member} {below : Forest Member} : top.name = name →
      TreeIn top below g.forest →
        DetachOutcome g name (.ok ⟨.tree { top with join := none } below⟩)

/-- What merging comes to. -/
inductive MergeOutcome (g h : Schema) : Except SchemaError Schema → Prop
  /-- There are shared names, of which the smallest is reported. -/
  | shared {name : String} : SmallestShared g h name →
      MergeOutcome g h (.error (.duplicateName name))
  /-- The trees of both stand side by side. -/
  | merged : DisjointNames g h → MergeOutcome g h (.ok ⟨g.forest ++ h.forest⟩)

/-- What attaching comes to. Every constructor but the first says that the checks before its own
are passed. -/
inductive ComposeOutcome (g h : Schema) (attachTo : String) (override : Option Override)
    (settings : BuildSettings) : Except SchemaError Schema → Prop
  /-- No node has the name to attach to. -/
  | unknown : attachTo ∉ g.names → ComposeOutcome g h attachTo override settings
      (.error (.unknownTable attachTo (g.suggestion? attachTo)))
  /-- There are shared names, of which the smallest is reported. -/
  | shared {name : String} : attachTo ∈ g.names → SmallestShared g h name →
      ComposeOutcome g h attachTo override settings (.error (.duplicateName name))
  /-- The attached schema has not one root. -/
  | manyRoots : attachTo ∈ g.names → DisjointNames g h → h.roots.length ≠ 1 →
      ComposeOutcome g h attachTo override settings
        (.error (.invalidTopology (.manyRoots h.roots.length)))
  /-- The root cannot be joined onto the node. -/
  | unjoined {host top : Member} {e : SchemaError} : host ∈ g.forest.labels →
      host.name = attachTo → DisjointNames g h → h.roots = [top] →
        host.source.joinWith top.source override settings = .error e →
          ComposeOutcome g h attachTo override settings (.error e)
  /-- The root is joined onto the node and becomes, with all below it, its last child. -/
  | composed {host top : Member} {below : Forest Member} {join : Join} {k : Schema} :
      host.name = attachTo → DisjointNames g h → h.forest = .tree top below →
        host.source.joinWith top.source override settings = .ok join →
          GraftedAt (.tree { top with join := some join } below) host g.forest k.forest →
            ComposeOutcome g h attachTo override settings (.ok k)

/-! ## Detaching -/

theorem find?_of_not_mem (hname : name ∉ g.names) :
    g.forest.find? (Member.name · == name) = none :=
  find?_eq_none_iff.2 (beq_key_eq_false hname)

theorem detach_of_not_mem (hname : name ∉ g.names) :
    g.detach name = .error (.unknownTable name (g.suggestion? name)) := by
  rw [detach, find?_of_not_mem hname]
  rfl

/-- Detaching has one of the described outcomes, and which one is determined. -/
theorem Sound.detach_eq_iff (hg : g.Sound) : g.detach name = out ↔ DetachOutcome g name out := by
  constructor
  · rintro rfl
    by_cases hname : name ∈ g.names
    · obtain ⟨top, below, rfl, hin⟩ := exists_treeIn_of_mem_names hname
      rw [(detach_eq_ok_iff hg).2 ⟨top, below, rfl, hg.detached hin⟩]
      exact .detached rfl hin
    · rw [detach_of_not_mem hname]
      exact .unknown hname
  · intro hout
    cases hout with
    | unknown hname => exact detach_of_not_mem hname
    | detached hname hin =>
      exact (detach_eq_ok_iff hg).2 ⟨_, _, hname, hg.detached hin⟩

/-! ## Merging -/

theorem Sound.merge_eq_iff (hg : g.Sound) (hh : h.Sound) :
    g.merge h = out ↔ MergeOutcome g h out := by
  have hshared {name : String} (hname : SmallestShared g h name) :
      g.merge h = .error (.duplicateName name) := by
    rw [merge, hname.checkDisjoint_eq hh]
    rfl
  have hmerged (hdisjoint : DisjointNames g h) : g.merge h = .ok ⟨g.forest ++ h.forest⟩ :=
    (merge_eq_ok_iff hg hh).2 ⟨hdisjoint, rfl⟩
  constructor
  · rintro rfl
    obtain hdisjoint | ⟨name, hname⟩ := disjointNames_or_smallestShared g hh
    · rw [hmerged hdisjoint]
      exact .merged hdisjoint
    · rw [hshared hname]
      exact .shared hname
  · intro hout
    cases hout with
    | shared hname => exact hshared hname
    | merged hdisjoint => exact hmerged hdisjoint

/-! ## Attaching -/

/-- A schema with one root is one tree. -/
theorem roots_eq_singleton_iff {top : Member} :
    h.roots = [top] ↔ ∃ below, h.forest = .tree top below := by
  constructor
  · intro hroots
    rw [roots] at hroots
    rcases hforest : h.forest with _ | ⟨m, below, _ | ⟨m', cs, rest⟩⟩
    · rw [hforest] at hroots
      cases hroots
    · rw [hforest] at hroots
      obtain rfl := (List.cons.inj hroots).1
      exact ⟨below, rfl⟩
    · rw [hforest] at hroots
      cases hroots
  · rintro ⟨below, hforest⟩
    rw [roots, hforest]
    rfl

theorem exists_lookup_of_label {host : Member} (hg : g.Sound) (hhost : host ∈ g.forest.labels) :
    ∃ e, g.lookup host.name = .ok e ∧ e.label = host := by
  rw [← map_label_entries] at hhost
  obtain ⟨e, he, rfl⟩ := List.mem_map.1 hhost
  exact ⟨e, lookup_eq_ok_iff.2 (hg.node?_eq_some_iff.2 ⟨he, rfl⟩), rfl⟩

/-- What attaching comes to is what the checks come to. -/
theorem Sound.compose_of_outcome (hg : g.Sound) (hh : h.Sound)
    (hout : ComposeOutcome g h attachTo override settings out) :
    g.compose h attachTo override settings = out := by
  have hlookup (hattach : attachTo ∈ g.names) :
      ∃ e, g.lookup attachTo = .ok e := by
    obtain ⟨host, hhost, rfl⟩ := List.mem_map.1 hattach
    obtain ⟨e, he, -⟩ := exists_lookup_of_label hg hhost
    exact ⟨e, he⟩
  cases hout with
  | unknown hattach =>
    rw [compose, lookup_of_not_mem hattach]
    rfl
  | shared hattach hname =>
    obtain ⟨e, he⟩ := hlookup hattach
    rw [compose, he, hname.checkDisjoint_eq hh]
    rfl
  | manyRoots hattach hdisjoint hroots =>
    obtain ⟨e, he⟩ := hlookup hattach
    rw [compose, he, checkDisjoint_eq_ok_iff.2 hdisjoint]
    rw [roots] at hroots ⊢
    rcases hforest : h.forest with _ | ⟨m, below, _ | ⟨m', cs, rest⟩⟩
    · rfl
    · rw [hforest] at hroots
      exact absurd rfl hroots
    · rfl
  | unjoined hhost hname hdisjoint hroots hjoin =>
    subst hname
    obtain ⟨e, he, rfl⟩ := exists_lookup_of_label hg hhost
    obtain ⟨below, hforest⟩ := roots_eq_singleton_iff.1 hroots
    rw [compose, he, checkDisjoint_eq_ok_iff.2 hdisjoint, hforest]
    change (Source.joinWith _ _ _ _ >>= _) = _
    rw [Entry.source, hjoin]
    rfl
  | composed hname hdisjoint hforest hjoin hgraft =>
    exact (compose_eq_ok_iff hg hh).2 ⟨_, _, _, _, hname, hdisjoint, hforest, hjoin, hgraft⟩

/-- The checks come to something. -/
theorem exists_composeOutcome (g : Schema) (hh : h.Sound) (attachTo : String)
    (override : Option Override) (settings : BuildSettings) :
    ∃ out, ComposeOutcome g h attachTo override settings out := by
  by_cases hattach : attachTo ∈ g.names
  · obtain hdisjoint | ⟨name, hname⟩ := disjointNames_or_smallestShared g hh
    · by_cases hroots : h.roots.length = 1
      · obtain ⟨top, htop⟩ := List.length_eq_one_iff.1 hroots
        obtain ⟨below, hforest⟩ := roots_eq_singleton_iff.1 htop
        obtain ⟨host, hhost, hname⟩ := List.mem_map.1 hattach
        cases hjoin : host.source.joinWith top.source override settings with
        | error e => exact ⟨_, .unjoined hhost hname hdisjoint htop hjoin⟩
        | ok join =>
          obtain ⟨f, hgraft⟩ :=
            exists_graftedAt (.tree { top with join := some join } below) hhost
          exact ⟨_, .composed (k := ⟨f⟩) hname hdisjoint hforest hjoin hgraft⟩
      · exact ⟨_, .manyRoots hattach hdisjoint hroots⟩
    · exact ⟨_, .shared hattach hname⟩
  · exact ⟨_, .unknown hattach⟩

/-- Composing has one of the described outcomes, and which one is determined. -/
theorem Sound.compose_eq_iff (hg : g.Sound) (hh : h.Sound) :
    g.compose h attachTo override settings = out ↔
      ComposeOutcome g h attachTo override settings out := by
  constructor
  · rintro rfl
    obtain ⟨out, hout⟩ := exists_composeOutcome g hh attachTo override settings
    rw [hg.compose_of_outcome hh hout]
    exact hout
  · exact hg.compose_of_outcome hh

/-- Attaching keeps all nodes of both schemas. -/
theorem Sound.size_of_compose (hg : g.Sound) (hh : h.Sound) {k : Schema}
    (hk : g.compose h attachTo override settings = .ok k) : k.size = g.size + h.size := by
  obtain ⟨_, _, _, _, -, -, hforest, -, hgraft⟩ := (compose_eq_ok_iff hg hh).1 hk
  have hlength := (names_perm_of_graftedAt hforest hgraft).length_eq
  simpa [names, size, length_labels] using hlength

/-! ## Forests that pass the checks -/

/-- The forests of which the operations make their schemas, after the checks of their own. -/
inductive Drafted (g h : Schema) : Forest Member → Prop
  | detach {name : String} {top : Member} {below : Forest Member} :
      g.forest.find? (Member.name · == name) = some (top, below) →
        Drafted g h (.tree { top with join := none } below)
  | merge : g.checkDisjoint h = .ok () → Drafted g h (g.forest ++ h.forest)
  | compose {attachTo : String} {host : Entry} {top : Member} {below : Forest Member}
      {override : Option Override} {settings : BuildSettings} {join : Join} :
      g.lookup attachTo = .ok host → g.checkDisjoint h = .ok () →
        h.forest = .cons top below .nil →
          host.source.joinWith top.source override settings = .ok join →
            Drafted g h (graft (Member.name · == attachTo)
              (.tree { top with join := some join } below) g.forest)

/-- Such a forest has no fault left. -/
theorem Drafted.ofForest_eq {f : Forest Member} (hf : Drafted g h f) (hg : g.Sound)
    (hh : h.Sound) : ofForest f = .ok ⟨f⟩ := by
  refine ofForest_eq_ok_iff.2 ⟨rfl, ?_⟩
  cases hf with
  | detach hfind => exact hg.of_treeIn (treeIn_of_find? hfind).1 rfl
  | merge hdisjoint => exact hg.of_append hh (checkDisjoint_eq_ok_iff.1 hdisjoint) rfl
  | compose hhost hdisjoint hforest hjoin =>
    obtain ⟨hmem, rfl⟩ := name_of_node? (lookup_eq_ok_iff.1 hhost)
    exact hg.of_graftedAt hh (checkDisjoint_eq_ok_iff.1 hdisjoint) hforest
      (graftedAt_graft _ hg.names_nodup (label_mem_of_mem_entries hmem))

end Schema

/-- Detaching, merging and attaching come to what their outcomes say and to nothing else: each
reports its own faults, in the order in which the constructors come, and succeeds otherwise.
Attaching keeps all nodes of both schemas. What is left of the inputs after these checks is a
schema, so that no other fault is ever found. -/
theorem Reachable.reshape_outcome {g h : Schema} (hg : Reachable g) (hh : Reachable h) :
    (∀ name out, g.detach name = out ↔ Schema.DetachOutcome g name out) ∧
    (∀ out, g.merge h = out ↔ Schema.MergeOutcome g h out) ∧
    (∀ attachTo override settings out, g.compose h attachTo override settings = out ↔
      Schema.ComposeOutcome g h attachTo override settings out) ∧
    (∀ attachTo override settings k, g.compose h attachTo override settings = .ok k →
      k.size = g.size + h.size) ∧
    ∀ f, Schema.Drafted g h f → Schema.ofForest f = .ok ⟨f⟩ := by
  refine ⟨?_, ?_, ?_, ?_, ?_⟩
  · exact fun name out => hg.sound.detach_eq_iff
  · exact fun out => hg.sound.merge_eq_iff hh.sound
  · exact fun attachTo override settings out => hg.sound.compose_eq_iff hh.sound
  · exact fun attachTo override settings k => hg.sound.size_of_compose hh.sound
  · exact fun f hf => hf.ofForest_eq hg.sound hh.sound

namespace Sample

/-- Stores are no part of the sales; sales share their names with themselves, and cannot be attached
to stores together with the brands, nor stores to products for want of a key. Brands can, and all
four tables are there afterwards. -/
theorem reshape_sales :
    salesSchema.detach "store" =
        .error (.unknownTable "store" (salesSchema.suggestion? "store")) ∧
      salesSchema.merge salesSchema = .error (.duplicateName "product") ∧
      storeSchema.compose galaxySchema "store" none {} =
        .error (.invalidTopology (.manyRoots 2)) ∧
      salesSchema.compose storeSchema "product" none {} =
        .error (.missingRelation "product" "store") ∧
      chainSchema.size = salesSchema.size + brandSchema.size ∧
      Schema.ofForest (salesSchema.forest ++ brandSchema.forest) = .ok galaxySchema := by
  obtain ⟨hdetach, -, -, hsize, hdrafted⟩ :=
    Reachable.reshape_outcome reachable_sales reachable_brand
  obtain ⟨-, hmerge, -⟩ := Reachable.reshape_outcome reachable_sales reachable_sales
  obtain ⟨-, -, hgalaxy, -⟩ := Reachable.reshape_outcome reachable_store reachable_galaxy
  obtain ⟨-, -, hstore, -⟩ := Reachable.reshape_outcome reachable_sales reachable_store
  refine ⟨?_, ?_, ?_, ?_, ?_, ?_⟩
  · exact (hdetach "store" _).2 (.unknown (by decide))
  · exact (hmerge _).2 (.shared ⟨by decide, by decide, by decide⟩)
  · exact (hgalaxy "store" none {} _).2 (.manyRoots (by decide) (by decide) (by decide))
  · refine (hstore "product" none {} _).2 ?_
    exact .unjoined (List.mem_cons_of_mem _ List.mem_cons_self) rfl (by decide) rfl rfl
  · exact hsize "product" none {} chainSchema compose_brand
  · exact hdrafted _ (.merge (Schema.checkDisjoint_eq_ok_iff.2 (by decide)))

end Sample

end JoinForest
