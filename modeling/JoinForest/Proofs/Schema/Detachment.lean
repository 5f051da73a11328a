import JoinForest.Proofs.Forest.Subtrees
import JoinForest.Proofs.Schema.Reachable
import JoinForest.Proofs.Schema.Request

set_option autoImplicit false

/-!
# Detached schemas

Detaching takes the tree at a name (`detach_eq_ok_iff`), and a request for nodes of this tree keeps
the steps onto nodes below its top node (`Reachable.plan_detach`).
-/

namespace JoinForest

open Forest

/-!
## Detached schemas as seen by requests

Detaching takes the tree at a name and leaves out the join above it (`detach_eq_ok_iff`). The paths
of the detached schema are those of the source from the chosen node on. Roots, the nodes passed on
the way up and the steps onto them can therefore be read off the source (`Detached.passes_eq`,
`Detached.filter_stepsOver`).
-/

namespace Schema

/-! ### The tree at a name -/

/-- The second schema is the tree of the first one at the node `top`. -/
structure Detached (g t : Schema) (top : Member) (below : Forest Member) : Prop where
  source : g.Sound
  sound : t.Sound
  treeIn : TreeIn top below g.forest
  forest_eq : t.forest = .tree { top with join := none } below

/-- A tree of a sound schema is sound once the join above it is left out. -/
theorem Sound.of_treeIn {g t : Schema} (hg : g.Sound) {top : Member} {below : Forest Member}
    (h : TreeIn top below g.forest) (hforest : t.forest = .tree { top with join := none } below) :
    t.Sound := by
  refine ⟨?_, ?_, ?_⟩
  · have hsub := hg.names_nodup.sublist (h.sublist_labels.map Member.name)
    rw [names, hforest, names_tree_with_join, Forest.tree, labels, labels, List.append_nil]
    exact hsub
  · obtain ⟨before, above, after, heq⟩ := h.withParents_eq none
    have hjoin := hg.join_isSome
    rw [heq, List.forall_mem_append, List.forall_mem_cons, List.forall_mem_append] at hjoin
    rw [hforest, Forest.tree, withParents, withParents, List.append_nil, List.forall_mem_cons]
    refine ⟨rfl, ?_⟩
    exact (forall_withParents_congr (P := fun p m => m.join.isSome = p.isSome) (some top)
      (some { top with join := none }) (fun _ => Iff.rfl) below).1 hjoin.2.2.1
  · rw [hforest]
    simp [Forest.tree]

/-- Detaching gives the tree at the node of the name, without the join above it. -/
theorem detach_eq_ok_iff {g t : Schema} (hg : g.Sound) {name : String} :
    g.detach name = .ok t ↔ ∃ top below, top.name = name ∧ Detached g t top below := by
  constructor
  · intro h
    rw [detach, bind_eq_ok_iff] at h
    obtain ⟨⟨top, below⟩, hfind, ht⟩ := h
    obtain ⟨hforest, hsound⟩ := ofForest_eq_ok_iff.1 ht
    have hsome : g.forest.find? (Member.name · == name) = some (top, below) := by
      cases hf : g.forest.find? (Member.name · == name) with
      | none => simp [orUnknown, hf] at hfind
      | some found => simpa [orUnknown, hf] using hfind
    obtain ⟨hin, hname⟩ := treeIn_of_find? hsome
    exact ⟨top, below, by simpa using hname, hg, hsound, hin, hforest⟩
  · rintro ⟨top, below, rfl, h⟩
    have hfind := find?_of_treeIn h.treeIn hg.names_nodup
    rw [detach, hfind]
    exact ofForest_eq_ok_iff.2 ⟨h.forest_eq, h.sound⟩

/-- A tree of a schema can be detached. -/
theorem Sound.detached {g : Schema} (hg : g.Sound) {top : Member} {below : Forest Member}
    (h : TreeIn top below g.forest) :
    Detached g ⟨.tree { top with join := none } below⟩ top below :=
  ⟨hg, hg.of_treeIn h rfl, h, rfl⟩

/-- Every name in use is that of a tree. -/
theorem exists_treeIn_of_mem_names {g : Schema} {name : String} (hname : name ∈ g.names) :
    ∃ top below, top.name = name ∧ TreeIn top below g.forest := by
  obtain ⟨top, htop, rfl⟩ := List.mem_map.1 hname
  obtain ⟨below, h⟩ := exists_treeIn htop
  exact ⟨top, below, rfl, h⟩

/-- The subtree at the top node of a tree is this tree. -/
theorem Sound.subtree_of_treeIn {g : Schema} (hg : g.Sound) {top : Member}
    {below : Forest Member} (h : TreeIn top below g.forest) :
    g.subtree top.name = .ok (top :: below.labels) := by
  rw [Schema.subtree, subtree?, find?_of_treeIn h hg.names_nodup]
  rfl

namespace Detached

variable {g t : Schema} {top : Member} {below : Forest Member} (h : Detached g t top below)

include h

theorem names_eq : t.names = top.name :: below.labels.map Member.name := by
  rw [names, h.forest_eq, names_tree_with_join, Forest.tree, labels, labels, List.append_nil,
    List.map_cons]

theorem mem_names_source {name : String} (hname : name ∈ t.names) : name ∈ g.names := by
  rw [h.names_eq] at hname
  exact (h.treeIn.sublist_labels.map Member.name).subset hname

/-- The chosen node is not among those below it. -/
theorem top_notMem : top.name ∉ below.labels.map Member.name := by
  have hnodup := h.sound.names_nodup
  rw [h.names_eq, List.nodup_cons] at hnodup
  exact hnodup.1

/-! ### Paths -/

/-- Paths of the source into the tree lead over the way down to the chosen node, which meets no node
below it, and go on as in the detached schema. -/
theorem exists_pathAbove : ∃ above,
    (∀ c ∈ below.labels.map Member.name, c ∉ (above ++ [top]).map Member.name) ∧
      ∀ name ∈ t.names, ∃ tail, t.path? name = some ({ top with join := none } :: tail) ∧
        g.path? name = some (above ++ top :: tail) := by
  obtain ⟨above, htop, hbelow⟩ := h.treeIn.exists_standsBelow
  refine ⟨above, ?_, ?_⟩
  · intro c hc hmem
    obtain ⟨x, hx, rfl⟩ := List.mem_map.1 hc
    obtain ⟨q, hq⟩ := exists_standsBelow hx
    have hnodup := h.source.names_nodup.sublist
      ((hbelow q x hq).sublist_labels.map Member.name)
    rw [List.append_assoc, List.cons_append, List.append_cons, List.map_append] at hnodup
    exact List.disjoint_of_nodup_append hnodup hmem (List.mem_map_of_mem (by simp))
  · intro name hname
    obtain ⟨m, hm, rfl⟩ := List.mem_map.1 hname
    obtain ⟨way, hway⟩ := exists_standsBelow hm
    have hpath := h.sound.path?_of_standsBelow hway
    rw [h.forest_eq, standsBelow_tree_iff] at hway
    obtain ⟨rfl, rfl⟩ | ⟨rest, rfl, hrest⟩ := hway
    · exact ⟨[], hpath, h.source.path?_of_standsBelow htop⟩
    · refine ⟨rest ++ [m], hpath, ?_⟩
      have hsource := h.source.path?_of_standsBelow (hbelow rest m hrest)
      rw [List.append_assoc] at hsource
      exact hsource

/-! ### Roots and nodes passed -/

/-- In the detached schema the chosen node is the root of all, and in the whole its root is theirs.
-/
theorem rootName?_eq {name : String} (hname : name ∈ t.names) :
    t.rootName? name = some top.name ∧ g.rootName? name = g.rootName? top.name := by
  have htop : top.name ∈ t.names := by
    rw [h.names_eq]
    exact List.mem_cons_self
  obtain ⟨above, -, hpaths⟩ := h.exists_pathAbove
  obtain ⟨tail, hpath, hsource⟩ := hpaths name hname
  obtain ⟨tail', -, hsource'⟩ := hpaths top.name htop
  have hroot := rootName?_of_path? hpath
  refine ⟨hroot, ?_⟩
  cases above with
  | nil => exact (rootName?_of_path? hsource).trans (rootName?_of_path? hsource').symm
  | cons root above =>
    exact (rootName?_of_path? hsource).trans (rootName?_of_path? hsource').symm

/-- Of the nodes below the chosen one, the same are passed in both schemas. -/
theorem passes_eq {name c : String} (hname : name ∈ t.names)
    (hc : c ∈ below.labels.map Member.name) : g.passes name c = t.passes name c := by
  obtain ⟨above, hapart, hpaths⟩ := h.exists_pathAbove
  obtain ⟨tail, hpath, hsource⟩ := hpaths name hname
  have hnot := hapart c hc
  rw [List.map_append, List.mem_append, not_or] at hnot
  rw [Bool.eq_iff_iff, passes, passes, hpath, hsource]
  cases above with
  | nil => simp
  | cons root above =>
    simp only [List.map_cons, List.mem_cons, not_or] at hnot
    simp [hnot.1.2, hnot.2]

/-- Below the chosen node the walks of both schemas pass the same nodes. -/
theorem passedFrom_eq {names : List String} (hnames : ∀ n ∈ names, n ∈ t.names) {c : String}
    (hc : c ∈ below.labels.map Member.name) : g.passedFrom names c = t.passedFrom names c :=
  passedFrom_congr fun n hn => h.passes_eq (hnames n hn) hc

/-! ### Steps -/

/-- The steps inside the tree read from the members below the chosen node. -/
theorem stepsOver_eq (test : String → Bool) :
    t.stepsOver test = stepsOnto test (below.withParents (some top)) := by
  rw [Schema.stepsOver_eq, h.forest_eq, Forest.tree, withParents, withParents, List.append_nil,
    stepsOnto_cons_root]
  exact stepsOnto_withParents_congr test (some { top with join := none }) (some top) rfl below

/-- The steps onto nodes below the chosen one are those of the detached schema. -/
theorem filter_stepsOver (test : String → Bool) :
    (g.stepsOver test).filter (fun st => (below.labels.map Member.name).contains st.child) =
      t.stepsOver test := by
  obtain ⟨outside, after, heq⟩ : ∃ outside after,
      g.forest.withParents none = outside ++ (below.withParents (some top) ++ after) := by
    obtain ⟨before, above, after, heq⟩ := h.treeIn.withParents_eq none
    exact ⟨before ++ [(above, top)], after, by rw [heq, List.append_cons]⟩
  have hnodup := h.source.names_nodup
  rw [names, ← map_snd_withParents none g.forest, heq] at hnodup
  simp only [List.map_append, map_snd_withParents] at hnodup
  -- Names are distinct, so outside of the tree there is none of those below the chosen node.
  have houtside : outside.filter (fun pm => (below.labels.map Member.name).contains pm.2.name) =
      [] := by
    refine List.filter_eq_nil_iff.2 ?_
    intro pm hpm hmem
    exact List.disjoint_of_nodup_append hnodup (List.mem_map_of_mem (List.mem_map_of_mem hpm))
      (List.mem_append_left _ (List.contains_iff_mem.1 hmem))
  have hafter : after.filter (fun pm => (below.labels.map Member.name).contains pm.2.name) =
      [] := by
    refine List.filter_eq_nil_iff.2 ?_
    intro pm hpm hmem
    exact List.disjoint_of_nodup_append hnodup.of_append_right (List.contains_iff_mem.1 hmem)
      (List.mem_map_of_mem (List.mem_map_of_mem hpm))
  have hinside : (below.withParents (some top)).filter
      (fun pm => (below.labels.map Member.name).contains pm.2.name) =
        below.withParents (some top) := by
    refine List.filter_eq_self.2 ?_
    intro pm hpm
    exact List.contains_iff_mem.2 (List.mem_map_of_mem (mem_labels_of_mem_withParents hpm))
  rw [Schema.stepsOver_eq, filter_stepsOnto, heq, List.filter_append, List.filter_append,
    houtside, hafter, hinside, List.nil_append, List.append_nil, h.stepsOver_eq]

end Detached

end Schema

/-!
## Plans of detached schemas

A request for nodes of one subtree has a plan in the source and in the detached schema. The latter
starts at the chosen node and keeps those steps of the former that lead onto nodes below it, in
their order (`Reachable.plan_detach`). Outside of the subtree no name is left.
-/

namespace Schema.Detached

variable {g t : Schema} {top : Member} {below : Forest Member} (h : Detached g t top below)

include h

/-- The nodes of a tree have one root in the source as well. -/
theorem exists_plan_source {names : List String} (hnames : ∀ n ∈ names, n ∈ t.names) :
    ∃ root, g.plan names = .ok ⟨root, g.stepsOver (g.passedFrom names)⟩ := by
  cases names with
  | nil =>
    obtain ⟨root, rest, hroots⟩ := List.exists_cons_of_ne_nil h.source.roots_ne_nil
    refine ⟨root.name, h.source.plan_eq_ok (by simp) ?_⟩
    intro _
    rw [hroots, List.head?_cons, Option.map_some]
  | cons name names =>
    have htop : top.name ∈ g.names := by
      refine h.mem_names_source ?_
      rw [h.names_eq]
      exact List.mem_cons_self
    obtain ⟨root, -, -, hroot⟩ := exists_rootOf htop
    refine ⟨root.name, h.source.plan_eq_ok ?_ (by simp)⟩
    intro n hn
    rw [(h.rootName?_eq (hnames n hn)).2, hroot]

/-- The plan inside the tree steps over the nodes below the chosen one that are passed in the
source. -/
theorem plan_eq {names : List String} (hnames : ∀ n ∈ names, n ∈ t.names) :
    t.plan names = .ok ⟨top.name, t.stepsOver (g.passedFrom names)⟩ := by
  have hsteps : t.stepsOver (g.passedFrom names) = t.stepsOver (t.passedFrom names) := by
    rw [h.stepsOver_eq, h.stepsOver_eq]
    refine stepsOnto_congr ?_
    intro pm hpm
    exact h.passedFrom_eq hnames (List.mem_map_of_mem (mem_labels_of_mem_withParents hpm))
  rw [hsteps]
  refine h.sound.plan_eq_ok (fun n hn => (h.rootName?_eq (hnames n hn)).1) ?_
  intro _
  rw [Schema.roots, h.forest_eq]
  rfl

end Schema.Detached

/-- Requests inside a subtree give in the detached schema what they give in the source, without the
steps onto the chosen node and above it. No name outside of the subtree is known any more. -/
theorem Reachable.plan_detach {g : Schema} (hg : Reachable g) {name : String}
    (hname : name ∈ g.names) :
    ∃ members t, g.subtree name = .ok members ∧ g.detach name = .ok t ∧
      (∀ names : List String, (∀ n ∈ names, n ∈ members.map Member.name) →
        ∃ p, g.plan names = .ok p ∧ t.plan names = .ok ⟨name, p.steps.filter fun st =>
          decide (st.child ∈ members.map Member.name ∧ st.child ≠ name)⟩) ∧
      ∀ n, n ∉ members.map Member.name →
        t.lookup n = .error (.unknownTable n (t.suggestion? n)) := by
  obtain ⟨top, below, rfl, hin⟩ := Schema.exists_treeIn_of_mem_names hname
  have h := hg.sound.detached hin
  refine ⟨_, _, hg.sound.subtree_of_treeIn hin,
    (Schema.detach_eq_ok_iff hg.sound).2 ⟨top, below, rfl, h⟩, ?_, ?_⟩
  · intro names hnames
    rw [List.map_cons, ← h.names_eq] at hnames
    obtain ⟨root, hplan⟩ := h.exists_plan_source hnames
    refine ⟨_, hplan, ?_⟩
    rw [h.plan_eq hnames, ← h.filter_stepsOver]
    have hchild (c : String) : (below.labels.map Member.name).contains c =
        decide (c ∈ (top :: below.labels).map Member.name ∧ c ≠ top.name) := by
      rw [Bool.eq_iff_iff, List.contains_iff_mem, decide_eq_true_eq, List.map_cons, List.mem_cons]
      constructor
      · intro hc
        refine ⟨Or.inr hc, ?_⟩
        rintro rfl
        exact h.top_notMem hc
      · rintro ⟨hc, hne⟩
        exact hc.resolve_left hne
    simp only [hchild]
  · intro n hn
    rw [List.map_cons, ← h.names_eq] at hn
    exact Schema.lookup_of_not_mem hn

/-- The plan from the products to the countries is the end of the one from the sales. -/
theorem Sample.plan_product : ∃ members t,
    chainSchema.subtree "product" = .ok members ∧ chainSchema.detach "product" = .ok t ∧
      (∃ p, chainSchema.plan ["country", "product"] = .ok p ∧
        t.plan ["country", "product"] = .ok ⟨"product", p.steps.filter fun st =>
          decide (st.child ∈ members.map Member.name ∧ st.child ≠ "product")⟩) ∧
        t.lookup "sales" = .error (.unknownTable "sales" (t.suggestion? "sales")) := by
  obtain ⟨members, t, hmembers, ht, hplan, hunknown⟩ :=
    Reachable.plan_detach reachable_chain (show "product" ∈ chainSchema.names by decide)
  have hnames : members.map Member.name = ["product", "brand", "country"] := by
    obtain rfl := Except.ok.inj (hmembers.symm.trans rfl)
    rfl
  refine ⟨members, t, hmembers, ht, hplan _ ?_, hunknown _ ?_⟩
  · rw [hnames]
    decide
  · rw [hnames]
    decide

end JoinForest
