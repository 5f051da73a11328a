import JoinForest.Proofs.Schema.Reachable
import JoinForest.Proofs.Schema.Request

set_option autoImplicit false

/-!
# Attached schemas

Attaching changes no request for old nodes, and puts the steps inside the attached schema behind the
one onto its root (`Attached.plan_left`, `Attached.plan_both`).
-/

namespace JoinForest

open Forest

/-!
## Attached schemas as seen by requests

Attaching keeps the paths of the host schema and puts the path of the chosen node in front of those
of the attached one. Roots, the nodes passed on the way up and the steps onto them can therefore be
read off the two parts. The host is kept as it was (`Attached.kept`), and the steps onto attached
nodes are those inside the attached schema behind the one onto its root (`Attached.filter_right`).
-/

namespace Schema

/-- The third schema is the first one with the second, below its root `top`, attached to `host`. -/
structure Attached (g h k : Schema) (host top : Member) (below : Forest Member) (join : Join) :
    Prop where
  left : g.Sound
  right : h.Sound
  sound : k.Sound
  disjoint : DisjointNames g h
  forest_eq : h.forest = .tree top below
  grafted : GraftedAt (.tree { top with join := some join } below) host g.forest k.forest

/-- The steps that attaching adds: onto the root of the attached schema, then those inside it. -/
def addedSteps (h : Schema) (host top : Member) (join : Join) (test : String → Bool) : List Step :=
  (if test top.name then [⟨host.name, top.name, join.condition, join.kind⟩] else []) ++
    h.stepsOver test

/-- A composition is an attachment: the forest of the one schema with the tree of the other grafted
onto the node of the given name. -/
theorem Sound.attached_of_compose {g h k : Schema} (hg : g.Sound) (hh : h.Sound)
    {attachTo : String} {override : Option Override} {settings : BuildSettings}
    (hk : g.compose h attachTo override settings = .ok k) :
    ∃ host top below join, host.name = attachTo ∧
      host.source.joinWith top.source override settings = .ok join ∧
        Attached g h k host top below join := by
  obtain ⟨host, top, below, join, hname, hdisjoint, hforest, hjoin, hgraft⟩ :=
    (compose_eq_ok_iff hg hh).1 hk
  exact ⟨host, top, below, join, hname, hjoin, hg, hh,
    hg.of_graftedAt hh hdisjoint hforest hgraft, hdisjoint, hforest, hgraft⟩

namespace Attached

variable {g h k : Schema} {host top : Member} {below : Forest Member} {join : Join}
  (hk : Attached g h k host top below join)

include hk

/-! ### Paths -/

theorem host_mem : host.name ∈ g.names := List.mem_map_of_mem hk.grafted.mem_labels

theorem top_mem : top.name ∈ h.names := by
  rw [names, hk.forest_eq, Forest.tree, labels]
  exact List.mem_cons_self

/-- Old nodes keep their paths. -/
theorem path?_left {name : String} (hname : name ∈ g.names) : k.path? name = g.path? name := by
  obtain ⟨m, hm, rfl⟩ := List.mem_map.1 hname
  obtain ⟨above, habove⟩ := exists_standsBelow hm
  obtain ⟨_, -, hstands⟩ := hk.grafted.standsBelow_iff
  rw [hk.left.path?_of_standsBelow habove,
    hk.sound.path?_of_standsBelow ((hstands _ _).2 (Or.inl habove))]

/-- The paths of the attached schema are continued up to the root of the host. -/
theorem exists_hostPath : ∃ hostPath, g.path? host.name = some hostPath ∧
    ∀ name ∈ h.names, ∃ tail, h.path? name = some (top :: tail) ∧
      k.path? name = some (hostPath ++ { top with join := some join } :: tail) := by
  obtain ⟨hostAbove, hhost, hstands⟩ := hk.grafted.standsBelow_iff
  refine ⟨_, hk.left.path?_of_standsBelow hhost, fun name hname => ?_⟩
  obtain ⟨m, hm, rfl⟩ := List.mem_map.1 hname
  obtain ⟨above, habove⟩ := exists_standsBelow hm
  have hpath := hk.right.path?_of_standsBelow habove
  rw [hk.forest_eq, standsBelow_tree_iff] at habove
  obtain ⟨rfl, rfl⟩ | ⟨rest, rfl, hrest⟩ := habove
  · refine ⟨[], hpath, ?_⟩
    have hnew := hk.sound.path?_of_standsBelow ((hstands _ _).2
      (Or.inr ⟨[], rfl, standsBelow_tree_iff.2 (Or.inl ⟨rfl, rfl⟩)⟩))
    rw [List.append_assoc] at hnew ⊢
    exact hnew
  · refine ⟨rest ++ [m], hpath, ?_⟩
    have hnew := hk.sound.path?_of_standsBelow ((hstands _ _).2
      (Or.inr ⟨_, rfl, standsBelow_tree_iff.2 (Or.inr ⟨rest, rfl, hrest⟩)⟩))
    rw [List.append_assoc] at hnew ⊢
    exact hnew

/-! ### Roots and nodes passed -/

theorem roots_eq : k.roots = g.roots := hk.grafted.roots_eq

theorem mem_names_iff {name : String} : name ∈ k.names ↔ name ∈ g.names ∨ name ∈ h.names := by
  rw [(names_perm_of_graftedAt hk.forest_eq hk.grafted).mem_iff, List.mem_append]

/-- The nodes of the scion have the names of the attached schema. -/
theorem map_name_scion :
    (Forest.tree { top with join := some join } below).labels.map Member.name = h.names := by
  rw [names_tree_with_join, ← hk.forest_eq]
  rfl

/-- The host is kept. -/
theorem kept : Kept g k where
  source := hk.left
  sound := hk.sound
  path?_eq _ hn := hk.path?_left hn
  withParents_eq := by
    obtain ⟨before, after, hold, hnew⟩ := hk.grafted.withParents_eq none
    have hscion := filter_withParents_eq_nil (s := g) (some host) (by
      rw [hk.map_name_scion]
      exact hk.disjoint)
    rw [hnew, List.filter_append, List.filter_append, hscion, List.append_nil,
      ← List.filter_append, ← hold, filter_withParents_self]

/-- Attached nodes get the root of the host, where they had their own. -/
theorem rootName?_right {name : String} (hname : name ∈ h.names) :
    k.rootName? name = g.rootName? host.name ∧ h.rootName? name = some top.name := by
  obtain ⟨hostPath, hhost, hpaths⟩ := hk.exists_hostPath
  obtain ⟨tail, hpath, hnew⟩ := hpaths name hname
  obtain ⟨⟨root, rest, rfl, -⟩, -⟩ := exists_of_path? hhost
  exact ⟨(rootName?_of_path? hnew).trans (rootName?_of_path? hhost).symm, rootName?_of_path? hpath⟩

/-- From an attached node the way up leads over the nodes passed in its schema, over the root of
this schema and over the nodes passed from the host. -/
theorem passes_right {name : String} (hname : name ∈ h.names) {c : String} :
    k.passes name c = true ↔
      g.passes host.name c = true ∨ c = top.name ∨ h.passes name c = true := by
  obtain ⟨hostPath, hhost, hpaths⟩ := hk.exists_hostPath
  obtain ⟨tail, hpath, hnew⟩ := hpaths name hname
  obtain ⟨⟨root, rest, rfl, -⟩, -⟩ := exists_of_path? hhost
  simp only [passes, hhost, hpath, hnew, Option.any_some, List.cons_append, List.tail_cons,
    List.contains_iff_mem, List.map_append, List.map_cons, List.mem_append, List.mem_cons]
  exact Iff.rfl

/-! ### Steps -/

theorem stepsOver_right (test : String → Bool) :
    h.stepsOver test = stepsOnto test (below.withParents (some top)) := by
  rw [stepsOver_eq, hk.forest_eq, Forest.tree, withParents, withParents, List.append_nil,
    stepsOnto_cons_root]

/-- No step of the attached schema leads onto its root. -/
theorem stepsOver_right_congr {test test' : String → Bool}
    (htest : ∀ n ∈ h.names, n ≠ top.name → test n = test' n) :
    h.stepsOver test = h.stepsOver test' := by
  have hnodup := hk.right.names_nodup
  rw [names, hk.forest_eq, Forest.tree, labels, labels, List.append_nil, List.map_cons,
    List.nodup_cons] at hnodup
  rw [hk.stepsOver_right, hk.stepsOver_right]
  refine stepsOnto_congr fun pm hpm => ?_
  have hmem := mem_labels_of_mem_withParents hpm
  refine htest _ ?_ fun heq => hnodup.1 (heq ▸ List.mem_map_of_mem hmem)
  rw [names, hk.forest_eq, Forest.tree, labels, labels, List.append_nil]
  exact List.mem_map_of_mem (List.mem_cons_of_mem _ hmem)

/-- The steps onto the attached tree are the new one onto its top and the old ones below it. -/
theorem stepsOnto_scion (test : String → Bool) :
    stepsOnto test ((Forest.tree { top with join := some join } below).withParents (some host)) =
      addedSteps h host top join test := by
  have hbelow := stepsOnto_withParents_congr test (some { top with join := some join }) (some top)
    rfl below
  rw [Forest.tree, withParents, withParents, List.append_nil, stepsOnto_cons_joined, hbelow,
    addedSteps, hk.stepsOver_right]

/-- The nodes that bear names of the attached schema are those of the scion. -/
theorem filter_withParents_right :
    (k.forest.withParents none).filter (fun pm => h.contains pm.2.name) =
      (Forest.tree { top with join := some join } below).withParents (some host) := by
  obtain ⟨before, after, hold, hnew⟩ := hk.grafted.withParents_eq none
  have hhost := filter_withParents_eq_nil (s := h) none hk.disjoint.symm
  have hscion := filter_withParents_eq_self (s := h) (some host) (by
    intro n hn
    rw [hk.map_name_scion] at hn
    exact hn)
  rw [hold, List.filter_append, List.append_eq_nil_iff] at hhost
  rw [hnew, List.filter_append, List.filter_append, hhost.1, hhost.2, hscion, List.nil_append,
    List.append_nil]

/-- The steps onto attached nodes are the added ones. -/
theorem filter_right (test : String → Bool) :
    (k.stepsOver test).filter (fun st => h.contains st.child) =
      addedSteps h host top join test := by
  rw [stepsOver_eq, filter_stepsOnto, hk.filter_withParents_right, hk.stepsOnto_scion]

end Attached

end Schema

/-!
## Plans of attached schemas

Attaching changes no result of a request for old nodes (`Attached.plan_left`). A request for nodes
of both parts has a plan exactly if the old nodes can be connected with the host
(`Attached.exists_plan_both_iff`), and this plan is made of the plan for these and of the plan
inside the attached schema, each in its order, with the new join between them
(`Attached.plan_both`).
-/

namespace Schema.Attached

variable {g h k : Schema} {host top : Member} {below : Forest Member} {join : Join}
  (hk : Attached g h k host top below join)

include hk

/-! ### Requests for old nodes -/

/-- A request for old nodes gives what it gave before. -/
theorem plan_left {names : List String} (hnames : ∀ n ∈ names, n ∈ g.names) :
    k.plan names = g.plan names := by
  apply hk.kept.plan_eq hnames
  intro _
  rw [hk.roots_eq]

/-! ### Requests for nodes of both parts -/

section Both

variable {old new both toHost : List String} (hold : ∀ n ∈ old, n ∈ g.names)
  (hnew : ∀ n ∈ new, n ∈ h.names) (hne : new ≠ []) (hboth : ∀ n, n ∈ both ↔ n ∈ old ∨ n ∈ new)
  (htoHost : ∀ n, n ∈ toHost ↔ n ∈ old ∨ n = host.name)

include hold hnew hne hboth htoHost

/-- The attached nodes have the root of the host. -/
theorem rootName?_both_iff {root : String} :
    (∀ n ∈ both, k.rootName? n = some root) ↔ ∀ n ∈ toHost, g.rootName? n = some root := by
  simp only [hboth, htoHost, or_imp, forall_and, forall_eq]
  refine and_congr (forall₂_congr fun n hn => by rw [hk.kept.rootName?_eq (hold n hn)]) ?_
  constructor
  · intro h
    obtain ⟨n, hn⟩ := List.exists_mem_of_ne_nil new hne
    rw [← (hk.rootName?_right (hnew n hn)).1, h n hn]
  · intro h n hn
    rw [(hk.rootName?_right (hnew n hn)).1, h]

/-- Of the old nodes, those passed are those passed from the old ones and from the host. -/
theorem passedFrom_both_left {c : String} (hc : c ∈ g.names) :
    k.passedFrom both c = g.passedFrom toHost c := by
  rw [Bool.eq_iff_iff, passedFrom_eq_true_iff, passedFrom_eq_true_iff]
  simp only [hboth, htoHost, or_and_right, exists_or, exists_eq_left]
  refine or_congr (exists_congr fun n => and_congr_right fun hn => by
    rw [hk.kept.passes_eq (hold n hn)]) ?_
  constructor
  · rintro ⟨n, hn, hpasses⟩
    rcases (hk.passes_right (hnew n hn)).1 hpasses with hhost | rfl | hpasses
    · exact hhost
    · exact absurd hc (hk.disjoint _ hk.top_mem)
    · exact absurd hc (hk.disjoint _ (mem_names_of_passes hpasses))
  · intro hhost
    obtain ⟨n, hn⟩ := List.exists_mem_of_ne_nil new hne
    exact ⟨n, hn, (hk.passes_right (hnew n hn)).2 (Or.inl hhost)⟩

omit htoHost in
/-- Of the attached nodes, those passed are their root and those passed from the requested ones. -/
theorem passedFrom_both_right {c : String} (hc : c ∈ h.names) :
    k.passedFrom both c = true ↔ c = top.name ∨ h.passedFrom new c = true := by
  rw [passedFrom_eq_true_iff, passedFrom_eq_true_iff]
  simp only [hboth, or_and_right, exists_or]
  have hleft {n : String} (hn : n ∈ g.names) : ¬ g.passes n c = true := fun hpasses =>
    hk.disjoint c hc (mem_names_of_passes hpasses)
  constructor
  · rintro (⟨n, hn, hpasses⟩ | ⟨n, hn, hpasses⟩)
    · rw [hk.kept.passes_eq (hold n hn)] at hpasses
      exact absurd hpasses (hleft (hold n hn))
    · rcases (hk.passes_right (hnew n hn)).1 hpasses with hhost | rfl | hpasses
      · exact absurd hhost (hleft hk.host_mem)
      · exact Or.inl rfl
      · exact Or.inr ⟨n, hn, hpasses⟩
  · rintro (rfl | ⟨n, hn, hpasses⟩)
    · obtain ⟨n, hn⟩ := List.exists_mem_of_ne_nil new hne
      exact Or.inr ⟨n, hn, (hk.passes_right (hnew n hn)).2 (Or.inr (Or.inl rfl))⟩
    · exact Or.inr ⟨n, hn, (hk.passes_right (hnew n hn)).2 (Or.inr (Or.inr hpasses))⟩

theorem exists_plan_both_iff :
    (∃ p, k.plan both = .ok p) ↔ ∃ q, g.plan toHost = .ok q := by
  have hknown : ∀ n ∈ both, n ∈ k.names := fun n hn =>
    hk.mem_names_iff.2 (((hboth n).1 hn).imp (hold n) (hnew n))
  have hknown' : ∀ n ∈ toHost, n ∈ g.names := fun n hn => by
    rcases (htoHost n).1 hn with h | rfl
    · exact hold n h
    · exact hk.host_mem
  rw [hk.sound.exists_plan_iff hknown, hk.left.exists_plan_iff hknown']
  exact exists_congr fun root => hk.rootName?_both_iff hold hnew hne hboth htoHost

/-- The plan for both parts has the steps of the plan to the host, and those of the plan inside the
attached schema behind the step onto its root. -/
theorem plan_both {p : Plan} (hp : k.plan both = .ok p) :
    ∃ q r, g.plan toHost = .ok q ∧ h.plan new = .ok r ∧ g.rootName? host.name = some p.root ∧
      p.steps.filter (fun st => g.contains st.child) = q.steps ∧
        p.steps.filter (fun st => h.contains st.child) =
          ⟨host.name, top.name, join.condition, join.kind⟩ :: r.steps := by
  obtain ⟨q, hq⟩ := (hk.exists_plan_both_iff hold hnew hne hboth htoHost).1 ⟨p, hp⟩
  have hknown' : ∀ n ∈ toHost, n ∈ g.names := fun n hn => by
    rcases (htoHost n).1 hn with h | rfl
    · exact hold n h
    · exact hk.host_mem
  obtain ⟨root, hroot⟩ := (hk.left.exists_plan_iff hknown').1 ⟨q, hq⟩
  have hroot' := (hk.rootName?_both_iff hold hnew hne hboth htoHost).2 hroot
  have hnil : both ≠ [] := by
    obtain ⟨n, hn⟩ := List.exists_mem_of_ne_nil new hne
    exact List.ne_nil_of_mem ((hboth n).2 (Or.inr hn))
  have hhost : host.name ∈ toHost := (htoHost _).2 (Or.inr rfl)
  have hplan := hk.sound.plan_eq_ok hroot' fun h => absurd h hnil
  obtain rfl := Except.ok.inj (hp.symm.trans hplan)
  refine ⟨_, _, hk.left.plan_eq_ok hroot fun h => absurd h (List.ne_nil_of_mem hhost),
    hk.right.plan_eq_ok (fun n hn => (hk.rootName?_right (hnew n hn)).2) fun h => absurd h hne,
    hroot _ hhost, ?_, ?_⟩
  · rw [hk.kept.filter_stepsOver]
    exact stepsOver_congr fun c hc => hk.passedFrom_both_left hold hnew hne hboth htoHost hc
  · have htop := (hk.passedFrom_both_right hold hnew hne hboth hk.top_mem).2 (Or.inl rfl)
    rw [hk.filter_right, addedSteps, htop]
    refine congrArg (List.cons _) (hk.stepsOver_right_congr fun c hc hctop => ?_)
    rw [Bool.eq_iff_iff, hk.passedFrom_both_right hold hnew hne hboth hc]
    exact or_iff_right hctop

end Both

end Schema.Attached

/-- Attaching a schema below a node changes no result of a request for old nodes. Requests for nodes
of both parts combine the plan that takes the old ones to this node with the plan inside the
attached schema, joined in between as the override or the foreign keys say. -/
theorem Reachable.plan_compose {g h k : Schema} (hg : Reachable g) (hh : Reachable h)
    {attachTo : String} {override : Option Override} {settings : BuildSettings}
    (hk : g.compose h attachTo override settings = .ok k) :
    (∀ names, (∀ n ∈ names, n ∈ g.names) → k.plan names = g.plan names) ∧
    ∃ host top join, g.lookup attachTo = .ok host ∧ h.roots = [top] ∧
      (Entry.source host).joinWith top.source override settings = .ok join ∧
      ∀ old new both toHost : List String, (∀ n ∈ old, n ∈ g.names) →
        (∀ n ∈ new, n ∈ h.names) → new ≠ [] →
        (∀ n, n ∈ both ↔ n ∈ old ∨ n ∈ new) → (∀ n, n ∈ toHost ↔ n ∈ old ∨ n = attachTo) →
          ((∃ p, k.plan both = .ok p) ↔ ∃ q, g.plan toHost = .ok q) ∧
          ∀ p, k.plan both = .ok p → ∃ q r root, g.plan toHost = .ok q ∧ h.plan new = .ok r ∧
            g.rootOf attachTo = .ok root ∧ p.root = root.name ∧
              p.steps.filter (fun st => g.contains st.child) = q.steps ∧
                p.steps.filter (fun st => h.contains st.child) =
                  ⟨attachTo, top.name, join.condition, join.kind⟩ :: r.steps := by
  obtain ⟨host, top, below, join, rfl, hjoin, hattached⟩ := hg.sound.attached_of_compose hh.sound hk
  refine ⟨fun names hnames => hattached.plan_left hnames, ?_⟩
  obtain ⟨e, he, rfl⟩ : ∃ e ∈ g.entries, e.label = host :=
    List.mem_map.1 (by rw [Schema.map_label_entries]; exact hattached.grafted.mem_labels)
  have hlookup : g.lookup e.label.name = .ok e :=
    Schema.lookup_eq_ok_iff.2 (hg.sound.node?_eq_some_iff.2 ⟨he, rfl⟩)
  have hroots : h.roots = [top] := by
    rw [Schema.roots, hattached.forest_eq]
    rfl
  refine ⟨e, top, join, hlookup, hroots, hjoin, ?_⟩
  intro old new both toHost hold hnew hne hboth htoHost
  refine ⟨hattached.exists_plan_both_iff hold hnew hne hboth htoHost, fun p hp => ?_⟩
  obtain ⟨q, r, hq, hr, hroot, hleft, hright⟩ := hattached.plan_both hold hnew hne hboth htoHost hp
  obtain ⟨root, -, hof, hname⟩ := Schema.exists_rootOf hattached.host_mem
  exact ⟨q, r, root, hq, hr, hof, Option.some.inj (hroot.symm.trans hname), hleft, hright⟩

/-- Sales and countries are connected through the product that the brands were attached to. -/
theorem Sample.plan_chain :
    chainSchema.plan ["product"] = salesSchema.plan ["product"] ∧
      ∃ p q r st, chainSchema.plan ["country", "sales"] = .ok p ∧
        salesSchema.plan ["sales", "product"] = .ok q ∧ brandSchema.plan ["country"] = .ok r ∧
          p.steps.filter (fun st => salesSchema.contains st.child) = q.steps ∧
            p.steps.filter (fun st => brandSchema.contains st.child) = st :: r.steps := by
  obtain ⟨hleft, host, top, join, -, -, -, hboth⟩ :=
    Reachable.plan_compose reachable_sales reachable_brand compose_brand
  obtain ⟨hexists, hplan⟩ := hboth ["sales"] ["country"] ["country", "sales"] ["sales", "product"]
    (by decide) (by decide) (by decide) (by simp [or_comm]) (by simp)
  obtain ⟨p, hp⟩ := hexists.2 ⟨_, rfl⟩
  obtain ⟨q, r, -, hq, hr, -, -, hfirst, hsecond⟩ := hplan p hp
  exact ⟨hleft ["product"] (by decide), p, q, r, _, hp, hq, hr, hfirst, hsecond⟩

end JoinForest
