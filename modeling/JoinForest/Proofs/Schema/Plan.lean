import JoinForest.Proofs.Schema.Request

set_option autoImplicit false

/-!
# Exact plans

What a request gives, for every list of names. An unknown name is reported, the first one of the
list. Nodes of one tree give the plan that has one step for each node below the root on their paths
and no other (`Plan.Exact`). Nodes of different trees are reported with their roots, the first two
in the order of the keys (`Schema.Disconnects`). `Reachable.plan_exact` brings these together.
-/

namespace JoinForest

/-! ## Disconnected nodes -/

namespace Schema

variable {s : Schema}

/-- All nodes of a list stand in one tree. -/
def SameRoot (s : Schema) (names : List String) : Prop :=
  ∀ n ∈ names, ∀ n' ∈ names, s.rootOf n = s.rootOf n'

instance (s : Schema) (names : List String) : Decidable (s.SameRoot names) :=
  inferInstanceAs (Decidable (∀ n ∈ names, ∀ n' ∈ names, s.rootOf n = s.rootOf n'))

/-- Known names share a root exactly if their paths start at one. -/
theorem Sound.sameRoot_iff (hs : s.Sound) {names : List String}
    (hknown : ∀ n ∈ names, n ∈ s.names) :
    s.SameRoot names ↔ ∃ root, ∀ n ∈ names, s.rootName? n = some root := by
  constructor
  · intro hsame
    cases names with
    | nil => exact ⟨"", by simp⟩
    | cons name names =>
      obtain ⟨root, -, -, hname⟩ := exists_rootOf (hknown name (by simp))
      refine ⟨root.name, fun n hn => ?_⟩
      rw [← hname]
      exact (hs.rootOf_eq_iff (hknown n hn) (hknown name (by simp))).1 (hsame n hn name (by simp))
  · rintro ⟨root, hroot⟩ n hn n' hn'
    refine (hs.rootOf_eq_iff (hknown n hn) (hknown n' hn')).2 ?_
    rw [hroot n hn, hroot n' hn']

/-- Two requested nodes of different trees, each the first of its kind in the order of the keys. -/
structure Disconnects (s : Schema) (names : List String) (first second : Entry) : Prop where
  first_mem : first ∈ s.entries ∧ Entry.name first ∈ names
  first_least : ∀ e ∈ s.entries, Entry.name e ∈ names → first.key ≤ e.key
  second_mem : second ∈ s.entries ∧ Entry.name second ∈ names
  rootOf_ne : s.rootOf (Entry.name second) ≠ s.rootOf (Entry.name first)
  second_least : ∀ e ∈ s.entries, Entry.name e ∈ names →
    s.rootOf (Entry.name e) ≠ s.rootOf (Entry.name first) → second.key ≤ e.key

/-- The requested nodes in the order of their keys. -/
def requestedEntries (s : Schema) (names : List String) : List Entry :=
  s.entries.filter fun e => names.contains (Entry.name e)

theorem mem_requestedEntries_iff {names : List String} {e : Entry} :
    e ∈ s.requestedEntries names ↔ e ∈ s.entries ∧ Entry.name e ∈ names := by
  simp [requestedEntries]

theorem map_name_requestedEntries (s : Schema) (names : List String) :
    (s.requestedEntries names).map Entry.name = s.requested names := by
  rw [requested, ← map_name_entries, List.filter_map]
  rfl

/-- The first requested node and the first one of another tree disconnect a request. -/
theorem Sound.disconnects (hs : s.Sound) {names : List String} {first second : Entry}
    {before after : List Entry}
    (hsplit : s.requestedEntries names = first :: (before ++ second :: after))
    (hbefore : ∀ e ∈ first :: before,
      s.rootName? (Entry.name e) = s.rootName? (Entry.name first))
    (hne : s.rootName? (Entry.name second) ≠ s.rootName? (Entry.name first)) :
    s.Disconnects names first second := by
  have hpairwise : (s.requestedEntries names).Pairwise (·.key < ·.key) :=
    s.entries_pairwise.filter _
  have hmem (e : Entry) : e ∈ s.entries ∧ Entry.name e ∈ names ↔
      e ∈ first :: (before ++ second :: after) := by rw [← hsplit, mem_requestedEntries_iff]
  have hroot {e e' : Entry} (he : e ∈ s.entries) (he' : e' ∈ s.entries) :
      s.rootOf (Entry.name e) = s.rootOf (Entry.name e') ↔ _ :=
    hs.rootOf_eq_iff (mem_names_iff.2 ⟨e, he, rfl⟩) (mem_names_iff.2 ⟨e', he', rfl⟩)
  have hfirst := (hmem first).2 (by simp)
  have hsecond := (hmem second).2 (by simp)
  -- The entries are listed by their keys, so later ones in the list have larger keys.
  rw [hsplit] at hpairwise
  refine ⟨hfirst, fun e he hname => ?_, hsecond, ?_, fun e he hname hrootne => ?_⟩
  · rcases List.mem_cons.1 ((hmem e).1 ⟨he, hname⟩) with rfl | hin
    · exact Nat.le_refl _
    · exact Nat.le_of_lt (List.rel_of_pairwise_cons hpairwise hin)
  · rw [ne_eq, hroot hsecond.1 hfirst.1]
    exact hne
  · rw [ne_eq, hroot he hfirst.1] at hrootne
    have hin := (hmem e).1 ⟨he, hname⟩
    rw [← List.cons_append, List.mem_append] at hin
    rcases List.mem_cons.1 (hin.resolve_left fun h => hrootne (hbefore e h)) with rfl | hafter
    · exact Nat.le_refl _
    · have htail := (List.pairwise_append.1 (List.pairwise_cons.1 hpairwise).2).2.1
      exact Nat.le_of_lt (List.rel_of_pairwise_cons htail hafter)

/-- The walks that meet two trees meet them at these nodes. -/
theorem Sound.exists_disconnects (hs : s.Sound) {names before after : List String}
    {first second root root' : String}
    (hsplit : s.requested names = first :: (before ++ second :: after))
    (hroot : ∀ t ∈ first :: before, s.rootName? t = some root)
    (hsecond : s.rootName? second = some root') (hne : root' ≠ root) :
    ∃ e e', s.Disconnects names e e' ∧ Entry.name e = first ∧ Entry.name e' = second := by
  rw [← map_name_requestedEntries, List.map_eq_cons_iff] at hsplit
  obtain ⟨e, rest, hsplit, rfl, hrest⟩ := hsplit
  obtain ⟨before', later, rfl, rfl, hlater⟩ := List.map_eq_append_iff.1 hrest
  obtain ⟨e', after', rfl, rfl, -⟩ := List.map_eq_cons_iff.1 hlater
  have hfirst := hroot (Entry.name e) (by simp)
  refine ⟨e, e', hs.disconnects hsplit (fun x hx => ?_) ?_, rfl, rfl⟩
  · rw [hfirst]
    refine hroot _ ?_
    rw [← List.map_cons]
    exact List.mem_map_of_mem hx
  · rw [hfirst, hsecond, ne_eq, Option.some.injEq]
    exact hne

end Schema

/-! ## Exactness -/

/-- A plan connects the nodes of a list to their one root, with nothing missing and nothing more. -/
structure Plan.Exact (s : Schema) (names : List String) (p : Plan) : Prop where
  /-- The root is that of every requested node. -/
  root_of : ∀ n ∈ names, ∃ root, s.rootOf n = .ok root ∧ root.name = p.root
  /-- Without requested nodes it is the first one. -/
  root_of_nil : names = [] → s.roots.head?.map Member.name = some p.root
  /-- The steps lead onto the nodes of the requested paths that are not roots. -/
  mem_children_iff : ∀ c, c ∈ p.steps.map Step.child ↔ c ∉ s.roots.map Member.name ∧
    ∃ n ∈ names, ∃ path, s.path n = .ok path ∧ c ∈ path.map Member.name
  /-- They come in the order of the keys of their children. -/
  keys_lt : p.steps.Pairwise fun a b => ∃ x y, s.node? a.child = some x ∧
    s.node? b.child = some y ∧ x.key < y.key
  /-- Each has the parent, the condition and the kind of the join above its child. -/
  joins : ∀ st ∈ p.steps, ∃ parent edge, s.parentOf st.child = .ok (some parent) ∧
    s.edgeAbove st.child = .ok (some edge) ∧ st.parent = Entry.name parent ∧
      st.condition = edge.join.condition ∧ st.kind = edge.join.kind
  /-- Each joins onto the root or onto the child of an earlier one. -/
  parents_first : ∀ before st after, p.steps = before ++ st :: after →
    st.parent = p.root ∨ st.parent ∈ before.map Step.child
  /-- No node is joined twice. -/
  children_nodup : (p.steps.map Step.child).Nodup

namespace Schema

variable {s : Schema}

/-- The steps over the paths of nodes of one tree make an exact plan. -/
theorem Sound.exact_stepsOver (hs : s.Sound) {names : List String} {root : String}
    (hroot : ∀ n ∈ names, s.rootName? n = some root)
    (hnil : names = [] → s.roots.head?.map Member.name = some root) :
    Plan.Exact s names ⟨root, s.stepsOver (s.passedFrom names)⟩ where
  root_of n hn := by
    obtain ⟨r, -, hof, hname⟩ := exists_rootOf (mem_names_of_rootName? (hroot n hn))
    exact ⟨r, hof, Option.some.inj (hname.symm.trans (hroot n hn))⟩
  root_of_nil := hnil
  mem_children_iff c := by
    simp only [hs.mem_children_iff, hs.passes_iff_path?, path_eq_ok_iff]
    constructor
    · rintro ⟨n, hn, hc, hpath⟩
      exact ⟨hc, n, hn, hpath⟩
    · rintro ⟨hc, n, hn, hpath⟩
      exact ⟨n, hn, hc, hpath⟩
  keys_lt := hs.stepsOver_pairwise _
  joins _ hst := hs.joins_of_mem_stepsOver hst
  parents_first _ _ _ hsplit := hs.parent_mem_before hroot hsplit
  children_nodup := by
    refine List.pairwise_map.2 ((hs.stepsOver_pairwise _).imp ?_)
    rintro a b ⟨x, y, hx, hy, hlt⟩ heq
    rw [heq, hy, Option.some.injEq] at hx
    subst hx
    exact Nat.lt_irrefl _ hlt

theorem exists_path?_of_rootOf {name : String} {root : Member} (h : s.rootOf name = .ok root) :
    ∃ tail, s.path? name = some (root :: tail) ∧ root ∈ s.roots := by
  obtain ⟨path, hpath, hhead⟩ := Option.bind_eq_some_iff.1
    ((rootOf?_eq_bind s name).symm.trans (rootOf_eq_ok_iff.1 h))
  obtain ⟨⟨root', tail, rfl, hroot⟩, -⟩ := exists_of_path? hpath
  obtain rfl : root' = root := Option.some.inj hhead
  exact ⟨tail, hpath, hroot⟩

/-- A plan for known names is exact, and its steps are read from the schema. -/
theorem Sound.exact_of_plan (hs : s.Sound) {names : List String} (hknown : ∀ n ∈ names, n ∈ s.names)
    {p : Plan} (h : s.plan names = .ok p) :
    p.Exact s names ∧ p.steps = s.stepsOver (s.passedFrom names) := by
  rcases hs.plan_cases hknown with
    ⟨root, hroot, hnil, hplan⟩ | ⟨_, _, _, _, _, _, -, -, -, -, hplan⟩
  · obtain rfl := Except.ok.inj (hplan.symm.trans h)
    exact ⟨hs.exact_stepsOver hroot hnil, rfl⟩
  · rw [h] at hplan
    cases hplan

end Schema

namespace Plan.Exact

variable {s : Schema} {names : List String} {p : Plan} (h : p.Exact s names)

include h

theorem root_mem : p.root ∈ s.roots.map Member.name := by
  cases names with
  | nil =>
    obtain ⟨top, htop, hname⟩ := Option.map_eq_some_iff.1 (h.root_of_nil rfl)
    exact List.mem_map.2 ⟨top, List.mem_of_head? htop, hname⟩
  | cons n names =>
    obtain ⟨root, hof, hname⟩ := h.root_of n List.mem_cons_self
    obtain ⟨-, -, hroot⟩ := Schema.exists_path?_of_rootOf hof
    exact List.mem_map.2 ⟨root, hroot, hname⟩

/-- No table comes twice in a plan. -/
theorem tables_nodup : p.tables.Nodup := by
  refine List.nodup_cons.2 ⟨?_, h.children_nodup⟩
  intro hmem
  exact ((h.mem_children_iff p.root).1 hmem).1 h.root_mem

/-- Every requested table is in the plan. -/
theorem mem_tables (hs : s.Sound) {n : String} (hn : n ∈ names) : n ∈ p.tables := by
  obtain ⟨root, hof, hroot⟩ := h.root_of n hn
  obtain ⟨tail, hpath, -⟩ := Schema.exists_path?_of_rootOf hof
  obtain ⟨-, above, m, heq, -, rfl⟩ := Schema.exists_of_path? hpath
  rw [tables, List.mem_cons]
  by_cases htop : m.name ∈ s.roots.map Member.name
  · obtain ⟨m', hm'⟩ := hs.mem_roots_iff.1 htop
    obtain ⟨rfl, rfl⟩ := List.cons.inj (Option.some.inj (hpath.symm.trans hm'))
    obtain rfl : root = m := by simpa using congrArg List.getLast? heq
    exact Or.inl hroot
  · have hmem : m.name ∈ (root :: tail).map Member.name := by
      rw [heq]
      exact List.mem_map_of_mem (by simp)
    exact Or.inr ((h.mem_children_iff m.name).2
      ⟨htop, m.name, hn, _, Schema.path_eq_ok_iff.2 hpath, hmem⟩)

end Plan.Exact

/-- The result of a request, for every list of names: the first unknown name, the exact plan of
nodes of one tree, or two nodes that cannot be connected. Only which names are requested counts. -/
theorem Reachable.plan_exact {s : Schema} (h : Reachable s) (names : List String) :
    (∀ before name after, names = before ++ name :: after → (∀ n ∈ before, n ∈ s.names) →
      name ∉ s.names → s.plan names = .error (.unknownTable name (s.suggestion? name))) ∧
    ((∀ n ∈ names, n ∈ s.names) →
      (s.SameRoot names → ∃ p, s.plan names = .ok p ∧ p.Exact s names) ∧
      (¬ s.SameRoot names → ∃ first second root root', s.Disconnects names first second ∧
        s.rootOf (Entry.name first) = .ok root ∧ s.rootOf (Entry.name second) = .ok root' ∧
          s.plan names =
            .error (.disconnected (Entry.name first) root.name (Entry.name second) root'.name)) ∧
      ∀ names', (∀ n, n ∈ names' ↔ n ∈ names) → s.plan names' = s.plan names) := by
  have hs := h.sound
  refine ⟨?_, fun hknown => ⟨fun hsame => ?_, fun hsame => ?_, fun names' hnames => ?_⟩⟩
  · rintro before name after rfl hbefore hname
    rw [Schema.plan, Schema.forM_lookup_error hbefore hname]
    rfl
  · obtain ⟨root, hroot⟩ := (hs.sameRoot_iff hknown).1 hsame
    obtain ⟨p, hp⟩ := (hs.exists_plan_iff hknown).2 ⟨root, hroot⟩
    rcases hs.plan_cases hknown with ⟨root, hroot, hnil, hplan⟩ |
      ⟨_, _, _, _, _, _, -, -, -, -, hplan⟩
    · exact ⟨_, hplan, hs.exact_stepsOver hroot hnil⟩
    · simp [hp] at hplan
  · rcases hs.plan_cases hknown with ⟨root, hroot, -, -⟩ |
      ⟨first, before, second, after, root, root', hsplit, hroot, hsecond, hne, hplan⟩
    · exact absurd ((hs.sameRoot_iff hknown).2 ⟨root, hroot⟩) hsame
    · obtain ⟨e, e', hdisconnects, rfl, rfl⟩ := hs.exists_disconnects hsplit hroot hsecond hne
      obtain ⟨r, -, hof, hname⟩ := Schema.exists_rootOf (hknown _ hdisconnects.first_mem.2)
      obtain ⟨r', -, hof', hname'⟩ := Schema.exists_rootOf (hknown _ hdisconnects.second_mem.2)
      obtain rfl : root = r.name := Option.some.inj ((hroot _ (by simp)).symm.trans hname)
      obtain rfl : root' = r'.name := Option.some.inj (hsecond.symm.trans hname')
      exact ⟨e, e', r, r', hdisconnects, hof, hof', hplan⟩
  · obtain ⟨top, rest, hroots⟩ := List.exists_cons_of_ne_nil hs.roots_ne_nil
    have hknown' : ∀ n ∈ names', n ∈ s.names := fun n hn => hknown n ((hnames n).1 hn)
    rw [Schema.plan_eq hknown hroots, Schema.plan_eq hknown' hroots,
      Schema.requested_congr hnames]

/-- The three results of requests to a schema with two roots. -/
theorem Sample.plan_galaxy :
    galaxySchema.plan ["country", "nation"] =
        .error (.unknownTable "nation" (galaxySchema.suggestion? "nation")) ∧
      (∃ p, galaxySchema.plan ["country", "brand"] = .ok p ∧
        p.Exact galaxySchema ["country", "brand"]) ∧
      ∃ first second root root', galaxySchema.Disconnects ["country", "product"] first second ∧
        galaxySchema.rootOf (Entry.name first) = .ok root ∧
          galaxySchema.rootOf (Entry.name second) = .ok root' ∧
            galaxySchema.plan ["country", "product"] =
              .error (.disconnected (Entry.name first) root.name (Entry.name second) root'.name) :=
  ⟨(Reachable.plan_exact reachable_galaxy ["country", "nation"]).1 ["country"] "nation" [] rfl
      (by decide) (by decide),
    ((Reachable.plan_exact reachable_galaxy ["country", "brand"]).2 (by decide)).1 (by decide),
    ((Reachable.plan_exact reachable_galaxy ["country", "product"]).2 (by decide)).2.1
      (by decide)⟩

end JoinForest
