import JoinForest.Proofs.Schema.Walk

set_option autoImplicit false

/-!
# Results of requests

What a request comes to in one schema (`Sound.plan_eq_ok`, `Sound.plan_eq_error`), and that it comes
to the same in any larger schema in which the first one is kept (`Kept.plan_eq`).
-/

namespace JoinForest

open Forest

/-!
## Look-ups and walks

The names of a request are looked up in their order (`forM_lookup_error`). Then the walks decide:
nodes below one root give the steps over their paths (`Sound.plan_eq_ok`), and the first node below
another root than the first one is reported (`Sound.plan_eq_error`).
-/

namespace Schema

variable {s : Schema}

/-! ### Plans as steps over paths -/

theorem mem_names_of_rootName? {name root : String} (h : s.rootName? name = some root) :
    name ∈ s.names := by
  obtain ⟨m, tail, hpath, -⟩ := exists_path?_of_rootName? h
  exact path?_isSome.1 (by simp [hpath])

theorem mem_requested_iff {names : List String} {name : String} :
    name ∈ s.requested names ↔ name ∈ s.names ∧ name ∈ names := by
  simp [requested]

theorem requested_congr {names names' : List String} (h : ∀ n, n ∈ names' ↔ n ∈ names) :
    s.requested names' = s.requested names :=
  List.filter_congr fun n _ => by simp [h]

theorem forM_lookup_ok {names : List String} (h : ∀ n ∈ names, n ∈ s.names) :
    (names.forM fun name => discard (s.lookup name)) = .ok () := by
  rw [forM_eq_ok_iff]
  intro name hname
  obtain ⟨e, he⟩ := Option.isSome_iff_exists.1 (contains_iff.2 (h name hname))
  exact discard_eq_ok_iff.2 ⟨e, lookup_eq_ok_iff.2 he⟩

/-- The first unknown name is reported, with a suggestion for it. -/
theorem forM_lookup_error {before after : List String} {name : String}
    (hbefore : ∀ n ∈ before, n ∈ s.names) (hname : name ∉ s.names) :
    ((before ++ name :: after).forM fun name => discard (s.lookup name)) =
      .error (.unknownTable name (s.suggestion? name)) :=
  forM_eq_error_iff.2 ⟨before, name, after, rfl, forM_eq_ok_iff.1 (forM_lookup_ok hbefore),
    discard_eq_error_iff.2 (lookup_of_not_mem hname)⟩

/-- With known names and a root, the plan is what the walks find. -/
theorem plan_eq {names : List String} {top : Member} {rest : List Member}
    (hknown : ∀ n ∈ names, n ∈ s.names) (hroots : s.roots = top :: rest) :
    s.plan names = ((s.requested names).foldlM (Walk.visit s) {}).map fun w =>
      ⟨(w.anchor.map (·.2)).getD top.name, s.stepsOver w.passed.contains⟩ := by
  rw [plan, forM_lookup_ok hknown, hroots]
  cases (s.requested names).foldlM (Walk.visit s) {} <;> rfl

/-- Plans are the same for lists of the same known names. -/
theorem Sound.plan_congr (hs : s.Sound) {names names' : List String}
    (hknown : ∀ n ∈ names, n ∈ s.names) (h : ∀ n, n ∈ names' ↔ n ∈ names) :
    s.plan names' = s.plan names := by
  obtain ⟨top, rest, hroots⟩ := List.exists_cons_of_ne_nil hs.roots_ne_nil
  have hknown' : ∀ n ∈ names', n ∈ s.names := fun n hn => hknown n ((h n).1 hn)
  rw [plan_eq hknown hroots, plan_eq hknown' hroots, requested_congr h]

/-- A plan for nodes of one tree steps over all their paths. -/
theorem Sound.plan_eq_ok (hs : s.Sound) {names : List String} {root : String}
    (hroot : ∀ n ∈ names, s.rootName? n = some root)
    (hnil : names = [] → s.roots.head?.map Member.name = some root) :
    s.plan names = .ok ⟨root, s.stepsOver (s.passedFrom names)⟩ := by
  have hknown : ∀ n ∈ names, n ∈ s.names := fun n hn => mem_names_of_rootName? (hroot n hn)
  obtain ⟨top, rest, hroots⟩ := List.exists_cons_of_ne_nil hs.roots_ne_nil
  have hrequested : ∀ n ∈ [] ++ s.requested names, s.rootName? n = some root :=
    fun n hn => hroot n (mem_requested_iff.1 hn).2
  obtain ⟨w, hrun, hw⟩ := Walk.foldlM_visit_ok hs (Walk.covers_nil s) hrequested
  rw [plan_eq hknown hroots, hrun]
  have hsteps : s.stepsOver w.passed.contains = s.stepsOver (s.passedFrom names) := by
    refine stepsOver_congr fun n _ => ?_
    rw [Bool.eq_iff_iff, List.contains_iff_mem, hw.mem_passed, passedFrom_eq_true_iff]
    constructor
    · rintro ⟨t, ht, hpasses⟩
      exact ⟨t, (mem_requested_iff.1 ht).2, hpasses⟩
    · rintro ⟨t, ht, hpasses⟩
      exact ⟨t, mem_requested_iff.2 ⟨hknown t ht, ht⟩, hpasses⟩
  have hanchor : (w.anchor.map (·.2)).getD top.name = root := by
    cases hrequested : s.requested names with
    | nil =>
      have hempty : names = [] := List.eq_nil_iff_forall_not_mem.2 fun n hn => by
        have hmem := mem_requested_iff.2 ⟨hknown n hn, hn⟩
        simp [hrequested] at hmem
      simpa [hw.anchor_eq, hrequested, hroots] using hnil hempty
    | cons first _ =>
      have hfirst : first ∈ s.requested names := by simp [hrequested]
      simp [hw.anchor_eq, hrequested, hroot first (mem_requested_iff.1 hfirst).2]
  rw [← hsteps, ← hanchor]
  rfl

/-- No plan reaches two trees. -/
theorem Sound.plan_eq_error (hs : s.Sound) {names before after : List String}
    {first second root root' : String} (hknown : ∀ n ∈ names, n ∈ s.names)
    (hsplit : s.requested names = first :: (before ++ second :: after))
    (hroot : ∀ t ∈ first :: before, s.rootName? t = some root)
    (hsecond : s.rootName? second = some root') (hne : root' ≠ root) :
    s.plan names = .error (.disconnected first root second root') := by
  obtain ⟨top, rest, hroots⟩ := List.exists_cons_of_ne_nil hs.roots_ne_nil
  rw [plan_eq hknown hroots, hsplit, Walk.foldlM_visit_error hs hroot hsecond hne]
  rfl

/-! ### Roots of requested nodes -/

theorem exists_rootOf {name : String} (h : name ∈ s.names) :
    ∃ root ∈ s.roots, s.rootOf name = .ok root ∧ s.rootName? name = some root.name := by
  obtain ⟨path, hpath⟩ := Option.isSome_iff_exists.1 (path?_isSome.2 h)
  obtain ⟨⟨root, tail, rfl, hroot⟩, -⟩ := exists_of_path? hpath
  refine ⟨root, hroot, rootOf_eq_ok_iff.2 ?_, rootName?_of_path? hpath⟩
  rw [rootOf?_eq_bind, hpath]
  rfl

/-- Roots are told apart by their names. -/
theorem Sound.rootOf_eq_iff (hs : s.Sound) {name name' : String} (h : name ∈ s.names)
    (h' : name' ∈ s.names) :
    s.rootOf name = s.rootOf name' ↔ s.rootName? name = s.rootName? name' := by
  obtain ⟨root, hroot, hof, hname⟩ := exists_rootOf h
  obtain ⟨root', hroot', hof', hname'⟩ := exists_rootOf h'
  rw [hof, hof', hname, hname', Except.ok.injEq, Option.some.injEq]
  refine ⟨congrArg Member.name, fun heq => ?_⟩
  exact List.inj_on_of_nodup_map hs.names_nodup (standsBelow_of_mem_roots hroot).mem_labels
    (standsBelow_of_mem_roots hroot').mem_labels heq

/-! ### One root or two -/

/-- A list holds only elements of one value, or a first one with another value than those before. -/
theorem eq_or_exists_split {α β : Type} [DecidableEq β] (value : α → β) (l : List α) :
    (∀ a ∈ l, ∀ b ∈ l, value a = value b) ∨
      ∃ first before second after, l = first :: (before ++ second :: after) ∧
        (∀ a ∈ first :: before, value a = value first) ∧ value second ≠ value first := by
  cases l with
  | nil => exact Or.inl (by simp)
  | cons first rest =>
    cases hfind : rest.find? (fun a => decide (value a ≠ value first)) with
    | none =>
      have hall : ∀ a ∈ first :: rest, value a = value first := by
        simpa using List.find?_eq_none.1 hfind
      exact Or.inl fun a ha b hb => (hall a ha).trans (hall b hb).symm
    | some second =>
      obtain ⟨hne, before, after, rfl, hbefore⟩ := List.find?_eq_some_iff_append.1 hfind
      refine Or.inr ⟨first, before, second, after, rfl, ?_, by simpa using hne⟩
      simpa using hbefore

/-- Requested nodes stand in one tree, and then their plan is made, or the walks meet two. -/
theorem Sound.plan_cases (hs : s.Sound) {names : List String} (hknown : ∀ n ∈ names, n ∈ s.names) :
    (∃ root, (∀ n ∈ names, s.rootName? n = some root) ∧
      (names = [] → s.roots.head?.map Member.name = some root) ∧
        s.plan names = .ok ⟨root, s.stepsOver (s.passedFrom names)⟩) ∨
    ∃ first before second after root root',
      s.requested names = first :: (before ++ second :: after) ∧
        (∀ t ∈ first :: before, s.rootName? t = some root) ∧ s.rootName? second = some root' ∧
          root' ≠ root ∧ s.plan names = .error (.disconnected first root second root') := by
  rcases eq_or_exists_split s.rootName? (s.requested names) with
    hall | ⟨first, before, second, after, hsplit, hbefore, hne⟩
  · obtain ⟨root, hroot, hnil⟩ : ∃ root, (∀ n ∈ names, s.rootName? n = some root) ∧
        (names = [] → s.roots.head?.map Member.name = some root) := by
      cases names with
      | nil =>
        obtain ⟨top, rest, hroots⟩ := List.exists_cons_of_ne_nil hs.roots_ne_nil
        exact ⟨top.name, by simp, fun _ => by simp [hroots]⟩
      | cons name names =>
        have hmem (n : String) (hn : n ∈ name :: names) : n ∈ s.requested (name :: names) :=
          mem_requested_iff.2 ⟨hknown n hn, hn⟩
        obtain ⟨root, -, -, hname⟩ := exists_rootOf (hknown name (by simp))
        refine ⟨root.name, fun n hn => ?_, by simp⟩
        rw [← hname]
        exact hall n (hmem n hn) name (hmem name (by simp))
    exact Or.inl ⟨root, hroot, hnil, hs.plan_eq_ok hroot hnil⟩
  · have hmem (n : String) (hn : n ∈ first :: (before ++ second :: after)) : n ∈ s.names :=
      (mem_requested_iff.1 (hsplit ▸ hn)).1
    obtain ⟨root, -, -, hfirst⟩ := exists_rootOf (hmem first (by simp))
    obtain ⟨root', -, -, hsecond⟩ := exists_rootOf (hmem second (by simp))
    have hroot : ∀ t ∈ first :: before, s.rootName? t = some root.name := fun t ht =>
      (hbefore t ht).trans hfirst
    rw [hfirst, hsecond, ne_eq, Option.some.injEq] at hne
    exact Or.inr ⟨first, before, second, after, root.name, root'.name, hsplit, hroot, hsecond, hne,
      hs.plan_eq_error hknown hsplit hroot hsecond hne⟩

/-- Known names have a plan exactly if they stand in one tree. -/
theorem Sound.exists_plan_iff (hs : s.Sound) {names : List String}
    (hknown : ∀ n ∈ names, n ∈ s.names) :
    (∃ p, s.plan names = .ok p) ↔ ∃ root, ∀ n ∈ names, s.rootName? n = some root := by
  rcases hs.plan_cases hknown with ⟨root, hroot, -, hplan⟩ |
    ⟨first, before, second, after, root, root', hsplit, hroot, hsecond, hne, hplan⟩
  · exact ⟨fun _ => ⟨root, hroot⟩, fun _ => ⟨_, hplan⟩⟩
  · refine ⟨fun ⟨p, hp⟩ => by simp [hp] at hplan, fun ⟨r, hr⟩ => absurd ?_ hne⟩
    have hmem (n : String) (hn : n ∈ first :: (before ++ second :: after)) : n ∈ names :=
      (mem_requested_iff.1 (hsplit ▸ hn)).2
    have hfirst := (hroot first (by simp)).symm.trans (hr first (hmem first (by simp)))
    have hsecond := hsecond.symm.trans (hr second (hmem second (by simp)))
    exact Option.some.inj (hsecond.trans hfirst.symm)

end Schema

/-!
## Schemas kept in larger ones

A schema is kept in another one when its nodes are those of the other one that bear its names, with
the same parents in the same order, and have the same ways up. What the larger schema holds besides
plays no part in requests for the nodes of the smaller one: they are listed alike, they pass the
same nodes and take the same steps, and so they give the same plan or the same error
(`Kept.plan_eq`).
-/

namespace Schema

/-- The nodes of the first schema, with their parents and their paths, are those nodes of the second
one that bear its names. -/
structure Kept (s k : Schema) : Prop where
  source : s.Sound
  sound : k.Sound
  path?_eq : ∀ n ∈ s.names, k.path? n = s.path? n
  withParents_eq : (k.forest.withParents none).filter (fun pm => s.contains pm.2.name) =
    s.forest.withParents none

section Filter

variable {s : Schema} {f : Forest Member} (parent : Option Member)

theorem filter_withParents_eq_self (h : ∀ n ∈ f.labels.map Member.name, n ∈ s.names) :
    (f.withParents parent).filter (fun pm => s.contains pm.2.name) = f.withParents parent := by
  refine List.filter_eq_self.2 ?_
  intro pm hpm
  exact contains_iff.2 (h _ (List.mem_map_of_mem (mem_labels_of_mem_withParents hpm)))

theorem filter_withParents_eq_nil (h : ∀ n ∈ f.labels.map Member.name, n ∉ s.names) :
    (f.withParents parent).filter (fun pm => s.contains pm.2.name) = [] := by
  refine List.filter_eq_nil_iff.2 ?_
  intro pm hpm hmem
  exact h _ (List.mem_map_of_mem (mem_labels_of_mem_withParents hpm)) (contains_iff.1 hmem)

end Filter

theorem filter_withParents_self (s : Schema) :
    (s.forest.withParents none).filter (fun pm => s.contains pm.2.name) =
      s.forest.withParents none := by
  apply filter_withParents_eq_self
  intro n hn
  exact hn

namespace Kept

variable {s k : Schema} (h : Kept s k)

include h

theorem filter_names : k.names.filter s.contains = s.names := by
  rw [names, names, ← map_snd_withParents none k.forest, ← map_snd_withParents none s.forest,
    ← h.withParents_eq, List.map_map, List.map_map, List.filter_map]
  rfl

theorem mem_names {n : String} (hn : n ∈ s.names) : n ∈ k.names := by
  rw [← h.filter_names] at hn
  exact List.mem_of_mem_filter hn

theorem rootName?_eq {n : String} (hn : n ∈ s.names) : k.rootName? n = s.rootName? n := by
  simp only [rootName?, rootOf?_eq_bind, h.path?_eq n hn]

theorem passes_eq {n : String} (hn : n ∈ s.names) (c : String) : k.passes n c = s.passes n c := by
  simp only [passes, h.path?_eq n hn]

/-- The steps onto nodes of the smaller schema are its own. -/
theorem filter_stepsOver (test : String → Bool) :
    (k.stepsOver test).filter (fun st => s.contains st.child) = s.stepsOver test := by
  rw [Schema.stepsOver_eq, filter_stepsOnto, h.withParents_eq, ← Schema.stepsOver_eq]

/-- Steps that are onto nodes of the smaller schema are those of the smaller schema. -/
theorem stepsOver_eq {test : String → Bool} (htest : ∀ c, test c = true → c ∈ s.names) :
    k.stepsOver test = s.stepsOver test := by
  rw [← h.filter_stepsOver, List.filter_eq_self.2]
  intro st hst
  obtain ⟨e, -, he, -, hchild⟩ := exists_entry_of_mem_stepsOver hst
  rw [hchild]
  exact contains_iff.2 (htest _ he)

variable {names : List String} (hnames : ∀ n ∈ names, n ∈ s.names)

include hnames

theorem requested_eq : k.requested names = s.requested names := by
  rw [requested, requested, ← h.filter_names, List.filter_filter]
  refine List.filter_congr ?_
  intro n _
  by_cases hn : names.contains n
  · rw [hn, contains_iff.2 (hnames n (List.contains_iff_mem.1 hn))]
    rfl
  · rw [Bool.not_eq_true] at hn
    rw [hn, Bool.false_and]

theorem passedFrom_eq : k.passedFrom names = s.passedFrom names := by
  funext c
  exact passedFrom_congr fun n hn => h.passes_eq (hnames n hn) c

/-- Requests for nodes of the smaller schema are answered as there. Without any node the answer is
the first root, which has to be the same. -/
theorem plan_eq (hnil : names = [] → k.roots.head? = s.roots.head?) :
    k.plan names = s.plan names := by
  rcases h.source.plan_cases hnames with ⟨root, hroot, hhead, hplan⟩ |
    ⟨first, before, second, after, root, root', hsplit, hroot, hsecond, hne, hplan⟩
  · have hsteps : k.stepsOver (k.passedFrom names) = s.stepsOver (s.passedFrom names) := by
      rw [h.passedFrom_eq hnames]
      refine h.stepsOver_eq ?_
      intro c hc
      obtain ⟨n, -, hpasses⟩ := passedFrom_eq_true_iff.1 hc
      exact mem_names_of_passes hpasses
    rw [hplan, ← hsteps]
    apply h.sound.plan_eq_ok
    · intro n hn
      rw [h.rootName?_eq (hnames n hn), hroot n hn]
    · intro hempty
      rw [hnil hempty, hhead hempty]
  · have hknown : ∀ n ∈ names, n ∈ k.names := fun n hn => h.mem_names (hnames n hn)
    have hrequested : ∀ n ∈ (first :: before) ++ second :: after, n ∈ s.names := by
      intro n hn
      rw [List.cons_append, ← hsplit] at hn
      exact (mem_requested_iff.1 hn).1
    rw [List.forall_mem_append] at hrequested
    rw [hplan]
    refine h.sound.plan_eq_error hknown ((h.requested_eq hnames).trans hsplit) ?_ ?_ hne
    · intro t ht
      rw [h.rootName?_eq (hrequested.1 t ht), hroot t ht]
    · rw [h.rootName?_eq (hrequested.2 second List.mem_cons_self), hsecond]

end Kept

end Schema

end JoinForest
