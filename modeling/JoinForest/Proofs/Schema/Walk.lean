import JoinForest.Proofs.Schema.Numbering
import JoinForest.Proofs.Schema.Sound
import JoinForest.Schema.Plan

set_option autoImplicit false

/-!
# Walks and steps

The walks from requested nodes up to their root, and the steps of a plan, which lead over the nodes
that the walks pass.
-/

namespace JoinForest

open Forest

/-!
## Walks to the root

A walk stops as soon as it meets a node that was passed before, and takes it on trust that the rest
of the way and the root are known. This is right because of what the walks so far have in common
(`Walk.Covers`): they passed whole paths, all up to one root. One more walk keeps it so or fails
at another root (`visit_of_root_eq`, `visit_of_root_ne`), and so does a run of walks
(`foldlM_visit_ok`, `foldlM_visit_error`).
-/

namespace Schema

/-- The name of the root above a node. -/
def rootName? (s : Schema) (name : String) : Option String := (s.rootOf? name).map Member.name

/-- The way up from the first node leads over the second one, which is not the root. -/
def passes (s : Schema) (start name : String) : Bool :=
  (s.path? start).any fun path => (path.tail.map Member.name).contains name

/-- A walk passes the nodes of the path except for the root. -/
theorem passes_iff {s : Schema} {start name : String} :
    s.passes start name = true ↔
      ∃ root tail, s.path? start = some (root :: tail) ∧ name ∈ tail.map Member.name := by
  simp only [passes, Option.any_eq_true, List.contains_iff_mem]
  constructor
  · rintro ⟨path, hpath, hname⟩
    cases path with
    | nil => simp at hname
    | cons root tail => exact ⟨root, tail, hpath, hname⟩
  · rintro ⟨root, tail, hpath, hname⟩
    exact ⟨root :: tail, hpath, hname⟩

theorem rootName?_of_path? {s : Schema} {name : String} {root : Member} {tail : List Member}
    (h : s.path? name = some (root :: tail)) : s.rootName? name = some root.name := by
  rw [rootName?, rootOf?_eq_bind, h]
  rfl

theorem exists_path?_of_rootName? {s : Schema} {name root : String}
    (h : s.rootName? name = some root) :
    ∃ m tail, s.path? name = some (m :: tail) ∧ m.name = root := by
  simp only [rootName?, rootOf?_eq_bind, Option.map_eq_some_iff,
    Option.bind_eq_some_iff, List.head?_eq_some_iff] at h
  obtain ⟨m, ⟨path, hpath, tail, rfl⟩, hname⟩ := h
  exact ⟨m, tail, hpath, hname⟩

/-- Two ways up that lead over one node go on alike from there. -/
theorem Sound.path?_meet {s : Schema} (hs : s.Sound) {t t' : String} {root root' : Member}
    {q q' r r' : List Member} {x x' : Member} (h : s.path? t = some (root :: (q ++ x :: r)))
    (h' : s.path? t' = some (root' :: (q' ++ x' :: r'))) (hname : x.name = x'.name) :
    root = root' ∧ q = q' := by
  rw [← List.cons_append] at h h'
  have hx := hs.path?_upTo h
  rw [hname, hs.path?_upTo h', Option.some.injEq] at hx
  obtain ⟨hx, -⟩ := List.append_inj' hx rfl
  simpa [eq_comm] using hx

end Schema

namespace Walk

/-! ### One way up -/

/-- Nodes that were not passed before are passed, if there is more to come. -/
theorem climb_fresh {fresh above : List Member} (habove : above ≠ []) :
    ∀ {passed : List String}, (∀ m ∈ fresh, m.name ∉ passed) → (fresh.map Member.name).Nodup →
      climb passed (fresh ++ above) = climb ((fresh.map Member.name).reverse ++ passed) above := by
  induction fresh with
  | nil => intro passed _ _; rfl
  | cons m fresh ih =>
    intro passed hpassed hnodup
    obtain ⟨x, rest, hrest⟩ := List.exists_cons_of_ne_nil
      (List.append_ne_nil_of_right_ne_nil fresh habove)
    have hm : m.name ∉ passed := hpassed m (by simp)
    simp only [List.map_cons, List.nodup_cons] at hnodup
    have hstep : climb passed (m :: (fresh ++ above)) =
        climb (m.name :: passed) (fresh ++ above) := by
      rw [hrest]
      simp [climb, hm]
    rw [List.cons_append, hstep, ih ?_ hnodup.2]
    · simp
    · intro x hx
      simp only [List.mem_cons, not_or]
      exact ⟨fun heq => hnodup.1 (heq ▸ List.mem_map_of_mem hx), hpassed x (by simp [hx])⟩

/-- A way up ends early at the first node that was passed before. -/
theorem climb_known {m root : Member} {above : List Member} {passed : List String}
    (h : m.name ∈ passed) : climb passed (m :: (above ++ [root])) = (passed, none) := by
  obtain ⟨x, rest, hrest⟩ := List.exists_cons_of_ne_nil
    (List.append_ne_nil_of_right_ne_nil above (List.cons_ne_nil root []))
  rw [hrest]
  simp [climb, h]

/-! ### What the walks so far have in common -/

/-- The walks from the nodes of a list have passed all nodes on their ways up but the root, which
is the same for all of them. -/
structure Covers (s : Schema) (done : List String) (w : Walk) : Prop where
  mem_passed : ∀ name, name ∈ w.passed ↔ ∃ t ∈ done, s.passes t name = true
  anchor_eq : w.anchor = done.head?.bind fun first => (s.rootName? first).map (first, ·)
  root_eq : ∀ t ∈ done, ∀ first ∈ done.head?, s.rootName? t = s.rootName? first

theorem covers_nil (s : Schema) : Covers s [] {} := by
  refine ⟨?_, rfl, ?_⟩ <;> simp

/-- A node passed before has passed nodes above it, and a known root. -/
theorem Covers.above_passed {s : Schema} (hs : s.Sound) {done : List String} {w : Walk}
    (hw : Covers s done w) {name : String} {root x : Member} {q r : List Member}
    (hpath : s.path? name = some (root :: (q ++ x :: r))) (hx : x.name ∈ w.passed) :
    (∀ m ∈ q, m.name ∈ w.passed) ∧ ∃ t ∈ done, s.rootName? t = some root.name := by
  obtain ⟨t, ht, hpasses⟩ := (hw.mem_passed x.name).1 hx
  obtain ⟨root', tail', hpath', hmem⟩ := Schema.passes_iff.1 hpasses
  obtain ⟨x', hx', hname⟩ := List.mem_map.1 hmem
  obtain ⟨q', r', rfl⟩ := List.append_of_mem hx'
  obtain ⟨rfl, rfl⟩ := hs.path?_meet hpath hpath' hname.symm
  refine ⟨fun m hm => ?_, t, ht, Schema.rootName?_of_path? hpath'⟩
  refine (hw.mem_passed m.name).2 ⟨t, ht, Schema.passes_iff.2 ⟨_, _, hpath', ?_⟩⟩
  exact List.mem_map_of_mem (by simp [hm])

/-- One more way up adds its nodes to those passed. If it ends early, its root is known. -/
theorem Covers.climb_path {s : Schema} (hs : s.Sound) {done : List String} {w : Walk}
    (hw : Covers s done w) {name : String} {root : Member} {tail : List Member}
    (hpath : s.path? name = some (root :: tail)) :
    ∃ passed out, climb w.passed (root :: tail).reverse = (passed, out) ∧
      (∀ n, n ∈ passed ↔ n ∈ w.passed ∨ n ∈ tail.map Member.name) ∧
        (out = some root ∨ out = none ∧ ∃ t ∈ done, s.rootName? t = some root.name) := by
  have hnodup := hs.nodup_of_path? hpath
  rw [List.map_cons, List.nodup_cons] at hnodup
  rw [List.reverse_cons]
  -- The way up is divided at the first node that was passed before, if there is one.
  cases hfind : tail.reverse.find? (w.passed.contains ·.name) with
  | none =>
    have hfresh : ∀ m ∈ tail.reverse, m.name ∉ w.passed := by
      simpa using List.find?_eq_none.1 hfind
    rw [climb_fresh (List.cons_ne_nil root []) hfresh (by simpa using hnodup.2)]
    refine ⟨_, _, rfl, fun n => ?_, Or.inl rfl⟩
    simp [or_comm]
  | some x =>
    obtain ⟨hx, fresh, above, hsplit, hfresh⟩ := List.find?_eq_some_iff_append.1 hfind
    have htail : tail = above.reverse ++ x :: fresh.reverse := by
      simpa using congrArg List.reverse hsplit
    have hxmem : x.name ∈ w.passed := by simpa using hx
    have hfresh : ∀ m ∈ fresh, m.name ∉ w.passed := by simpa using hfresh
    have hfreshNodup : (fresh.map Member.name).Nodup := by
      have hsub : fresh.reverse.Sublist tail := by
        rw [htail]
        exact (List.sublist_cons_self _ _).trans (List.sublist_append_right _ _)
      simpa using hnodup.2.sublist (hsub.map Member.name)
    rw [htail] at hpath
    -- Stopping here loses nothing: the walk that passed this node passed all nodes above it.
    obtain ⟨habove, t, ht, hroot⟩ := hw.above_passed hs hpath hxmem
    rw [hsplit, List.append_assoc, List.cons_append,
      climb_fresh (List.cons_ne_nil x _) hfresh hfreshNodup, climb_known (by simp [hxmem])]
    refine ⟨_, _, rfl, fun n => ?_, Or.inr ⟨rfl, t, ht, hroot⟩⟩
    rw [htail]
    simp only [List.mem_append, List.mem_reverse, List.map_append, List.map_cons, List.mem_cons,
      List.map_reverse]
    constructor
    · rintro (h | h)
      · exact Or.inr (Or.inr (Or.inr h))
      · exact Or.inl h
    · rintro (h | h | rfl | h)
      · exact Or.inr h
      · obtain ⟨m, hm, rfl⟩ := List.mem_map.1 h
        exact Or.inr (habove m (by simpa using hm))
      · exact Or.inr hxmem
      · exact Or.inl h

/-! ### One more walk -/

section Visit

variable {s : Schema} {done : List String} {w : Walk} {name : String} {root : Member}
  {tail : List Member}

/-- A visit climbs from the node towards the root, and compares the roots it reaches. -/
theorem visit_eq (hpath : s.path? name = some (root :: tail)) :
    visit s w name =
      match climb w.passed (root :: tail).reverse, w.anchor with
      | (passed, none), anchor => .ok ⟨passed, anchor⟩
      | (passed, some root), none => .ok ⟨passed, some (name, root.name)⟩
      | (passed, some root), some (first, firstRoot) =>
        if root.name = firstRoot then .ok ⟨passed, some (first, firstRoot)⟩
        else .error (.disconnected first firstRoot name root.name) := by
  simp only [visit, Schema.path, Schema.orUnknown, hpath]
  rfl

/-- The nodes passed by one more walk are those on its way up. -/
theorem Covers.mem_passed_append (hw : Covers s done w)
    (hpath : s.path? name = some (root :: tail)) {passed : List String}
    (hpassed : ∀ n, n ∈ passed ↔ n ∈ w.passed ∨ n ∈ tail.map Member.name) (n : String) :
    n ∈ passed ↔ ∃ t ∈ done ++ [name], s.passes t n = true := by
  have hname : s.passes name n = true ↔ n ∈ tail.map Member.name := by
    simp [Schema.passes_iff, hpath]
  simp only [hpassed, hw.mem_passed, List.mem_append, List.mem_singleton, or_and_right, exists_or,
    exists_eq_left, hname]

/-- A walk to the root of the earlier ones, or a first walk, succeeds. -/
theorem Covers.visit_of_root_eq (hs : s.Sound) (hw : Covers s done w)
    (hpath : s.path? name = some (root :: tail))
    (hroot : ∀ t ∈ done, s.rootName? t = some root.name) :
    ∃ w', visit s w name = .ok w' ∧ Covers s (done ++ [name]) w' := by
  obtain ⟨passed, out, hclimb, hpassed, hout⟩ := hw.climb_path hs hpath
  have hname := Schema.rootName?_of_path? hpath
  have hmem := hw.mem_passed_append hpath hpassed
  cases done with
  | nil =>
    have hanchor : w.anchor = none := hw.anchor_eq
    obtain rfl : out = some root := hout.resolve_right fun ⟨_, t, ht, _⟩ => by simp at ht
    refine ⟨⟨passed, some (name, root.name)⟩, ?_, hmem, ?_, ?_⟩
    · rw [visit_eq hpath, hclimb, hanchor]
    · simp [hname]
    · simp
  | cons first done =>
    have hfirst := hroot first (by simp)
    have hanchor : w.anchor = some (first, root.name) := by simp [hw.anchor_eq, hfirst]
    refine ⟨⟨passed, some (first, root.name)⟩, ?_, hmem, ?_, ?_⟩
    · rw [visit_eq hpath, hclimb, hanchor]
      rcases hout with rfl | ⟨rfl, -⟩
      · exact if_pos rfl
      · rfl
    · simp [hfirst]
    · have hall : ∀ t ∈ first :: done ++ [name], s.rootName? t = some root.name := by
        intro t ht
        rcases List.mem_append.1 ht with ht | ht
        · exact hroot t ht
        · rw [List.mem_singleton.1 ht]
          exact hname
      intro t ht first' hfirst'
      obtain rfl : first = first' := by simpa using hfirst'
      rw [hall t ht, hfirst]

/-- A walk to another root than that of the earlier ones fails. -/
theorem Covers.visit_of_root_ne (hs : s.Sound) (hw : Covers s done w)
    (hpath : s.path? name = some (root :: tail)) {first firstRoot : String}
    (hanchor : w.anchor = some (first, firstRoot)) (hne : root.name ≠ firstRoot) :
    visit s w name = .error (.disconnected first firstRoot name root.name) := by
  obtain ⟨passed, out, hclimb, -, hout⟩ := hw.climb_path hs hpath
  -- The way up cannot end early, for then the root would be that of the earlier walks.
  have hsome : out = some root := by
    refine hout.resolve_right fun ⟨_, t, ht, hroot⟩ => hne ?_
    cases hdone : done.head? with
    | none => simp [hw.anchor_eq, hdone] at hanchor
    | some first' =>
      have hfirst := hw.root_eq t ht first' hdone
      simp only [hw.anchor_eq, hdone, ← hfirst, hroot, Option.bind_some, Option.map_some,
        Option.some.injEq, Prod.mk.injEq] at hanchor
      exact hanchor.2
  rw [visit_eq hpath, hclimb, hsome, hanchor]
  exact if_neg hne

end Visit

/-! ### A run of walks -/

/-- Walks to one root succeed. -/
theorem foldlM_visit_ok {s : Schema} (hs : s.Sound) {root : String} {names : List String} :
    ∀ {done : List String} {w : Walk}, Covers s done w →
      (∀ t ∈ done ++ names, s.rootName? t = some root) →
        ∃ w', names.foldlM (visit s) w = .ok w' ∧ Covers s (done ++ names) w' := by
  induction names with
  | nil =>
    intro done w hw _
    exact ⟨w, rfl, by simpa using hw⟩
  | cons name names ih =>
    intro done w hw hroot
    obtain ⟨m, tail, hpath, rfl⟩ := Schema.exists_path?_of_rootName? (hroot name (by simp))
    obtain ⟨w₁, hvisit, hw₁⟩ := hw.visit_of_root_eq hs hpath fun t ht => hroot t (by simp [ht])
    obtain ⟨w', hrun, hw'⟩ := ih hw₁ (by simpa using hroot)
    refine ⟨w', ?_, by simpa using hw'⟩
    rw [List.foldlM_cons, hvisit]
    exact hrun

/-- A run ends at the first node with another root than the first one. -/
theorem foldlM_visit_error {s : Schema} (hs : s.Sound) {first second root root' : String}
    {before after : List String} (hroot : ∀ t ∈ first :: before, s.rootName? t = some root)
    (hsecond : s.rootName? second = some root') (hne : root' ≠ root) :
    (first :: (before ++ second :: after)).foldlM (visit s) {} =
      .error (.disconnected first root second root') := by
  obtain ⟨w, hrun, hw⟩ := foldlM_visit_ok hs (covers_nil s) hroot
  obtain ⟨m, tail, hpath, rfl⟩ := Schema.exists_path?_of_rootName? hsecond
  have hanchor : w.anchor = some (first, root) := by simp [hw.anchor_eq, hroot first]
  have herror := hw.visit_of_root_ne hs hpath hanchor hne
  rw [← List.cons_append, List.foldlM_append, hrun]
  change (second :: after).foldlM (visit s) w = _
  rw [List.foldlM_cons, herror]
  rfl

end Walk

/-!
## Steps over paths

The steps of a plan are those onto the nodes passed on the way up from the requested ones. They
lead over exactly the nodes of the requested paths that are not roots (`Sound.passes_iff_path?`,
`Sound.mem_children_iff`), in the order of the keys (`Sound.stepsOver_pairwise`), and each joins
onto the root or onto a node joined before (`Sound.parent_mem_before`).
-/

/-! ### Steps -/

/-- The join of a member onto its parent as a step. -/
def Member.stepOnto? (parent : Option Member) (m : Member) : Option Step :=
  parent.bind fun p => m.join.map fun j => ⟨p.name, m.name, j.condition, j.kind⟩

/-- The steps onto those of a list of members with parents whose names pass a test. -/
def stepsOnto (test : String → Bool) (members : List (Option Member × Member)) : List Step :=
  members.filterMap fun pm => if test pm.2.name then pm.2.stepOnto? pm.1 else none

theorem stepsOnto_cons_root (test : String → Bool) (m : Member)
    (members : List (Option Member × Member)) :
    stepsOnto test ((none, m) :: members) = stepsOnto test members := by
  simp [stepsOnto, Member.stepOnto?]

theorem stepsOnto_cons_joined (test : String → Bool) (p m : Member) (join : Join)
    (members : List (Option Member × Member)) :
    stepsOnto test ((some p, { m with join := some join }) :: members) =
      (if test m.name then [⟨p.name, m.name, join.condition, join.kind⟩] else []) ++
        stepsOnto test members := by
  by_cases htest : test m.source.name <;>
    simp [stepsOnto, Member.stepOnto?, Member.name, htest]

theorem stepsOnto_congr {test test' : String → Bool} {members : List (Option Member × Member)}
    (h : ∀ pm ∈ members, test pm.2.name = test' pm.2.name) :
    stepsOnto test members = stepsOnto test' members :=
  List.filterMap_congr fun pm hpm => by rw [h pm hpm]

theorem child_of_stepOnto? {parent : Option Member} {m : Member} {st : Step}
    (h : m.stepOnto? parent = some st) : st.child = m.name := by
  obtain ⟨p, -, h⟩ := Option.bind_eq_some_iff.1 h
  obtain ⟨j, -, rfl⟩ := Option.map_eq_some_iff.1 h
  rfl

/-- Steps are left out by their children as the members are by their names. -/
theorem filter_stepsOnto (test keep : String → Bool) (members : List (Option Member × Member)) :
    (stepsOnto test members).filter (fun st => keep st.child) =
      stepsOnto test (members.filter fun pm => keep pm.2.name) := by
  rw [stepsOnto, stepsOnto, List.filter_filterMap, List.filterMap_filter]
  refine List.filterMap_congr ?_
  rintro ⟨parent, m⟩ -
  by_cases htest : test m.name
  · simp only [htest, if_true]
    cases hstep : m.stepOnto? parent with
    | none => simp
    | some st => simp [Option.filter, child_of_stepOnto? hstep]
  · simp [htest]

/-- Of the parent only the name is looked at. -/
theorem stepsOnto_withParents_congr (test : String → Bool) (parent parent' : Option Member)
    (h : parent.map Member.name = parent'.map Member.name) (f : Forest Member) :
    stepsOnto test (f.withParents parent) = stepsOnto test (f.withParents parent') := by
  have hstep (m : Member) : m.stepOnto? parent = m.stepOnto? parent' := by
    cases parent <;> cases parent' <;> simp_all [Member.stepOnto?]
  have hmap := map_withParents_congr
    (F := fun p m => if test m.name then Member.stepOnto? p m else none)
    parent parent' (fun m => by rw [hstep]) f
  simpa [stepsOnto, List.filterMap_map] using congrArg (List.filterMap id) hmap

namespace Schema

variable {s : Schema}

theorem step?_eq (s : Schema) (e : Entry) :
    s.step? e = e.label.stepOnto? ((s.parent? e).map Forest.Placed.label) := by
  cases hp : s.parent? e <;> cases hj : e.label.join <;>
    simp [step?, Member.stepOnto?, hp, hj, Entry.name]

/-- A node has a step exactly if it has a parent and a join, and the step says which. -/
theorem step?_eq_some_iff {e : Entry} {st : Step} :
    s.step? e = some st ↔ ∃ p j, s.parent? e = some p ∧ e.label.join = some j ∧
      st = ⟨Entry.name p, Entry.name e, j.condition, j.kind⟩ := by
  cases hp : s.parent? e <;> cases hj : e.label.join <;> simp [step?, hp, hj, eq_comm]

/-- The steps onto the nodes whose names pass a test, in pre-order. -/
def stepsOver (s : Schema) (test : String → Bool) : List Step :=
  (s.entries.filter fun e => test (Entry.name e)).filterMap s.step?

/-- The steps read from the members and their parents, without numbers. -/
theorem stepsOver_eq (s : Schema) (test : String → Bool) :
    s.stepsOver test = stepsOnto test (s.forest.withParents none) := by
  rw [stepsOver, List.filterMap_filter, stepsOnto, ← map_parent_entries, List.filterMap_map]
  refine List.filterMap_congr fun e _ => ?_
  rw [step?_eq]
  rfl

theorem stepsOver_congr {test test' : String → Bool} (h : ∀ n ∈ s.names, test n = test' n) :
    s.stepsOver test = s.stepsOver test' := by
  rw [stepsOver, stepsOver]
  congr 1
  exact List.filter_congr fun e he => h _ (mem_names_iff.2 ⟨e, he, rfl⟩)

/-- A step comes from the node of its child. -/
theorem exists_entry_of_mem_stepsOver {test : String → Bool} {st : Step}
    (h : st ∈ s.stepsOver test) :
    ∃ e ∈ s.entries, test (Entry.name e) = true ∧ s.step? e = some st ∧
      st.child = Entry.name e := by
  obtain ⟨e, he, hst⟩ := List.mem_filterMap.1 h
  obtain ⟨he, htest⟩ := List.mem_filter.1 he
  obtain ⟨p, j, -, -, rfl⟩ := step?_eq_some_iff.1 hst
  exact ⟨e, he, htest, hst, rfl⟩

/-- Steps come in the order of the keys of their children. -/
theorem Sound.stepsOver_pairwise (hs : s.Sound) (test : String → Bool) :
    (s.stepsOver test).Pairwise fun a b => ∃ x y, s.node? a.child = some x ∧
      s.node? b.child = some y ∧ x.key < y.key := by
  refine List.pairwise_filterMap.2 (List.Pairwise.imp_of_mem ?_ (s.entries_pairwise.filter _))
  intro e e' he he' hlt a ha b hb
  obtain ⟨_, _, -, -, rfl⟩ := step?_eq_some_iff.1 ha
  obtain ⟨_, _, -, -, rfl⟩ := step?_eq_some_iff.1 hb
  exact ⟨e, e', hs.node?_eq_some_iff.2 ⟨(List.mem_filter.1 he).1, rfl⟩,
    hs.node?_eq_some_iff.2 ⟨(List.mem_filter.1 he').1, rfl⟩, hlt⟩

/-! ### Nodes on the way up -/

theorem path_eq_ok_iff {name : String} {path : List Member} :
    s.path name = .ok path ↔ s.path? name = some path := by
  cases hp : s.path? name <;> simp [Schema.path, orUnknown, hp]

theorem rootOf_eq_ok_iff {name : String} {root : Member} :
    s.rootOf name = .ok root ↔ s.rootOf? name = some root := by
  cases hr : s.rootOf? name <;> simp [Schema.rootOf, orUnknown, hr]

theorem mem_names_of_passes {start name : String} (h : s.passes start name = true) :
    name ∈ s.names := by
  obtain ⟨root, tail, hpath, hname⟩ := passes_iff.1 h
  obtain ⟨above, m, heq, hm, -⟩ := standsBelow_of_path? hpath
  have hsub := (hm.sublist_labels.map Member.name).subset
  rw [← heq] at hsub
  exact hsub (List.mem_cons_of_mem _ hname)

/-- A root is its own path, and no other node is. -/
theorem Sound.mem_roots_iff (hs : s.Sound) {name : String} :
    name ∈ s.roots.map Member.name ↔ ∃ m, s.path? name = some [m] := by
  constructor
  · intro h
    obtain ⟨m, hm, rfl⟩ := List.mem_map.1 h
    exact ⟨m, hs.path?_of_standsBelow (standsBelow_of_mem_roots hm)⟩
  · rintro ⟨m, hpath⟩
    obtain ⟨⟨root, tail, heq, hroot⟩, above, m', heq', -, hname⟩ := exists_of_path? hpath
    obtain ⟨rfl, -⟩ := List.cons.inj heq
    obtain rfl : m = m' := by simpa using congrArg List.getLast? heq'
    exact List.mem_map.2 ⟨m, hroot, hname⟩

/-- The nodes passed on the way up are those on the path that are not roots. -/
theorem Sound.passes_iff_path? (hs : s.Sound) {start name : String} :
    s.passes start name = true ↔ name ∉ s.roots.map Member.name ∧
      ∃ path, s.path? start = some path ∧ name ∈ path.map Member.name := by
  rw [passes_iff, hs.mem_roots_iff]
  constructor
  · rintro ⟨root, tail, hpath, hname⟩
    refine ⟨?_, root :: tail, hpath, List.mem_cons_of_mem _ hname⟩
    rintro ⟨m, hroot⟩
    obtain ⟨x, hx, rfl⟩ := List.mem_map.1 hname
    obtain ⟨q, r, rfl⟩ := List.append_of_mem hx
    rw [← List.cons_append] at hpath
    rw [hs.path?_upTo hpath] at hroot
    simp at hroot
  · rintro ⟨hroot, path, hpath, hname⟩
    obtain ⟨⟨root, tail, rfl, hmem⟩, -⟩ := exists_of_path? hpath
    rw [List.map_cons, List.mem_cons] at hname
    refine ⟨root, tail, hpath, hname.resolve_left ?_⟩
    rintro rfl
    exact hroot (hs.mem_roots_iff.1 (List.mem_map_of_mem hmem))

/-- The stored parent of a node is the last one on the way down to it. -/
theorem Sound.parent?_of_standsBelow (hs : s.Sound) {above : List Member} {e : Entry}
    (he : e ∈ s.entries) (h : StandsBelow s.forest above e.label) :
    (s.parent? e).map Forest.Placed.label = above.getLast? := by
  have hparent := h.mem_withParents none
  rw [Option.or_none, ← map_parent_entries] at hparent
  obtain ⟨e', he', heq⟩ := List.mem_map.1 hparent
  obtain ⟨hlast, hlabel⟩ := Prod.mk.inj heq
  obtain rfl := hs.entry_eq_of_name he' he (congrArg Member.name hlabel)
  exact hlast

/-- A node passed on the way up hangs from the root or from a node that is passed later. -/
theorem Sound.parent_of_passes (hs : s.Sound) {start : String} {e : Entry} (he : e ∈ s.entries)
    (h : s.passes start (Entry.name e) = true) :
    ∃ p, s.parent? e = some p ∧
      (s.rootName? start = some (Entry.name p) ∨ s.passes start (Entry.name p) = true) := by
  obtain ⟨root, tail, hpath, hmem⟩ := passes_iff.1 h
  obtain ⟨x, hx, hname⟩ := List.mem_map.1 hmem
  obtain ⟨q, r, rfl⟩ := List.append_of_mem hx
  have hup := hpath
  rw [← List.cons_append] at hup
  obtain ⟨-, above, m, heq, hm, -⟩ := exists_of_path? (hs.path?_upTo hup)
  obtain ⟨rfl, hxm⟩ := List.append_inj' heq rfl
  obtain rfl : x = m := by simpa using hxm
  obtain ⟨e', he', rfl⟩ : ∃ e' ∈ s.entries, e'.label = x :=
    List.mem_map.1 (by rw [map_label_entries]; exact hm.mem_labels)
  obtain rfl := hs.entry_eq_of_name he' he hname
  have hparent := hs.parent?_of_standsBelow he hm
  rcases List.eq_nil_or_concat' q with rfl | ⟨q, y, rfl⟩
  · obtain ⟨p, hp, rfl⟩ := Option.map_eq_some_iff.1 hparent
    exact ⟨p, hp, Or.inl (rootName?_of_path? hpath)⟩
  · rw [← List.cons_append, List.getLast?_concat] at hparent
    obtain ⟨p, hp, rfl⟩ := Option.map_eq_some_iff.1 hparent
    exact ⟨p, hp, Or.inr (passes_iff.2 ⟨root, _, hpath, List.mem_map_of_mem (by simp)⟩)⟩

/-! ### Steps over paths -/

/-- Whether a node is passed on the way up from one of a list of nodes. -/
def passedFrom (s : Schema) (names : List String) (name : String) : Bool :=
  names.any (s.passes · name)

theorem passedFrom_eq_true_iff {names : List String} {name : String} :
    s.passedFrom names name = true ↔ ∃ n ∈ names, s.passes n name = true :=
  List.any_eq_true

/-- Where the same nodes pass a node, it is passed in both schemas. -/
theorem passedFrom_congr {t : Schema} {names : List String} {c : String}
    (h : ∀ n ∈ names, s.passes n c = t.passes n c) :
    s.passedFrom names c = t.passedFrom names c := by
  rw [Bool.eq_iff_iff, passedFrom_eq_true_iff, passedFrom_eq_true_iff]
  exact exists_congr fun n => and_congr_right fun hn => by rw [h n hn]

/-- The steps are onto the nodes that the walks from the requested names pass. -/
theorem Sound.mem_children_iff (hs : s.Sound) {names : List String} {c : String} :
    c ∈ (s.stepsOver (s.passedFrom names)).map Step.child ↔
      ∃ n ∈ names, s.passes n c = true := by
  rw [List.mem_map]
  constructor
  · rintro ⟨st, hst, rfl⟩
    obtain ⟨e, -, hpassed, -, hchild⟩ := exists_entry_of_mem_stepsOver hst
    rw [hchild]
    exact passedFrom_eq_true_iff.1 hpassed
  · rintro ⟨n, hn, hpasses⟩
    obtain ⟨e, he, rfl⟩ := mem_names_iff.1 (mem_names_of_passes hpasses)
    obtain ⟨p, hp, -⟩ := hs.parent_of_passes he hpasses
    have hjoin := hs.join_isSome_entry he
    rw [(parent_of_parent? hp).2, Option.isSome_some, Option.isSome_iff_exists] at hjoin
    obtain ⟨j, hj⟩ := hjoin
    refine ⟨_, List.mem_filterMap.2 ⟨e, ?_, step?_eq_some_iff.2 ⟨p, j, hp, hj, rfl⟩⟩, rfl⟩
    exact List.mem_filter.2 ⟨he, passedFrom_eq_true_iff.2 ⟨n, hn, hpasses⟩⟩

/-- Each step has the join above its child. -/
theorem Sound.joins_of_mem_stepsOver (hs : s.Sound) {test : String → Bool} {st : Step}
    (h : st ∈ s.stepsOver test) :
    ∃ parent edge, s.parentOf st.child = .ok (some parent) ∧
      s.edgeAbove st.child = .ok (some edge) ∧ st.parent = Entry.name parent ∧
        st.condition = edge.join.condition ∧ st.kind = edge.join.kind := by
  obtain ⟨e, he, -, hst, -⟩ := exists_entry_of_mem_stepsOver h
  obtain ⟨p, j, hp, hj, rfl⟩ := step?_eq_some_iff.1 hst
  have hlookup : s.lookup (Entry.name e) = .ok e :=
    lookup_eq_ok_iff.2 (hs.node?_eq_some_iff.2 ⟨he, rfl⟩)
  have hedge : e.edge? = some ⟨p.key, e.key, j⟩ :=
    edge?_eq_some_iff.2 ⟨(parent_of_parent? hp).2, rfl, hj⟩
  refine ⟨p, ⟨p.key, e.key, j⟩, ?_, ?_, rfl, rfl, rfl⟩
  · rw [parentOf, hlookup, Except.map, hp]
  · rw [edgeAbove, hlookup, Except.map, hedge]

/-- The parent of a step is the root or was joined before. -/
theorem Sound.parent_mem_before (hs : s.Sound) {names : List String} {root : String}
    (hroot : ∀ n ∈ names, s.rootName? n = some root) {before after : List Step} {st : Step}
    (hsplit : s.stepsOver (s.passedFrom names) = before ++ st :: after) :
    st.parent = root ∨ st.parent ∈ before.map Step.child := by
  have hmem : st ∈ s.stepsOver (s.passedFrom names) := by simp [hsplit]
  obtain ⟨e, he, hpassed, hst, -⟩ := exists_entry_of_mem_stepsOver hmem
  obtain ⟨n, hn, hpasses⟩ := passedFrom_eq_true_iff.1 hpassed
  obtain ⟨p, hp, hrootp | hpassesp⟩ := hs.parent_of_passes he hpasses
  all_goals obtain ⟨p', j, hp', -, rfl⟩ := step?_eq_some_iff.1 hst
  all_goals obtain rfl : p = p' := Option.some.inj (hp.symm.trans hp')
  · exact Or.inl (Option.some.inj (hrootp.symm.trans (hroot n hn)))
  · refine Or.inr ?_
    have hmem := hs.mem_children_iff.2 ⟨n, hn, hpassesp⟩
    rw [hsplit, List.map_append, List.mem_append] at hmem
    refine hmem.resolve_right fun hlater => ?_
    obtain ⟨st', hst', hchild⟩ := List.mem_map.1 hlater
    obtain ⟨hpe, hparent⟩ := parent_of_parent? hp
    have hlt := parent_lt_key he hparent
    have hpairwise := hs.stepsOver_pairwise (s.passedFrom names)
    rw [hsplit] at hpairwise
    rcases List.mem_cons.1 hst' with rfl | hst'
    · obtain rfl : e = p := hs.entry_eq_of_name he hpe hchild
      exact Nat.lt_irrefl _ hlt
    · obtain ⟨x, y, hx, hy, hxy⟩ :=
        List.rel_of_pairwise_cons (List.pairwise_append.1 hpairwise).2.1 hst'
      have hex : e = x := hs.entry_eq_of_name he (name_of_node? hx).1 (name_of_node? hx).2.symm
      have hpy : p = y := hs.entry_eq_of_name hpe (name_of_node? hy).1
        (hchild.symm.trans (name_of_node? hy).2.symm)
      subst hex hpy
      omega

end Schema

end JoinForest
