import JoinForest.Proofs.Schema.Construction
import JoinForest.Proofs.Schema.Numbering

set_option autoImplicit false

/-!
# What the settings touch

The settings for building decide no more than they say, for topologies and for schemas that are
attached (`Schema.settings_frame`).
-/

namespace JoinForest

open Forest

/-!
## Changed joins

A schema in which joins are changed, each as told by the names of the two nodes it joins, and
nothing else (`Schema.changeJoins`). A forest makes a schema before the change exactly if it makes
one after it (`ofForest_changeJoins`), and a change that concerns the join of a scion only may be
made before grafting (`graft_changeJoins`).
-/

/-- The change of a join, given the names of parent and child. -/
abbrev JoinChange := String → String → Join → Join

/-- A member below the node of a name, with its join changed. A root has no join to change. -/
def Member.changeJoin (change : JoinChange) (parent : Option String) (m : Member) : Member :=
  match parent with
  | none => m
  | some p => { m with join := m.join.map (change p m.name) }

/-- A forest below the node of a name, with all joins changed. -/
def changeJoins (change : JoinChange) : Option String → Forest Member → Forest Member
  | _, .nil => .nil
  | parent, .cons m children rest =>
    .cons (m.changeJoin change parent) (changeJoins change (some m.name) children)
      (changeJoins change parent rest)

/-- The schema with all joins changed. -/
def Schema.changeJoins (change : JoinChange) (s : Schema) : Schema :=
  ⟨JoinForest.changeJoins change none s.forest⟩

variable {change : JoinChange}

namespace Member

@[simp] theorem source_changeJoin (parent : Option String) (m : Member) :
    (m.changeJoin change parent).source = m.source := by
  cases parent <;> rfl

@[simp] theorem name_changeJoin (parent : Option String) (m : Member) :
    (m.changeJoin change parent).name = m.name := by
  rw [name, source_changeJoin]
  rfl

@[simp] theorem isSome_join_changeJoin (parent : Option String) (m : Member) :
    (m.changeJoin change parent).join.isSome = m.join.isSome := by
  cases parent with
  | none => rfl
  | some p => simp [changeJoin]

@[simp] theorem checkPlace_changeJoin (parent : Option String) (m : Member) (isTop : Bool) :
    (m.changeJoin change parent).checkPlace isTop = m.checkPlace isTop := by
  obtain ⟨source, join⟩ := m
  cases parent with
  | none => rfl
  | some p => cases join <;> cases isTop <;> rfl

/-- Name and place of a member are looked at, and whether it is joined, but not how. -/
@[simp] theorem enter_changeJoin (parent : Option String) (m : Member) (isTop : Bool)
    (taken : List String) :
    (m.changeJoin change parent).enter isTop taken = m.enter isTop taken := by
  simp [enter]

end Member

theorem changeJoins_append (parent : Option String) (f g : Forest Member) :
    changeJoins change parent (f ++ g) =
      changeJoins change parent f ++ changeJoins change parent g := by
  induction f with
  | nil => rfl
  | cons m cs rest _ ihr => simp [changeJoins, ihr]

/-! ### Schemas of changed forests -/

/-- The checks of names and places do not look at what a join is made of. -/
theorem enterAll_changeJoins (change : JoinChange) (isTop : Bool) (taken : List String)
    (parent : Option String) (f : Forest Member) :
    enterAll isTop taken (changeJoins change parent f) = enterAll isTop taken f := by
  induction f generalizing isTop taken parent with
  | nil => rfl
  | cons m cs rest ihc ihr =>
    simp only [changeJoins, enterAll, Member.enter_changeJoin, ihc, ihr]

/-- A forest with changed joins makes a schema or fails as the forest itself. -/
theorem ofForest_changeJoins (f : Forest Member) :
    Schema.ofForest (changeJoins change none f) =
      (Schema.ofForest f).map (Schema.changeJoins change) := by
  have henter := enterAll_changeJoins change true [] none f
  unfold Schema.ofForest
  rw [henter]
  cases enterAll true [] f with
  | error e => rfl
  | ok taken => cases f <;> rfl

/-! ### Changes of some joins -/

/-- A change that concerns none of the joins leaves the forest as it is. -/
theorem changeJoins_eq_self {f : Forest Member} {parent : Option String}
    (h : ∀ p, parent = some p → ∀ m ∈ f.labels, change p m.name = id)
    (hbelow : ∀ p ∈ f.labels, ∀ m ∈ f.labels, change p.name m.name = id) :
    changeJoins change parent f = f := by
  induction f generalizing parent with
  | nil => rfl
  | cons m cs rest ihc ihr =>
    simp only [labels, List.forall_mem_cons, List.forall_mem_append] at h hbelow
    have hm : m.changeJoin change parent = m := by
      cases parent with
      | none => rfl
      | some p => simp [Member.changeJoin, (h p rfl).1]
    rw [changeJoins, hm, ihc, ihr]
    · exact fun p hp => (h p hp).2.2
    · exact fun p hp => (hbelow.2.2 p hp).2.2
    · rintro _ ⟨⟩
      exact hbelow.1.2.1
    · exact fun p hp => (hbelow.2.1 p hp).2.1

/-- A change may concern the join of the top node of a tree only. -/
theorem changeJoins_tree {m : Member} {below : Forest Member} {parent : Option String}
    (h : ∀ p ∈ m :: below.labels, ∀ c ∈ below.labels, change p.name c.name = id) :
    changeJoins change parent (.tree m below) = .tree (m.changeJoin change parent) below := by
  rw [List.forall_mem_cons] at h
  rw [Forest.tree, changeJoins, changeJoins_eq_self _ h.2]
  · rfl
  · rintro _ ⟨⟩
    exact h.1

/-- A change that concerns no join onto an old node may be made in the scion before grafting. -/
theorem graft_changeJoins {f scion : Forest Member} {name : String} (parent : Option String)
    (h : ∀ p, ∀ m ∈ f.labels, change p m.name = id) :
    changeJoins change parent (graft (Member.name · == name) scion f) =
      graft (Member.name · == name) (changeJoins change (some name) scion) f := by
  induction f generalizing parent with
  | nil => rfl
  | cons m cs rest ihc ihr =>
    simp only [labels, List.forall_mem_cons, List.forall_mem_append] at h
    have hm : m.changeJoin change parent = m := by
      cases parent with
      | none => rfl
      | some p => simp [Member.changeJoin, (h p).1]
    have hc := ihc (some m.name) fun p => (h p).2.1
    have hr := ihr parent fun p => (h p).2.2
    by_cases hname : m.name = name
    · subst hname
      simp [graft, changeJoins, changeJoins_append, hm, hc, hr]
    · simp [graft, changeJoins, hm, hc, hr, hname]

end JoinForest

namespace JoinForest

open Forest

/-!
## Default kinds and keys of children

The settings for building decide no more than they say. The default kind is the kind of the joins
for which none was given, and of no others (`Schema.build_defaultJoinKind`,
`Schema.compose_defaultJoinKind`). Counting the keys of children too may supply a relation that was
missing or make one ambiguous, and does nothing else (`Widened`). Both are carried from one join
through the nodes of a topology in pre-order, errors included, and are brought together in
`Schema.settings_frame`.
-/

variable {overrides : Overrides} {settings : BuildSettings} {kind : JoinKind}

/-! ### The default kind -/

/-- The join with a kind that it takes unless an override gives it one. -/
def Join.orKind (override : Option Override) (kind : JoinKind) (join : Join) : Join :=
  if override.bind Override.kind = none then { join with kind := kind } else join

/-- With another default kind a join differs in its kind, and only where none was given. -/
theorem Source.joinWith_defaultJoinKind {parent child : Source} {override : Option Override} :
    parent.joinWith child override { settings with defaultJoinKind := kind } =
      (parent.joinWith child override settings).map (Join.orKind override kind) := by
  cases override with
  | none =>
    simp only [joinWith]
    cases parent.inferCondition child settings.inferReverseForeignKeys <;> rfl
  | some o =>
    obtain ⟨asked, given⟩ := o
    simp only [joinWith]
    cases parent.overrideCondition child settings.inferReverseForeignKeys asked with
    | error e => rfl
    | ok condition => cases given <;> rfl

namespace Topology

theorem joined_defaultJoinKind (parent : Option Source) (t : Forest Source) :
    joined overrides { settings with defaultJoinKind := kind } parent t =
      (joined overrides settings parent t).map
        (changeJoins (fun p c => Join.orKind (overrides.get? p c) kind)
          (parent.map Source.name)) := by
  induction t generalizing parent with
  | nil => rfl
  | cons source cs rest ihc ihr =>
    have hown : joinOnto overrides { settings with defaultJoinKind := kind } parent source =
        (joinOnto overrides settings parent source).map fun join =>
          (Member.changeJoin (fun p c => Join.orKind (overrides.get? p c) kind)
            (parent.map Source.name) ⟨source, join⟩).join := by
      cases parent with
      | none => rfl
      | some p =>
        rw [joinOnto, joinOnto, Source.joinWith_defaultJoinKind]
        cases p.joinWith source (overrides.get? p.name source.name) settings <;> rfl
    rw [joined, joined, hown, ihc, ihr]
    cases joinOnto overrides settings parent source with
    | error e => rfl
    | ok join =>
      cases joined overrides settings (some source) cs with
      | error e => rfl
      | ok below =>
        cases joined overrides settings parent rest with
        | error e => rfl
        | ok after => cases parent <;> rfl

end Topology

namespace Schema

/-- Under another default kind the same schema is built, but for the joins to which no override
gives a kind, or building fails as before. -/
theorem build_defaultJoinKind (t : Topology) :
    build t overrides { settings with defaultJoinKind := kind } =
      (build t overrides settings).map
        (changeJoins fun p c => Join.orKind (overrides.get? p c) kind) := by
  cases hrepeat : firstRepeat? [] t.names with
  | some name =>
    rw [build, build, hrepeat]
    rfl
  | none =>
    have hnodup := (firstRepeat?_eq_none_iff.1 hrepeat).1
    rw [build_of_nodup hnodup, build_of_nodup hnodup, Topology.joined_defaultJoinKind]
    cases Topology.joined overrides settings none t with
    | error e => rfl
    | ok f => exact ofForest_changeJoins f

/-- The settings play a part in attaching only by the new join, which is made after everything else
has been looked at. -/
theorem compose_cases (g h : Schema) (attachTo : String) (override : Option Override) :
    (∃ e, ∀ settings, g.compose h attachTo override settings = .error e) ∨
      ∃ (host : Source) (top : Member) (below : Forest Member),
        attachTo ∈ g.names ∧ DisjointNames g h ∧ h.forest = .tree top below ∧
          ∀ settings, g.compose h attachTo override settings =
            host.joinWith top.source override settings >>= fun join =>
              ofForest (graft (Member.name · == attachTo)
                (.tree { top with join := some join } below) g.forest) := by
  unfold compose
  cases hhost : g.lookup attachTo with
  | error e => exact Or.inl ⟨e, fun _ => rfl⟩
  | ok host =>
    cases hdisjoint : g.checkDisjoint h with
    | error e => exact Or.inl ⟨e, fun _ => rfl⟩
    | ok _ =>
      rcases hforest : h.forest with _ | ⟨top, below, _ | ⟨_, _, _⟩⟩
      · exact Or.inl ⟨_, fun _ => rfl⟩
      · have hname := mem_names_iff.2 ⟨host, name_of_node? (lookup_eq_ok_iff.1 hhost)⟩
        exact Or.inr ⟨host.source, top, below, hname, checkDisjoint_eq_ok_iff.1 hdisjoint, rfl,
          fun _ => rfl⟩
      · exact Or.inl ⟨_, fun _ => rfl⟩

/-- Under another default kind the same schema comes of attaching, but for the new join when its
override gives no kind, or attaching fails as before. -/
theorem compose_defaultJoinKind (g h : Schema) (attachTo : String) (override : Option Override) :
    g.compose h attachTo override { settings with defaultJoinKind := kind } =
      (g.compose h attachTo override settings).map
        (changeJoins fun p c =>
          if p = attachTo ∧ c ∈ h.roots.map Member.name then Join.orKind override kind
          else id) := by
  obtain ⟨e, herror⟩ | ⟨host, top, below, hname, hdisjoint, hforest, hcompose⟩ :=
    compose_cases g h attachTo override
  · rw [herror, herror]
    rfl
  · have hroots : h.roots.map Member.name = [top.name] := by
      rw [roots, hforest]
      rfl
    have hnames : h.names = top.name :: below.labels.map Member.name := by
      rw [names, hforest, Forest.tree, labels, labels, List.append_nil, List.map_cons]
    rw [hcompose, hcompose, Source.joinWith_defaultJoinKind, hroots]
    cases host.joinWith top.source override settings with
    | error e => rfl
    | ok join =>
      refine Eq.trans ?_ (ofForest_changeJoins _)
      rw [graft_changeJoins, changeJoins_tree]
      · simp [Member.changeJoin, Member.name, bind, Except.bind, Except.map]
      · intro p hp c _
        have hp : p.name ∈ h.names := by
          rw [hnames]
          exact List.mem_map_of_mem (f := Member.name) hp
        refine if_neg ?_
        rintro ⟨hattach, -⟩
        exact hdisjoint p.name hp (hattach ▸ hname)
      · intro p m hm
        have hm : m.name ∈ g.names := List.mem_map_of_mem hm
        refine if_neg ?_
        rintro ⟨-, hroot⟩
        refine hdisjoint m.name ?_ hm
        rw [List.mem_singleton.1 hroot, hnames]
        exact List.mem_cons_self

end Schema

/-! ### Keys of children -/

/-- What keys of children may make of an outcome, given without and with them: nothing, unless a
relation was missing without them or one is ambiguous with them. -/
inductive Widened {α : Type} : Except SchemaError α → Except SchemaError α → Prop
  | same (x : Except SchemaError α) : Widened x x
  | supplied (parent child : String) (wide : Except SchemaError α) :
      Widened (.error (.missingRelation parent child)) wide
  | ambiguous (parent child : String) (count : Nat) (narrow : Except SchemaError α) :
      Widened narrow (.error (.ambiguousJoin parent child count))

namespace Widened

variable {α β : Type} {narrow wide : Except SchemaError α}

/-- A sequence of steps is widened where its steps are. -/
theorem bind {f g : α → Except SchemaError β} (h : Widened narrow wide)
    (hfg : ∀ a, Widened (f a) (g a)) : Widened (narrow >>= f) (wide >>= g) := by
  -- Where the two differ, one of them has failed, and it stays so.
  cases h with
  | same =>
    cases narrow with
    | error e => exact .same (.error e)
    | ok a => exact hfg a
  | supplied p c => exact .supplied p c _
  | ambiguous p c count => exact .ambiguous p c count _

/-- Where both succeed, nothing has changed. -/
theorem eq_of_ok {a b : α} (h : Widened narrow wide) (hnarrow : narrow = .ok a)
    (hwide : wide = .ok b) : a = b := by
  cases h with
  | same => exact Except.ok.inj (hnarrow.symm.trans hwide)
  | supplied p c => cases hnarrow
  | ambiguous p c count => cases hwide

end Widened

namespace Source

/-- Keys of the child come after those of the parent. -/
theorem exists_joinCandidates (parent child : Source) :
    ∃ more, parent.joinCandidates child true = parent.joinCandidates child false ++ more := by
  by_cases hrelation : parent.relationName = child.relationName
  · exact ⟨[], by simp [joinCandidates, hrelation]⟩
  · exact ⟨_, by rw [joinCandidates, joinCandidates]; simp [hrelation]; rfl⟩

/-- Keys of the child only add candidates: a single one stays, or the condition is ambiguous. -/
theorem inferCondition_widened (parent child : Source) :
    Widened (parent.inferCondition child false) (parent.inferCondition child true) := by
  obtain ⟨more, hmore⟩ := exists_joinCandidates parent child
  unfold inferCondition
  rw [hmore]
  rcases parent.joinCandidates child false with _ | ⟨pairs, _ | ⟨pairs', rest⟩⟩
  · exact .supplied _ _ _
  · cases more with
    | nil => exact .same _
    | cons _ _ => exact .ambiguous _ _ _ _
  · exact .ambiguous _ _ _ _

theorem joinWith_widened (parent child : Source) (override : Option Override) :
    Widened (parent.joinWith child override { settings with inferReverseForeignKeys := false })
      (parent.joinWith child override { settings with inferReverseForeignKeys := true }) := by
  have hinfer := inferCondition_widened parent child
  rcases override with _ | ⟨condition, given⟩
  · exact hinfer.bind fun _ => .same _
  · cases condition with
    | inferred => exact hinfer.bind fun _ => .same _
    | columns pairs => cases pairs <;> exact .same _
    | expression text => exact .same _

end Source

theorem Topology.joined_widened (parent : Option Source) (t : Forest Source) :
    Widened (joined overrides { settings with inferReverseForeignKeys := false } parent t)
      (joined overrides { settings with inferReverseForeignKeys := true } parent t) := by
  induction t generalizing parent with
  | nil => exact .same _
  | cons source cs rest ihc ihr =>
    have hown : Widened
        (joinOnto overrides { settings with inferReverseForeignKeys := false } parent source)
        (joinOnto overrides { settings with inferReverseForeignKeys := true } parent source) := by
      cases parent with
      | none => exact .same _
      | some p =>
        exact (p.joinWith_widened source _).bind fun join => .same (.ok (some join))
    rw [joined, joined]
    exact hown.bind fun _ => (ihc _).bind fun _ => (ihr _).bind fun _ => .same _

namespace Schema

/-- Keys of children supply joins that were missing or make some ambiguous, and change nothing else
about a build. -/
theorem build_widened (t : Topology) (overrides : Overrides) (settings : BuildSettings) :
    Widened (build t overrides { settings with inferReverseForeignKeys := false })
      (build t overrides { settings with inferReverseForeignKeys := true }) := by
  cases hrepeat : firstRepeat? [] t.names with
  | some name =>
    rw [build, build, hrepeat]
    exact .same _
  | none =>
    have hnodup := (firstRepeat?_eq_none_iff.1 hrepeat).1
    rw [build_of_nodup hnodup, build_of_nodup hnodup]
    exact (Topology.joined_widened none t).bind fun _ => .same _

theorem compose_widened (g h : Schema) (attachTo : String) (override : Option Override)
    (settings : BuildSettings) :
    Widened (g.compose h attachTo override { settings with inferReverseForeignKeys := false })
      (g.compose h attachTo override { settings with inferReverseForeignKeys := true }) := by
  obtain ⟨e, herror⟩ | ⟨host, top, below, -, -, -, hcompose⟩ := compose_cases g h attachTo override
  · rw [herror, herror]
    exact .same _
  · rw [hcompose, hcompose]
    exact (host.joinWith_widened top.source override).bind fun _ => .same _

/-- The settings touch only what they name, in building and in attaching. Another default kind
leaves an error as it is, and a schema too but for the joins without a kind of their own, which
take it. Keys of children leave what succeeds with and without them as it is, and otherwise supply
a missing relation or make one ambiguous. -/
theorem settings_frame (t : Topology) (overrides : Overrides) (g h : Schema) (attachTo : String)
    (override : Option Override) (settings : BuildSettings) :
    (∀ kind,
      build t overrides { settings with defaultJoinKind := kind } =
          (build t overrides settings).map
            (changeJoins fun p c => Join.orKind (overrides.get? p c) kind) ∧
        g.compose h attachTo override { settings with defaultJoinKind := kind } =
          (g.compose h attachTo override settings).map
            (changeJoins fun p c =>
              if p = attachTo ∧ c ∈ h.roots.map Member.name then Join.orKind override kind
              else id)) ∧
    (∀ narrow wide,
      build t overrides { settings with inferReverseForeignKeys := false } = .ok narrow →
        build t overrides { settings with inferReverseForeignKeys := true } = .ok wide →
          narrow = wide) ∧
    (∀ narrow wide,
      g.compose h attachTo override { settings with inferReverseForeignKeys := false } =
          .ok narrow →
        g.compose h attachTo override { settings with inferReverseForeignKeys := true } =
          .ok wide → narrow = wide) ∧
    Widened (build t overrides { settings with inferReverseForeignKeys := false })
      (build t overrides { settings with inferReverseForeignKeys := true }) ∧
    Widened (g.compose h attachTo override { settings with inferReverseForeignKeys := false })
      (g.compose h attachTo override { settings with inferReverseForeignKeys := true }) := by
  refine ⟨fun kind => ⟨?_, ?_⟩, ?_, ?_, ?_, ?_⟩
  · exact build_defaultJoinKind t
  · exact compose_defaultJoinKind g h attachTo override
  · exact fun narrow wide => (build_widened t overrides settings).eq_of_ok
  · exact fun narrow wide => (compose_widened g h attachTo override settings).eq_of_ok
  · exact build_widened t overrides settings
  · exact compose_widened g h attachTo override settings

end Schema

namespace Sample

/-- Products as children of what is sold: the key stands on the child's side. -/
def productSales : Topology := .tree product (.tree sales .nil)

/-- Sales with their products and the brands attached there, under inner joins and without keys of
children, and products with the sales below, for which such a key is needed. -/
theorem frame_sales :
    Schema.build (.tree sales (.tree product .nil)) .empty { defaultJoinKind := .inner } =
        .ok (salesSchema.changeJoins fun _ _ join => { join with kind := .inner }) ∧
      salesSchema.compose brandSchema "product" none { defaultJoinKind := .inner } =
        .ok (chainSchema.changeJoins fun p _ join =>
          if p = "product" then { join with kind := .inner } else join) ∧
      Schema.build productSales .empty { inferReverseForeignKeys := false } =
        .error (.missingRelation "product" "sales") ∧
      (∀ s, Schema.build (.tree sales (.tree product .nil)) .empty
          { inferReverseForeignKeys := false } = .ok s → s = salesSchema) ∧
      ∀ s, salesSchema.compose brandSchema "product" none { inferReverseForeignKeys := false } =
        .ok s → s = chainSchema := by
  have hframe := Schema.settings_frame (.tree sales (.tree product .nil)) .empty salesSchema
    brandSchema "product" none {}
  refine ⟨?_, ?_, ?_, ?_, ?_⟩
  · exact (hframe.1 .inner).1
  · refine (hframe.1 .inner).2.trans ?_
    rw [compose_brand]
    rfl
  · rfl
  · exact fun s hs => hframe.2.1 s salesSchema hs rfl
  · exact fun s hs => hframe.2.2.1 s chainSchema hs compose_brand

end Sample

end JoinForest
