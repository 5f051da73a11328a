import JoinForest.Proofs.Except
import JoinForest.Proofs.Forest.Subtrees
import JoinForest.Schema
import JoinForest.Schema.Reshape

set_option autoImplicit false

/-!
# Sound schemas

A schema is sound when its names are distinct, a member carries a join exactly if it has a parent,
and there is a root. The schemas made of forests are exactly the sound ones (`ofForest_eq_ok_iff`),
and in a sound schema a name finds exactly the node that has it.
-/

namespace JoinForest

open Forest

/-!
## What is sound

A schema is sound when its names are distinct, a member carries a join exactly if it has a parent,
and there is a root. The schemas made of forests are exactly the sound ones
(`ofForest_eq_ok_iff`).
-/

/-- What holds of every schema that is made of a forest. -/
structure Schema.Sound (s : Schema) : Prop where
  /-- No name comes twice. -/
  names_nodup : s.names.Nodup
  /-- Members below another one carry a join, those on top none. -/
  join_isSome : ∀ pm ∈ s.forest.withParents none, pm.2.join.isSome = pm.1.isSome
  /-- There is a root. -/
  ne_nil : s.forest ≠ .nil

theorem Member.checkPlace_eq_ok_iff {m : Member} {isTop : Bool} :
    m.checkPlace isTop = .ok () ↔ m.join.isSome = !isTop := by
  cases isTop <;> cases hj : m.join <;> simp [Member.checkPlace, hj]

/-- A node is entered if it is in the right place and its name is new, which is then taken. -/
theorem Member.enter_eq_ok_iff {m : Member} {isTop : Bool} {taken out : List String} :
    m.enter isTop taken = .ok out ↔
      m.join.isSome = !isTop ∧ m.name ∉ taken ∧ out = m.name :: taken := by
  by_cases htop : isTop && m.join.isSome
  · have hplace : m.join.isSome ≠ !isTop := by
      simp only [Bool.and_eq_true] at htop
      simp [htop]
    simp [Member.enter, htop, hplace]
  · by_cases htaken : taken.contains m.name
    · have hmem : m.name ∈ taken := by simpa using htaken
      simp [Member.enter, htop, hmem]
    · have hmem : m.name ∉ taken := by simpa using htaken
      simp only [Member.enter, htop, htaken, Bool.false_eq_true, if_false, map_eq_ok_iff, hmem,
        not_false_eq_true, true_and]
      constructor
      · rintro ⟨_, hplace, rfl⟩
        exact ⟨Member.checkPlace_eq_ok_iff.1 hplace, rfl⟩
      · rintro ⟨hplace, rfl⟩
        exact ⟨(), Member.checkPlace_eq_ok_iff.2 hplace, rfl⟩

/-- The members of a forest can be entered exactly if they carry joins where they have parents, and
their names are distinct and not taken. -/
theorem enterAll_eq_ok_iff (f : Forest Member) (parent : Option Member) (taken out : List String) :
    enterAll parent.isNone taken f = .ok out ↔
      (∀ pm ∈ f.withParents parent, pm.2.join.isSome = pm.1.isSome) ∧
        (f.labels.map Member.name).Nodup ∧ (∀ n ∈ f.labels.map Member.name, n ∉ taken) ∧
          out = (f.labels.map Member.name).reverse ++ taken := by
  -- What is taken before the rest is what was taken before, the name of `m` and those below it.
  induction f generalizing parent taken out with
  | nil => simp [enterAll, withParents, labels, eq_comm]
  | cons m cs rest ihc ihr =>
    have hc (taken out : List String) : enterAll false taken cs = .ok out ↔ _ :=
      ihc (some m) taken out
    simp only [enterAll, bind_eq_ok_iff, Member.enter_eq_ok_iff, hc, ihr, withParents, labels,
      List.map_cons, List.map_append, List.nodup_cons, List.nodup_append, List.forall_mem_cons,
      List.forall_mem_append]
    constructor
    · rintro ⟨_, ⟨hm, hmt, rfl⟩, _, ⟨hpc, hnc, hdc, rfl⟩, hpr, hnr, hdr, rfl⟩
      simp only [List.mem_append, List.mem_cons, List.mem_reverse, not_or] at hdc hdr
      refine ⟨⟨by simpa using hm, hpc, hpr⟩, ⟨?_, hnc, hnr, ?_⟩, ⟨hmt, ?_, ?_⟩, ?_⟩
      · intro h
        rcases List.mem_append.1 h with h | h
        · exact (hdc _ h).1 rfl
        · exact (hdr _ h).2.1 rfl
      · rintro n hn n' hn' rfl
        exact (hdr _ hn').1 hn
      · exact fun n hn => (hdc n hn).2
      · exact fun n hn => (hdr n hn).2.2
      · simp
    · rintro ⟨⟨hm, hpc, hpr⟩, ⟨hmcr, hnc, hnr, hcr⟩, ⟨hmt, hct, hrt⟩, rfl⟩
      simp only [List.mem_append, not_or] at hmcr
      refine ⟨_, ⟨by simpa using hm, hmt, rfl⟩, _, ⟨hpc, hnc, fun n hn => ?_, rfl⟩, hpr, hnr,
        fun n hn => ?_, by simp⟩
      · simp only [List.mem_cons, not_or]
        exact ⟨fun heq => hmcr.1 (heq ▸ hn), hct n hn⟩
      · simp only [List.mem_append, List.mem_reverse, List.mem_cons, not_or]
        exact ⟨fun h => hcr n h n hn rfl, fun heq => hmcr.2 (heq ▸ hn), hrt n hn⟩

/-- A forest is accepted exactly if it is sound, and it is kept as it is. -/
theorem Schema.ofForest_eq_ok_iff {f : Forest Member} {s : Schema} :
    Schema.ofForest f = .ok s ↔ s.forest = f ∧ s.Sound := by
  have henter (out : List String) := enterAll_eq_ok_iff f none [] out
  constructor
  · intro h
    cases hout : enterAll true [] f with
    | error e => simp [Schema.ofForest, hout] at h
    | ok out =>
      obtain ⟨hjoin, hnames, -, -⟩ := (henter out).1 hout
      cases f with
      | nil => simp [Schema.ofForest, hout] at h
      | cons m cs rest =>
        simp only [Schema.ofForest, hout, Except.ok.injEq] at h
        subst h
        exact ⟨rfl, hnames, hjoin, by simp⟩
  · rintro ⟨rfl, hs⟩
    have hout := (henter _).2 ⟨hs.join_isSome, hs.names_nodup, by simp, rfl⟩
    rcases s with ⟨_ | ⟨m, cs, rest⟩⟩
    · exact absurd rfl hs.ne_nil
    · simp only [Option.isNone_none] at hout
      simp [Schema.ofForest, hout]

/-!
## Finding nodes by name

In a sound schema a name finds exactly the node that has it, and what is said of a name through the
way down to its node agrees with the forest.
-/

namespace Schema

theorem map_label_entries (s : Schema) : s.entries.map Forest.Placed.label = s.forest.labels :=
  map_label_placedFrom none 0 s.forest

theorem map_name_entries (s : Schema) : s.entries.map Entry.name = s.names := by
  rw [names, ← map_label_entries, List.map_map]
  rfl

theorem label_mem_of_mem_entries {s : Schema} {e : Entry} (h : e ∈ s.entries) :
    e.label ∈ s.forest.labels := by
  rw [← map_label_entries]
  exact List.mem_map_of_mem h

theorem mem_names_iff {s : Schema} {name : String} :
    name ∈ s.names ↔ ∃ e ∈ s.entries, Entry.name e = name := by
  rw [← map_name_entries, List.mem_map]

theorem node?_eq_none_iff {s : Schema} {name : String} : s.node? name = none ↔ name ∉ s.names := by
  simp [node?, mem_names_iff]

theorem contains_iff {s : Schema} {name : String} : s.contains name = true ↔ name ∈ s.names := by
  rw [contains, Option.isSome_iff_ne_none, ne_eq, node?_eq_none_iff, not_not]

theorem name_of_node? {s : Schema} {name : String} {e : Entry} (h : s.node? name = some e) :
    e ∈ s.entries ∧ Entry.name e = name :=
  ⟨List.mem_of_find?_eq_some h, by simpa using List.find?_some h⟩

theorem lookup_eq_ok_iff {s : Schema} {name : String} {e : Entry} :
    s.lookup name = .ok e ↔ s.node? name = some e := by
  cases hn : s.node? name <;> simp [lookup, hn]

theorem lookup_of_not_mem {s : Schema} {name : String} (h : name ∉ s.names) :
    s.lookup name = .error (.unknownTable name (s.suggestion? name)) := by
  simp [lookup, node?_eq_none_iff.2 h]

/-- A path starts at a root and ends at the node of its name. -/
theorem exists_of_path? {s : Schema} {name : String} {path : List Member}
    (h : s.path? name = some path) :
    (∃ root tail, path = root :: tail ∧ root ∈ s.roots) ∧
      ∃ above m, path = above ++ [m] ∧ StandsBelow s.forest above m ∧ m.name = name := by
  obtain ⟨above, m, rfl, hm, hname⟩ := standsBelow_of_path? h
  refine ⟨?_, above, m, rfl, hm, by simpa using hname⟩
  cases above with
  | nil => exact ⟨m, [], rfl, hm.mem_roots rfl⟩
  | cons root above =>
    exact ⟨root, above ++ [m], rfl, (hm.upTo (List.nil_append _).symm).mem_roots rfl⟩

/-- Names in use have a path, and no others. -/
theorem path?_isSome {s : Schema} {name : String} : (s.path? name).isSome ↔ name ∈ s.names := by
  rw [Option.isSome_iff_ne_none, path?, ne_eq, path?_eq_none_iff, names]
  simp

theorem rootOf?_eq_bind (s : Schema) (name : String) :
    s.rootOf? name = (s.path? name).bind List.head? :=
  rootOf?_eq_bind_path? _ _

namespace Sound

variable {s : Schema} (hs : s.Sound)

include hs

/-- Names are distinct, so a node is known by its name. -/
theorem entry_eq_of_name {e e' : Entry} (he : e ∈ s.entries) (he' : e' ∈ s.entries)
    (hname : Entry.name e = Entry.name e') : e = e' :=
  List.inj_on_of_nodup_map (by rw [map_name_entries]; exact hs.names_nodup) he he' hname

/-- A name finds exactly the node that has it. -/
theorem node?_eq_some_iff {name : String} {e : Entry} :
    s.node? name = some e ↔ e ∈ s.entries ∧ Entry.name e = name := by
  refine ⟨name_of_node?, fun ⟨he, hname⟩ => ?_⟩
  cases hn : s.node? name with
  | none => exact absurd (mem_names_iff.2 ⟨e, he, hname⟩) (node?_eq_none_iff.1 hn)
  | some e' =>
    obtain ⟨he', hname'⟩ := name_of_node? hn
    rw [hs.entry_eq_of_name he he' (hname.trans hname'.symm)]

/-- The path of a node is the way down to it. -/
theorem path?_of_standsBelow {above : List Member} {m : Member}
    (h : StandsBelow s.forest above m) : s.path? m.name = some (above ++ [m]) :=
  Forest.path?_of_standsBelow h hs.names_nodup

/-- No name comes twice on a path. -/
theorem nodup_of_path? {name : String} {path : List Member} (h : s.path? name = some path) :
    (path.map Member.name).Nodup := by
  obtain ⟨above, m, rfl, hm, -⟩ := standsBelow_of_path? h
  exact hs.names_nodup.sublist (hm.sublist_labels.map Member.name)

/-- Every node on a path ends the path up to it. -/
theorem path?_upTo {name : String} {q r : List Member} {x : Member}
    (h : s.path? name = some (q ++ x :: r)) : s.path? x.name = some (q ++ [x]) := by
  obtain ⟨above, m, heq, hm, -⟩ := standsBelow_of_path? h
  rcases List.eq_nil_or_concat' r with rfl | ⟨r, y, rfl⟩
  · obtain ⟨rfl, hx⟩ := List.append_inj' heq rfl
    obtain rfl : x = m := by simpa using hx
    exact hs.path?_of_standsBelow hm
  · rw [← List.cons_append, ← List.append_assoc] at heq
    obtain ⟨habove, -⟩ := List.append_inj' heq rfl
    exact hs.path?_of_standsBelow (hm.upTo habove.symm)

end Sound
end Schema

end JoinForest
