import JoinForest.Proofs.Schema.Refusals
import JoinForest.Proofs.Text.FuzzyMatch
import Mathlib.Data.List.Induction

set_option autoImplicit false

/-!
# Suggestions for unknown names

A name that no node has is reported with the closest name that one has. The search goes through the
names in alphabetical order and keeps the best one so far, which a later one has to surpass
(`isFirstBest_foldl`). One matcher looks at all of them, and what it keeps from one name can raise
the score of a later one: the search goes by the score that a name has when its turn comes
(`Schema.searchScore?`), not by the score of two texts (`FuzzyMatcher.score?`).

There is a suggestion exactly if some name has a score, it is the best one by the scores of the
search, and it is the best one by the scores of the texts if its own score has not been raised
(`Reachable.suggestion_outcome`). A score that has been raised can bring a name in front of one that
is as close or closer (`Sample.suggestion_raised`).
-/

namespace JoinForest

/-! ## The best of rated candidates -/

/-- What is kept of the best candidate so far and the next one, which has to surpass it. -/
def better (best : Option (Int × String)) (next : String × Option Int) : Option (Int × String) :=
  match next.2, best with
  | none, _ => best
  | some score, none => some (score, next.1)
  | some score, some (bestScore, _) => if bestScore < score then some (score, next.1) else best

theorem best?_eq (rated : List (String × Option Int)) :
    best? rated = (rated.foldl better none).map (·.2) := rfl

/-- The first candidate of the highest score, with this score; none if there is no score. -/
def IsFirstBest (rated : List (String × Option Int)) : Option (Int × String) → Prop
  | none => ∀ r ∈ rated, r.2 = none
  | some (score, candidate) => ∃ before after, rated = before ++ (candidate, some score) :: after ∧
      (∀ r ∈ before, ∀ k, r.2 = some k → k < score) ∧ ∀ r ∈ after, ∀ k, r.2 = some k → k ≤ score

/-- One more candidate. -/
theorem IsFirstBest.better {rated : List (String × Option Int)} {best : Option (Int × String)}
    (h : IsFirstBest rated best) (next : String × Option Int) :
    IsFirstBest (rated ++ [next]) (better best next) := by
  obtain ⟨name, closeness⟩ := next
  rcases best with _ | ⟨bestScore, candidate⟩
  · rcases closeness with _ | score
    · exact List.forall_mem_append.2 ⟨h, by simp⟩
    · refine ⟨rated, [], rfl, ?_, by simp⟩
      intro r hr k hk
      rw [h r hr] at hk
      cases hk
  · obtain ⟨before, after, rfl, hbefore, hafter⟩ := h
    have hkept (hnext : ∀ k, closeness = some k → k ≤ bestScore) :
        IsFirstBest (before ++ (candidate, some bestScore) :: after ++ [(name, closeness)])
          (some (bestScore, candidate)) := by
      refine ⟨before, after ++ [(name, closeness)], by simp, hbefore, ?_⟩
      exact List.forall_mem_append.2 ⟨hafter, by simpa using hnext⟩
    rcases closeness with _ | score
    · exact hkept (by simp)
    · by_cases hlt : bestScore < score
      · simp only [JoinForest.better, hlt, if_true]
        refine ⟨_, [], rfl, ?_, by simp⟩
        intro r hr k hk
        rcases List.mem_append.1 hr with hr | hr
        · exact Int.lt_trans (hbefore r hr k hk) hlt
        · rcases List.mem_cons.1 hr with rfl | hr
          · obtain rfl := Option.some.inj hk
            exact hlt
          · exact Int.lt_of_le_of_lt (hafter r hr k hk) hlt
      · simp only [JoinForest.better, hlt, if_false]
        apply hkept
        intro k hk
        obtain rfl := Option.some.inj hk
        exact Int.not_lt.1 hlt

/-- What is kept in the end is the first of the best candidates. -/
theorem isFirstBest_foldl (rated : List (String × Option Int)) :
    IsFirstBest rated (rated.foldl better none) := by
  induction rated using List.reverseRecOn with
  | nil => simp [IsFirstBest]
  | append_singleton rated next ih =>
    rw [List.foldl_append]
    exact ih.better next

/-! ## Scores of a search -/

namespace Schema

variable {s : Schema} {name : String}

/-- The names in alphabetical order. -/
def alphabet (s : Schema) : List String := s.entriesByName.map Entry.name

/-- The matcher of a search when it comes to a candidate: it has looked at all names before. -/
def matcherAt (s : Schema) (name candidate : String) : FuzzyMatcher :=
  FuzzyMatcher.after {} name (s.alphabet.filter (· < candidate))

/-- The score by which the search goes when it comes to a candidate. -/
def searchScore? (s : Schema) (name candidate : String) : Option Int :=
  ((s.matcherAt name candidate).closeness name candidate).1

theorem mem_alphabet_iff {candidate : String} : candidate ∈ s.alphabet ↔ candidate ∈ s.names := by
  rw [alphabet, ← map_name_entries]
  exact (s.entriesByName_perm.map Entry.name).mem_iff

/-- The search finds a score for the names that have one. -/
theorem searchScore?_eq_none_iff {c : String} :
    s.searchScore? name c = none ↔ FuzzyMatcher.score? name c = none :=
  FuzzyMatcher.closeness_eq_none_iff _

/-- The search finds no score below that of the texts. -/
theorem le_searchScore? {c : String} {k : Int} (h : FuzzyMatcher.score? name c = some k) :
    ∃ l, s.searchScore? name c = some l ∧ k ≤ l :=
  FuzzyMatcher.le_closeness
    (FuzzyMatcher.runsNonneg_after (FuzzyMatcher.new_le_iff.1 fun _ => Int.le_refl _) _ _) h

/-- The search finds the score of the texts if no name before has a score. -/
theorem searchScore?_of_first {c : String}
    (h : ∀ d ∈ s.names, d < c → FuzzyMatcher.score? name d = none) :
    s.searchScore? name c = FuzzyMatcher.score? name c := by
  have hnew : s.matcherAt name c = {} := by
    refine FuzzyMatcher.after_of_none ?_
    intro d hd
    obtain ⟨hd, hlt⟩ := List.mem_filter.1 hd
    exact h d (mem_alphabet_iff.1 hd) (by simpa using hlt)
  rw [searchScore?, hnew, FuzzyMatcher.fst_closeness, FuzzyMatcher.score?]

/-- A name of the schema whose score no other one surpasses, and the alphabetically first of those
that have this score. -/
structure IsBest (s : Schema) (score? : String → Option Int) (c : String) : Prop where
  mem : c ∈ s.names
  first : ∃ k, score? c = some k ∧ (∀ d ∈ s.names, ∀ l, score? d = some l → l ≤ k) ∧
    ∀ d ∈ s.names, score? d = some k → c ≤ d

/-- There is at most one best name. -/
theorem IsBest.unique {score? : String → Option Int} {c d : String} (hc : s.IsBest score? c)
    (hd : s.IsBest score? d) : c = d := by
  obtain ⟨k, hk, hmax, hfirst⟩ := hc.first
  obtain ⟨l, hl, hmax', hfirst'⟩ := hd.first
  obtain rfl : k = l := Int.le_antisymm (hmax' c hc.mem _ hk) (hmax d hd.mem _ hl)
  exact String.le_antisymm (hfirst d hd.mem hl) (hfirst' c hc.mem hk)

/-- The best name of the search is the best one by the scores of the texts, if the search has not
raised its own score. -/
theorem IsBest.of_searchScore? {c : String} (h : s.IsBest (s.searchScore? name) c)
    (hown : s.searchScore? name c = FuzzyMatcher.score? name c) :
    s.IsBest (FuzzyMatcher.score? name) c := by
  obtain ⟨k, hk, hmax, hfirst⟩ := h.first
  refine ⟨h.mem, k, hown.symm.trans hk, ?_, ?_⟩
  · intro d hd l hl
    obtain ⟨l', hl', hle⟩ := s.le_searchScore? hl
    exact Int.le_trans hle (hmax d hd l' hl')
  · intro d hd hdk
    obtain ⟨l, hl, hle⟩ := s.le_searchScore? hdk
    obtain rfl : k = l := Int.le_antisymm hle (hmax d hd l hl)
    exact hfirst d hd hl

/-- What is suggested for a name, and how the scores by which the search goes stand to those of the
texts. -/
structure Suggests (s : Schema) (name : String) (suggestion : Option String) : Prop where
  /-- No name is suggested exactly if none has a score. -/
  none_iff : suggestion = none ↔ ∀ c ∈ s.names, FuzzyMatcher.score? name c = none
  /-- The suggested name is the best one by the scores of the search. -/
  best_of_search : ∀ c, suggestion = some c → s.IsBest (s.searchScore? name) c
  /-- It is the best one by the scores of the texts if its own score has not been raised. -/
  best : ∀ c, suggestion = some c → s.searchScore? name c = FuzzyMatcher.score? name c →
    s.IsBest (FuzzyMatcher.score? name) c
  /-- The search has a score for the names that have one, and never a lower one. -/
  score_le : ∀ c ∈ s.names, (s.searchScore? name c = none ↔ FuzzyMatcher.score? name c = none) ∧
    ∀ k, FuzzyMatcher.score? name c = some k → ∃ l, s.searchScore? name c = some l ∧ k ≤ l
  /-- The search raises no score before it has found one. -/
  score_of_first : ∀ c ∈ s.names, (∀ d ∈ s.names, d < c → FuzzyMatcher.score? name d = none) →
    s.searchScore? name c = FuzzyMatcher.score? name c
  /-- A suggested name finds a node. -/
  retry : ∀ c, suggestion = some c → ∃ e, s.lookup c = .ok e ∧ Entry.name e = c

/-- There is at most one such suggestion. -/
theorem Suggests.unique {suggestion other : Option String} (h : s.Suggests name suggestion)
    (h' : s.Suggests name other) : suggestion = other := by
  rcases suggestion with _ | c
  · exact (h'.none_iff.2 (h.none_iff.1 rfl)).symm
  · rcases other with _ | d
    · exact h.none_iff.2 (h'.none_iff.1 rfl)
    · rw [(h.best_of_search c rfl).unique (h'.best_of_search d rfl)]

/-- What every look at a name reports of one that no node has. -/
structure ReportsUnknown (s : Schema) (name : String) (e : SchemaError) : Prop where
  lookup : s.lookup name = .error e
  path : s.path name = .error e
  rootOf : s.rootOf name = .error e
  subtree : s.subtree name = .error e
  parentOf : s.parentOf name = .error e
  edgeAbove : s.edgeAbove name = .error e
  childrenOf : s.childrenOf name = .error e
  detach : s.detach name = .error e

theorem reportsUnknown_of_not_mem (h : name ∉ s.names) :
    s.ReportsUnknown name (.unknownTable name (s.suggestion? name)) := by
  have hlookup := lookup_of_not_mem h
  have hpath : s.path? name = none := by
    rw [← Option.not_isSome_iff_eq_none, path?_isSome]
    exact h
  have hroot : s.rootOf? name = none := by rw [rootOf?_eq_bind, hpath, Option.bind_none]
  refine ⟨hlookup, ?_, ?_, ?_, ?_, ?_, ?_, ?_⟩
  · rw [Schema.path, hpath, orUnknown]
  · rw [Schema.rootOf, hroot, orUnknown]
  · rw [Schema.subtree, subtree?, find?_of_not_mem h, Option.map_none, orUnknown]
  · rw [Schema.parentOf, hlookup]
    rfl
  · rw [Schema.edgeAbove, hlookup]
    rfl
  · rw [Schema.childrenOf, hlookup]
    rfl
  · exact detach_of_not_mem h

namespace Sound

variable (hs : s.Sound)

include hs

theorem alphabet_pairwise : s.alphabet.Pairwise (· < ·) :=
  List.pairwise_map.2 hs.entriesByName_pairwise

/-- The names in front of a name are those that are alphabetically before it. -/
theorem filter_alphabet {before after : List String} {candidate : String}
    (h : s.alphabet = before ++ candidate :: after) :
    s.alphabet.filter (· < candidate) = before := by
  have hpairwise := hs.alphabet_pairwise
  rw [h, List.pairwise_append] at hpairwise
  obtain ⟨-, hafter, hbefore⟩ := hpairwise
  rw [h, List.filter_append, List.filter_eq_self.2, List.filter_eq_nil_iff.2, List.append_nil]
  · intro d hd
    rcases List.mem_cons.1 hd with rfl | hd
    · simp
    · simpa using String.lt_asymm (List.rel_of_pairwise_cons hafter hd)
  · intro d hd
    simpa using hbefore d hd candidate List.mem_cons_self

/-- The search goes by the score of every name when its turn comes. -/
theorem rate_eq_map (name : String) {before rest : List String} (h : s.alphabet = before ++ rest) :
    (FuzzyMatcher.after {} name before).rate name rest =
      rest.map fun candidate => (candidate, s.searchScore? name candidate) := by
  induction rest generalizing before with
  | nil => rfl
  | cons candidate rest ih =>
    have hmatcher : s.matcherAt name candidate = FuzzyMatcher.after {} name before := by
      rw [matcherAt, hs.filter_alphabet h]
    have hsplit : s.alphabet = (before ++ [candidate]) ++ rest := by simpa using h
    have hrest := ih hsplit
    rw [FuzzyMatcher.after_concat] at hrest
    rw [List.map_cons, searchScore?, hmatcher, ← hrest]
    rfl

/-- The first best of all names is the best one, and the alphabetically first of those with its
score. -/
theorem isBest_of_isFirstBest {score? : String → Option Int} {score : Int} {candidate : String}
    (h : IsFirstBest (s.alphabet.map fun c => (c, score? c)) (some (score, candidate))) :
    s.IsBest score? candidate := by
  obtain ⟨before, after, hsplit, hbefore, hafter⟩ := h
  obtain ⟨front, back, halphabet, rfl, hback⟩ := List.map_eq_append_iff.1 hsplit
  obtain ⟨c, later, rfl, hc, rfl⟩ := List.map_eq_cons_iff.1 hback
  obtain ⟨rfl, hscore⟩ := Prod.mk.inj hc
  have hcases {d : String} (hd : d ∈ s.names) : d ∈ front ∨ d = c ∨ d ∈ later := by
    rw [← mem_alphabet_iff, halphabet] at hd
    simpa using hd
  have hfront {d : String} (hd : d ∈ front) : ∀ k, score? d = some k → k < score :=
    hbefore (d, score? d) (List.mem_map_of_mem hd)
  have hlater {d : String} (hd : d ∈ later) : ∀ k, score? d = some k → k ≤ score :=
    hafter (d, score? d) (List.mem_map_of_mem hd)
  refine ⟨?_, score, hscore, ?_, ?_⟩
  · rw [← mem_alphabet_iff, halphabet]
    exact List.mem_append_right _ List.mem_cons_self
  · intro d hd k hk
    rcases hcases hd with hd | rfl | hd
    · exact Int.le_of_lt (hfront hd k hk)
    · rw [hscore] at hk
      exact Int.le_of_eq (Option.some.inj hk).symm
    · exact hlater hd k hk
  · intro d hd hk
    rcases hcases hd with hd | rfl | hd
    · exact absurd (hfront hd score hk) (Int.lt_irrefl score)
    · exact String.le_refl d
    · have hpairwise := hs.alphabet_pairwise
      rw [halphabet] at hpairwise
      apply String.not_lt.1
      apply String.lt_asymm
      exact List.rel_of_pairwise_cons (List.pairwise_append.1 hpairwise).2.1 hd

/-- The search finds no name exactly if none has a score, and else the best one. -/
theorem suggestion?_cases (name : String) :
    s.suggestion? name = none ∧ (∀ c ∈ s.names, s.searchScore? name c = none) ∨
      ∃ c, s.suggestion? name = some c ∧ s.IsBest (s.searchScore? name) c := by
  have hrated : FuzzyMatcher.rate {} name s.alphabet =
      s.alphabet.map fun candidate => (candidate, s.searchScore? name candidate) := by
    have hsplit : s.alphabet = [] ++ s.alphabet := rfl
    exact hs.rate_eq_map name hsplit
  have hbest := isFirstBest_foldl (FuzzyMatcher.rate {} name s.alphabet)
  have hsuggestion : s.suggestion? name =
      ((FuzzyMatcher.rate {} name s.alphabet).foldl better none).map (·.2) := best?_eq _
  rw [hsuggestion]
  generalize (FuzzyMatcher.rate {} name s.alphabet).foldl better none = best at hbest ⊢
  rw [hrated] at hbest
  rcases best with _ | ⟨score, candidate⟩
  · refine .inl ⟨rfl, ?_⟩
    intro c hc
    exact hbest (c, _) (List.mem_map_of_mem (mem_alphabet_iff.2 hc))
  · exact .inr ⟨candidate, rfl, hs.isBest_of_isFirstBest hbest⟩

/-- What is suggested has the best score in the search. -/
theorem isBest_of_suggestion? (c : String) (h : s.suggestion? name = some c) :
    s.IsBest (s.searchScore? name) c := by
  rcases hs.suggestion?_cases name with ⟨hnone, -⟩ | ⟨d, hd, hbest⟩
  · rw [hnone] at h
    cases h
  · obtain rfl := Option.some.inj (hd.symm.trans h)
    exact hbest

/-- The search finds the suggestion. -/
theorem suggests_suggestion? (name : String) : s.Suggests name (s.suggestion? name) where
  none_iff := by
    simp only [← searchScore?_eq_none_iff (s := s)]
    rcases hs.suggestion?_cases name with ⟨hnone, hscores⟩ | ⟨c, hc, hbest⟩
    · exact iff_of_true hnone hscores
    · obtain ⟨k, hk, -⟩ := hbest.first
      refine iff_of_false (by simp [hc]) fun hscores => ?_
      rw [hscores c hbest.mem] at hk
      cases hk
  best_of_search := hs.isBest_of_suggestion?
  best := by
    intro c hc hown
    exact (hs.isBest_of_suggestion? c hc).of_searchScore? hown
  score_le := fun _ _ => ⟨searchScore?_eq_none_iff, fun _ => s.le_searchScore?⟩
  score_of_first := fun _ _ => searchScore?_of_first
  retry := by
    intro c hc
    obtain ⟨e, he, hname⟩ := mem_names_iff.1 (hs.isBest_of_suggestion? c hc).mem
    exact ⟨e, lookup_eq_ok_iff.2 (hs.node?_eq_some_iff.2 ⟨he, hname⟩), hname⟩

end Sound
end Schema

/-- Every look at a name that no node has reports it with the one name that is to be suggested. -/
theorem Reachable.suggestion_outcome {s : Schema} (hs : Reachable s) {name : String}
    (hname : name ∉ s.names) :
    ∃ suggestion, s.ReportsUnknown name (.unknownTable name suggestion) ∧
      s.Suggests name suggestion ∧ ∀ other, s.Suggests name other → other = suggestion := by
  have hsuggests := hs.sound.suggests_suggestion? name
  refine ⟨s.suggestion? name, Schema.reportsUnknown_of_not_mem hname, hsuggests, ?_⟩
  intro other hother
  exact hother.unique hsuggests

/-- A name that is the start of another one. -/
theorem Sample.suggestion_prod : Reachable galaxySchema ∧ "prod" ∉ galaxySchema.names ∧
    ∃ suggestion, galaxySchema.ReportsUnknown "prod" (.unknownTable "prod" suggestion) ∧
      galaxySchema.Suggests "prod" suggestion ∧
      ∀ other, galaxySchema.Suggests "prod" other → other = suggestion := by
  have hunknown : "prod" ∉ galaxySchema.names := by decide
  exact ⟨reachable_galaxy, hunknown, Reachable.suggestion_outcome reachable_galaxy hunknown⟩

namespace Sample

/-- Two tables with an identifier each, joined by it. -/
def pairSchema (top below : String) : Schema :=
  ⟨.tree ⟨.table ⟨top, ["id"], ["id"], []⟩, none⟩ (.tree ⟨.table ⟨below, ["id"], ["id"], []⟩,
    some ⟨.columns [(⟨top, "id"⟩, ⟨below, "id"⟩)], .leftOuter, true⟩⟩ .nil)⟩

/-- The override that joins two tables by their identifiers. -/
def pairOverrides (top below : String) : Overrides :=
  Overrides.empty.insert top below ⟨.columns [("id", "id")], none⟩

theorem lookup_pairSchema {top below name : String} (hle : top ≤ below) (htop : name ≠ top)
    (hbelow : name ≠ below) : (pairSchema top below).lookup name =
      .error (.unknownTable name (closest? name [top, below])) := by
  have halphabet : (pairSchema top below).alphabet = [top, below] := by
    have hsorted : (pairSchema top below).entries.Pairwise
        fun a b => decide (Entry.name a ≤ Entry.name b) = true :=
      List.pairwise_pair.2 (decide_eq_true hle)
    rw [Schema.alphabet, Schema.entriesByName, List.mergeSort_of_pairwise hsorted]
    rfl
  have hsuggestion : (pairSchema top below).suggestion? name = closest? name [top, below] :=
    congrArg (closest? name) halphabet
  rw [Schema.lookup_of_not_mem, hsuggestion]
  simp [Schema.names, pairSchema, Forest.tree, Forest.labels, Member.name, Source.name, htop,
    hbelow]

/-- The search for a name raises the score of the second of two tables, which is suggested: once
although the first one is as close, and once although the first one is closer. -/
theorem suggestion_raised :
    (Reachable (pairSchema "aa_a" "aa_bb") ∧ "aa_" ∉ (pairSchema "aa_a" "aa_bb").names ∧
      (pairSchema "aa_a" "aa_bb").lookup "aa_" = .error (.unknownTable "aa_" (some "aa_bb")) ∧
      FuzzyMatcher.score? "aa_" "aa_a" = some 71 ∧ FuzzyMatcher.score? "aa_" "aa_bb" = some 71 ∧
      ¬(pairSchema "aa_a" "aa_bb").IsBest (FuzzyMatcher.score? "aa_") "aa_bb") ∧
    (Reachable (pairSchema "aA__" "a_a_") ∧ "aa_" ∉ (pairSchema "aA__" "a_a_").names ∧
      (pairSchema "aA__" "a_a_").lookup "aa_" = .error (.unknownTable "aa_" (some "a_a_")) ∧
      FuzzyMatcher.score? "aa_" "aA__" = some 71 ∧ FuzzyMatcher.score? "aa_" "a_a_" = some 70 ∧
      ¬(pairSchema "aA__" "a_a_").IsBest (FuzzyMatcher.score? "aa_") "a_a_") := by
  have hfirst : FuzzyMatcher.score? "aa_" "aa_a" = some 71 := by decide +kernel
  have hsecond : FuzzyMatcher.score? "aa_" "aa_bb" = some 71 := by decide +kernel
  have hcloser : FuzzyMatcher.score? "aa_" "aA__" = some 71 := by decide +kernel
  have hfarther : FuzzyMatcher.score? "aa_" "a_a_" = some 70 := by decide +kernel
  have htie : closest? "aa_" ["aa_a", "aa_bb"] = some "aa_bb" := by decide +kernel
  have hraised : closest? "aa_" ["aA__", "a_a_"] = some "a_a_" := by decide +kernel
  have hbuilt (top below : String) (h : Schema.build ((pairSchema top below).forest.map
      Member.source) (pairOverrides top below) {} = .ok (pairSchema top below)) :
      Reachable (pairSchema top below) := .build h
  refine ⟨⟨hbuilt "aa_a" "aa_bb" rfl, by decide, ?_, hfirst, hsecond, ?_⟩,
    hbuilt "aA__" "a_a_" rfl, by decide, ?_, hcloser, hfarther, ?_⟩
  · rw [lookup_pairSchema (by decide) (by decide) (by decide), htie]
  · rintro ⟨-, k, hk, -, hleast⟩
    obtain rfl := Option.some.inj (hsecond.symm.trans hk)
    exact absurd (hleast "aa_a" (by decide) hfirst) (by decide)
  · rw [lookup_pairSchema (by decide) (by decide) (by decide), hraised]
  · rintro ⟨-, k, hk, hmax, -⟩
    obtain rfl := Option.some.inj (hfarther.symm.trans hk)
    exact absurd (hmax "aA__" (by decide) 71 hcloser) (by decide)

end Sample

end JoinForest
