import JoinForest.Text.FuzzyMatch
import Mathlib.Data.List.Forall2
import Mathlib.Order.Lattice

set_option autoImplicit false

/-!
# Matchers that have been used before

A matcher keeps its table from one match to the next. Whether there is a match does not depend on
what the table holds (`FuzzyMatcher.isSome_score`), but its score does: longer runs in the table can
only make it higher (`FuzzyMatcher.Le.score`). A new matcher has the shortest runs there are
(`FuzzyMatcher.new_le_iff`), so that one that has been used finds at least the scores of a new one
(`FuzzyMatcher.le_closeness`).
-/

namespace JoinForest

namespace FuzzyMatch

/-! ## Places of letters -/

/-- The leftmost places lie in the text, one behind the other. -/
theorem leftmost_bounds {same : Char → Char → Bool} {start : Nat} {text pattern : List Char}
    {places : List Nat} (h : leftmost same start text pattern = some places) :
    places.Pairwise (· < ·) ∧ ∀ j ∈ places, start ≤ j ∧ j < start + text.length := by
  fun_induction leftmost same start text pattern generalizing places with
  | case1 =>
    obtain rfl := Option.some.inj h
    simp
  | case2 => cases h
  | case3 start c text p pattern _ ih =>
    obtain ⟨later, hlater, rfl⟩ := Option.map_eq_some_iff.1 h
    obtain ⟨hpairwise, hbounds⟩ := ih hlater
    refine ⟨List.pairwise_cons.2 ⟨?_, hpairwise⟩, List.forall_mem_cons.2 ⟨?_, ?_⟩⟩
    · intro j hj
      have hj := hbounds j hj
      omega
    · simp
    · intro j hj
      have hj := hbounds j hj
      simp only [List.length_cons]
      omega
  | case4 start c text p pattern _ ih =>
    obtain ⟨hpairwise, hbounds⟩ := ih h
    refine ⟨hpairwise, ?_⟩
    intro j hj
    have hj := hbounds j hj
    simp only [List.length_cons]
    omega

/-! ## Cells of a table -/

/-- The cell at a position, which is blank outside of the table. -/
def cellAt (table : Array Cell) (i : Nat) : Cell := table.getD i .blank

theorem cellAt_of_size_le {table : Array Cell} {i : Nat} (h : table.size ≤ i) :
    cellAt table i = .blank := by
  simp [cellAt, Array.getD, Nat.not_lt.2 h]

theorem cellAt_of_lt {table : Array Cell} {i : Nat} (h : i < table.size) :
    cellAt table i = table[i] := by
  simp [cellAt, Array.getD, h]

/-- Putting a cell at a position changes the table there only. -/
theorem cellAt_setIfInBounds (table : Array Cell) (k i : Nat) (c : Cell) :
    cellAt (table.setIfInBounds k c) i =
      if k = i ∧ i < table.size then c else cellAt table i := by
  by_cases hi : i < table.size
  · rw [cellAt_of_lt (by simpa using hi), Array.getElem_setIfInBounds hi, cellAt_of_lt hi]
    simp [hi]
  · rw [cellAt_of_size_le (by simpa using hi), cellAt_of_size_le (by simpa using hi)]
    simp [hi]

/-- A cell is at least as good as another one in all that it holds. -/
structure Cell.Le (a b : Cell) : Prop where
  ending : a.ending ≤ b.ending
  gapped : a.gapped ≤ b.gapped
  run : a.run ≤ b.run

theorem Cell.Le.refl (a : Cell) : a.Le a := ⟨Int.le_refl _, Int.le_refl _, Int.le_refl _⟩

/-- One table stays below another one of its size: its runs are nowhere longer, and where both are
settled its cells are nowhere better. -/
structure Below (settled : Nat → Prop) (table table' : Array Cell) : Prop where
  size_eq : table'.size = table.size
  run_le : ∀ i, (cellAt table i).run ≤ (cellAt table' i).run
  cell_le : ∀ i, settled i → (cellAt table i).Le (cellAt table' i)

namespace Below

variable {settled : Nat → Prop} {table table' : Array Cell}

theorem mono {settled' : Nat → Prop} (h : Below settled table table')
    (hsettled : ∀ i, settled' i → settled i) : Below settled' table table' :=
  ⟨h.size_eq, h.run_le, fun i hi => h.cell_le i (hsettled i hi)⟩

/-- Putting a cell that is no better into the lower table settles its position. -/
theorem set (h : Below settled table table') (k : Nat) {c c' : Cell} (hc : c.Le c') :
    Below (fun i => settled i ∨ i = k) (table.setIfInBounds k c) (table'.setIfInBounds k c') := by
  refine ⟨by simpa using h.size_eq, ?_, ?_⟩
  · intro i
    rw [cellAt_setIfInBounds, cellAt_setIfInBounds, h.size_eq]
    split
    · exact hc.run
    · exact h.run_le i
  · intro i hi
    rw [cellAt_setIfInBounds, cellAt_setIfInBounds, h.size_eq]
    split
    · exact hc
    · next hout =>
      rcases hi with hi | rfl
      · exact h.cell_le i hi
      · have hsize : table.size ≤ i := by simpa using hout
        rw [cellAt_of_size_le hsize, cellAt_of_size_le (h.size_eq ▸ hsize)]
        exact .refl _

/-- Filling a cell from settled ones settles it. -/
theorem fillCell (h : Below settled table table') (setting : Setting) (letter : Char)
    {before here j : Nat} (habove : settled (before + j)) (hleft : settled (here + j)) :
    Below (fun i => settled i ∨ i = here + j + 1)
      (FuzzyMatch.fillCell setting letter before here table j)
      (FuzzyMatch.fillCell setting letter before here table' j) := by
  have ha := h.cell_le _ habove
  have hl := h.cell_le _ hleft
  have hr := h.run_le (here + j + 1)
  obtain ⟨haending, hagapped, -⟩ := ha
  obtain ⟨hlending, hlgapped, hlrun⟩ := hl
  have hgap : max ((cellAt table (here + j)).ending - 4) ((cellAt table (here + j)).gapped - 1) ≤
      max ((cellAt table' (here + j)).ending - 4) ((cellAt table' (here + j)).gapped - 1) := by
    omega
  simp only [FuzzyMatch.fillCell]
  split
  · have hcell : Cell.Le
        { cellAt table (here + j) with
          run := max (max (cellAt table (here + j)).run (setting.places.getD (j + 1) 0)) 4 }
        { cellAt table' (here + j) with
          run := max (max (cellAt table' (here + j)).run (setting.places.getD (j + 1) 0)) 4 } :=
      ⟨hlending, hlgapped, by dsimp only; omega⟩
    refine ((h.set (here + j) hcell).set (here + j + 1) ?_).mono ?_
    · refine ⟨?_, hgap, hr⟩
      simp only [cellAt] at haending hagapped hlrun ⊢
      omega
    · rintro i (hi | hi)
      · exact .inl (.inl hi)
      · exact .inr hi
  · exact h.set (here + j + 1) ⟨Int.le_refl _, hgap, Int.le_refl _⟩

/-- Filling some cells in a row settles them. -/
theorem foldl_fillCell (h : Below settled table table') (setting : Setting) (letter : Char)
    {before here start : Nat} (hleft : settled (here + start)) (count : Nat)
    (habove : ∀ j, start ≤ j → j < start + count → settled (before + j)) :
    Below (fun i => settled i ∨ here + start ≤ i ∧ i ≤ here + start + count)
      ((List.range' start count).foldl (FuzzyMatch.fillCell setting letter before here) table)
      ((List.range' start count).foldl
        (FuzzyMatch.fillCell setting letter before here) table') := by
  induction count with
  | zero =>
    refine h.mono ?_
    rintro i (hi | ⟨hle, hge⟩)
    · exact hi
    · obtain rfl : i = here + start := by omega
      exact hleft
  | succ count ih =>
    rw [List.range'_concat, List.foldl_append, List.foldl_append, Nat.one_mul]
    have hrow := ih fun j hle hlt => habove j hle (by omega)
    have habove' : settled (before + (start + count)) :=
      habove (start + count) (by omega) (by omega)
    refine (hrow.fillCell setting letter (.inl habove') (.inr ⟨by omega, by omega⟩)).mono ?_
    rintro i (hi | ⟨hle, hge⟩)
    · exact .inl (.inl hi)
    · by_cases hlast : i = here + (start + count) + 1
      · exact .inr hlast
      · exact .inl (.inr ⟨hle, by omega⟩)

/-- Filling a row settles it from its first match on. -/
theorem fillRow (h : Below settled table table') (setting : Setting) (letter : Char)
    (before here start : Nat) (hleft : settled (here + start))
    (habove : ∀ j, start ≤ j → j ≤ setting.text.size → settled (before + j)) :
    Below (fun i => settled i ∨ here + start ≤ i ∧ i ≤ here + setting.text.size)
      (FuzzyMatch.fillRow setting letter start before here table)
      (FuzzyMatch.fillRow setting letter start before here table') := by
  refine (h.foldl_fillCell setting letter hleft (setting.text.size - start) ?_).mono ?_
  · intro j hle hlt
    exact habove j hle (by omega)
  · rintro i (hi | ⟨hle, hge⟩)
    · exact .inl hi
    · exact .inr ⟨hle, by omega⟩

/-- Filling rows that are settled from some place on keeps them so, and the last row is one of them.
-/
theorem fillRows {lowest : Nat} {setting : Setting} {rows : List (Char × Nat)}
    (hrows : ∀ r ∈ rows, lowest ≤ r.2 ∧ r.2 ≤ setting.text.size) (before here : Nat)
    (h : Below settled table table')
    (hbefore : ∀ j, lowest ≤ j → j ≤ setting.text.size → settled (before + j))
    (hhere : ∀ j, lowest ≤ j → j ≤ setting.text.size → settled (here + j)) :
    ∃ last, (FuzzyMatch.fillRows setting rows before here table).2 = last ∧
      (FuzzyMatch.fillRows setting rows before here table').2 = last ∧
      (∀ j, lowest ≤ j → j ≤ setting.text.size → settled (last + j)) ∧
      Below settled (FuzzyMatch.fillRows setting rows before here table).1
        (FuzzyMatch.fillRows setting rows before here table').1 := by
  induction rows generalizing before here table table' with
  | nil => exact ⟨before, rfl, rfl, hbefore, h⟩
  | cons row rows ih =>
    obtain ⟨letter, start⟩ := row
    obtain ⟨⟨hlowest, hstart⟩, hrows⟩ := List.forall_mem_cons.1 hrows
    have hrow := h.fillRow setting letter before here start (hhere start hlowest hstart)
      fun j hle hge => hbefore j (by omega) hge
    exact ih hrows _ _ (hrow.mono fun i hi => .inl hi) hhere hbefore

end Below

/-- Higher numbers have a higher largest one. -/
theorem largest_le {numbers numbers' : List Int} (h : List.Forall₂ (· ≤ ·) numbers numbers')
    {least least' : Int} (hleast : least ≤ least') :
    largest least numbers ≤ largest least' numbers' := by
  induction h generalizing least least' with
  | nil => exact hleast
  | cons hle _ ih => exact ih (by omega)

/-- The settled end of a row holds nothing better in the lower table. -/
theorem Below.forall₂_row {settled : Nat → Prop} {table table' : Array Cell}
    (h : Below settled table table') {last width first : Nat}
    (hrow : ∀ j, first ≤ j → j < width → settled (last + j)) :
    List.Forall₂ (· ≤ ·)
      ((((table.toList.drop last).take width).drop first).map Cell.ending)
      ((((table'.toList.drop last).take width).drop first).map Cell.ending) := by
  rw [List.forall₂_iff_get]
  refine ⟨by simp [h.size_eq], ?_⟩
  intro i hi hi'
  simp only [List.length_map, List.length_drop, List.length_take, Array.length_toList] at hi hi'
  have hcell := (h.cell_le (last + (first + i)) (hrow _ (by omega) (by omega))).ending
  rw [cellAt_of_lt (by omega), cellAt_of_lt (by omega)] at hcell
  simpa using hcell

/-! ## Runs are counted from zero -/

/-- No run of a table is below zero. -/
def RunsNonneg (table : Array Cell) : Prop := ∀ i, 0 ≤ (cellAt table i).run

namespace RunsNonneg

variable {table : Array Cell}

theorem set (h : RunsNonneg table) (k : Nat) {c : Cell} (hc : 0 ≤ c.run) :
    RunsNonneg (table.setIfInBounds k c) := by
  intro i
  rw [cellAt_setIfInBounds]
  split
  · exact hc
  · exact h i

theorem fillCell (h : RunsNonneg table) (setting : Setting) (letter : Char) (before here j : Nat) :
    RunsNonneg (FuzzyMatch.fillCell setting letter before here table j) := by
  simp only [FuzzyMatch.fillCell]
  split
  · refine (h.set (here + j) ?_).set (here + j + 1) (h (here + j + 1))
    dsimp only
    omega
  · exact h.set (here + j + 1) (Int.le_refl 0)

/-- Filling rows keeps all runs at zero or above. -/
theorem fillRows (h : RunsNonneg table) (setting : Setting) (rows : List (Char × Nat))
    (before here : Nat) : RunsNonneg (FuzzyMatch.fillRows setting rows before here table).1 := by
  induction rows generalizing before here table with
  | nil => exact h
  | cons row rows ih =>
    refine ih ?_ here before
    exact List.foldlRecOn _ _ h fun _ ht j _ => ht.fillCell setting row.1 before here j

end RunsNonneg

end FuzzyMatch

open FuzzyMatch

namespace FuzzyMatcher

/-- Whether there is a score does not depend on what a matcher has done before. -/
theorem isSome_score (m m' : FuzzyMatcher) (text pattern : String) :
    (m.score text pattern).1.isSome = (m'.score text pattern).1.isSome := by
  simp only [score]
  split <;> rfl

/-- A matcher has nowhere longer runs than another one. -/
def Le (m m' : FuzzyMatcher) : Prop := ∀ i, (cellAt m.cells i).run ≤ (cellAt m'.cells i).run

/-- The cells of the table in which a match starts. -/
theorem cellAt_table (m : FuzzyMatcher) (width leftmost i : Nat) :
    cellAt (m.table width leftmost) i =
      if i < width then .start else if i = width + leftmost ∨ 2 * width ≤ i then .blank
        else cellAt m.cells i := by
  by_cases hi : i < 2 * width
  · rw [cellAt_of_lt (by simpa [table] using hi)]
    simp [table, cellAt, Nat.not_le.2 hi]
  · rw [cellAt_of_size_le (by simpa [table] using hi), if_neg (by omega), if_pos (by omega)]

theorem runsNonneg_table {m : FuzzyMatcher} (h : RunsNonneg m.cells) (width leftmost : Nat) :
    RunsNonneg (m.table width leftmost) := by
  intro i
  rw [cellAt_table]
  split
  · exact Int.le_refl 0
  · split
    · exact Int.le_refl 0
    · exact h i

/-- In the table in which a match starts, the row before the first letter and the leftmost cell of
the next one are settled. -/
theorem Le.below_table {m m' : FuzzyMatcher} (h : m.Le m') (width leftmost : Nat) :
    Below (fun i => i < width ∨ i = width + leftmost) (m.table width leftmost)
      (m'.table width leftmost) := by
  refine ⟨by simp [table], ?_, ?_⟩
  · intro i
    rw [cellAt_table, cellAt_table]
    split
    · exact Int.le_refl _
    · split
      · exact Int.le_refl _
      · exact h i
  · intro i hsettled
    rw [cellAt_table, cellAt_table]
    split
    · exact .refl _
    · next hlt =>
      have hleft := hsettled.resolve_left hlt
      rw [if_pos (Or.inl hleft), if_pos (Or.inl hleft)]
      exact .refl _

/-- What a match goes by. -/
def settingOf (text pattern : String) : Setting :=
  ⟨text.toList.toArray, (placesOf text.toList).toArray, pattern.toList.any Char.isUpper⟩

/-- The rows that a match of some letters fills from the table in which it starts. -/
def rowsOf (m : FuzzyMatcher) (text pattern : String) (start : Nat) (starts : List Nat) :
    Array Cell × Nat :=
  fillRows (settingOf text pattern) (pattern.toList.zip (start :: starts)) 0
    (settingOf text pattern).width (m.table (settingOf text pattern).width start)

/-- Once the letters are found in their order, the score is the largest one in the last row. -/
theorem score_of_leftmost (m : FuzzyMatcher) {text pattern : String} {start : Nat}
    {starts : List Nat} (h : leftmost (sameLetter (pattern.toList.any Char.isUpper)) 0 text.toList
      pattern.toList = some (start :: starts)) :
    m.score text pattern =
      (some (largest unreachable (((((m.rowsOf text pattern start starts).1.toList.drop
        (m.rowsOf text pattern start starts).2).take (settingOf text pattern).width).drop
          ((start :: starts).getLastD 0)).map Cell.ending)),
        ⟨(m.rowsOf text pattern start starts).1⟩) := by
  rw [score, h]
  rfl

/-- The first letter settles its row from its place on, and the rows of the later letters lie to the
right of it. -/
theorem Le.below_rowsOf {m m' : FuzzyMatcher} (h : m.Le m') {text pattern : String} {start : Nat}
    {starts : List Nat} (hplaces : leftmost (sameLetter (pattern.toList.any Char.isUpper)) 0
      text.toList pattern.toList = some (start :: starts)) :
    ∃ last settled, (m.rowsOf text pattern start starts).2 = last ∧
      (m'.rowsOf text pattern start starts).2 = last ∧
      (∀ j, start ≤ j → j < (settingOf text pattern).width → settled (last + j)) ∧
      Below settled (m.rowsOf text pattern start starts).1
        (m'.rowsOf text pattern start starts).1 := by
  obtain ⟨hpairwise, hbounds⟩ := leftmost_bounds hplaces
  obtain ⟨hafter, -⟩ := List.pairwise_cons.1 hpairwise
  have hsize : (settingOf text pattern).text.size = text.toList.length := by simp [settingOf]
  simp only [Nat.zero_add] at hbounds
  obtain ⟨⟨-, hstart⟩, hstarts⟩ := List.forall_mem_cons.1 hbounds
  rw [← hsize] at hstart hstarts
  have htable := h.below_table (settingOf text pattern).width start
  rw [rowsOf, rowsOf]
  cases hpattern : pattern.toList with
  | nil => simp [hpattern, leftmost] at hplaces
  | cons letter letters =>
    have hfirst := htable.fillRow (settingOf text pattern) letter 0 (settingOf text pattern).width
      start (.inr rfl) fun j _ hj => .inl (by simp only [Setting.width]; omega)
    have hrows : ∀ r ∈ letters.zip starts,
        start ≤ r.2 ∧ r.2 ≤ (settingOf text pattern).text.size := by
      rintro ⟨c, j⟩ hj
      have hj := (List.of_mem_zip hj).2
      exact ⟨Nat.le_of_lt (hafter j hj), Nat.le_of_lt (hstarts j hj).2⟩
    obtain ⟨last, hlast, hlast', hsettled, hbelow⟩ := Below.fillRows hrows
      (settingOf text pattern).width 0 hfirst
      (fun j hle hge => .inr ⟨by omega, by omega⟩)
      (fun j _ hge => .inl (.inl (by simp only [Setting.width]; omega)))
    exact ⟨last, _, hlast, hlast', fun j hle hlt => hsettled j hle (Nat.lt_succ_iff.1 hlt), hbelow⟩

/-- A matcher with longer runs finds no lower score, and has no shorter runs afterwards. -/
theorem Le.score {m m' : FuzzyMatcher} (h : m.Le m') (text pattern : String) :
    (∀ k, (m.score text pattern).1 = some k → ∃ l, (m'.score text pattern).1 = some l ∧ k ≤ l) ∧
      (m.score text pattern).2.Le (m'.score text pattern).2 := by
  cases hplaces : leftmost (sameLetter (pattern.toList.any Char.isUpper)) 0 text.toList
      pattern.toList with
  | none => simpa [FuzzyMatcher.score, hplaces] using h
  | some places =>
    cases places with
    | nil => simpa [FuzzyMatcher.score, hplaces] using h
    | cons start starts =>
      obtain ⟨last, settled, hlast, hlast', hsettled, hbelow⟩ := h.below_rowsOf hplaces
      obtain ⟨hpairwise, hbounds⟩ := leftmost_bounds hplaces
      rw [score_of_leftmost m hplaces, score_of_leftmost m' hplaces, hlast, hlast']
      refine ⟨?_, hbelow.run_le⟩
      rintro k hk
      obtain rfl := Option.some.inj hk
      refine ⟨_, rfl, largest_le (hbelow.forall₂_row ?_) (Int.le_refl _)⟩
      have hstart : start ≤ (start :: starts).getLastD 0 := by
        rw [List.getLastD_cons]
        have hmem : starts.getLastD start ∈ start :: starts := List.getLastD_mem_cons
        rcases List.mem_cons.1 hmem with hlast | hlast
        · exact Nat.le_of_eq hlast.symm
        · exact Nat.le_of_lt ((List.pairwise_cons.1 hpairwise).1 _ hlast)
      intro j hle hlt
      exact hsettled j (by omega) hlt

/-! ## New and used matchers -/

/-- A new matcher has nowhere longer runs than one whose runs are not below zero. -/
theorem new_le_iff {m : FuzzyMatcher} : Le {} m ↔ RunsNonneg m.cells := Iff.rfl

/-- No match makes a run shorter than zero. -/
theorem runsNonneg_score {m : FuzzyMatcher} (h : RunsNonneg m.cells) (text pattern : String) :
    RunsNonneg (m.score text pattern).2.cells := by
  cases hplaces : leftmost (sameLetter (pattern.toList.any Char.isUpper)) 0 text.toList
      pattern.toList with
  | none => simpa [score, hplaces] using h
  | some places =>
    cases places with
    | nil => simpa [score, hplaces] using h
    | cons start starts =>
      rw [score_of_leftmost m hplaces]
      exact RunsNonneg.fillRows (runsNonneg_table h _ _) _ _ _ _

/-- Without a match a matcher stays as it is. -/
theorem score_of_none {m : FuzzyMatcher} {text pattern : String}
    (h : (m.score text pattern).1 = none) : m.score text pattern = (none, m) := by
  rw [score] at h ⊢
  split at h
  · rfl
  · cases h
  · cases h

/-- How close a candidate is to a name, by matchers that have made no match before: the score of the
name in the candidate, or else that of the candidate in the name. -/
def score? (name candidate : String) : Option Int :=
  (score {} candidate name).1.or (score {} name candidate).1

/-- Any matcher goes by the score of the name in the candidate, or else by that of the candidate in
the name. -/
theorem fst_closeness (m : FuzzyMatcher) (name candidate : String) :
    (m.closeness name candidate).1 =
      (m.score candidate name).1.or (m.score name candidate).1 := by
  cases hscore : (m.score candidate name).1 with
  | none => rw [closeness, score_of_none hscore, Option.none_or]
  | some score =>
    have hpair : m.score candidate name = (some score, (m.score candidate name).2) :=
      Prod.ext hscore rfl
    rw [closeness, hpair, Option.some_or]

/-- Looking at a candidate makes no run shorter than zero. -/
theorem runsNonneg_closeness {m : FuzzyMatcher} (h : RunsNonneg m.cells) (name candidate : String) :
    RunsNonneg (m.closeness name candidate).2.cells := by
  rw [closeness]
  split
  · next score m' hscore =>
    have hm := runsNonneg_score h candidate name
    rwa [hscore] at hm
  · next m' hscore =>
    have hm := runsNonneg_score h candidate name
    rw [hscore] at hm
    exact runsNonneg_score hm name candidate

/-- A matcher that finds no closeness stays as it is. -/
theorem snd_closeness_of_none {m : FuzzyMatcher} {name candidate : String}
    (h : (m.closeness name candidate).1 = none) : (m.closeness name candidate).2 = m := by
  rw [fst_closeness, Option.or_eq_none_iff] at h
  rw [closeness, score_of_none h.1]
  exact congrArg Prod.snd (score_of_none h.2)

/-- All matchers find a closeness of the same candidates. -/
theorem closeness_eq_none_iff (m : FuzzyMatcher) {name candidate : String} :
    (m.closeness name candidate).1 = none ↔ score? name candidate = none := by
  have hscore (text pattern : String) :
      (m.score text pattern).1 = none ↔ (score {} text pattern).1 = none := by
    rw [← Option.isNone_iff_eq_none, ← Option.isNone_iff_eq_none, ← Option.not_isSome,
      ← Option.not_isSome, isSome_score m {}]
  rw [fst_closeness, score?, Option.or_eq_none_iff, Option.or_eq_none_iff, hscore, hscore]

/-- What a used matcher finds is at least what a new one does. -/
theorem le_closeness {m : FuzzyMatcher} (h : RunsNonneg m.cells) {name candidate : String} {k : Int}
    (hk : score? name candidate = some k) :
    ∃ l, (m.closeness name candidate).1 = some l ∧ k ≤ l := by
  have hle : Le {} m := h
  rw [fst_closeness]
  rcases Option.or_eq_some_iff.1 hk with hk | ⟨hnone, hk⟩
  · obtain ⟨l, hl, hkl⟩ := (hle.score candidate name).1 k hk
    exact ⟨l, by rw [hl, Option.some_or], hkl⟩
  · obtain ⟨l, hl, hkl⟩ := (hle.score name candidate).1 k hk
    have hnone' : (m.score candidate name).1 = none := by
      rw [← Option.not_isSome_iff_eq_none, isSome_score m {}, hnone]
      simp
    exact ⟨l, by rw [hnone', Option.none_or, hl], hkl⟩

/-! ## A matcher in a search -/

/-- The matcher after it has looked at some candidates. -/
def after (m : FuzzyMatcher) (name : String) (candidates : List String) : FuzzyMatcher :=
  candidates.foldl (fun m candidate => (m.closeness name candidate).2) m

/-- The matcher is handed from each candidate to the next. -/
theorem after_concat (m : FuzzyMatcher) (name : String) (candidates : List String)
    (candidate : String) : m.after name (candidates ++ [candidate]) =
      ((m.after name candidates).closeness name candidate).2 := by
  simp [after]

/-- No search makes a run shorter than zero. -/
theorem runsNonneg_after {m : FuzzyMatcher} (h : RunsNonneg m.cells) (name : String)
    (candidates : List String) : RunsNonneg (m.after name candidates).cells := by
  induction candidates generalizing m with
  | nil => exact h
  | cons candidate candidates ih => exact ih (runsNonneg_closeness h name candidate)

/-- A matcher that has found no closeness yet is as it was. -/
theorem after_of_none {m : FuzzyMatcher} {name : String} {candidates : List String}
    (h : ∀ c ∈ candidates, score? name c = none) : m.after name candidates = m := by
  induction candidates generalizing m with
  | nil => rfl
  | cons candidate candidates ih =>
    rw [List.forall_mem_cons, ← closeness_eq_none_iff m] at h
    have hrest := ih (m := (m.closeness name candidate).2) h.2
    rw [snd_closeness_of_none h.1] at hrest
    rw [after, List.foldl_cons, snd_closeness_of_none h.1]
    exact hrest

end FuzzyMatcher
end JoinForest
