import JoinForest.Proofs.Query.Assembly
import JoinForest.Proofs.Query.Tokens
import JoinForest.Proofs.Query.Unambiguous
import JoinForest.Proofs.Schema.Joins

set_option autoImplicit false

/-!
# Options of layout

Options of layout change the text of a statement but not its tokens, and the numbers in a statement
are numbers to those who read it.
-/

namespace JoinForest

/-!
## Binary numbers in queries

The text of a binary number is looked for on finer and finer decimal grids. For every double there
is one fine enough (`Neighbourhood.exists_coarsest?`): the finest grid has steps below the distance
of any two doubles. So the text is never empty, and it is a number to those who read queries
(`Binary.isNumeric_text`).
-/

/-! ### Powers -/

theorem twoTo_mono {m n : Nat} (h : m ≤ n) : twoTo m ≤ twoTo n := Nat.pow_le_pow_right (by decide) h

theorem twoTo_mul (m n : Nat) : twoTo (m * n) = Nat.pow (twoTo m) n := Nat.pow_mul 2 m n

theorem tenTo_mul (m n : Nat) : tenTo (m * n) = Nat.pow (tenTo m) n := Nat.pow_mul 10 m n

/-- The finest grid has less than half the least distance of doubles between its multiples. -/
theorem four_mul_twoTo_lt {n : Nat} (h : n ≤ 1074) : 4 * twoTo n < 2 * tenTo 325 := by
  -- The powers themselves are too large to be evaluated; their 25th roots are not.
  have hpowers : Nat.pow (twoTo 43) 25 < Nat.pow (tenTo 13) 25 :=
    Nat.pow_lt_pow_left (by decide) (by decide)
  have htwo : twoTo 1075 = Nat.pow (twoTo 43) 25 := twoTo_mul 43 25
  have hten : tenTo 325 = Nat.pow (tenTo 13) 25 := tenTo_mul 13 25
  have hsucc : twoTo 1075 = twoTo 1074 * 2 := twoTo_succ 1074
  have hle : twoTo n ≤ twoTo 1074 := twoTo_mono h
  omega

/-! ### Grids -/

namespace Neighbourhood

/-- A grid that meets the neighbourhood is found if it is among those tried. -/
theorem exists_coarsest? {n : Neighbourhood} {count i : Nat} {place : Int} (hi : i < count)
    (h : (n.onGrid? (place - i)).isSome = true) :
    ∃ found, n.coarsest? count place = some found := by
  -- Every turn goes one place down, so the grid is one turn nearer for those that follow.
  induction count generalizing i place with
  | zero => omega
  | succ count ih =>
    rw [coarsest?]
    split
    · exact ⟨_, rfl⟩
    · next hnone =>
      cases i with
      | zero => simp [hnone] at h
      | succ i =>
        have hplace : place - (i + 1 : Nat) = place - 1 - i := by omega
        rw [hplace] at h
        exact ih (by omega) h

/-- A grid meets the neighbourhood if the first multiple above the middle is inside. -/
theorem isSome_onGrid? {n : Neighbourhood} {place : Int}
    (h : n.holds (n.middle * tenTo (-place).toNat / (tenTo place.toNat * n.unit) + 1)
      (tenTo place.toNat * n.unit) (tenTo (-place).toNat) = true) :
    (n.onGrid? place).isSome = true := by
  simp only [onGrid?, h]
  split
  · split <;> rfl
  all_goals simp_all

/-- The multiple above the middle is inside if the step is less than the way up to the end. -/
theorem holds_succ_div {n : Neighbourhood} {step scale : Nat} (hstep : 0 < step)
    (hlow : n.low ≤ n.middle) (hhigh : n.middle * scale + step < n.high * scale) :
    n.holds (n.middle * scale / step + 1) step scale = true := by
  have hbelow : n.low * scale ≤ n.middle * scale := Nat.mul_le_mul_right scale hlow
  have hfloor : n.middle * scale / step * step ≤ n.middle * scale := Nat.div_mul_le_self _ _
  have habove : n.middle * scale < (n.middle * scale / step + 1) * step :=
    (Nat.div_lt_iff_lt_mul hstep).1 (Nat.lt_succ_self _)
  have hnext : (n.middle * scale / step + 1) * step = n.middle * scale / step * step + step :=
    Nat.succ_mul _ _
  rw [holds]
  split <;> simp only [Bool.and_eq_true, decide_eq_true_eq] <;> omega

/-- Among the grids tried there is one with a multiple that rounds to a double. -/
theorem exists_coarsest?_around (significand : Nat) {exponent : Int} (h : -1074 ≤ exponent) :
    ∃ found, (around significand exponent).coarsest? gridCount 309 = some found := by
  have hunit : (around significand exponent).unit = 4 * twoTo (-exponent).toNat := rfl
  have hlow : (around significand exponent).low ≤ (around significand exponent).middle :=
    Nat.mul_le_mul_right _ (Nat.sub_le _ _)
  have hhigh : (around significand exponent).high =
      (around significand exponent).middle + 2 * twoTo exponent.toNat := Nat.add_mul _ _ _
  have hscale : 2 * tenTo 325 ≤ 2 * twoTo exponent.toNat * tenTo 325 :=
    Nat.mul_le_mul_right _ (Nat.le_mul_of_pos_right 2 (twoTo_pos _))
  have hfine := four_mul_twoTo_lt (n := (-exponent).toNat) (by omega)
  have hpos := twoTo_pos (-exponent).toNat
  refine exists_coarsest? (i := 634) (by decide) (isSome_onGrid? (holds_succ_div ?_ hlow ?_))
  · show 0 < 1 * (around significand exponent).unit
    omega
  · show _ * tenTo 325 + 1 * (around significand exponent).unit < _ * tenTo 325
    rw [hhigh, Nat.add_mul]
    omega

end Neighbourhood

/-! ### Positional texts -/

/-- A text of digits that may hold points, but does not begin with one. -/
def IsPositional (text : List Char) : Prop :=
  (∃ c ∈ text.head?, c.isDigit = true) ∧ ∀ c ∈ text, isNumberPart c = true

theorem isNumberPart_of_isDigit {c : Char} (h : c.isDigit = true) : isNumberPart c = true := by
  simp [isNumberPart, h]

theorem isDigit_of_mem_decimalDigits {n : Nat} {c : Char} (h : c ∈ decimalDigits n) :
    c.isDigit = true :=
  Nat.isDigit_of_mem_toDigits (by decide) (by decide) h

theorem IsPositional.of_digits {text : List Char} (hne : text ≠ [])
    (h : ∀ c ∈ text, c.isDigit = true) : IsPositional text := by
  cases text with
  | nil => exact absurd rfl hne
  | cons c rest =>
    exact ⟨⟨c, rfl, h c List.mem_cons_self⟩, fun d hd => isNumberPart_of_isDigit (h d hd)⟩

theorem IsPositional.append {text more : List Char} (h : IsPositional text)
    (hmore : ∀ c ∈ more, isNumberPart c = true) : IsPositional (text ++ more) := by
  obtain ⟨⟨c, hc, hdigit⟩, hall⟩ := h
  refine ⟨⟨c, ?_, hdigit⟩, ?_⟩
  · rw [List.head?_append, Option.mem_def.1 hc]
    rfl
  · intro d hd
    rcases List.mem_append.1 hd with hd | hd
    · exact hall d hd
    · exact hmore d hd

/-- Positional notation is digits and at most one point behind the first. -/
theorem isPositional_positional (coefficient : Nat) (place : Int) :
    IsPositional (positional coefficient place) := by
  have hdigits : ∀ c ∈ decimalDigits coefficient, c.isDigit = true :=
    fun c hc => isDigit_of_mem_decimalDigits hc
  have hne : decimalDigits coefficient ≠ [] := Nat.toDigits_ne_nil
  have hzeros (count : Nat) : ∀ c ∈ List.replicate count '0', isNumberPart c = true := by
    intro c hc
    obtain rfl := List.eq_of_mem_replicate hc
    rfl
  rw [positional]
  split
  · exact (IsPositional.of_digits hne hdigits).append (hzeros _)
  · simp only
    split
    · have hpoint : IsPositional ['0', '.'] :=
        ⟨⟨'0', rfl, rfl⟩, List.forall_mem_cons.2 ⟨rfl, List.forall_mem_singleton.2 rfl⟩⟩
      exact (hpoint.append (hzeros _)).append fun c hc => isNumberPart_of_isDigit (hdigits c hc)
    · next hlong =>
      have hsome : (decimalDigits coefficient).take
          ((decimalDigits coefficient).length - (-place).toNat) ≠ [] := by
        simp [hne]
        omega
      have htaken := IsPositional.of_digits hsome fun c hc => hdigits c (List.mem_of_mem_take hc)
      refine htaken.append ?_
      intro c hc
      rcases List.mem_cons.1 hc with rfl | hc
      · rfl
      · exact isNumberPart_of_isDigit (hdigits c (List.mem_of_mem_drop hc))

/-! ### Doubles -/

/-- The number is one of 64 bits: a finite one keeps the bounds of significand and exponent. -/
def Binary.IsDouble : Binary → Prop
  | finite _ significand exponent =>
    significand < twoTo 53 ∧ -1074 ≤ exponent ∧ exponent ≤ 971
  | _ => True

/-- The value is no binary number but one of 64 bits. -/
def Value.IsDouble : Value → Prop
  | float x => x.IsDouble
  | _ => True

theorem isPositional_shortestDigits (significand : Nat) {exponent : Int} (h : -1074 ≤ exponent) :
    IsPositional (shortestDigits significand exponent) := by
  obtain ⟨⟨coefficient, place⟩, hfound⟩ := Neighbourhood.exists_coarsest?_around significand h
  rw [shortestDigits, hfound]
  exact isPositional_positional coefficient place

/-- A positional text is a number, behind a minus sign or not. -/
theorem IsPositional.isNumeric_signed {text : List Char} (h : IsPositional text)
    (negative : Bool) : IsNumeric (signed negative text) := by
  obtain ⟨⟨c, hc, hdigit⟩, hall⟩ := h
  obtain ⟨rest, rfl⟩ := List.head?_eq_some_iff.1 (Option.mem_def.1 hc)
  cases negative with
  | true => exact ⟨'-', c :: rest, rfl, rfl, hall⟩
  | false =>
    refine ⟨c, rest, rfl, ?_, fun d hd => hall d (List.mem_cons_of_mem c hd)⟩
    simp [isNumberStart, hdigit]

/-- The text of a finite double is a number. -/
theorem Binary.isNumeric_text {x : Binary} (hx : x.IsDouble) (hfinite : x.isFinite = true) :
    IsNumeric x.text.toList := by
  cases x with
  | nan => cases hfinite
  | infinite negative => cases hfinite
  | finite negative significand exponent =>
    rw [text, String.toList_ofList]
    refine IsPositional.isNumeric_signed ?_ negative
    split
    · exact .of_digits (List.cons_ne_nil _ _) (List.forall_mem_singleton.2 rfl)
    · exact isPositional_shortestDigits significand hx.2.1

/-- Values are written as words, texts and numbers. -/
theorem isLexical_double {v : Value} (h : v.IsDouble) : v.piece.IsLexical := by
  cases v with
  | float x =>
    rw [Value.piece]
    split
    · next hfinite => exact Binary.isNumeric_text h hfinite
    · show Piece.isLexicalWord "NULL" = true
      decide
  | _ =>
    apply isLexical_value
    intro x hx
    cases hx

/-!
## What the options decide

The options decide how names and breaks are written and nothing else: along a plan without queries
and given conditions (`Plan.IsPlain`) the entries of a statement stand for relations and its joins
are by columns, and its text falls into the tokens of its pieces under all options
(`Schema.scans_select`). A name stands bare only if it is a word and not reserved
(`identifier_bare`).
-/

/-! ### Bare names -/

theorem length_lt_enquote (mark : Char) (text : List Char) :
    text.length < (enquote mark text).length := by
  have hinner : text.length ≤
      (text.flatMap fun c => if c = mark then [mark, mark] else [c]).length := by
    induction text with
    | nil => exact Nat.le_refl 0
    | cons c text ih =>
      rw [List.flatMap_cons, List.length_append, List.length_cons]
      split <;> simp only [List.length_cons, List.length_nil] <;> omega
  rw [enquote, List.length_cons, List.length_append]
  omega

/-- A name that is written as it is, is a word, and in no case of its letters a reserved one. -/
theorem identifier_bare {always : Bool} {name : List Char} (h : identifier always name = name) :
    isWord name = true ∧ ∀ word ∈ reservedWords, word.toList ≠ name.map Char.toLower := by
  rcases identifier_eq always name with hquoted | ⟨-, hword, hreserved⟩
  · have hlength := length_lt_enquote '"' name
    rw [← hquoted, h] at hlength
    exact absurd hlength (Nat.lt_irrefl _)
  · refine ⟨hword, ?_⟩
    intro word hmem heq
    rw [isReserved, ← heq, String.ofList_toList] at hreserved
    simp [hmem] at hreserved

/-! ### Entries of statements -/

theorem TableSource.isRelation_ofSource {s : Source} (h : ¬ s.IsDerived) :
    (ofSource s).IsRelation := by
  intro sql name heq
  rw [ofSource] at heq
  split at heq
  · split at heq <;> cases heq
  · next sql hsql => exact h ⟨sql, hsql⟩

/-- No table of the plan is a derived relation, and every join is by columns. -/
structure Plan.IsPlain (p : Plan) (s : Schema) : Prop where
  named : ∀ e ∈ s.entries, Entry.name e ∈ p.tables → ¬ (Entry.source e).IsDerived
  byColumns : ∀ step ∈ p.steps, step.condition.IsColumns

/-- Along a plain plan the entries stand for relations and the joins are by columns. -/
theorem Plan.IsPlain.of_select {s : Schema} {r : Request} {st : Statement} {p : Plan}
    (hplain : p.IsPlain s) (hp : s.planFor r = .ok p)
    (hst : s.select Builder.statement r = .ok st) :
    st.source.root.IsRelation ∧ ∀ j ∈ st.source.joins, j.IsPlain := by
  obtain ⟨p', root, children, hp', hroot, hchildren, rfl⟩ := Schema.select_eq_ok_iff.1 hst
  obtain rfl := Except.ok.inj (hp.symm.trans hp')
  rw [Builder.run_statement]
  constructor
  · obtain ⟨hentry, hname⟩ := Schema.name_of_node? (Schema.lookup_eq_ok_iff.1 hroot)
    refine TableSource.isRelation_ofSource (hplain.named root hentry ?_)
    rw [hname]
    exact List.mem_cons_self
  · intro j hj
    obtain ⟨⟨step, e⟩, hmem, rfl⟩ := List.mem_map.1 hj
    obtain ⟨hstep, hentry, hname⟩ := hchildren.mem_zip hmem
    refine ⟨TableSource.isRelation_ofSource (hplain.named e hentry ?_), hplain.byColumns step hstep⟩
    rw [hname]
    exact List.mem_cons_of_mem _ (List.mem_map_of_mem hstep)

/-- Along a plain plan the text of a statement falls into the tokens of its pieces, in one way and
whatever the options are. Names stand bare only if they are words and not reserved. -/
theorem Schema.scans_select {s : Schema} {r : Request} {st : Statement} {p : Plan}
    (hst : s.select Builder.statement r = .ok st) (hp : s.planFor r = .ok p)
    (hplain : p.IsPlain s) (hvalues : ∀ f ∈ r.filters, f.value.IsDouble) :
    (∀ options tokens, Scans (st.toSql options).toList tokens ↔ tokens = tokensOf st.pieces) ∧
      ∀ always name, identifier always name = name →
        isWord name = true ∧ ∀ word ∈ reservedWords, word.toList ≠ name.map Char.toLower := by
  obtain ⟨hroot, hjoins⟩ := hplain.of_select hp hst
  obtain ⟨p', -, hfollows⟩ := exists_follows_of_select hst
  have hfilters : st.filters = r.filters := congrArg Statement.filters hfollows.parts_eq
  refine ⟨?_, fun _ _ => identifier_bare⟩
  intro options tokens
  have hscans := Statement.scans_toSql hroot hjoins
    (fun f hf => isLexical_double (hvalues f (hfilters ▸ hf))) options
  constructor
  · intro h
    exact h.unique hscans
  · rintro rfl
    exact hscans

namespace Sample

/-- The orders whose choice is above three halves. -/
def fractionRequest : Request :=
  { projections := [.column ⟨"shop.\"order\" AS x", "from"⟩]
    filters := [⟨⟨"SELECT", "it's"⟩, .gt, .float (.finite false (3 * twoTo 51) (-52))⟩] }

/-- The plan for these orders. -/
def fractionPlan : Plan :=
  ⟨"shop.\"order\" AS x", [⟨"shop.\"order\" AS x", "SELECT",
    .columns [(⟨"shop.\"order\" AS x", "a.b"⟩, ⟨"SELECT", "it's"⟩)], .leftOuter⟩]⟩

theorem isPlain_fraction : fractionPlan.IsPlain quotedSchema where
  named := by
    rintro e he - ⟨sql, hsql⟩
    rcases List.mem_cons.1 he with rfl | he
    · cases hsql
    · obtain rfl := List.mem_singleton.1 he
      cases hsql
  byColumns := by
    intro step hstep text htext
    obtain rfl := List.mem_singleton.1 hstep
    cases htext

/-- With quotes and breaks or without them, the statement for these orders has one list of tokens.
-/
theorem scans_fraction : ∃ st tokens,
    quotedSchema.select Builder.statement fractionRequest = .ok st ∧
      Scans (st.toSql {}).toList tokens ∧ Scans (st.toSql ⟨true, true⟩).toList tokens := by
  have hvalues : ∀ f ∈ fractionRequest.filters, f.value.IsDouble := by
    intro f hf
    obtain rfl := List.mem_singleton.1 hf
    exact ⟨by decide, by decide, by decide⟩
  have hplan : quotedSchema.planFor fractionRequest = .ok fractionPlan := rfl
  have hscans := (Schema.scans_select (s := quotedSchema) rfl hplan isPlain_fraction hvalues).1
  exact ⟨_, _, rfl, (hscans {} _).2 rfl, (hscans ⟨true, true⟩ _).2 rfl⟩

end Sample

end JoinForest
