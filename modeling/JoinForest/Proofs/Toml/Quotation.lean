import JoinForest.Settings.Saved
import JoinForest.Toml.Scalar

set_option autoImplicit false

/-!
# Strings read back

A text is read back from each of the four notations of strings in which it may be written, with
whatever follows. In double quotes every character but a quote is read from what is written for it
(`Escapes`), on one line (`basic?_escaped`) and over several (`multilineBasic?_escaped`). In single
quotes a text stands for itself, if none of its characters needs an escape and its quotes do not
close it (`literal?_append`, `multilineLiteral?_append`). Where three quotes close a string, up to
two quotes are kept back until the character after them is known, and the lemmas go by induction
with these in front. So a text is read back from the plainest notation that can hold it
(`string?_plainest`).
-/

namespace JoinForest

open Quoting Toml

/-! ## Characters in double quotes -/

/-- A character is read back from its code in two digits. -/
theorem coded?_hexPair {c : Char} (h : c.toNat < 128) :
    coded? ('0' :: '0' :: (hexPair c.toNat).map Char.toUpper) = some c := by
  have hdigit : ∀ n < 16, isHexDigit (Nat.digitChar n).toUpper = true ∧
      digitValue (Nat.digitChar n).toUpper = n := by decide
  obtain ⟨hhex, hhigh⟩ := hdigit (c.toNat / 16) (by omega)
  obtain ⟨hhex', hlow⟩ := hdigit (c.toNat % 16) (by omega)
  have hzero : isHexDigit '0' = true ∧ digitValue '0' = 0 := by decide
  have hvalue : c.toNat / 16 * 16 + c.toNat % 16 = c.toNat := by omega
  have hvalid : c.toNat.isValidChar := Or.inl (by omega)
  simp [coded?, ofDigits, hexPair, hzero, hhex, hhex', hhigh, hlow, hvalue, hvalid]

/-- What is written for a character in double quotes, where a line feed may stand for itself. -/
inductive Escapes (keepLines : Bool) (c : Char) : List Char → Prop
  | line : keepLines = true → c = '\n' → Escapes keepLines c [c]
  | letter {letter : Char} : Escape.ofLetter? letter = some c → Escapes keepLines c ['\\', letter]
  | code {a b : Char} : coded? ['0', '0', a, b] = some c →
      Escapes keepLines c ['\\', 'u', '0', '0', a, b]
  | plain : isPlain c = true → c ≠ '\\' → Escapes keepLines c [c]

/-- A test that tells two characters apart. -/
theorem ne_of_test {test : Char → Bool} {c d : Char} (h : test c = true) (hd : test d = false) :
    c ≠ d := by
  rintro rfl
  rw [h] at hd
  cases hd

theorem lt_of_needsEscape {c : Char} (h : needsEscape c = true) : c.toNat < 128 := by
  simp only [needsEscape, Bool.or_eq_true, Bool.and_eq_true, decide_eq_true_eq, beq_iff_eq] at h
  omega

/-- A character that needs no escape is a line feed or may stand in a string. -/
theorem isPlain_of_needsEscape {c : Char} (h : needsEscape c = false) (hline : c ≠ '\n') :
    isPlain c = true := by
  by_cases htab : c = '\t'
  · simp [isPlain, htab]
  · simp only [needsEscape, Bool.or_eq_false_iff, Bool.and_eq_false_iff, bne_eq_false_iff_eq,
      decide_eq_false_iff_not, beq_eq_false_iff_ne, htab, hline, or_false] at h
    simp [isPlain, htab, h.2, Nat.not_lt.1 h.1]

/-- Every character is written in one of the ways that are read back as itself. -/
theorem escapes_escapeChar (keepLines : Bool) (c : Char) :
    Escapes keepLines c (escapeChar keepLines c) := by
  rw [escapeChar]
  split
  · next h =>
    simp only [Bool.and_eq_true, decide_eq_true_eq] at h
    exact .line h.1 h.2
  · split
    · next letter hletter => exact .letter (Escape.ofLetter?_of_letterOf? hletter)
    · next hnone =>
      split
      · next hneeds => exact .code (coded?_hexPair (lt_of_needsEscape hneeds))
      · next hneeds =>
        refine .plain (isPlain_of_needsEscape (by simpa using hneeds) ?_) ?_
        · rintro rfl
          cases hnone
        · rintro rfl
          cases hnone

/-- No letter of an escape begins a code or takes a line feed out. -/
theorem letter_cases {letter c : Char} (h : Escape.ofLetter? letter = some c) :
    letter ≠ 'u' ∧ letter ≠ 'U' ∧ letter ≠ '\n' ∧ letter ≠ ' ' ∧ letter ≠ '\t' ∧
      letter ≠ '\r' := by
  refine ⟨?_, ?_, ?_, ?_, ?_, ?_⟩ <;>
  · rintro rfl
    cases h

/-- A character in double quotes on one line is read back. -/
theorem basic?_escapes {c : Char} {written : List Char} (h : Escapes false c written)
    (hquote : c ≠ '"') (rest : List Char) :
    basic? (written ++ rest) = withChar (some c) (basic? rest) := by
  cases h with
  | line hkeep => cases hkeep
  | letter hletter =>
    obtain ⟨hu, hU, -⟩ := letter_cases hletter
    simp [basic?, hu, hU, hletter]
  | code hcode => simp [basic?, hcode]
  | plain hplain hslash => simp [basic?, hslash, hplain]

/-- A character in triple double quotes is read back. -/
theorem multilineBasic?_escapes {c : Char} {written : List Char} (h : Escapes true c written)
    (hquote : c ≠ '"') (rest : List Char) :
    multilineBasic? .outside (written ++ rest) =
      withChar (some c) (multilineBasic? .outside rest) := by
  cases h with
  | line _ hline =>
    subst hline
    simp [multilineBasic?]
  | letter hletter =>
    obtain ⟨hu, hU, hline, hblank, htab, hreturn⟩ := letter_cases hletter
    simp [multilineBasic?, hu, hU, hline, hblank, htab, hreturn, hletter]
  | code hcode => simp [multilineBasic?, hcode]
  | plain hplain hslash =>
    have hline : c ≠ '\n' := ne_of_test hplain rfl
    have hreturn : c ≠ '\r' := ne_of_test hplain rfl
    simp [multilineBasic?, hquote, hslash, hreturn, hplain]

/-- What is written for a character other than a quote begins with none. -/
theorem Escapes.exists_head {keepLines : Bool} {c : Char} {written : List Char}
    (h : Escapes keepLines c written) (hquote : c ≠ '"') :
    ∃ d rest, written = d :: rest ∧ d ≠ '"' := by
  cases h with
  | line => exact ⟨c, [], rfl, hquote⟩
  | letter => exact ⟨_, _, rfl, by decide⟩
  | code => exact ⟨_, _, rfl, by decide⟩
  | plain => exact ⟨c, [], rfl, hquote⟩

/-! ## Double quotes on one line -/

/-- A text in double quotes is read back as it was, and nothing of what follows is taken. -/
theorem basic?_escaped (text rest : List Char) :
    basic? (escaped false 0 0 text ++ '"' :: rest) = some (text, rest) := by
  induction text with
  | nil => rfl
  | cons c text ih =>
    by_cases hc : c = '"'
    · subst hc
      rw [escaped, if_pos rfl, if_neg (Nat.lt_irrefl 0)]
      show basic? ('\\' :: '"' :: (escaped false 0 0 text ++ '"' :: rest)) = _
      simp [basic?, ih, withChar, Escape.ofLetter?, Escape.table]
    · rw [escaped, if_neg hc, List.append_assoc, basic?_escapes (escapes_escapeChar false c) hc, ih]
      rfl

/-! ## Three quotes at the end -/

/-- A reader of strings that end with three quotes, where a quote is read as itself before fewer
than two more, and up to two in front of the last three belong to the string. -/
structure ClosesAtThree (quote : Char) (read : Reader (List Char)) : Prop where
  closing : ∀ {rest : List Char} {run : Nat}, rest.head? ≠ some quote → run ≤ 2 →
    read (List.replicate run quote ++ quote :: quote :: quote :: rest) =
      some (List.replicate run quote, rest)
  quote_cons : ∀ {rest : List Char}, (∀ later, rest ≠ quote :: quote :: later) →
    read (quote :: rest) = withChar (some quote) (read rest)

/-- Up to two quotes do not close a string before another character. -/
theorem ClosesAtThree.run {quote : Char} {read : Reader (List Char)}
    (hread : ClosesAtThree quote read) {run : Nat} (hrun : run ≤ 2) {d : Char} (hd : d ≠ quote)
    {later text rest : List Char} (h : read (d :: later) = some (text, rest)) :
    read (List.replicate run quote ++ d :: later) =
      some (List.replicate run quote ++ text, rest) := by
  induction run with
  | zero => exact h
  | succ run ih =>
    have hfew : ∀ l, List.replicate run quote ++ d :: later ≠ quote :: quote :: l := by
      intro l heq
      have hcases : run = 0 ∨ run = 1 := by omega
      rcases hcases with rfl | rfl
      · exact hd (List.cons.inj heq).1
      · exact hd (List.cons.inj (List.cons.inj heq).2).1
    rw [List.replicate_succ, List.cons_append, hread.quote_cons hfew, ih (by omega)]
    rfl

theorem closesAtThree_multilineBasic : ClosesAtThree '"' (multilineBasic? .outside) where
  closing := by
    intro rest run h hrun
    have hcases : run = 0 ∨ run = 1 ∨ run = 2 := by omega
    cases rest with
    | nil => rcases hcases with rfl | rfl | rfl <;> rfl
    | cons c rest =>
      have hc : c ≠ '"' := by simpa using h
      rcases hcases with rfl | rfl | rfl <;> simp [multilineBasic?, hc, List.replicate]
  quote_cons := by
    intro rest h
    rw [multilineBasic?] <;> simp [h, isPlain]

theorem closesAtThree_multilineLiteral : ClosesAtThree '\x27' multilineLiteral? where
  closing := by
    intro rest run h hrun
    have hcases : run = 0 ∨ run = 1 ∨ run = 2 := by omega
    cases rest with
    | nil => rcases hcases with rfl | rfl | rfl <;> rfl
    | cons c rest =>
      have hc : c ≠ '\x27' := by simpa using h
      rcases hcases with rfl | rfl | rfl <;> simp [multilineLiteral?, hc, List.replicate]
  quote_cons := by
    intro rest h
    rw [multilineLiteral?] <;> simp [h, isPlain]

/-! ## Triple double quotes -/

section TripleDouble

variable {rest : List Char}

/-- A text is read back in triple double quotes, after `run` quotes that are still to be read. -/
theorem multilineBasic?_escaped (h : rest.head? ≠ some '"') (text : List Char) {run : Nat}
    (hrun : run ≤ 2) :
    multilineBasic? .outside
        (List.replicate run '"' ++ (escaped true 2 run text ++ '"' :: '"' :: '"' :: rest)) =
      some (List.replicate run '"' ++ text, rest) := by
  -- By induction on the text; a quote that is not escaped joins those before it.
  induction text generalizing run with
  | nil => simpa [escaped] using closesAtThree_multilineBasic.closing h hrun
  | cons c text ih =>
    by_cases hc : c = '"'
    · subst hc
      by_cases hlt : run < 2
      · have hnext := ih (Nat.succ_le_of_lt hlt)
        rw [escaped, if_pos rfl, if_pos hlt]
        simpa [List.replicate_succ'] using hnext
      · obtain rfl : run = 2 := by omega
        have hnext := ih (Nat.zero_le 2)
        simp only [List.replicate_zero, List.nil_append] at hnext
        rw [escaped, if_pos rfl, if_neg hlt]
        apply closesAtThree_multilineBasic.run (Nat.le_refl 2) (by decide)
        simp [multilineBasic?, hnext, withChar, Escape.ofLetter?, Escape.table]
    · have hescapes := escapes_escapeChar true c
      have hlater := ih (Nat.zero_le 2)
      simp only [List.replicate_zero, List.nil_append] at hlater
      have hnext := multilineBasic?_escapes hescapes hc
        (escaped true 2 0 text ++ '"' :: '"' :: '"' :: rest)
      rw [hlater] at hnext
      obtain ⟨d, later, hwritten, hd⟩ := hescapes.exists_head hc
      rw [escaped, if_neg hc, List.append_assoc]
      rw [hwritten] at hnext ⊢
      exact closesAtThree_multilineBasic.run hrun hd hnext

end TripleDouble

/-! ## Single quotes -/

/-- A text in single quotes is read back if it has no such quote and nothing to escape. -/
theorem literal?_append {text : List Char} (hplain : ∀ c ∈ text, isPlain c = true)
    (hquote : '\x27' ∉ text) (rest : List Char) :
    literal? (text ++ '\x27' :: rest) = some (text, rest) := by
  induction text with
  | nil => rfl
  | cons c text ih =>
    rw [List.forall_mem_cons] at hplain
    obtain ⟨hc, htext⟩ := List.ne_and_not_mem_of_not_mem_cons hquote
    simp [literal?, Ne.symm hc, hplain.1, ih hplain.2 htext, withChar]

theorem le_longestRun (mark : Char) (text : List Char) (run : Nat) :
    run ≤ longestRun mark run text := by
  induction text generalizing run with
  | nil => exact Nat.le_refl run
  | cons c text ih =>
    rw [longestRun]
    split
    · exact Nat.le_of_succ_le (ih (run + 1))
    · exact Nat.le_max_left _ _

/-- Without a mark there is no run of it. -/
theorem longestRun_eq_zero {mark : Char} {text : List Char} (h : longestRun mark 0 text = 0) :
    mark ∉ text := by
  induction text with
  | nil => exact List.not_mem_nil
  | cons c text ih =>
    rw [longestRun] at h
    split at h
    · have hpositive := le_longestRun mark text (0 + 1)
      omega
    · next hc =>
      apply List.not_mem_cons_of_ne_of_not_mem (Ne.symm hc)
      exact ih (by omega)

section TripleSingle

variable {rest : List Char}

/-- A text is read back in triple single quotes, after `run` quotes that are still to be read. -/
theorem multilineLiteral?_append (h : rest.head? ≠ some '\x27') {text : List Char}
    (hneeds : ∀ c ∈ text, needsEscape c = false) {run : Nat}
    (hrun : longestRun '\x27' run text ≤ 2) :
    multilineLiteral?
        (List.replicate run '\x27' ++ (text ++ '\x27' :: '\x27' :: '\x27' :: rest)) =
      some (List.replicate run '\x27' ++ text, rest) := by
  induction text generalizing run with
  | nil =>
    rw [longestRun] at hrun
    simpa using closesAtThree_multilineLiteral.closing h hrun
  | cons c text ih =>
    rw [List.forall_mem_cons] at hneeds
    rw [longestRun] at hrun
    split at hrun
    · next hc =>
      have hnext := ih hneeds.2 hrun
      simpa [hc, List.replicate_succ'] using hnext
    · next hc =>
      have hlater := ih hneeds.2 (Nat.le_trans (Nat.le_max_right _ _) hrun)
      simp only [List.replicate_zero, List.nil_append] at hlater
      apply closesAtThree_multilineLiteral.run (Nat.le_trans (Nat.le_max_left _ _) hrun) hc
      by_cases hline : c = '\n'
      · simp [multilineLiteral?, hline, hlater, withChar]
      · have hplain := isPlain_of_needsEscape hneeds.1 hline
        have hreturn : c ≠ '\r' := ne_of_test hplain rfl
        simp [multilineLiteral?, hc, hreturn, hplain, hlater, withChar]

end TripleSingle

/-! ## The plainest notation -/

/-- The line feed in front of a text with line feeds does not count, and a text without any does
not begin with one. -/
theorem dropNewline_opening {text body : List Char}
    (h : '\n' ∉ text → body.head? ≠ some '\n' ∧ body.head? ≠ some '\r') :
    dropNewline (opening text ++ body) = body := by
  rw [opening]
  split
  · rfl
  · next hline =>
    obtain ⟨hfeed, hreturn⟩ := h (by simpa using hline)
    cases body with
    | nil => rfl
    | cons c body =>
      simp only [List.head?_cons, ne_eq, Option.some.injEq] at hfeed hreturn
      simp [dropNewline, hfeed, hreturn]

/-- What is written for a character that is no line feed begins with no end of a line. -/
theorem Escapes.head?_ne {c : Char} {written : List Char} (h : Escapes true c written)
    (hline : c ≠ '\n') (rest : List Char) :
    (written ++ rest).head? ≠ some '\n' ∧ (written ++ rest).head? ≠ some '\r' := by
  cases h with
  | line _ hfeed => exact absurd hfeed hline
  | letter => simp
  | code => simp
  | plain hplain =>
    have hreturn : c ≠ '\r' := ne_of_test hplain rfl
    exact ⟨by simpa using hline, by simpa using hreturn⟩

/-- A double quote opens a string on one line unless two more follow it. -/
theorem string?_double {body : List Char} (h : ∀ later, body ≠ '"' :: '"' :: later) :
    string? ('"' :: body) = basic? body := by
  unfold string?
  split
  · next later heq => exact absurd (List.cons.inj heq).2 (h later)
  · next heq => rw [(List.cons.inj heq).2]
  · next heq => exact absurd (List.cons.inj heq).1 (by decide)
  · next heq => exact absurd (List.cons.inj heq).1 (by decide)
  · next hother _ _ => exact absurd rfl (hother body)

/-- A single quote opens a string on one line unless two more follow it. -/
theorem string?_single {body : List Char} (h : ∀ later, body ≠ '\x27' :: '\x27' :: later) :
    string? ('\x27' :: body) = literal? body := by
  unfold string?
  split
  · next heq => exact absurd (List.cons.inj heq).1 (by decide)
  · next heq => exact absurd (List.cons.inj heq).1 (by decide)
  · next later heq => exact absurd (List.cons.inj heq).2 (h later)
  · next heq => rw [(List.cons.inj heq).2]
  · next hother => exact absurd rfl (hother body)

theorem string?_basic {rest : List Char} (h : rest.head? ≠ some '"') (text : List Char) :
    string? (basic text ++ rest) = some (text, rest) := by
  have hbody : basic text ++ rest = '"' :: (escaped false 0 0 text ++ '"' :: rest) := by
    simp [basic]
  rw [hbody, string?_double ?_, basic?_escaped]
  -- Only an empty text begins with the closing quote, and then no third one follows.
  intro later heq
  cases text with
  | nil =>
    apply h
    rw [(List.cons.inj heq).2]
    rfl
  | cons c text =>
    by_cases hc : c = '"'
    · rw [escaped, if_pos hc, if_neg (Nat.lt_irrefl 0)] at heq
      exact absurd (List.cons.inj heq).1 (by decide)
    · obtain ⟨d, written, hwritten, hd⟩ := (escapes_escapeChar false c).exists_head hc
      rw [escaped, if_neg hc, hwritten] at heq
      exact hd (List.cons.inj heq).1

theorem string?_literal {text rest : List Char} (hplain : ∀ c ∈ text, isPlain c = true)
    (hquote : '\x27' ∉ text) (h : rest.head? ≠ some '\x27') :
    string? (literal text ++ rest) = some (text, rest) := by
  have hbody : literal text ++ rest = '\x27' :: (text ++ '\x27' :: rest) := by
    simp [literal]
  rw [hbody, string?_single ?_, literal?_append hplain hquote]
  intro later heq
  cases text with
  | nil =>
    apply h
    rw [(List.cons.inj heq).2]
    rfl
  | cons c text =>
    apply hquote
    rw [(List.cons.inj heq).1]
    exact List.mem_cons_self

theorem string?_multilineBasic {rest : List Char} (h : rest.head? ≠ some '"') (text : List Char) :
    string? (multilineBasic text ++ rest) = some (text, rest) := by
  have hbody : multilineBasic text ++ rest = '"' :: '"' :: '"' ::
      (opening text ++ (escaped true 2 0 text ++ '"' :: '"' :: '"' :: rest)) := by
    simp [multilineBasic]
  rw [hbody, string?, dropNewline_opening]
  · exact multilineBasic?_escaped h text (Nat.zero_le 2)
  · intro hline
    cases text with
    | nil => simp [escaped]
    | cons c text =>
      rw [escaped]
      split
      · simp
      · next hc =>
        rw [List.append_assoc]
        apply (escapes_escapeChar true c).head?_ne
        exact Ne.symm (List.ne_of_not_mem_cons hline)

theorem string?_multilineLiteral {text rest : List Char}
    (hneeds : ∀ c ∈ text, needsEscape c = false) (hrun : longestRun '\x27' 0 text ≤ 2)
    (h : rest.head? ≠ some '\x27') :
    string? (multilineLiteral text ++ rest) = some (text, rest) := by
  have hbody : multilineLiteral text ++ rest = '\x27' :: '\x27' :: '\x27' ::
      (opening text ++ (text ++ '\x27' :: '\x27' :: '\x27' :: rest)) := by
    simp [multilineLiteral]
  rw [hbody, string?, dropNewline_opening]
  · exact multilineLiteral?_append h hneeds hrun
  · intro hline
    cases text with
    | nil => simp
    | cons c text =>
      have hc : c ≠ '\n' := Ne.symm (List.ne_of_not_mem_cons hline)
      refine ⟨by simpa using hc, ?_⟩
      intro hreturn
      obtain rfl : c = '\r' := by simpa using hreturn
      cases hneeds '\r' List.mem_cons_self

/-- A text is read back from the plainest notation that can hold it. -/
theorem string?_plainest {rest : List Char} (hdouble : rest.head? ≠ some '"')
    (hsingle : rest.head? ≠ some '\x27') (text : List Char) :
    string? (plainest text ++ rest) = some (text, rest) := by
  have hneeds (h : text.any needsEscape = false) : ∀ c ∈ text, needsEscape c = false := by
    simpa using h
  rw [plainest]
  split
  · exact string?_basic hdouble text
  split
  · next hliteral =>
    simp only [Bool.and_eq_true, Bool.not_eq_true', beq_iff_eq, List.contains_eq_mem,
      decide_eq_false_iff_not] at hliteral
    obtain ⟨⟨hcontrol, hquotes⟩, hlines⟩ := hliteral
    apply string?_literal _ (longestRun_eq_zero hquotes) hsingle
    intro c hc
    apply isPlain_of_needsEscape (hneeds hcontrol c hc)
    rintro rfl
    exact hlines hc
  split
  · exact string?_multilineBasic hdouble text
  split
  · next hliteral =>
    simp only [Bool.and_eq_true, Bool.not_eq_true', decide_eq_true_eq] at hliteral
    exact string?_multilineLiteral (hneeds hliteral.1) hliteral.2 hsingle
  split
  · exact string?_multilineBasic hdouble text
  · exact string?_basic hdouble text

/-- The plainest notation begins with a quote. -/
theorem plainest_eq_cons (text : List Char) :
    ∃ mark body, plainest text = mark :: body ∧ (mark = '"' ∨ mark = '\x27') := by
  rw [plainest]
  split
  · exact ⟨'"', _, rfl, .inl rfl⟩
  split
  · exact ⟨'\x27', _, rfl, .inr rfl⟩
  split
  · exact ⟨'"', _, rfl, .inl rfl⟩
  split
  · exact ⟨'\x27', _, rfl, .inr rfl⟩
  split
  · exact ⟨'"', _, rfl, .inl rfl⟩
  · exact ⟨'"', _, rfl, .inl rfl⟩

end JoinForest
