import JoinForest.Json

set_option autoImplicit false

/-!
# JSON read back

What is written in JSON is read back: first its tokens, then the documents that they make up
(`parse?_of_writes`).
-/

namespace JoinForest.Json

/-!
## Tokens read back

Brackets, commas, colons and strings end by themselves (`Token.EndsItself`), so that their texts may
follow one another with or without blanks: what is written for them is divided into these very
tokens (`ReadAs`). A string is read back whatever its characters are, each of which is written as
itself, as a letter or by its code (`foldlM_escapeChar`).
-/

/-! ### Characters of strings -/

/-- The code of a control character stands for itself and for no half of a pair. -/
theorem ofCode_toNat {c : Char} (h : c.toNat < 32) : Unit16.ofCode c.toNat = .char c := by
  have hhalf : (isHighHalf c.toNat || isLowHalf c.toNat) = false := by
    simp only [isHighHalf, isLowHalf, Bool.or_eq_false_iff, Bool.and_eq_false_iff,
      decide_eq_false_iff_not]
    omega
  rw [Unit16.ofCode, hhalf, if_neg Bool.false_ne_true, Char.ofNat_toNat]

section

variable (units : List Unit16) (done : List Token)

/-- Four digits of a code, two of them zero. -/
theorem foldlM_hexPair {n : Nat} (h : n < 256) :
    ('0' :: '0' :: hexPair n).foldlM read? (.code units 4 0, done) =
      some (.text (.ofCode n :: units), done) := by
  have hhigh : n / 16 < 16 := by omega
  have hlow : n % 16 < 16 := by omega
  have hzero : isHexDigit '0' = true ∧ digitValue '0' = 0 := by decide
  have hvalue : n / 16 * 16 + n % 16 = n := by omega
  simp [hexPair, read?, step?, hzero, isHexDigit_digitChar _ hhigh, digitValue_digitChar _ hhigh,
    isHexDigit_digitChar _ hlow, digitValue_digitChar _ hlow, hvalue]

/-- A character of a string is read back from what is written for it. -/
theorem foldlM_escapeChar (c : Char) : (escapeChar c).foldlM read? (.text units, done) =
    some (.text (.char c :: units), done) := by
  cases hletter : Escape.letterOf? c with
  | some letter =>
    -- The machine looks for a code and for a slash first; neither is among the letters.
    have hread := Escape.ofLetter?_of_letterOf? hletter
    have hu : letter ≠ 'u' := by
      rintro rfl
      cases hread
    have hslash : letter ≠ '/' := by
      rintro rfl
      cases hread
    simp [escapeChar, hletter, read?, step?, hu, escaped?, hslash, hread]
  | none =>
    by_cases hcontrol : c.toNat < 32
    · have hcode := foldlM_hexPair units done (n := c.toNat) (by omega)
      rw [ofCode_toNat hcontrol] at hcode
      rw [escapeChar, hletter, if_pos hcontrol, ← hcode]
      rfl
    · have hquote : c ≠ '"' := by
        rintro rfl
        cases hletter
      have hslash : c ≠ '\\' := by
        rintro rfl
        cases hletter
      simp [escapeChar, hletter, read?, step?, hquote, hslash, hcontrol]

/-- The escapes of a text, read inside quotes, give its characters one by one. -/
theorem foldlM_flatMap_escapeChar (text : List Char) :
    (text.flatMap escapeChar).foldlM read? (.text units, done) =
      some (.text ((text.map Unit16.char).reverse ++ units), done) := by
  induction text generalizing units with
  | nil => rfl
  | cons c text ih =>
    rw [List.flatMap_cons, List.foldlM_append, foldlM_escapeChar, Option.bind_eq_bind,
      Option.bind_some, ih, List.map_cons, List.reverse_cons, List.append_assoc]
    rfl

end

/-! ### Tokens -/

theorem joinUnits_map_char (text : List Char) :
    joinUnits (text.map Unit16.char) = some text := by
  induction text with
  | nil => rfl
  | cons c text ih => rw [List.map_cons, joinUnits, ih, Option.map_some]

/-- A token whose text is complete without a look at what follows. -/
inductive Token.EndsItself : Token → Prop
  | openRecord : EndsItself .openRecord
  | closeRecord : EndsItself .closeRecord
  | openList : EndsItself .openList
  | closeList : EndsItself .closeList
  | comma : EndsItself .comma
  | colon : EndsItself .colon
  | text (s : String) : EndsItself (.text (some s))

/-- A text is read as some tokens where another one may begin, and is then complete. -/
def ReadAs (text : List Char) (ts : List Token) : Prop :=
  ∀ done, text.foldlM read? (.between, done) = some (.between, ts.reverse ++ done)

namespace ReadAs

variable {text text' : List Char} {ts ts' : List Token}

theorem nil : ReadAs [] [] := fun _ => rfl

theorem append (h : ReadAs text ts) (h' : ReadAs text' ts') :
    ReadAs (text ++ text') (ts ++ ts') := by
  intro done
  rw [List.foldlM_append, h, Option.bind_eq_bind, Option.bind_some, h', List.reverse_append,
    List.append_assoc]

theorem of_endsItself {t : Token} (h : t.EndsItself) : ReadAs t.chars [t] := by
  intro done
  cases h with
  | text s =>
    have hopen : read? (.between, done) '"' = some (.text [], done) := rfl
    rw [Token.chars, quote, List.foldlM_cons, hopen, Option.bind_eq_bind, Option.bind_some,
      List.foldlM_append, foldlM_flatMap_escapeChar, Option.bind_eq_bind, Option.bind_some]
    simp [read?, step?, joinUnits_map_char]
  | openRecord | closeRecord | openList | closeList | comma | colon => rfl

/-- Tokens that end by themselves are read back from their texts, written one after the other. -/
theorem flatMap_chars (h : ∀ t ∈ ts, t.EndsItself) : ReadAs (ts.flatMap Token.chars) ts := by
  induction ts with
  | nil => exact .nil
  | cons t ts ih =>
    rw [List.forall_mem_cons] at h
    exact (of_endsItself h.1).append (ih h.2)

theorem tokens?_eq (h : ReadAs text ts) : tokens? text = some ts := by
  rw [tokens?, h]
  simp [finish?]

end ReadAs

end JoinForest.Json

namespace JoinForest

/-!
## Documents read back

A document of texts, lists and records (`Document.Textual`) is read back from what is written for
it, on one line or over several ones (`parse?_of_writes`): the machine with the stack takes the
tokens of a document as a whole, whatever is still open and whatever follows (`taken_of_textual`).
The brackets of the text stand inside each other as deep as the document is (`nesting_of_writes`).
-/

/-- A document of texts, lists and records. -/
inductive Document.Textual : Document → Prop
  | text (s : String) : Textual (.text s)
  | list {ds : List Document} : (∀ d ∈ ds, Textual d) → Textual (.list ds)
  | record {fs : List (String × Document)} : (∀ f ∈ fs, Textual f.2) → Textual (.record fs)

namespace Json

/-! ### Tokens of lists and records -/

theorem itemTokens_eq (ds : List Document) :
    itemTokens ds = ds.flatMap fun d => .comma :: tokens d := by
  induction ds with
  | nil => rfl
  | cons d ds ih => rw [itemTokens, ih, List.flatMap_cons, List.cons_append]

theorem fieldTokens_eq (fs : List (String × Document)) :
    fieldTokens fs = fs.flatMap fun f => .comma :: .text (some f.1) :: .colon :: tokens f.2 := by
  induction fs with
  | nil => rfl
  | cons f fs ih =>
    rw [fieldTokens, ih, List.flatMap_cons, List.cons_append, List.cons_append, List.cons_append]

/-- The first item has no comma before it. -/
theorem tokens_list (ds : List Document) :
    tokens (.list ds) = .openList :: ((itemTokens ds).tail ++ [.closeList]) := by
  cases ds <;> rfl

theorem tokens_record (fs : List (String × Document)) :
    tokens (.record fs) = .openRecord :: ((fieldTokens fs).tail ++ [.closeRecord]) := by
  cases fs <;> rfl

theorem endsItself_of_mem_tokens {d : Document} (h : d.Textual) :
    ∀ t ∈ tokens d, t.EndsItself := by
  induction h with
  | text s =>
    intro t ht
    obtain rfl := List.mem_singleton.1 ht
    exact .text s
  | @list ds _ ih =>
    have hitems : ∀ t ∈ itemTokens ds, t.EndsItself := by
      rw [itemTokens_eq]
      intro t ht
      obtain ⟨d, hd, ht⟩ := List.mem_flatMap.1 ht
      exact (List.forall_mem_cons.2 ⟨.comma, ih d hd⟩) t ht
    rw [tokens_list, List.forall_mem_cons, List.forall_mem_append, List.forall_mem_singleton]
    exact ⟨.openList, fun t ht => hitems t (List.mem_of_mem_tail ht), .closeList⟩
  | @record fs _ ih =>
    have hfields : ∀ t ∈ fieldTokens fs, t.EndsItself := by
      rw [fieldTokens_eq]
      intro t ht
      obtain ⟨f, hf, ht⟩ := List.mem_flatMap.1 ht
      simp only [List.mem_cons] at ht
      rcases ht with rfl | rfl | rfl | ht
      · exact .comma
      · exact .text f.1
      · exact .colon
      · exact ih f hf t ht
    rw [tokens_record, List.forall_mem_cons, List.forall_mem_append, List.forall_mem_singleton]
    exact ⟨.openRecord, fun t ht => hfields t (List.mem_of_mem_tail ht), .closeRecord⟩

/-! ### The machine with the stack -/

/-- A list that has been opened takes its first item unless it is closed at once. -/
theorem advance?_firstItem {t : Token} (h : t ≠ .closeList) (stack : List Frame) :
    advance? (.firstItem stack) t = advance? (.value (.list [] :: stack)) t := by
  cases t with
  | closeList => exact absurd rfl h
  | _ => rfl

/-- No value begins with the end of a list. -/
theorem exists_tokens_cons (d : Document) : ∃ t ts, tokens d = t :: ts ∧ t ≠ .closeList := by
  cases d with
  | list ds => exact ⟨_, _, tokens_list ds, nofun⟩
  | record fs => exact ⟨_, _, tokens_record fs, nofun⟩
  | null | bool | number | text | moment | garbled => exact ⟨_, _, rfl, nofun⟩

/-- Records whose keys are texts are not garbled. -/
theorem recordOf_map (fs : List (String × Document)) :
    recordOf (fs.map fun f => (some f.1, f.2)) = .record fs := by
  have hkeys {key : Option String × Document → Option (String × Document)}
      (hkey : ∀ f, key (some f.1, f.2) = some f) :
      (fs.map fun f => (some f.1, f.2)).mapM key = some fs := by
    induction fs with
    | nil => rfl
    | cons f fs ih => simp [hkey, ih]
  rw [recordOf, hkeys fun _ => rfl]

/-- The machine takes the tokens of a document as a whole. -/
def Taken (d : Document) : Prop := ∀ stack rest,
  (tokens d ++ rest).foldlM advance? (.value stack) = rest.foldlM advance? (.after stack d)

/-- The items after the first are put into the open list in their order. -/
theorem foldlM_itemTokens {ds : List Document} (h : ∀ d ∈ ds, Taken d) (stack : List Frame)
    (before : List Document) (d : Document) (rest : List Token) :
    (itemTokens ds ++ .closeList :: rest).foldlM advance? (.after (.list before :: stack) d) =
      rest.foldlM advance? (.after stack (.list (before.reverse ++ d :: ds))) := by
  induction ds generalizing before d with
  | nil =>
    rw [← List.reverse_cons]
    rfl
  | cons e ds ih =>
    rw [List.forall_mem_cons] at h
    change (tokens e ++ itemTokens ds ++ .closeList :: rest).foldlM advance?
      (.value (.list (d :: before) :: stack)) = _
    rw [List.append_assoc, h.1, ih h.2, List.reverse_cons, ← List.append_cons]

/-- The fields after the first are put into the open record in their order. -/
theorem foldlM_fieldTokens {fs : List (String × Document)} (h : ∀ f ∈ fs, Taken f.2)
    (stack : List Frame) (before : List (Option String × Document)) (key : Option String)
    (d : Document) (rest : List Token) :
    (fieldTokens fs ++ .closeRecord :: rest).foldlM advance?
        (.after (.record before key :: stack) d) =
      rest.foldlM advance? (.after stack
        (recordOf (before.reverse ++ (key, d) :: fs.map fun f => (some f.1, f.2)))) := by
  induction fs generalizing before key d with
  | nil =>
    rw [List.map_nil, ← List.reverse_cons]
    rfl
  | cons f fs ih =>
    rw [List.forall_mem_cons] at h
    change (tokens f.2 ++ fieldTokens fs ++ .closeRecord :: rest).foldlM advance?
      (.value (.record ((key, d) :: before) (some f.1) :: stack)) = _
    rw [List.append_assoc, h.1, ih h.2, List.reverse_cons, ← List.append_cons, List.map_cons]

/-- The tokens of a document are taken as this document, whatever is open around them. -/
theorem taken_of_textual {d : Document} (h : d.Textual) : Taken d := by
  induction h with
  | text s => exact fun _ _ => rfl
  | @list ds _ ih =>
    intro stack rest
    cases ds with
    | nil => rfl
    | cons d ds =>
      rw [List.forall_mem_cons] at ih
      obtain ⟨t, ts, htokens, hclose⟩ := exists_tokens_cons d
      have hfirst (later : List Token) :
          (tokens d ++ later).foldlM advance? (.firstItem stack) =
            (tokens d ++ later).foldlM advance? (.value (.list [] :: stack)) := by
        rw [htokens, List.cons_append, List.foldlM_cons, List.foldlM_cons,
          advance?_firstItem hclose]
      change (tokens d ++ itemTokens ds ++ [Token.closeList] ++ rest).foldlM advance?
        (.firstItem stack) = _
      rw [List.append_assoc, List.append_assoc, hfirst, ih.1]
      exact foldlM_itemTokens ih.2 stack [] d rest
  | @record fs _ ih =>
    intro stack rest
    cases fs with
    | nil => rfl
    | cons f fs =>
      rw [List.forall_mem_cons] at ih
      change (tokens f.2 ++ fieldTokens fs ++ [Token.closeRecord] ++ rest).foldlM advance?
        (.value (.record [] (some f.1) :: stack)) = _
      rw [List.append_assoc, List.append_assoc, ih.1, ← recordOf_map]
      exact foldlM_fieldTokens ih.2 stack [] (some f.1) f.2 rest

/-- The tokens of a document are read back as the document. -/
theorem document?_tokens {d : Document} (h : d.Textual) : document? (tokens d) = some d := by
  have htaken := taken_of_textual h [] []
  rw [List.append_nil] at htaken
  rw [document?, htaken]
  rfl

/-! ### Written documents -/

theorem readAs_lineBreak (level : Nat) : ReadAs (lineBreak level) [] := by
  have hblanks (n : Nat) : ReadAs (List.replicate n ' ') [] := by
    induction n with
    | zero => exact .nil
    | succ n ih =>
      have hblank : ReadAs [' '] [] := fun _ => rfl
      exact hblank.append ih
  have hline : ReadAs ['\n'] [] := fun _ => rfl
  exact hline.append (hblanks (2 * level))

theorem readAs_prettyItems {level : Nat} {ds : List Document}
    (h : ∀ d ∈ ds, ReadAs (prettyChars level d) (tokens d)) :
    ReadAs (prettyItems level ds) (itemTokens ds) := by
  induction ds with
  | nil => exact .nil
  | cons d ds ih =>
    rw [List.forall_mem_cons] at h
    exact (ReadAs.of_endsItself .comma).append
      (((readAs_lineBreak level).append h.1).append (ih h.2))

/-- A key stands on its line, with a blank between the colon and the value. -/
theorem readAs_key (level : Nat) (key : String) :
    ReadAs (lineBreak level ++ quote key.toList ++ [':', ' ']) [.text (some key), .colon] := by
  have hcolon : ReadAs [':', ' '] [.colon] := fun _ => rfl
  exact ((readAs_lineBreak level).append (.of_endsItself (.text key))).append hcolon

theorem readAs_prettyFields {level : Nat} {fs : List (String × Document)}
    (h : ∀ f ∈ fs, ReadAs (prettyChars level f.2) (tokens f.2)) :
    ReadAs (prettyFields level fs) (fieldTokens fs) := by
  induction fs with
  | nil => exact .nil
  | cons f fs ih =>
    rw [List.forall_mem_cons] at h
    exact (ReadAs.of_endsItself .comma).append
      (((readAs_key level f.1).append h.1).append (ih h.2))

/-- The lines of a document are read as the tokens that it has without them. -/
theorem readAs_prettyChars {d : Document} (h : d.Textual) (level : Nat) :
    ReadAs (prettyChars level d) (tokens d) := by
  induction h generalizing level with
  | text s => exact .of_endsItself (.text s)
  | @list ds _ ih =>
    cases ds with
    | nil => exact fun _ => rfl
    | cons d ds =>
      have hitems := fun e he => ih e he (level + 1)
      rw [List.forall_mem_cons] at hitems
      rw [prettyChars, List.append_assoc _ (lineBreak level)]
      exact (ReadAs.of_endsItself .openList).append
        ((((readAs_lineBreak (level + 1)).append hitems.1).append
          (readAs_prettyItems hitems.2)).append
            ((readAs_lineBreak level).append (.of_endsItself .closeList)))
  | @record fs _ ih =>
    cases fs with
    | nil => exact fun _ => rfl
    | cons f fs =>
      have hfields := fun e he => ih e he (level + 1)
      rw [List.forall_mem_cons] at hfields
      rw [prettyChars, List.append_assoc _ (lineBreak level)]
      exact (ReadAs.of_endsItself .openRecord).append
        ((((readAs_key (level + 1) f.1).append hfields.1).append
          (readAs_prettyFields hfields.2)).append
            ((readAs_lineBreak level).append (.of_endsItself .closeRecord)))

/-- A document is written on one line or over several ones. -/
def Writes (d : Document) (text : String) : Prop := text = compact d ∨ text = pretty d

/-- Either way its tokens are written. -/
theorem tokens?_of_writes {d : Document} (h : d.Textual) {text : String} (hw : Writes d text) :
    tokens? text.toList = some (tokens d) := by
  rcases hw with rfl | rfl
  · rw [compact, String.toList_ofList]
    exact (ReadAs.flatMap_chars (endsItself_of_mem_tokens h)).tokens?_eq
  · rw [pretty, String.toList_ofList]
    exact (readAs_prettyChars h 0).tokens?_eq

/-- What is written for a document of texts, lists and records is read back as this document. -/
theorem parse?_of_writes {d : Document} (h : d.Textual) {text : String} (hw : Writes d text) :
    parse? text = some d := by
  rw [parse?, tokens?_of_writes h hw, Option.bind_some, document?_tokens h]

/-! ### Nesting -/

/-- The number of open brackets after a token. -/
def Token.openAfter (opened : Nat) : Token → Nat
  | openRecord | openList => opened + 1
  | closeRecord | closeList => opened - 1
  | _ => opened

/-- The largest number of brackets open at once, where some are open before. -/
def deepest (opened : Nat) : List Token → Nat
  | [] => opened
  | t :: ts => max opened (deepest (t.openAfter opened) ts)

/-- How deep the brackets of a text nest. Those inside its strings are none. -/
def nesting (text : String) : Nat := ((tokens? text.toList).map (deepest 0)).getD 0

theorem le_deepest (opened : Nat) (ts : List Token) : opened ≤ deepest opened ts := by
  cases ts with
  | nil => exact Nat.le_refl opened
  | cons t ts => exact Nat.le_max_left _ _

/-- A token that is no bracket does not count. -/
theorem deepest_cons {t : Token} {opened : Nat} (h : t.openAfter opened = opened)
    (ts : List Token) : deepest opened (t :: ts) = deepest opened ts := by
  rw [deepest, h, Nat.max_eq_right (le_deepest opened ts)]

/-- The brackets of a document open as many as it is deep, and close them again. -/
def Nests (d : Document) : Prop := ∀ opened rest,
  deepest opened (tokens d ++ rest) = max (opened + d.depth) (deepest opened rest)

theorem deepest_itemTokens {ds : List Document} (h : ∀ d ∈ ds, Nests d) (opened : Nat)
    (rest : List Token) : deepest opened (itemTokens ds ++ rest) =
      max (opened + Document.depthOfItems ds) (deepest opened rest) := by
  induction ds with
  | nil => exact (Nat.max_eq_right (le_deepest opened rest)).symm
  | cons d ds ih =>
    rw [List.forall_mem_cons] at h
    rw [itemTokens, List.cons_append, deepest_cons rfl, List.append_assoc, h.1, ih h.2,
      Document.depthOfItems]
    omega

theorem deepest_fieldTokens {fs : List (String × Document)} (h : ∀ f ∈ fs, Nests f.2)
    (opened : Nat) (rest : List Token) : deepest opened (fieldTokens fs ++ rest) =
      max (opened + Document.depthOfFields fs) (deepest opened rest) := by
  induction fs with
  | nil => exact (Nat.max_eq_right (le_deepest opened rest)).symm
  | cons f fs ih =>
    rw [List.forall_mem_cons] at h
    rw [fieldTokens, List.cons_append, List.cons_append, List.cons_append, deepest_cons rfl,
      deepest_cons rfl, deepest_cons rfl, List.append_assoc, h.1, ih h.2, Document.depthOfFields]
    omega

/-- The tokens of a document nest as deep as the document does. -/
theorem nests_of_textual {d : Document} (h : d.Textual) : Nests d := by
  induction h with
  | text s =>
    intro opened rest
    exact (deepest_cons rfl rest).trans (Nat.max_eq_right (le_deepest opened rest)).symm
  | @list ds _ ih =>
    intro opened rest
    have hitems (later : List Token) : deepest (opened + 1) ((itemTokens ds).tail ++ later) =
        deepest (opened + 1) (itemTokens ds ++ later) := by
      cases ds with
      | nil => rfl
      | cons d ds => exact (deepest_cons rfl _).symm
    rw [tokens_list, List.cons_append, List.append_assoc, deepest, Token.openAfter, hitems,
      deepest_itemTokens ih, List.singleton_append, deepest, Token.openAfter,
      Nat.add_sub_cancel, Document.depth]
    have hle := le_deepest opened rest
    omega
  | @record fs _ ih =>
    intro opened rest
    have hfields (later : List Token) : deepest (opened + 1) ((fieldTokens fs).tail ++ later) =
        deepest (opened + 1) (fieldTokens fs ++ later) := by
      cases fs with
      | nil => rfl
      | cons f fs => exact (deepest_cons rfl _).symm
    rw [tokens_record, List.cons_append, List.append_assoc, deepest, Token.openAfter, hfields,
      deepest_fieldTokens ih, List.singleton_append, deepest, Token.openAfter,
      Nat.add_sub_cancel, Document.depth]
    have hle := le_deepest opened rest
    omega

/-- The brackets of a written document nest as deep as the document. -/
theorem nesting_of_writes {d : Document} (h : d.Textual) {text : String} (hw : Writes d text) :
    nesting text = d.depth := by
  have hnests := nests_of_textual h 0 []
  rw [List.append_nil, deepest, Nat.zero_add, Nat.max_zero] at hnests
  rw [nesting, tokens?_of_writes h hw, Option.map_some, Option.getD_some, hnests]

/-- Brackets inside a key are none. -/
example : nesting (compact (.record [("[[", .list [.list []])])) = 3 := by decide +kernel

end Json

end JoinForest
