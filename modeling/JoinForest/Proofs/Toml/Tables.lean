import JoinForest.Proofs.Toml.Quotation
import JoinForest.Toml.Text
import Mathlib.Algebra.Ring.Nat

set_option autoImplicit false

/-!
# Tables read back

A text of tables, each with a header and with one key and value on a line, is read back as the
record of these tables. What has to hold of the parts is carried by them: names and keys that need
no quotes, values that are read back up to the end of their line (`ReadsAs`), and keys that differ.
A line is read by itself (`line?_header`, `line?_pair`), the lines of a table add its keys one by
one (`lines?_pairs`), and the tables stand one after the other (`lines?_tables`).
-/

namespace JoinForest.Toml

open Quoting

/-! ## Values -/

/-- What is written is read as a value, up to the end of its line. -/
def ReadsAs (written : List Char) (value : Document) : Prop :=
  ∀ rest, value? nesting (dropBlanks (written ++ '\n' :: rest)) = some (value, '\n' :: rest)

/-- A value that does not begin with a bracket is a scalar. -/
theorem value?_scalar {c : Char} (hlist : c ≠ '[') (hrecord : c ≠ '\x7b') (levels : Nat)
    (rest : List Char) : value? levels (c :: rest) = scalar? (c :: rest) := by
  cases levels with
  | zero => rfl
  | succ levels => simp [value?, hlist, hrecord]

theorem readsAs_true : ReadsAs "true".toList (.bool true) := fun _ => rfl

theorem readsAs_false : ReadsAs "false".toList (.bool false) := fun _ => rfl

theorem readsAs_boolWord (b : Bool) : ReadsAs (boolWord b).toList (.bool b) := by
  cases b with
  | true => exact readsAs_true
  | false => exact readsAs_false

/-- A text in quotes is read as that text. -/
theorem readsAs_text {mark : Char} {body text : List Char} (hmark : mark = '"' ∨ mark = '\x27')
    (h : ∀ rest, string? (mark :: (body ++ '\n' :: rest)) = some (text, '\n' :: rest)) :
    ReadsAs (mark :: body) (.text (String.ofList text)) := by
  intro rest
  have hquote : (mark = '"' || mark = '\x27') = true := by simpa using hmark
  have hscalar : scalar? (mark :: (body ++ '\n' :: rest)) =
      some (.text (String.ofList text), '\n' :: rest) := by
    simp only [scalar?, hquote, if_true, h rest, Option.map_some]
  have hblank : dropBlanks (mark :: body ++ '\n' :: rest) = mark :: (body ++ '\n' :: rest) := by
    rcases hmark with rfl | rfl <;> rfl
  rw [hblank, value?_scalar, hscalar]
  · rcases hmark with rfl | rfl <;> decide
  · rcases hmark with rfl | rfl <;> decide

theorem readsAs_basic (text : List Char) : ReadsAs (basic text) (.text (String.ofList text)) := by
  have h (rest : List Char) : ('\n' :: rest).head? ≠ some '"' := by simp
  apply readsAs_text (.inl rfl)
  intro rest
  exact string?_basic (h rest) text

/-- Whichever quotes the writer chooses, the text is read back. -/
theorem readsAs_plainest (text : List Char) :
    ReadsAs (plainest text) (.text (String.ofList text)) := by
  have hdouble (rest : List Char) : ('\n' :: rest).head? ≠ some '"' := by simp
  have hsingle (rest : List Char) : ('\n' :: rest).head? ≠ some '\x27' := by simp
  obtain ⟨mark, body, hbody, hmark⟩ := plainest_eq_cons text
  rw [hbody]
  apply readsAs_text hmark
  intro rest
  rw [← List.cons_append, ← hbody]
  exact string?_plainest (hdouble rest) (hsingle rest) text

/-! ## Names -/

/-- A name that needs no quotes as a key. -/
structure IsBareName (name : List Char) : Prop where
  nonempty : name ≠ []
  bare : name.all isBare = true

theorem IsBareName.all_bare {name : List Char} (h : IsBareName name) :
    ∀ c ∈ name, isBare c = true :=
  List.all_eq_true.1 h.bare

theorem IsBareName.exists_cons {name : List Char} (h : IsBareName name) :
    ∃ c later, name = c :: later ∧ isBare c = true := by
  obtain ⟨c, later, rfl⟩ := List.exists_cons_of_ne_nil h.nonempty
  exact ⟨c, later, rfl, h.all_bare c List.mem_cons_self⟩

section Names

variable {name : List Char} (hname : IsBareName name) {d : Char} (hd : isBare d = false)
  (rest : List Char)

include hname

theorem dropBlanks_name (text : List Char) : dropBlanks (name ++ text) = name ++ text := by
  obtain ⟨c, later, rfl, hc⟩ := hname.exists_cons
  have hblank : c ≠ ' ' ∧ c ≠ '\t' := ⟨ne_of_test hc rfl, ne_of_test hc rfl⟩
  simp [dropBlanks, hblank]

theorem dropSpace?_name (text : List Char) :
    dropSpace? false (name ++ text) = some (name ++ text) := by
  obtain ⟨c, later, rfl, hc⟩ := hname.exists_cons
  have hreturn : c ≠ '\r' := ne_of_test hc rfl
  have hblank : c ≠ ' ' ∧ c ≠ '\t' ∧ c ≠ '\n' ∧ c ≠ '#' :=
    ⟨ne_of_test hc rfl, ne_of_test hc rfl, ne_of_test hc rfl, ne_of_test hc rfl⟩
  simp [dropSpace?, hreturn, hblank]

include hd

/-- A bare name is read up to the first character that is none of it. -/
theorem keyPart?_name :
    keyPart? (name ++ d :: rest) = some (String.ofList name, d :: rest) := by
  have htake : (name ++ d :: rest).takeWhile isBare = name := by
    rw [List.takeWhile_append_of_pos hname.all_bare]
    simp [hd]
  have hdrop : (name ++ d :: rest).dropWhile isBare = d :: rest := by
    rw [List.dropWhile_append_of_pos hname.all_bare]
    simp [hd]
  have hnonempty : name.isEmpty = false := by simpa using hname.nonempty
  obtain ⟨c, later, rfl, hc⟩ := hname.exists_cons
  have hquotes : c ≠ '"' ∧ c ≠ '\x27' := ⟨ne_of_test hc rfl, ne_of_test hc rfl⟩
  rw [List.cons_append] at htake hdrop ⊢
  rw [keyPart?, htake, hdrop, hnonempty]
  · rfl
  · simp [hquotes]
  · simp [hquotes]

/-- A name is read as a key of one part, unless a dot follows it. -/
theorem key?_name {after : List Char} (hafter : dropBlanks (d :: rest) = after)
    (hdot : after.head? ≠ some '.') (parts : Nat) :
    key? (parts + 1) (name ++ d :: rest) = some ([String.ofList name], after) := by
  simp only [key?, dropBlanks_name hname, keyPart?_name hname hd, hafter, Option.bind_eq_bind,
    Option.bind_some]
  split
  · exact absurd rfl hdot
  · rfl

end Names

/-! ## Tables under construction -/

namespace Entries

variable {key : String} {done : Entries}

theorem lookup_of_not_mem (h : key ∉ done.map (·.1)) : done.lookup key = none := by
  rw [List.lookup_eq_none_iff]
  rintro ⟨other, item⟩ hmem
  have hne : key ≠ other := by
    rintro rfl
    exact h (List.mem_map.2 ⟨_, hmem, rfl⟩)
  simpa using hne

theorem lookup_append (h : key ∉ done.map (·.1)) (item : Item) (rest : Entries) :
    (done ++ (key, item) :: rest).lookup key = some item := by
  rw [List.lookup_append, lookup_of_not_mem h, Option.none_or, List.lookup_cons_self]

theorem put_append (h : key ∉ done.map (·.1)) (item : Item) (rest : Entries) :
    put key item (done ++ rest) = done ++ put key item rest := by
  induction done with
  | nil => rfl
  | cons entry done ih =>
    obtain ⟨other, old⟩ := entry
    rw [List.map_cons] at h
    have hne : other ≠ key := Ne.symm (List.ne_of_not_mem_cons h)
    simp only [List.cons_append, put, if_neg hne, ih (List.not_mem_of_not_mem_cons h)]

theorem put_of_not_mem (h : key ∉ done.map (·.1)) (item : Item) :
    put key item done = done ++ [(key, item)] := by
  simpa [put] using put_append h item []

end Entries

/-- The draft in which the last table has been opened by its header. -/
def Draft.under (done : Entries) (name : String) (entries : Entries) : Draft :=
  ⟨done ++ [(name, .table .opened entries)], [name]⟩

theorem Draft.atLast_openTable {done : Entries} {name : String} (h : name ∉ done.map (·.1))
    (header : List String) :
    (Draft.mk done header).atLast Entries.openTable [name] = some (.under done name []) := by
  simp [atLast, Entries.change, Entries.openTable, Entries.lookup_of_not_mem h,
    Entries.put_of_not_mem h, under]

/-- A key with a value goes into the table that was opened last. -/
theorem Draft.define_under {done entries : Entries} {name key : String}
    (hname : name ∉ done.map (·.1)) (hkey : key ∉ entries.map (·.1)) (value : Document) :
    (Draft.under done name entries).define [key] value =
      some (.under done name (entries ++ [(key, .value value)])) := by
  have hsub : Entries.define value [key] entries = some (entries ++ [(key, .value value)]) := by
    simp [Entries.define, Entries.lookup_of_not_mem hkey, Entries.put_of_not_mem hkey]
  simp [define, under, Entries.change, Entries.lookup_append hname, Entries.put_append hname, hsub,
    Entries.put]

/-! ## Lines -/

/-- A key with a value, on one line. -/
structure WrittenPair where
  key : List Char
  written : List Char
  value : Document
  bare : IsBareName key
  reads : ReadsAs written value

namespace WrittenPair

/-- The line of a pair. -/
def text (p : WrittenPair) : List Char := p.key ++ ' ' :: '=' :: ' ' :: (p.written ++ ['\n'])

/-- The name of the key. -/
def name (p : WrittenPair) : String := String.ofList p.key

/-- The key with its value. -/
def field (p : WrittenPair) : String × Document := (p.name, p.value)

/-- The key with its value, in a table under construction. -/
def entry (p : WrittenPair) : String × Item := (p.name, .value p.value)

end WrittenPair

/-- A pair is read as its name and its value, up to the end of the line. -/
theorem pair?_text (p : WrittenPair) (rest : List Char) :
    pair? (value? nesting) (p.text ++ rest) = some (([p.name], p.value), '\n' :: rest) := by
  have hsplit : p.text ++ rest = p.key ++ ' ' :: '=' :: ' ' :: (p.written ++ '\n' :: rest) := by
    simp [WrittenPair.text]
  have hblank (after : List Char) : dropBlanks (' ' :: '=' :: after) = '=' :: after := rfl
  have hdot (after : List Char) : ('=' :: after).head? ≠ some '.' := by simp
  have hkey : key? nesting (p.text ++ rest) =
      some ([p.name], '=' :: ' ' :: (p.written ++ '\n' :: rest)) := by
    rw [hsplit]
    exact key?_name p.bare rfl _ (hblank _) (hdot _) 78
  have hvalue : value? nesting (dropBlanks (' ' :: (p.written ++ '\n' :: rest))) =
      some (p.value, '\n' :: rest) := p.reads rest
  simp only [pair?, hkey, Option.bind_eq_bind, Option.bind_some, hvalue]
  rfl

theorem dropLine?_feed (rest : List Char) : dropLine? ('\n' :: rest) = some rest := rfl

theorem line?_pair (draft : Draft) (p : WrittenPair) (rest : List Char) :
    line? draft (p.text ++ rest) = (draft.define [p.name] p.value).map (·, rest) := by
  have hpair := pair?_text p rest
  obtain ⟨c, later, hkey, hc⟩ := p.bare.exists_cons
  have hopen : c ≠ '[' := ne_of_test hc rfl
  obtain ⟨others, hothers⟩ : ∃ others, p.text ++ rest = c :: others := by
    simp [WrittenPair.text, hkey]
  rw [hothers] at hpair ⊢
  rw [line?]
  · simp only [hpair, Option.bind_eq_bind, Option.bind_some, dropLine?_feed]
    cases draft.define [p.name] p.value with
    | none => rfl
    | some draft => rfl
  · simp [hopen]
  · simp [hopen]

/-- A table with its header and its keys, which differ. -/
structure WrittenTable where
  header : List Char
  pairs : List WrittenPair
  bare : IsBareName header
  distinct : (pairs.map (·.name)).Nodup

namespace WrittenTable

/-- The lines of a table. -/
def text (t : WrittenTable) : List Char :=
  '[' :: (t.header ++ ']' :: '\n' :: t.pairs.flatMap (·.text))

/-- The name of a table. -/
def name (t : WrittenTable) : String := String.ofList t.header

/-- The name of a table with its record. -/
def field (t : WrittenTable) : String × Document := (t.name, .record (t.pairs.map (·.field)))

/-- The name of a table with its entries, in a text under construction. -/
def entry (t : WrittenTable) : String × Item := (t.name, .table .opened (t.pairs.map (·.entry)))

end WrittenTable

/-- The lines of tables, with an empty line in front of each. -/
def tablesText (tables : List WrittenTable) : List Char :=
  tables.flatMap fun t => '\n' :: t.text

/-- A header opens a table of its name, which must be new. -/
theorem line?_header {done : Entries} {name : List Char} (hname : IsBareName name)
    (hdone : String.ofList name ∉ done.map (·.1)) (header : List String) (rest : List Char) :
    line? ⟨done, header⟩ ('[' :: (name ++ ']' :: '\n' :: rest)) =
      some (.under done (String.ofList name) [], rest) := by
  have hblank : dropBlanks (']' :: '\n' :: rest) = ']' :: '\n' :: rest := rfl
  have hkey : key? nesting (name ++ ']' :: '\n' :: rest) =
      some ([String.ofList name], ']' :: '\n' :: rest) :=
    key?_name hname rfl _ hblank (by simp) 78
  obtain ⟨c, later, rfl, hc⟩ := hname.exists_cons
  have hopen : c ≠ '[' := ne_of_test hc rfl
  rw [List.cons_append] at hkey ⊢
  rw [line?]
  · simp only [hkey, Option.bind_eq_bind, Option.bind_some, dropLine?_feed,
      Draft.atLast_openTable hdone]
    rfl
  · simp [hopen]

/-! ## Texts -/

/-- An empty line does not count. -/
theorem lines?_feed (bound : Nat) (draft : Draft) (text : List Char) :
    lines? (bound + 1) draft ('\n' :: text) = lines? (bound + 1) draft text := by
  simp [lines?, dropSpace?]

theorem lines?_pair {draft draft' : Draft} {p : WrittenPair}
    (h : draft.define [p.name] p.value = some draft') (bound : Nat) (rest : List Char) :
    lines? (bound + 1) draft (p.text ++ rest) = lines? bound draft' rest := by
  have hline := line?_pair draft p rest
  have hspace : dropSpace? false (p.text ++ rest) = some (p.text ++ rest) := by
    rw [WrittenPair.text, List.append_assoc]
    exact dropSpace?_name p.bare _
  obtain ⟨c, later, hkey, -⟩ := p.bare.exists_cons
  obtain ⟨others, hothers⟩ : ∃ others, p.text ++ rest = c :: others := by
    simp [WrittenPair.text, hkey]
  rw [hothers] at hline hspace ⊢
  simp [lines?, hspace, hline, h]

/-- The pairs of a table add their keys one by one. -/
theorem lines?_pairs {done : Entries} {name : String} (hname : name ∉ done.map (·.1))
    (bound : Nat) (rest : List Char) (pairs : List WrittenPair) {entries : Entries}
    (hdistinct : (entries.map (·.1) ++ pairs.map (·.name)).Nodup) :
    lines? (bound + pairs.length) (.under done name entries) (pairs.flatMap (·.text) ++ rest) =
      lines? bound (.under done name (entries ++ pairs.map (·.entry))) rest := by
  -- By induction on the pairs; the entries of those before stay in front.
  induction pairs generalizing entries with
  | nil => simp
  | cons p pairs ih =>
    have hkey : p.name ∉ entries.map (·.1) := by
      intro hmem
      exact (List.nodup_append.1 hdistinct).2.2 _ hmem _ List.mem_cons_self rfl
    have hdefine := Draft.define_under hname hkey p.value
    have hlater : ((entries ++ [p.entry]).map (·.1) ++ pairs.map (·.name)).Nodup := by
      simpa [WrittenPair.entry] using hdistinct
    rw [List.flatMap_cons, List.append_assoc, List.length_cons, ← Nat.add_assoc,
      lines?_pair hdefine]
    simpa [WrittenPair.entry] using ih hlater

/-- A table, its header and its pairs, becomes an entry behind those that were there. -/
theorem lines?_table {done : Entries} {t : WrittenTable} (hname : t.name ∉ done.map (·.1))
    (header : List String) (bound : Nat) (rest : List Char) :
    lines? (bound + t.pairs.length + 1) ⟨done, header⟩ (t.text ++ rest) =
      lines? bound ⟨done ++ [t.entry], [t.name]⟩ rest := by
  have hline := line?_header t.bare hname header (t.pairs.flatMap (·.text) ++ rest)
  have htext : t.text ++ rest =
      '[' :: (t.header ++ ']' :: '\n' :: (t.pairs.flatMap (·.text) ++ rest)) := by
    simp [WrittenTable.text]
  have hspace (after : List Char) : dropSpace? false ('[' :: after) = some ('[' :: after) := by
    simp [dropSpace?]
  have hdistinct : (([] : Entries).map (·.1) ++ t.pairs.map (·.name)).Nodup := t.distinct
  have hpairs := lines?_pairs hname bound rest t.pairs hdistinct
  rw [htext]
  simp only [lines?, hspace, hline, Option.bind_eq_bind, Option.bind_some]
  exact hpairs

/-- The number of lines of tables, without the empty ones. -/
def lineCount (tables : List WrittenTable) : Nat :=
  (tables.map fun t => t.pairs.length + 1).sum

/-- The tables of a text stand one after the other. -/
theorem lines?_tables (tables : List WrittenTable) {done : Entries}
    (hdistinct : (done.map (·.1) ++ tables.map (·.name)).Nodup) (header : List String)
    (bound : Nat) :
    (lines? (bound + 1 + lineCount tables) ⟨done, header⟩ (tablesText tables)).map (·.root) =
      some (done ++ tables.map (·.entry)) := by
  -- The tables read so far are done with: a later header only adds to them.
  induction tables generalizing done header with
  | nil => simp [lineCount, tablesText, lines?, dropSpace?]
  | cons t tables ih =>
    have hname : t.name ∉ done.map (·.1) := by
      intro hmem
      exact (List.nodup_append.1 hdistinct).2.2 _ hmem _ List.mem_cons_self rfl
    have hlater : ((done ++ [t.entry]).map (·.1) ++ tables.map (·.name)).Nodup := by
      simpa [WrittenTable.entry] using hdistinct
    have hcount : bound + 1 + lineCount (t :: tables) =
        bound + 1 + lineCount tables + t.pairs.length + 1 := by
      simp only [lineCount, List.map_cons, List.sum_cons]
      omega
    have htext : tablesText (t :: tables) = '\n' :: (t.text ++ tablesText tables) := by
      simp [tablesText]
    rw [hcount, htext, lines?_feed, lines?_table hname, ih hlater]
    simp

/-- There are no more pairs than characters, so the length of the text bounds the lines. -/
theorem length_pairs_le (pairs : List WrittenPair) :
    pairs.length ≤ (pairs.flatMap (·.text)).length := by
  induction pairs with
  | nil => exact Nat.le_refl 0
  | cons p pairs ih =>
    have hline : 1 ≤ p.text.length := by
      simp only [WrittenPair.text, List.length_append, List.length_cons]
      omega
    rw [List.flatMap_cons, List.length_append, List.length_cons]
    omega

/-- There are no more lines than characters. -/
theorem lineCount_le (tables : List WrittenTable) :
    lineCount tables + tables.length ≤ (tablesText tables).length := by
  induction tables with
  | nil => exact Nat.le_refl 0
  | cons t tables ih =>
    have hpairs := length_pairs_le t.pairs
    simp only [lineCount, tablesText, List.map_cons, List.sum_cons, List.flatMap_cons,
      List.length_append, List.length_cons, WrittenTable.text] at ih ⊢
    omega

theorem fieldsOf_pairs (pairs : List WrittenPair) :
    fieldsOf (pairs.map (·.entry)) = pairs.map (·.field) := by
  induction pairs with
  | nil => rfl
  | cons p pairs ih =>
    rw [List.map_cons, List.map_cons, ← ih]
    rfl

theorem fieldsOf_tables (tables : List WrittenTable) :
    fieldsOf (tables.map (·.entry)) = tables.map (·.field) := by
  induction tables with
  | nil => rfl
  | cons t tables ih =>
    rw [List.map_cons, List.map_cons, ← ih, WrittenTable.field, ← fieldsOf_pairs]
    rfl

/-- Tables with different names are read as the record of them. -/
theorem parse?_tables {text : String} {t : WrittenTable} {tables : List WrittenTable}
    (htext : text.toList = t.text ++ tablesText tables)
    (hdistinct : ((t :: tables).map (·.name)).Nodup) :
    parse? text = some (.record ((t :: tables).map (·.field))) := by
  have hmark : dropMark text.toList = text.toList := by
    rw [htext]
    rfl
  have hall : tablesText (t :: tables) = '\n' :: text.toList := by
    rw [htext]
    rfl
  obtain ⟨bound, hbound⟩ : ∃ bound, text.length + 1 = bound + 1 + lineCount (t :: tables) := by
    have hcount := lineCount_le (t :: tables)
    rw [hall, List.length_cons, List.length_cons, String.length_toList] at hcount
    exact ⟨text.length - lineCount (t :: tables), by omega⟩
  have hnames : (([] : Entries).map (·.1) ++ (t :: tables).map (·.name)).Nodup := hdistinct
  have hlines := lines?_tables (t :: tables) hnames [] bound
  rw [← hbound, hall, lines?_feed, List.nil_append] at hlines
  obtain ⟨draft, hdraft, hroot⟩ := Option.map_eq_some_iff.1 hlines
  rw [parse?, hmark, hdraft, Option.map_some, hroot, fieldsOf_tables]

end JoinForest.Toml
