import JoinForest.Proofs.Schema.Numbering
import JoinForest.Proofs.Schema.Reachable
import JoinForest.Schema.Export
import JoinForest.Text.Reader
import Mathlib.Data.List.Forall2

set_option autoImplicit false

/-!
# Drawn schemas

The statements of a schema in the DOT language: which node an identifier denotes
(`Reachable.dot_identifiers`), and that the whole text is read back line by line
(`Schema.dot_document`).
-/

namespace JoinForest

/-!
## Identifiers of a drawn schema

A graph in the DOT language knows a node by its identifier alone, and statements with one identifier
are about one node. Every node of a schema has a statement that begins with its quoted name, and
every edge one with those of its two ends (`forall₂_nodeLine`, `forall₂_edgeLine`). Reading a quoted
name back gives the name without its carriage returns (`Dot.readName_escape`). So two identifiers
are equal exactly if the names agree but for carriage returns (`Dot.quoted_eq_iff`), and every
identifier of a reachable schema denotes one node exactly if its names still differ without them
(`Reachable.dot_identifiers`). `Sample.dot_collision` draws two tables as one node.
-/

namespace Dot

/-! ### Quoted names -/

/-- The quoted string that a name is written as. -/
def quoted (name : String) : String := "\"" ++ escape name ++ "\""

/-- A text without its carriage returns. -/
def withoutReturns (text : String) : String := String.ofList (text.toList.filter (· ≠ '\r'))

/-- What a backslash and a character stand for: quotes and backslashes for themselves, `n` for a
line feed, and any other for the two as they are. -/
def unescape (c : Char) : List Char :=
  if c = '"' ∨ c = '\\' then [c] else if c = 'n' then ['\n'] else ['\\', c]

/-- The text up to the first double quote that no backslash escapes, and what is left behind it. -/
def readName : List Char → Option (List Char × List Char)
  | [] => none
  | [c] => if c = '"' then some ([], []) else none
  | c :: d :: rest =>
    if c = '"' then some ([], d :: rest)
    else if c = '\\' then (readName rest).map fun (text, after) => (unescape d ++ text, after)
    else (readName (d :: rest)).map fun (text, after) => (c :: text, after)

theorem readName_quote (after : List Char) : readName ('"' :: after) = some ([], after) := by
  cases after with
  | nil => rfl
  | cons d rest => rfl

theorem readName_cons_of_ne {c : Char} (hquote : c ≠ '"') (hslash : c ≠ '\\') (text : List Char) :
    readName (c :: text) = (readName text).map fun (text, after) => (c :: text, after) := by
  cases text with
  | nil => simp [readName, hquote]
  | cons d rest => simp [readName, hquote, hslash]

/-- An escaped character is read as itself, and a carriage return as nothing. -/
theorem readName_escapeChar (c : Char) (rest : List Char) :
    readName (escapeChar c ++ rest) =
      (readName rest).map fun (text, after) => ([c].filter (· ≠ '\r') ++ text, after) := by
  by_cases hslash : c = '\\'
  · subst hslash
    rfl
  by_cases hquote : c = '"'
  · subst hquote
    rfl
  by_cases hfeed : c = '\n'
  · subst hfeed
    rfl
  by_cases hreturn : c = '\r'
  · subst hreturn
    simp [escapeChar]
  · have hself : escapeChar c = [c] := by simp [escapeChar, hslash, hquote, hfeed, hreturn]
    rw [hself, List.singleton_append, readName_cons_of_ne hquote hslash]
    simp [hreturn]

/-- A name is read back without its carriage returns, whatever follows its closing quote. -/
theorem readName_escape (name : String) (after : List Char) :
    readName ((escape name).toList ++ '"' :: after) =
      some ((withoutReturns name).toList, after) := by
  rw [escape, withoutReturns, String.toList_ofList, String.toList_ofList]
  -- By induction on the name: every character is escaped by itself, so the reader that has taken
  -- one stands at the front of the next.
  induction name.toList with
  | nil => exact readName_quote after
  | cons c rest ih =>
    rw [List.flatMap_cons, List.append_assoc, readName_escapeChar, ih]
    exact congrArg (fun text => some (text, after)) (List.filter_append [c] rest).symm

/-- Carriage returns leave no trace. -/
theorem escape_withoutReturns (name : String) : escape (withoutReturns name) = escape name := by
  rw [escape, escape, withoutReturns, String.toList_ofList]
  congr 1
  induction name.toList with
  | nil => rfl
  | cons c rest ih =>
    by_cases hreturn : c = '\r'
    · subst hreturn
      exact ih
    · rw [List.filter_cons_of_pos (by simpa using hreturn), List.flatMap_cons, List.flatMap_cons,
        ih]

/-- Two names are written alike exactly if they differ in carriage returns at most. -/
theorem quoted_eq_iff {a b : String} :
    quoted a = quoted b ↔ withoutReturns a = withoutReturns b := by
  constructor
  · intro h
    have hescape : (escape a).toList = (escape b).toList := by
      simpa [quoted] using congrArg String.toList h
    have hread := readName_escape a []
    rw [hescape, readName_escape b []] at hread
    apply String.toList_inj.1
    exact (congrArg Prod.fst (Option.some.inj hread)).symm
  · intro h
    rw [quoted, quoted, ← escape_withoutReturns a, h, escape_withoutReturns b]

/-! ### Statements -/

/-- The statement of a node with an identifier. -/
def IsNode (id line : String) : Prop :=
  ∃ attributes, line = "  " ++ id ++ " [" ++ attributes ++ "];\n"

/-- The statement of an edge between two identifiers. -/
def IsEdge (tail head line : String) : Prop :=
  ∃ attributes, line = "  " ++ tail ++ " -> " ++ head ++ " [" ++ attributes ++ "];\n"

theorem isNode_nodeLine (e : Entry) : IsNode (quoted (Entry.name e)) (nodeLine e) := by
  refine ⟨"label=\"" ++ label e.label ++ "\"" ++ (if e.parent.isNone then ", penwidth=2" else ""),
    String.toList_inj.1 ?_⟩
  simp [nodeLine, quoted]

theorem isEdge_edgeLine (parent child : String) (join : Join) :
    IsEdge (quoted parent) (quoted child) (edgeLine parent child join) := by
  refine ⟨"label=\"" ++ join.kind.name ++ "\"" ++
    (if join.overridden then ", style=dashed" else ""), String.toList_inj.1 ?_⟩
  simp [edgeLine, quoted]

end Dot

namespace Schema

variable {s : Schema}

/-- The nodes that an identifier denotes. -/
def denoted (s : Schema) (id : String) : List Entry :=
  s.entries.filter fun e => Dot.quoted (Entry.name e) == id

/-- The statement of an edge, between the identifiers of its two ends. -/
def DrawnEdge (s : Schema) (d : Edge) (line : String) : Prop :=
  ∃ p c, s.entries[d.parent]? = some p ∧ s.entries[d.child]? = some c ∧
    Dot.IsEdge (Dot.quoted (Entry.name p)) (Dot.quoted (Entry.name c)) line

/-- There is one line for every node, in the order of the nodes. -/
theorem forall₂_nodeLine (s : Schema) :
    List.Forall₂ (fun e line => Dot.IsNode (Dot.quoted (Entry.name e)) line) s.entries
      (s.entries.map Dot.nodeLine) := by
  rw [List.forall₂_map_right_iff]
  exact List.forall₂_same.2 fun e _ => Dot.isNode_nodeLine e

/-- Edges and their written form are read off the nodes in step, each with the names of its two
ends. -/
theorem forall₂_namedEdges (s : Schema) :
    List.Forall₂ (fun (d : Edge) named => ∃ p c, s.entries[d.parent]? = some p ∧
      s.entries[d.child]? = some c ∧ named = (Entry.name p, Entry.name c, d.join))
      s.edges s.namedEdges := by
  have hsame : List.Forall₂ (fun e e' => e = e' ∧ e ∈ s.entries) s.entries s.entries :=
    List.forall₂_same.2 fun e he => ⟨rfl, he⟩
  apply List.rel_filterMap ?_ hsame
  rintro e _ ⟨rfl, he⟩
  -- A node has an edge and a statement for it, or neither: a parent is found wherever one is named.
  cases hk : e.parent with
  | none => simp [Entry.edge?, parent?, hk]
  | some k =>
    obtain ⟨p, hp, hparent⟩ := exists_parent he hk
    cases hj : e.label.join with
    | none => simp [Entry.edge?, hparent, hk, hj]
    | some join =>
      simp only [Entry.edge?, hparent, hk, hj]
      exact .some ⟨p, e, hp, getElem?_key he, rfl⟩

theorem forall₂_edgeLine (s : Schema) :
    List.Forall₂ s.DrawnEdge s.edges (s.namedEdges.map fun (p, c, j) => Dot.edgeLine p c j) := by
  rw [List.forall₂_map_right_iff]
  apply s.forall₂_namedEdges.imp
  rintro d _ ⟨p, c, hp, hc, rfl⟩
  exact ⟨p, c, hp, hc, Dot.isEdge_edgeLine _ _ d.join⟩

/-- The nodes that are written like a name. -/
theorem mem_denoted_iff {e : Entry} {name : String} :
    e ∈ s.denoted (Dot.quoted name) ↔
      e ∈ s.entries ∧ Dot.withoutReturns (Entry.name e) = Dot.withoutReturns name := by
  rw [denoted, List.mem_filter, beq_iff_eq, Dot.quoted_eq_iff]

theorem nodup_denoted (s : Schema) (id : String) : (s.denoted id).Nodup := by
  apply List.Nodup.filter
  apply s.entries_pairwise.imp
  intro e e' hlt heq
  exact Nat.ne_of_lt hlt (congrArg Forest.Placed.key heq)

/-- An identifier denotes one node alone exactly if no other node is written like it. -/
theorem denoted_eq_singleton_iff {e : Entry} (he : e ∈ s.entries) :
    s.denoted (Dot.quoted (Entry.name e)) = [e] ↔
      ∀ a ∈ s.entries,
        Dot.withoutReturns (Entry.name a) = Dot.withoutReturns (Entry.name e) → a = e := by
  constructor
  · intro h a ha hname
    have hmem : a ∈ s.denoted (Dot.quoted (Entry.name e)) := mem_denoted_iff.2 ⟨ha, hname⟩
    rw [h] at hmem
    exact List.mem_singleton.1 hmem
  · intro h
    apply List.perm_singleton.1
    apply (List.perm_ext_iff_of_nodup (s.nodup_denoted _) (List.nodup_singleton e)).2
    intro a
    rw [mem_denoted_iff, List.mem_singleton]
    constructor
    · rintro ⟨ha, hname⟩
      exact h a ha hname
    · rintro rfl
      exact ⟨he, rfl⟩

end Schema

/-- The drawing of a reachable schema has one statement for each node and one for each edge, between
the identifiers of these nodes. Two nodes have the same identifier exactly if their names agree but
for carriage returns, so every identifier denotes one node alone exactly if no two names do. -/
theorem Reachable.dot_identifiers {s : Schema} (h : Reachable s) :
    (∃ nodeLines edgeLines : List String,
      s.toDot = Dot.header ++ String.join nodeLines ++ "\n" ++ String.join edgeLines ++ "\x7d\n" ∧
      List.Forall₂ (fun e line => Dot.IsNode (Dot.quoted (Entry.name e)) line) s.entries nodeLines ∧
      List.Forall₂ s.DrawnEdge s.edges edgeLines) ∧
    (∀ a ∈ s.entries, ∀ b ∈ s.entries,
      (Dot.quoted (Entry.name a) = Dot.quoted (Entry.name b) ↔
        Dot.withoutReturns (Entry.name a) = Dot.withoutReturns (Entry.name b))) ∧
    ((∀ e ∈ s.entries, s.denoted (Dot.quoted (Entry.name e)) = [e]) ↔
      ∀ m ∈ s.names, ∀ n ∈ s.names, Dot.withoutReturns m = Dot.withoutReturns n → m = n) := by
  refine ⟨⟨_, _, rfl, s.forall₂_nodeLine, s.forall₂_edgeLine⟩,
    fun _ _ _ _ => Dot.quoted_eq_iff, ?_⟩
  constructor
  · intro halone m hm n hn hname
    obtain ⟨a, ha, rfl⟩ := Schema.mem_names_iff.1 hm
    obtain ⟨e, he, rfl⟩ := Schema.mem_names_iff.1 hn
    rw [(Schema.denoted_eq_singleton_iff he).1 (halone e he) a ha hname]
  · intro hnames e he
    refine (Schema.denoted_eq_singleton_iff he).2 fun a ha hname => ?_
    have hsame := hnames _ (Schema.mem_names_iff.2 ⟨a, ha, rfl⟩) _
      (Schema.mem_names_iff.2 ⟨e, he, rfl⟩) hname
    exact h.sound.entry_eq_of_name ha he hsame

namespace Sample

/-- A table whose foreign key refers to the second one. -/
def itemSource (name item : String) : Source :=
  .table ⟨name, ["item_id"], [], [.single "item_id" item "id"]⟩

/-- A table with one key column. -/
def keyedSource (name : String) : Source := .table ⟨name, ["id"], ["id"], []⟩

/-- One table with another below. -/
def itemSchema (name item : String) : Schema :=
  ⟨.tree ⟨itemSource name item, none⟩
    (.tree ⟨keyedSource item, some (keyJoin name "item_id" item "id")⟩ .nil)⟩

/-- A line feed and a backslash before an `n` are written differently. -/
theorem dot_identifiers_feed :
    Reachable (itemSchema "line\nitem" "line\\nitem") ∧
      ∀ e ∈ (itemSchema "line\nitem" "line\\nitem").entries,
        (itemSchema "line\nitem" "line\\nitem").denoted (Dot.quoted (Entry.name e)) = [e] := by
  have h : Reachable (itemSchema "line\nitem" "line\\nitem") :=
    .build (show Schema.build (.tree (itemSource "line\nitem" "line\\nitem")
      (.tree (keyedSource "line\\nitem") .nil)) .empty {} = .ok _ from rfl)
  exact ⟨h, (Reachable.dot_identifiers h).2.2.2 (by decide)⟩

/-- A carriage return is not written, and two tables are drawn as one node that is joined onto
itself. -/
theorem dot_collision :
    Reachable (itemSchema "lineitem" "line\ritem") ∧
      (itemSchema "lineitem" "line\ritem").names = ["lineitem", "line\ritem"] ∧
      (itemSchema "lineitem" "line\ritem").entries.map (fun e => Dot.quoted (Entry.name e)) =
        ["\"lineitem\"", "\"lineitem\""] ∧
      (itemSchema "lineitem" "line\ritem").toDot = Dot.header ++
        String.join ["  \"lineitem\" [label=\"lineitem\", penwidth=2];\n",
          "  \"lineitem\" [label=\"lineitem\"];\n"] ++ "\n" ++
        String.join ["  \"lineitem\" -> \"lineitem\" [label=\"left_outer\"];\n"] ++ "\x7d\n" := by
  have hreach : Reachable (itemSchema "lineitem" "line\ritem") :=
    .build (show Schema.build (.tree (itemSource "lineitem" "line\ritem")
      (.tree (keyedSource "line\ritem") .nil)) .empty {} = .ok _ from rfl)
  have hnodes : (itemSchema "lineitem" "line\ritem").entries.map Dot.nodeLine =
      ["  \"lineitem\" [label=\"lineitem\", penwidth=2];\n",
        "  \"lineitem\" [label=\"lineitem\"];\n"] := by decide
  have hedges : (itemSchema "lineitem" "line\ritem").namedEdges.map
      (fun (p, c, j) => Dot.edgeLine p c j) =
        ["  \"lineitem\" -> \"lineitem\" [label=\"left_outer\"];\n"] := by decide
  refine ⟨hreach, by decide, by decide, ?_⟩
  rw [Schema.toDot, hnodes, hedges]

end Sample

/-!
## Reading a drawn schema

Whatever characters names and relations hold, a drawing consists of its header, one line for each
node, an empty line, one line for each edge and the closing brace (`Schema.dot_document`). No name
breaks a line (`Dot.lineFeed_notMem_escape`), so that dividing the text at its line feeds gives
these lines and no others (`Dot.splitOn_unlines`). No name ends its string early or keeps it open,
so that a reader of quoted strings finds in the line of a node the name and the caption, and in the
line of an edge the names of both ends, all of them without carriage returns
(`Dot.readNode?_nodeText`, `Dot.readEdge?_edgeText`). The line break inside a label is one of the
caption that is escaped like any other (`Dot.label_eq`).
-/

namespace Dot

/-! ### Captions -/

/-- What is shown for a member: its name alone if the relation has the same one, and else below it,
in parentheses, the relation or the word for a derived one. -/
def caption (m : Member) : String :=
  match m.source.relation with
  | .named relation => if relation = m.name then m.name else m.name ++ "\n(" ++ relation ++ ")"
  | .derived _ => m.name ++ "\n(subquery)"

/-- Characters are escaped one by one, so a text can be escaped in parts. -/
theorem escape_append (a b : String) : escape (a ++ b) = escape a ++ escape b := by
  apply String.toList_inj.1
  simp [escape]

/-- The label of a member is its caption, with the line break escaped like all the rest. -/
theorem label_eq (m : Member) : label m = escape (caption m) := by
  have hopen : escape "\n(" = "\\n(" := by decide
  have hclose : escape ")" = ")" := by decide
  have hquery : escape "\n(subquery)" = "\\n(subquery)" := by decide
  rw [label, caption]
  cases m.source.relation with
  | named relation =>
    by_cases h : relation = m.name
    · simp [h]
    · simp [h, escape_append, hopen, hclose]
  | derived sql => simp [escape_append, hquery]

/-! ### Lines -/

theorem lineFeed_notMem_escapeChar (c : Char) : '\n' ∉ escapeChar c := by
  rw [escapeChar]
  split_ifs with hslash hquote hfeed hreturn
  · decide
  · decide
  · decide
  · decide
  · simpa using Ne.symm hfeed

/-- A name is written on one line. -/
theorem lineFeed_notMem_escape (text : String) : '\n' ∉ (escape text).toList := by
  rw [escape, String.toList_ofList, List.mem_flatMap]
  rintro ⟨c, -, hc⟩
  exact lineFeed_notMem_escapeChar c hc

/-- Lines as one text, each ended by a line feed. -/
def unlines (lines : List String) : String := String.join (lines.map (· ++ "\n"))

theorem unlines_append (lines others : List String) :
    unlines (lines ++ others) = unlines lines ++ unlines others := by
  rw [unlines, List.map_append, String.join_append, ← unlines, ← unlines]

theorem toList_unlines (lines : List String) :
    (unlines lines).toList = ['\n'].intercalate ((lines ++ [""]).map String.toList) := by
  induction lines with
  | nil => rfl
  | cons line rest ih =>
    have hcons : unlines (line :: rest) = line ++ "\n" ++ unlines rest := by simp [unlines]
    obtain ⟨next, others, hrest⟩ :=
      List.exists_cons_of_ne_nil (l := (rest ++ [""]).map String.toList) (by simp)
    rw [hrest] at ih
    rw [hcons, List.cons_append, List.map_cons, hrest, List.intercalate_cons_cons, ← ih]
    simp

/-- Lines that hold no line feed are found again by dividing their text at its line feeds. Nothing
stands behind the last one. -/
theorem splitOn_unlines {lines : List String} (h : ∀ line ∈ lines, '\n' ∉ line.toList) :
    (unlines lines).toList.splitOn '\n' = (lines ++ [""]).map String.toList := by
  rw [toList_unlines]
  refine List.splitOn_intercalate '\n' ?_ (by simp)
  intro chars hchars
  obtain ⟨line, hline, rfl⟩ := List.mem_map.1 hchars
  rcases List.mem_append.1 hline with hline | hline
  · exact h line hline
  · obtain rfl := List.mem_singleton.1 hline
    simp

/-! ### Statements as they are read -/

/-- What follows a text that has to stand in front. -/
def skip? (text : String) (line : List Char) : Option (List Char) := line.dropPrefix? text.toList

/-- A quoted string at the front of a text. -/
def string? : Reader String
  | '"' :: rest => (readName rest).map fun (text, after) => (String.ofList text, after)
  | _ => none

/-- The label of a statement, and what stands behind it. -/
def label? (line : List Char) : Option (String × String) := do
  let line ← skip? " [label=" line
  let (label, line) ← string? line
  return (label, String.ofList line)

/-- What the line of a node says. -/
structure NodeStatement where
  id : String
  label : String
  rest : String
  deriving DecidableEq, Repr

/-- What the line of an edge says. -/
structure EdgeStatement where
  tail : String
  head : String
  label : String
  rest : String
  deriving DecidableEq, Repr

/-- Reads the line of a node. -/
def readNode? (line : List Char) : Option NodeStatement := do
  let line ← skip? "  " line
  let (id, line) ← string? line
  let (label, rest) ← label? line
  return ⟨id, label, rest⟩

/-- Reads the line of an edge. -/
def readEdge? (line : List Char) : Option EdgeStatement := do
  let line ← skip? "  " line
  let (tail, line) ← string? line
  let line ← skip? " -> " line
  let (head, line) ← string? line
  let (label, rest) ← label? line
  return ⟨tail, head, label, rest⟩

theorem skip?_append (text : String) (rest : List Char) :
    skip? text (text.toList ++ rest) = some rest :=
  List.dropPrefix?_append_of_beq rest (BEq.refl text.toList)

/-- A quoted name is read without its carriage returns, whatever follows. -/
theorem string?_quoted (name : String) (after : List Char) :
    string? ((quoted name).toList ++ after) = some (withoutReturns name, after) := by
  have hquoted : (quoted name).toList ++ after = '"' :: ((escape name).toList ++ '"' :: after) := by
    simp [quoted]
  rw [hquoted, string?, readName_escape]
  simp

/-- An escaped quote does not end the string, and an escaped backslash does not escape the quote
behind it. -/
example : readNode? "  \"a\\\"b\\\\\" [label=\"t\\n(u)\"];".toList =
    some ⟨"a\"b\\", "t\n(u)", "];"⟩ := by decide

/-! ### Statements as they are written -/

/-- The label of a statement, and what stands behind it, as they are written. -/
def labelText (label rest : String) : String := " [label=" ++ (quoted label ++ rest)

/-- The line of a node as it is written. -/
def nodeText (id label rest : String) : String := "  " ++ (quoted id ++ labelText label rest)

/-- The line of an edge as it is written. -/
def edgeText (tail head label rest : String) : String :=
  "  " ++ (quoted tail ++ (" -> " ++ (quoted head ++ labelText label rest)))

theorem label?_labelText (label rest : String) :
    label? (labelText label rest).toList = some (withoutReturns label, rest) := by
  simp only [label?, labelText, String.toList_append, skip?_append, string?_quoted,
    String.ofList_toList, Option.bind_eq_bind, Option.bind_some, Option.pure_def]

/-- A statement for a node is read back, up to carriage returns. -/
theorem readNode?_nodeText (id label rest : String) :
    readNode? (nodeText id label rest).toList =
      some ⟨withoutReturns id, withoutReturns label, rest⟩ := by
  simp only [readNode?, nodeText, String.toList_append, skip?_append, string?_quoted,
    label?_labelText, Option.bind_eq_bind, Option.bind_some, Option.pure_def]

theorem readEdge?_edgeText (tail head label rest : String) :
    readEdge? (edgeText tail head label rest).toList =
      some ⟨withoutReturns tail, withoutReturns head, withoutReturns label, rest⟩ := by
  simp only [readEdge?, edgeText, String.toList_append, skip?_append, string?_quoted,
    label?_labelText, Option.bind_eq_bind, Option.bind_some, Option.pure_def]

/-! ### Lines as they are written -/

theorem lineFeed_notMem_quoted (name : String) : '\n' ∉ (quoted name).toList := by
  simp [quoted, lineFeed_notMem_escape]

theorem lineFeed_notMem_labelText {label rest : String} (h : '\n' ∉ rest.toList) :
    '\n' ∉ (labelText label rest).toList := by
  simp [labelText, lineFeed_notMem_quoted, h]

/-- A statement for a node takes one line, whatever its name and its label are. -/
theorem lineFeed_notMem_nodeText {id label rest : String} (h : '\n' ∉ rest.toList) :
    '\n' ∉ (nodeText id label rest).toList := by
  simp [nodeText, lineFeed_notMem_quoted, lineFeed_notMem_labelText h]

theorem lineFeed_notMem_edgeText {tail head label rest : String} (h : '\n' ∉ rest.toList) :
    '\n' ∉ (edgeText tail head label rest).toList := by
  simp [edgeText, lineFeed_notMem_quoted, lineFeed_notMem_labelText h]

/-- The end of the line of a node, by which roots are drawn with a heavier line. -/
def nodeEnd (isRoot : Bool) : String := if isRoot then ", penwidth=2];" else "];"

/-- The end of the line of an edge, by which explicit joins are drawn dashed. -/
def edgeEnd (isExplicit : Bool) : String := if isExplicit then ", style=dashed];" else "];"

theorem nodeLine_eq (e : Entry) :
    nodeLine e =
      nodeText (Entry.name e) (caption e.label) (nodeEnd e.parent.isNone) ++ "\n" := by
  apply String.toList_inj.1
  rw [nodeLine, label_eq, nodeEnd]
  cases e.parent <;> simp [nodeText, labelText, quoted]

theorem edgeLine_eq (parent child : String) (join : Join) :
    edgeLine parent child join =
      edgeText parent child join.kind.name (edgeEnd join.overridden) ++ "\n" := by
  have hkind : escape join.kind.name = join.kind.name := by
    cases join.kind <;> decide
  apply String.toList_inj.1
  rw [edgeLine, edgeEnd]
  cases join.overridden <;> simp [edgeText, labelText, quoted, hkind]

/-- The lines before the first node. -/
def headerLines : List String :=
  ["digraph SchemaGraph \x7b", "  rankdir=LR;",
    "  node [shape=box, style=\"rounded\", fontname=\"Helvetica\", fontsize=10];",
    "  edge [fontname=\"Helvetica\", fontsize=8];", ""]

theorem header_eq : header = unlines headerLines := by decide +kernel

end Dot

namespace Schema

variable {s : Schema}

/-- The lines of the nodes, in the order of the nodes. -/
def nodeTexts (s : Schema) : List String :=
  s.entries.map fun e =>
    Dot.nodeText (Entry.name e) (Dot.caption e.label) (Dot.nodeEnd e.parent.isNone)

/-- The lines of the edges, in the order of the edges. -/
def edgeTexts (s : Schema) : List String :=
  s.namedEdges.map fun (p, c, j) =>
    Dot.edgeText p c j.kind.name (Dot.edgeEnd j.overridden)

/-- The document is its header, the nodes, an empty line, the edges and the closing brace. -/
theorem toDot_eq (s : Schema) :
    s.toDot = Dot.unlines (Dot.headerLines ++ s.nodeTexts ++ [""] ++ s.edgeTexts ++ ["\x7d"]) := by
  have hnodes : String.join (s.entries.map Dot.nodeLine) = Dot.unlines s.nodeTexts := by
    rw [Dot.unlines, nodeTexts, List.map_map]
    exact congrArg String.join (List.map_congr_left fun e _ => Dot.nodeLine_eq e)
  have hedges : String.join (s.namedEdges.map fun (p, c, j) => Dot.edgeLine p c j) =
      Dot.unlines s.edgeTexts := by
    rw [Dot.unlines, edgeTexts, List.map_map]
    exact congrArg String.join (List.map_congr_left fun (p, c, j) _ => Dot.edgeLine_eq p c j)
  simp only [Dot.unlines_append, toDot, Dot.header_eq, hnodes, hedges]
  rfl

/-- No line of a drawing holds a line feed. -/
theorem lineFeed_notMem_lines {line : String}
    (h : line ∈ Dot.headerLines ++ s.nodeTexts ++ [""] ++ s.edgeTexts ++ ["\x7d"]) :
    '\n' ∉ line.toList := by
  have hfixed : ∀ line ∈ Dot.headerLines ++ [""] ++ ["\x7d"], '\n' ∉ line.toList := by decide
  have hnodeEnd : ∀ isRoot, '\n' ∉ (Dot.nodeEnd isRoot).toList := by decide
  have hedgeEnd : ∀ isExplicit, '\n' ∉ (Dot.edgeEnd isExplicit).toList := by decide
  simp only [List.mem_append] at h hfixed
  rcases h with (((h | h) | h) | h) | h
  · exact hfixed line (.inl (.inl h))
  · obtain ⟨e, -, rfl⟩ := List.mem_map.1 h
    exact Dot.lineFeed_notMem_nodeText (hnodeEnd _)
  · exact hfixed line (.inl (.inr h))
  · obtain ⟨⟨p, c, j⟩, -, rfl⟩ := List.mem_map.1 h
    exact Dot.lineFeed_notMem_edgeText (hedgeEnd _)
  · exact hfixed line (.inr h)

/-- The line of a node is read as its name and its caption, without carriage returns. -/
def NodeRead (e : Entry) (line : String) : Prop :=
  Dot.readNode? line.toList = some ⟨Dot.withoutReturns (Entry.name e),
    Dot.withoutReturns (Dot.caption e.label), Dot.nodeEnd e.parent.isNone⟩

/-- The line of an edge is read as the names of its two ends, without carriage returns, and the kind
of its join. -/
def EdgeRead (s : Schema) (d : Edge) (line : String) : Prop :=
  ∃ p c, s.entries[d.parent]? = some p ∧ s.entries[d.child]? = some c ∧
    Dot.readEdge? line.toList = some ⟨Dot.withoutReturns (Entry.name p),
      Dot.withoutReturns (Entry.name c), d.join.kind.name, Dot.edgeEnd d.join.overridden⟩

theorem forall₂_nodeRead (s : Schema) : List.Forall₂ NodeRead s.entries s.nodeTexts := by
  rw [nodeTexts, List.forall₂_map_right_iff]
  exact List.forall₂_same.2 fun e _ => Dot.readNode?_nodeText _ _ _

theorem forall₂_edgeRead (s : Schema) : List.Forall₂ s.EdgeRead s.edges s.edgeTexts := by
  rw [edgeTexts, List.forall₂_map_right_iff]
  apply s.forall₂_namedEdges.imp
  rintro d _ ⟨p, c, hp, hc, rfl⟩
  have hkind : Dot.withoutReturns d.join.kind.name = d.join.kind.name := by
    cases d.join.kind <;> decide
  refine ⟨p, c, hp, hc, ?_⟩
  rw [Dot.readEdge?_edgeText, hkind]

/-- A drawing divided into its lines, with those of the nodes and those of the edges. -/
structure DotLines (s : Schema) (nodeLines edgeLines : List String) : Prop where
  /-- These are all the lines, and nothing stands behind the last line feed. -/
  lines_eq : s.toDot.toList.splitOn '\n' =
    (Dot.headerLines ++ nodeLines ++ [""] ++ edgeLines ++ ["\x7d", ""]).map String.toList
  /-- There is a line for each node, in the order of the nodes. -/
  nodes : List.Forall₂ NodeRead s.entries nodeLines
  length_nodes : nodeLines.length = s.size
  /-- There is a line for each edge, in the order of the edges, which is that of their children. -/
  edges : List.Forall₂ s.EdgeRead s.edges edgeLines
  length_edges : edgeLines.length = s.edges.length
  edges_pairwise : s.edges.Pairwise (·.child < ·.child)

/-- The text of every drawing is divided into lines in this way, by any names that its nodes and
relations may have. -/
theorem dot_document (s : Schema) : ∃ nodeLines edgeLines, s.DotLines nodeLines edgeLines := by
  refine ⟨s.nodeTexts, s.edgeTexts, ?_⟩
  exact
    { lines_eq := by
        rw [toDot_eq, Dot.splitOn_unlines fun line h => lineFeed_notMem_lines h,
          List.append_assoc _ ["\x7d"] [""]]
        rfl
      nodes := s.forall₂_nodeRead
      length_nodes := by rw [← s.forall₂_nodeRead.length_eq, s.length_entries]
      edges := s.forall₂_edgeRead
      length_edges := s.forall₂_edgeRead.length_eq.symm
      edges_pairwise := s.edges_pairwise }

end Schema

end JoinForest
