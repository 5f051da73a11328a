import JoinForest.Digest.Sha256
import JoinForest.Proofs.Schema.Numbering
import JoinForest.Proofs.Schema.Reachable
import JoinForest.Schema.Export

set_option autoImplicit false

/-!
# Fingerprints

What the fingerprints of schemas tell apart: as far as the digests of two texts do, the texts that
are made of two schemas, and of legible schemas all that these are made of
(`Reachable.fingerprint_eq_iff`).
-/

namespace JoinForest

/-!
## Digests of different messages

Hexadecimal digits write different bytes differently (`hex_injective`), and different texts have
different bytes (`bytes_injective`). That different messages have different digests holds of no
function into 32 bytes and can only be supposed of two messages at a time (`Separates`); of two
texts it says that their digests in digits are equal only if they are (`Separates.eq_text`).
-/

namespace Sha256

/-! ### Digits of bytes -/

/-- Different lists of bytes have different digits. -/
theorem hex_injective : Function.Injective hex := by
  intro a b h
  have hdigits := String.ofList_inj.1 h
  clear h
  induction a generalizing b with
  | nil =>
    cases b with
    | nil => rfl
    | cons y b => simp [hexPair] at hdigits
  | cons x a ih =>
    cases b with
    | nil => simp [hexPair] at hdigits
    | cons y b =>
      obtain ⟨hpair, hrest⟩ := List.append_inj hdigits rfl
      have hvalue := congrArg (ofDigits 16) hpair
      rw [ofDigits_hexPair x.toNat_lt, ofDigits_hexPair y.toNat_lt] at hvalue
      rw [UInt8.toNat_inj.1 hvalue, ih hrest]

/-! ### Bytes of texts -/

theorem get!_eq {bytes : ByteArray} {i : Nat} (h : i < bytes.data.toList.length) :
    bytes.get! i = bytes.data.toList[i] :=
  getElem!_pos bytes.data i h

/-- What stands before the position has been read, in reverse. -/
theorem toList_loop (bytes : ByteArray) (i : Nat) (read : List UInt8) :
    ByteArray.toList.loop bytes i read = read.reverse ++ bytes.data.toList.drop i := by
  have hsize : bytes.size = bytes.data.toList.length := rfl
  rw [ByteArray.toList.loop, hsize]
  split
  next hi =>
    rw [toList_loop bytes (i + 1), List.reverse_cons, List.append_assoc, List.singleton_append,
      get!_eq hi, ← List.drop_eq_getElem_cons hi]
  next hi => rw [List.drop_eq_nil_of_le (Nat.le_of_not_lt hi), List.append_nil]
termination_by bytes.size - i

theorem toList_eq (bytes : ByteArray) : bytes.toList = bytes.data.toList := by
  rw [ByteArray.toList, toList_loop, List.reverse_nil, List.nil_append, List.drop_zero]

/-- Different texts have different bytes. -/
theorem bytes_injective {a b : String} (h : a.toUTF8.toList = b.toUTF8.toList) : a = b := by
  rw [toList_eq, toList_eq] at h
  exact String.toByteArray_inj.1 (ByteArray.ext (Array.toList_inj.1 h))

/-! ### Collisions -/

/-- The digests of two messages are equal only if the messages are. -/
def Separates (message message' : List UInt8) : Prop :=
  digest message = digest message' → message = message'

/-- Texts whose bytes are told apart have different digests in digits. -/
theorem Separates.eq_text {text text' : String}
    (h : Separates text.toUTF8.toList text'.toUTF8.toList)
    (hdigest : hexDigest text = hexDigest text') : text = text' :=
  bytes_injective (h (hex_injective hdigest))

end Sha256

open Forest

/-!
## What fingerprints tell apart

The canonical text of a schema has one line for each node: name, relation, and the parent with the
join onto it, with bars between them (`canonicalText_eq`). Names, relations and conditions may hold
bars and line ends themselves, and nothing marks these as text, so a line can be read in several
ways: `Sample.fingerprint_collision` has one canonical text for two schemas that do not even have
as many nodes. In legible schemas (`Schema.Legible`) the first bars of a line are those between its
fields, and the condition ends where the next line begins (`Imprint.Legible.line_append_inj`). Their
fingerprints are equal exactly if the nodes agree in all that they are made of
(`Reachable.fingerprint_eq_iff`), as far as the digests of the two texts tell these apart.
-/

/-! ### Texts with marks -/

/-- The first element with a property divides a list in one way. -/
theorem cut_inj {α : Type} {p : α → Bool} {a b x y : List α} {c d : α}
    (ha : ∀ z ∈ a, p z = false) (hb : ∀ z ∈ b, p z = false) (hc : p c = true) (hd : p d = true)
    (h : a ++ c :: x = b ++ d :: y) : a = b ∧ c = d ∧ x = y := by
  induction a generalizing b with
  | nil =>
    cases b with
    | nil => simpa using h
    | cons z b =>
      obtain rfl := (List.cons.inj h).1
      rw [hb c List.mem_cons_self] at hc
      cases hc
  | cons z a ih =>
    cases b with
    | nil =>
      obtain rfl := (List.cons.inj h).1
      rw [ha z List.mem_cons_self] at hd
      cases hd
    | cons z' b =>
      obtain ⟨rfl, hrest⟩ := List.cons.inj h
      obtain ⟨rfl, hcut⟩ := ih (fun w hw => ha w (List.mem_cons_of_mem z hw))
        (fun w hw => hb w (List.mem_cons_of_mem z hw)) hrest
      exact ⟨rfl, hcut⟩

/-- The characters that end a field of a line, or the line itself. -/
def endsField (c : Char) : Bool := c == '|' || c == '\n'

/-- A text with neither bars nor line ends. -/
def Unmarked (text : String) : Prop := ∀ c ∈ text.toList, endsField c = false

/-- A text without bars. -/
def Unbarred (text : String) : Prop := ∀ c ∈ text.toList, (c == '|') = false

/-- A text that has no bars or no line ends. -/
def HalfMarked (text : String) : Prop := '|' ∈ text.toList → '\n' ∉ text.toList

instance (text : String) : Decidable (Unmarked text) :=
  decidable_of_iff (text.toList.all (fun c => !endsField c) = true) (by simp [Unmarked])

instance (text : String) : Decidable (Unbarred text) :=
  decidable_of_iff (text.toList.all (fun c => !(c == '|')) = true) (by simp [Unbarred])

instance (text : String) : Decidable (HalfMarked text) :=
  decidable_of_iff ((!text.toList.contains '|' || !text.toList.contains '\n') = true)
    (by simp [HalfMarked, imp_iff_not_or])

/-- There is nothing more, or the first mark that follows is a bar. -/
def BarNext (rest : List Char) : Prop :=
  rest = [] ∨ ∃ name after, rest = name ++ '|' :: after ∧ ∀ c ∈ name, endsField c = false

/-- What a condition is longer by does not begin with the line end of a shorter one. -/
theorem BarNext.append_ne {rest rest' more : List Char} (hrest : BarNext rest)
    (hmore : '|' ∉ more) : rest ≠ more ++ '\n' :: rest' := by
  rcases hrest with rfl | ⟨name, after, rfl, hname⟩
  · intro h
    simp at h
  · intro h
    rcases List.append_eq_append_iff.1 h with ⟨t, rfl, ht⟩ | ⟨t, rfl, ht⟩
    · cases t with
      | nil => simp at ht
      | cons c t =>
        obtain rfl := (List.cons.inj ht).1
        exact hmore (by simp)
    · cases t with
      | nil => simp at ht
      | cons c t =>
        obtain rfl := (List.cons.inj ht).1
        exact absurd (hname '\n' (by simp)) (by decide)

/-- A text with one kind of marks at most does not go on behind a line end with a bar as the next
mark. -/
theorem HalfMarked.ends_before {text : String} (htext : HalfMarked text) {before more : List Char}
    (heq : text.toList = before ++ more) {rest rest' : List Char} (hrest : BarNext rest)
    (h : '\n' :: rest = more ++ '\n' :: rest') : more = [] := by
  cases more with
  | nil => rfl
  | cons c more =>
    obtain ⟨rfl, hmore⟩ := List.cons.inj h
    refine (hrest.append_ne (fun hbar => htext ?_ ?_) hmore).elim <;> simp [heq, hbar]

/-- A text with one kind of marks at most ends where a line end is followed by a bar as the next
mark. -/
theorem HalfMarked.ends {text text' : String} (htext : HalfMarked text)
    (htext' : HalfMarked text') {rest rest' : List Char} (hrest : BarNext rest)
    (hrest' : BarNext rest') (h : text.toList ++ '\n' :: rest = text'.toList ++ '\n' :: rest') :
    text = text' ∧ rest = rest' := by
  -- One of the two is longer by some `t`, and what follows the other begins with `t`.
  rcases List.append_eq_append_iff.1 h with ⟨t, ht, hr⟩ | ⟨t, ht, hr⟩
  · obtain rfl := htext'.ends_before ht hrest hr
    simpa [String.toList_inj, eq_comm] using And.intro ht hr
  · obtain rfl := htext.ends_before ht hrest' hr
    simpa [String.toList_inj, eq_comm] using And.intro ht hr

/-! ### Imprints -/

/-- What a node adds to the fingerprint: its name, what it stands for, its parent, and the kind of
the join onto it with the text of the condition. -/
structure Imprint where
  name : String
  relation : Relation
  parent : Option String
  join : Option (JoinKind × String)
  deriving DecidableEq, Repr

namespace Imprint

/-- The last field of the line. -/
def place (i : Imprint) : String :=
  match i.parent, i.join with
  | some parent, some (kind, condition) => parent ++ "|" ++ kind.name ++ "|" ++ condition
  | _, _ => "<root>"

/-- The line of the canonical text. -/
def line (i : Imprint) : String := i.name ++ "|" ++ i.relation.text ++ "|" ++ i.place ++ "\n"

/-- The names hold no marks, the relation no bar, the condition not both; and there is a join
exactly if there is a parent. -/
structure Legible (i : Imprint) : Prop where
  name : Unmarked i.name
  parent : ∀ parent ∈ i.parent, Unmarked parent
  relation : Unbarred i.relation.text
  condition : ∀ join ∈ i.join, HalfMarked join.2
  join_isSome : i.join.isSome = i.parent.isSome

end Imprint

theorem Relation.text_injective : Function.Injective Relation.text := by
  intro r r' h
  cases r with
  | named n =>
    cases r' with
    | named n' => simpa [text, String.ext_iff] using h
    | derived sql' => simp [text, String.ext_iff] at h
  | derived sql =>
    cases r' with
    | named n' => simp [text, String.ext_iff] at h
    | derived sql' => simpa [text, String.ext_iff] using h

theorem JoinKind.name_injective : Function.Injective JoinKind.name := by
  intro k k' h
  have hname := ofName?_name k
  rw [h, ofName?_name, Option.some.injEq] at hname
  exact hname.symm

theorem JoinKind.unbarred_name (k : JoinKind) : Unbarred k.name := by
  cases k <;> decide

namespace Imprint

/-- The fields of a line are divided by bars. -/
theorem toList_line (i : Imprint) : i.line.toList =
    i.name.toList ++ '|' :: (i.relation.text.toList ++ '|' :: (i.place.toList ++ ['\n'])) := by
  simp [line]

/-- A root has its own place; others have the fields of their join. -/
theorem Legible.place_cases {i : Imprint} (hi : i.Legible) :
    (i.parent = none ∧ i.join = none ∧ i.place.toList = "<root>".toList) ∨
      ∃ parent kind condition, i.parent = some parent ∧ i.join = some (kind, condition) ∧
        i.place.toList = parent.toList ++ '|' :: (kind.name.toList ++ '|' :: condition.toList) := by
  have hjoin := hi.join_isSome
  cases hparent : i.parent with
  | none =>
    rw [hparent, Option.isSome_none, Option.isSome_eq_false_iff, Option.isNone_iff_eq_none] at hjoin
    exact Or.inl ⟨rfl, hjoin, by simp [place, hparent]⟩
  | some parent =>
    rw [hparent, Option.isSome_some, Option.isSome_iff_exists] at hjoin
    obtain ⟨⟨kind, condition⟩, hjoin⟩ := hjoin
    exact Or.inr ⟨parent, kind, condition, rfl, hjoin, by simp [place, hparent, hjoin]⟩

/-- The place of a node can be read back where the line ends. -/
theorem Legible.place_append_inj {i j : Imprint} (hi : i.Legible) (hj : j.Legible)
    {rest rest' : List Char} (hrest : BarNext rest) (hrest' : BarNext rest')
    (h : i.place.toList ++ '\n' :: rest = j.place.toList ++ '\n' :: rest') :
    i.parent = j.parent ∧ i.join = j.join ∧ rest = rest' := by
  have hroot : Unmarked "<root>" := by decide
  rcases hi.place_cases with ⟨hp, hc, htext⟩ | ⟨p, k, c, hp, hc, htext⟩
  · rcases hj.place_cases with ⟨hp', hc', htext'⟩ | ⟨p', k', c', hp', hc', htext'⟩
    · rw [htext, htext'] at h
      obtain ⟨-, -, hrests⟩ := cut_inj hroot hroot rfl rfl h
      exact ⟨hp.trans hp'.symm, hc.trans hc'.symm, hrests⟩
    · rw [htext, htext', List.append_assoc, List.cons_append] at h
      obtain ⟨-, hmark, -⟩ := cut_inj hroot (hj.parent p' hp') rfl rfl h
      exact absurd hmark (by decide)
  · rcases hj.place_cases with ⟨hp', hc', htext'⟩ | ⟨p', k', c', hp', hc', htext'⟩
    · rw [htext, htext', List.append_assoc, List.cons_append] at h
      obtain ⟨-, hmark, -⟩ := cut_inj (hi.parent p hp) hroot rfl rfl h
      exact absurd hmark (by decide)
    · rw [htext, htext'] at h
      simp only [List.append_assoc, List.cons_append] at h
      obtain ⟨hparent, -, h⟩ := cut_inj (hi.parent p hp) (hj.parent p' hp') rfl rfl h
      obtain ⟨hkind, -, h⟩ := cut_inj k.unbarred_name k'.unbarred_name rfl rfl h
      obtain ⟨rfl, hrests⟩ := (hi.condition _ hc).ends (hj.condition _ hc') hrest hrest' h
      obtain rfl := String.toList_inj.1 hparent
      obtain rfl := JoinKind.name_injective (String.toList_inj.1 hkind)
      exact ⟨hp.trans hp'.symm, hc.trans hc'.symm, hrests⟩

/-- A legible line with more lines behind it can be read in one way. -/
theorem Legible.line_append_inj {i j : Imprint} (hi : i.Legible) (hj : j.Legible)
    {rest rest' : List Char} (hrest : BarNext rest) (hrest' : BarNext rest')
    (h : i.line.toList ++ rest = j.line.toList ++ rest') : i = j ∧ rest = rest' := by
  simp only [toList_line, List.append_assoc, List.cons_append, List.nil_append] at h
  -- Name and relation end at the first bar that comes; where the place ends depends on the rest.
  obtain ⟨hname, -, h⟩ := cut_inj hi.name hj.name rfl rfl h
  obtain ⟨hrelation, -, h⟩ := cut_inj hi.relation hj.relation rfl rfl h
  obtain ⟨hparent, hjoin, hrests⟩ := hi.place_append_inj hj hrest hrest' h
  obtain ⟨name, relation, parent, join⟩ := i
  obtain ⟨name', relation', parent', join'⟩ := j
  obtain rfl := String.toList_inj.1 hname
  obtain rfl := Relation.text_injective (String.toList_inj.1 hrelation)
  obtain rfl : parent = parent' := hparent
  obtain rfl : join = join' := hjoin
  exact ⟨rfl, hrests⟩

/-- Lines begin with a name and a bar. -/
theorem barNext_lines {is : List Imprint} (his : ∀ i ∈ is, i.Legible) :
    BarNext (is.flatMap fun i => i.line.toList) := by
  cases is with
  | nil => exact Or.inl rfl
  | cons i is =>
    rw [List.flatMap_cons, toList_line, List.append_assoc, List.cons_append]
    exact Or.inr ⟨i.name.toList, _, rfl, (his i List.mem_cons_self).name⟩

/-- Legible lines can be told apart. -/
theorem lines_inj {is js : List Imprint} (his : ∀ i ∈ is, i.Legible) (hjs : ∀ j ∈ js, j.Legible)
    (h : (is.flatMap fun i => i.line.toList) = js.flatMap fun j => j.line.toList) : is = js := by
  -- What follows a line begins as a line does, which says where the line ends.
  induction is generalizing js with
  | nil =>
    cases js with
    | nil => rfl
    | cons j js => simp [line] at h
  | cons i is ih =>
    cases js with
    | nil => simp [line] at h
    | cons j js =>
      rw [List.forall_mem_cons] at his hjs
      obtain ⟨rfl, hrest⟩ :=
        his.1.line_append_inj hjs.1 (barNext_lines his.2) (barNext_lines hjs.2) h
      rw [ih his.2 hjs.2 hrest]

end Imprint

/-! ### Schemas -/

namespace Schema

variable {s : Schema}

/-- What a node of a schema adds to its fingerprint. -/
def imprint (s : Schema) (e : Entry) : Imprint :=
  { name := e.name
    relation := e.source.relation
    parent := (s.parent? e).map Entry.name
    join := e.label.join.map fun join => (join.kind, join.condition.text) }

/-- The imprints of the nodes in pre-order. -/
def imprints (s : Schema) : List Imprint := s.entries.map s.imprint

/-- No name holds bars or line ends, nothing that a node stands for holds bars, and no condition
holds both. -/
structure Legible (s : Schema) : Prop where
  name : ∀ e ∈ s.entries, Unmarked (Entry.name e)
  relation : ∀ e ∈ s.entries, Unbarred (Entry.source e).relation.text
  condition : ∀ d ∈ s.edges, HalfMarked d.join.condition.text

instance (s : Schema) : Decidable s.Legible :=
  decidable_of_iff ((s.entries.all fun e => decide (Unmarked (Entry.name e))) = true ∧
      (s.entries.all fun e => decide (Unbarred (Entry.source e).relation.text)) = true ∧
        (s.edges.all fun d => decide (HalfMarked d.join.condition.text)) = true)
    (by
      simp only [List.all_eq_true, decide_eq_true_eq]
      exact ⟨fun h => ⟨h.1, h.2.1, h.2.2⟩, fun h => ⟨h.name, h.relation, h.condition⟩⟩)

/-- The canonical lines follow the nodes and their parents. -/
theorem canonicalLines_eq (parent : Option Member) (f : Forest Member) :
    canonicalLines (parent.map Member.name) f =
      (f.withParents parent).map fun pm => pm.2.canonicalLine (pm.1.map Member.name) := by
  induction f generalizing parent with
  | nil => rfl
  | cons m cs rest ihc ihr =>
    have hbelow := ihc (some m)
    rw [Option.map_some] at hbelow
    rw [canonicalLines, withParents, List.map_cons, List.map_append, hbelow, ihr]

/-- The line of a node is made from its imprint alone. -/
theorem canonicalLine_eq_line (s : Schema) (e : Entry) :
    e.label.canonicalLine (((s.parent? e).map Placed.label).map Member.name) =
      (s.imprint e).line := by
  cases hp : s.parent? e <;> cases hj : e.label.join <;>
    simp [Member.canonicalLine, Imprint.line, Imprint.place, imprint, hp, hj] <;> rfl

/-- The canonical text is made of the lines of the imprints. -/
theorem canonicalText_eq (s : Schema) :
    s.canonicalText = String.join (s.imprints.map Imprint.line) := by
  have hlines := canonicalLines_eq none s.forest
  rw [← map_parent_entries, List.map_map, Option.map_none] at hlines
  rw [canonicalText, hlines, imprints, List.map_map]
  congr 1
  exact List.map_congr_left fun e _ => canonicalLine_eq_line s e

/-- The text that is hashed is the lines of the imprints one after the other. -/
theorem toList_canonicalText (s : Schema) :
    s.canonicalText.toList = s.imprints.flatMap fun i => i.line.toList := by
  rw [canonicalText_eq, String.toList_join, List.flatMap_map]

/-- The imprints of a sound and legible schema are legible. -/
theorem Sound.legible_imprint (hs : s.Sound) (hl : s.Legible) {e : Entry} (he : e ∈ s.entries) :
    (s.imprint e).Legible where
  name := hl.name e he
  parent := by
    intro parent hparent
    obtain ⟨p, hp, rfl⟩ := Option.map_eq_some_iff.1 hparent
    exact hl.name p (parent_of_parent? hp).1
  relation := hl.relation e he
  condition := by
    intro join hjoin
    obtain ⟨made, hmade, rfl⟩ := Option.map_eq_some_iff.1 hjoin
    have hparent := hs.join_isSome_entry he
    rw [hmade, Option.isSome_some, eq_comm, Option.isSome_iff_exists] at hparent
    obtain ⟨k, hk⟩ := hparent
    exact hl.condition ⟨k, e.key, made⟩
      (mem_edges_iff.2 ⟨e, he, edge?_eq_some_iff.2 ⟨hk, rfl, hmade⟩⟩)
  join_isSome := by
    rw [imprint, Option.isSome_map, Option.isSome_map, parent?_isSome he, hs.join_isSome_entry he]

theorem Sound.legible_of_mem_imprints (hs : s.Sound) (hl : s.Legible) :
    ∀ i ∈ s.imprints, i.Legible := by
  intro i hi
  obtain ⟨e, he, rfl⟩ := List.mem_map.1 hi
  exact hs.legible_imprint hl he

/-- Sound and legible schemas of one canonical text have the same imprints. -/
theorem Sound.imprints_eq {g h : Schema} (hg : g.Sound) (hh : h.Sound) (hgl : g.Legible)
    (hhl : h.Legible) (htext : g.canonicalText = h.canonicalText) : g.imprints = h.imprints := by
  apply Imprint.lines_inj (hg.legible_of_mem_imprints hgl) (hh.legible_of_mem_imprints hhl)
  rw [← toList_canonicalText, ← toList_canonicalText, htext]

/-- Schemas with the same imprints have the same fingerprint. -/
theorem fingerprint_eq_of_imprints {g h : Schema} (himprints : g.imprints = h.imprints) :
    g.fingerprint = h.fingerprint := by
  rw [fingerprint, fingerprint, canonicalText_eq, canonicalText_eq, himprints]

end Schema

/-- Legible schemas whose canonical texts are told apart by their digests have equal fingerprints
exactly if their nodes agree, in pre-order, in name, relation, parent, and kind and condition of
the join. -/
theorem Reachable.fingerprint_eq_iff {g h : Schema} (hg : Reachable g) (hh : Reachable h)
    (hgl : g.Legible) (hhl : h.Legible)
    (hsha : Sha256.Separates g.canonicalText.toUTF8.toList h.canonicalText.toUTF8.toList) :
    g.fingerprint = h.fingerprint ↔ g.imprints = h.imprints := by
  constructor
  · intro hfingerprint
    exact hg.sound.imprints_eq hh.sound hgl hhl (hsha.eq_text hfingerprint)
  · exact Schema.fingerprint_eq_of_imprints

namespace Sample

/-- Sales with a query below, joined by a condition with bars. -/
def dailySchema (sql : String) : Schema :=
  ⟨.tree ⟨sales, none⟩ (.tree
    ⟨.subquery ⟨"daily", sql, ["id"]⟩,
      some ⟨.expression "sales.product_id = 'p' || daily.id", .inner, true⟩⟩ .nil)⟩

theorem reachable_daily (sql : String) : Reachable (dailySchema sql) :=
  .build (show Schema.build (.tree sales (.tree (.subquery ⟨"daily", sql, ["id"]⟩) .nil))
    (Overrides.empty.insert "sales" "daily"
      ⟨.expression "sales.product_id = 'p' || daily.id", some .inner⟩) {} =
        .ok (dailySchema sql) from rfl)

/-- A line break more in the text of a query gives another fingerprint. -/
theorem fingerprint_daily :
    (dailySchema "SELECT id\nFROM sales").fingerprint ≠
      (dailySchema "SELECT id FROM sales").fingerprint := by
  have hsha : Sha256.Separates (dailySchema "SELECT id\nFROM sales").canonicalText.toUTF8.toList
      (dailySchema "SELECT id FROM sales").canonicalText.toUTF8.toList := by
    rw [Sha256.toList_eq, Sha256.toList_eq]
    intro h
    exact absurd h (by decide +kernel)
  have hiff := (reachable_daily _).fingerprint_eq_iff (reachable_daily _)
    (by decide) (by decide) hsha
  rw [Ne, hiff]
  decide

/-- Recent sales, as a query, and the stores, side by side. -/
def twoRoots : Schema :=
  ⟨.cons ⟨.subquery ⟨"recent", "SELECT id FROM sale", ["id"]⟩, none⟩ .nil
    (.tree ⟨.table ⟨"store", ["id"], [], []⟩, none⟩ .nil)⟩

/-- One query, whose text goes on as the canonical text of the two does. -/
def oneRoot : Schema :=
  ⟨.tree ⟨.subquery ⟨"recent", "SELECT id FROM sale|<root>\nstore|table:store", ["id"]⟩, none⟩ .nil⟩

/-- Two nodes and one node can have the same canonical text, and so the same fingerprint. -/
theorem fingerprint_collision :
    Reachable twoRoots ∧ Reachable oneRoot ∧ twoRoots.fingerprint = oneRoot.fingerprint ∧
      twoRoots.imprints ≠ oneRoot.imprints := by
  refine ⟨?_, ?_, congrArg Sha256.hexDigest (by decide), by decide⟩
  · exact .build (show Schema.build
      (.cons (.subquery ⟨"recent", "SELECT id FROM sale", ["id"]⟩) .nil
        (.tree (.table ⟨"store", ["id"], [], []⟩) .nil)) .empty {} = .ok twoRoots from rfl)
  · exact .build (show Schema.build (.tree (.subquery
      ⟨"recent", "SELECT id FROM sale|<root>\nstore|table:store", ["id"]⟩) .nil) .empty {} =
        .ok oneRoot from rfl)

end Sample

end JoinForest
