import JoinForest.Catalog
import JoinForest.Document
import JoinForest.Proofs.Json

set_option autoImplicit false

/-!
# Catalogs read back

Values are read back from their documents, and catalogs from their texts, as long as these nest no
deeper than the reader goes (`Catalog.parse_written`).
-/

namespace JoinForest

/-!
## Values read back from documents

A decoder reads a value back from the document that is written for it exactly if that document is no
deeper than there are levels (`Decoder.ReadsBack`). Each part of a document takes the same levels,
so the depth that counts is the largest of theirs (`within_bind`), and a list or a record takes one
level more (`within_succ`). Lists, options and records of what is read back are read back.
-/

/-! ### Levels -/

section Levels

variable {α β : Type} {levels m n : Nat}

/-- A value, if a depth is within the levels. -/
def within (levels depth : Nat) (a : α) : Option α := if depth ≤ levels then some a else none

theorem pure_eq_within (a : α) : (pure a : Option α) = within levels 0 a := by
  simp [within]

/-- A list or a record takes one level. -/
theorem within_succ (a : α) : within (levels + 1) (m + 1) a = within levels m a := by
  simp [within]

theorem within_zero_succ (a : α) : within 0 (m + 1) a = none := by
  simp [within]

/-- Of two parts the deeper one counts. -/
theorem within_bind {a : α} {b : β} {f : α → Option β} (h : f a = within levels n b) :
    within levels m a >>= f = within levels (max m n) b := by
  by_cases hm : m ≤ levels
  · have hmax : max m n ≤ levels ↔ n ≤ levels := by omega
    rw [within, if_pos hm]
    exact h.trans (by simp only [within, hmax])
  · have hmax : ¬ max m n ≤ levels := by omega
    rw [within, if_neg hm, within, if_neg hmax]
    rfl

theorem map_within {f : α → β} (a : α) :
    (within levels m a).map f = within levels m (f a) := by
  rw [within, within, apply_ite (Option.map f), Option.map_some, Option.map_none]

theorem within_bind_pure (f : α → β) (a : α) :
    (within levels m a >>= fun a => pure (f a)) = within levels m (f a) := by
  rw [← map_within, Option.map_eq_bind]
  rfl

end Levels

namespace Document

theorem depthOfFields_append (f g : List (String × Document)) :
    depthOfFields (f ++ g) = max (depthOfFields f) (depthOfFields g) := by
  induction f with
  | nil => rw [List.nil_append, depthOfFields, Nat.zero_max]
  | cons e f ih => rw [List.cons_append, depthOfFields, depthOfFields, ih, Nat.max_assoc]

end Document

namespace Decoder

variable {α : Type} {dialect : Dialect} {item : Decoder α} {document : α → Document}

/-- The decoder reads values back from their documents, as far as the levels go. -/
def ReadsBack (dialect : Dialect) (decoder : Decoder α) (document : α → Document) : Prop :=
  ∀ levels a, decoder ⟨dialect, levels⟩ (document a) = within levels (document a).depth a

/-! ### Texts, pairs and lists -/

theorem readsBack_text : ReadsBack dialect text .text := fun _ s => pure_eq_within s

theorem readsBack_list (h : ReadsBack dialect item document) :
    ReadsBack dialect (list item) fun as => .list (as.map document) := by
  have hitems (levels : Nat) (as : List α) : (as.map document).mapM (item ⟨dialect, levels⟩) =
      within levels (Document.depthOfItems (as.map document)) as := by
    induction as with
    | nil => exact pure_eq_within []
    | cons a as ih =>
      rw [List.map_cons, List.mapM_cons, h, ih]
      exact within_bind (within_bind_pure (a :: ·) as)
  intro levels as
  cases levels with
  | zero => exact (within_zero_succ as).symm
  | succ levels => exact (hitems levels as).trans (within_succ as).symm

theorem readsBack_pair :
    ReadsBack dialect (pair text text) fun p => Document.texts [p.1, p.2] := by
  intro levels p
  cases levels with
  | zero => exact (within_zero_succ p).symm
  | succ levels => exact (pure_eq_within p).trans (within_succ p).symm

/-! ### Records -/

section Fields

variable {β : Type} {levels n : Nat} {entries : List (String × Document)} {name : String} {a : α}
  {b : β} {read : α → Option β}

/-- A field that is read back, and then what is read after it. -/
theorem required_bind (h : ReadsBack dialect item document)
    (hlookup : entries.lookup name = some (document a)) (hread : read a = within levels n b) :
    required item (⟨dialect, levels⟩, entries) name >>= read =
      within levels (max (document a).depth n) b := by
  rw [required, hlookup, Option.bind_some, h]
  exact within_bind hread

/-- A field that may be left out is read as its value where it is there. -/
theorem withDefault_bind {default : α} (h : ReadsBack dialect item document)
    (hlookup : entries.lookup name = some (document a)) (hread : read a = within levels n b) :
    withDefault item default (⟨dialect, levels⟩, entries) name >>= read =
      within levels (max (document a).depth n) b := by
  have hfield : withDefault item default (⟨dialect, levels⟩, entries) name =
      item ⟨dialect, levels⟩ (document a) := by
    rw [withDefault, hlookup]
  rw [hfield, h]
  exact within_bind hread

end Fields

/-- A record is read back field by field, if no field stands in it twice. -/
theorem readsBack_record {names : List String} {entries : α → List (String × Document)}
    {read : Context × List (String × Document) → Option α}
    (hdistinct : ∀ a, ∀ name ∈ names, ((entries a).filter (·.1 == name)).length ≤ 1)
    (hread : ∀ levels a, read (⟨dialect, levels⟩, entries a) =
      within levels (Document.depthOfFields (entries a)) a) :
    ReadsBack dialect (fun c d => fields names c d >>= read) fun a => .record (entries a) := by
  have hfields (c : Context) (a : α) :
      fields names c (.record (entries a)) = c.enter?.map (·, entries a) :=
    if_pos (by simpa using hdistinct a)
  intro levels a
  change fields names ⟨dialect, levels⟩ (.record (entries a)) >>= read = _
  rw [hfields]
  cases levels with
  | zero => exact (within_zero_succ a).symm
  | succ levels => exact (hread levels a).trans (within_succ a).symm

end Decoder

open Forest

/-!
## Catalogs

A catalog is read back from the JSON text that is written for it, whatever its names, its placements
and the optional fields that it has, as long as the brackets of the text nest no deeper than the
reader goes; beyond that the text is refused (`Catalog.parse_written`). Records are read back field
by field, and placements along their forest, two levels for each generation
(`Decoder.placements_documents`).
-/

/-- A join is never written as `null`, so it is told apart from a missing one. -/
theorem JoinNote.document_ne_null (n : JoinNote) : n.document ≠ .null := by
  simp [document]

namespace Decoder

variable {dialect : Dialect}

/-! ### Tables and subqueries -/

theorem readsBack_texts : ReadsBack dialect texts Document.texts := readsBack_list readsBack_text

theorem readsBack_foreignKey : ReadsBack dialect foreignKey ForeignKey.document := by
  refine readsBack_record (by simp) fun levels k => ?_
  refine required_bind readsBack_texts (a := k.columns) rfl ?_
  refine required_bind readsBack_text (a := k.references) rfl ?_
  refine withDefault_bind readsBack_texts (a := k.referencedColumns) rfl ?_
  exact pure_eq_within k

theorem readsBack_table : ReadsBack dialect table Table.document := by
  refine readsBack_record (by simp) fun levels t => ?_
  refine required_bind readsBack_text (a := t.name) rfl ?_
  refine withDefault_bind readsBack_texts (a := t.columns) rfl ?_
  refine withDefault_bind readsBack_texts (a := t.primaryKey) rfl ?_
  refine withDefault_bind (readsBack_list readsBack_foreignKey) (a := t.foreignKeys) rfl ?_
  exact pure_eq_within t

theorem readsBack_subquery : ReadsBack dialect subquery Subquery.document := by
  refine readsBack_record (by simp) fun levels q => ?_
  refine required_bind readsBack_text (a := q.name) rfl ?_
  refine required_bind readsBack_text (a := q.sql) rfl ?_
  refine withDefault_bind readsBack_texts (a := q.columns) rfl ?_
  exact pure_eq_within q

/-! ### Optional fields -/

theorem text_ne_null (s : String) : Document.text s ≠ .null := by
  simp

/-- An optional field is read back, whether it has been left out or not. -/
theorem withDefault_optional {α : Type} {item : Decoder α} {document : α → Document}
    (h : ReadsBack dialect item document) (hnull : ∀ a, document a ≠ .null) (value : Option α)
    {levels : Nat} {entries : List (String × Document)} {name : String}
    (hlookup : entries.lookup name = value.map document) :
    withDefault (optional item) none (⟨dialect, levels⟩, entries) name =
      within levels (Document.depthOfFields (optionalField name document value)) value := by
  cases value with
  | none =>
    rw [withDefault, hlookup]
    exact pure_eq_within none
  | some a =>
    have hitem (c : Context) : optional item c (document a) = (item c (document a)).map some := by
      unfold optional
      split
      · next hdoc => exact absurd hdoc (hnull a)
      · rfl
    rw [withDefault, hlookup, optionalField, Document.depthOfFields, Document.depthOfFields,
      Nat.max_zero]
    exact (hitem _).trans (by rw [h, map_within])

/-! ### Joins beside placements -/

theorem readsBack_joinKind : ReadsBack dialect joinKind fun k => .text k.name := by
  intro levels k
  exact (JoinKind.ofName?_name k).trans (pure_eq_within k)

/-- Joins are read back with their condition, or the lack of it, and their kind. -/
theorem readsBack_joinNote : ReadsBack dialect joinNote JoinNote.document := by
  refine readsBack_record (fun n => ?_) fun levels n => ?_
  · cases n.expression <;> cases n.kind <;> simp [optionalField]
  · rw [Document.depthOfFields, Document.depthOfFields_append]
    refine withDefault_bind (readsBack_list readsBack_pair) (a := n.on) rfl ?_
    rw [withDefault_optional readsBack_text text_ne_null n.expression]
    · refine within_bind ?_
      rw [withDefault_optional readsBack_joinKind (fun k => text_ne_null k.name) n.kind]
      · exact within_bind_pure _ n.kind
      · cases n.expression <;> cases n.kind <;> rfl
    · cases n.expression <;> cases n.kind <;> rfl

/-! ### Placements -/

/-- The fields of a placement in its document. -/
def placementFields (p : Placement) (children : List Document) : List (String × Document) :=
  ("table", .text p.table) :: (optionalField "alias" .text p.rename ++
    optionalField "join" JoinNote.document p.join ++ [("children", .list children)])

section Placements

variable (p : Placement) (children : List Document)

/-- The children are found by their name, whichever of the optional fields have been left out. -/
theorem lookup_children :
    (placementFields p children).lookup "children" = some (.list children) := by
  rcases p with ⟨table, _ | name, _ | note⟩ <;> rfl

theorem fields_placementFields (dialect : Dialect) (levels : Nat) :
    fields ["table", "alias", "join", "children"] ⟨dialect, levels + 1⟩
        (.record (placementFields p children)) =
      some (⟨dialect, levels⟩, placementFields p children) := by
  rcases p with ⟨table, _ | name, _ | note⟩ <;> rfl

/-- How deep the fields of a placement are, but for its children. -/
def labelDepth (p : Placement) : Nat :=
  max (Document.depthOfFields (optionalField "alias" .text p.rename))
    (Document.depthOfFields (optionalField "join" JoinNote.document p.join))

theorem depthOfFields_placementFields :
    Document.depthOfFields (placementFields p children) =
      max (labelDepth p) (Document.depthOfItems children + 1) := by
  simp [placementFields, labelDepth, Document.depthOfFields_append, Document.depthOfFields,
    Document.depth, Nat.max_assoc]

theorem label_placementFields (levels : Nat) :
    placements.label (⟨dialect, levels⟩, placementFields p children) =
      within levels (labelDepth p) p := by
  rw [placements.label, ← Nat.zero_max (labelDepth p)]
  refine required_bind readsBack_text (a := p.table) rfl ?_
  rw [withDefault_optional readsBack_text text_ne_null p.rename]
  · refine within_bind ?_
    rw [withDefault_optional readsBack_joinNote JoinNote.document_ne_null p.join]
    · exact within_bind_pure _ p.join
    · rcases p with ⟨table, _ | name, _ | note⟩ <;> rfl
  · rcases p with ⟨table, _ | name, _ | note⟩ <;> rfl

end Placements

/-- A forest is read back tree by tree. -/
theorem forestOf_cons {α : Type} {tree : Document → Option (α × Forest α)} {d : Document}
    {ds : List Document} {levels m n : Nat} {a : α} {children rest : Forest α}
    (hd : tree d = within levels m (a, children)) (hds : forestOf tree ds = within levels n rest) :
    forestOf tree (d :: ds) = within levels (max m n) (.cons a children rest) := by
  rw [forestOf, hd]
  refine within_bind ?_
  rw [hds]
  exact within_bind_pure _ rest

/-- Placements are read back, each generation two levels below the one before. -/
theorem placements_documents (f : Forest Placement) (levels : Nat) :
    placements dialect levels (placementDocuments f) =
      within levels (Document.depthOfItems (placementDocuments f)) f := by
  induction f generalizing levels with
  | nil => rcases levels with _ | _ | levels <;> exact pure_eq_within Forest.nil
  | cons p cs rest ihc ihr =>
    have hdocuments : placementDocuments (.cons p cs rest) =
        .record (placementFields p (placementDocuments cs)) :: placementDocuments rest := rfl
    rw [hdocuments, Document.depthOfItems, Document.depth, depthOfFields_placementFields]
    have hfields := fields_placementFields p (placementDocuments cs) dialect
    have hrest := ihr levels
    -- The levels are matched as the reader does: a record takes one, and the list in it another.
    rcases levels with _ | _ | levels
    · exact forestOf_cons (within_zero_succ _).symm hrest
    · refine forestOf_cons ?_ hrest
      rw [hfields, within_succ, within, if_neg (by omega)]
      simp [lookup_children]
    · refine forestOf_cons ?_ hrest
      rw [hfields, within_succ, Option.bind_eq_bind, Option.bind_some, lookup_children]
      simp only [ihc]
      rw [Nat.max_comm, ← within_succ cs]
      refine within_bind ?_
      rw [label_placementFields]
      exact within_bind_pure _ p

/-- A list of placements takes a level of its own. -/
theorem readsBack_placementForest :
    ReadsBack dialect placementForest fun f => .list (placementDocuments f) := by
  intro levels f
  cases levels with
  | zero => exact (within_zero_succ f).symm
  | succ levels => exact (placements_documents f levels).trans (within_succ f).symm

/-- Catalogs are read back as they were written. -/
theorem readsBack_catalog : ReadsBack dialect catalog Catalog.document := by
  refine readsBack_record (by simp) fun levels c => ?_
  refine withDefault_bind (readsBack_list readsBack_table) (a := c.tables) rfl ?_
  refine withDefault_bind (readsBack_list readsBack_subquery) (a := c.subqueries) rfl ?_
  refine withDefault_bind readsBack_placementForest (a := c.schema) rfl ?_
  exact pure_eq_within c

end Decoder

/-! ### Documents of texts -/

namespace Document

theorem textual_list_map {α : Type} {document : α → Document} (h : ∀ a, (document a).Textual)
    (as : List α) : (list (as.map document)).Textual :=
  .list (List.forall_mem_map.2 fun a _ => h a)

theorem textual_texts (items : List String) : (texts items).Textual := textual_list_map .text items

/-- An optional field has a document of texts if its value has. -/
theorem textual_optionalField {α : Type} {document : α → Document}
    (h : ∀ a, (document a).Textual) (name : String) (value : Option α) :
    ∀ f ∈ optionalField name document value, f.2.Textual := by
  cases value with
  | none => exact nofun
  | some a => exact List.forall_mem_singleton.2 (h a)

end Document

theorem ForeignKey.textual_document (k : ForeignKey) : k.document.Textual := by
  refine .record ?_
  simp only [List.forall_mem_cons]
  exact ⟨Document.textual_texts _, .text _, Document.textual_texts _, nofun⟩

theorem Table.textual_document (t : Table) : t.document.Textual := by
  refine .record ?_
  simp only [List.forall_mem_cons]
  exact ⟨.text _, Document.textual_texts _, Document.textual_texts _,
    Document.textual_list_map ForeignKey.textual_document _, nofun⟩

theorem Subquery.textual_document (q : Subquery) : q.document.Textual := by
  refine .record ?_
  simp only [List.forall_mem_cons]
  exact ⟨.text _, .text _, Document.textual_texts _, nofun⟩

theorem JoinNote.textual_document (n : JoinNote) : n.document.Textual := by
  refine .record ?_
  rw [List.forall_mem_cons, List.forall_mem_append]
  exact ⟨Document.textual_list_map (fun _ => Document.textual_texts _) _,
    Document.textual_optionalField .text _ _,
    Document.textual_optionalField (fun k : JoinKind => .text k.name) _ _⟩

theorem textual_placementDocuments (f : Forest Placement) :
    ∀ d ∈ placementDocuments f, d.Textual := by
  induction f with
  | nil => exact nofun
  | cons p cs rest ihc ihr =>
    refine List.forall_mem_cons.2 ⟨.record ?_, ihr⟩
    rw [List.forall_mem_cons, List.forall_mem_append, List.forall_mem_append,
      List.forall_mem_singleton]
    exact ⟨.text _, ⟨Document.textual_optionalField .text _ _,
      Document.textual_optionalField JoinNote.textual_document _ _⟩, .list ihc⟩

namespace Catalog

/-- Catalogs are written with texts, lists and records only. -/
theorem textual_document (c : Catalog) : c.document.Textual := by
  refine .record ?_
  simp only [List.forall_mem_cons]
  exact ⟨Document.textual_list_map Table.textual_document _,
    Document.textual_list_map Subquery.textual_document _, .list (textual_placementDocuments _),
    nofun⟩

/-- The text is JSON, and the catalog is read from it if its brackets nest at most 127 deep. A text
that nests deeper is refused. -/
def RoundTrips (c : Catalog) (text : String) : Prop :=
  (Json.tokens? text.toList).isSome ∧
    parse .json text =
      if Json.nesting text ≤ 127 then .ok c else .error (.malformed .json)

theorem roundTrips_of_writes (c : Catalog) {text : String}
    (hw : Json.Writes c.document text) : c.RoundTrips text := by
  have htextual := c.textual_document
  constructor
  · rw [Json.tokens?_of_writes htextual hw]
    rfl
  · have hread : Json.decode? Decoder.catalog text = within 127 c.document.depth c := by
      rw [Json.decode?, Json.parse?_of_writes htextual hw, Option.bind_some]
      exact Decoder.readsBack_catalog 127 c
    rw [Json.nesting_of_writes htextual hw]
    by_cases hdepth : c.document.depth ≤ 127
    · simp [parse, hread, within, hdepth]
    · simp [parse, hread, within, hdepth]

/-- A catalog written as JSON, on one line or over several ones, is read back as it is as far as the
reader goes. -/
theorem parse_written (c : Catalog) :
    c.RoundTrips (Json.compact c.document) ∧ c.RoundTrips (Json.pretty c.document) :=
  ⟨c.roundTrips_of_writes (.inl rfl), c.roundTrips_of_writes (.inr rfl)⟩

end Catalog

end JoinForest
