import JoinForest.Proofs.Toml.Tables
import JoinForest.Settings

set_option autoImplicit false

/-!
# Settings in layers

Saved settings are read back as a layer that sets everything (`parseWhole?_saved`), and over another
layer such a layer decides alone (`ofFields?_onto_layer`).
-/

namespace JoinForest

open Quoting Toml

/-!
## Saved settings read back

The text of settings has a table for each section and a line for each setting (`toList_saved`), so
that it is read back as a layer that sets everything (`parseWhole?_saved`).
-/

/-- The layer that saved settings are read back as. -/
def Settings.layer (s : Settings) : Layer :=
  [("build", .record [("default_join_kind", .text s.build.defaultJoinKind.name),
      ("infer_reverse_foreign_keys", .bool s.build.inferReverseForeignKeys)]),
    ("render", .record [("pretty", .bool s.render.pretty),
      ("quote_identifiers", .bool s.render.quoteIdentifiers)]),
    ("logging", .record [("filter", .text s.logging.filter)])]

namespace Toml

/-- The line of a truth value. -/
def boolPair (key : String) (hbare : IsBareName key.toList) (b : Bool) : WrittenPair where
  key := key.toList
  written := (boolWord b).toList
  value := .bool b
  bare := hbare
  reads := readsAs_boolWord b

theorem basic_name (kind : JoinKind) :
    basic kind.name.toList = '"' :: (kind.name.toList ++ ['"']) := by
  cases kind <;> rfl

/-- The line of a kind of join. -/
def kindPair (key : String) (hbare : IsBareName key.toList) (kind : JoinKind) : WrittenPair where
  key := key.toList
  written := '"' :: (kind.name.toList ++ ['"'])
  value := .text kind.name
  bare := hbare
  reads := by
    rw [← basic_name]
    simpa using readsAs_basic kind.name.toList

/-- The line of a text. -/
def textPair (key : String) (hbare : IsBareName key.toList) (text : String) : WrittenPair where
  key := key.toList
  written := plainest text.toList
  value := .text text
  bare := hbare
  reads := by simpa using readsAs_plainest text.toList

end Toml

namespace Settings

/-- The table of the settings for building. -/
def buildTable (s : BuildSettings) : WrittenTable where
  header := "build".toList
  pairs :=
    [kindPair "default_join_kind" ⟨by decide, by decide⟩ s.defaultJoinKind,
      boolPair "infer_reverse_foreign_keys" ⟨by decide, by decide⟩ s.inferReverseForeignKeys]
  bare := ⟨by decide, by decide⟩
  distinct := by simp [kindPair, boolPair, WrittenPair.name]

/-- The table of the settings for rendering. -/
def renderTable (s : RenderOptions) : WrittenTable where
  header := "render".toList
  pairs :=
    [boolPair "pretty" ⟨by decide, by decide⟩ s.pretty,
      boolPair "quote_identifiers" ⟨by decide, by decide⟩ s.quoteIdentifiers]
  bare := ⟨by decide, by decide⟩
  distinct := by simp [boolPair, WrittenPair.name]

/-- The table of the settings for logging. -/
def loggingTable (s : LogSettings) : WrittenTable where
  header := "logging".toList
  pairs := [textPair "filter" ⟨by decide, by decide⟩ s.filter]
  bare := ⟨by decide, by decide⟩
  distinct := by simp

/-- The text that is saved consists of three tables, with their lines in a fixed order. -/
theorem toList_saved (s : Settings) :
    s.saved.toList = (buildTable s.build).text ++
      tablesText [renderTable s.render, loggingTable s.logging] := by
  unfold saved buildTable renderTable loggingTable kindPair boolPair textPair
  simp only [String.toList_append, String.toList_ofList, tablesText, WrittenTable.text,
    WrittenPair.text, List.flatMap_cons, List.flatMap_nil, List.append_assoc, List.cons_append,
    List.nil_append, List.append_nil]
  rfl

theorem fields_tables (s : Settings) :
    [buildTable s.build, renderTable s.render, loggingTable s.logging].map (·.field) = s.layer := by
  unfold buildTable renderTable loggingTable kindPair boolPair textPair layer
  simp only [List.map_cons, List.map_nil, WrittenTable.field, WrittenTable.name, WrittenPair.field,
    WrittenPair.name, String.ofList_toList]

theorem nodup_tables (s : Settings) :
    ([buildTable s.build, renderTable s.render, loggingTable s.logging].map (·.name)).Nodup := by
  have hnames : ["build", "render", "logging"].Nodup := by decide
  exact hnames

/-- Saved settings are read back as a record with every one of them. -/
theorem parseWhole?_saved (s : Settings) : parseWhole? s.saved = some (.record s.layer) := by
  rw [parseWhole?, parse?_tables s.toList_saved s.nodup_tables, fields_tables]
  rfl

theorem settled_layer (s : Settings) : Layer.settled (.record s.layer) = .record s.layer := rfl

end Settings

/-!
## Layers over one another

Of two layers the upper one decides, key by key. Fields that are set one after the other all take
effect, and other keys stay as they are (`exists_setAll`); what a field takes effect as (`effect`)
depends on what stands there for records only. So a value in a section of the upper layer is found
there, whatever the lower layer has (`exists_lookup_onto`), and settings that set everything are
what is read from the two layers together (`ofFields?_onto_layer`).
-/

namespace Layer

/-! ### One field -/

section Put

variable {key : String} (value : Document)

theorem lookup_put_self (fields : Layer) : (put key value fields).lookup key = some value := by
  induction fields with
  | nil => exact List.lookup_cons_self
  | cons field fields ih =>
    obtain ⟨k, v⟩ := field
    rw [put]
    split
    · exact List.lookup_cons_self
    · next hk => rw [List.lookup_cons, beq_false_of_ne (Ne.symm hk), ih]

theorem lookup_put_of_ne {other : String} (h : other ≠ key) (fields : Layer) :
    (put key value fields).lookup other = fields.lookup other := by
  induction fields with
  | nil => rw [put, List.lookup_cons, beq_false_of_ne h]
  | cons field fields ih =>
    obtain ⟨k, v⟩ := field
    rw [put]
    split
    · next hk =>
      rw [hk, List.lookup_cons, List.lookup_cons, beq_false_of_ne h]
    · rw [List.lookup_cons, List.lookup_cons, ih]

end Put

/-- What a value takes effect as, over what stands under its key. -/
def effect (old : Option Document) : Document → Document
  | .record incoming => setAll (old.getD (.record [])) incoming
  | value => value

/-- What is set under a key depends on the value and on the one before it only. -/
theorem set_eq_put (key : String) (fields : Layer) (value : Document) :
    set key fields value = put key (effect (fields.lookup key) value) fields := by
  cases value <;> rfl

/-! ### Many fields -/

/-- Fields under different keys in lower case. -/
structure Lowered (fields : Layer) : Prop where
  distinct : (fields.map (·.1)).Nodup
  lower : ∀ key ∈ fields.map (·.1), lowerCase key = key

theorem Lowered.tail {field : String × Document} {fields : Layer}
    (h : Lowered (field :: fields)) : Lowered fields :=
  ⟨(List.nodup_cons.1 h.distinct).2, fun key hkey => h.lower key (List.mem_cons_of_mem _ hkey)⟩

/-- Fields that are set one after the other all take effect, and other keys stay as they are. -/
theorem exists_setAll {incoming : Layer} (h : Lowered incoming) (target : Layer) :
    ∃ result, setAll (.record target) incoming = .record result ∧
      (∀ f ∈ incoming, result.lookup f.1 = some (effect (target.lookup f.1) f.2)) ∧
      ∀ key ∉ incoming.map (·.1), result.lookup key = target.lookup key := by
  -- By induction on the fields; the later ones leave the key of the first alone.
  induction incoming generalizing target with
  | nil => exact ⟨target, rfl, by simp, by simp⟩
  | cons field incoming ih =>
    obtain ⟨k, v⟩ := field
    have hnew : k ∉ incoming.map (·.1) := (List.nodup_cons.1 h.distinct).1
    have hlower : lowerCase k = k := h.lower _ List.mem_cons_self
    obtain ⟨result, hresult, heffect, hframe⟩ :=
      ih h.tail (put k (effect (target.lookup k) v) target)
    refine ⟨result, ?_, ?_, ?_⟩
    · rw [setAll, hlower, set_eq_put, ← hresult]
      rfl
    · intro f hf
      rcases List.mem_cons.1 hf with rfl | hf
      · rw [hframe k hnew, lookup_put_self]
      · have hne : f.1 ≠ k := by
          rintro heq
          exact hnew (List.mem_map.2 ⟨f, hf, heq⟩)
        rw [heffect f hf, lookup_put_of_ne _ hne]
    · intro key hkey
      rw [List.map_cons] at hkey
      rw [hframe key (List.not_mem_of_not_mem_cons hkey),
        lookup_put_of_ne _ (List.ne_of_not_mem_cons hkey)]

/-- What is no record gives way to the fields that are set. -/
theorem setAll_fieldsOf (target : Document) (field : String × Document) (incoming : Layer) :
    setAll target (field :: incoming) = setAll (.record (fieldsOf target)) (field :: incoming) :=
  rfl

@[simp] theorem onto_nil (lower : Layer) : onto [] lower = lower := rfl

/-- A layer whose keys are no paths goes over another field by field. -/
theorem onto_eq_setAll {upper : Layer}
    (h : ∀ key ∈ upper.map (·.1), KeyStep.ofKey key = [.field key]) (lower : Layer) :
    upper.onto lower = fieldsOf (setAll (.record lower) upper) := by
  rw [onto]
  induction upper generalizing lower with
  | nil => rfl
  | cons field upper ih =>
    obtain ⟨k, v⟩ := field
    have hkey : KeyStep.ofKey k = [.field k] := h _ List.mem_cons_self
    have hlater := ih fun key hkey => h key (List.mem_cons_of_mem _ hkey)
    rw [List.foldl_cons, hlater]
    simp only [hkey]
    rfl

/-- A layer whose keys are plain and in lower case, also those below the top. -/
structure Plain (layer : Layer) : Prop where
  noPath : ∀ key ∈ layer.map (·.1), KeyStep.ofKey key = [.field key]
  lowered : Lowered layer
  sections : ∀ key fields, (key, .record fields) ∈ layer → Lowered fields

/-- In two layers together, a section of the upper one has all its values, whatever the lower layer
has. -/
theorem exists_lookup_onto {upper : Layer} (h : Plain upper) (lower : Layer) {key : String}
    {fields : Layer} (hmem : (key, .record fields) ∈ upper) (hnonempty : fields ≠ []) :
    ∃ result, (upper.onto lower).lookup key = some (.record result) ∧
      ∀ f ∈ fields, (∀ inner, f.2 ≠ .record inner) → result.lookup f.1 = some f.2 := by
  obtain ⟨top, htop, hkeys, -⟩ := exists_setAll h.lowered lower
  obtain ⟨field, later, rfl⟩ := List.exists_cons_of_ne_nil hnonempty
  obtain ⟨result, hresult, heffect, -⟩ :=
    exists_setAll (h.sections _ _ hmem) (fieldsOf ((lower.lookup key).getD (.record [])))
  refine ⟨result, ?_, ?_⟩
  · rw [onto_eq_setAll h.noPath, htop, fieldsOf, hkeys _ hmem, effect, setAll_fieldsOf, hresult]
  · intro f hf hleaf
    rw [heffect f hf]
    obtain ⟨k, v⟩ := f
    cases v with
    | record inner => exact absurd rfl (hleaf inner)
    | _ => rfl

end Layer

/-! ### Settings that set everything -/

namespace Settings

open Layer

theorem plain_layer (s : Settings) : Plain s.layer where
  noPath := by
    have hkeys : ∀ key ∈ ["build", "render", "logging"], KeyStep.ofKey key = [.field key] := by
      decide
    exact hkeys
  lowered := by
    have hdistinct : ["build", "render", "logging"].Nodup := by decide
    have hlower : ∀ key ∈ ["build", "render", "logging"], lowerCase key = key := by decide
    exact ⟨hdistinct, hlower⟩
  sections := by
    intro key fields hmem
    have hkeys : fields.map (·.1) ∈ [["default_join_kind", "infer_reverse_foreign_keys"],
        ["pretty", "quote_identifiers"], ["filter"]] := by
      simp only [layer, List.mem_cons, List.not_mem_nil, or_false, Prod.mk.injEq,
        Document.record.injEq] at hmem
      rcases hmem with ⟨-, rfl⟩ | ⟨-, rfl⟩ | ⟨-, rfl⟩ <;> simp
    have hall : ∀ keys ∈ [["default_join_kind", "infer_reverse_foreign_keys"],
        ["pretty", "quote_identifiers"], ["filter"]],
        keys.Nodup ∧ ∀ key ∈ keys, lowerCase key = key := by decide
    exact ⟨(hall _ hkeys).1, (hall _ hkeys).2⟩

theorem joinKind?_name (kind : JoinKind) : Setting.joinKind? (.text kind.name) = some kind := by
  cases kind <;> decide

section Sections

variable {fields : Layer}

theorem build?_of_lookup {s : BuildSettings}
    (hkind : fields.lookup "default_join_kind" = some (.text s.defaultJoinKind.name))
    (hinfer : fields.lookup "infer_reverse_foreign_keys" =
      some (.bool s.inferReverseForeignKeys)) :
    Setting.build? (.record fields) = some s := by
  simp [Setting.build?, Setting.section?, Setting.get?, hkind, hinfer, joinKind?_name,
    Setting.bool?]

theorem render?_of_lookup {s : RenderOptions}
    (hpretty : fields.lookup "pretty" = some (.bool s.pretty))
    (hquote : fields.lookup "quote_identifiers" = some (.bool s.quoteIdentifiers)) :
    Setting.render? (.record fields) = some s := by
  simp [Setting.render?, Setting.section?, Setting.get?, hpretty, hquote, Setting.bool?]

theorem logging?_of_lookup {s : LogSettings}
    (hfilter : fields.lookup "filter" = some (.text s.filter)) :
    Setting.logging? (.record fields) = some s := by
  simp [Setting.logging?, Setting.section?, Setting.get?, hfilter, Setting.text?]

end Sections

/-- Settings that set everything are what is read, whatever the layer below them has. -/
theorem ofFields?_onto_layer (s : Settings) (lower : Layer) :
    ofFields? (s.layer.onto lower) = some s := by
  have hplain := s.plain_layer
  obtain ⟨build, hbuild, hbuilds⟩ := exists_lookup_onto hplain lower List.mem_cons_self (by simp)
  obtain ⟨render, hrender, hrenders⟩ := exists_lookup_onto hplain lower
    (List.mem_cons_of_mem _ List.mem_cons_self) (by simp)
  obtain ⟨logging, hlogging, hloggings⟩ := exists_lookup_onto hplain lower
    (List.mem_cons_of_mem _ (List.mem_cons_of_mem _ List.mem_cons_self)) (by simp)
  rw [List.forall_mem_cons, List.forall_mem_cons] at hbuilds hrenders
  rw [List.forall_mem_cons] at hloggings
  have hbuild? : Setting.build? (.record build) = some s.build :=
    build?_of_lookup (hbuilds.1 (by simp)) (hbuilds.2.1 (by simp))
  have hrender? : Setting.render? (.record render) = some s.render :=
    render?_of_lookup (hrenders.1 (by simp)) (hrenders.2.1 (by simp))
  have hlogging? : Setting.logging? (.record logging) = some s.logging :=
    logging?_of_lookup (hloggings.1 (by simp))
  simp [ofFields?, Setting.get?, hbuild, hrender, hlogging, hbuild?, hrender?, hlogging?]

end Settings

end JoinForest
