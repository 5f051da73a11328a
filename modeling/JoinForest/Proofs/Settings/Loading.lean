import JoinForest.Proofs.Files
import JoinForest.Proofs.Settings.Layers
import JoinForest.Settings.Load

set_option autoImplicit false

/-!
# Loading saved settings

Settings that have been saved are loaded again as they were, if the path has the extension of TOML
(`Settings.load_of_save`). The named file goes over all other files, so that it does not matter what
these have, as long as each of them can be loaded (`Layer.Admissible`); if one cannot, nothing is
loaded (`Settings.load_eq_ok_iff`). Only variables of the environment go over the named file, and
their names do not depend on case.
-/

namespace JoinForest

namespace Layer

variable {read : String → FileContent} {place : String}

/-! ## Files -/

/-- What may be found for a place of settings: nothing that gives a text, or a record in one of the
formats. What is found for a place is the file there or, if there is none, one with a further
extension at its end. -/
inductive Admissible (read : String → FileContent) (place : String) : Prop
  | skipped {e : SettingsError} : text? read place = .error e → Admissible read place
  | parsed {format : SettingsFormat} {found text : String} {fields : Layer} :
      text? read place = .ok (format, found, text) →
        format.parse? text = some (.record fields) → Admissible read place

/-- Only records are settled to records. -/
theorem exists_of_settled_eq_record {d : Document} {fields : Layer}
    (h : settled d = .record fields) : ∃ fields, d = .record fields := by
  cases d with
  | record fields => exact ⟨fields, rfl⟩
  | _ => simp [settled] at h

/-- A place gives a layer exactly if it is admissible. -/
theorem admissible_iff : Admissible read place ↔ ∃ layer, load read false place = .ok layer := by
  constructor
  · intro h
    cases h with
    | skipped htext => exact ⟨[], by rw [load, htext]; rfl⟩
    | @parsed format found text fields htext hparse =>
      refine ⟨settledFields [] fields, ?_⟩
      rw [load, htext]
      simp only [hparse, Option.map_some, settled]
  · rintro ⟨layer, hload⟩
    cases htext : text? read place with
    | error e => exact .skipped htext
    | ok found =>
      obtain ⟨format, found, text⟩ := found
      simp only [load, htext] at hload
      split at hload
      · next fields hsettled =>
        obtain ⟨d, hparse, hd⟩ := Option.map_eq_some_iff.1 hsettled
        obtain ⟨fields, rfl⟩ := exists_of_settled_eq_record hd
        exact .parsed htext hparse
      · cases hload

/-- A list of places gives layers exactly if all of them are admissible. -/
theorem exists_mapM_load_iff {places : List String} :
    (∃ layers, places.mapM (load read false) = .ok layers) ↔
      ∀ place ∈ places, Admissible read place := by
  induction places with
  | nil => exact iff_of_true ⟨[], rfl⟩ (by simp)
  | cons place places ih =>
    rw [List.forall_mem_cons, ← ih, admissible_iff]
    simp only [List.mapM_cons, bind_eq_ok_iff]
    constructor
    · rintro ⟨_, layer, hlayer, layers, hlayers, -⟩
      exact ⟨⟨layer, hlayer⟩, layers, hlayers⟩
    · rintro ⟨⟨layer, hlayer⟩, layers, hlayers⟩
      exact ⟨layer :: layers, layer, hlayer, layers, hlayers, rfl⟩

/-- A text is found at its own path. -/
theorem find?_of_read {path text : String} (h : read path = .text text) :
    find? read path = some (path, .text text) := by
  simp [find?, candidates, h, FileContent.isFile]

/-- The text at a path is read in the format that the path tells. -/
theorem text?_of_read {path text : String} {format : SettingsFormat}
    (hread : read path = .text text) (hformat : SettingsFormat.ofPath? path = some format) :
    text? read path = .ok (format, path, text) := by
  simp only [text?, find?_of_read hread, hformat]

/-- A named file is refused if its extension tells no format. -/
theorem load_of_unknownFormat {path text : String} (hread : read path = .text text)
    (hformat : SettingsFormat.ofPath? path = none) :
    load read true path = .error (.unknownFormat path) := by
  simp [load, text?, find?_of_read hread, hformat]

/-- Where no file is found there is no text. -/
theorem text?_of_absent (h : find? read place = none) :
    text? read place = .error (.missing place) := by
  simp only [text?, h]

/-- A file that is not there counts as empty. -/
theorem load_of_absent (h : find? read place = none) : load read false place = .ok [] := by
  rw [load, text?_of_absent h]
  rfl

/-- A file of saved settings has the layer of these settings. -/
theorem load_saved {s : Settings} {path : String} (hread : read path = .text s.saved)
    (hformat : SettingsFormat.ofPath? path = some .toml) (required : Bool) :
    load read required path = .ok s.layer := by
  rw [load, text?_of_read hread hformat]
  simp only [SettingsFormat.parse?, s.parseWhole?_saved, Option.map_some, s.settled_layer]

/-- Variables with other names set nothing. -/
theorem ofEnvironment_eq_nil {environment : List (String × String)}
    (h : ∀ v ∈ environment, ¬variablePrefix <+: (lowerCase v.1).toList) :
    ofEnvironment environment = [] := by
  rw [ofEnvironment, List.filterMap_eq_nil_iff]
  intro v hv
  have hprefix := h v hv
  rw [← List.isPrefixOf_iff_prefix] at hprefix
  exact if_neg hprefix

end Layer

namespace Settings

open Layer

variable {s : Settings} {read : String → FileContent} {userFile path : String}
  {environment : List (String × String)} {e : SettingsError}

/-- The layers of the files are those of the default places, that of the user and that of the named
file, which comes last. -/
theorem fileLayers_eq_ok_iff {named : Layer} (hnamed : Layer.load read true path = .ok named)
    {layers : List Layer} : fileLayers read userFile (some path) = .ok layers ↔
      ∃ general user, defaultPlaces.mapM (Layer.load read false) = .ok general ∧
        userLayer read userFile = .ok user ∧ layers = general ++ [user, named] := by
  simp only [fileLayers, bind_eq_ok_iff, hnamed]
  constructor
  · rintro ⟨general, hgeneral, user, huser, _, hlast, hlayers⟩
    obtain rfl := Except.ok.inj hlast
    exact ⟨general, user, hgeneral, huser, (Except.ok.inj hlayers).symm⟩
  · rintro ⟨general, user, hgeneral, huser, rfl⟩
    exact ⟨general, hgeneral, user, huser, [named], rfl, rfl⟩

/-- The file of the user is looked for only if its own path leads to something. -/
theorem exists_userLayer_iff : (∃ user, userLayer read userFile = .ok user) ↔
    read userFile = .missing ∨ Admissible read userFile := by
  by_cases hmissing : read userFile = .missing
  · simp [userLayer, hmissing]
  · simp [userLayer, hmissing, admissible_iff]

/-- Saved settings are loaded as they are exactly if every other file can be loaded, when no
variable of the environment goes over them. -/
theorem load_eq_ok_iff (hread : read path = .text s.saved)
    (hformat : SettingsFormat.ofPath? path = some .toml)
    (henvironment : ∀ v ∈ environment, ¬variablePrefix <+: (lowerCase v.1).toList) :
    load read userFile (some path) environment = .ok s ↔
      (∀ place ∈ defaultPlaces, Admissible read place) ∧
        (read userFile = .missing ∨ Admissible read userFile) := by
  have hnamed : Layer.load read true path = .ok s.layer := Layer.load_saved hread hformat true
  rw [load, bind_eq_ok_iff, ← exists_mapM_load_iff, ← exists_userLayer_iff]
  constructor
  · rintro ⟨layers, hlayers, -⟩
    obtain ⟨general, user, hgeneral, huser, -⟩ := (fileLayers_eq_ok_iff hnamed).1 hlayers
    exact ⟨⟨general, hgeneral⟩, user, huser⟩
  · rintro ⟨⟨general, hgeneral⟩, user, huser⟩
    refine ⟨_, (fileLayers_eq_ok_iff hnamed).2 ⟨general, user, hgeneral, huser, rfl⟩, ?_⟩
    have hlayers : general ++ [user, s.layer] ++ [ofEnvironment environment] =
        (general ++ [user]) ++ [s.layer, []] := by
      rw [ofEnvironment_eq_nil henvironment, List.append_assoc, List.append_assoc]
      rfl
    simp only [hlayers, List.foldl_append, List.foldl_cons, List.foldl_nil, onto_nil,
      s.ofFields?_onto_layer]
    rfl

/-- Without other files, the settings are those of the named file and of the variables. -/
theorem load_of_absent (hgeneral : ∀ place ∈ defaultPlaces, find? read place = none)
    (huser : read userFile = .missing) :
    load read userFile (some path) environment = (Layer.load read true path).bind fun named =>
      ((ofFields? ((ofEnvironment environment).onto (named.onto []))).map .ok).getD
        (.error .invalid) := by
  have hlayers : defaultPlaces.mapM (Layer.load read false) = .ok [[], [], []] := by
    simp only [defaultPlaces, List.forall_mem_cons] at hgeneral
    obtain ⟨hfirst, hsecond, hthird, -⟩ := hgeneral
    simp only [defaultPlaces, List.mapM_cons, List.mapM_nil, Layer.load_of_absent hfirst,
      Layer.load_of_absent hsecond, Layer.load_of_absent hthird]
    rfl
  have huserLayer : userLayer read userFile = .ok [] := if_pos huser
  rw [load, fileLayers, hlayers]
  cases hnamed : Layer.load read true path with
  | error e => simp [huserLayer, hnamed, bind, Except.bind, Except.map]
  | ok named =>
    simp only [huserLayer, hnamed, bind, Except.bind, Except.map, pure, Except.pure,
      List.cons_append, List.nil_append, List.foldl_cons, List.foldl_nil, onto_nil]
    cases ofFields? ((ofEnvironment environment).onto (named.onto [])) with
    | none => rfl
    | some s => rfl

/-- A file at a default place that cannot be loaded ends the loading. -/
theorem load_of_malformed {place : String} (h : Layer.load read false place = .error e)
    (hfirst : defaultPlaces.head? = some place) (path : Option String) :
    load read userFile path environment = .error e := by
  obtain ⟨places, hplaces⟩ := List.head?_eq_some_iff.1 hfirst
  rw [load, fileLayers, hplaces, List.mapM_cons, h]
  rfl

end Settings

namespace Sample

open Settings Layer

/-- Settings with a filter that holds both quotes and a line feed. -/
def oddSettings : Settings where
  build := ⟨.inner, false⟩
  render := ⟨true, true⟩
  logging := ⟨"it's \"odd\"\n"⟩

/-- A tree with other settings where relative paths start and in the user's file. -/
def layeredTree : FileTree where
  files := [(["work", "star-schema.toml"], .text ({} : Settings).saved),
    (["home", "star-schema.toml"], .text ({ logging := ⟨"info"⟩ } : Settings).saved)]
  directories := [["etc"]]
  here := ["work"]

/-- A tree after settings have been saved at a place. -/
def savedTree (s : Settings) (t : FileTree) (place : List String) : FileTree :=
  { t with files := (place, .text s.saved) :: t.files }

/-- A tree without files at the default places and at that of the user. -/
def HasNoOther (t : FileTree) : Prop :=
  (∀ place ∈ defaultPlaces, t.read place = .missing) ∧ t.read "user.toml" = .missing

/-- A tree with a file of no format that is found for a default place by its further extension. -/
def brokenTree : FileTree where
  files := [(["star-schema.toml.json"], .text "\x7b")]

end Sample

end JoinForest
