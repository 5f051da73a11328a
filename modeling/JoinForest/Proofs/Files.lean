import JoinForest.Files
import JoinForest.Proofs.Except
import Mathlib.Data.List.DropRight

set_option autoImplicit false

/-!
# Writing and reading files

What has been written to a path is read there (`FileTree.read_of_write`). The directory that writing
looks for is the one that reading leads through (`FileTree.follow_concat`), since a file that is
added takes no directory away (`FileTree.Extends`).
-/

namespace JoinForest.FileTree

variable {t t' : FileTree}

/-- A tree has all the directories of another, and relative paths start where they do there. -/
structure Extends (t' t : FileTree) : Prop where
  here_eq : t'.here = t.here
  isDirectory : ∀ place, t.isDirectory place = true → t'.isDirectory place = true

/-- One more file takes no directory away. -/
theorem extends_cons (t : FileTree) (file : List String × FileContent) :
    Extends { t with files := file :: t.files } t where
  here_eq := rfl
  isDirectory := by
    intro place h
    simp only [FileTree.isDirectory, List.any_cons, Bool.or_eq_true] at h ⊢
    rcases h with h | h
    · exact .inl h
    · exact .inr (.inr h)

/-- Where a path through directories leads in a tree, the file below leads one further in a tree
that has more. -/
theorem follow_concat (h : Extends t' t) {last : String} (hempty : last ≠ "") (hdot : last ≠ ".")
    (hup : last ≠ "..") (parts : List String) {place parent : List String}
    (hfollow : t.follow place (parts ++ ["."]) = .ok parent) :
    t'.follow place (parts ++ [last]) = .ok (parent ++ [last]) := by
  induction parts generalizing place with
  | nil =>
    rw [List.nil_append, follow] at hfollow
    split at hfollow
    · cases hfollow
    · next hdirectory =>
      have hplace : t'.isDirectory place = true := h.isDirectory place (by simpa using hdirectory)
      obtain rfl : place = parent := Except.ok.inj hfollow
      simp [follow, hplace, hempty, hdot, hup]
  | cons part parts ih =>
    rw [List.cons_append, follow] at hfollow ⊢
    split at hfollow
    · cases hfollow
    · next hdirectory =>
      have hplace : t'.isDirectory place = true := h.isDirectory place (by simpa using hdirectory)
      rw [hplace, if_neg (by decide)]
      split at hfollow
      · next hnameless =>
        rw [if_pos hnameless]
        exact ih hfollow
      · next hnamed =>
        rw [if_neg hnamed]
        split at hfollow
        · next hparent =>
          rw [if_pos hparent]
          exact ih hfollow
        · next hdown =>
          rw [if_neg hdown]
          exact ih hfollow

/-- A path with nothing before its first slash starts at the root. -/
theorem place_root (t : FileTree) {parts : List String} (h : parts ≠ []) :
    t.place ("" :: parts) = t.follow [] parts := by
  rw [place]
  exact h

/-- Any other path starts at the directory of relative paths. -/
theorem place_here (t : FileTree) {parts : List String} (h : parts.head? ≠ some "") :
    t.place parts = t.follow t.here parts := by
  rw [place]
  · rintro rfl
    exact h rfl
  · rintro rest rfl
    exact h rfl

/-- The file below a directory that a path leads to has the place below that directory, in a tree
that has more as well. -/
theorem place_concat (h : Extends t' t) {last : String} (hempty : last ≠ "") (hdot : last ≠ ".")
    (hup : last ≠ "..") (parts : List String) {parent : List String}
    (hplace : t.place (parts ++ ["."]) = .ok parent) :
    t'.place (parts ++ [last]) = .ok (parent ++ [last]) := by
  by_cases hroot : parts.head? = some ""
  · obtain ⟨rest, rfl⟩ := List.head?_eq_some_iff.1 hroot
    rw [List.cons_append, place_root _ (by simp)] at hplace ⊢
    exact follow_concat h hempty hdot hup rest hplace
  · have hrelative {part : String} (hpart : part ≠ "") :
        (parts ++ [part]).head? ≠ some "" := by
      cases parts with
      | nil => simpa using hpart
      | cons first rest => exact hroot
    rw [place_here _ (hrelative (by decide))] at hplace
    rw [place_here _ (hrelative hempty), h.here_eq]
    exact follow_concat h hempty hdot hup parts hplace

/-- A path that can be written is a directory that is there, and a name below it. -/
theorem exists_of_write {path text : String} (h : t.write path text = .ok t') :
    ∃ directory last parent, slashParts path = directory ++ [last] ∧
      (last ≠ "" ∧ last ≠ "." ∧ last ≠ "..") ∧ t.place (directory ++ ["."]) = .ok parent ∧
      t' = { t with files := (parent ++ [last], .text text) :: t.files } := by
  rw [write] at h
  have hnamed : ((slashParts path).reverse.dropWhile String.isEmpty).reverse =
      (slashParts path).rdropWhile String.isEmpty := rfl
  simp only [hnamed] at h
  split at h
  · cases h
  · next last hlast =>
    obtain ⟨parent, hparent, h⟩ := bind_eq_ok_iff.1 h
    split at h
    · cases h
    · next hwritable =>
      simp only [Bool.or_eq_true, decide_eq_true_eq, beq_iff_eq, not_or, not_lt] at hwritable
      obtain ⟨⟨⟨hlength, hdot⟩, hup⟩, -⟩ := hwritable
      have hparts : (slashParts path).rdropWhile String.isEmpty = slashParts path :=
        (List.rdropWhile_prefix _ _).eq_of_length_le hlength
      obtain ⟨directory, hdirectory⟩ := List.getLast?_eq_some_iff.1 hlast
      have hempty : last ≠ "" := by
        have hne : (slashParts path).rdropWhile String.isEmpty ≠ [] := by simp [hdirectory]
        have hlast? := List.rdropWhile_last_not _ _ hne
        simpa [hdirectory] using hlast?
      rw [hdirectory, List.dropLast_concat] at hparent
      exact ⟨directory, last, parent, hparts.symm.trans hdirectory, ⟨hempty, hdot, hup⟩, hparent,
        (Except.ok.inj h).symm⟩

/-- What has been written to a path is read there. -/
theorem read_of_write {path text : String} (h : t.write path text = .ok t') :
    t'.read path = .text text := by
  obtain ⟨directory, last, parent, hparts, ⟨hempty, hdot, hup⟩, hplace, rfl⟩ := exists_of_write h
  have hfile := place_concat (extends_cons t (parent ++ [last], .text text)) hempty hdot hup
    directory hplace
  rw [← hparts] at hfile
  simp [read, hfile, file?]

end JoinForest.FileTree
