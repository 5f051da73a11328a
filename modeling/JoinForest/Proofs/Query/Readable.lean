set_option autoImplicit false

/-!
# Readable lists

When the parts of a list of tokens can be told from the whole. A way of writing is readable if what
is written and what follows are determined by the two put together, as long as only certain tokens
follow (`Readable`). Sequences, lists with a token between each two, repeated parts and parts that
may be left out are readable if their own parts are (`Readable.seq`, `Readable.separated`,
`Readable.repeated`, `Readable.optional`).
-/

namespace JoinForest

variable {τ α β : Type}

/-- A list is empty or begins with one of some tokens. -/
def Begins (starts tokens : List τ) : Prop := ∀ t ∈ tokens.head?, t ∈ starts

namespace Begins

variable {starts starts' tokens tokens' : List τ} {t : τ}

theorem nil (starts : List τ) : Begins starts ([] : List τ) := by
  intro t ht
  cases ht

theorem cons_iff : Begins starts (t :: tokens) ↔ t ∈ starts := by
  simp [Begins]

theorem mono (h : Begins starts tokens) (hsub : starts ⊆ starts') : Begins starts' tokens :=
  fun t ht => hsub (h t ht)

/-- Two lists that begin with given tokens, or are empty, do so one after the other. -/
theorem append (h : Begins starts tokens) (h' : Begins starts tokens') :
    Begins starts (tokens ++ tokens') := by
  cases tokens with
  | nil => exact h'
  | cons t tokens => exact cons_iff.2 (cons_iff.1 h)

end Begins

/-- A list with something between each two goes on with what stands between before each further
one. -/
theorem intercalate_map_cons (sep : List τ) (write : α → List τ) (a : α) (as : List α) :
    sep.intercalate ((a :: as).map write) = write a ++ as.flatMap fun b => sep ++ write b := by
  induction as generalizing a with
  | nil => simp
  | cons b as ih =>
    rw [List.map_cons, List.map_cons, List.intercalate_cons_cons, ← List.map_cons, ih b,
      List.flatMap_cons, List.append_assoc, List.append_assoc]

/-- What is written and what follows are told apart, where nothing follows or one of the tokens of
`follow`. -/
def Readable (valid : α → Prop) (follow : List τ) (write : α → List τ) : Prop :=
  ∀ ⦃a b : α⦄ ⦃r s : List τ⦄, valid a → valid b → Begins follow r → Begins follow s →
    write a ++ r = write b ++ s → a = b ∧ r = s

namespace Readable

variable {valid : α → Prop} {follow : List τ} {write : α → List τ}

/-- What is written as something readable is, without losing anything, is readable. -/
theorem comp (h : Readable valid follow write) {valid' : β → Prop} {write' : β → List τ}
    (f : β → α) (hvalid : ∀ b, valid' b → valid (f b))
    (hwrite : ∀ b, valid' b → write' b = write (f b))
    (hinj : ∀ b b', valid' b → valid' b' → f b = f b' → b = b') :
    Readable valid' follow write' := by
  intro b b' r s hb hb' hr hs heq
  rw [hwrite b hb, hwrite b' hb'] at heq
  obtain ⟨hf, hrs⟩ := h (hvalid b hb) (hvalid b' hb') hr hs heq
  exact ⟨hinj b b' hb hb' hf, hrs⟩

/-- What is written as one token is readable if different things have different tokens. -/
theorem single {token : α → τ} (hinj : ∀ a b, valid a → valid b → token a = token b → a = b)
    (follow : List τ) : Readable valid follow fun a => [token a] := by
  intro a b r s ha hb _ _ heq
  obtain ⟨htoken, hrs⟩ := List.cons.inj heq
  exact ⟨hinj a b ha hb htoken, hrs⟩

/-- The same tokens before each do no harm. -/
theorem prepend (h : Readable valid follow write) (lead : List τ) :
    Readable valid follow fun a => lead ++ write a := by
  intro a b r s ha hb hr hs heq
  rw [List.append_assoc, List.append_assoc] at heq
  exact h ha hb hr hs (List.append_cancel_left heq)

/-- One part after the other, where the second one and what follows it may follow the first one. -/
theorem seq {valid₂ : β → Prop} {follow₂ : List τ} {write₂ : β → List τ}
    (h : Readable valid follow write) (h₂ : Readable valid₂ follow₂ write₂)
    (hbegins : ∀ b r, valid₂ b → Begins follow₂ r → Begins follow (write₂ b ++ r)) :
    Readable (fun p : α × β => valid p.1 ∧ valid₂ p.2) follow₂
      fun p => write p.1 ++ write₂ p.2 := by
  rintro ⟨a, a₂⟩ ⟨b, b₂⟩ r s ⟨ha, ha₂⟩ ⟨hb, hb₂⟩ hr hs heq
  rw [List.append_assoc, List.append_assoc] at heq
  obtain ⟨rfl, hrest⟩ := h ha hb (hbegins a₂ r ha₂ hr) (hbegins b₂ s hb₂ hs) heq
  obtain ⟨rfl, hrs⟩ := h₂ ha₂ hb₂ hr hs hrest
  exact ⟨rfl, hrs⟩

/-- One part after the other, where the second one begins as what follows the first one may. -/
theorem seq_of_begins {valid₂ : β → Prop} {follow₂ : List τ} {write₂ : β → List τ}
    (h : Readable valid follow write) (h₂ : Readable valid₂ follow₂ write₂)
    (hsub : follow₂ ⊆ follow) (hbegins : ∀ b, valid₂ b → Begins follow (write₂ b)) :
    Readable (fun p : α × β => valid p.1 ∧ valid₂ p.2) follow₂
      fun p => write p.1 ++ write₂ p.2 := by
  refine h.seq h₂ ?_
  intro b r hb hr
  exact (hbegins b hb).append (hr.mono hsub)

/-- A first part that is told apart whatever follows may stand before any other. -/
theorem seq_any {valid₂ : β → Prop} {write₂ : β → List τ}
    (h : ∀ follow : List τ, Readable valid follow write) (h₂ : Readable valid₂ follow write₂) :
    Readable (fun p : α × β => valid p.1 ∧ valid₂ p.2) follow
      fun p => write p.1 ++ write₂ p.2 := by
  rintro ⟨a, a₂⟩ ⟨b, b₂⟩ r s ⟨ha, ha₂⟩ ⟨hb, hb₂⟩ hr hs heq
  rw [List.append_assoc, List.append_assoc] at heq
  have hbegins (tokens later : List τ) : Begins (tokens ++ later) tokens := by
    intro t ht
    exact List.mem_append_left _ (List.mem_of_mem_head? ht)
  obtain ⟨rfl, hrest⟩ := h ((write₂ a₂ ++ r) ++ (write₂ b₂ ++ s)) ha hb (hbegins _ _)
    ((hbegins _ []).mono (by simp)) heq
  obtain ⟨rfl, hrs⟩ := h₂ ha₂ hb₂ hr hs hrest
  exact ⟨rfl, hrs⟩

/-- Parts one after the other that begin with tokens of their own, which may not follow all. -/
theorem repeated {starts : List τ} (h : Readable valid (starts ++ follow) write)
    (hstarts : ∀ a, valid a → ∃ t rest, write a = t :: rest ∧ t ∈ starts)
    (hdisjoint : ∀ t ∈ starts, t ∉ follow) :
    Readable (fun l : List α => ∀ a ∈ l, valid a) follow fun l => l.flatMap write := by
  have hfollow {l : List α} {r : List τ} (hl : ∀ a ∈ l, valid a) (hr : Begins follow r) :
      Begins (starts ++ follow) (l.flatMap write ++ r) := by
    cases l with
    | nil => exact hr.mono (List.subset_append_right starts follow)
    | cons a as =>
      obtain ⟨t, rest, hwrite, ht⟩ := hstarts a (hl a List.mem_cons_self)
      rw [List.flatMap_cons, hwrite]
      exact Begins.cons_iff.2 (List.mem_append_left _ ht)
  have hend {a : α} {r s : List τ} (ha : valid a) (hr : Begins follow r)
      (heq : r = write a ++ s) : False := by
    obtain ⟨t, rest, hwrite, ht⟩ := hstarts a ha
    rw [heq, hwrite] at hr
    exact hdisjoint t ht (Begins.cons_iff.1 hr)
  intro l
  induction l with
  | nil =>
    intro l' r s hl hl' hr hs heq
    cases l' with
    | nil => exact ⟨rfl, heq⟩
    | cons b bs =>
      simp only [List.flatMap_nil, List.nil_append, List.flatMap_cons, List.append_assoc] at heq
      exact (hend (hl' b List.mem_cons_self) hr heq).elim
  | cons a as ih =>
    intro l' r s hl hl' hr hs heq
    obtain ⟨ha, has⟩ := List.forall_mem_cons.1 hl
    cases l' with
    | nil =>
      simp only [List.flatMap_nil, List.nil_append, List.flatMap_cons, List.append_assoc] at heq
      exact (hend ha hs heq.symm).elim
    | cons b bs =>
      obtain ⟨hb, hbs⟩ := List.forall_mem_cons.1 hl'
      simp only [List.flatMap_cons, List.append_assoc] at heq
      obtain ⟨rfl, hrest⟩ := h ha hb (hfollow has hr) (hfollow hbs hs) heq
      obtain ⟨rfl, hrs⟩ := ih has hbs hr hs hrest
      exact ⟨rfl, hrs⟩

/-- A list with a token between each two, which may not follow the whole. -/
theorem separated {sep : τ} (h : Readable valid (sep :: follow) write) (hsep : sep ∉ follow) :
    Readable (fun l : List α => l ≠ [] ∧ ∀ a ∈ l, valid a) follow
      fun l => [sep].intercalate (l.map write) := by
  -- Behind the first element the list is one of elements that begin with the separator.
  have hstep : Readable valid ([sep] ++ follow) fun a => [sep] ++ write a := h.prepend [sep]
  have hrest : Readable (fun l : List α => ∀ a ∈ l, valid a) follow
      fun l => l.flatMap fun a => [sep] ++ write a := by
    refine hstep.repeated ?_ ?_
    · intro a _
      exact ⟨sep, write a, rfl, List.mem_singleton.2 rfl⟩
    · intro t ht
      rw [List.mem_singleton.1 ht]
      exact hsep
  have hbegins (l : List α) {r : List τ} (hr : Begins follow r) :
      Begins (sep :: follow) ((l.flatMap fun a => [sep] ++ write a) ++ r) := by
    cases l with
    | nil => exact hr.mono (List.subset_cons_self sep follow)
    | cons a as => exact Begins.cons_iff.2 List.mem_cons_self
  intro l l' r s hl hl' hr hs heq
  cases l with
  | nil => exact absurd rfl hl.1
  | cons a as =>
    cases l' with
    | nil => exact absurd rfl hl'.1
    | cons b bs =>
      obtain ⟨ha, has⟩ := List.forall_mem_cons.1 hl.2
      obtain ⟨hb, hbs⟩ := List.forall_mem_cons.1 hl'.2
      simp only [intercalate_map_cons, List.append_assoc] at heq
      obtain ⟨rfl, htail⟩ := h ha hb (hbegins as hr) (hbegins bs hs) heq
      obtain ⟨rfl, hrs⟩ := hrest has hbs hr hs htail
      exact ⟨rfl, hrs⟩

/-- A part that may be left out, told by its first token, which may not follow the whole. -/
theorem optional (none : α) (h : Readable (fun a => a ≠ none ∧ valid a) follow write)
    (hnone : write none = [])
    (hstarts : ∀ a, a ≠ none → valid a → ∃ t rest, write a = t :: rest ∧ t ∉ follow) :
    Readable valid follow write := by
  have hend {a : α} {r s : List τ} (ha : a ≠ none) (hvalid : valid a) (hr : Begins follow r)
      (heq : r = write a ++ s) : False := by
    obtain ⟨t, rest, hwrite, ht⟩ := hstarts a ha hvalid
    rw [heq, hwrite] at hr
    exact ht (Begins.cons_iff.1 hr)
  intro a b r s ha hb hr hs heq
  by_cases hna : a = none
  · subst hna
    by_cases hnb : b = a
    · subst hnb
      exact ⟨rfl, List.append_cancel_left heq⟩
    · rw [hnone, List.nil_append] at heq
      exact (hend hnb hb hr heq).elim
  · by_cases hnb : b = none
    · subst hnb
      rw [hnone, List.nil_append] at heq
      exact (hend hna ha hs heq.symm).elim
    · exact h ⟨hna, ha⟩ ⟨hnb, hb⟩ hr hs heq

end Readable

end JoinForest
