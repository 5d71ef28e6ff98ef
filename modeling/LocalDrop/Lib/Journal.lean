import Mathlib.Data.List.Basic

/-! Journals: lists that only grow at the end, where what an entry may say depends
on the entries before it. -/
namespace LocalDrop.Lib

variable {α : Type} {allowed : List α → α → Prop}

/-- Every entry is allowed by the entries before it. -/
def Justified (allowed : List α → α → Prop) (journal : List α) : Prop :=
  ∀ pre entry post, journal = pre ++ entry :: post → allowed pre entry

theorem justified_nil : Justified allowed [] := by
  intro pre entry post h
  simp at h

theorem Justified.append {journal entries : List α} (h : Justified allowed journal)
    (hnew : ∀ pre entry post, entries = pre ++ entry :: post → allowed (journal ++ pre) entry) :
    Justified allowed (journal ++ entries) := by
  intro pre entry post hsplit
  rcases List.append_eq_append_iff.mp hsplit with
    ⟨middle, rfl, hentries⟩ | ⟨middle, hjournal, hrest⟩
  · exact hnew middle entry post hentries
  · cases middle with
    | nil =>
        rw [List.append_nil] at hjournal
        subst hjournal
        have := hnew [] entry post hrest.symm
        rwa [List.append_nil] at this
    | cons first middle =>
        rw [List.cons_append, List.cons.injEq] at hrest
        obtain ⟨rfl, -⟩ := hrest
        exact h pre entry middle hjournal

theorem Justified.append_of_allowed {journal entries : List α} (h : Justified allowed journal)
    (hmono : ∀ journal more entry, allowed journal entry → allowed (journal ++ more) entry)
    (hnew : ∀ entry ∈ entries, allowed journal entry) :
    Justified allowed (journal ++ entries) := by
  refine h.append fun pre entry post hsplit => hmono _ _ _ (hnew entry ?_)
  simp [hsplit]

end LocalDrop.Lib
