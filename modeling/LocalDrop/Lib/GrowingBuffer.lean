import Mathlib.Data.List.Basic

/-! A buffer that grows by reallocation. A reallocation may fail, and then the append that
asked for it leaves the text as it was; a later append may succeed again. -/
namespace LocalDrop.Lib

/-- There is no text before the first allocation. `asked` is history: how many times more
memory was asked for. -/
structure GrowingBuffer (α : Type) where
  text : Option (List α)
  capacity : Nat
  asked : Nat
deriving DecidableEq

/-- `while (capacity <= required) capacity *= 2`, given enough fuel. -/
def enlarge (required : Nat) : Nat → Nat → Nat
  | 0, capacity => capacity
  | fuel + 1, capacity =>
      if capacity ≤ required then enlarge required fuel (2 * capacity) else capacity

theorem enlarge_gt {required fuel capacity : Nat} (hpos : 0 < capacity)
    (h : required < capacity + fuel) : required < enlarge required fuel capacity := by
  induction fuel generalizing capacity with
  | zero => simpa [enlarge] using h
  | succ fuel ih =>
      rw [enlarge]
      split
      · apply ih
        · omega
        · omega
      · omega

theorem enlarge_enough {required capacity : Nat} (hpos : 0 < capacity) :
    required < enlarge required (required + 1) capacity := by
  apply enlarge_gt hpos
  omega

theorem enlarge_add {required fuel capacity : Nat} (more : Nat)
    (h : required < enlarge required fuel capacity) :
    enlarge required (fuel + more) capacity = enlarge required fuel capacity := by
  induction fuel generalizing capacity with
  | zero =>
      rw [enlarge] at h ⊢
      cases more with
      | zero => rfl
      | succ more => rw [Nat.zero_add, enlarge, if_neg (Nat.not_le.mpr h)]
  | succ fuel ih =>
      rw [Nat.add_right_comm]
      rw [enlarge] at h ⊢
      rw [enlarge]
      split
      · rename_i hsmall
        rw [if_pos hsmall] at h
        exact ih h
      · rfl

theorem enlarge_unique {required fuel fuel' capacity : Nat}
    (h : required < enlarge required fuel capacity)
    (h' : required < enlarge required fuel' capacity) :
    enlarge required fuel capacity = enlarge required fuel' capacity := by
  rcases Nat.le_total fuel fuel' with hle | hle
  · obtain ⟨more, rfl⟩ := Nat.exists_eq_add_of_le hle
    exact (enlarge_add more h).symm
  · obtain ⟨more, rfl⟩ := Nat.exists_eq_add_of_le hle
    exact enlarge_add more h'

namespace GrowingBuffer
variable {α : Type}

def null : GrowingBuffer α := ⟨none, 0, 0⟩

def content (buffer : GrowingBuffer α) : List α := buffer.text.getD []

/-- Room for `required` items and one more; `realloc` tells of each call whether it succeeds. -/
def ensure (initial : Nat) (realloc : Nat → Bool) (buffer : GrowingBuffer α) (required : Nat) :
    GrowingBuffer α × Bool :=
  if buffer.text.isSome ∧ required < buffer.capacity then (buffer, true)
  else if realloc buffer.asked then
    ({ text := some buffer.content
       capacity := enlarge required (required + 1)
         (if 0 < buffer.capacity then buffer.capacity else initial)
       asked := buffer.asked + 1 }, true)
  else ({ buffer with asked := buffer.asked + 1 }, false)

def append (initial : Nat) (realloc : Nat → Bool) (buffer : GrowingBuffer α) (piece : List α) :
    GrowingBuffer α × Bool :=
  let ensured := buffer.ensure initial realloc (buffer.content.length + piece.length + 1)
  if ensured.2 then ({ ensured.1 with text := some (ensured.1.content ++ piece) }, true)
  else ensured

def appendAll (initial : Nat) (realloc : Nat → Bool) :
    GrowingBuffer α → List (List α) → GrowingBuffer α × Bool
  | buffer, [] => (buffer, true)
  | buffer, piece :: rest =>
      let appended := buffer.append initial realloc piece
      if appended.2 then appended.1.appendAll initial realloc rest else appended

/-- How often memory is asked for while pieces of these sizes are appended to a text of this
length in a block of this capacity. -/
def calls (initial : Nat) : Nat → Nat → List Nat → Nat
  | _, _, [] => 0
  | length, capacity, size :: sizes =>
      if length + size + 1 < capacity then calls initial (length + size) capacity sizes
      else
        calls initial (length + size) (enlarge (length + size + 1) (length + size + 1 + 1)
          (if 0 < capacity then capacity else initial)) sizes + 1

def always : Nat → Bool := fun _ => true

section append
variable {initial : Nat} {realloc : Nat → Bool} {buffer : GrowingBuffer α} {piece : List α}

theorem ensure_content (required : Nat) :
    (buffer.ensure initial realloc required).1.content = buffer.content := by
  unfold ensure
  split
  · rfl
  · split
    · rfl
    · rfl

theorem append_content (h : (buffer.append initial realloc piece).2 = true) :
    (buffer.append initial realloc piece).1.text = some (buffer.content ++ piece) := by
  unfold append at h ⊢
  dsimp only at h ⊢
  split
  · dsimp only
    rw [ensure_content]
  · rename_i hfailed
    rw [if_neg hfailed] at h
    contradiction

theorem append_failed (h : (buffer.append initial realloc piece).2 = false) :
    (buffer.append initial realloc piece).1.content = buffer.content := by
  unfold append at h ⊢
  dsimp only at h ⊢
  split
  · rename_i hensured
    rw [if_pos hensured] at h
    contradiction
  · exact ensure_content _

theorem ensure_room (hinitial : 0 < initial) {required : Nat}
    (h : (buffer.ensure initial realloc required).2 = true) :
    required < (buffer.ensure initial realloc required).1.capacity := by
  unfold ensure at h ⊢
  split
  · rename_i hroom
    exact hroom.2
  · rename_i hfull
    rw [if_neg hfull] at h
    split
    · apply enlarge_enough
      split
      · assumption
      · exact hinitial
    · rename_i hfailed
      rw [if_neg hfailed] at h
      contradiction

theorem append_of_room
    (h : buffer.text.isSome ∧ buffer.content.length + piece.length + 1 < buffer.capacity) :
    buffer.append initial realloc piece =
      ({ buffer with text := some (buffer.content ++ piece) }, true) := by
  rw [append, ensure, if_pos h]
  rfl

theorem append_of_full
    (h : ¬ (buffer.text.isSome ∧ buffer.content.length + piece.length + 1 < buffer.capacity)) :
    buffer.append initial realloc piece =
      if realloc buffer.asked then
        ({ text := some (buffer.content ++ piece)
           capacity := enlarge (buffer.content.length + piece.length + 1)
             (buffer.content.length + piece.length + 1 + 1)
             (if 0 < buffer.capacity then buffer.capacity else initial)
           asked := buffer.asked + 1 }, true)
      else ({ buffer with asked := buffer.asked + 1 }, false) := by
  rw [append, ensure, if_neg h]
  cases realloc buffer.asked
  · rfl
  · rfl

theorem append_cases (initial : Nat) (buffer : GrowingBuffer α) (piece : List α) :
    (buffer.append initial always piece).1.asked = buffer.asked ∧
      (∀ realloc, buffer.append initial realloc piece = buffer.append initial always piece) ∨
    (buffer.append initial always piece).1.asked = buffer.asked + 1 ∧
      ∀ realloc, buffer.append initial realloc piece =
        if realloc buffer.asked then buffer.append initial always piece
        else ({ buffer with asked := buffer.asked + 1 }, false) := by
  by_cases hroom : buffer.text.isSome ∧ buffer.content.length + piece.length + 1 < buffer.capacity
  · left
    simp only [append_of_room hroom, implies_true, and_self]
  · right
    simp only [append_of_full hroom, always, if_true, implies_true, and_self]

theorem append_fails (h : (buffer.append initial realloc piece).2 = false) :
    realloc buffer.asked = false ∧
      (buffer.append initial realloc piece).1.asked = buffer.asked + 1 := by
  by_cases hroom : buffer.text.isSome ∧ buffer.content.length + piece.length + 1 < buffer.capacity
  · rw [append_of_room hroom] at h
    contradiction
  · rw [append_of_full hroom] at h ⊢
    cases hrealloc : realloc buffer.asked with
    | true =>
        rw [hrealloc] at h
        contradiction
    | false => exact ⟨rfl, rfl⟩

theorem append_asked_le : buffer.asked ≤ (buffer.append initial realloc piece).1.asked := by
  by_cases hroom : buffer.text.isSome ∧ buffer.content.length + piece.length + 1 < buffer.capacity
  · exact Nat.le_of_eq (by rw [append_of_room hroom])
  · rw [append_of_full hroom]
    split
    · exact Nat.le_succ _
    · exact Nat.le_succ _

theorem append_always : (buffer.append initial always piece).2 = true := by
  by_cases hroom : buffer.text.isSome ∧ buffer.content.length + piece.length + 1 < buffer.capacity
  · rw [append_of_room hroom]
  · rw [append_of_full hroom]
    rfl

end append

section appendAll
variable {initial : Nat} {realloc : Nat → Bool} {buffer : GrowingBuffer α}
  {pieces more : List (List α)}

theorem appendAll_singleton (piece : List α) :
    buffer.appendAll initial realloc [piece] = buffer.append initial realloc piece := by
  rw [appendAll]
  split
  · rename_i happended
    rw [appendAll, ← happended]
  · rfl

theorem appendAll_append :
    buffer.appendAll initial realloc (pieces ++ more) =
      if (buffer.appendAll initial realloc pieces).2 then
        (buffer.appendAll initial realloc pieces).1.appendAll initial realloc more
      else buffer.appendAll initial realloc pieces := by
  induction pieces generalizing buffer with
  | nil => rfl
  | cons piece pieces ih =>
      rw [List.cons_append, appendAll, appendAll]
      split
      · exact ih
      · rfl

theorem appendAll_content (h : (buffer.appendAll initial realloc pieces).2 = true) :
    (buffer.appendAll initial realloc pieces).1.content = buffer.content ++ pieces.flatten := by
  induction pieces generalizing buffer with
  | nil => simp [appendAll]
  | cons piece pieces ih =>
      rw [appendAll] at h ⊢
      split
      · rename_i happended
        rw [if_pos happended] at h
        rw [ih h, content, append_content happended, Option.getD_some, List.flatten_cons,
          List.append_assoc]
      · rename_i hfailed
        rw [if_neg hfailed] at h
        contradiction

theorem appendAll_text {piece : List α}
    (h : (buffer.appendAll initial realloc (piece :: pieces)).2 = true) :
    (buffer.appendAll initial realloc (piece :: pieces)).1.text =
      some (buffer.content ++ (piece :: pieces).flatten) := by
  induction pieces generalizing buffer piece with
  | nil =>
      rw [appendAll_singleton] at h ⊢
      rw [append_content h, List.flatten_singleton]
  | cons next pieces ih =>
      rw [appendAll] at h ⊢
      split
      · rename_i happended
        rw [if_pos happended] at h
        rw [ih h, content, append_content happended, Option.getD_some, List.append_assoc,
          ← List.flatten_cons]
      · rename_i hfailed
        rw [if_neg hfailed] at h
        contradiction

theorem appendAll_some_pieces :
    ∃ n, (buffer.appendAll initial realloc pieces).1.content =
      buffer.content ++ (pieces.take n).flatten := by
  induction pieces generalizing buffer with
  | nil => exact ⟨0, by simp [appendAll]⟩
  | cons piece pieces ih =>
      rw [appendAll]
      split
      · rename_i happended
        obtain ⟨n, hn⟩ := @ih (buffer.append initial realloc piece).1
        refine ⟨n + 1, ?_⟩
        rw [hn, content, append_content happended, Option.getD_some, List.take_succ_cons,
          List.flatten_cons, List.append_assoc]
      · rename_i hfailed
        refine ⟨0, ?_⟩
        rw [append_failed (by simpa using hfailed)]
        simp

theorem appendAll_length (hne : ∀ piece ∈ pieces, piece ≠ [])
    (h : (buffer.appendAll initial realloc pieces).2 = false) :
    (buffer.appendAll initial realloc pieces).1.content.length <
      buffer.content.length + pieces.flatten.length := by
  induction pieces generalizing buffer with
  | nil => simp [appendAll] at h
  | cons piece pieces ih =>
      have hpiece := List.length_pos_of_ne_nil (hne piece (by simp))
      rw [List.flatten_cons, List.length_append]
      rw [appendAll] at h ⊢
      split
      · rename_i happended
        rw [if_pos happended] at h
        have hrest := ih (fun other hother => hne other (by simp [hother])) h
        have hcontent : (buffer.append initial realloc piece).1.content.length =
            buffer.content.length + piece.length := by
          rw [content, append_content happended, Option.getD_some, List.length_append]
        omega
      · rename_i hfailed
        rw [append_failed (by simpa using hfailed)]
        omega

theorem appendAll_fails (h : (buffer.appendAll initial realloc pieces).2 = false) :
    ∃ call, buffer.asked ≤ call ∧ call < (buffer.appendAll initial realloc pieces).1.asked ∧
      realloc call = false := by
  induction pieces generalizing buffer with
  | nil => contradiction
  | cons piece pieces ih =>
      rw [appendAll] at h ⊢
      split
      · rename_i happended
        rw [if_pos happended] at h
        obtain ⟨call, hle, hlt, hfails⟩ := ih h
        exact ⟨call, Nat.le_trans append_asked_le hle, hlt, hfails⟩
      · rename_i hfailed
        obtain ⟨hfails, hasked⟩ := append_fails (by simpa using hfailed)
        exact ⟨buffer.asked, Nat.le_refl _, by omega, hfails⟩

theorem appendAll_asked_le :
    buffer.asked ≤ (buffer.appendAll initial always pieces).1.asked := by
  induction pieces generalizing buffer with
  | nil => exact Nat.le_refl _
  | cons piece pieces ih =>
      rw [appendAll]
      rw [if_pos append_always]
      have hlater := @ih (buffer.append initial always piece).1
      rcases append_cases initial buffer piece with ⟨hasked, -⟩ | ⟨hasked, -⟩
      · omega
      · omega

theorem appendAll_succeeds_iff :
    (buffer.appendAll initial realloc pieces).2 = true ↔
      ∀ call, buffer.asked ≤ call → call < (buffer.appendAll initial always pieces).1.asked →
        realloc call = true := by
  induction pieces generalizing buffer with
  | nil =>
      refine iff_of_true rfl fun call hle hlt => ?_
      exact absurd hlt (Nat.not_lt.mpr hle)
  | cons piece pieces ih =>
      rw [appendAll, appendAll]
      rw [if_pos append_always]
      rcases append_cases initial buffer piece with ⟨hasked, hsame⟩ | ⟨hasked, hcall⟩
      · rw [hsame, if_pos append_always, ih, hasked]
      · have hlater := @appendAll_asked_le _ initial (buffer.append initial always piece).1 pieces
        rw [hasked] at hlater
        rw [hcall]
        cases hrealloc : realloc buffer.asked with
        | false =>
            refine iff_of_false (by simp) fun hall => ?_
            rw [hall buffer.asked (Nat.le_refl _) hlater] at hrealloc
            contradiction
        | true =>
            simp only [if_true]
            rw [if_pos append_always, ih, hasked]
            constructor
            · intro hall call hle hlt
              rcases Nat.eq_or_lt_of_le hle with rfl | hlt'
              · exact hrealloc
              · exact hall call hlt' hlt
            · intro hall call hle hlt
              exact hall call (by omega) hlt

theorem asked_appendAll (hnull : buffer.text = none → buffer.capacity = 0) :
    (buffer.appendAll initial always pieces).1.asked =
      buffer.asked + calls initial buffer.content.length buffer.capacity
        (pieces.map List.length) := by
  induction pieces generalizing buffer with
  | nil => rfl
  | cons piece pieces ih =>
      have hcontent : (buffer.append initial always piece).1.content.length =
          buffer.content.length + piece.length := by
        rw [content, append_content append_always, Option.getD_some, List.length_append]
      have hlater := @ih (buffer.append initial always piece).1 fun hnone => by
        rw [append_content append_always] at hnone
        contradiction
      rw [appendAll, if_pos append_always, hlater, hcontent, List.map_cons, calls]
      by_cases hroom : buffer.content.length + piece.length + 1 < buffer.capacity
      · have hsome : buffer.text.isSome = true := by
          cases htext : buffer.text with
          | none => rw [hnull htext] at hroom; contradiction
          | some text => rfl
        rw [if_pos hroom, append_of_room ⟨hsome, hroom⟩]
      · rw [if_neg hroom, append_of_full fun h => hroom h.2]
        simp only [always, if_true]
        omega

end appendAll

/-- Of a buffer whose appends went unchecked: it holds the pieces, or one of them failed and
something is missing for good. -/
inductive Tracks (initial : Nat) (realloc : Nat → Bool) (pieces : List (List α))
    (buffer : GrowingBuffer α) : Prop
  | whole (run : null.appendAll initial realloc pieces = (buffer, true))
  | short (run : (null.appendAll initial realloc pieces).2 = false)
      (lacks : buffer.content.length < pieces.flatten.length)

namespace Tracks
variable {initial : Nat} {realloc : Nat → Bool} {pieces more : List (List α)}
  {buffer : GrowingBuffer α}

theorem nil : Tracks initial realloc [] (null : GrowingBuffer α) := .whole rfl

theorem failed_append (h : (null.appendAll initial realloc pieces).2 = false) :
    (null.appendAll initial realloc (pieces ++ more)).2 = false := by
  rw [appendAll_append, h]
  exact h

theorem content_of_whole (run : null.appendAll initial realloc pieces = (buffer, true)) :
    buffer.content = pieces.flatten := by
  have hwhole := @appendAll_content _ initial realloc null pieces (by rw [run])
  rw [run] at hwhole
  exact hwhole

theorem skip (h : (null.appendAll initial realloc pieces).2 = false)
    (hlacks : buffer.content.length < pieces.flatten.length) :
    Tracks initial realloc (pieces ++ more) buffer := by
  apply Tracks.short (failed_append h)
  rw [List.flatten_append, List.length_append]
  omega

theorem appendAll (h : Tracks initial realloc pieces buffer) (hne : ∀ piece ∈ more, piece ≠ []) :
    Tracks initial realloc (pieces ++ more) (buffer.appendAll initial realloc more).1 := by
  have hle : (buffer.appendAll initial realloc more).1.content.length ≤
      buffer.content.length + more.flatten.length := by
    cases hmore : (buffer.appendAll initial realloc more).2 with
    | true => exact Nat.le_of_eq (by rw [appendAll_content hmore, List.length_append])
    | false => exact Nat.le_of_lt (appendAll_length hne hmore)
  cases h with
  | whole run =>
      have hcontent := content_of_whole run
      have hrun : null.appendAll initial realloc (pieces ++ more) =
          buffer.appendAll initial realloc more := by
        rw [appendAll_append, run]
        rfl
      cases hmore : (buffer.appendAll initial realloc more).2 with
      | true =>
          apply Tracks.whole
          rw [hrun, ← hmore]
      | false =>
          apply Tracks.short
          · rw [hrun, hmore]
          · rw [List.flatten_append, List.length_append, ← hcontent]
            exact appendAll_length hne hmore
  | short run lacks =>
      apply Tracks.short (failed_append run)
      rw [List.flatten_append, List.length_append]
      omega

theorem append (h : Tracks initial realloc pieces buffer) {piece : List α} (hne : piece ≠ []) :
    Tracks initial realloc (pieces ++ [piece]) (buffer.append initial realloc piece).1 := by
  rw [← appendAll_singleton]
  exact h.appendAll (by simpa using hne)

theorem text_iff {piece : List α} (h : Tracks initial realloc (piece :: pieces) buffer) :
    buffer.text = some (piece :: pieces).flatten ↔
      (null.appendAll initial realloc (piece :: pieces)).2 = true := by
  cases h with
  | whole run =>
      have htext := @appendAll_text _ initial realloc null pieces piece (by rw [run])
      rw [run] at htext
      exact iff_of_true htext (by rw [run])
  | short run lacks =>
      rw [run]
      refine iff_of_false (fun htext => ?_) (by simp)
      rw [content, htext, Option.getD_some] at lacks
      exact absurd lacks (Nat.lt_irrefl _)

end Tracks

end GrowingBuffer

end LocalDrop.Lib
