import Mathlib.Data.Set.Card
import Mathlib.Algebra.BigOperators.Group.List.Basic

/-! How many inputs a text comes from that is made of them element by element, and how many of
them a few guesses can hit. -/
namespace LocalDrop.Lib

variable {α β : Type} {n : Nat}

theorem ncard_map_eq (f : α → β) (word : List β) :
    {list : List α | list.map f = word}.ncard =
      (word.map fun b => {a : α | f a = b}.ncard).prod := by
  induction word with
  | nil => simp
  | cons b word ih =>
      have hinjective : Function.Injective fun pair : α × List α => pair.1 :: pair.2 := by
        rintro ⟨a, list⟩ ⟨a', list'⟩ heq
        obtain ⟨rfl, rfl⟩ := List.cons.inj heq
        rfl
      have himage : {list : List α | list.map f = b :: word} =
          (fun pair : α × List α => pair.1 :: pair.2) ''
            ({a : α | f a = b} ×ˢ {list : List α | list.map f = word}) := by
        ext list
        simp only [Set.mem_ofPred_eq, List.map_eq_cons_iff, Set.mem_image, Set.mem_prod,
          Prod.exists]
        constructor
        · rintro ⟨a, rest, rfl, ha, hrest⟩
          exact ⟨a, rest, ⟨ha, hrest⟩, rfl⟩
        · rintro ⟨a, rest, ⟨ha, hrest⟩, rfl⟩
          exact ⟨a, rest, rfl, ha, hrest⟩
      rw [himage, Set.ncard_image_of_injective _ hinjective, Set.ncard_prod, ih, List.map_cons,
        List.prod_cons]

theorem ncard_vector_map_eq (f : α → β) {word : List β} (hlength : word.length = n) :
    {vector : Vector α n | vector.toList.map f = word}.ncard =
      (word.map fun b => {a : α | f a = b}.ncard).prod := by
  have hinjective : Function.Injective (Vector.toList : Vector α n → List α) := by
    intro vector vector' heq
    exact Vector.toList_inj.mp heq
  rw [← ncard_map_eq, ← Set.ncard_image_of_injective _ hinjective]
  congr 1
  ext list
  simp only [Set.mem_image, Set.mem_ofPred_eq]
  constructor
  · rintro ⟨vector, hvector, rfl⟩
    exact hvector
  · intro hlist
    have hsize : list.length = n := by rw [← hlength, ← hlist, List.length_map]
    exact ⟨⟨list.toArray, by simpa using hsize⟩, by simpa using hlist, by simp⟩

instance finite_vector [Finite α] : Finite (Vector α n) := by
  refine Finite.of_injective (fun vector : Vector α n => fun index : Fin n => vector[index]) ?_
  intro vector vector' heq
  ext index hindex
  exact congrFun heq ⟨index, hindex⟩

theorem ncard_guessed_le [Finite α] {f : α → β} {bound : Nat}
    (hbound : ∀ b, {a : α | f a = b}.ncard ≤ bound) (guesses : List β) :
    {a : α | f a ∈ guesses}.ncard ≤ guesses.length * bound := by
  induction guesses with
  | nil => simp
  | cons guess guesses ih =>
      have hunion : {a : α | f a ∈ guess :: guesses} =
          {a : α | f a = guess} ∪ {a : α | f a ∈ guesses} := by
        ext a
        simp
      calc {a : α | f a ∈ guess :: guesses}.ncard
          ≤ {a : α | f a = guess}.ncard + {a : α | f a ∈ guesses}.ncard := by
            rw [hunion]
            exact Set.ncard_union_le _ _
        _ ≤ bound + guesses.length * bound := Nat.add_le_add (hbound guess) ih
        _ = (guess :: guesses).length * bound := by
            rw [List.length_cons, Nat.add_mul, Nat.one_mul, Nat.add_comm]

end LocalDrop.Lib
