import Mathlib.Algebra.Order.Ring.Int
import Mathlib.Data.List.Basic

/-! A block of memory as the list of what is in it. A store that does not stay inside the
block has no result. Offsets and sizes are 64-bit words, which count as long as nothing
wraps. -/
namespace LocalDrop.Lib

variable {α : Type} {block stored data more : List α} {offset : Nat}

def storeAt (block : List α) (offset : Nat) (data : List α) : Option (List α) :=
  if offset + data.length ≤ block.length then
    some (block.take offset ++ data ++ block.drop (offset + data.length))
  else none

theorem storeAt_of_le (h : offset + data.length ≤ block.length) :
    storeAt block offset data =
      some (block.take offset ++ data ++ block.drop (offset + data.length)) :=
  if_pos h

theorem storeAt_eq_some (h : storeAt block offset data = some stored) :
    offset + data.length ≤ block.length ∧
      stored = block.take offset ++ data ++ block.drop (offset + data.length) := by
  unfold storeAt at h
  split at h
  · rename_i hle
    exact ⟨hle, (Option.some.inj h).symm⟩
  · contradiction

theorem storeAt_length (h : storeAt block offset data = some stored) :
    stored.length = block.length := by
  obtain ⟨hle, rfl⟩ := storeAt_eq_some h
  rw [List.length_append, List.length_append, List.length_take, List.length_drop]
  omega

theorem storeAt_take (h : storeAt block offset (data ++ more) = some stored) :
    stored.take (offset + data.length) = block.take offset ++ data := by
  obtain ⟨hle, rfl⟩ := storeAt_eq_some h
  rw [List.length_append] at hle
  have hlength : (block.take offset ++ data).length = offset + data.length := by
    rw [List.length_append, List.length_take]
    omega
  rw [← hlength, List.append_assoc, List.append_assoc, ← List.append_assoc, List.take_left]

theorem storeAt_getElem {x : α} (h : storeAt block offset (data ++ x :: more) = some stored) :
    stored[offset + data.length]? = some x := by
  obtain ⟨hle, rfl⟩ := storeAt_eq_some h
  rw [List.length_append] at hle
  have hlength : (block.take offset ++ data).length = offset + data.length := by
    rw [List.length_append, List.length_take]
    omega
  rw [← hlength, List.append_assoc, List.append_assoc, ← List.append_assoc,
    List.getElem?_append_right (Nat.le_refl _), Nat.sub_self]
  rfl

theorem storeAt_append :
    ((storeAt block offset data).bind fun block => storeAt block (offset + data.length) more) =
      storeAt block offset (data ++ more) := by
  by_cases hfirst : offset + data.length ≤ block.length
  · have hlength : (block.take offset ++ data).length = offset + data.length := by
      rw [List.length_append, List.length_take]
      omega
    rw [storeAt_of_le hfirst, Option.bind_some]
    by_cases hsecond : offset + data.length + more.length ≤ block.length
    · rw [storeAt_of_le, storeAt_of_le]
      · rw [← hlength, List.take_left, ← List.drop_drop, List.drop_left, List.drop_drop, hlength,
          List.length_append, List.append_assoc, List.append_assoc, Nat.add_assoc]
        simp only [List.append_assoc]
      · rw [List.length_append]
        omega
      · rw [List.length_append, hlength, List.length_drop]
        omega
    · rw [storeAt, storeAt, if_neg, if_neg]
      · rw [List.length_append]
        omega
      · rw [List.length_append, hlength, List.length_drop]
        omega
  · rw [storeAt, if_neg hfirst, storeAt, if_neg]
    · rfl
    · rw [List.length_append]
      omega

theorem word_ofNat {n : Nat} (h : n < 2 ^ 64) : (UInt64.ofNat n).toNat = n := by
  rw [UInt64.toNat_ofNat', Nat.mod_eq_of_lt h]

theorem word_add {a b : UInt64} (h : a.toNat + b.toNat < 2 ^ 64) :
    (a + b).toNat = a.toNat + b.toNat := by
  rw [UInt64.toNat_add, Nat.mod_eq_of_lt h]

theorem word_sub {a b : UInt64} (h : b.toNat ≤ a.toNat) :
    (a - b).toNat = a.toNat - b.toNat :=
  UInt64.toNat_sub_of_le a b (UInt64.le_iff_toNat_le.mpr h)

end LocalDrop.Lib
