import LocalDrop.Fields
import LocalDrop.Lib.Memory
import LocalDrop.Lib.Runs

/-! `copy_form_value` on memory, with offsets and sizes of 64 bits. It stores what the rest of
the model says, and stores nothing outside the buffer. -/
namespace LocalDrop.Machine
open Lib

def copyFormValue (dest : Bytes) (destSize : UInt64) (data : Bytes) (off size : UInt64) :
    Option Bytes :=
  if destSize = 0 ∨ destSize - 1 ≤ off then some dest
  else
    let copySize := if destSize ≤ off + size then destSize - off - 1 else size
    (storeAt dest off.toNat (data.take copySize.toNat)).bind fun dest =>
      storeAt dest (off + copySize).toNat [0]

/-- One call, with the number of bytes that were delivered before it. -/
def copyChunk (destSize : UInt64) (dest : Bytes) (chunk : Bytes × Nat) : Option Bytes :=
  copyFormValue dest destSize chunk.1 (UInt64.ofNat chunk.2) (UInt64.ofNat chunk.1.length)

section refines
variable {destSize : UInt64} {data : Bytes} {off : Nat}

/-- The sum of offset and size does not wrap, and the clamped size leaves room for the NUL. -/
theorem clamp_toNat {size : Nat} (h : off + size < 2 ^ 64) (hoff : off < destSize.toNat) :
    (if destSize ≤ UInt64.ofNat off + UInt64.ofNat size then destSize - UInt64.ofNat off - 1
      else UInt64.ofNat size).toNat =
      if destSize.toNat ≤ off + size then destSize.toNat - off - 1 else size := by
  have hword : (UInt64.ofNat off).toNat = off := word_ofNat (by omega)
  have hsize : (UInt64.ofNat size).toNat = size := word_ofNat (by omega)
  have hover : destSize ≤ UInt64.ofNat off + UInt64.ofNat size ↔ destSize.toNat ≤ off + size := by
    rw [UInt64.le_iff_toNat_le, word_add (by omega), hword, hsize]
  have hrest : (destSize - UInt64.ofNat off).toNat = destSize.toNat - off := by
    rw [word_sub (by omega), hword]
  by_cases hlong : destSize.toNat ≤ off + size
  · rw [if_pos (hover.mpr hlong), if_pos hlong, word_sub, hrest]
    · rfl
    · rw [hrest, UInt64.toNat_one]
      omega
  · rw [if_neg fun hle => hlong (hover.mp hle), if_neg hlong, hsize]

theorem copyChunk_refines (dest : Buffer destSize.toNat) (h : off + data.length < 2 ^ 64) :
    copyChunk destSize dest.bytes (data, off) =
      some (LocalDrop.copyFormValue dest data off).bytes := by
  have hoff : (UInt64.ofNat off).toNat = off := word_ofNat (by omega)
  have hempty : destSize = 0 ↔ destSize.toNat = 0 := by
    rw [← UInt64.toNat_inj]
    rfl
  have hfull : destSize = 0 ∨ destSize - 1 ≤ UInt64.ofNat off ↔
      destSize.toNat = 0 ∨ destSize.toNat - 1 ≤ off := by
    rw [hempty]
    by_cases hzero : destSize.toNat = 0
    · exact iff_of_true (.inl hzero) (.inl hzero)
    · rw [UInt64.le_iff_toNat_le, word_sub (by rw [UInt64.toNat_one]; omega), hoff]
      rfl
  unfold copyChunk copyFormValue LocalDrop.copyFormValue
  dsimp only
  by_cases hbehind : destSize.toNat = 0 ∨ destSize.toNat - 1 ≤ off
  · rw [if_pos (hfull.mpr hbehind), dif_pos hbehind]
  · rw [if_neg fun hle => hbehind (hfull.mp hle), dif_neg hbehind]
    have hcopy := @clamp_toNat destSize off data.length h (by omega)
    have hcopied : (if destSize.toNat ≤ off + data.length then destSize.toNat - off - 1
          else data.length) ≤ data.length ∧
        off + (if destSize.toNat ≤ off + data.length then destSize.toNat - off - 1
          else data.length) < destSize.toNat := by
      split
      · omega
      · omega
    dsimp only
    generalize (if destSize ≤ UInt64.ofNat off + UInt64.ofNat data.length
      then destSize - UInt64.ofNat off - 1 else UInt64.ofNat data.length) = copySize at hcopy ⊢
    rw [← hcopy] at hcopied ⊢
    have hlength : (data.take copySize.toNat).length = copySize.toNat :=
      List.length_take_of_le hcopied.1
    have hend : (UInt64.ofNat off + copySize).toNat = off + copySize.toNat := by
      have hlt := destSize.toNat_lt
      rw [word_add (by omega), hoff]
    have hstores := @storeAt_append _ dest.bytes (data.take copySize.toNat) [0] off
    rw [hlength] at hstores
    rw [hend, hoff, hstores, storeAt_of_le]
    · simp [hlength, Nat.add_assoc]
    · rw [List.length_append, hlength, dest.size, List.length_singleton]
      omega

theorem run_chunks (dest : Buffer destSize.toNat) {pieces : List Bytes}
    (h : off + pieces.flatten.length < 2 ^ 64) :
    run (copyChunk destSize) dest.bytes (chunksFrom off pieces) =
      some ((chunksFrom off pieces).foldl
        (fun dest chunk => LocalDrop.copyFormValue dest chunk.1 chunk.2) dest).bytes := by
  induction pieces generalizing off dest with
  | nil => rfl
  | cons data pieces ih =>
      rw [List.flatten_cons, List.length_append] at h
      rw [chunksFrom, run, copyChunk_refines dest (by omega), Option.bind_some]
      exact ih (LocalDrop.copyFormValue dest data off) (by omega)

theorem run_values (dest : Buffer destSize.toNat) {values : List (List Bytes)}
    (h : ∀ pieces ∈ values, pieces.flatten.length < 2 ^ 64) :
    ∃ after : Buffer destSize.toNat,
      run (copyChunk destSize) dest.bytes (values.flatMap (chunksFrom 0)) = some after.bytes := by
  induction values generalizing dest with
  | nil => exact ⟨dest, rfl⟩
  | cons pieces values ih =>
      obtain ⟨hpieces, hvalues⟩ := List.forall_mem_cons.mp h
      have hfirst := @run_chunks destSize 0 dest pieces (by omega)
      obtain ⟨after, hafter⟩ := ih ((chunksFrom 0 pieces).foldl
        (fun dest chunk => LocalDrop.copyFormValue dest chunk.1 chunk.2) dest) hvalues
      refine ⟨after, ?_⟩
      rw [List.flatMap_cons, run_append, hfirst, Option.bind_some, hafter]

end refines

theorem holds_kept {n : Nat} {buffer : Buffer n} {text : Bytes} (h : buffer.Holds text) :
    buffer.bytes.take (min text.length (n - 1)) = text.take (min text.length (n - 1)) ∧
      buffer.bytes[min text.length (n - 1)]? = some 0 := by
  obtain ⟨rest, hbytes⟩ := h
  have hlength : (text.take (n - 1)).length = min text.length (n - 1) := by
    rw [List.length_take, Nat.min_comm]
  rw [hbytes, ← hlength, List.take_left, List.getElem?_append_right (Nat.le_refl _), Nat.sub_self]
  refine ⟨?_, rfl⟩
  rw [hlength]
  rcases Nat.le_total text.length (n - 1) with hle | hle
  · rw [Nat.min_eq_left hle, List.take_of_length_le hle, List.take_length]
  · rw [Nat.min_eq_right hle]

/-- Of the values that are copied to a buffer one after the other, each cut into pieces at will,
the last is in it in the end, as far as it fits, and what was there before does not matter.
Nothing is stored outside the buffer. -/
theorem formValue_assembled (destSize : UInt64) {dest : Bytes}
    (hdest : dest.length = destSize.toNat) (earlier : List (List Bytes)) {pieces : List Bytes}
    (hpieces : pieces ≠ [])
    (hwords : ∀ value ∈ earlier ++ [pieces], value.flatten.length < 2 ^ 64) :
    ∃ after, run (copyChunk destSize) dest
        (earlier.flatMap (chunksFrom 0) ++ chunksFrom 0 pieces) = some after ∧
      after.length = destSize.toNat ∧
      (2 ≤ destSize.toNat →
        after.take (min pieces.flatten.length (destSize.toNat - 1)) =
            pieces.flatten.take (min pieces.flatten.length (destSize.toNat - 1)) ∧
          after[min pieces.flatten.length (destSize.toNat - 1)]? = some 0 ∧
          (CString.ofBuffer after).bytes = survivingText destSize.toNat pieces.flatten) := by
  obtain ⟨before, hbefore⟩ := run_values ⟨dest, hdest⟩ fun value hvalue =>
    hwords value (List.mem_append_left _ hvalue)
  have hlength := hwords pieces (by simp)
  obtain ⟨final, hfinal, hholds⟩ : ∃ final : Buffer destSize.toNat,
      run (copyChunk destSize) before.bytes (chunksFrom 0 pieces) = some final.bytes ∧
        (2 ≤ destSize.toNat → final.Holds pieces.flatten) :=
    ⟨_, run_chunks before (by omega), fun hsize => value_holds hsize hpieces before⟩
  refine ⟨final.bytes, ?_, final.size, fun hsize => ?_⟩
  · rw [run_append, hbefore, Option.bind_some, hfinal]
  · obtain ⟨hkept, hnul⟩ := holds_kept (hholds hsize)
    exact ⟨hkept, hnul, (hholds hsize).str⟩

/-- "abc" over four bytes that were never written, then "PQRS" in two pieces. -/
theorem repeatedField_assembled : ∃ after,
    run (copyChunk 4) [7, 7, 7, 7] [([97, 98, 99], 0), ([80, 81], 0), ([82, 83], 2)] = some after ∧
      after.length = 4 ∧ after.take 3 = [80, 81, 82] ∧ after[3]? = some 0 := by
  obtain ⟨after, hrun, hlength, hkept⟩ := @formValue_assembled 4 [7, 7, 7, 7] rfl [[[97, 98, 99]]]
    [[80, 81], [82, 83]] (by decide) (by decide)
  obtain ⟨htake, hnul, -⟩ := hkept (by decide)
  exact ⟨after, hrun, hlength, htake, hnul⟩

end LocalDrop.Machine
