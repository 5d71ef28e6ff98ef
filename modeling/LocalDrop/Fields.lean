import LocalDrop.Parts
import LocalDrop.Lib.LastWrite
import LocalDrop.Lib.Numeral

/-! What `copy_form_value` makes of a field. However a part is cut into pieces, its buffer holds
the first bytes of the last part of that name, as far as they fit; a handler reads them up to
a NUL byte. -/
namespace LocalDrop
open Lib

def Lib.Buffer.Holds (buffer : Buffer n) (text : Bytes) : Prop :=
  ∃ rest, buffer.bytes = text.take (n - 1) ++ 0 :: rest

def fieldBuffer (n : Nat) (key : CString) (items : List PostItem) : Buffer n :=
  (items.filter fun item => item.key = key).foldl
    (fun buffer item => copyFormValue buffer item.data item.off) (.zero n)

def chunksFrom : Nat → List Bytes → List (Bytes × Nat)
  | _, [] => []
  | off, data :: pieces => (data, off) :: chunksFrom (off + data.length) pieces

/-- What `%s` or `strtol` find of a text that was copied to a buffer of this size. -/
def survivingText (n : Nat) (text : Bytes) : Bytes := (text.take (n - 1)).takeWhile (· ≠ 0)

section buffers
variable {buffer : Buffer n} {text data : Bytes}

theorem Lib.Buffer.Holds.str (h : buffer.Holds text) :
    buffer.str.bytes = survivingText n text := by
  obtain ⟨rest, hbytes⟩ := h
  unfold Buffer.str CString.ofBuffer survivingText
  dsimp only
  rw [hbytes, List.takeWhile_append]
  split
  · rename_i hall
    rw [List.takeWhile_cons_of_neg (by simp), List.append_nil]
    exact (List.takeWhile_prefix _).eq_of_length hall |>.symm
  · rfl

theorem copyFormValue_holds (hn : 1 < n) (data : Bytes) (h : text = [] ∨ buffer.Holds text) :
    (copyFormValue buffer data text.length).Holds (text ++ data) := by
  unfold copyFormValue
  by_cases hfull : n - 1 ≤ text.length
  · -- The buffer is full, and stays as it is.
    rw [dif_pos (.inr hfull)]
    rcases h with rfl | ⟨rest, hbytes⟩
    · rw [List.length_nil] at hfull
      omega
    · refine ⟨rest, ?_⟩
      rw [hbytes, List.take_append_of_le_length hfull]
  · rw [dif_neg (by omega)]
    have hfront : buffer.bytes.take text.length = text := by
      rcases h with rfl | ⟨rest, hbytes⟩
      · rfl
      · rw [hbytes, List.take_of_length_le (Nat.le_of_not_le hfull), List.take_left]
    have hcopied : data.take (if n ≤ text.length + data.length then n - text.length - 1
        else data.length) = data.take (n - 1 - text.length) := by
      split
      · rw [Nat.sub_right_comm]
      · rw [List.take_length, List.take_of_length_le (by omega)]
    apply Exists.intro
    rw [List.take_append, List.take_of_length_le (Nat.le_of_not_le hfull), ← hcopied]
    dsimp only
    rw [hfront]

theorem foldl_chunks_holds (hn : 1 < n) {pieces : List Bytes} (h : buffer.Holds text) :
    ((chunksFrom text.length pieces).foldl
      (fun buffer chunk => copyFormValue buffer chunk.1 chunk.2) buffer).Holds
      (text ++ pieces.flatten) := by
  induction pieces generalizing buffer text with
  | nil =>
      rw [List.flatten_nil, List.append_nil]
      exact h
  | cons data pieces ih =>
      rw [chunksFrom, List.foldl_cons, List.flatten_cons, ← List.append_assoc,
        ← List.length_append]
      exact ih (copyFormValue_holds hn data (.inr h))

/-- However a value is cut, the buffer holds it afterwards. -/
theorem value_holds (hn : 1 < n) {pieces : List Bytes} (hpieces : pieces ≠ [])
    (buffer : Buffer n) :
    ((chunksFrom 0 pieces).foldl
      (fun buffer chunk => copyFormValue buffer chunk.1 chunk.2) buffer).Holds
      pieces.flatten := by
  obtain ⟨data, pieces, rfl⟩ := List.exists_cons_of_ne_nil hpieces
  have hfirst := @copyFormValue_holds n buffer [] hn data (.inl rfl)
  rw [List.nil_append] at hfirst
  rw [chunksFrom, List.foldl_cons, List.flatten_cons, Nat.zero_add]
  exact foldl_chunks_holds hn hfirst

theorem chunks_of_pieceCalls {key : CString} {filename : Option CString} {off : Nat}
    {pieces : List Bytes} {items : List PostItem}
    (h : items.map PostItem.call = pieceCalls key filename off pieces) :
    items.map (fun item => (item.data, item.off)) = chunksFrom off pieces := by
  induction pieces generalizing items off with
  | nil =>
      rw [List.map_eq_nil_iff.mp h]
      rfl
  | cons data pieces ih =>
      obtain ⟨first, rest, rfl, hfirst, hrest⟩ := List.map_eq_cons_iff.mp h
      simp only [PostItem.call, Prod.mk.injEq] at hfirst
      rw [List.map_cons, ih hrest, hfirst.2.2.1, hfirst.2.2.2]
      rfl

theorem part_holds (hn : 1 < n) {part : Part} {items : List PostItem}
    (hitems : items.map PostItem.call = part.calls) :
    (items.foldl (fun buffer item => copyFormValue buffer item.data item.off) buffer).Holds
      part.content := by
  have hvalue := value_holds hn part.delivered buffer
  rw [← chunks_of_pieceCalls hitems, List.foldl_map] at hvalue
  exact hvalue

theorem field_holds (hn : 1 < n) {key : CString} {parts : List Part} {items : List PostItem}
    (h : Delivers parts items) (buffer : Buffer n) :
    match lastWrite Part.key parts key with
    | none => (items.filter fun item => item.key = key).foldl
        (fun buffer item => copyFormValue buffer item.data item.off) buffer = buffer
    | some part => ((items.filter fun item => item.key = key).foldl
        (fun buffer item => copyFormValue buffer item.data item.off) buffer).Holds
          part.content := by
  induction parts generalizing items buffer with
  | nil =>
      rw [List.map_eq_nil_iff.mp h]
      rfl
  | cons part parts ih =>
      obtain ⟨own, others, rfl, hown, hothers⟩ := delivers_cons h
      have hkeys := mem_pieceCalls hown
      rw [List.filter_append, List.foldl_append, lastWrite_cons]
      by_cases hkey : part.key = key
      · have hself : (own.filter fun item => item.key = key) = own :=
          List.filter_eq_self.mpr fun item hitem => by simp [(hkeys item hitem).1, hkey]
        rw [hself, if_pos hkey]
        have hpart : (own.foldl (fun buffer item => copyFormValue buffer item.data item.off)
          buffer).Holds part.content := part_holds hn hown
        have hlater := ih hothers
          (own.foldl (fun buffer item => copyFormValue buffer item.data item.off) buffer)
        cases hlast : lastWrite Part.key parts key with
        | none =>
            rw [hlast] at hlater
            dsimp only [Option.or] at hlater ⊢
            rwa [hlater]
        | some later =>
            rw [hlast] at hlater
            exact hlater
      · have hnone : (own.filter fun item => item.key = key) = [] :=
          List.filter_eq_nil_iff.mpr fun item hitem => by simp [(hkeys item hitem).1, hkey]
        rw [hnone, if_neg hkey, List.foldl_nil, Option.or_none]
        exact ih hothers buffer

/-- What a handler finds in the buffer of a field. -/
theorem fieldBuffer_str (hn : 1 < n) {key : CString} {parts : List Part} {items : List PostItem}
    (h : Delivers parts items) :
    (fieldBuffer n key items).str.bytes = survivingText n
      ((lastWrite Part.key parts key).elim [] Part.content) := by
  have hlast := @field_holds _ hn key _ _ h (.zero n)
  unfold fieldBuffer
  cases hpart : lastWrite Part.key parts key with
  | none =>
      rw [hpart] at hlast
      dsimp only at hlast
      rw [hlast, Buffer.zero_str]
      simp [survivingText]
  | some part =>
      rw [hpart] at hlast
      exact hlast.str

theorem fieldBuffer_concat (key : CString) (items : List PostItem) (item : PostItem) :
    fieldBuffer n key (items ++ [item]) =
      if item.key = key then copyFormValue (fieldBuffer n key items) item.data item.off
      else fieldBuffer n key items := by
  unfold fieldBuffer
  rw [List.filter_append, List.foldl_append]
  by_cases hkey : item.key = key <;> simp [hkey]

end buffers

def SpellsPort (text : Bytes) (port : UInt16) : Prop :=
  IsNumeral text port.toNat ∧ 0 < port.toNat

/-- The texts that a handler takes for a port spell it. -/
theorem parsePort_eq_some_iff {value : CString} {port : UInt16} :
    parsePort value = some port ↔ SpellsPort value.bytes port := by
  have hlt : port.toNat < 2 ^ 16 := port.toNat_lt
  unfold SpellsPort
  constructor
  · intro h
    unfold parsePort at h
    dsimp only at h
    split at h
    · contradiction
    · rename_i hvalid
      simp only [not_or, not_le, not_lt] at hvalid
      obtain ⟨-, hrest, hpos, hmax⟩ := hvalid
      have hport := Option.some.inj h
      have hnat : port.toNat = (strtol value.bytes).1.toNat := by
        rw [← hport, UInt16.toNat_ofNat']
        exact Nat.mod_eq_of_lt (by omega)
      refine ⟨(strtol_eq_iff (by omega) (by omega)).mp ?_, by omega⟩
      refine Prod.ext ?_ (by simpa using hrest)
      dsimp only
      omega
  · rintro ⟨hnumeral, hpos⟩
    have hconverted := (strtol_eq_iff hpos (by omega)).mpr hnumeral
    have hne : value ≠ CString.empty := by
      rintro rfl
      exact (isNumeral_iff.mp hnumeral).1 rfl
    unfold parsePort
    rw [hconverted]
    dsimp only
    rw [if_neg (by simp only [hne, false_or, ne_eq, not_true_eq_false]; omega)]
    simp

/-- What survives in a buffer spells the port of the whole text if nothing was lost. -/
theorem spellsPort_iff_fits {n : Nat} {text : Bytes} {port : UInt16}
    (h : SpellsPort (survivingText n text) port) :
    SpellsPort text port ↔ text.length ≤ n - 1 ∧ 0 ∉ text := by
  obtain ⟨hnumeral, hpos⟩ := h
  constructor
  · rintro ⟨hwhole, -⟩
    refine ⟨?_, hwhole.nulFree⟩
    have hfront : survivingText n text = text.take (n - 1) := by
      refine List.takeWhile_eq_self_iff.mpr fun b hb => ?_
      have hne : b ≠ 0 := fun hzero => hwhole.nulFree (hzero ▸ List.mem_of_mem_take hb)
      simpa using hne
    by_contra hlong
    rw [hfront] at hnumeral
    rw [← List.take_append_drop (n - 1) text] at hwhole
    have hmore : text.drop (n - 1) ≠ [] := by
      rw [ne_eq, List.drop_eq_nil_iff]
      exact hlong
    exact absurd (hnumeral.lt_append hpos hmore hwhole) (lt_irrefl _)
  · rintro ⟨hlength, hnul⟩
    have hself : survivingText n text = text := by
      unfold survivingText
      rw [List.take_of_length_le hlength]
      exact congrArg CString.bytes (CString.ofBuffer_of_nulFree text hnul)
    rw [hself] at hnumeral
    exact ⟨hnumeral, hpos⟩

end LocalDrop
