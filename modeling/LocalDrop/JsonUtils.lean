import LocalDrop.Crypto

/-! `json_utils.c`, where every allocation succeeds: the growing buffer is a list of bytes. -/
namespace LocalDrop
open Lib

def jsonEscapeByte (b : UInt8) : Bytes :=
  if b = 92 then [92, 92]
  else if b = 34 then [92, 34]
  else if b = 8 then [92, 98]
  else if b = 12 then [92, 102]
  else if b = 10 then [92, 110]
  else if b = 13 then [92, 114]
  else if b = 9 then [92, 116]
  else if b < 32 then [92, 117, 48, 48, hexDigit (b.toNat / 16), hexDigit b.toNat]
  else [b]

def jsonEscape (text : CString) : Bytes := text.bytes.flatMap jsonEscapeByte

theorem jsonEscape_of_plain (text : CString)
    (h : ∀ b ∈ text.bytes, jsonEscapeByte b = [b]) : jsonEscape text = text.bytes := by
  obtain ⟨bytes, hnul⟩ := text
  unfold jsonEscape
  induction bytes with
  | nil => rfl
  | cons b rest ih =>
      rw [List.flatMap_cons, h b (by simp)]
      exact congrArg (b :: ·)
        (ih (fun h0 => hnul (List.mem_cons_of_mem _ h0)) fun c hc => h c (by simp [hc]))

theorem hexDigit_ge (value : Nat) : 48 ≤ (hexDigit value).toNat ∧ (hexDigit value).toNat ≠ 92 := by
  have hmod : value % 16 < 16 := Nat.mod_lt _ (by decide)
  rw [hexDigit_toNat]
  split <;> omega

theorem jsonEscapeByte_hexDigit (value : Nat) :
    jsonEscapeByte (hexDigit value) = [hexDigit value] := by
  have hge := hexDigit_ge value
  have hne : ∀ c : UInt8, c.toNat < 48 ∨ c.toNat = 92 → hexDigit value ≠ c := by
    rintro c hc rfl
    omega
  unfold jsonEscapeByte
  have hlt : ¬ hexDigit value < 32 := by
    rw [UInt8.lt_iff_toNat_lt]
    change ¬ (hexDigit value).toNat < 32
    omega
  simp [hne 92 (by decide), hne 34 (by decide), hne 8 (by decide), hne 12 (by decide),
    hne 10 (by decide), hne 13 (by decide), hne 9 (by decide), hlt]

theorem jsonEscapeByte_cases (b : UInt8) :
    (∃ rest, jsonEscapeByte b = 92 :: rest ∧ (rest = [34] ∨ 34 ∉ rest)) ∨
      jsonEscapeByte b = [b] ∧ b ≠ 34 ∧ b ≠ 92 := by
  have hhex : ∀ value, hexDigit value ≠ 34 := by
    intro value heq
    have hge := (hexDigit_ge value).1
    rw [heq] at hge
    contradiction
  unfold jsonEscapeByte
  by_cases h1 : b = 92
  · simp [h1]
  by_cases h2 : b = 34
  · simp [h2]
  repeat' split
  all_goals first
    | exact .inl ⟨_, rfl, .inr (by simp [(hhex _).symm])⟩
    | exact .inr ⟨rfl, h2, h1⟩

theorem jsonEscapeByte_nulFree {b : UInt8} (h : b ≠ 0) : 0 ∉ jsonEscapeByte b := by
  have hhex : ∀ value, hexDigit value ≠ 0 := by
    intro value heq
    have hge := (hexDigit_ge value).1
    rw [heq] at hge
    contradiction
  unfold jsonEscapeByte
  repeat' split
  all_goals simp [(hhex _).symm, h.symm]

theorem jsonEscape_nulFree (text : CString) : 0 ∉ jsonEscape text := by
  intro h
  obtain ⟨b, hb, hmem⟩ := List.mem_flatMap.mp h
  exact jsonEscapeByte_nulFree (fun heq => text.nulFree (heq ▸ hb)) hmem

section search
variable {name tail : Bytes} (hname : ∀ b ∈ name, b ≠ 34 ∧ b ≠ 92 ∧ b ≠ 44)
include hname

/-- A quoted name followed by a colon is not at the start of an escaped text, not even
together with the quote and the comma behind it. -/
theorem not_prefix_escaped (bytes rest : Bytes) :
    ¬ name ++ 34 :: 58 :: tail <+: bytes.flatMap jsonEscapeByte ++ 34 :: 44 :: rest := by
  induction bytes generalizing name with
  | nil =>
      cases name with
      | nil => simp
      | cons c name =>
          have hc := hname c (by simp)
          simp [hc.1]
  | cons b bytes ih =>
      rw [List.flatMap_cons, List.append_assoc]
      rcases jsonEscapeByte_cases b with ⟨escape, heq, -⟩ | ⟨heq, hquote, -⟩ <;> rw [heq]
      · cases name with
        | nil => simp
        | cons c name =>
            have hc := hname c (by simp)
            simp [hc.2.1]
      · cases name with
        | nil => simp [hquote.symm]
        | cons c name =>
            rw [List.cons_append, List.cons_append, List.nil_append, List.cons_prefix_cons]
            intro hprefix
            exact ih (fun d hd => hname d (by simp [hd])) hprefix.2

theorem strstr_escaped (bytes rest : Bytes) :
    strstr (34 :: (name ++ 34 :: 58 :: tail))
        (bytes.flatMap jsonEscapeByte ++ 34 :: 44 :: rest) =
      strstr (34 :: (name ++ 34 :: 58 :: tail)) rest := by
  induction bytes with
  | nil =>
      have hnot : ¬ 34 :: (name ++ 34 :: 58 :: tail) <+: 34 :: 44 :: rest := by
        cases name with
        | nil => simp
        | cons c name => simp [(hname c (by simp)).2.2]
      rw [List.flatMap_nil, List.nil_append, strstr_of_mismatch hnot]
      exact @strstr_of_notMem 34 _ [44] rest (by simp)
  | cons b bytes ih =>
      rw [List.flatMap_cons, List.append_assoc]
      rcases jsonEscapeByte_cases b with ⟨escape, heq, rfl | hmem⟩ | ⟨heq, hquote, -⟩ <;> rw [heq]
      · have hnot : ¬ 34 :: (name ++ 34 :: 58 :: tail) <+:
            34 :: (bytes.flatMap jsonEscapeByte ++ 34 :: 44 :: rest) := by
          rw [List.cons_prefix_cons]
          exact fun h => not_prefix_escaped hname bytes rest h.2
        rw [← ih, ← strstr_of_mismatch hnot]
        exact @strstr_of_notMem 34 _ [92] _ (by simp)
      · rw [strstr_of_notMem (by simp [hmem]), ih]
      · rw [strstr_of_notMem (by simp [hquote.symm]), ih]

/-- The search passes over a quoted text. -/
theorem strstr_quoted (text : CString) (rest : Bytes) :
    strstr (34 :: (name ++ 34 :: 58 :: tail)) (34 :: (jsonEscape text ++ 34 :: 44 :: rest)) =
      strstr (34 :: (name ++ 34 :: 58 :: tail)) rest := by
  have hnot : ¬ 34 :: (name ++ 34 :: 58 :: tail) <+:
      34 :: (jsonEscape text ++ 34 :: 44 :: rest) := by
    rw [List.cons_prefix_cons]
    exact fun h => not_prefix_escaped hname text.bytes rest h.2
  rw [strstr_of_mismatch hnot]
  exact strstr_escaped hname text.bytes rest

end search

end LocalDrop
