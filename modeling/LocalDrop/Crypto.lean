import LocalDrop.Lib.CString
import Mathlib.Data.Vector.Basic

/-! `crypto.c`. `RAND_bytes` is outside the sources: a call's outcome is the
bytes it delivered, or nothing when it failed. -/
namespace LocalDrop
open Lib

-- The sizes of the `char` arrays in the records of the program.
instance neZero7 : NeZero 7 := ⟨by decide⟩
instance neZero10 : NeZero 10 := ⟨by decide⟩
instance neZero32 : NeZero 32 := ⟨by decide⟩
instance neZero46 : NeZero 46 := ⟨by decide⟩
instance neZero65 : NeZero 65 := ⟨by decide⟩
instance neZero256 : NeZero 256 := ⟨by decide⟩
instance neZero512 : NeZero 512 := ⟨by decide⟩

abbrev RandomBytes (count : Nat) := Option (Vector UInt8 count)

def hexDigit (value : Nat) : UInt8 :=
  if value % 16 < 10 then UInt8.ofNat (48 + value % 16) else UInt8.ofNat (87 + value % 16)

def hexBytes (bytes : Bytes) : Bytes :=
  bytes.flatMap fun b => [hexDigit (b.toNat / 16), hexDigit (b.toNat % 16)]

theorem hexDigit_toNat (value : Nat) :
    (hexDigit value).toNat =
      if value % 16 < 10 then 48 + value % 16 else 87 + value % 16 := by
  have hmod : value % 16 < 16 := Nat.mod_lt _ (by decide)
  unfold hexDigit
  split <;> rw [UInt8.toNat_ofNat', Nat.mod_eq_of_lt (by omega)]

theorem hexDigit_of_mem_hexBytes {bytes : Bytes} {b : UInt8} (h : b ∈ hexBytes bytes) :
    ∃ value, b = hexDigit value := by
  obtain ⟨x, -, hx⟩ := List.mem_flatMap.mp h
  simp only [List.mem_cons, List.not_mem_nil, or_false] at hx
  rcases hx with rfl | rfl
  · exact ⟨_, rfl⟩
  · exact ⟨_, rfl⟩

theorem hexBytes_nulFree (bytes : Bytes) : 0 ∉ hexBytes bytes := by
  intro h
  obtain ⟨value, hv⟩ := hexDigit_of_mem_hexBytes h
  have ht := congrArg UInt8.toNat hv
  rw [hexDigit_toNat, UInt8.toNat_zero] at ht
  split at ht <;> omega

@[simp] theorem hexBytes_length (bytes : Bytes) : (hexBytes bytes).length = 2 * bytes.length := by
  induction bytes with
  | nil => rfl
  | cons b rest ih =>
      simp only [hexBytes, List.flatMap_cons, List.length_append, List.length_cons,
        List.length_nil] at ih ⊢
      omega

def cryptoRandomToken (random : RandomBytes count) : Option CString :=
  random.map fun bytes => ⟨hexBytes bytes.toList, hexBytes_nulFree _⟩

def numericDigit (b : UInt8) : UInt8 := UInt8.ofNat (48 + b.toNat % 10)

theorem numericDigit_ne_zero (b : UInt8) : numericDigit b ≠ 0 := by
  have hmod : b.toNat % 10 < 10 := Nat.mod_lt _ (by decide)
  intro h
  have ht := congrArg UInt8.toNat h
  rw [numericDigit, UInt8.toNat_ofNat', Nat.mod_eq_of_lt (by omega),
    UInt8.toNat_zero] at ht
  omega

def cryptoRandomNumericCode (random : RandomBytes count) : Option CString :=
  random.map fun bytes => {
    bytes := bytes.toList.map numericDigit
    nulFree := by
      intro h
      obtain ⟨b, -, hb⟩ := List.mem_map.mp h
      exact numericDigit_ne_zero b hb }

theorem cryptoRandomNumericCode_length {random : RandomBytes count} {code : CString}
    (h : cryptoRandomNumericCode random = some code) : code.length = count := by
  obtain ⟨bytes, -, rfl⟩ := Option.map_eq_some_iff.mp h
  simp [CString.length]

theorem cryptoRandomToken_length {random : RandomBytes count} {token : CString}
    (h : cryptoRandomToken random = some token) : token.length = 2 * count := by
  obtain ⟨bytes, -, rfl⟩ := Option.map_eq_some_iff.mp h
  simp [CString.length]

theorem hexDigit_of_mem_token {random : RandomBytes count} {token : CString}
    (h : cryptoRandomToken random = some token) {b : UInt8} (hb : b ∈ token.bytes) :
    ∃ value, b = hexDigit value := by
  obtain ⟨bytes, -, rfl⟩ := Option.map_eq_some_iff.mp h
  exact hexDigit_of_mem_hexBytes hb

/-- The token of a client whose random bytes were all `seed`. -/
def sampleToken (seed : UInt8) : CString :=
  ⟨hexBytes (List.replicate 32 seed), hexBytes_nulFree _⟩

end LocalDrop
