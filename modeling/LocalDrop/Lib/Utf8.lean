import LocalDrop.Lib.CString

/-! Valid UTF-8, and where a valid text can be cut: in front of the first byte of a character,
and nowhere else. Bytes below 128 are characters of their own, so a text may be taken apart at
each of them. -/
namespace LocalDrop.Lib

def Utf8 (text : Bytes) : Prop := text.toByteArray.IsValidUTF8

def Ascii (text : Bytes) : Prop := ∀ b ∈ text, b < 128

instance (text : Bytes) : Decidable (Ascii text) := List.decidableBAll (· < 128) text

section utf8
variable {text front rest : Bytes} {b : UInt8}

theorem utf8_iff : Utf8 text ↔ ∃ chars : List Char, text = chars.flatMap String.utf8EncodeChar := by
  constructor
  · rintro ⟨chars, h⟩
    exact ⟨chars, List.toByteArray_inj.mp h⟩
  · rintro ⟨chars, rfl⟩
    exact ⟨chars, rfl⟩

theorem utf8_nil : Utf8 [] := utf8_iff.mpr ⟨[], rfl⟩

theorem Utf8.append (hfront : Utf8 front) (hrest : Utf8 rest) : Utf8 (front ++ rest) := by
  unfold Utf8
  rw [List.toByteArray_append]
  exact ByteArray.IsValidUTF8.append hfront hrest

theorem utf8_char_append_iff (c : Char) :
    Utf8 (String.utf8EncodeChar c ++ rest) ↔ Utf8 rest := by
  unfold Utf8
  rw [List.toByteArray_append, ← List.utf8Encode_singleton]
  exact ByteArray.isValidUTF8_utf8Encode_singleton_append_iff

theorem Utf8.append_iff (hfront : Utf8 front) : Utf8 (front ++ rest) ↔ Utf8 rest := by
  obtain ⟨chars, rfl⟩ := utf8_iff.mp hfront
  clear hfront
  induction chars with
  | nil => rfl
  | cons c chars ih => rw [List.flatMap_cons, List.append_assoc, utf8_char_append_iff, ih]

theorem Utf8.first (h : Utf8 text) : ∀ b ∈ text.head?, b.IsUTF8FirstByte := by
  intro b hb
  obtain ⟨chars, rfl⟩ := utf8_iff.mp h
  cases chars with
  | nil => contradiction
  | cons c chars =>
      obtain ⟨first, more, hchar⟩ := List.exists_cons_of_ne_nil (@String.utf8EncodeChar_ne_nil c)
      have hfirst := @UInt8.isUTF8FirstByte_getElem_zero_utf8EncodeChar c
      simp only [hchar, List.getElem_cons_zero] at hfirst
      rw [List.flatMap_cons, hchar, List.cons_append, List.head?_cons, Option.mem_some_iff] at hb
      exact hb ▸ hfirst

theorem utf8_append_iff (hrest : ∀ b ∈ rest.head?, b.IsUTF8FirstByte) :
    Utf8 (front ++ rest) ↔ Utf8 front ∧ Utf8 rest := by
  refine ⟨fun h => ?_, fun h => h.1.append h.2⟩
  suffices hfront : Utf8 front from ⟨hfront, hfront.append_iff.mp h⟩
  obtain ⟨chars, hchars⟩ := utf8_iff.mp h
  clear h
  induction chars generalizing front with
  | nil =>
      rw [List.flatMap_nil, List.append_eq_nil_iff] at hchars
      rw [hchars.1]
      exact utf8_nil
  | cons c chars ih =>
      rw [List.flatMap_cons] at hchars
      rcases List.append_eq_append_iff.mp hchars with ⟨more, hchar, hmore⟩ | ⟨more, hfront, hmore⟩
      · -- Only the first byte of a character is a first byte, so the cut is not inside it.
        cases more with
        | nil =>
            rw [List.append_nil] at hchar
            rw [← hchar]
            exact utf8_iff.mpr ⟨[c], by simp⟩
        | cons b more =>
            have hfirst := hrest b (by rw [hmore]; rfl)
            have hbyte : (String.utf8EncodeChar c)[front.length]? = some b := by
              rw [hchar, List.getElem?_append_right (Nat.le_refl _), Nat.sub_self]
              rfl
            obtain ⟨hlt, heq⟩ := List.getElem?_eq_some_iff.mp hbyte
            rw [← heq, UInt8.isUTF8FirstByte_getElem_utf8EncodeChar] at hfirst
            rw [List.eq_nil_of_length_eq_zero hfirst]
            exact utf8_nil
      · rw [hfront, utf8_char_append_iff]
        exact ih hmore.symm

/-- The front of a valid text is valid exactly when the cut is in front of a first byte, or
behind everything. -/
theorem Utf8.take_iff (h : Utf8 text) (n : Nat) :
    Utf8 (text.take n) ↔ ∀ b ∈ text[n]?, b.IsUTF8FirstByte := by
  have hhead : (text.drop n).head? = text[n]? := List.head?_drop
  rw [← List.take_append_drop n text] at h
  constructor
  · intro htake
    rw [← hhead]
    exact (htake.append_iff.mp h).first
  · intro hcut
    exact ((utf8_append_iff (hhead ▸ hcut)).mp h).1

theorem utf8EncodeChar_ascii (h : b < 128) :
    String.utf8EncodeChar (Char.ofNat b.toNat) = [b] := by
  have hlt : b.toNat < 128 := UInt8.lt_iff_toNat_lt.mp h
  have hval : (Char.ofNat b.toNat).val.toNat = b.toNat := by
    have hvalid : b.toNat.isValidChar := .inl (by omega)
    rw [Char.ofNat, dif_pos hvalid]
    rfl
  rw [String.utf8EncodeChar]
  simp only [hval]
  rw [if_pos (by omega), UInt8.ofNat_toNat]

theorem isUTF8FirstByte_ascii (h : b < 128) : b.IsUTF8FirstByte := by
  have hfirst := @UInt8.isUTF8FirstByte_getElem_zero_utf8EncodeChar (Char.ofNat b.toNat)
  simp only [utf8EncodeChar_ascii h] at hfirst
  exact hfirst

theorem Ascii.utf8 (h : Ascii text) : Utf8 text := by
  induction text with
  | nil => exact utf8_nil
  | cons b rest ih =>
      obtain ⟨hb, hrest⟩ := List.forall_mem_cons.mp h
      rw [← List.singleton_append, ← utf8EncodeChar_ascii hb, utf8_char_append_iff]
      exact ih hrest

theorem Ascii.append (hfront : Ascii front) (hrest : Ascii rest) : Ascii (front ++ rest) :=
  List.forall_mem_append.mpr ⟨hfront, hrest⟩

theorem utf8_around_iff {between : Bytes} (h : Ascii between) (hne : between ≠ []) :
    Utf8 (front ++ (between ++ rest)) ↔ Utf8 front ∧ Utf8 rest := by
  obtain ⟨b, more, rfl⟩ := List.exists_cons_of_ne_nil hne
  rw [utf8_append_iff, h.utf8.append_iff]
  intro c hc
  rw [List.cons_append, List.head?_cons, Option.mem_some_iff] at hc
  exact hc ▸ isUTF8FirstByte_ascii (h b (by simp))

theorem utf8_intercalate_iff {between : Bytes} (h : Ascii between) (hne : between ≠ [])
    (texts : List Bytes) : Utf8 (between.intercalate texts) ↔ ∀ text ∈ texts, Utf8 text := by
  induction texts with
  | nil => simp [utf8_nil]
  | cons text texts ih =>
      cases texts with
      | nil => simp
      | cons next texts =>
          rw [List.intercalate_cons_cons, List.append_assoc, utf8_around_iff h hne, ih]
          exact List.forall_mem_cons.symm

theorem utf8_flatMap_iff {f : UInt8 → Bytes} (hascii : ∀ b, b < 128 → f b ≠ [] ∧ Ascii (f b))
    (hother : ∀ b, ¬ b < 128 → f b = [b]) (front : Bytes) :
    Utf8 (front ++ text.flatMap f) ↔ Utf8 (front ++ text) := by
  induction text generalizing front with
  | nil => rfl
  | cons b rest ih =>
      rw [List.flatMap_cons]
      by_cases hb : b < 128
      · have hrest := ih []
        rw [List.nil_append, List.nil_append] at hrest
        have hself : Ascii [b] := by
          intro c hc
          rw [List.mem_singleton.mp hc]
          exact hb
        rw [utf8_around_iff (hascii b hb).2 (hascii b hb).1, hrest, ← List.singleton_append,
          utf8_around_iff hself (by simp)]
      · rw [hother b hb, ← List.append_assoc, ih, List.append_assoc, List.singleton_append]

end utf8

end LocalDrop.Lib
