import LocalDrop.Lib.CString

/-! The texts that `strtol` converts whole to a positive number: white space, perhaps a plus
sign, and digits. No such text goes on as another of the same value. -/
namespace LocalDrop.Lib

def IsNumeral (text : Bytes) (value : Nat) : Prop :=
  ∃ spaces plus digits, text = spaces ++ plus ++ digits ∧ (∀ b ∈ spaces, isSpace b = true) ∧
    (plus = [] ∨ plus = [43]) ∧ digits ≠ [] ∧ (∀ b ∈ digits, isDigit b = true) ∧
    digitsValue digits = value

/-- What follows the white space and a plus sign. -/
def numeralDigits (text : Bytes) : Bytes :=
  let body := text.dropWhile isSpace
  if body.head? = some 43 then body.tail else body

theorem not_space_of_digit {b : UInt8} (h : isDigit b = true) : isSpace b = false ∧ b ≠ 43 := by
  simp only [isDigit, Bool.and_eq_true, decide_eq_true_eq, UInt8.le_iff_toNat_le] at h
  have hlow : 48 ≤ b.toNat := h.1
  refine ⟨?_, fun heq => ?_⟩
  · rw [← Bool.not_eq_true]
    intro hspace
    simp only [isSpace, Bool.or_eq_true, Bool.and_eq_true, decide_eq_true_eq,
      UInt8.le_iff_toNat_le] at hspace
    rcases hspace with rfl | ⟨-, hhigh⟩
    · exact absurd hlow (by decide)
    · have : b.toNat ≤ 13 := hhigh
      omega
  · rw [heq] at hlow
    exact absurd hlow (by decide)

section numerals
variable {text more : Bytes} {value : Nat}

theorem isNumeral_iff :
    IsNumeral text value ↔ numeralDigits text ≠ [] ∧
      (∀ b ∈ numeralDigits text, isDigit b = true) ∧ digitsValue (numeralDigits text) = value := by
  constructor
  · rintro ⟨spaces, plus, digits, rfl, hspaces, hplus, hne, hdigits, hvalue⟩
    have hself : numeralDigits (spaces ++ plus ++ digits) = digits := by
      obtain ⟨first, rest, rfl⟩ := List.exists_cons_of_ne_nil hne
      obtain ⟨hspace, hsign⟩ := not_space_of_digit (hdigits first (by simp))
      unfold numeralDigits
      rw [List.append_assoc, List.dropWhile_append_of_pos hspaces]
      rcases hplus with rfl | rfl
      · rw [List.nil_append, List.dropWhile_cons_of_neg (by simp [hspace])]
        simp [hsign]
      · rw [List.singleton_append, List.dropWhile_cons_of_neg (by decide)]
        simp
    rw [hself]
    exact ⟨hne, hdigits, hvalue⟩
  · rintro ⟨hne, hdigits, hvalue⟩
    refine ⟨text.takeWhile isSpace,
      if (text.dropWhile isSpace).head? = some 43 then [43] else [], numeralDigits text,
      ?_, fun b hb => List.mem_takeWhile_imp hb, ?_, hne, hdigits, hvalue⟩
    · rw [List.append_assoc]
      refine (List.takeWhile_append_dropWhile (p := isSpace)).symm.trans ?_
      apply congrArg (text.takeWhile isSpace ++ ·)
      unfold numeralDigits
      cases hbody : text.dropWhile isSpace with
      | nil => rfl
      | cons first rest =>
          by_cases hsign : first = 43 <;> simp [hsign]
    · split
      · exact .inr rfl
      · exact .inl rfl

theorem numeralDigits_append (h : numeralDigits text ≠ []) :
    numeralDigits (text ++ more) = numeralDigits text ++ more := by
  have hbody : text.dropWhile isSpace ≠ [] := by
    intro hnil
    apply h
    rw [numeralDigits, hnil]
    rfl
  unfold numeralDigits
  rw [List.dropWhile_append]
  obtain ⟨first, rest, hrest⟩ := List.exists_cons_of_ne_nil hbody
  rw [hrest]
  by_cases hsign : first = 43 <;> simp [hsign]

theorem le_digitsValue_append (digits more : Bytes) (h : more ≠ []) :
    10 * digitsValue digits ≤ digitsValue (digits ++ more) := by
  have hgrows : ∀ (init : Nat) (rest : Bytes),
      init ≤ rest.foldl (fun value b => 10 * value + (b.toNat - 48)) init := by
    intro init rest
    induction rest generalizing init with
    | nil => exact le_refl init
    | cons b rest ih => exact le_trans (by dsimp only; omega) (ih _)
  obtain ⟨b, rest, rfl⟩ := List.exists_cons_of_ne_nil h
  unfold digitsValue
  rw [List.foldl_append, List.foldl_cons]
  exact le_trans (by omega) (hgrows _ rest)

theorem IsNumeral.lt_append (h : IsNumeral text value) (hpos : 0 < value) (hmore : more ≠ [])
    {value' : Nat} (h' : IsNumeral (text ++ more) value') : value < value' := by
  obtain ⟨hne, -, hvalue⟩ := isNumeral_iff.mp h
  obtain ⟨-, -, hvalue'⟩ := isNumeral_iff.mp h'
  rw [numeralDigits_append hne] at hvalue'
  have hle := le_digitsValue_append (numeralDigits text) more hmore
  omega

theorem IsNumeral.nulFree (h : IsNumeral text value) : 0 ∉ text := by
  obtain ⟨spaces, plus, digits, rfl, hspaces, hplus, -, hdigits, -⟩ := h
  rw [List.mem_append, List.mem_append]
  rintro ((hzero | hzero) | hzero)
  · exact absurd (hspaces 0 hzero) (by decide)
  · rcases hplus with rfl | rfl
    · contradiction
    · exact absurd hzero (by decide)
  · exact absurd (hdigits 0 hzero) (by decide)

theorem clampLong_eq_iff (digits : Bytes) (hlong : value < 2 ^ 63 - 1) :
    clampLong (digitsValue digits : Int) = value ↔ digitsValue digits = value := by
  unfold clampLong
  omega

/-- `strtol` converts these texts whole, and no others to such a number. -/
theorem strtol_eq_iff (hpos : 0 < value) (hlong : value < 2 ^ 63 - 1) :
    strtol text = ((value : Int), []) ↔ IsNumeral text value := by
  rw [isNumeral_iff]
  unfold strtol numeralDigits
  dsimp only
  generalize text.dropWhile isSpace = body
  by_cases hminus : body.head? = some 45
  · -- A minus sign is converted, but to nothing positive.
    obtain ⟨rest, rfl⟩ := List.head?_eq_some_iff.mp hminus
    refine iff_of_false ?_ ?_
    · simp only [List.head?_cons, true_or, if_true]
      split
      · simp only [Prod.mk.injEq]
        omega
      · unfold clampLong
        simp only [Prod.mk.injEq]
        omega
    · rintro ⟨-, hdigits, -⟩
      exact absurd (hdigits 45 (by simp)) (by decide)
  · simp only [hminus, false_or, if_false]
    generalize (if body.head? = some 43 then body.tail else body) = digits
    constructor
    · intro h
      split at h
      · simp only [Prod.mk.injEq] at h
        omega
      · rename_i hne
        obtain ⟨hvalue, hrest⟩ := Prod.mk.inj h
        have hall := List.dropWhile_eq_nil_iff.mp hrest
        rw [List.takeWhile_eq_self_iff.mpr hall] at hne hvalue
        exact ⟨hne, hall, (clampLong_eq_iff digits hlong).mp hvalue⟩
    · rintro ⟨hne, hall, hvalue⟩
      rw [List.takeWhile_eq_self_iff.mpr hall, List.dropWhile_eq_nil_iff.mpr hall, if_neg hne,
        (clampLong_eq_iff digits hlong).mpr hvalue]

end numerals

end LocalDrop.Lib
