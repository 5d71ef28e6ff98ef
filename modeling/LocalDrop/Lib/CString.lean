import Mathlib.Algebra.Order.Ring.Int
import Mathlib.Data.List.Basic
import Mathlib.Data.List.TakeWhile

/-! Byte strings as a C program sees them: NUL-free texts, fixed `char` arrays
that hold one, and the few library calls on them (`strstr`, `strtol`, `%ld`).
Nothing here refers to a particular program. -/
namespace LocalDrop.Lib

abbrev Bytes := List UInt8

/-- The text of a NUL-terminated string, without its terminator. -/
@[ext] structure CString where
  bytes : Bytes
  nulFree : 0 ∉ bytes
deriving DecidableEq

namespace CString

/-- A string literal; the sources only hold ASCII ones. -/
def lit (text : String) : CString where
  bytes := (text.toList.map fun c => UInt8.ofNat c.toNat).filter (· ≠ 0)
  nulFree := by simp

def empty : CString := ⟨[], by simp⟩

instance : Inhabited CString := ⟨empty⟩

def length (s : CString) : Nat := s.bytes.length

def take (n : Nat) (s : CString) : CString where
  bytes := s.bytes.take n
  nulFree := fun h => s.nulFree (List.mem_of_mem_take h)

def append (s t : CString) : CString where
  bytes := s.bytes ++ t.bytes
  nulFree := by
    rw [List.mem_append]
    rintro (h | h)
    · exact s.nulFree h
    · exact t.nulFree h

instance : Append CString := ⟨append⟩

/-- What `%s` reads out of raw memory: everything before the first NUL. -/
def ofBuffer (buffer : Bytes) : CString where
  bytes := buffer.takeWhile (· ≠ 0)
  nulFree := fun h => by simpa using List.mem_takeWhile_imp h

theorem ofBuffer_of_nulFree (text : Bytes) (h : 0 ∉ text) : ofBuffer text = ⟨text, h⟩ := by
  apply CString.ext
  refine List.takeWhile_eq_self_iff.mpr ?_
  intro b hb
  have hne : b ≠ 0 := fun he => h (he ▸ hb)
  simpa using hne

@[simp] theorem append_bytes (s t : CString) : (s ++ t).bytes = s.bytes ++ t.bytes := rfl

@[simp] theorem empty_bytes : empty.bytes = [] := rfl

theorem eq_empty_iff (s : CString) : s = empty ↔ s.bytes = [] := by
  constructor
  · rintro rfl
    rfl
  · intro h
    exact CString.ext h

theorem take_of_length_le (s : CString) (h : s.length ≤ n) : s.take n = s :=
  CString.ext (List.take_of_length_le h)

end CString

/-- The contents of a `char x[n]` that holds a terminated string. -/
@[ext] structure Chars (n : Nat) where
  str : CString
  fits : str.length < n
deriving DecidableEq

/-- `snprintf(dest, n, "%s", src)`: the text is cut to leave room for the NUL. -/
def copyString [NeZero n] (src : CString) : Chars n where
  str := src.take (n - 1)
  fits := by
    have hn := NeZero.ne n
    simp only [CString.length, CString.take, List.length_take]
    omega

instance [NeZero n] : Inhabited (Chars n) := ⟨copyString CString.empty⟩

theorem copyString_str_of_lt [NeZero n] (src : CString) (h : src.length < n) :
    (copyString src : Chars n).str = src :=
  CString.take_of_length_le src (by omega)

@[simp] theorem copyString_str [NeZero n] (text : Chars n) :
    (copyString text.str : Chars n) = text :=
  Chars.ext (copyString_str_of_lt text.str text.fits)

structure Buffer (n : Nat) where
  bytes : Bytes
  size : bytes.length = n
deriving DecidableEq

def Buffer.zero (n : Nat) : Buffer n := ⟨List.replicate n 0, by simp⟩

def Buffer.str (buffer : Buffer n) : CString := CString.ofBuffer buffer.bytes

@[simp] theorem Buffer.zero_str (n : Nat) : (Buffer.zero n).str = CString.empty := by
  apply CString.ext
  cases n <;> simp [Buffer.str, Buffer.zero, CString.ofBuffer, List.replicate_succ]

def strstr (needle : Bytes) : Bytes → Option Bytes
  | [] => if needle.isPrefixOf [] then some [] else none
  | b :: rest =>
      if needle.isPrefixOf (b :: rest) then some (b :: rest) else strstr needle rest

theorem strstr_of_notMem {first : UInt8} {needle text rest : Bytes} (h : first ∉ text) :
    strstr (first :: needle) (text ++ rest) = strstr (first :: needle) rest := by
  induction text with
  | nil => rfl
  | cons b text ih =>
      rw [List.mem_cons, not_or] at h
      have hhead : (first :: needle).isPrefixOf (b :: (text ++ rest)) = false := by
        simp [List.isPrefixOf, h.1]
      rw [List.cons_append, strstr, hhead]
      exact ih h.2

theorem strstr_of_mismatch {needle text : Bytes} {b : UInt8} (h : ¬ needle <+: b :: text) :
    strstr needle (b :: text) = strstr needle text := by
  rw [← List.isPrefixOf_iff_prefix, Bool.not_eq_true] at h
  rw [strstr, h]
  rfl

theorem strstr_self (needle rest : Bytes) :
    strstr needle (needle ++ rest) = some (needle ++ rest) := by
  cases needle with
  | nil => cases rest <;> simp [strstr]
  | cons b needle => simp [strstr, List.isPrefixOf_iff_prefix]

theorem strstr_eq_some {needle text found : Bytes} (h : strstr needle text = some found) :
    ∃ front rest, text = front ++ found ∧ found = needle ++ rest := by
  induction text with
  | nil =>
      rw [strstr] at h
      split at h
      · rename_i hprefix
        obtain ⟨rest, hrest⟩ := List.isPrefixOf_iff_prefix.mp hprefix
        exact ⟨[], rest, Option.some.inj h, by rw [hrest, ← Option.some.inj h]⟩
      · contradiction
  | cons b text ih =>
      rw [strstr] at h
      split at h
      · rename_i hprefix
        obtain ⟨rest, hrest⟩ := List.isPrefixOf_iff_prefix.mp hprefix
        exact ⟨[], rest, Option.some.inj h, by rw [hrest, ← Option.some.inj h]⟩
      · obtain ⟨front, rest, htext, hfound⟩ := ih h
        exact ⟨b :: front, rest, by rw [htext, List.cons_append], hfound⟩

theorem strstr_append (front needle rest : Bytes) :
    ∃ behind, strstr needle (front ++ (needle ++ rest)) = some (needle ++ behind) ∧
      rest <:+ behind := by
  induction front with
  | nil => exact ⟨rest, strstr_self needle rest, List.suffix_rfl⟩
  | cons b front ih =>
      rw [List.cons_append, strstr]
      split
      · rename_i hprefix
        obtain ⟨behind, hbehind⟩ := List.isPrefixOf_iff_prefix.mp hprefix
        refine ⟨behind, by rw [hbehind], ?_⟩
        have hrest : rest <:+ needle ++ behind := by
          rw [hbehind]
          exact ⟨b :: (front ++ needle), by simp⟩
        have hlength := congrArg List.length hbehind
        simp only [List.length_append, List.length_cons] at hlength
        exact List.suffix_of_suffix_length_le hrest (List.suffix_append _ _) (by omega)
      · exact ih

def before (stop : UInt8) (text : Bytes) : Option Bytes :=
  if stop ∈ text then some (text.takeWhile (· ≠ stop)) else none

theorem before_append (stop : UInt8) (text rest : Bytes) (h : stop ∉ text) :
    before stop (text ++ stop :: rest) = some text := by
  have hmem : stop ∈ text ++ stop :: rest := by simp
  rw [before, if_pos hmem, List.takeWhile_append_of_pos]
  · simp
  · intro b hb
    have hne : b ≠ stop := fun he => h (he ▸ hb)
    simpa using hne

theorem append_stop_injective {stop : UInt8} {a b x y : Bytes} (ha : stop ∉ a) (hb : stop ∉ b)
    (h : a ++ stop :: x = b ++ stop :: y) : a = b ∧ x = y := by
  have hbefore := congrArg (before stop) h
  rw [before_append _ _ _ ha, before_append _ _ _ hb, Option.some.injEq] at hbefore
  rw [hbefore] at h
  exact ⟨hbefore, (List.cons.inj (List.append_cancel_left h)).2⟩

def isSpace (b : UInt8) : Bool := b = 32 || (9 ≤ b && b ≤ 13)
def isDigit (b : UInt8) : Bool := 48 ≤ b && b ≤ 57

def digitsValue (digits : Bytes) : Nat :=
  digits.foldl (fun value b => 10 * value + (b.toNat - 48)) 0

/-- Saturation of `strtol` at the ends of a 64-bit `long`. -/
def clampLong (value : Int) : Int := max (-2 ^ 63) (min value (2 ^ 63 - 1))

/-- `strtol(text, &end, 10)`: the value and the text from `end` on. Without a
digit nothing is converted and `end` is the start. -/
def strtol (text : Bytes) : Int × Bytes :=
  let body := text.dropWhile isSpace
  let negative := body.head? = some 45
  let unsigned := if body.head? = some 45 ∨ body.head? = some 43 then body.tail else body
  let digits := unsigned.takeWhile isDigit
  if digits = [] then (0, text)
  else
    let value : Int := digitsValue digits
    (clampLong (if negative then -value else value), unsigned.dropWhile isDigit)

def decimal (n : Nat) : Bytes := (Nat.toDigits 10 n).map fun c => UInt8.ofNat c.toNat

def formatLong (value : Int) : Bytes :=
  if value < 0 then 45 :: decimal value.natAbs else decimal value.natAbs

private theorem digit_toNat {c : Char} (h : c.isDigit = true) :
    48 ≤ c.toNat ∧ c.toNat ≤ 57 := by
  simp only [Char.isDigit, Bool.and_eq_true, decide_eq_true_eq] at h
  exact ⟨UInt32.le_iff_toNat_le.mp h.1, UInt32.le_iff_toNat_le.mp h.2⟩

theorem isDigit_of_mem_decimal {n : Nat} {b : UInt8} (h : b ∈ decimal n) :
    48 ≤ b.toNat ∧ b.toNat ≤ 57 := by
  obtain ⟨c, hc, rfl⟩ := List.mem_map.mp h
  have hd := digit_toNat (Nat.isDigit_of_mem_toDigits (by decide) (by decide) hc)
  have hlt : c.toNat < 256 := by omega
  rw [UInt8.toNat_ofNat', Nat.mod_eq_of_lt hlt]
  exact hd

private theorem digitsValue_map (chars : List Char) (init : Nat)
    (h : ∀ c ∈ chars, c.isDigit = true) :
    (chars.map fun c => UInt8.ofNat c.toNat).foldl
        (fun value b => 10 * value + (b.toNat - 48)) init =
      Nat.ofDigitChars 10 chars init := by
  induction chars generalizing init with
  | nil => simp
  | cons c rest ih =>
      have hc := digit_toNat (h c (by simp))
      have hlt : c.toNat < 256 := by omega
      rw [List.map_cons, List.foldl_cons, Nat.ofDigitChars_cons,
        ih _ fun d hd => h d (by simp [hd]), UInt8.toNat_ofNat', Nat.mod_eq_of_lt hlt]
      rfl

@[simp] theorem digitsValue_decimal (n : Nat) : digitsValue (decimal n) = n := by
  have hdigits : ∀ c ∈ Nat.toDigits 10 n, c.isDigit = true :=
    fun c hc => Nat.isDigit_of_mem_toDigits (by decide) (by decide) hc
  rw [digitsValue, decimal, digitsValue_map _ 0 hdigits, Nat.ofDigitChars_ten_toDigits]

theorem decimal_injective : Function.Injective decimal := by
  intro a b h
  rw [← digitsValue_decimal a, h, digitsValue_decimal]

theorem notMem_formatLong (value : Int) (b : UInt8)
    (hb : ¬ (48 ≤ b.toNat ∧ b.toNat ≤ 57)) (hsign : b ≠ 45) : b ∉ formatLong value := by
  have hdecimal : ∀ n, b ∉ decimal n := fun n h => hb (isDigit_of_mem_decimal h)
  unfold formatLong
  split
  · simp [hdecimal, hsign]
  · exact hdecimal _

def CString.ofLong (value : Int) : CString where
  bytes := formatLong value
  nulFree := notMem_formatLong value 0 (by decide) (by decide)

theorem decimal_length_le {n k : Nat} (hk : 0 < k) (hlt : n < 10 ^ k) :
    (decimal n).length ≤ k := by
  rw [decimal, List.length_map, Nat.length_toDigits_le_iff (by decide) hk]
  exact hlt

theorem formatLong_length_long {value : Int} (hlong : -2 ^ 63 ≤ value ∧ value < 2 ^ 63) :
    (formatLong value).length ≤ 20 := by
  have hdigits : (decimal value.natAbs).length ≤ 19 := decimal_length_le (by decide) (by omega)
  unfold formatLong
  split
  · rw [List.length_cons]
    omega
  · omega

theorem formatLong_injective : Function.Injective formatLong := by
  have hsign : ∀ m n : Nat, 45 :: decimal m ≠ decimal n := by
    intro m n h
    have hmem : (45 : UInt8) ∈ decimal n := by rw [← h]; simp
    exact absurd (isDigit_of_mem_decimal hmem) (by decide)
  intro a b h
  unfold formatLong at h
  split at h <;> split at h
  · have := decimal_injective (List.cons.inj h).2
    omega
  · exact absurd h (hsign _ _)
  · exact absurd h.symm (hsign _ _)
  · have := decimal_injective h
    omega

theorem isDigit_decimal {n : Nat} {b : UInt8} (h : b ∈ decimal n) : isDigit b = true := by
  have hb := isDigit_of_mem_decimal h
  simp only [isDigit, Bool.and_eq_true, decide_eq_true_eq, UInt8.le_iff_toNat_le]
  exact hb

theorem decimal_ne_nil (n : Nat) : decimal n ≠ [] := by
  simp [decimal, Nat.toDigits_ne_nil]

theorem takeWhile_isDigit_decimal (n : Nat) {rest : Bytes}
    (hrest : ∀ b ∈ rest.head?, isDigit b = false) :
    (decimal n ++ rest).takeWhile isDigit = decimal n := by
  rw [List.takeWhile_append_of_pos fun b hb => isDigit_decimal hb]
  cases rest with
  | nil => simp
  | cons b rest => simp [hrest b (by simp)]

/-- `strtol` reads back what `%ld` wrote of a `long`. -/
theorem strtol_formatLong {value : Int} (hlong : -2 ^ 63 ≤ value ∧ value < 2 ^ 63) {rest : Bytes}
    (hrest : ∀ b ∈ rest.head?, isDigit b = false) :
    (strtol (formatLong value ++ rest)).1 = value := by
  have hclamp : clampLong value = value := by
    unfold clampLong
    omega
  have htake := takeWhile_isDigit_decimal value.natAbs hrest
  unfold formatLong
  split
  · rename_i hnegative
    have hspace : isSpace 45 = false := by decide
    have habs : -(value.natAbs : Int) = value := by omega
    generalize value.natAbs = magnitude at htake habs ⊢
    simp [strtol, hspace, htake, decimal_ne_nil, habs, hclamp]
  · rename_i hpositive
    have habs : (value.natAbs : Int) = value := by omega
    -- The first digit is neither a space nor a sign.
    obtain ⟨first, digits, hdecimal⟩ := List.exists_cons_of_ne_nil (decimal_ne_nil value.natAbs)
    have hfirst := isDigit_of_mem_decimal (hdecimal ▸ List.mem_cons_self : first ∈ decimal _)
    have hspace : isSpace first = false := by
      simp only [isSpace, Bool.or_eq_false_iff, Bool.and_eq_false_iff, decide_eq_false_iff_not,
        UInt8.le_iff_toNat_le]
      refine ⟨?_, .inr (by change ¬ first.toNat ≤ 13; omega)⟩
      rintro rfl
      contradiction
    have hminus : first ≠ 45 := by
      rintro rfl
      contradiction
    have hplus : first ≠ 43 := by
      rintro rfl
      contradiction
    rw [hdecimal] at htake ⊢
    have hvalue : digitsValue (first :: digits) = value.natAbs := by
      rw [← hdecimal, digitsValue_decimal]
    simp only [List.cons_append] at htake
    simp [strtol, hspace, hminus, hplus, htake, hvalue, habs, hclamp]

end LocalDrop.Lib
