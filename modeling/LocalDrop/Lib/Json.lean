import LocalDrop.Lib.CString
import Mathlib.Data.List.Forall2

/-! A reader for JSON texts (RFC 8259) as bytes, and rules for texts that are put together
from values. Bytes from 128 on are characters of a string like any other. -/
namespace LocalDrop.Lib

/-- A number is `mantissa * 10 ^ exponent`. -/
inductive Json where
  | null
  | bool (value : Bool)
  | num (mantissa exponent : Int)
  | str (text : Bytes)
  | arr (items : List Json)
  | obj (members : List (Bytes × Json))

namespace Json

def isWhitespace (b : UInt8) : Bool := b = 32 || b = 9 || b = 10 || b = 13

def skipWhitespace (text : Bytes) : Bytes := text.dropWhile isWhitespace

def hexValue (b : UInt8) : Option Nat :=
  if isDigit b then some (b.toNat - 48)
  else if 97 ≤ b.toNat ∧ b.toNat ≤ 102 then some (b.toNat - 87)
  else if 65 ≤ b.toNat ∧ b.toNat ≤ 70 then some (b.toNat - 55)
  else none

def codeUnit (a b c d : UInt8) : Option Nat := do
  pure (4096 * (← hexValue a) + 256 * (← hexValue b) + 16 * (← hexValue c) + (← hexValue d))

def utf8 (code : Nat) : Bytes :=
  if code < 128 then [UInt8.ofNat code]
  else if code < 2048 then [UInt8.ofNat (192 + code / 64), UInt8.ofNat (128 + code % 64)]
  else if code < 65536 then
    [UInt8.ofNat (224 + code / 4096), UInt8.ofNat (128 + code / 64 % 64),
      UInt8.ofNat (128 + code % 64)]
  else
    [UInt8.ofNat (240 + code / 262144), UInt8.ofNat (128 + code / 4096 % 64),
      UInt8.ofNat (128 + code / 64 % 64), UInt8.ofNat (128 + code % 64)]

def simpleEscape (b : UInt8) : Option UInt8 :=
  if b = 34 ∨ b = 92 ∨ b = 47 then some b
  else if b = 98 then some 8
  else if b = 102 then some 12
  else if b = 110 then some 10
  else if b = 114 then some 13
  else if b = 116 then some 9
  else none

/-- What follows an opening quote: the text and what is behind the closing quote. Two
escaped surrogates are one character, one alone is none. -/
def readString : Bytes → Option (Bytes × Bytes)
  | [] => none
  | 34 :: rest => some ([], rest)
  | 92 :: 117 :: a :: b :: c :: d :: rest => do
      let unit ← codeUnit a b c d
      if 0xD800 ≤ unit ∧ unit < 0xDC00 then
        match rest with
        | 92 :: 117 :: a :: b :: c :: d :: rest => do
            let low ← codeUnit a b c d
            if 0xDC00 ≤ low ∧ low < 0xE000 then
              let (text, rest) ← readString rest
              pure (utf8 (0x10000 + (unit - 0xD800) * 1024 + (low - 0xDC00)) ++ text, rest)
            else none
        | _ => none
      else if 0xDC00 ≤ unit ∧ unit < 0xE000 then none
      else do
        let (text, rest) ← readString rest
        pure (utf8 unit ++ text, rest)
  | 92 :: b :: rest => do
      let plain ← simpleEscape b
      let (text, rest) ← readString rest
      pure (plain :: text, rest)
  | b :: rest =>
      if b = 92 ∨ b < 32 then none
      else do
        let (text, rest) ← readString rest
        pure (b :: text, rest)

def readFraction : Bytes → Option (Bytes × Bytes)
  | 46 :: rest =>
      if rest.takeWhile isDigit = [] then none
      else some (rest.takeWhile isDigit, rest.dropWhile isDigit)
  | rest => some ([], rest)

def readExponent (text : Bytes) : Option (Int × Bytes) :=
  if text.head? = some 101 ∨ text.head? = some 69 then
    let signed := text.tail
    let negative := signed.head? = some 45
    let unsigned := if signed.head? = some 45 ∨ signed.head? = some 43 then signed.tail else signed
    let digits := unsigned.takeWhile isDigit
    if digits = [] then none
    else some (if negative then -(digitsValue digits : Int) else digitsValue digits,
      unsigned.dropWhile isDigit)
  else some (0, text)

def readNumber (text : Bytes) : Option (Json × Bytes) := do
  let negative := text.head? = some 45
  let unsigned := if text.head? = some 45 then text.tail else text
  let digits := unsigned.takeWhile isDigit
  if digits = [] ∨ (digits.head? = some 48 ∧ 1 < digits.length) then none
  else
    let (fraction, rest) ← readFraction (unsigned.dropWhile isDigit)
    let (exponent, rest) ← readExponent rest
    let value : Int := digitsValue (digits ++ fraction)
    pure (.num (if negative then -value else value) (exponent - fraction.length), rest)

def readItems (item : Bytes → Option (α × Bytes)) (close : UInt8) :
    Nat → Bytes → Option (List α × Bytes)
  | 0, _ => none
  | fuel + 1, text => do
      let (first, rest) ← item text
      match skipWhitespace rest with
      | [] => none
      | b :: rest =>
          if b = 44 then
            let (items, rest) ← readItems item close fuel rest
            pure (first :: items, rest)
          else if b = close then pure ([first], rest)
          else none

def readList (item : Bytes → Option (α × Bytes)) (close : UInt8) (text : Bytes) :
    Option (List α × Bytes) :=
  if (skipWhitespace text).head? = some close then some ([], (skipWhitespace text).tail)
  else readItems item close text.length text

def readMember (value : Bytes → Option (Json × Bytes)) (text : Bytes) :
    Option ((Bytes × Json) × Bytes) :=
  match skipWhitespace text with
  | 34 :: rest => do
      let (key, rest) ← readString rest
      match skipWhitespace rest with
      | 58 :: rest => do
          let (value, rest) ← value rest
          pure ((key, value), rest)
      | _ => none
  | _ => none

/-- `fuel` bounds the depth of nesting. -/
def readValue : Nat → Bytes → Option (Json × Bytes)
  | 0, _ => none
  | fuel + 1, text =>
      match skipWhitespace text with
      | 34 :: rest => (readString rest).map fun (text, rest) => (.str text, rest)
      | 91 :: rest =>
          (readList (readValue fuel) 93 rest).map fun (items, rest) => (.arr items, rest)
      | 123 :: rest =>
          (readList (readMember (readValue fuel)) 125 rest).map fun (members, rest) =>
            (.obj members, rest)
      | 110 :: 117 :: 108 :: 108 :: rest => some (.null, rest)
      | 116 :: 114 :: 117 :: 101 :: rest => some (.bool true, rest)
      | 102 :: 97 :: 108 :: 115 :: 101 :: rest => some (.bool false, rest)
      | text => readNumber text

def parse (text : Bytes) : Option Json :=
  match readValue (text.length + 1) text with
  | some (value, rest) => if skipWhitespace rest = [] then some value else none
  | none => none

def keys : Json → List Bytes
  | .obj members => members.map Prod.fst
  | _ => []

def textAt (key : Bytes) : Json → Option Bytes
  | .obj members => members.findSome? fun
      | (name, .str text) => if name = key then some text else none
      | _ => none
  | _ => none

def Delimited (rest : Bytes) : Prop := ∀ b ∈ rest.head?, b = 44 ∨ b = 93 ∨ b = 125

/-- The reader takes exactly this text and returns the value. -/
structure Reads (reader : Bytes → Option (α × Bytes)) (text : Bytes) (value : α) : Prop where
  start : ∃ b rest, text = b :: rest ∧ isWhitespace b = false ∧ b ≠ 93 ∧ b ≠ 125
  reads : ∀ rest, Delimited rest → reader (text ++ rest) = some (value, rest)

def quoted (body : Bytes) : Bytes := 34 :: (body ++ [34])

def arrayText (items : List Bytes) : Bytes := 91 :: ([44].intercalate items ++ [93])

def objectText (members : List (Bytes × Bytes)) : Bytes :=
  123 :: ([44].intercalate (members.map fun member => quoted member.1 ++ 58 :: member.2) ++ [125])

theorem skipWhitespace_cons {b : UInt8} {rest : Bytes} (h : isWhitespace b = false) :
    skipWhitespace (b :: rest) = b :: rest := by
  simp [skipWhitespace, h]

theorem delimited_cons {b : UInt8} {rest : Bytes} (h : b = 44 ∨ b = 93 ∨ b = 125) :
    Delimited (b :: rest) := by
  intro c hc
  cases hc
  exact h

theorem intercalate_concat {α : Type} {separator last : List α} {items : List (List α)}
    (h : items ≠ []) :
    separator.intercalate (items ++ [last]) = separator.intercalate items ++ separator ++ last := by
  induction items with
  | nil => contradiction
  | cons item items ih =>
      cases items with
      | nil => simp
      | cons next items =>
          have hlater := ih (by simp)
          simp only [List.cons_append] at hlater ⊢
          rw [List.intercalate_cons_cons, hlater, List.intercalate_cons_cons]
          simp only [List.append_assoc]

theorem flatMap_intercalate {α β : Type} (f : α → List β) (separator : List α)
    (parts : List (List α)) : (separator.intercalate parts).flatMap f =
      (separator.flatMap f).intercalate (parts.map fun part => part.flatMap f) := by
  induction parts with
  | nil => rfl
  | cons part parts ih =>
      cases parts with
      | nil => simp
      | cons next parts =>
          rw [List.intercalate_cons_cons, List.flatMap_append, List.flatMap_append, ih]
          simp only [List.map_cons, List.intercalate_cons_cons]

theorem mem_intercalate {α : Type} {separator : List α} {parts : List (List α)} {a : α}
    (h : a ∈ separator.intercalate parts) : a ∈ separator ∨ ∃ part ∈ parts, a ∈ part := by
  induction parts with
  | nil => contradiction
  | cons part parts ih =>
      cases parts with
      | nil => exact .inr ⟨part, by simp, by simpa using h⟩
      | cons next parts =>
          rw [List.intercalate_cons_cons, List.mem_append, List.mem_append] at h
          rcases h with (hfirst | hseparator) | hlater
          · exact .inr ⟨part, by simp, hfirst⟩
          · exact .inl hseparator
          · rcases ih hlater with hseparator | ⟨other, hother, ha⟩
            · exact .inl hseparator
            · exact .inr ⟨other, List.mem_cons_of_mem _ hother, ha⟩

theorem getLast_intercalate {separator : Bytes} {items : List Bytes} {b : UInt8} (hne : items ≠ [])
    (h : ∀ item ∈ items, item.getLast? = some b) :
    (separator.intercalate items).getLast? = some b := by
  induction items with
  | nil => contradiction
  | cons item items ih =>
      cases items with
      | nil => simp [h item (by simp)]
      | cons next items =>
          have hlater := ih (by simp) fun other hother => h other (by simp [hother])
          rw [List.intercalate_cons_cons, List.getLast?_append, hlater]
          rfl

theorem readString_plain {b : UInt8} (hquote : b ≠ 34) (hescape : b ≠ 92) (hcontrol : ¬ b < 32)
    (rest : Bytes) :
    readString (b :: rest) = (readString rest).map fun (text, rest) => (b :: text, rest) := by
  rw [readString.eq_def]
  split
  · contradiction
  · rename_i heq
    exact absurd (List.cons.inj heq).1 hquote
  · rename_i heq
    exact absurd (List.cons.inj heq).1 hescape
  · rename_i heq
    exact absurd (List.cons.inj heq).1 hescape
  · rename_i heq
    obtain ⟨rfl, rfl⟩ := List.cons.inj heq
    rw [if_neg (by simp [hescape, hcontrol])]
    cases readString rest <;> rfl

theorem readString_simpleEscape {escape b : UInt8} (h : simpleEscape escape = some b)
    (rest : Bytes) :
    readString (92 :: escape :: rest) =
      (readString rest).map fun (text, rest) => (b :: text, rest) := by
  have hu : escape ≠ 117 := by
    rintro rfl
    contradiction
  rw [readString.eq_def]
  split
  · contradiction
  · rename_i heq
    exact absurd (List.cons.inj heq).1 (by decide)
  · rename_i heq
    exact absurd (List.cons.inj (List.cons.inj heq).2).1 hu
  · rename_i heq
    obtain ⟨rfl, rfl⟩ := List.cons.inj (List.cons.inj heq).2
    rw [h]
    cases readString rest <;> rfl
  · rename_i hother heq
    obtain ⟨rfl, rfl⟩ := List.cons.inj heq
    exact absurd rfl (hother _ _ rfl)

theorem readString_codeUnit {a b c d : UInt8} {unit : Nat} (h : codeUnit a b c d = some unit)
    (hunit : unit < 0xD800) (rest : Bytes) :
    readString (92 :: 117 :: a :: b :: c :: d :: rest) =
      (readString rest).map fun (text, rest) => (utf8 unit ++ text, rest) := by
  rw [readString.eq_def]
  simp only [h, Option.bind_eq_bind, Option.bind_some]
  rw [if_neg (by omega), if_neg (by omega)]
  cases readString rest <;> rfl

theorem readString_verbatim {body : Bytes} (h : ∀ b ∈ body, b ≠ 34 ∧ b ≠ 92 ∧ ¬ b < 32)
    (rest : Bytes) : readString (body ++ 34 :: rest) = some (body, rest) := by
  induction body with
  | nil => rfl
  | cons b body ih =>
      obtain ⟨hquote, hescape, hcontrol⟩ := h b (by simp)
      rw [List.cons_append, readString_plain hquote hescape hcontrol,
        ih fun c hc => h c (by simp [hc])]
      rfl

section
variable {reader : Bytes → Option (α × Bytes)} {texts : List Bytes} {values : List α}

theorem readItems_intercalate {close : UInt8} (hclose : close = 93 ∨ close = 125)
    (h : List.Forall₂ (Reads reader) texts values) (hne : texts ≠ []) {fuel : Nat}
    (hfuel : ([44].intercalate texts).length ≤ fuel) (rest : Bytes) :
    readItems reader close fuel ([44].intercalate texts ++ close :: rest) =
      some (values, rest) := by
  have hspace : isWhitespace close = false := by rcases hclose with rfl | rfl <;> decide
  have hcomma : close ≠ 44 := by rcases hclose with rfl | rfl <;> decide
  induction h generalizing fuel with
  | nil => contradiction
  | @cons text value texts values hfirst hrest ih =>
      obtain ⟨b, tail, htext, -⟩ := hfirst.start
      cases fuel with
      | zero =>
          cases texts <;> simp [htext] at hfuel
      | succ fuel =>
          cases hrest with
          | nil =>
              simp only [List.intercalate_singleton]
              rw [readItems, hfirst.reads _ (delimited_cons (.inr hclose))]
              simp [skipWhitespace_cons hspace, hcomma]
          | cons hsecond hothers =>
              rw [List.intercalate_cons_cons] at hfuel ⊢
              simp only [htext, List.length_append, List.length_cons] at hfuel
              have hlater := @ih (by simp) fuel (by omega)
              rw [readItems, List.append_assoc, List.append_assoc, List.singleton_append,
                hfirst.reads _ (delimited_cons (.inl rfl))]
              have hcommaSpace : isWhitespace 44 = false := by decide
              simp [skipWhitespace_cons hcommaSpace, hlater]

theorem readList_intercalate {close : UInt8} (hclose : close = 93 ∨ close = 125)
    (h : List.Forall₂ (Reads reader) texts values) (rest : Bytes) :
    readList reader close ([44].intercalate texts ++ close :: rest) = some (values, rest) := by
  have hspace : isWhitespace close = false := by rcases hclose with rfl | rfl <;> decide
  cases h with
  | nil => simp [readList, skipWhitespace_cons hspace]
  | @cons text value texts values hfirst hrest =>
      obtain ⟨b, tail, htext, hb, h93, h125⟩ := hfirst.start
      have hhead : ∃ more, [44].intercalate (text :: texts) ++ close :: rest = b :: more := by
        cases texts <;> simp [htext]
      obtain ⟨more, hmore⟩ := hhead
      have hopen : b ≠ close := by rcases hclose with rfl | rfl <;> assumption
      have hitems := readItems_intercalate hclose (.cons hfirst hrest) (by simp)
        (show ([44].intercalate (text :: texts)).length ≤
          ([44].intercalate (text :: texts) ++ close :: rest).length by simp) rest
      unfold readList
      rw [hmore, skipWhitespace_cons hb, if_neg (by simpa using hopen), ← hmore]
      exact hitems

end

section values
variable {fuel : Nat}

theorem reads_quoted {body text : Bytes}
    (h : ∀ rest, readString (body ++ 34 :: rest) = some (text, rest)) :
    Reads (readValue (fuel + 1)) (quoted body) (.str text) := by
  refine ⟨⟨34, body ++ [34], rfl, by decide, by decide, by decide⟩, fun rest _ => ?_⟩
  have hspace : isWhitespace 34 = false := by decide
  simp [quoted, readValue, skipWhitespace_cons hspace, h]

theorem reads_bool (value : Bool) :
    Reads (readValue (fuel + 1))
      (if value then [116, 114, 117, 101] else [102, 97, 108, 115, 101]) (.bool value) := by
  have htrue : isWhitespace 116 = false := by decide
  have hfalse : isWhitespace 102 = false := by decide
  cases value
  · refine ⟨⟨102, _, rfl, by decide, by decide, by decide⟩, fun rest _ => ?_⟩
    simp [readValue, skipWhitespace_cons hfalse]
  · refine ⟨⟨116, _, rfl, by decide, by decide, by decide⟩, fun rest _ => ?_⟩
    simp [readValue, skipWhitespace_cons htrue]

theorem reads_array {texts : List Bytes} {values : List Json}
    (h : List.Forall₂ (Reads (readValue fuel)) texts values) :
    Reads (readValue (fuel + 1)) (arrayText texts) (.arr values) := by
  refine ⟨⟨91, _, rfl, by decide, by decide, by decide⟩, fun rest _ => ?_⟩
  have hspace : isWhitespace 91 = false := by decide
  simp only [arrayText, List.cons_append, List.append_assoc, List.nil_append, readValue,
    skipWhitespace_cons hspace]
  rw [readList_intercalate (.inl rfl) h]
  rfl

theorem reads_member {body key text : Bytes} {value : Json}
    (hkey : ∀ rest, readString (body ++ 34 :: rest) = some (key, rest))
    (h : Reads (readValue fuel) text value) :
    Reads (readMember (readValue fuel)) (quoted body ++ 58 :: text) (key, value) := by
  refine ⟨⟨34, _, rfl, by decide, by decide, by decide⟩, fun rest hrest => ?_⟩
  have hspace : isWhitespace 34 = false := by decide
  have hcolon : isWhitespace 58 = false := by decide
  simp [quoted, readMember, skipWhitespace_cons hspace, skipWhitespace_cons hcolon, hkey,
    h.reads rest hrest]

theorem reads_object {members : List (Bytes × Bytes)} {values : List (Bytes × Json)}
    (h : List.Forall₂ (fun member value =>
      (∀ rest, readString (member.1 ++ 34 :: rest) = some (value.1, rest)) ∧
        Reads (readValue fuel) member.2 value.2) members values) :
    Reads (readValue (fuel + 1)) (objectText members) (.obj values) := by
  refine ⟨⟨123, _, rfl, by decide, by decide, by decide⟩, fun rest _ => ?_⟩
  have hspace : isWhitespace 123 = false := by decide
  have hmembers : List.Forall₂ (Reads (readMember (readValue fuel)))
      (members.map fun member => quoted member.1 ++ 58 :: member.2) values := by
    rw [List.forall₂_map_left_iff]
    exact h.imp fun _ _ hmember => reads_member hmember.1 hmember.2
  simp only [objectText, List.cons_append, List.append_assoc, List.nil_append, readValue,
    skipWhitespace_cons hspace]
  rw [readList_intercalate (.inr rfl) hmembers]
  rfl

end values

theorem digitsValue_lt {digits : Bytes} (h : ∀ b ∈ digits, isDigit b = true) (init : Nat) :
    digits.foldl (fun value b => 10 * value + (b.toNat - 48)) init <
      (init + 1) * 10 ^ digits.length := by
  induction digits generalizing init with
  | nil => simp
  | cons b digits ih =>
      have hb := h b (by simp)
      simp only [isDigit, Bool.and_eq_true, decide_eq_true_eq, UInt8.le_iff_toNat_le] at hb
      have hle : b.toNat ≤ 57 := hb.2
      have hlater := ih (fun c hc => h c (by simp [hc])) (10 * init + (b.toNat - 48))
      rw [List.foldl_cons]
      refine lt_of_lt_of_le hlater ?_
      rw [List.length_cons, Nat.pow_succ', ← Nat.mul_assoc]
      exact Nat.mul_le_mul_right _ (by omega)

theorem decimal_leading (n : Nat) :
    ¬ ((decimal n).head? = some 48 ∧ 1 < (decimal n).length) := by
  rintro ⟨hhead, hlength⟩
  obtain ⟨digits, hdecimal⟩ := List.head?_eq_some_iff.mp hhead
  rw [hdecimal, List.length_cons] at hlength
  have hdigits : ∀ b ∈ digits, isDigit b = true := by
    intro b hb
    exact isDigit_decimal (hdecimal ▸ List.mem_cons_of_mem _ hb : b ∈ decimal n)
  have hvalue := digitsValue_decimal n
  rw [hdecimal] at hvalue
  have hlt : n < 10 ^ digits.length := by
    have hbound := digitsValue_lt hdigits 0
    rw [digitsValue, List.foldl_cons] at hvalue
    simpa [← hvalue] using hbound
  have hle := (Nat.length_toDigits_le_iff (b := 10) (by decide) (by omega)).mpr hlt
  have hsame : (decimal n).length = (Nat.toDigits 10 n).length := by simp [decimal]
  rw [hdecimal, List.length_cons] at hsame
  omega

theorem number_start {b : UInt8} (h : isDigit b = true ∨ b = 45) (c : UInt8)
    (hdigit : isDigit c = false) (hsign : c ≠ 45) : b ≠ c := by
  rintro rfl
  rcases h with h | h
  · rw [hdigit] at h
    contradiction
  · contradiction

theorem number_start_not_whitespace {b : UInt8} (h : isDigit b = true ∨ b = 45) :
    isWhitespace b = false := by
  have hother := number_start h
  simp [isWhitespace, hother 32 (by decide) (by decide), hother 9 (by decide) (by decide),
    hother 10 (by decide) (by decide), hother 13 (by decide) (by decide)]

theorem readValue_number {fuel : Nat} {b : UInt8} {rest : Bytes}
    (h : isDigit b = true ∨ b = 45) :
    readValue (fuel + 1) (b :: rest) = readNumber (b :: rest) := by
  have hother := number_start h
  rw [readValue, skipWhitespace_cons (number_start_not_whitespace h)]
  split
  · rename_i heq
    exact absurd (List.cons.inj heq).1 (hother 34 (by decide) (by decide))
  · rename_i heq
    exact absurd (List.cons.inj heq).1 (hother 91 (by decide) (by decide))
  · rename_i heq
    exact absurd (List.cons.inj heq).1 (hother 123 (by decide) (by decide))
  · rename_i heq
    exact absurd (List.cons.inj heq).1 (hother 110 (by decide) (by decide))
  · rename_i heq
    exact absurd (List.cons.inj heq).1 (hother 116 (by decide) (by decide))
  · rename_i heq
    exact absurd (List.cons.inj heq).1 (hother 102 (by decide) (by decide))
  · rfl

theorem readNumber_formatLong (value : Int) {rest : Bytes} (hrest : Delimited rest) :
    readNumber (formatLong value ++ rest) = some (.num value 0, rest) := by
  have hdigit : ∀ b ∈ rest.head?, isDigit b = false := by
    intro b hb
    rcases hrest b hb with rfl | rfl | rfl <;> decide
  have htake := takeWhile_isDigit_decimal value.natAbs hdigit
  have hdrop : (decimal value.natAbs ++ rest).dropWhile isDigit = rest := by
    have hsplit : (decimal value.natAbs ++ rest).takeWhile isDigit ++
        (decimal value.natAbs ++ rest).dropWhile isDigit = decimal value.natAbs ++ rest :=
      List.takeWhile_append_dropWhile
    rw [htake] at hsplit
    exact List.append_cancel_left hsplit
  have hfraction : readFraction rest = some ([], rest) := by
    unfold readFraction
    split
    · exact absurd (hrest 46 rfl) (by decide)
    · rfl
  have hexponent : readExponent rest = some (0, rest) := by
    unfold readExponent
    rw [if_neg]
    rintro (h | h)
    · exact absurd (hrest _ h) (by decide)
    · exact absurd (hrest _ h) (by decide)
  have hdigits : ¬ (decimal value.natAbs = [] ∨
      ((decimal value.natAbs).head? = some 48 ∧ 1 < (decimal value.natAbs).length)) := by
    rw [not_or]
    exact ⟨decimal_ne_nil _, decimal_leading _⟩
  unfold formatLong
  split
  · rename_i hnegative
    have habs : -(value.natAbs : Int) = value := by omega
    simp only [readNumber, List.cons_append, List.head?_cons, if_true, List.tail_cons, htake, hdrop,
      if_neg hdigits, hfraction, hexponent, Option.bind_eq_bind, Option.bind_some,
      Option.pure_def, List.append_nil, digitsValue_decimal, habs, List.length_nil]
    rfl
  · rename_i hpositive
    have habs : (value.natAbs : Int) = value := by omega
    have hsign : (decimal value.natAbs ++ rest).head? ≠ some 45 := by
      obtain ⟨first, digits, hdecimal⟩ := List.exists_cons_of_ne_nil (decimal_ne_nil value.natAbs)
      have hfirst := isDigit_decimal (hdecimal ▸ List.mem_cons_self : first ∈ decimal _)
      rw [hdecimal, List.cons_append, List.head?_cons]
      rintro ⟨⟩
      contradiction
    simp only [readNumber, if_neg hsign, htake, hdrop, if_neg hdigits, hfraction, hexponent,
      Option.bind_eq_bind, Option.bind_some, Option.pure_def, List.append_nil,
      digitsValue_decimal, habs, List.length_nil]
    simp

theorem reads_integer {fuel : Nat} (value : Int) :
    Reads (readValue (fuel + 1)) (formatLong value) (.num value 0) := by
  obtain ⟨b, tail, htext, hb⟩ : ∃ b tail, formatLong value = b :: tail ∧
      (isDigit b = true ∨ b = 45) := by
    unfold formatLong
    split
    · exact ⟨45, _, rfl, .inr rfl⟩
    · obtain ⟨first, digits, hdecimal⟩ := List.exists_cons_of_ne_nil (decimal_ne_nil value.natAbs)
      exact ⟨first, digits, hdecimal,
        .inl (isDigit_decimal (hdecimal ▸ List.mem_cons_self : first ∈ decimal _))⟩
  refine ⟨⟨b, tail, htext, number_start_not_whitespace hb, number_start hb 93 (by decide)
    (by decide), number_start hb 125 (by decide) (by decide)⟩, fun rest hrest => ?_⟩
  have hread := readNumber_formatLong value hrest
  rw [htext, List.cons_append] at hread ⊢
  rw [readValue_number hb, hread]

theorem reads_natural {fuel : Nat} (value : Nat) :
    Reads (readValue (fuel + 1)) (decimal value) (.num value 0) := by
  have hread := @reads_integer fuel (value : Int)
  rwa [formatLong, if_neg (by omega)] at hread

theorem parse_of_reads {fuel : Nat} {text : Bytes} {value : Json}
    (hfuel : text.length + 1 = fuel) (h : Reads (readValue fuel) text value) :
    parse text = some value := by
  have hread := h.reads [] (by simp [Delimited])
  rw [List.append_nil] at hread
  rw [parse, hfuel, hread]
  rfl

end Json

end LocalDrop.Lib
