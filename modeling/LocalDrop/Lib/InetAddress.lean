import LocalDrop.Lib.CString
import Mathlib.Algebra.BigOperators.Group.List.Basic

/-! Which texts `inet_pton` accepts: dotted quads for `AF_INET`; for `AF_INET6`
colon-separated groups of up to four hexadecimal digits, with at most one `::`
and a dotted quad allowed in place of the last two groups. -/
namespace LocalDrop.Lib

def isHexDigit (b : UInt8) : Bool :=
  isDigit b || (97 ≤ b && b ≤ 102) || (65 ≤ b && b ≤ 70)

/-- One to three digits, no leading zero, at most 255. -/
def isOctet (text : Bytes) : Bool :=
  text ≠ [] && text.length ≤ 3 && text.all isDigit &&
    (text.length = 1 || text.head? ≠ some 48) && digitsValue text ≤ 255

def inetPton4 (text : Bytes) : Bool :=
  (text.splitOn 46).length = 4 && (text.splitOn 46).all isOctet

def isHexGroup (text : Bytes) : Bool :=
  text ≠ [] && text.length ≤ 4 && text.all isHexDigit

/-- How many 16-bit groups the pieces of an address stand for. -/
def inetGroups : List Bytes → Option Nat
  | [] => some 0
  | [last] => if isHexGroup last then some 1 else if inetPton4 last then some 2 else none
  | group :: rest => if isHexGroup group then (inetGroups rest).map (· + 1) else none

def inetGroupsBefore (text : Bytes) : Option Nat :=
  if text = [] then some 0
  else if (text.splitOn 58).all isHexGroup then some (text.splitOn 58).length
  else none

def inetGroupsAfter (text : Bytes) : Option Nat :=
  if text = [] then some 0 else inetGroups (text.splitOn 58)

/-- A `::` stands for at least one group of zeros. -/
def inetPton6 (text : Bytes) : Bool :=
  match strstr [58, 58] text with
  | none => inetGroups (text.splitOn 58) = some 8
  | some tail =>
      match inetGroupsBefore (text.take (text.length - tail.length)),
          inetGroupsAfter (tail.drop 2) with
      | some left, some right => left + right ≤ 7
      | _, _ => false

theorem length_intercalate (separator : UInt8) (parts : List Bytes) (h : parts ≠ []) :
    ([separator].intercalate parts).length + 1 = (parts.map (·.length + 1)).sum := by
  induction parts with
  | nil => contradiction
  | cons part rest ih =>
      cases rest with
      | nil => simp
      | cons next rest =>
          have hrest := ih (by simp)
          simp only [List.intercalate_cons_cons, List.length_append, List.length_singleton,
            List.map_cons, List.sum_cons] at hrest ⊢
          omega

theorem length_splitOn (separator : UInt8) (text : Bytes) :
    text.length + 1 = ((text.splitOn separator).map (·.length + 1)).sum := by
  rw [← length_intercalate separator _ (by simp), List.intercalate_splitOn]

theorem sum_length_le {parts : List Bytes} {p : Bytes → Bool} (bound : Nat)
    (hp : ∀ part, p part = true → part.length + 1 ≤ bound) (h : parts.all p = true) :
    (parts.map (·.length + 1)).sum ≤ bound * parts.length := by
  induction parts with
  | nil => simp
  | cons part rest ih =>
      simp only [List.all_cons, Bool.and_eq_true] at h
      have hpart := hp part h.1
      have hrest := ih h.2
      simp only [List.map_cons, List.sum_cons, List.length_cons, Nat.mul_succ]
      omega

theorem isHexGroup_length {part : Bytes} (h : isHexGroup part = true) : part.length + 1 ≤ 5 := by
  simp only [isHexGroup, Bool.and_eq_true, decide_eq_true_eq] at h
  omega

theorem inetPton4_length {text : Bytes} (h : inetPton4 text = true) : text.length ≤ 15 := by
  simp only [inetPton4, Bool.and_eq_true, decide_eq_true_eq] at h
  have hbound := sum_length_le 4 (fun part hpart => by
    simp only [isOctet, Bool.and_eq_true, decide_eq_true_eq] at hpart
    omega) h.2
  rw [← length_splitOn, h.1] at hbound
  omega

theorem inetGroups_length {parts : List Bytes} {count : Nat}
    (h : inetGroups parts = some count) : (parts.map (·.length + 1)).sum ≤ 5 * count + 6 := by
  induction parts generalizing count with
  | nil => simp
  | cons part rest ih =>
      cases rest with
      | nil =>
          simp only [inetGroups] at h
          split at h
          · rename_i hhex
            have := isHexGroup_length hhex
            cases Option.some.inj h
            simp only [List.map_cons, List.map_nil, List.sum_cons, List.sum_nil]
            omega
          · split at h
            · rename_i hquad
              have := inetPton4_length hquad
              cases Option.some.inj h
              simp only [List.map_cons, List.map_nil, List.sum_cons, List.sum_nil]
              omega
            · contradiction
      | cons next rest =>
          simp only [inetGroups] at h
          split at h
          · rename_i hhex
            obtain ⟨tail, htail, rfl⟩ := Option.map_eq_some_iff.mp h
            have hpart := isHexGroup_length hhex
            have hrest := ih htail
            rw [List.map_cons, List.sum_cons]
            omega
          · contradiction

theorem strstr_eq_some_length {needle text tail : Bytes} (h : strstr needle text = some tail) :
    tail.length ≤ text.length ∧ needle.length ≤ tail.length := by
  obtain ⟨front, rest, rfl, rfl⟩ := strstr_eq_some h
  simp only [List.length_append]
  omega

theorem inetGroupsBefore_length {text : Bytes} {count : Nat}
    (h : inetGroupsBefore text = some count) : text.length ≤ 5 * count := by
  unfold inetGroupsBefore at h
  split at h
  · rename_i hempty
    simp [hempty]
  · split at h
    · rename_i hall
      cases Option.some.inj h
      have := sum_length_le _ (fun _ => isHexGroup_length) hall
      rw [← length_splitOn] at this
      omega
    · contradiction

theorem inetGroupsAfter_length {text : Bytes} {count : Nat}
    (h : inetGroupsAfter text = some count) : text.length ≤ 5 * count + 5 := by
  unfold inetGroupsAfter at h
  split at h
  · rename_i hempty
    simp [hempty]
  · have := inetGroups_length h
    rw [← length_splitOn] at this
    omega

theorem inetPton6_length {text : Bytes} (h : inetPton6 text = true) : text.length ≤ 45 := by
  unfold inetPton6 at h
  split at h
  · have := inetGroups_length (of_decide_eq_true h)
    rw [← length_splitOn] at this
    omega
  · rename_i tail htail
    obtain ⟨htext, hneedle⟩ := strstr_eq_some_length htail
    split at h
    · rename_i left right hleft hright
      have hbefore := inetGroupsBefore_length hleft
      have hafter := inetGroupsAfter_length hright
      have hcount := of_decide_eq_true h
      simp only [List.length_take, List.length_drop, List.length_cons, List.length_nil] at *
      omega
    · contradiction

theorem mem_splitOn (separator : UInt8) {b : UInt8} {text : Bytes} (h : b ∈ text) :
    b = separator ∨ ∃ part ∈ text.splitOn separator, b ∈ part := by
  have hjoin : ∀ parts : List Bytes, b ∈ [separator].intercalate parts →
      b = separator ∨ ∃ part ∈ parts, b ∈ part := by
    intro parts hmem
    induction parts with
    | nil => simp at hmem
    | cons part rest ih =>
        cases rest with
        | nil => exact .inr ⟨part, by simp, by simpa using hmem⟩
        | cons next rest =>
            rw [List.intercalate_cons_cons, List.mem_append, List.mem_append] at hmem
            rcases hmem with (hmem | hmem) | hmem
            · exact .inr ⟨part, by simp, hmem⟩
            · exact .inl (by simpa using hmem)
            · rcases ih hmem with heq | ⟨found, hfound, hb⟩
              · exact .inl heq
              · exact .inr ⟨found, List.mem_cons_of_mem _ hfound, hb⟩
  exact hjoin _ (by rwa [List.intercalate_splitOn])

def isAddressByte (b : UInt8) : Bool := isHexDigit b || b = 46 || b = 58

theorem isDigit_of_octets {parts : List Bytes} (h : parts.all isOctet = true) {part : Bytes}
    (hpart : part ∈ parts) {b : UInt8} (hb : b ∈ part) : isDigit b = true := by
  have hoctet := List.all_eq_true.mp h part hpart
  simp only [isOctet, Bool.and_eq_true] at hoctet
  exact List.all_eq_true.mp hoctet.1.1.2 b hb

theorem inetPton4_bytes {text : Bytes} (h : inetPton4 text = true) {b : UInt8} (hb : b ∈ text) :
    isDigit b = true ∨ b = 46 := by
  simp only [inetPton4, Bool.and_eq_true] at h
  rcases mem_splitOn 46 hb with heq | ⟨part, hpart, hmem⟩
  · exact .inr heq
  · exact .inl (isDigit_of_octets h.2 hpart hmem)

theorem isAddressByte_of_inetPton4 {text : Bytes} (h : inetPton4 text = true) {b : UInt8}
    (hb : b ∈ text) : isAddressByte b = true := by
  rcases inetPton4_bytes h hb with hdigit | rfl
  · simp [isAddressByte, isHexDigit, hdigit]
  · decide

theorem isAddressByte_of_hexGroup {part : Bytes} (h : isHexGroup part = true) {b : UInt8}
    (hb : b ∈ part) : isAddressByte b = true := by
  simp only [isHexGroup, Bool.and_eq_true] at h
  simp [isAddressByte, List.all_eq_true.mp h.2 b hb]

theorem inetGroups_bytes {parts : List Bytes} {count : Nat} (h : inetGroups parts = some count)
    {part : Bytes} (hpart : part ∈ parts) {b : UInt8} (hb : b ∈ part) :
    isAddressByte b = true := by
  induction parts generalizing count with
  | nil => simp at hpart
  | cons first rest ih =>
      cases rest with
      | nil =>
          rw [List.mem_singleton] at hpart
          subst hpart
          simp only [inetGroups] at h
          split at h
          · rename_i hhex
            exact isAddressByte_of_hexGroup hhex hb
          · split at h
            · rename_i hquad
              exact isAddressByte_of_inetPton4 hquad hb
            · contradiction
      | cons next rest =>
          simp only [inetGroups] at h
          split at h
          · rename_i hhex
            obtain ⟨tail, htail, -⟩ := Option.map_eq_some_iff.mp h
            rcases List.mem_cons.mp hpart with rfl | hrest
            · exact isAddressByte_of_hexGroup hhex hb
            · exact ih htail hrest
          · contradiction

theorem inetGroupsBefore_bytes {text : Bytes} {count : Nat}
    (h : inetGroupsBefore text = some count) {b : UInt8} (hb : b ∈ text) :
    isAddressByte b = true := by
  unfold inetGroupsBefore at h
  split at h
  · rename_i hempty
    simp [hempty] at hb
  · split at h
    · rename_i hall
      rcases mem_splitOn 58 hb with rfl | ⟨part, hpart, hmem⟩
      · decide
      · exact isAddressByte_of_hexGroup (List.all_eq_true.mp hall part hpart) hmem
    · contradiction

theorem inetGroupsAfter_bytes {text : Bytes} {count : Nat}
    (h : inetGroupsAfter text = some count) {b : UInt8} (hb : b ∈ text) :
    isAddressByte b = true := by
  unfold inetGroupsAfter at h
  split at h
  · rename_i hempty
    simp [hempty] at hb
  · rcases mem_splitOn 58 hb with rfl | ⟨part, hpart, hmem⟩
    · decide
    · exact inetGroups_bytes h hpart hmem

theorem inetPton6_bytes {text : Bytes} (h : inetPton6 text = true) {b : UInt8} (hb : b ∈ text) :
    isAddressByte b = true := by
  unfold inetPton6 at h
  split at h
  · rcases mem_splitOn 58 hb with rfl | ⟨part, hpart, hmem⟩
    · decide
    · exact inetGroups_bytes (of_decide_eq_true h) hpart hmem
  · rename_i tail htail
    obtain ⟨front, rest, rfl, rfl⟩ := strstr_eq_some htail
    split at h
    · rename_i left right hleft hright
      have hfront : (front ++ ([58, 58] ++ rest)).take
          ((front ++ ([58, 58] ++ rest)).length - ([58, 58] ++ rest).length) = front := by simp
      rw [hfront] at hleft
      rcases List.mem_append.mp hb with hmem | hmem
      · exact inetGroupsBefore_bytes hleft hmem
      · rcases List.mem_append.mp hmem with hcolon | hafter
        · simp only [List.mem_cons, List.not_mem_nil, or_false, or_self] at hcolon
          rw [hcolon]
          decide
        · exact inetGroupsAfter_bytes hright hafter
    · contradiction

end LocalDrop.Lib
