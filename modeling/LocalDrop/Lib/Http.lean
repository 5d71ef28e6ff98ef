import LocalDrop.Lib.CString

/-! What a client of HTTP is given to work with: addresses of a host with a port and a path,
the host in brackets if it has colons in it, and header lines. The readers undo what the writers
do and nothing more, for runs in which nobody writes anything else. -/
namespace LocalDrop.Lib

structure HttpUrl where
  host : Bytes
  port : Nat
  path : Bytes
deriving DecidableEq

namespace HttpUrl

def scheme : Bytes := (CString.lit "http://").bytes

def text (url : HttpUrl) : Bytes :=
  scheme ++ ((if 58 ∈ url.host then 91 :: (url.host ++ [93]) else url.host) ++
    58 :: (decimal url.port ++ url.path))

/-- Slashes and lower-case letters only, which no client rewrites. -/
def isPlainPath (path : Bytes) : Bool :=
  path.head? = some 47 && path.all fun b => b = 47 || 97 ≤ b && b ≤ 122

def splitHost (authority : Bytes) : Option (Bytes × Bytes) :=
  if authority.head? = some 91 then
    (before 93 authority.tail).map fun host => (host, authority.tail.drop (host.length + 1))
  else (before 58 authority).map fun host => (host, authority.drop host.length)

def splitPort (text : Bytes) : Option (Nat × Bytes) :=
  let digits := text.tail.takeWhile isDigit
  if text.head? = some 58 ∧ digits ≠ [] then
    some (digitsValue digits, text.tail.dropWhile isDigit)
  else none

def read (text : Bytes) : Option HttpUrl :=
  if scheme.isPrefixOf text then
    (splitHost (text.drop scheme.length)).bind fun (host, rest) =>
      (splitPort rest).map fun (port, path) => ⟨host, port, path⟩
  else none

theorem splitHost_text {host : Bytes} (h : ∀ b ∈ host, b ≠ 91 ∧ b ≠ 93) (rest : Bytes) :
    splitHost ((if 58 ∈ host then 91 :: (host ++ [93]) else host) ++ 58 :: rest) =
      some (host, 58 :: rest) := by
  have hclose : (93 : UInt8) ∉ host := fun hmem => (h 93 hmem).2 rfl
  unfold splitHost
  split
  · simp [before_append 93 _ _ hclose]
  · rename_i hcolon
    have hopen : (host ++ 58 :: rest).head? ≠ some 91 := by
      cases host with
      | nil => simp
      | cons b host => simpa using (h b (by simp)).1
    rw [if_neg hopen, before_append 58 _ _ hcolon]
    simp

theorem splitPort_text (port : Nat) {path : Bytes} (h : path.head? = some 47) :
    splitPort (58 :: (decimal port ++ path)) = some (port, path) := by
  have hslash : ∀ b ∈ path.head?, isDigit b = false := by
    intro b hb
    rw [h] at hb
    cases hb
    decide
  have hdigits := takeWhile_isDigit_decimal port hslash
  have hrest : (decimal port ++ path).dropWhile isDigit = path := by
    have hsplit := List.takeWhile_append_dropWhile (p := isDigit) (l := decimal port ++ path)
    rw [hdigits] at hsplit
    exact List.append_cancel_left hsplit
  unfold splitPort
  dsimp only
  rw [List.tail_cons, hdigits, hrest, digitsValue_decimal, if_pos ⟨rfl, decimal_ne_nil port⟩]

/-- An address is taken apart into what it was put together from. -/
theorem read_text {url : HttpUrl} (hhost : ∀ b ∈ url.host, b ≠ 91 ∧ b ≠ 93)
    (hpath : url.path.head? = some 47) : read url.text = some url := by
  have hscheme : scheme.isPrefixOf url.text = true :=
    List.isPrefixOf_iff_prefix.mpr (List.prefix_append _ _)
  unfold read
  rw [if_pos hscheme, text, List.drop_left, splitHost_text hhost, Option.bind_some]
  dsimp only
  rw [splitPort_text _ hpath, Option.map_some]

end HttpUrl

def headerLine (name value : Bytes) : Bytes := name ++ 58 :: 32 :: value

/-- Visible characters, at least one: nothing that ends a line or is taken off its value. -/
def isHeaderText (value : Bytes) : Bool := value ≠ [] && value.all fun b => 33 ≤ b && b ≤ 126

def readHeader (name line : Bytes) : Option Bytes :=
  if name.isPrefixOf line ∧ (line.drop name.length).head? = some 58 then
    some ((line.drop (name.length + 1)).dropWhile fun b => b = 32)
  else none

theorem readHeader_headerLine (name : Bytes) {value : Bytes} (h : isHeaderText value = true) :
    readHeader name (headerLine name value) = some value := by
  unfold readHeader headerLine
  have htrim : value.dropWhile (fun b => b = 32) = value := by
    cases value with
    | nil => rfl
    | cons b value =>
        rw [List.dropWhile_cons_of_neg]
        simp only [isHeaderText, Bool.and_eq_true, List.all_cons, decide_eq_true_eq] at h
        rintro hblank
        rw [of_decide_eq_true hblank] at h
        exact absurd h.2.1.1 (by decide)
  simp [← List.drop_drop, htrim]

end LocalDrop.Lib
