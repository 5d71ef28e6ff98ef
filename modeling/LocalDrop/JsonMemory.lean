import LocalDrop.JsonProducers
import LocalDrop.Lib.Memory

/-! `json_utils.c` on memory, with lengths and capacities of 64 bits. While these do not wrap,
a call does what the growing buffer of the producers does, and stores nothing outside its
block. -/
namespace LocalDrop.Machine
open Lib GrowingBuffer

/-- What `realloc` does in each call, counted from 0: it fails, or there is a block, and this is
what its new bytes hold. -/
abbrev Allocator := Nat → Option (Nat → UInt8)

def reallocated (block : Option Bytes) (size : UInt64) (fresh : Nat → UInt8) : Bytes :=
  (List.range size.toNat).map fun i => (block.getD [])[i]?.getD (fresh i)

/-- `*buffer`, `*length` and `*capacity`. `asked` is history: how often `realloc` was called. -/
structure JsonMemory where
  block : Option Bytes
  length : UInt64
  capacity : UInt64
  asked : Nat
deriving DecidableEq

def JsonMemory.null : JsonMemory := ⟨none, 0, 0, 0⟩

def startCapacity (capacity : UInt64) : UInt64 := if 0 < capacity then capacity else 256

/-- `while (new_capacity <= required_length) new_capacity *= 2`, as far as the fuel goes. -/
def doubled (required : UInt64) : Nat → UInt64 → Option UInt64
  | 0, _ => none
  | fuel + 1, capacity =>
      if capacity ≤ required then doubled required fuel (capacity * 2) else some capacity

/-- After 64 rounds the capacity is 0, and the loop goes on for ever. -/
def loopRounds : Nat := 65

/-- A call that does not end, or stores outside its block, has no result. -/
def ensureCapacity (alloc : Allocator) (memory : JsonMemory) (requiredLength : UInt64) :
    Option (JsonMemory × Bool) :=
  if memory.block.isSome ∧ requiredLength < memory.capacity then some (memory, true)
  else
    (doubled requiredLength loopRounds (startCapacity memory.capacity)).bind fun newCapacity =>
      match alloc memory.asked with
      | none => some ({ memory with asked := memory.asked + 1 }, false)
      | some fresh =>
          let newBuffer := reallocated memory.block newCapacity fresh
          (if memory.block.isNone then storeAt newBuffer 0 [0] else some newBuffer).map
            fun block =>
              ({ memory with
                  block := some block
                  capacity := newCapacity
                  asked := memory.asked + 1 }, true)

/-- `if (… != 0) return -1;` and what comes then. -/
def checked (called : Option (JsonMemory × Bool))
    (rest : JsonMemory → Option (JsonMemory × Bool)) : Option (JsonMemory × Bool) :=
  called.bind fun result => if result.2 then rest result.1 else some result

section calls
variable (alloc : Allocator)

def jsonBufferAppend (memory : JsonMemory) (text : Option CString) :
    Option (JsonMemory × Bool) :=
  match text with
  | none => some (memory, false)
  | some text =>
      let textLength := UInt64.ofNat text.length
      checked (ensureCapacity alloc memory (memory.length + textLength + 1)) fun memory =>
        memory.block.bind fun block =>
          (storeAt block memory.length.toNat text.bytes).bind fun block =>
            let length := memory.length + textLength
            (storeAt block length.toNat [0]).map fun block =>
              ({ memory with block := some block, length := length }, true)

def vsnprintf (size : UInt64) (formatted : Bytes) : Bytes :=
  if size = 0 then [] else formatted.take (size.toNat - 1) ++ [0]

/-- Given the formatted text; without one `vsnprintf` fails, or there is no format. It also
fails where the length of the text is not an `int`. -/
def jsonBufferAppendf (memory : JsonMemory) (formatted : Option Bytes) :
    Option (JsonMemory × Bool) :=
  match formatted with
  | none => some (memory, false)
  | some formatted =>
      if 2 ^ 31 ≤ formatted.length then some (memory, false)
      else
        let required := UInt64.ofNat formatted.length
        checked (ensureCapacity alloc memory (memory.length + required + 1)) fun memory =>
          memory.block.bind fun block =>
            (storeAt block memory.length.toNat
                (vsnprintf (memory.capacity - memory.length) formatted)).map fun block =>
              ({ memory with block := some block, length := memory.length + required }, true)

def appendEscapedByte (memory : JsonMemory) (cursor : UInt8) : Option (JsonMemory × Bool) :=
  if cursor = 92 then jsonBufferAppend alloc memory (some (.lit "\\\\"))
  else if cursor = 34 then jsonBufferAppend alloc memory (some (.lit "\\\""))
  else if cursor = 8 then jsonBufferAppend alloc memory (some (.lit "\\b"))
  else if cursor = 12 then jsonBufferAppend alloc memory (some (.lit "\\f"))
  else if cursor = 10 then jsonBufferAppend alloc memory (some (.lit "\\n"))
  else if cursor = 13 then jsonBufferAppend alloc memory (some (.lit "\\r"))
  else if cursor = 9 then jsonBufferAppend alloc memory (some (.lit "\\t"))
  else if cursor < 32 then
    jsonBufferAppendf alloc memory (some ((CString.lit "\\u").bytes ++
      [48, 48, hexDigit (cursor.toNat / 16), hexDigit cursor.toNat]))
  else jsonBufferAppend alloc memory (some (.ofBuffer [cursor, 0]))

def appendEscapedFrom : JsonMemory → Bytes → Option (JsonMemory × Bool)
  | memory, [] => some (memory, true)
  | memory, cursor :: rest =>
      checked (appendEscapedByte alloc memory cursor) fun memory => appendEscapedFrom memory rest

def jsonBufferAppendEscaped (memory : JsonMemory) (text : Option CString) :
    Option (JsonMemory × Bool) :=
  match text with
  | none => jsonBufferAppend alloc memory (some (.lit ""))
  | some text => appendEscapedFrom alloc memory text.bytes

end calls

theorem doubled_after {required capacity : UInt64} {rounds : Nat}
    (h : doubled required rounds capacity = none) :
    ∃ later : UInt64, later.toNat = capacity.toNat * 2 ^ rounds % 2 ^ 64 ∧
      ∀ more, doubled required (rounds + more) capacity = doubled required more later := by
  induction rounds generalizing capacity with
  | zero =>
      refine ⟨capacity, ?_, fun more => by rw [Nat.zero_add]⟩
      rw [pow_zero, Nat.mul_one, Nat.mod_eq_of_lt capacity.toNat_lt]
  | succ rounds ih =>
      rw [doubled] at h
      split at h
      · rename_i hsmall
        obtain ⟨later, hlater, hmore⟩ := ih h
        refine ⟨later, ?_, fun more => ?_⟩
        · have htwice : (capacity * 2).toNat = capacity.toNat * 2 % 2 ^ 64 :=
            UInt64.toNat_mul capacity 2
          rw [hlater, htwice, Nat.mod_mul_mod, Nat.mul_assoc, ← pow_succ']
        · rw [Nat.add_right_comm, doubled, if_pos hsmall, hmore]
      · contradiction

/-- The fuel is no limit: a loop that takes more does not end. -/
theorem doubled_endless {required capacity : UInt64}
    (h : doubled required loopRounds capacity = none) (more : Nat) :
    doubled required (loopRounds + more) capacity = none := by
  obtain ⟨later, hlater, hmore⟩ := doubled_after h
  have hzero : later = 0 := by
    rw [← UInt64.toNat_inj, hlater, loopRounds, pow_succ', Nat.mul_left_comm, ← Nat.mul_assoc,
      Nat.mul_mod_left]
    rfl
  have hends : ∀ more, doubled required more 0 = none := by
    intro more
    induction more with
    | zero => rfl
    | succ more ih =>
        rw [doubled, if_pos (UInt64.le_iff_toNat_le.mpr (Nat.zero_le _))]
        exact ih
  rw [hmore, hzero, hends]

theorem doubled_more {required capacity newCapacity : UInt64} {fuel : Nat}
    (h : doubled required fuel capacity = some newCapacity) (more : Nat) :
    doubled required (fuel + more) capacity = some newCapacity := by
  induction fuel generalizing capacity with
  | zero => contradiction
  | succ fuel ih =>
      rw [Nat.add_right_comm, doubled]
      rw [doubled] at h
      split
      · rename_i hsmall
        rw [if_pos hsmall] at h
        exact ih h
      · rename_i hlarge
        rw [if_neg hlarge] at h
        exact h

structure LoopEnds (required start : UInt64) (rounds : Nat) (newCapacity : UInt64) : Prop where
  goesOn : doubled required rounds start = none
  stops : doubled required (rounds + 1) start = some newCapacity
  unwrapped : newCapacity.toNat = start.toNat * 2 ^ rounds

/-- Below 2^63 the loop ends at a power of two, which is where a loop on numbers ends. -/
theorem loop_ends {required start : UInt64} {fuel k : Nat} (hrequired : required.toNat < 2 ^ 63)
    (hpower : start.toNat = 256 * 2 ^ k) (hfuel : 55 ≤ k + fuel) :
    ∃ rounds ≤ fuel, ∃ newCapacity, LoopEnds required start rounds newCapacity ∧
      required.toNat < newCapacity.toNat ∧
      newCapacity.toNat = enlarge required.toNat rounds start.toNat := by
  induction fuel generalizing start k with
  | zero =>
      have hlarge : 256 * 2 ^ 55 ≤ start.toNat := by
        rw [hpower]
        exact Nat.mul_le_mul_left _ (Nat.pow_le_pow_right (by omega) hfuel)
      have habove : required.toNat < start.toNat := by omega
      refine ⟨0, Nat.le_refl _, start, ⟨rfl, ?_, by simp⟩, habove, rfl⟩
      rw [doubled, if_neg]
      rw [UInt64.le_iff_toNat_le]
      omega
  | succ fuel ih =>
      by_cases hsmall : start ≤ required
      · have hle := UInt64.le_iff_toNat_le.mp hsmall
        have htwice : (start * 2).toNat = start.toNat * 2 := by
          have hwraps : (start * 2).toNat = start.toNat * 2 % 2 ^ 64 := UInt64.toNat_mul start 2
          rw [hwraps, Nat.mod_eq_of_lt (by omega)]
        have hnext : (start * 2).toNat = 256 * 2 ^ (k + 1) := by
          rw [htwice, hpower, pow_succ, Nat.mul_assoc]
        obtain ⟨rounds, hrounds, newCapacity, hends, habove, heq⟩ := ih hnext (by omega)
        refine ⟨rounds + 1, by omega, newCapacity, ⟨?_, ?_, ?_⟩, habove, ?_⟩
        · rw [doubled, if_pos hsmall]
          exact hends.goesOn
        · rw [doubled, if_pos hsmall]
          exact hends.stops
        · rw [hends.unwrapped, htwice, pow_succ', Nat.mul_assoc]
        · rw [heq, htwice, enlarge, if_pos hle, Nat.mul_comm 2]
      · have habove : required.toNat < start.toNat := by
          rw [UInt64.le_iff_toNat_le] at hsmall
          omega
        refine ⟨0, by omega, start, ⟨rfl, ?_, by simp⟩, habove, rfl⟩
        rw [doubled, if_neg hsmall]

/-- Nothing was allocated; or there is a block of the capacity, which has room for the text, a
NUL byte behind it and one more. -/
inductive JsonMemory.Sound (memory : JsonMemory) : Prop
  | null (block : memory.block = none) (length : memory.length = 0)
      (capacity : memory.capacity = 0)
  | allocated (bytes : Bytes) (k : Nat) (block : memory.block = some bytes)
      (size : bytes.length = memory.capacity.toNat)
      (power : memory.capacity.toNat = 256 * 2 ^ k)
      (room : memory.length.toNat + 1 < memory.capacity.toNat)
      (terminated : bytes[memory.length.toNat]? = some 0)

def JsonMemory.content (memory : JsonMemory) : Bytes :=
  (memory.block.getD []).take memory.length.toNat

def JsonMemory.buffer (memory : JsonMemory) : Allocating.JsonBuffer where
  text := memory.block.map fun bytes => bytes.take memory.length.toNat
  capacity := memory.capacity.toNat
  asked := memory.asked

def Allocator.succeeds (alloc : Allocator) (call : Nat) : Bool := (alloc call).isSome

/-- The memory is sound after the call, and what was done to it was done to the buffer. -/
def Refines (result : Option (JsonMemory × Bool)) (expected : Allocating.JsonBuffer × Bool) :
    Prop :=
  ∃ memory, result = some (memory, expected.2) ∧ memory.Sound ∧ memory.buffer = expected.1

section refines
variable {alloc : Allocator} {memory : JsonMemory} {bytes text : Bytes}

theorem content_buffer (memory : JsonMemory) : memory.buffer.content = memory.content := by
  unfold GrowingBuffer.content JsonMemory.buffer JsonMemory.content
  cases memory.block <;> simp

theorem JsonMemory.Sound.length_content (h : memory.Sound) :
    memory.content.length = memory.length.toNat := by
  unfold JsonMemory.content
  cases h with
  | null block length capacity =>
      rw [block, length]
      rfl
  | allocated bytes k block size power room terminated =>
      rw [block, Option.getD_some, List.length_take]
      omega

theorem JsonMemory.Sound.length_buffer (h : memory.Sound) :
    memory.buffer.content.length = memory.length.toNat := by
  rw [content_buffer, h.length_content]

theorem startCapacity_toNat (capacity : UInt64) :
    (startCapacity capacity).toNat = if 0 < capacity.toNat then capacity.toNat else 256 := by
  unfold startCapacity
  have hpos : 0 < capacity ↔ 0 < capacity.toNat := UInt64.lt_iff_toNat_lt
  by_cases h : 0 < capacity
  · rw [if_pos h, if_pos (hpos.mp h)]
  · rw [if_neg h, if_neg fun hlt => h (hpos.mpr hlt)]
    rfl

theorem JsonMemory.Sound.start (h : memory.Sound) :
    ∃ k, (startCapacity memory.capacity).toNat = 256 * 2 ^ k := by
  rw [startCapacity_toNat]
  cases h with
  | null block length capacity => exact ⟨0, by simp [capacity]⟩
  | allocated bytes k block size power room terminated =>
      rw [if_pos (by omega)]
      exact ⟨k, power⟩

theorem length_reallocated {block : Option Bytes} {size : UInt64} {fresh : Nat → UInt8} :
    (reallocated block size fresh).length = size.toNat := by
  rw [reallocated, List.length_map, List.length_range]

theorem reallocated_getElem {size : UInt64} {fresh : Nat → UInt8} {i : Nat}
    (hi : i < bytes.length) (hsize : bytes.length ≤ size.toNat) :
    (reallocated (some bytes) size fresh)[i]? = bytes[i]? := by
  rw [reallocated, List.getElem?_map, List.getElem?_range (by omega), Option.map_some,
    Option.getD_some, List.getElem?_eq_getElem hi, Option.getD_some]

theorem take_reallocated {size : UInt64} {fresh : Nat → UInt8} {n : Nat}
    (hn : n ≤ bytes.length) (hsize : bytes.length ≤ size.toNat) :
    (reallocated (some bytes) size fresh).take n = bytes.take n := by
  refine List.ext_getElem? fun i => ?_
  rw [List.getElem?_take, List.getElem?_take]
  split
  · exact reallocated_getElem (by omega) hsize
  · rfl

theorem JsonMemory.Sound.withAsked (h : memory.Sound) (asked : Nat) :
    JsonMemory.Sound { memory with asked := asked } := by
  cases h with
  | null block length capacity => exact .null block length capacity
  | allocated bytes k block size power room terminated =>
      exact .allocated bytes k block size power room terminated

theorem moved_sound (h : memory.Sound) {newCapacity : UInt64} {k : Nat} (fresh : Nat → UInt8)
    (asked : Nat) (hpower : newCapacity.toNat = 256 * 2 ^ k)
    (hmore : memory.capacity.toNat ≤ newCapacity.toNat) :
    ∃ block, (if memory.block.isNone then
        storeAt (reallocated memory.block newCapacity fresh) 0 [0]
      else some (reallocated memory.block newCapacity fresh)) = some block ∧
      JsonMemory.Sound { memory with
        block := some block, capacity := newCapacity, asked := asked } ∧
      block.take memory.length.toNat = memory.content := by
  have hpos : 0 < 2 ^ k := Nat.two_pow_pos k
  cases h with
  | null block length capacity =>
      have hinside : 0 + [(0 : UInt8)].length ≤ (reallocated none newCapacity fresh).length := by
        rw [length_reallocated, List.length_singleton]
        omega
      obtain ⟨stored, hstore⟩ : ∃ stored,
          storeAt (reallocated none newCapacity fresh) 0 [0] = some stored :=
        ⟨_, storeAt_of_le hinside⟩
      rw [block, Option.isNone_none, if_pos rfl]
      refine ⟨stored, hstore, ?_, ?_⟩
      · refine .allocated _ k rfl ((storeAt_length hstore).trans length_reallocated) hpower ?_ ?_
        · simp only [length, UInt64.toNat_zero]
          omega
        · rw [length]
          exact @storeAt_getElem _ _ _ [] [] 0 _ hstore
      · simp [JsonMemory.content, length]
  | allocated bytes old block size power room terminated =>
      have hkept : (reallocated (some bytes) newCapacity fresh)[memory.length.toNat]? =
          bytes[memory.length.toNat]? := reallocated_getElem (by omega) (by omega)
      rw [block, Option.isNone_some, if_neg (by simp)]
      refine ⟨_, rfl, ?_, ?_⟩
      · refine .allocated _ k rfl length_reallocated hpower ?_ (hkept.trans terminated)
        dsimp only
        omega
      · rw [take_reallocated (by omega) (by omega), JsonMemory.content, block, Option.getD_some]

theorem JsonMemory.Sound.newCapacity (h : memory.Sound) {required : UInt64}
    (hrequired : required.toNat < 2 ^ 63) :
    ∃ newCapacity k,
      doubled required loopRounds (startCapacity memory.capacity) = some newCapacity ∧
      newCapacity.toNat = 256 * 2 ^ k ∧ memory.capacity.toNat ≤ newCapacity.toNat ∧
      enlarge required.toNat (required.toNat + 1)
        (if 0 < memory.buffer.capacity then memory.buffer.capacity else 256) =
        newCapacity.toNat := by
  obtain ⟨k, hstart⟩ := h.start
  obtain ⟨rounds, hrounds, newCapacity, hends, habove, hloop⟩ :=
    @loop_ends required _ 64 k hrequired hstart (by omega)
  refine ⟨newCapacity, k + rounds, ?_, ?_, ?_, ?_⟩
  · have hmore := doubled_more hends.stops (64 - rounds)
    have hfuel : rounds + 1 + (64 - rounds) = loopRounds := by
      rw [loopRounds]
      omega
    rwa [hfuel] at hmore
  · rw [hends.unwrapped, hstart, pow_add, Nat.mul_assoc]
  · have hle := Nat.le_mul_of_pos_right (startCapacity memory.capacity).toNat
      (Nat.two_pow_pos rounds)
    rw [← hends.unwrapped, startCapacity_toNat] at hle
    split at hle
    · exact hle
    · omega
  · have hpos : 0 < (startCapacity memory.capacity).toNat := by
      have hpower := Nat.two_pow_pos k
      omega
    change enlarge required.toNat (required.toNat + 1)
      (if 0 < memory.capacity.toNat then memory.capacity.toNat else 256) = _
    rw [← startCapacity_toNat, hloop]
    exact enlarge_unique (enlarge_enough hpos) (hloop ▸ habove)

theorem ensure_refines (h : memory.Sound) {required : UInt64}
    (hrequired : required.toNat < 2 ^ 63) :
    Refines (ensureCapacity alloc memory required)
      (memory.buffer.ensure 256 alloc.succeeds required.toNat) := by
  have hroom : memory.block.isSome ∧ required < memory.capacity ↔
      memory.buffer.text.isSome ∧ required.toNat < memory.buffer.capacity := by
    rw [UInt64.lt_iff_toNat_lt]
    simp [JsonMemory.buffer]
  unfold ensureCapacity GrowingBuffer.ensure
  by_cases hfits : memory.block.isSome ∧ required < memory.capacity
  · rw [if_pos hfits, if_pos (hroom.mp hfits)]
    exact ⟨memory, rfl, h, rfl⟩
  · rw [if_neg hfits, if_neg fun hlt => hfits (hroom.mpr hlt)]
    obtain ⟨newCapacity, k, hdoubled, hpower, hmore, hcapacity⟩ := h.newCapacity hrequired
    rw [hdoubled, Option.bind_some]
    cases hcall : alloc memory.asked with
    | none =>
        have hfails : ¬ alloc.succeeds memory.buffer.asked = true := by
          simp [Allocator.succeeds, JsonMemory.buffer, hcall]
        rw [if_neg hfails]
        exact ⟨_, rfl, h.withAsked _, rfl⟩
    | some fresh =>
        have hsucceeds : alloc.succeeds memory.buffer.asked = true := by
          simp [Allocator.succeeds, JsonMemory.buffer, hcall]
        obtain ⟨block, hblock, hsound, htext⟩ :=
          moved_sound h fresh (memory.asked + 1) hpower hmore
        rw [if_pos hsucceeds, hcapacity]
        dsimp only
        rw [hblock, Option.map_some]
        refine ⟨_, rfl, hsound, ?_⟩
        rw [content_buffer, ← htext]
        rfl

theorem checked_refines {called : Option (JsonMemory × Bool)}
    {rest : JsonMemory → Option (JsonMemory × Bool)} {expected next : Allocating.JsonBuffer × Bool}
    (h : Refines called expected)
    (hrest : expected.2 = true → ∀ memory : JsonMemory, memory.Sound →
      memory.buffer = expected.1 → Refines (rest memory) next) :
    Refines (checked called rest) (if expected.2 then next else expected) := by
  obtain ⟨memory, rfl, hsound, hbuffer⟩ := h
  unfold checked
  rw [Option.bind_some]
  dsimp only
  split
  · rename_i hsucceeds
    exact hrest hsucceeds memory hsound hbuffer
  · exact ⟨memory, rfl, hsound, hbuffer⟩

theorem stored_refines (h : memory.Sound)
    (hroom : memory.length.toNat + text.length + 1 < memory.capacity.toNat) :
    ∃ bytes block, memory.block = some bytes ∧
      storeAt bytes memory.length.toNat (text ++ [0]) = some block ∧
      (memory.length + UInt64.ofNat text.length).toNat = memory.length.toNat + text.length ∧
      Refines (some ({ memory with
          block := some block, length := memory.length + UInt64.ofNat text.length }, true))
        ({ memory.buffer with text := some (memory.buffer.content ++ text) }, true) := by
  have hlength : (memory.length + UInt64.ofNat text.length).toNat =
      memory.length.toNat + text.length := by
    have hlt := memory.capacity.toNat_lt
    have hword : (UInt64.ofNat text.length).toNat = text.length := word_ofNat (by omega)
    rw [word_add (by omega), hword]
  cases h with
  | null block length capacity =>
      rw [capacity, UInt64.toNat_zero] at hroom
      contradiction
  | allocated bytes k block size power room terminated =>
      have hinside : memory.length.toNat + (text ++ [0]).length ≤ bytes.length := by
        rw [List.length_append, List.length_singleton]
        omega
      obtain ⟨stored, hstore⟩ : ∃ stored,
          storeAt bytes memory.length.toNat (text ++ [0]) = some stored :=
        ⟨_, storeAt_of_le hinside⟩
      refine ⟨bytes, stored, block, hstore, hlength, _, rfl, ?_, ?_⟩
      · refine .allocated _ k rfl ((storeAt_length hstore).trans size) power ?_ ?_
        · rw [hlength]
          exact hroom
        · rw [hlength]
          exact storeAt_getElem hstore
      · have hcontent : memory.buffer.content = bytes.take memory.length.toNat := by
          rw [content_buffer, JsonMemory.content, block, Option.getD_some]
        have htext := storeAt_take hstore
        rw [← hlength, ← hcontent] at htext
        rw [← htext]
        rfl

theorem appended_refines (h : memory.Sound)
    (hlength : memory.length.toNat + text.length + 1 < 2 ^ 63)
    {store : JsonMemory → Option (JsonMemory × Bool)}
    (hstore : ∀ (memory : JsonMemory) (bytes block : Bytes), memory.block = some bytes →
      memory.length.toNat + text.length + 1 < memory.capacity.toNat →
      storeAt bytes memory.length.toNat (text ++ [0]) = some block →
      (memory.length + UInt64.ofNat text.length).toNat = memory.length.toNat + text.length →
      store memory = some ({ memory with
        block := some block, length := memory.length + UInt64.ofNat text.length }, true)) :
    Refines
      (checked (ensureCapacity alloc memory (memory.length + UInt64.ofNat text.length + 1)) store)
      (memory.buffer.append 256 alloc.succeeds text) := by
  have hword : (UInt64.ofNat text.length).toNat = text.length := word_ofNat (by omega)
  have hsum : (memory.length + UInt64.ofNat text.length).toNat =
      memory.length.toNat + text.length := by
    rw [word_add (by omega), hword]
  have hrequired : (memory.length + UInt64.ofNat text.length + 1).toNat =
      memory.length.toNat + text.length + 1 := by
    rw [word_add (by rw [hsum, UInt64.toNat_one]; omega), hsum, UInt64.toNat_one]
  have hensured := @ensure_refines alloc memory h
    (memory.length + UInt64.ofNat text.length + 1) (by omega)
  rw [hrequired] at hensured
  unfold GrowingBuffer.append
  dsimp only
  rw [h.length_buffer]
  refine checked_refines hensured fun hsucceeds after hsound hbuffer => ?_
  have hkept : after.length.toNat = memory.length.toNat := by
    rw [← hsound.length_buffer, hbuffer, ensure_content, h.length_buffer]
  have hroom := ensure_room (by decide) hsucceeds
  rw [← hbuffer, ← hkept] at hroom
  obtain ⟨bytes, block, hblock, hstored, hlength', hrefines⟩ :=
    @stored_refines after text hsound hroom
  rw [hstore after bytes block hblock hroom hstored hlength', ← hbuffer]
  exact hrefines

theorem jsonBufferAppend_refines (h : memory.Sound) (text : CString)
    (hlength : memory.length.toNat + text.length + 1 < 2 ^ 63) :
    Refines (jsonBufferAppend alloc memory (some text))
      (Allocating.jsonBufferAppend alloc.succeeds memory.buffer text.bytes) := by
  unfold jsonBufferAppend
  apply appended_refines h hlength
  intro memory bytes block hblock _ hstored hsum
  -- The text and the NUL byte are stored one after the other.
  rw [← storeAt_append] at hstored
  obtain ⟨first, hfirst, hsecond⟩ := Option.bind_eq_some_iff.mp hstored
  change (memory.length + UInt64.ofNat text.length).toNat = _ at hsum
  rw [hblock, Option.bind_some, hfirst, Option.bind_some]
  dsimp only
  rw [hsum, hsecond, Option.map_some]
  rfl

theorem jsonBufferAppendf_refines (h : memory.Sound) {formatted : Bytes}
    (hint : formatted.length < 2 ^ 31)
    (hlength : memory.length.toNat + formatted.length + 1 < 2 ^ 63) :
    Refines (jsonBufferAppendf alloc memory (some formatted))
      (Allocating.jsonBufferAppend alloc.succeeds memory.buffer formatted) := by
  unfold jsonBufferAppendf
  dsimp only
  rw [if_neg (Nat.not_le.mpr hint)]
  apply appended_refines h hlength
  intro memory bytes block hblock hroom hstored _
  -- The whole text fits the size that `vsnprintf` is given.
  have hrest : (memory.capacity - memory.length).toNat =
      memory.capacity.toNat - memory.length.toNat := word_sub (by omega)
  have hne : memory.capacity - memory.length ≠ 0 := by
    intro hzero
    rw [hzero, UInt64.toNat_zero] at hrest
    omega
  have hwhole : vsnprintf (memory.capacity - memory.length) formatted = formatted ++ [0] := by
    rw [vsnprintf, if_neg hne, List.take_of_length_le (by omega)]
  rw [hblock, Option.bind_some, hwhole, hstored, Option.map_some]

theorem appendEscapedByte_cases {cursor : UInt8} (hcursor : cursor ≠ 0) :
    (∃ text : CString, text.bytes = jsonEscapeByte cursor ∧
      appendEscapedByte alloc memory cursor = jsonBufferAppend alloc memory (some text)) ∨
    (jsonEscapeByte cursor).length < 2 ^ 31 ∧
      appendEscapedByte alloc memory cursor =
        jsonBufferAppendf alloc memory (some (jsonEscapeByte cursor)) := by
  have hplain : (CString.ofBuffer [cursor, 0]).bytes = [cursor] := by
    simp [CString.ofBuffer, hcursor]
  have hunicode : (CString.lit "\\u").bytes = [92, 117] := by decide
  unfold jsonEscapeByte appendEscapedByte
  rw [hunicode]
  by_cases h92 : cursor = 92
  · rw [if_pos h92, if_pos h92]
    exact .inl ⟨.lit "\\\\", by decide, rfl⟩
  rw [if_neg h92, if_neg h92]
  by_cases h34 : cursor = 34
  · rw [if_pos h34, if_pos h34]
    exact .inl ⟨.lit "\\\"", by decide, rfl⟩
  rw [if_neg h34, if_neg h34]
  by_cases h8 : cursor = 8
  · rw [if_pos h8, if_pos h8]
    exact .inl ⟨.lit "\\b", by decide, rfl⟩
  rw [if_neg h8, if_neg h8]
  by_cases h12 : cursor = 12
  · rw [if_pos h12, if_pos h12]
    exact .inl ⟨.lit "\\f", by decide, rfl⟩
  rw [if_neg h12, if_neg h12]
  by_cases h10 : cursor = 10
  · rw [if_pos h10, if_pos h10]
    exact .inl ⟨.lit "\\n", by decide, rfl⟩
  rw [if_neg h10, if_neg h10]
  by_cases h13 : cursor = 13
  · rw [if_pos h13, if_pos h13]
    exact .inl ⟨.lit "\\r", by decide, rfl⟩
  rw [if_neg h13, if_neg h13]
  by_cases h9 : cursor = 9
  · rw [if_pos h9, if_pos h9]
    exact .inl ⟨.lit "\\t", by decide, rfl⟩
  rw [if_neg h9, if_neg h9]
  by_cases hcontrol : cursor < 32
  · rw [if_pos hcontrol, if_pos hcontrol]
    exact .inr ⟨by simp, rfl⟩
  · rw [if_neg hcontrol, if_neg hcontrol]
    exact .inl ⟨_, hplain, rfl⟩

theorem appendEscapedByte_refines (h : memory.Sound) {cursor : UInt8} (hcursor : cursor ≠ 0)
    (hlength : memory.length.toNat + (jsonEscapeByte cursor).length + 1 < 2 ^ 63) :
    Refines (appendEscapedByte alloc memory cursor)
      (Allocating.jsonBufferAppend alloc.succeeds memory.buffer (jsonEscapeByte cursor)) := by
  rcases @appendEscapedByte_cases alloc memory cursor hcursor with
    ⟨text, htext, hcall⟩ | ⟨hint, hcall⟩
  · rw [hcall, ← htext]
    rw [← htext] at hlength
    exact jsonBufferAppend_refines h text hlength
  · rw [hcall]
    exact jsonBufferAppendf_refines h hint hlength

theorem appendEscapedFrom_refines (h : memory.Sound) (hnul : 0 ∉ bytes)
    (hlength : memory.length.toNat + (bytes.flatMap jsonEscapeByte).length + 1 < 2 ^ 63) :
    Refines (appendEscapedFrom alloc memory bytes)
      (memory.buffer.appendAll 256 alloc.succeeds (bytes.map jsonEscapeByte)) := by
  induction bytes generalizing memory with
  | nil => exact ⟨memory, rfl, h, rfl⟩
  | cons cursor rest ih =>
      rw [List.flatMap_cons, List.length_append] at hlength
      rw [List.mem_cons, not_or] at hnul
      have hfirst := @appendEscapedByte_refines alloc memory h cursor (Ne.symm hnul.1) (by omega)
      rw [appendEscapedFrom, List.map_cons, GrowingBuffer.appendAll]
      refine checked_refines hfirst fun hsucceeds after hsound hbuffer => ?_
      rw [← hbuffer]
      apply ih hsound hnul.2
      have hkept : after.length.toNat = memory.length.toNat + (jsonEscapeByte cursor).length := by
        rw [← hsound.length_buffer, hbuffer, content, append_content hsucceeds, Option.getD_some,
          List.length_append, h.length_buffer]
      omega

theorem jsonBufferAppendEscaped_refines (h : memory.Sound) (text : CString)
    (hlength : memory.length.toNat + (jsonEscape text).length + 1 < 2 ^ 63) :
    Refines (jsonBufferAppendEscaped alloc memory (some text))
      (Allocating.jsonBufferAppendEscaped alloc.succeeds memory.buffer text) :=
  appendEscapedFrom_refines h text.nulFree hlength

end refines

inductive JsonCall where
  | append (text : Option CString)
  | appendf (formatted : Option Bytes)
  | appendEscaped (text : Option CString)
deriving DecidableEq

def jsonCall (alloc : Allocator) (memory : JsonMemory) : JsonCall → Option (JsonMemory × Bool)
  | .append text => jsonBufferAppend alloc memory text
  | .appendf formatted => jsonBufferAppendf alloc memory formatted
  | .appendEscaped text => jsonBufferAppendEscaped alloc memory text

def JsonCall.text : JsonCall → Bytes
  | append text => text.elim [] CString.bytes
  | appendf formatted => formatted.getD []
  | appendEscaped text => text.elim [] jsonEscape

inductive Adds : JsonCall → Bool → Bytes → Prop
  | succeeds (call : JsonCall) : Adds call true call.text
  | append (text : Option CString) : Adds (.append text) false []
  | appendf (formatted : Option Bytes) : Adds (.appendf formatted) false []
  | appendEscapedNull : Adds (.appendEscaped none) false []
  | appendEscaped (text : CString) (n : Nat) :
      Adds (.appendEscaped (some text)) false (jsonEscape (text.take n))

/-- Why a call has failed: `realloc` did, in one of the calls it was asked for, or there is no
text, or one too long for `vsnprintf`. -/
inductive Fails (alloc : Allocator) (memory after : JsonMemory) : JsonCall → Prop
  | refused (call : JsonCall) (n : Nat) (asked : memory.asked ≤ n ∧ n < after.asked)
      (refused : alloc n = none) : Fails alloc memory after call
  | appendNull : Fails alloc memory after (.append none)
  | appendfNull : Fails alloc memory after (.appendf none)
  | tooLong (formatted : Bytes) (long : 2 ^ 31 ≤ formatted.length) :
      Fails alloc memory after (.appendf (some formatted))

/-- From this memory on every call ends and stores nothing outside its block, and before and
after it the memory holds what was added so far. -/
inductive Assembles (alloc : Allocator) : JsonMemory → Bytes → List JsonCall → Prop
  | done (memory : JsonMemory) (text : Bytes) (sound : memory.Sound)
      (holds : memory.content = text) : Assembles alloc memory text []
  | call (memory after : JsonMemory) (text added : Bytes) (call : JsonCall)
      (calls : List JsonCall) (succeeded : Bool) (sound : memory.Sound)
      (holds : memory.content = text)
      (small : memory.length.toNat + call.text.length + 1 < 2 ^ 63)
      (result : jsonCall alloc memory call = some (after, succeeded))
      (adds : Adds call succeeded added) (fails : succeeded = false → Fails alloc memory after call)
      (rest : Assembles alloc after (text ++ added) calls) :
      Assembles alloc memory text (call :: calls)

section calls
variable {alloc : Allocator} {memory : JsonMemory}

theorem null_sound : JsonMemory.null.Sound := .null rfl rfl rfl

theorem Adds.length_le {call : JsonCall} {succeeded : Bool} {added : Bytes}
    (h : Adds call succeeded added) : added.length ≤ call.text.length := by
  cases h with
  | succeeds => exact Nat.le_refl _
  | append | appendf | appendEscapedNull => exact Nat.zero_le _
  | appendEscaped text n =>
      have hsplit : jsonEscape (text.take n) ++ (text.bytes.drop n).flatMap jsonEscapeByte =
          jsonEscape text := by
        rw [jsonEscape, jsonEscape, ← List.flatMap_append]
        exact congrArg (List.flatMap jsonEscapeByte) (List.take_append_drop n text.bytes)
      have hlength := congrArg List.length hsplit
      rw [List.length_append] at hlength
      exact Nat.le.intro hlength

theorem append_adds {call : JsonCall}
    (h : Refines (jsonCall alloc memory call)
      (Allocating.jsonBufferAppend alloc.succeeds memory.buffer call.text))
    (hfails : Adds call false []) :
    ∃ after succeeded added, jsonCall alloc memory call = some (after, succeeded) ∧
      Adds call succeeded added ∧ (succeeded = false → Fails alloc memory after call) ∧
      after.Sound ∧ after.content = memory.content ++ added := by
  obtain ⟨after, hresult, hsound, hbuffer⟩ := h
  unfold Allocating.jsonBufferAppend at hresult hbuffer
  cases hsucceeds : (memory.buffer.append 256 alloc.succeeds call.text).2 with
  | true =>
      rw [hsucceeds] at hresult
      refine ⟨after, true, _, hresult, .succeeds call, fun hfailed => by contradiction, hsound, ?_⟩
      rw [← content_buffer, ← content_buffer, hbuffer, content, append_content hsucceeds,
        Option.getD_some]
  | false =>
      rw [hsucceeds] at hresult
      obtain ⟨hrefused, hasked⟩ := append_fails hsucceeds
      rw [← hbuffer] at hasked
      have hnext : after.asked = memory.asked + 1 := hasked
      refine ⟨after, false, [], hresult, hfails, fun _ => ?_, hsound, ?_⟩
      · refine .refused call memory.asked (by omega) ?_
        simpa [Allocator.succeeds, JsonMemory.buffer] using hrefused
      rw [← content_buffer, ← content_buffer, hbuffer, append_failed hsucceeds, List.append_nil]

theorem appendEscaped_adds (h : memory.Sound) (text : CString)
    (hlength : memory.length.toNat + (jsonEscape text).length + 1 < 2 ^ 63) :
    ∃ after succeeded added,
      jsonCall alloc memory (.appendEscaped (some text)) = some (after, succeeded) ∧
      Adds (.appendEscaped (some text)) succeeded added ∧
      (succeeded = false → Fails alloc memory after (.appendEscaped (some text))) ∧ after.Sound ∧
      after.content = memory.content ++ added := by
  obtain ⟨after, hresult, hsound, hbuffer⟩ :=
    @jsonBufferAppendEscaped_refines alloc memory h text hlength
  unfold Allocating.jsonBufferAppendEscaped at hresult hbuffer
  cases hsucceeds : (memory.buffer.appendAll 256 alloc.succeeds
      (Allocating.escapedPieces text)).2 with
  | true =>
      rw [hsucceeds] at hresult
      refine ⟨after, true, _, hresult, .succeeds _, fun hfailed => by contradiction, hsound, ?_⟩
      rw [← content_buffer, ← content_buffer, hbuffer, appendAll_content hsucceeds,
        Allocating.flatten_escapedPieces]
      rfl
  | false =>
      rw [hsucceeds] at hresult
      obtain ⟨n, hpieces⟩ := @appendAll_some_pieces _ 256 alloc.succeeds memory.buffer
        (Allocating.escapedPieces text)
      obtain ⟨call, hle, hlt, hrefused⟩ := appendAll_fails hsucceeds
      rw [← hbuffer] at hlt
      refine ⟨after, false, _, hresult, .appendEscaped text n, fun _ => ?_, hsound, ?_⟩
      · exact .refused _ call ⟨hle, hlt⟩ (by simpa [Allocator.succeeds] using hrefused)
      rw [← content_buffer, ← content_buffer, hbuffer, hpieces, Allocating.escapedPieces,
        ← List.map_take]
      rfl

theorem jsonCall_adds (h : memory.Sound) (call : JsonCall)
    (hlength : memory.length.toNat + call.text.length + 1 < 2 ^ 63) :
    ∃ after succeeded added, jsonCall alloc memory call = some (after, succeeded) ∧
      Adds call succeeded added ∧ (succeeded = false → Fails alloc memory after call) ∧
      after.Sound ∧ after.content = memory.content ++ added := by
  have hsame : memory.content = memory.content ++ [] := (List.append_nil _).symm
  cases call with
  | append text =>
      cases text with
      | none => exact ⟨memory, false, [], rfl, .append none, fun _ => .appendNull, h, hsame⟩
      | some text =>
          exact append_adds (jsonBufferAppend_refines h text hlength) (.append (some text))
  | appendf formatted =>
      cases formatted with
      | none => exact ⟨memory, false, [], rfl, .appendf none, fun _ => .appendfNull, h, hsame⟩
      | some formatted =>
          by_cases hint : formatted.length < 2 ^ 31
          · exact append_adds (jsonBufferAppendf_refines h hint hlength)
              (.appendf (some formatted))
          · have hfails : jsonBufferAppendf alloc memory (some formatted) =
                some (memory, false) := if_pos (Nat.not_lt.mp hint)
            exact ⟨memory, false, [], hfails, .appendf (some formatted),
              fun _ => .tooLong formatted (Nat.not_lt.mp hint), h, hsame⟩
  | appendEscaped text =>
      cases text with
      | none => exact append_adds (jsonBufferAppend_refines h (.lit "") hlength) .appendEscapedNull
      | some text => exact appendEscaped_adds h text hlength

theorem assembles (h : memory.Sound) {calls : List JsonCall}
    (hlength : memory.length.toNat + (calls.map fun call => call.text.length).sum + 1 < 2 ^ 63) :
    Assembles alloc memory memory.content calls := by
  induction calls generalizing memory with
  | nil => exact .done memory _ h rfl
  | cons call calls ih =>
      rw [List.map_cons, List.sum_cons] at hlength
      have hsmall : memory.length.toNat + call.text.length + 1 < 2 ^ 63 := by omega
      obtain ⟨after, succeeded, added, hresult, hadds, hfails, hsound, hcontent⟩ :=
        @jsonCall_adds alloc memory h call hsmall
      refine .call memory after _ added call calls succeeded h rfl hsmall hresult hadds hfails ?_
      rw [← hcontent]
      apply ih hsound
      have hle := hadds.length_le
      have hafter := congrArg List.length hcontent
      rw [List.length_append, hsound.length_content, h.length_content] at hafter
      omega

/-- Whatever allocations fail, the calls assemble what they add, and the loop that looks for a
capacity ends before it wraps. -/
theorem jsonCalls_assemble (alloc : Allocator) (calls : List JsonCall)
    (htotal : (calls.map fun call => call.text.length).sum < 2 ^ 63 - 1) :
    Assembles alloc .null [] calls ∧
      ∀ (memory : JsonMemory) (required : UInt64), memory.Sound → required.toNat < 2 ^ 63 →
        ∃ rounds newCapacity,
          LoopEnds required (startCapacity memory.capacity) rounds newCapacity := by
  constructor
  · have hlength : JsonMemory.null.length.toNat +
        (calls.map fun call => call.text.length).sum + 1 < 2 ^ 63 := by
      change 0 + _ + 1 < 2 ^ 63
      omega
    exact assembles null_sound hlength
  · intro memory required hsound hrequired
    obtain ⟨k, hstart⟩ := hsound.start
    obtain ⟨rounds, -, newCapacity, hends, -⟩ :=
      @loop_ends required _ 64 k hrequired hstart (by omega)
    exact ⟨rounds, newCapacity, hends⟩

end calls

/-- The first allocation fails, and others bring back what was there. -/
def failingFirst : Allocator := fun call => if call = 0 then none else some fun _ => 170

def sampleJsonCalls : List JsonCall :=
  [.append (some (.lit "[")), .appendEscaped (some (.lit "a\"b")), .append none,
    .appendf (some (decimal 8080))]

theorem sampleJsonCalls_assemble : Assembles failingFirst .null [] sampleJsonCalls :=
  (jsonCalls_assemble failingFirst sampleJsonCalls (by decide)).1

end LocalDrop.Machine
