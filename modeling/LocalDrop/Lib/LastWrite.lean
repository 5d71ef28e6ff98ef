import Mathlib.Data.List.Basic

/-! The last write to each key in a list of writes, oldest first. -/
namespace LocalDrop.Lib

variable {κ ω : Type} [DecidableEq κ] {key : ω → κ}

def lastWrite (key : ω → κ) (writes : List ω) (k : κ) : Option ω :=
  writes.reverse.find? fun write => key write = k

@[simp] theorem lastWrite_nil (k : κ) : lastWrite key [] k = none := rfl

theorem lastWrite_concat (writes : List ω) (write : ω) (k : κ) :
    lastWrite key (writes ++ [write]) k =
      if key write = k then some write else lastWrite key writes k := by
  unfold lastWrite
  rw [List.reverse_append, List.reverse_singleton, List.singleton_append, List.find?_cons]
  by_cases h : key write = k <;> simp [h]

@[simp] theorem lastWrite_concat_self (writes : List ω) (write : ω) :
    lastWrite key (writes ++ [write]) (key write) = some write := by
  rw [lastWrite_concat, if_pos rfl]

theorem lastWrite_concat_of_ne {writes : List ω} {write : ω} {k : κ} (h : key write ≠ k) :
    lastWrite key (writes ++ [write]) k = lastWrite key writes k := by
  rw [lastWrite_concat, if_neg h]

theorem lastWrite_cons (write : ω) (writes : List ω) (k : κ) :
    lastWrite key (write :: writes) k =
      (lastWrite key writes k).or (if key write = k then some write else none) := by
  unfold lastWrite
  rw [List.reverse_cons, List.find?_append]
  by_cases h : key write = k <;> simp [h]

theorem key_of_lastWrite {writes : List ω} {k : κ} {write : ω}
    (h : lastWrite key writes k = some write) : key write = k := by
  simpa using List.find?_some h

theorem lastWrite_eq_none {writes : List ω} {k : κ} :
    lastWrite key writes k = none ↔ ∀ write ∈ writes, key write ≠ k := by
  simp [lastWrite]

def keysInOrder (key : ω → κ) (writes : List ω) : List κ := (writes.map key).eraseDups

theorem mem_keysInOrder {writes : List ω} {k : κ} :
    k ∈ keysInOrder key writes ↔ ∃ write ∈ writes, key write = k := by
  rw [keysInOrder, List.mem_eraseDups, List.mem_map]

theorem keysInOrder_concat_of_mem {writes : List ω} {write : ω}
    (h : key write ∈ keysInOrder key writes) :
    keysInOrder key (writes ++ [write]) = keysInOrder key writes := by
  have hmem := mem_keysInOrder.mp h
  unfold keysInOrder
  rw [List.map_append, List.eraseDups_append]
  simp [List.removeAll, hmem]

theorem keysInOrder_concat_of_notMem {writes : List ω} {write : ω}
    (h : key write ∉ keysInOrder key writes) :
    keysInOrder key (writes ++ [write]) = keysInOrder key writes ++ [key write] := by
  have hmem := mt mem_keysInOrder.mpr h
  unfold keysInOrder
  rw [List.map_append, List.eraseDups_append]
  simp [List.removeAll, hmem, List.eraseDups_cons]

theorem keysInOrder_append (writes more : List ω) :
    keysInOrder key writes <+: keysInOrder key (writes ++ more) := by
  unfold keysInOrder
  rw [List.map_append, List.eraseDups_append]
  exact List.prefix_append _ _

end LocalDrop.Lib
