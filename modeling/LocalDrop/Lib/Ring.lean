import Mathlib.Data.List.Basic
import Mathlib.Data.Nat.ModEq
import Mathlib.Logic.Function.Basic

/-! A ring buffer of `n` cells read as a list: `count` cells from `head` on,
wrapping around. Writing behind the last cell appends; advancing the head drops
the first. -/
namespace LocalDrop.Lib

variable {α : Type} {n : Nat} [NeZero n]

def ringList (cells : Fin n → α) : Nat → Nat → List α
  | _, 0 => []
  | head, count + 1 => cells (Fin.ofNat n head) :: ringList cells (head + 1) count

@[simp] theorem ringList_length (cells : Fin n → α) (head count : Nat) :
    (ringList cells head count).length = count := by
  induction count generalizing head with
  | zero => rfl
  | succ count ih => simp [ringList, ih]

theorem ringList_mod (cells : Fin n → α) (head count : Nat) :
    ringList cells (head % n) count = ringList cells head count := by
  induction count generalizing head with
  | zero => rfl
  | succ count ih =>
      have hcell : Fin.ofNat n (head % n) = Fin.ofNat n head := by
        apply Fin.ext
        simp
      rw [ringList, ringList, hcell, ← ih (head % n + 1), ← ih (head + 1), Nat.mod_add_mod]

theorem ringList_push (cells : Fin n → α) (x : α) (head count : Nat) (h : count < n) :
    ringList (Function.update cells (Fin.ofNat n (head + count)) x) head (count + 1) =
      ringList cells head count ++ [x] := by
  induction count generalizing head with
  | zero => simp [ringList]
  | succ count ih =>
      have hne : Fin.ofNat n head ≠ Fin.ofNat n (head + (count + 1)) := by
        intro he
        have hv : head % n = (head + (count + 1)) % n := congrArg Fin.val he
        have hzero : 0 ≡ count + 1 [MOD n] := Nat.ModEq.add_left_cancel' head hv
        rw [Nat.ModEq, Nat.zero_mod, Nat.mod_eq_of_lt h] at hzero
        omega
      rw [ringList, Function.update_of_ne hne, show head + (count + 1) = head + 1 + count by omega,
        ih (head + 1) (by omega)]
      rfl

theorem ringList_pop (cells : Fin n → α) (head count : Nat) (h : 0 < count) :
    ringList cells head count =
      cells (Fin.ofNat n head) :: ringList cells ((head + 1) % n) (count - 1) := by
  obtain ⟨rest, rfl⟩ : ∃ rest, count = rest + 1 := ⟨count - 1, by omega⟩
  rw [ringList_mod]
  rfl

end LocalDrop.Lib
