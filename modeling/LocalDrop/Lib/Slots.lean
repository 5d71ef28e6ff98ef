import Mathlib.Data.List.Basic
import Mathlib.Data.List.Pairwise

/-! Fixed tables of slots scanned from the front. `updateFirst` is the first-fit
write; `sweep` is the lookup loop that retires stale slots on its way and stops
at a hit. Both are described by where they split the slot list, and every other
fact about them is read off that splitting. -/
namespace LocalDrop.Lib

def updateFirst (p : α → Bool) (f : α → α) : List α → Option (List α)
  | [] => none
  | x :: rest => if p x then some (f x :: rest) else (updateFirst p f rest).map (x :: ·)

theorem updateFirst_eq_some {p : α → Bool} {f : α → α} {xs ys : List α}
    (h : updateFirst p f xs = some ys) :
    ∃ pre x post, xs = pre ++ x :: post ∧ (∀ z ∈ pre, p z = false) ∧ p x = true ∧
      ys = pre ++ f x :: post := by
  induction xs generalizing ys with
  | nil => simp [updateFirst] at h
  | cons x rest ih =>
      rw [updateFirst] at h
      split at h
      · rename_i hx
        cases Option.some.inj h
        exact ⟨[], x, rest, rfl, by simp, hx, rfl⟩
      · rename_i hx
        obtain ⟨tail, htail, rfl⟩ := Option.map_eq_some_iff.mp h
        obtain ⟨pre, y, post, rfl, hpre, hy, rfl⟩ := ih htail
        refine ⟨x :: pre, y, post, rfl, ?_, hy, rfl⟩
        intro z hz
        rcases List.mem_cons.mp hz with rfl | hz
        · simpa using hx
        · exact hpre z hz

theorem updateFirst_eq_none {p : α → Bool} {f : α → α} {xs : List α} :
    updateFirst p f xs = none ↔ ∀ x ∈ xs, p x = false := by
  induction xs with
  | nil => simp [updateFirst]
  | cons x rest ih =>
      rw [updateFirst]
      cases hx : p x <;> simp [hx, ih]

theorem updateFirst_length {p : α → Bool} {f : α → α} {xs ys : List α}
    (h : updateFirst p f xs = some ys) : ys.length = xs.length := by
  obtain ⟨pre, x, post, rfl, -, -, rfl⟩ := updateFirst_eq_some h
  simp

theorem mem_of_mem_updateFirst {p : α → Bool} {f : α → α} {xs ys : List α}
    (h : updateFirst p f xs = some ys) {y : α} (hy : y ∈ ys) :
    y ∈ xs ∨ ∃ x ∈ xs, p x = true ∧ y = f x := by
  obtain ⟨pre, x, post, rfl, -, hx, rfl⟩ := updateFirst_eq_some h
  rcases List.mem_append.mp hy with hy | hy
  · exact .inl (List.mem_append_left _ hy)
  · rcases List.mem_cons.mp hy with rfl | hy
    · exact .inr ⟨x, by simp, hx, rfl⟩
    · exact .inl (List.mem_append_right _ (List.mem_cons_of_mem _ hy))

theorem find?_updateFirst {p : α → Bool} {f : α → α} {xs ys : List α}
    (h : updateFirst p f xs = some ys) (hp : ∀ x, p (f x) = p x) :
    ys.find? p = (xs.find? p).map f := by
  obtain ⟨pre, x, post, rfl, hpre, hx, rfl⟩ := updateFirst_eq_some h
  have hnone : pre.find? p = none := by
    rw [List.find?_eq_none]
    simpa using hpre
  rw [List.find?_append, List.find?_append, hnone]
  simp [hp, hx]

/-- The scan of a lookup: each slot is first retired if stale, and the loop ends
at the first slot that then hits, which `f` may rewrite. Slots behind the hit
are not looked at. -/
def sweep (retire : α → α) (hit : α → Bool) (f : α → α) : List α → List α × Option α
  | [] => ([], none)
  | x :: rest =>
      if hit (retire x) then (f (retire x) :: rest, some (retire x))
      else
        let tail := sweep retire hit f rest
        (retire x :: tail.1, tail.2)

section sweep
variable {retire : α → α} {hit : α → Bool} {f : α → α} {xs : List α}

theorem sweep_of_miss (h : ∀ x ∈ xs, hit (retire x) = false) :
    sweep retire hit f xs = (xs.map retire, none) := by
  induction xs with
  | nil => rfl
  | cons x rest ih =>
      have hx := h x (by simp)
      rw [sweep, hx, ih fun y hy => h y (by simp [hy])]
      rfl

theorem sweep_of_hit (pre : List α) (x : α) (post : List α)
    (hpre : ∀ z ∈ pre, hit (retire z) = false) (hx : hit (retire x) = true) :
    sweep retire hit f (pre ++ x :: post) =
      (pre.map retire ++ f (retire x) :: post, some (retire x)) := by
  induction pre with
  | nil => simp [sweep, hx]
  | cons z pre ih =>
      have hz := hpre z (by simp)
      rw [List.cons_append, sweep, hz, ih fun y hy => hpre y (by simp [hy])]
      rfl

theorem sweep_cases (retire : α → α) (hit : α → Bool) (f : α → α) (xs : List α) :
    ((∀ x ∈ xs, hit (retire x) = false) ∧
      sweep retire hit f xs = (xs.map retire, none)) ∨
    ∃ pre x post, xs = pre ++ x :: post ∧ (∀ z ∈ pre, hit (retire z) = false) ∧
      hit (retire x) = true ∧
      sweep retire hit f xs = (pre.map retire ++ f (retire x) :: post, some (retire x)) := by
  by_cases h : ∀ x ∈ xs, hit (retire x) = false
  · exact .inl ⟨h, sweep_of_miss h⟩
  · have hfind : (xs.find? fun x => hit (retire x)).isSome := by
      rw [List.find?_isSome]
      simpa using h
    obtain ⟨x, hx⟩ := Option.isSome_iff_exists.mp hfind
    obtain ⟨hhit, pre, post, rfl, hpre⟩ := List.find?_eq_some_iff_append.mp hx
    have hmiss : ∀ z ∈ pre, hit (retire z) = false := by simpa using hpre
    exact .inr ⟨pre, x, post, rfl, hmiss, hhit, sweep_of_hit pre x post hmiss hhit⟩

theorem sweep_length : (sweep retire hit f xs).1.length = xs.length := by
  rcases sweep_cases retire hit f xs with ⟨-, h⟩ | ⟨pre, x, post, rfl, -, -, h⟩ <;> simp [h]

theorem sweep_eq_some {y : α} (h : (sweep retire hit f xs).2 = some y) :
    ∃ x ∈ xs, y = retire x ∧ hit y = true := by
  rcases sweep_cases retire hit f xs with ⟨-, hs⟩ | ⟨pre, x, post, rfl, -, hx, hs⟩
  · simp [hs] at h
  · rw [hs] at h
    cases Option.some.inj h
    exact ⟨x, by simp, rfl, hx⟩

theorem sweep_isSome_iff :
    (sweep retire hit f xs).2.isSome = true ↔ ∃ x ∈ xs, hit (retire x) = true := by
  rcases sweep_cases retire hit f xs with ⟨hmiss, hs⟩ | ⟨pre, x, post, rfl, -, hx, hs⟩
  · simpa [hs] using hmiss
  · simp only [hs, Option.isSome_some, true_iff]
    exact ⟨x, by simp, hx⟩

theorem mem_of_mem_sweep {y : α} (hy : y ∈ (sweep retire hit f xs).1) :
    ∃ x ∈ xs, y = x ∨ y = retire x ∨ (hit (retire x) = true ∧ y = f (retire x)) := by
  rcases sweep_cases retire hit f xs with ⟨-, hs⟩ | ⟨pre, x, post, rfl, -, hx, hs⟩
  · rw [hs] at hy
    obtain ⟨x, hx, rfl⟩ := List.mem_map.mp hy
    exact ⟨x, hx, .inr (.inl rfl)⟩
  · rw [hs] at hy
    rcases List.mem_append.mp hy with hy | hy
    · obtain ⟨z, hz, rfl⟩ := List.mem_map.mp hy
      exact ⟨z, List.mem_append_left _ hz, .inr (.inl rfl)⟩
    · rcases List.mem_cons.mp hy with rfl | hy
      · exact ⟨x, by simp, .inr (.inr ⟨hx, rfl⟩)⟩
      · exact ⟨y, List.mem_append_right _ (List.mem_cons_of_mem _ hy), .inl rfl⟩

theorem mem_sweep_of_mem {x : α} (hx : x ∈ xs) (hkeep : retire x = x)
    (hmiss : hit x = true → f x = x) : x ∈ (sweep retire hit f xs).1 := by
  rcases sweep_cases retire hit f xs with ⟨-, hs⟩ | ⟨pre, y, post, rfl, -, hy, hs⟩
  · rw [hs]
    exact List.mem_map.mpr ⟨x, hx, hkeep⟩
  · rw [hs]
    rcases List.mem_append.mp hx with hx | hx
    · exact List.mem_append_left _ (List.mem_map.mpr ⟨x, hx, hkeep⟩)
    · rcases List.mem_cons.mp hx with rfl | hx
      · rw [hkeep] at hy ⊢
        rw [hmiss hy]
        simp
      · exact List.mem_append_right _ (List.mem_cons_of_mem _ hx)

/-- A later scan does not see that an earlier one has retired slots. -/
theorem map_sweep {later : α → α} (h : ∀ x, later (retire x) = later x) :
    (sweep retire hit id xs).1.map later = xs.map later := by
  induction xs with
  | nil => rfl
  | cons x rest ih =>
      rw [sweep]
      split
      · simp [h]
      · simp [h, ih]

theorem sweep_congr {ys : List α} (h : xs.map retire = ys.map retire) :
    (sweep retire hit f xs).2 = (sweep retire hit f ys).2 := by
  induction xs generalizing ys with
  | nil =>
      rw [List.map_nil, eq_comm, List.map_eq_nil_iff] at h
      rw [h]
  | cons x rest ih =>
      cases ys with
      | nil => contradiction
      | cons y others =>
          obtain ⟨hxy, htail⟩ := List.cons.inj h
          rw [sweep, sweep, hxy]
          split
          · rfl
          · exact ih htail

end sweep

def Unique (live : α → Prop) (key : α → κ) (xs : List α) : Prop :=
  xs.Pairwise fun a b => live a → live b → key a ≠ key b

section unique
variable {live : α → Prop} {key : α → κ}

theorem Unique.eq_of_key {xs : List α} (h : Unique live key xs) {x y : α}
    (hx : x ∈ xs) (hy : y ∈ xs) (lx : live x) (ly : live y) (hk : key x = key y) : x = y := by
  induction xs with
  | nil => simp at hx
  | cons z rest ih =>
      obtain ⟨hz, hrest⟩ := List.pairwise_cons.mp h
      rcases List.mem_cons.mp hx with rfl | hxr
      · rcases List.mem_cons.mp hy with rfl | hyr
        · rfl
        · exact absurd hk (hz y hyr lx ly)
      · rcases List.mem_cons.mp hy with rfl | hyr
        · exact absurd hk.symm (hz x hxr ly lx)
        · exact ih hrest hxr hyr

theorem Unique.replace {pre post : List α} {x y : α} (h : Unique live key (pre ++ x :: post))
    (hy : live y → ∀ z, z ∈ pre ∨ z ∈ post → live z → key z ≠ key y) :
    Unique live key (pre ++ y :: post) := by
  unfold Unique at h ⊢
  rw [List.pairwise_append] at h ⊢
  obtain ⟨hpre, hpost, hcross⟩ := h
  rw [List.pairwise_cons] at hpost ⊢
  refine ⟨hpre, ⟨?_, hpost.2⟩, ?_⟩
  · intro z hz ly lz he
    exact hy ly z (.inr hz) lz he.symm
  · intro a ha b hb la lb
    rcases List.mem_cons.mp hb with rfl | hb
    · exact hy lb a (.inl ha) la
    · exact hcross a ha b (List.mem_cons_of_mem _ hb) la lb

theorem Unique.replace_same {pre post : List α} {x y : α}
    (h : Unique live key (pre ++ x :: post)) (hx : live x) (hk : key y = key x) :
    Unique live key (pre ++ y :: post) := by
  apply h.replace
  intro _ z hz lz
  rw [hk]
  unfold Unique at h
  rw [List.pairwise_append, List.pairwise_cons] at h
  rcases hz with hz | hz
  · exact h.2.2 z hz x (by simp) lz hx
  · exact fun he => h.2.1.1 z hz hx lz he.symm

theorem Unique.map {xs : List α} {g : α → α} (h : Unique live key xs)
    (hlive : ∀ x, live (g x) → live x) (hkey : ∀ x, key (g x) = key x) :
    Unique live key (xs.map g) := by
  unfold Unique at h ⊢
  rw [List.pairwise_map]
  refine h.imp ?_
  intro a b hab la lb
  rw [hkey, hkey]
  exact hab (hlive a la) (hlive b lb)

theorem Unique.map_append {pre post : List α} (h : Unique live key (pre ++ post)) {g : α → α}
    (hlive : ∀ x, live (g x) → live x) (hkey : ∀ x, key (g x) = key x) :
    Unique live key (pre.map g ++ post) := by
  unfold Unique at h ⊢
  rw [List.pairwise_append] at h ⊢
  refine ⟨Unique.map h.1 hlive hkey, h.2.1, ?_⟩
  intro a ha b hb la lb
  obtain ⟨z, hz, rfl⟩ := List.mem_map.mp ha
  rw [hkey]
  exact h.2.2 z hz b hb (hlive z la) lb

theorem Unique.sweep {retire : α → α} {hit : α → Bool} {f : α → α} {xs : List α}
    (h : Unique live key xs)
    (hlive : ∀ x, live (retire x) → live x) (hkey : ∀ x, key (retire x) = key x)
    (hhit : ∀ x, hit x = true → live x) (hf : ∀ x, key (f x) = key x) :
    Unique live key (sweep retire hit f xs).1 := by
  rcases sweep_cases retire hit f xs with ⟨-, hs⟩ | ⟨pre, x, post, rfl, -, hx, hs⟩
  · rw [hs]
    exact h.map hlive hkey
  · rw [hs]
    have hpre : Unique live key (pre.map retire ++ x :: post) :=
      h.map_append hlive hkey
    refine hpre.replace_same (hlive x (hhit _ hx)) ?_
    rw [hf, hkey]

end unique

@[ext] structure Table (n : Nat) (α : Type) where
  slots : List α
  size : slots.length = n
deriving DecidableEq

namespace Table

def replicate (n : Nat) (slot : α) : Table n α := ⟨List.replicate n slot, by simp⟩

def updateFirst (p : α → Bool) (f : α → α) (table : Table n α) : Option (Table n α) :=
  match h : Lib.updateFirst p f table.slots with
  | some slots => some ⟨slots, (updateFirst_length h).trans table.size⟩
  | none => none

def sweep (retire : α → α) (hit : α → Bool) (f : α → α) (table : Table n α) :
    Table n α × Option α :=
  (⟨(Lib.sweep retire hit f table.slots).1, sweep_length.trans table.size⟩,
    (Lib.sweep retire hit f table.slots).2)

theorem updateFirst_slots {p : α → Bool} {f : α → α} {table table' : Table n α}
    (h : table.updateFirst p f = some table') :
    Lib.updateFirst p f table.slots = some table'.slots := by
  unfold updateFirst at h
  split at h
  · rename_i slots hs
    cases Option.some.inj h
    exact hs
  · contradiction

theorem updateFirst_eq_none {p : α → Bool} {f : α → α} {table : Table n α} :
    table.updateFirst p f = none ↔ ∀ x ∈ table.slots, p x = false := by
  rw [← Lib.updateFirst_eq_none (f := f)]
  unfold updateFirst
  split
  · rename_i hs
    simp [hs]
  · rename_i hs
    simp [hs]

end Table

end LocalDrop.Lib
