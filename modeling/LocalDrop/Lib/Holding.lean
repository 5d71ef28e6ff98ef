import Mathlib.Logic.Function.Basic

/-! Resources that exist or not, and holders that each hold at most one. In a
sound ledger no resource has two holders and none exists without a holder. The
moves below are what a program may do to it: let go of resources it destroys,
create one, hand one over, or lose some behind the holders' backs. -/
namespace LocalDrop.Lib

variable {α ρ : Type}

structure Ledger (α ρ : Type) where
  present : ρ → Prop
  held : α → Option ρ

/-- `known` bounds what may be held: the resources created so far. -/
structure Ledger.Sound (known : ρ → Prop) (ledger : Ledger α ρ) : Prop where
  exclusive : ∀ a b x, ledger.held a = some x → ledger.held b = some x → a = b
  covered : ∀ x, ledger.present x → ∃ a, ledger.held a = some x
  known : ∀ a x, ledger.held a = some x → known x

/-- Some holders let go, each of a resource that is gone afterwards, and nothing
else goes. -/
structure Ledger.Drops (before after : Ledger α ρ) : Prop where
  held : ∀ a, after.held a = before.held a ∨ after.held a = none
  gone : ∀ a x, before.held a = some x → after.held a = none → ¬ after.present x
  old : ∀ x, after.present x → before.present x
  lost : ∀ x, before.present x → ¬ after.present x →
    ∃ a, before.held a = some x ∧ after.held a = none

structure Ledger.Creates (before after : Ledger α ρ) (a : α) (x : ρ) : Prop where
  free : before.held a = none
  self : after.held a = some x
  others : ∀ b, b ≠ a → after.held b = before.held b
  present : ∀ y, after.present y ↔ before.present y ∨ y = x

structure Ledger.HandsOver (before after : Ledger α ρ) (a b : α) (x : ρ) : Prop where
  was : before.held a = some x
  free : before.held b = none
  giver : after.held a = none
  taker : after.held b = some x
  others : ∀ c, c ≠ a → c ≠ b → after.held c = before.held c
  present : ∀ y, after.present y ↔ before.present y

structure Ledger.Expires (before after : Ledger α ρ) : Prop where
  held : after.held = before.held
  old : ∀ x, after.present x → before.present x

namespace Ledger
variable {known : ρ → Prop} {before after : Ledger α ρ} {a b : α} {x : ρ}

theorem Drops.held_of_held (h : before.Drops after) (ha : after.held a = some x) :
    before.held a = some x := by
  rcases h.held a with heq | hnone
  · rwa [← heq]
  · rw [hnone] at ha
    contradiction

theorem Drops.intro (hheld : ∀ a, after.held a = before.held a ∨ after.held a = none)
    (hpresent : ∀ x, after.present x ↔
      before.present x ∧ ∀ a, before.held a = some x → after.held a ≠ none) :
    before.Drops after where
  held := hheld
  gone a x ha hnone hx := ((hpresent x).mp hx).2 a ha hnone
  old x hx := ((hpresent x).mp hx).1
  lost x hx hgone := by
    by_contra hkeep
    exact hgone ((hpresent x).mpr ⟨hx, fun a ha hnone => hkeep ⟨a, ha, hnone⟩⟩)

theorem Drops.of_same (hheld : ∀ a, after.held a = before.held a)
    (hpresent : ∀ x, after.present x ↔ before.present x) : before.Drops after := by
  refine .intro (fun a => .inl (hheld a)) fun x => ?_
  rw [hpresent, iff_self_and]
  intro _ a ha
  rw [hheld, ha]
  simp

theorem Drops.trans {middle : Ledger α ρ} (h : before.Drops middle) (h' : middle.Drops after) :
    before.Drops after where
  held a := by
    rcases h'.held a with heq | hnone
    · rw [heq]
      exact h.held a
    · exact .inr hnone
  gone a x ha hnone hx := by
    rcases h.held a with heq | hmid
    · exact h'.gone a x (heq.trans ha) hnone hx
    · exact h.gone a x ha hmid (h'.old x hx)
  old x hx := h.old x (h'.old x hx)
  lost x hx hgone := by
    by_cases hmid : middle.present x
    · obtain ⟨a, ha, hnone⟩ := h'.lost x hmid hgone
      exact ⟨a, h.held_of_held ha, hnone⟩
    · obtain ⟨a, ha, hnone⟩ := h.lost x hx hmid
      refine ⟨a, ha, ?_⟩
      rcases h'.held a with heq | hnone'
      · exact heq.trans hnone
      · exact hnone'

theorem Sound.drops (hsound : before.Sound known) (h : before.Drops after) :
    after.Sound known where
  exclusive a b x ha hb := hsound.exclusive a b x (h.held_of_held ha) (h.held_of_held hb)
  covered x hx := by
    obtain ⟨a, ha⟩ := hsound.covered x (h.old x hx)
    rcases h.held a with heq | hnone
    · exact ⟨a, heq.trans ha⟩
    · exact absurd hx (h.gone a x ha hnone)
  known a x ha := hsound.known a x (h.held_of_held ha)

theorem Sound.creates {known' : ρ → Prop} (hsound : before.Sound known)
    (h : before.Creates after a x) (hfresh : ¬ known x) (hmono : ∀ y, known y → known' y)
    (hnew : known' x) : after.Sound known' where
  exclusive b c y hb hc := by
    by_cases hba : b = a <;> by_cases hca : c = a
    · rw [hba, hca]
    · rw [hba, h.self, Option.some.injEq] at hb
      rw [h.others c hca, ← hb] at hc
      exact absurd (hsound.known c x hc) hfresh
    · rw [hca, h.self, Option.some.injEq] at hc
      rw [h.others b hba, ← hc] at hb
      exact absurd (hsound.known b x hb) hfresh
    · rw [h.others b hba] at hb
      rw [h.others c hca] at hc
      exact hsound.exclusive b c y hb hc
  covered y hy := by
    rcases (h.present y).mp hy with hold | rfl
    · obtain ⟨b, hb⟩ := hsound.covered y hold
      have hba : b ≠ a := by
        rintro rfl
        rw [h.free] at hb
        contradiction
      exact ⟨b, (h.others b hba).trans hb⟩
    · exact ⟨a, h.self⟩
  known b y hb := by
    by_cases hba : b = a
    · rw [hba, h.self, Option.some.injEq] at hb
      exact hb ▸ hnew
    · rw [h.others b hba] at hb
      exact hmono y (hsound.known b y hb)

theorem Sound.handsOver (hsound : before.Sound known) (h : before.HandsOver after a b x) :
    after.Sound known := by
  have hback : ∀ c y, after.held c = some y →
      c = b ∧ y = x ∨ c ≠ a ∧ c ≠ b ∧ before.held c = some y := by
    intro c y hc
    by_cases hcb : c = b
    · rw [hcb, h.taker, Option.some.injEq] at hc
      exact .inl ⟨hcb, hc.symm⟩
    · have hca : c ≠ a := by
        rintro rfl
        rw [h.giver] at hc
        contradiction
      rw [h.others c hca hcb] at hc
      exact .inr ⟨hca, hcb, hc⟩
  refine ⟨?_, ?_, ?_⟩
  · intro c d y hc hd
    rcases hback c y hc with ⟨rfl, rfl⟩ | ⟨hca, -, hc⟩ <;>
      rcases hback d _ hd with ⟨rfl, hy⟩ | ⟨hda, -, hd⟩
    · rfl
    · exact absurd (hsound.exclusive d a _ hd h.was) hda
    · exact absurd (hsound.exclusive c a _ (hy ▸ hc) h.was) hca
    · exact hsound.exclusive c d y hc hd
  · intro y hy
    obtain ⟨c, hc⟩ := hsound.covered y ((h.present y).mp hy)
    by_cases hca : c = a
    · rw [hca, h.was, Option.some.injEq] at hc
      exact ⟨b, hc ▸ h.taker⟩
    · have hcb : c ≠ b := by
        rintro rfl
        rw [h.free] at hc
        contradiction
      exact ⟨c, (h.others c hca hcb).trans hc⟩
  · intro c y hc
    rcases hback c y hc with ⟨-, rfl⟩ | ⟨-, -, hc⟩
    · exact hsound.known a y h.was
    · exact hsound.known c y hc

theorem Sound.expires (hsound : before.Sound known) (h : before.Expires after) :
    after.Sound known where
  exclusive a b x ha hb := hsound.exclusive a b x (h.held ▸ ha) (h.held ▸ hb)
  covered x hx := h.held ▸ hsound.covered x (h.old x hx)
  known a x ha := hsound.known a x (h.held ▸ ha)

theorem Sound.weaken {known' : ρ → Prop} (hsound : before.Sound known)
    (hmono : ∀ y, known y → known' y) : before.Sound known' :=
  ⟨hsound.exclusive, hsound.covered, fun a x ha => hmono x (hsound.known a x ha)⟩

theorem Drops.present_of_held (hsound : before.Sound known) (h : before.Drops after)
    (ha : after.held a = some x) (hx : before.present x) : after.present x := by
  by_contra hgone
  obtain ⟨b, hb, hnone⟩ := h.lost x hx hgone
  have hab := hsound.exclusive a b x (h.held_of_held ha) hb
  rw [hab, hnone] at ha
  contradiction

end Ledger

end LocalDrop.Lib
