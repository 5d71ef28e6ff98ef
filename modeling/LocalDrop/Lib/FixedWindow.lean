import Mathlib.Data.Set.Card

/-! Fixed windows. A key's window opens with a hit and counts hits until its length
has passed; only then can another one open. A map of windows with room for so many
keys says when a call is a hit; the hits of one key never crowd an interval. -/
namespace LocalDrop.Lib

structure Window where
  start : Int
  count : Nat
deriving DecidableEq

section map
variable {κ : Type}

def Window.current (length now : Int) (windows : κ → Option Window) : κ → Option Window :=
  fun key => (windows key).filter fun window => now < window.start + length

/-- A call at `now` on the windows that are open then. It is a hit when the key's window
has room for it, or when the key has none and fewer than `capacity` keys have one; a call
that is not a hit changes nothing. -/
noncomputable def Window.call [DecidableEq κ] (capacity : Nat) (windows : κ → Option Window)
    (key : κ) (limit : Nat) (now : Int) : (κ → Option Window) × Bool :=
  match windows key with
  | some window =>
      if window.count < limit then
        (Function.update windows key (some { window with count := window.count + 1 }), true)
      else (windows, false)
  | none =>
      if {other | windows other ≠ none}.ncard < capacity then
        (Function.update windows key (some ⟨now, 1⟩), true)
      else (windows, false)

noncomputable def Window.run [DecidableEq κ] (capacity : Nat) (length : Int) :
    (κ → Option Window) → List (κ × Nat × Int) → (κ → Option Window) × List Bool
  | windows, [] => (windows, [])
  | windows, (key, limit, now) :: rest =>
      let called := call capacity (current length now windows) key limit now
      let later := run capacity length called.1 rest
      (later.1, called.2 :: later.2)

theorem Window.current_current {length now later : Int} (h : now ≤ later)
    (windows : κ → Option Window) :
    current length later (current length now windows) = current length later windows := by
  funext key
  simp only [current, Option.filter_filter]
  congr 1
  funext window
  by_cases hlater : later < window.start + length
  · have hnow : now < window.start + length := by omega
    simp [hlater, hnow]
  · simp [hlater]

theorem Window.call_of_ne [DecidableEq κ] {capacity : Nat} {windows : κ → Option Window}
    {key caller : κ} {limit : Nat} {now : Int} (h : caller ≠ key) :
    (call capacity windows caller limit now).1 key = windows key := by
  unfold call
  split <;> split <;> simp [Function.update_of_ne h.symm]

end map

structure Hit where
  start : Int
  time : Int
deriving DecidableEq

/-- What the hits of one key look like, and the window that is open at `now`. -/
structure Paced (length : Int) (limit : Nat) (hits : List Hit) (window : Option Window)
    (now : Int) : Prop where
  inside : ∀ hit ∈ hits, hit.start ≤ hit.time ∧ hit.time < hit.start + length
  apart : ∀ a ∈ hits, ∀ b ∈ hits, a.start < b.start → a.start + length ≤ b.start
  limited : ∀ start, hits.countP (fun hit => hit.start = start) ≤ limit
  counted : ∀ w, window = some w → hits.countP (fun hit => hit.start = w.start) = w.count ∧
    w.start ≤ now ∧ now < w.start + length ∧
    ∀ hit ∈ hits, hit.start = w.start ∨ hit.start + length ≤ w.start
  closed : window = none → ∀ hit ∈ hits, hit.start + length ≤ now

section paced
variable {length : Int} {limit : Nat} {hits : List Hit} {window : Option Window} {now : Int}

theorem paced_nil (length : Int) (limit : Nat) (now : Int) : Paced length limit [] none now where
  inside := by simp
  apart := by simp
  limited := by simp
  counted := by simp
  closed := by simp

theorem Paced.later {later : Int} (h : Paced length limit hits window now) (hlater : now ≤ later) :
    Paced length limit hits (window.filter fun w => later < w.start + length) later where
  inside := h.inside
  apart := h.apart
  limited := h.limited
  counted w hw := by
    obtain ⟨hwindow, hopen⟩ := Option.filter_eq_some_iff.mp hw
    obtain ⟨hcount, hstart, -, hlast⟩ := h.counted w hwindow
    exact ⟨hcount, hstart.trans hlater, by simpa using hopen, hlast⟩
  closed hnone hit hmem := by
    cases hwindow : window with
    | none => exact (h.closed hwindow hit hmem).trans hlater
    | some w =>
        rw [hwindow] at hnone
        have hclosed : w.start + length ≤ later := by simpa [Option.filter] using hnone
        obtain ⟨-, hstart, -, hlast⟩ := h.counted w hwindow
        rcases hlast hit hmem with hsame | hbefore
        · rwa [hsame]
        · exact hbefore.trans (hstart.trans hlater)

theorem countP_start_append (start : Int) (hit : Hit) :
    (hits ++ [hit]).countP (fun other => other.start = start) =
      hits.countP (fun other => other.start = start) + if hit.start = start then 1 else 0 := by
  rw [List.countP_append, List.countP_singleton]
  simp

theorem Paced.count {w : Window} (h : Paced length limit hits (some w) now)
    (hroom : w.count < limit) :
    Paced length limit (hits ++ [⟨w.start, now⟩]) (some { w with count := w.count + 1 }) now := by
  obtain ⟨hcount, hstart, hopen, hlast⟩ := h.counted w rfl
  have hlast' : ∀ hit ∈ hits ++ [⟨w.start, now⟩],
      hit.start = w.start ∨ hit.start + length ≤ w.start := by
    intro hit hmem
    rcases List.mem_append.mp hmem with hold | hnew
    · exact hlast hit hold
    · rw [List.mem_singleton.mp hnew]
      exact .inl rfl
  refine ⟨?_, ?_, ?_, ?_, by simp⟩
  · intro hit hmem
    rcases List.mem_append.mp hmem with hold | hnew
    · exact h.inside hit hold
    · rw [List.mem_singleton.mp hnew]
      exact ⟨hstart, hopen⟩
  · intro a ha b hb hlt
    have hfirst := hlast' a ha
    have hsecond := hlast' b hb
    rcases List.mem_append.mp ha with ha | ha <;> rcases List.mem_append.mp hb with hb | hb
    · exact h.apart a ha b hb hlt
    · rw [List.mem_singleton.mp hb] at hlt ⊢
      dsimp only at hlt ⊢
      omega
    · rw [List.mem_singleton.mp ha] at hlt
      dsimp only at hlt
      omega
    · rw [List.mem_singleton.mp ha, List.mem_singleton.mp hb] at hlt
      exact absurd hlt (lt_irrefl _)
  · intro start
    rw [countP_start_append]
    split
    · rename_i heq
      dsimp only at heq
      rw [← heq, hcount]
      omega
    · exact h.limited start
  · rintro w' hw'
    cases hw'
    refine ⟨?_, hstart, hopen, hlast'⟩
    rw [countP_start_append, if_pos rfl, hcount]

theorem Paced.opens (h : Paced length limit hits none now) (hlength : 0 < length)
    (hlimit : 0 < limit) :
    Paced length limit (hits ++ [⟨now, now⟩]) (some ⟨now, 1⟩) now := by
  have hclosed := h.closed rfl
  have hnone : hits.countP (fun hit => hit.start = now) = 0 := by
    rw [List.countP_eq_zero]
    intro hit hmem
    have := hclosed hit hmem
    simp only [decide_eq_true_eq]
    omega
  have hlast : ∀ hit ∈ hits ++ [⟨now, now⟩], hit.start = now ∨ hit.start + length ≤ now := by
    intro hit hmem
    rcases List.mem_append.mp hmem with hold | hnew
    · exact .inr (hclosed hit hold)
    · rw [List.mem_singleton.mp hnew]
      exact .inl rfl
  refine ⟨?_, ?_, ?_, ?_, by simp⟩
  · intro hit hmem
    rcases List.mem_append.mp hmem with hold | hnew
    · exact h.inside hit hold
    · rw [List.mem_singleton.mp hnew]
      exact ⟨le_refl _, Int.lt_add_of_pos_right _ hlength⟩
  · intro a ha b hb hlt
    rcases hlast a ha with hsame | hbefore
    · have := hlast b hb
      omega
    · rcases List.mem_append.mp ha with ha' | ha' <;> rcases List.mem_append.mp hb with hb' | hb'
      · exact h.apart a ha' b hb' hlt
      · rw [List.mem_singleton.mp hb']
        exact hbefore
      · rw [List.mem_singleton.mp ha'] at hbefore
        dsimp only at hbefore
        omega
      · rw [List.mem_singleton.mp hb']
        exact hbefore
  · intro start
    rw [countP_start_append]
    split
    · rename_i heq
      dsimp only at heq
      rw [← heq, hnone]
      omega
    · exact h.limited start
  · rintro w' hw'
    cases hw'
    refine ⟨?_, le_refl _, Int.lt_add_of_pos_right _ hlength, hlast⟩
    rw [countP_start_append, if_pos rfl, hnone]

/-- An interval as long as a window meets at most two of them. -/
theorem Paced.two_starts (h : Paced length limit hits window now) {first : Int} {a b c : Hit}
    (ha : a ∈ hits) (hb : b ∈ hits) (hc : c ∈ hits)
    (ha' : first ≤ a.time ∧ a.time ≤ first + length)
    (hb' : first ≤ b.time ∧ b.time ≤ first + length)
    (hc' : first ≤ c.time ∧ c.time ≤ first + length) (hab : a.start ≠ b.start) :
    c.start = a.start ∨ c.start = b.start := by
  have hina := h.inside a ha
  have hinb := h.inside b hb
  have hinc := h.inside c hc
  have := h.apart a ha b hb
  have := h.apart b hb a ha
  have := h.apart a ha c hc
  have := h.apart c hc a ha
  have := h.apart b hb c hc
  have := h.apart c hc b hb
  omega

theorem Paced.interval (h : Paced length limit hits window now) (first : Int) :
    hits.countP (fun hit => first ≤ hit.time ∧ hit.time ≤ first + length) ≤ 2 * limit := by
  rw [List.countP_eq_length_filter]
  set near := hits.filter fun hit => first ≤ hit.time ∧ hit.time ≤ first + length with hnear
  have hmem : ∀ hit ∈ near, hit ∈ hits ∧ first ≤ hit.time ∧ hit.time ≤ first + length := by
    intro hit hhit
    rw [hnear, List.mem_filter, decide_eq_true_eq] at hhit
    exact hhit
  have hcount : ∀ start, near.countP (fun hit => hit.start = start) ≤ limit := fun start =>
    (List.Sublist.countP_le List.filter_sublist).trans (h.limited start)
  cases hempty : near with
  | nil => simp
  | cons a rest =>
      have ha : a ∈ near := by simp [hempty]
      rw [← hempty, List.length_eq_countP_add_countP (fun hit => hit.start = a.start), two_mul]
      refine Nat.add_le_add (hcount a.start) ?_
      by_cases hother : ∃ b ∈ near, b.start ≠ a.start
      · obtain ⟨b, hb, hab⟩ := hother
        refine (List.countP_mono_left fun c hc hne => ?_).trans (hcount b.start)
        have htwo := h.two_starts (hmem a ha).1 (hmem b hb).1 (hmem c hc).1 (hmem a ha).2
          (hmem b hb).2 (hmem c hc).2 hab.symm
        simpa [show c.start ≠ a.start by simpa using hne] using htwo
      · have hzero : near.countP (fun hit => decide ¬ decide (hit.start = a.start) = true) = 0 := by
          rw [List.countP_eq_zero]
          intro b hb hne
          exact hother ⟨b, hb, by simpa using hne⟩
        rw [hzero]
        exact Nat.zero_le _

def hitsOf {κ : Type} [DecidableEq κ] (key : κ) (called : (κ → Option Window) × Bool) (caller : κ)
    (now : Int) : List Hit :=
  if called.2 = true ∧ caller = key then
    (called.1 key).toList.map fun window => ⟨window.start, now⟩
  else []

theorem hitsOf_call_times {κ : Type} [DecidableEq κ] {capacity : Nat}
    {windows : κ → Option Window} {key caller : κ} {limit' : Nat} :
    (hitsOf key (Window.call capacity windows caller limit' now) caller now).map Hit.time =
      if (Window.call capacity windows caller limit' now).2 = true ∧ caller = key then [now]
      else [] := by
  unfold hitsOf
  split
  · rename_i hhit
    obtain ⟨hallowed, rfl⟩ := hhit
    unfold Window.call at hallowed ⊢
    cases hwindow : windows caller with
    | some window =>
        rw [hwindow] at hallowed
        by_cases hroom : window.count < limit'
        · simp [hroom]
        · simp [hroom] at hallowed
    | none =>
        rw [hwindow] at hallowed
        by_cases hroom : {other | windows other ≠ none}.ncard < capacity
        · simp [hroom]
        · simp [hroom] at hallowed
  · rfl

theorem Paced.call {κ : Type} [DecidableEq κ] {windows : κ → Option Window} {key : κ}
    (h : Paced length limit hits (windows key) now) (capacity : Nat) (caller : κ) (limit' : Nat)
    (hlength : 0 < length) (hlimit : 0 < limit') (hsame : caller = key → limit' = limit) :
    Paced length limit
      (hits ++ hitsOf key (Window.call capacity windows caller limit' now) caller now)
      ((Window.call capacity windows caller limit' now).1 key) now := by
  by_cases hcaller : caller = key
  · subst hcaller
    have heq := hsame rfl
    subst heq
    unfold hitsOf Window.call
    cases hwindow : windows caller with
    | some window =>
        rw [hwindow] at h
        by_cases hroom : window.count < limit'
        · simpa [hroom] using h.count hroom
        · simpa [hroom, hwindow] using h
    | none =>
        rw [hwindow] at h
        by_cases hroom : {other | windows other ≠ none}.ncard < capacity
        · simpa [hroom] using h.opens hlength hlimit
        · simpa [hroom, hwindow] using h
  · rw [hitsOf, if_neg (fun hboth => hcaller hboth.2), List.append_nil, Window.call_of_ne hcaller]
    exact h

end paced

end LocalDrop.Lib
