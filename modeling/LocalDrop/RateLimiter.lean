import LocalDrop.Auth.RateLimit

/-! Histories of calls of `auth_rate_limit_allow` with one window length, as the server
makes them: the table against the map of windows, and what one client can notice of the
others. -/
namespace LocalDrop
open Lib

structure RateCall where
  clientIp : CString
  scope : CString
  limit : Nat
  now : Time
deriving DecidableEq

def RateCall.key (call : RateCall) : CString × CString := (call.clientIp, call.scope)

/-- Client and scope fit the arrays of a record, and something is allowed. -/
def RateCall.Legal (call : RateCall) : Prop :=
  call.clientIp.length < 46 ∧ call.scope.length < 32 ∧ 1 ≤ call.limit

instance (call : RateCall) : Decidable call.Legal := inferInstanceAs (Decidable (_ ∧ _))

def rateLimitCall (length : Time) (auth : Auth) (call : RateCall) : Auth × RateVerdict :=
  authRateLimitAllow auth call.clientIp call.scope call.limit length call.now

def rateLimitRun (length : Time) : Auth → List RateCall → Auth × List RateVerdict
  | auth, [] => (auth, [])
  | auth, call :: rest =>
      let called := rateLimitCall length auth call
      let later := rateLimitRun length called.1 rest
      (later.1, called.2 :: later.2)

/-- The calls a key was allowed, each with the start of the window that counted it. -/
def rateHits (length : Time) (key : CString × CString) : Auth → List RateCall → List Hit
  | _, [] => []
  | auth, call :: rest =>
      let called := rateLimitCall length auth call
      hitsOf key (rateWindows length call.now called.1.rateLimits,
        decide (called.2 = .allowed)) call.key call.now ++ rateHits length key called.1 rest

def RateCall.onMap (call : RateCall) : (CString × CString) × Nat × Time :=
  (call.key, call.limit, call.now)

section histories
variable {length : Time} {auth : Auth} {calls : List RateCall}

theorem rateLimitCall_refines {call : RateCall} (hlength : 0 < length) (hlegal : call.Legal)
    (hunique : UniqueKeys auth.rateLimits) :
    UniqueKeys (rateLimitCall length auth call).1.rateLimits ∧
      rateWindows length call.now (rateLimitCall length auth call).1.rateLimits =
        (Window.call maxRateLimits (rateWindows length call.now auth.rateLimits) call.key
          call.limit call.now).1 ∧
      decide ((rateLimitCall length auth call).2 = .allowed) =
        (Window.call maxRateLimits (rateWindows length call.now auth.rateLimits) call.key
          call.limit call.now).2 := by
  obtain ⟨hunique', hcall⟩ := @authRateLimitAllow_refines auth call.clientIp call.scope call.limit
    length call.now hlegal.1 hlegal.2.1 hlegal.2.2 hlength hunique
  exact ⟨hunique', congrArg Prod.fst hcall, congrArg Prod.snd hcall⟩

theorem exists_since (hclock : calls.Pairwise fun a b => a.now ≤ b.now) :
    ∃ since, ∀ call ∈ calls, since ≤ call.now := by
  cases calls with
  | nil => exact ⟨0, by simp⟩
  | cons call rest =>
      refine ⟨call.now, fun other hother => ?_⟩
      rcases List.mem_cons.mp hother with rfl | hmem
      · exact le_refl _
      · exact (List.pairwise_cons.mp hclock).1 other hmem

theorem rateLimitRun_refines (hlength : 0 < length) (hlegal : ∀ call ∈ calls, call.Legal)
    (hclock : calls.Pairwise fun a b => a.now ≤ b.now) (hunique : UniqueKeys auth.rateLimits)
    {windows : CString × CString → Option Window} {since : Time}
    (hsince : ∀ call ∈ calls, since ≤ call.now)
    (hwindows : ∀ now, since ≤ now →
      rateWindows length now auth.rateLimits = Window.current length now windows) :
    UniqueKeys (rateLimitRun length auth calls).1.rateLimits ∧
      (rateLimitRun length auth calls).2.map (fun verdict => decide (verdict = .allowed)) =
        (Window.run maxRateLimits length windows (calls.map RateCall.onMap)).2 ∧
      ∀ now, since ≤ now → (∀ call ∈ calls, call.now ≤ now) →
        rateWindows length now (rateLimitRun length auth calls).1.rateLimits =
          Window.current length now
            (Window.run maxRateLimits length windows (calls.map RateCall.onMap)).1 := by
  induction calls generalizing auth windows since with
  | nil => exact ⟨hunique, rfl, fun now hnow _ => hwindows now hnow⟩
  | cons call rest ih =>
      obtain ⟨hfirst, hrest⟩ := List.pairwise_cons.mp hclock
      obtain ⟨hunique', hmap, hverdict⟩ :=
        rateLimitCall_refines hlength (hlegal call (by simp)) hunique
      rw [hwindows call.now (hsince call (by simp))] at hmap hverdict
      have hcurrent : ∀ now, call.now ≤ now →
          rateWindows length now (rateLimitCall length auth call).1.rateLimits =
            Window.current length now (Window.call maxRateLimits
              (Window.current length call.now windows) call.key call.limit call.now).1 := by
        intro now hnow
        rw [rateWindows_later hunique' hnow, hmap]
      have hlater := ih (fun other hother => hlegal other (by simp [hother])) hrest hunique'
        hfirst hcurrent
      refine ⟨hlater.1, ?_, ?_⟩
      · simp only [rateLimitRun, List.map_cons, RateCall.onMap, Window.run]
        exact congrArg₂ List.cons hverdict hlater.2.1
      · intro now _ hnow
        exact hlater.2.2 now (hnow call (by simp)) fun other hother => hnow other (by simp [hother])

theorem rateHits_paced (hlength : 0 < length) (hlegal : ∀ call ∈ calls, call.Legal)
    (hclock : calls.Pairwise fun a b => a.now ≤ b.now) (hunique : UniqueKeys auth.rateLimits)
    {key : CString × CString} {limit : Nat}
    (hlimit : ∀ call ∈ calls, call.key = key → call.limit = limit) {since : Time}
    (hsince : ∀ call ∈ calls, since ≤ call.now) {hits : List Hit}
    (h : Paced length limit hits (rateWindows length since auth.rateLimits key) since) :
    ∃ window now, Paced length limit (hits ++ rateHits length key auth calls) window now := by
  induction calls generalizing auth since hits with
  | nil => exact ⟨_, _, by simpa [rateHits] using h⟩
  | cons call rest ih =>
      obtain ⟨hfirst, hrest⟩ := List.pairwise_cons.mp hclock
      obtain ⟨hunique', hmap, hverdict⟩ :=
        rateLimitCall_refines hlength (hlegal call (by simp)) hunique
      have hsince' := hsince call (by simp)
      have hopen := h.later hsince'
      have hcurrent : (rateWindows length since auth.rateLimits key).filter
          (fun w => call.now < w.start + length) =
          rateWindows length call.now auth.rateLimits key := by
        rw [rateWindows_later hunique hsince']
        rfl
      rw [hcurrent] at hopen
      have hstep := hopen.call maxRateLimits call.key call.limit hlength
        (hlegal call (by simp)).2.2 (hlimit call (by simp))
      rw [← Prod.mk.eta (p := Window.call maxRateLimits
        (rateWindows length call.now auth.rateLimits) call.key call.limit call.now),
        ← hmap, ← hverdict] at hstep
      obtain ⟨window, now, hlater⟩ := ih (fun other hother => hlegal other (by simp [hother])) hrest
        hunique' (fun other hother => hlimit other (by simp [hother])) hfirst hstep
      refine ⟨window, now, ?_⟩
      rw [List.append_assoc] at hlater
      exact hlater

end histories

/-- From the empty table on, every history of calls with one window length is one of
calls on a map of windows with room for 64 keys; so no window of a key takes more than
its limit, and no interval as long as a window more than twice that. -/
theorem rateLimits_refine_windows {auth : Auth}
    (hauth : auth.rateLimits = .replicate maxRateLimits default) {length : Time}
    (hlength : 0 < length) {calls : List RateCall} (hlegal : ∀ call ∈ calls, call.Legal)
    (hclock : calls.Pairwise fun a b => a.now ≤ b.now) :
    UniqueKeys (rateLimitRun length auth calls).1.rateLimits ∧
    (rateLimitRun length auth calls).2.map (fun verdict => decide (verdict = .allowed)) =
      (Window.run maxRateLimits length (fun _ => none) (calls.map RateCall.onMap)).2 ∧
    (∀ now, (∀ call ∈ calls, call.now ≤ now) →
      rateWindows length now (rateLimitRun length auth calls).1.rateLimits =
        Window.current length now
          (Window.run maxRateLimits length (fun _ => none) (calls.map RateCall.onMap)).1) ∧
    ∀ key limit, (∀ call ∈ calls, call.key = key → call.limit = limit) →
      (∀ start, (rateHits length key auth calls).countP (fun hit => hit.start = start) ≤ limit) ∧
      ∀ first, (rateHits length key auth calls).countP
        (fun hit => first ≤ hit.time ∧ hit.time ≤ first + length) ≤ 2 * limit := by
  have hunique : UniqueKeys auth.rateLimits := hauth ▸ uniqueKeys_replicate
  have hempty := rateWindows_init hauth length
  obtain ⟨since, hsince⟩ := exists_since hclock
  have hnone : ∀ now, since ≤ now →
      rateWindows length now auth.rateLimits = Window.current length now fun _ => none :=
    fun now _ => hempty now
  obtain ⟨hunique', hverdicts, hmap⟩ :=
    rateLimitRun_refines hlength hlegal hclock hunique hsince hnone
  refine ⟨hunique', hverdicts, fun now hnow => ?_, fun key limit hlimit => ?_⟩
  · by_cases hcalls : calls = []
    · rw [hcalls]
      exact hempty now
    · obtain ⟨call, hcall⟩ := List.exists_mem_of_ne_nil calls hcalls
      exact hmap now ((hsince call hcall).trans (hnow call hcall)) hnow
  · have hinit : Paced length limit [] (rateWindows length since auth.rateLimits key) since := by
      rw [hempty since]
      exact paced_nil length limit since
    obtain ⟨window, now, hpaced⟩ := rateHits_paced hlength hlegal hclock hunique hlimit hsince hinit
    exact ⟨hpaced.limited, hpaced.interval⟩

def sampleCalls : List RateCall :=
  [0, 59, 59, 60, 61].map fun now => ⟨.lit "10.0.0.9", .lit "upload", 2, now⟩

theorem sampleCalls_refine : UniqueKeys (rateLimitRun 60 sampleAuth sampleCalls).1.rateLimits ∧
    (rateHits 60 (.lit "10.0.0.9", .lit "upload") sampleAuth sampleCalls).countP
      (fun hit => 10 ≤ hit.time ∧ hit.time ≤ 70) ≤ 4 :=
  have h := @rateLimits_refine_windows sampleAuth rfl 60 (by decide) sampleCalls (by decide)
    (by decide)
  ⟨h.1, (h.2.2.2 (.lit "10.0.0.9", .lit "upload") 2 (by decide)).2 10⟩

def ownAnswers (length : Time) (key : CString × CString) : Auth → List RateCall → List RateVerdict
  | _, [] => []
  | auth, call :: rest =>
      let called := rateLimitCall length auth call
      if call.key = key then called.2 :: ownAnswers length key called.1 rest
      else ownAnswers length key called.1 rest

/-- Whenever the key needs a new record, a slot is free or has run out. -/
def Roomy (length : Time) (key : CString × CString) : Auth → List RateCall → Prop
  | _, [] => True
  | auth, call :: rest =>
      (call.key = key → rateWindows length call.now auth.rateLimits key = none →
        ∃ record ∈ auth.rateLimits.slots, record.live length call.now = false) ∧
      Roomy length key (rateLimitCall length auth call).1 rest

instance Roomy.decidable (length : Time) (key : CString × CString) :
    ∀ auth calls, Decidable (Roomy length key auth calls)
  | _, [] => .isTrue trivial
  | auth, call :: rest =>
      have := Roomy.decidable length key (rateLimitCall length auth call).1 rest
      inferInstanceAs (Decidable (_ ∧ _))

/-- What a client would be answered on its own: its window and nothing else decides. -/
def soloAnswers (length : Time) : Option Window → List RateCall → List RateVerdict
  | _, [] => []
  | window, call :: rest =>
      match window.filter fun w => call.now < w.start + length with
      | none => .allowed :: soloAnswers length (some ⟨call.now, 1⟩) rest
      | some w =>
          if w.count < call.limit then
            .allowed :: soloAnswers length (some { w with count := w.count + 1 }) rest
          else .refused (some (CString.lit "Limite de requisicoes atingido para " ++ call.scope)) ::
            soloAnswers length (some w) rest

theorem ownAnswers_eq_solo {length : Time} (hlength : 0 < length) {auth : Auth}
    {calls : List RateCall} (hlegal : ∀ call ∈ calls, call.Legal)
    (hclock : calls.Pairwise fun a b => a.now ≤ b.now) (hunique : UniqueKeys auth.rateLimits)
    {key : CString × CString} (hroomy : Roomy length key auth calls) {since : Time}
    (hsince : ∀ call ∈ calls, since ≤ call.now) {window : Option Window}
    (hwindow : ∀ now, since ≤ now → rateWindows length now auth.rateLimits key =
      window.filter fun w => now < w.start + length) :
    ownAnswers length key auth calls =
      soloAnswers length window (calls.filter fun call => call.key = key) := by
  induction calls generalizing auth since window with
  | nil => rfl
  | cons call rest ih =>
      obtain ⟨hfirst, hrest⟩ := List.pairwise_cons.mp hclock
      have hcall : call.Legal := hlegal call (by simp)
      obtain ⟨hunique', hmap, hverdict⟩ := rateLimitCall_refines hlength hcall hunique
      -- From the key's window right after the call, the answers to the rest.
      have hlater : ∀ next, rateWindows length call.now
          (rateLimitCall length auth call).1.rateLimits key = next →
          ownAnswers length key (rateLimitCall length auth call).1 rest =
            soloAnswers length next (rest.filter fun call => call.key = key) := by
        rintro next rfl
        refine ih (fun other hother => hlegal other (by simp [hother])) hrest hunique' hroomy.2
          hfirst fun now hnow => ?_
        rw [rateWindows_later hunique' hnow]
        rfl
      have hbefore := hwindow call.now (hsince call (by simp))
      by_cases hkey : call.key = key
      · subst hkey
        rw [ownAnswers, if_pos rfl, List.filter_cons_of_pos (by simp), soloAnswers, ← hbefore]
        cases hopen : rateWindows length call.now auth.rateLimits call.key with
        | none =>
            have hroom : {other | rateWindows length call.now auth.rateLimits other ≠ none}.ncard <
                maxRateLimits := by
              rw [ncard_rateWindows hunique, length_filter_live_lt_iff]
              obtain ⟨record, hmem, hdead⟩ := hroomy.1 rfl hopen
              refine ⟨record, hmem, ?_⟩
              rw [← Bool.not_eq_true, RateLimitRecord.active_retire, Bool.not_eq_true]
              exact hdead
            rw [Window.call, hopen] at hmap hverdict
            simp only [if_pos hroom, decide_eq_true_eq] at hmap hverdict
            dsimp only
            rw [hverdict, hlater (some ⟨call.now, 1⟩) (by rw [hmap, Function.update_self])]
        | some w =>
            have hanswer : (rateLimitCall length auth call).2 = _ :=
              authRateLimitAllow_of_open hcall.2.2 hlength hunique hopen
            rw [Window.call, hopen] at hmap
            dsimp only at hmap ⊢
            rw [hanswer]
            split
            · rename_i hroom
              rw [if_pos hroom] at hmap
              rw [hlater (some { w with count := w.count + 1 })
                ((congrFun hmap call.key).trans (Function.update_self ..))]
            · rename_i hroom
              rw [if_neg hroom] at hmap
              rw [hlater (some w) ((congrFun hmap call.key).trans hopen)]
      · rw [ownAnswers, if_neg hkey, List.filter_cons_of_neg (by simpa using hkey)]
        refine ih (fun other hother => hlegal other (by simp [hother])) hrest hunique' hroomy.2
          hfirst fun now hnow => ?_
        rw [rateWindows_later hunique' hnow, hmap, Window.current, Window.call_of_ne hkey, hbefore]
        exact congrFun (Window.current_current hnow fun _ : Unit => window) ()

/-- Two histories with the same calls of a key give it the same answers, as long as the
key finds a slot whenever it needs a new record. -/
theorem rateLimits_isolate {auth : Auth}
    (hauth : auth.rateLimits = .replicate maxRateLimits default) {length : Time}
    (hlength : 0 < length) {key : CString × CString} {calls calls' : List RateCall}
    (hlegal : ∀ call ∈ calls ++ calls', call.Legal)
    (hclock : calls.Pairwise fun a b => a.now ≤ b.now)
    (hclock' : calls'.Pairwise fun a b => a.now ≤ b.now)
    (hsame : calls.filter (fun call => call.key = key) =
      calls'.filter fun call => call.key = key)
    (hroomy : Roomy length key auth calls) (hroomy' : Roomy length key auth calls') :
    ownAnswers length key auth calls = ownAnswers length key auth calls' := by
  have hunique : UniqueKeys auth.rateLimits := hauth ▸ uniqueKeys_replicate
  have hsolo : ∀ history, (∀ call ∈ history, call.Legal) →
      (history.Pairwise fun a b => a.now ≤ b.now) → Roomy length key auth history →
      ownAnswers length key auth history =
        soloAnswers length none (history.filter fun call => call.key = key) := by
    intro history hlegal hclock hroomy
    obtain ⟨since, hsince⟩ := exists_since hclock
    refine ownAnswers_eq_solo hlength hlegal hclock hunique hroomy hsince fun now _ => ?_
    rw [rateWindows_init hauth]
    rfl
  rw [hsolo calls (fun call hcall => hlegal call (by simp [hcall])) hclock hroomy,
    hsolo calls' (fun call hcall => hlegal call (by simp [hcall])) hclock' hroomy', hsame]

def otherClients (count : Nat) : List RateCall :=
  (List.range count).map fun n =>
    ⟨CString.ofBuffer (decimal n), .lit "upload", 20, 0⟩

def lateCall : RateCall := ⟨.lit "10.0.0.9", .lit "upload", 20, 1⟩

theorem otherClients_unnoticed :
    ownAnswers 60 lateCall.key sampleAuth (otherClients 63 ++ [lateCall]) =
      ownAnswers 60 lateCall.key sampleAuth [lateCall] :=
  rateLimits_isolate rfl (by decide) (by decide +kernel) (by decide +kernel) (by decide)
    (by decide +kernel) (by decide +kernel) (by decide +kernel)

/-- One more client, and the first call of another is refused. -/
theorem otherClients_noticed :
    (otherClients 64 ++ [lateCall]).filter (fun call => call.key = lateCall.key) =
      [lateCall].filter (fun call => call.key = lateCall.key) ∧
    (∀ call ∈ otherClients 64 ++ [lateCall], call.Legal) ∧
    (otherClients 64 ++ [lateCall]).Pairwise (fun a b => a.now ≤ b.now) ∧
    ownAnswers 60 lateCall.key sampleAuth (otherClients 64 ++ [lateCall]) = [.refused none] ∧
    ownAnswers 60 lateCall.key sampleAuth [lateCall] = [.allowed] := by
  decide +kernel

end LocalDrop
