import LocalDrop.Confinement
import LocalDrop.PairingSteps

/-! Requests that are refused. Up to its answer a request may have been counted by a rate limit,
may have staged a file and may have made what was due expire; if the answer is an error, then
nothing else is different because of it. -/
namespace LocalDrop
open Lib

/-- What lasts is as it was. Records that have expired may be gone, the admin code and a pairing
code that is still good stay, and every lookup from now on has the answer it had. -/
structure Untouched (before after : World) : Prop where
  adminCode : after.auth.adminCode = before.auth.adminCode
  pairingCode : before.clock < before.auth.pairingCodeExpiresAt →
    before.auth.pairingCode.str ≠ CString.empty →
    after.auth.pairingCode = before.auth.pairingCode ∧
      after.auth.pairingCodeExpiresAt = before.auth.pairingCodeExpiresAt
  sessions : ∀ clientIp token now, before.clock ≤ now →
    (authValidateUiSession after.auth clientIp token now).2 =
      (authValidateUiSession before.auth clientIp token now).2
  sendTokens : ∀ peerIp peerPort now, before.clock ≤ now →
    (authGetPeerToken after.auth peerIp peerPort now).2 =
      (authGetPeerToken before.auth peerIp peerPort now).2
  peerTokens : ∀ peerIp token now, before.clock ≤ now →
    (authValidatePeerToken after.auth peerIp token now).2 =
      (authValidatePeerToken before.auth peerIp token now).2
  registry : after.registry = before.registry
  ring : after.queue = { before.queue with jobs := after.queue.jobs }
  jobs : ∀ slot, (before.queue.jobs slot).prunable before.clock = false →
    after.queue.jobs slot = before.queue.jobs slot
  files : ∀ path, isStagingEntry path = false → after.fs path = before.fs path

def Phase.succeeding : Phase → Bool
  | .exchangeAdd _ _ _ => true
  | .exchangeMark _ _ _ => true
  | .pairMark _ => true
  | .answered reply => reply.status < 400
  | _ => false

section steps
variable {world world' : World} {id : Nat} {request : Request}

theorem Untouched.of_consulted (hauth : world.auth.Consulted world.clock world'.auth)
    (hregistry : world'.registry = world.registry) (hqueue : world'.queue = world.queue)
    (hfiles : ∀ path, isStagingEntry path = false → world'.fs path = world.fs path) :
    Untouched world world' where
  adminCode := hauth.adminCode
  pairingCode := hauth.pairingCode
  sessions clientIp token _ := hauth.validateUiSession clientIp token
  sendTokens peerIp peerPort _ := hauth.getPeerToken peerIp peerPort
  peerTokens peerIp token _ := hauth.validatePeerToken peerIp token
  registry := hregistry
  ring := by rw [hqueue]
  jobs slot _ := by rw [hqueue]
  files := hfiles

theorem Untouched.refl (world : World) : Untouched world world :=
  .of_consulted (.refl _ _) rfl rfl fun _ _ => rfl

theorem unlockFinal_untouched {env : CallEnv} :
    Untouched world (unlockFinal world id request env).1 ∨
      (unlockFinal world id request env).2.1.phase.succeeding = true := by
  unfold unlockFinal
  dsimp only
  split
  · exact .inl (.refl world)
  · split
    · exact .inl (.refl world)
    · split
      · rename_i hcreated
        left
        rw [authCreateUiSession_none hcreated]
        exact .refl world
      · exact .inr rfl

theorem exchangeFinal_untouched {env : CallEnv} :
    Untouched world (exchangeFinal world id request env).1 ∨
      (exchangeFinal world id request env).2.1.phase.succeeding = true := by
  unfold exchangeFinal
  dsimp only
  split
  · exact .inl (.refl world)
  · split
    · exact .inl (.refl world)
    · split
      · exact .inl (.refl world)
      · split
        · rename_i hissued
          exact .inl (.of_consulted (authIssuePairToken_none hissued) rfl rfl fun _ _ => rfl)
        · exact .inr rfl

theorem answerToConnection_untouched {process : Process} {env : CallEnv} (hsound : request.Sound)
    (hphase : request.phase = .receiving) (upload : Option Body) :
    Untouched process.world (answerToConnection process.world id request upload env).1 ∨
      (answerToConnection process.world id request upload env).2.1.phase.succeeding = true := by
  have houtside := @answerToConnection_outside process.world id request env hsound hphase upload
  have hqueue := (@answerToConnection_effect id process.world request env hsound hphase upload).2.2
  have hregistry := @answerToConnection_registry process.world id request env upload
  cases houtside with
  | committed target reply named progress answered ok =>
      right
      rw [answered]
      exact decide_eq_true (ok ▸ (by decide : 200 < 400))
  | same files =>
      have hdispatch := answerToConnection_dispatch process.world id request upload env
      generalize answerToConnection process.world id request upload env = outcome
        at hdispatch files hqueue hregistry ⊢
      cases hdispatch with
      | unlock => exact unlockFinal_untouched
      | exchange => exact exchangeFinal_untouched
      | index | devices | notFound => exact .inl (.refl _)
      | localCode => exact .inl (.of_consulted localCodeCall_consulted.1 hregistry hqueue files)
      | transfers | transfer =>
          exact .inl (.of_consulted (transfersCall_consulted _).1 hregistry hqueue files)
      | chunk body => exact .inl (.of_consulted (chunkStep_consulted body) hregistry hqueue files)
      | upload =>
          refine .inl (.of_consulted ?_ hregistry hqueue files)
          rw [uploadFinal_consulted.1]
          exact .refl _ _
      | pair =>
          refine .inl (.of_consulted ?_ hregistry hqueue files)
          rw [pairFinal_consulted.1]
          exact .refl _ _
      | send => exact .inl (.of_consulted sendFinal_consulted.1 hregistry hqueue files)

theorem refusedEnqueue_untouched {queue : TransferQueue} {transfer : TransferRequest}
    {now : Time} {random : RandomBytes 8} {after : TransferQueue} {deleted : Deletions}
    (h : transferEnqueue queue transfer now random = (after, deleted, none)) :
    after = { queue with jobs := after.jobs } ∧
      ∀ slot, (queue.jobs slot).prunable now = false → after.jobs slot = queue.jobs slot := by
  rcases transferEnqueue_refused h with ⟨rfl, -⟩ | ⟨rfl, -⟩
  · exact ⟨rfl, fun _ _ => rfl⟩
  · refine ⟨rfl, fun slot hkeep => ?_⟩
    simp [pruneTerminalJobsLocked, hkeep]

theorem proceed_untouched {process : Process} {env : ProceedEnv} {outcome : Outcome}
    (hheld : HeldEntries process) (hwas : process.requests id = some request)
    (hsound : request.Sound) (h : proceed process.world id request env = some outcome) :
    Untouched process.world outcome.1 ∨ outcome.2.1.phase.succeeding = true := by
  have hfiles := fun path =>
    @proceed_outside process id request env outcome hheld hwas hsound h path
  cases proceed_proceeds h with
  | exchangeAdd | exchangeMark | pairStore | pairMark | sendEnqueued => exact .inr rfl
  | pairRefused | pairAccepted => exact .inl (.refl _)
  | sendCleanup => exact .inl (.of_consulted (.refl _ _) rfl rfl hfiles)
  | sendRefused _ refused =>
      obtain ⟨hring, hjobs⟩ := refusedEnqueue_untouched refused
      exact .inl { Untouched.refl process.world with ring := hring, jobs := hjobs, files := hfiles }

theorem completed_untouched {process : Process} (hheld : HeldEntries process)
    (hwas : process.requests id = some request) :
    Untouched process.world (requestCompleted process.world id request).1 := by
  have hrest : (requestCompleted process.world id request).1 =
      { process.world with fs := (requestCompleted process.world id request).1.fs } := by
    unfold requestCompleted
    split <;> rfl
  refine .of_consulted ?_ (by rw [hrest]) (by rw [hrest]) fun _ => completed_outside hheld hwas
  rw [hrest]
  exact .refl _ _

/-- Whatever a request does, nothing that lasts is different, or it will succeed. -/
theorem next_untouched {process after : Process} {event : Event} {entries : List Entry}
    (hwf : Wellformed process) (hheld : HeldEntries process)
    (h : next process event = some (after, entries)) (hevent : event.request = some id) :
    Untouched process.world after.world ∨
      ∃ request, after.requests id = some request ∧ request.phase.succeeding = true := by
  cases next_steps h with
  | call target upload env request was phase =>
      cases Option.some.inj hevent
      rcases @answerToConnection_untouched id request process env (hwf.requests id request was)
        phase upload with huntouched | hsucceeding
      · exact .inl huntouched
      · exact .inr ⟨_, Function.update_self .., hsucceeding⟩
  | proceed target env request outcome was continues =>
      cases Option.some.inj hevent
      rcases proceed_untouched hheld was (hwf.requests id request was) continues with
        huntouched | hsucceeding
      · exact .inl huntouched
      · exact .inr ⟨_, Function.update_self .., hsucceeding⟩
  | completed target request was releasable =>
      cases Option.some.inj hevent
      exact .inl (completed_untouched hheld was)
  | tick | accept | workerTake | workerCall | workerProgress | workerDone | workerExit | resolved
  | removed | serverStop | queueShutdown => contradiction

theorem keptByCalls_succeeding (id : Nat) :
    KeptByCalls id fun request => request.phase.succeeding = true where
  call world request upload env hsucceeding hphase := by
    rw [hphase] at hsucceeding
    contradiction
  proceed world request env outcome hsucceeding continues := by
    cases proceed_proceeds continues with
    | exchangeAdd | exchangeMark | pairStore | pairMark | sendEnqueued => rfl
    | pairRefused phase | pairAccepted phase | sendCleanup phase | sendRefused phase =>
        rw [phase] at hsucceeding
        contradiction

theorem keptByCalls_answered (id : Nat) (reply : Reply) :
    KeptByCalls id fun request => request.phase = .answered reply where
  call world request upload env hanswered hphase := by
    rw [hphase] at hanswered
    contradiction
  proceed world request env outcome hanswered continues := by
    rw [proceed_answered hanswered] at continues
    contradiction

end steps

/-- A request that is answered with an error has left everything that lasts as it was, in all its
steps and whatever else went on between them; and what is still to come of it does so too. -/
theorem refusedRequest_untouched {start process : Process} {events : List Event} {id : Nat}
    {request : Request} {reply : Reply} (hstart : Started start)
    (hrun : run step start events = some process) (hid : process.requests id = some request)
    (hanswered : request.phase = .answered reply) (hrefused : 400 ≤ reply.status) :
    (∀ before event after, Takes step start events before event after →
      event.request = some id → Untouched before.world after.world) ∧
    ∀ later before event after, Takes step process later before event after →
      event.request = some id → Untouched before.world after.world := by
  have hfailing : request.phase.succeeding = false := by
    rw [hanswered]
    exact decide_eq_false (Nat.not_lt.mpr hrefused)
  constructor
  · rintro before event after ⟨hstep, later, hpasses⟩ hevent
    have hbefore := hpasses.invariant tidy_step hstart.tidy
    have hafter := tidy_step _ _ _ hbefore hstep
    have hlater := (hpasses.next hstep).run hrun
    obtain ⟨settled, entries, hnext, rfl⟩ := step_eq_some hstep
    rcases next_untouched hbefore.wellformed hbefore.held hnext hevent with
      huntouched | ⟨succeeding, hthere, hsucceeding⟩
    · exact huntouched
    · have htracks := run_invariant (tracks_step (keptByCalls_succeeding id))
        (hafter.wellformed.tracks hthere hsucceeding) hlater
      rw [htracks.has request hid] at hfailing
      contradiction
  · rintro later before event after ⟨hstep, rest, hpasses⟩ hevent
    have hprocess := run_invariant tidy_step hstart.tidy hrun
    have hbefore := hpasses.invariant tidy_step hprocess
    have htracks := hpasses.invariant (tracks_step (keptByCalls_answered id reply))
      (hprocess.wellformed.tracks hid hanswered)
    obtain ⟨settled, entries, hnext, rfl⟩ := step_eq_some hstep
    cases next_steps hnext with
    | completed target released was releasable =>
        cases Option.some.inj hevent
        exact completed_untouched hbefore.held was
    | call target upload env released was phase =>
        cases Option.some.inj hevent
        rw [htracks.has released was] at phase
        contradiction
    | proceed target env released outcome was continues =>
        cases Option.some.inj hevent
        rw [proceed_answered (htracks.has released was)] at continues
        contradiction
    | tick | accept | workerTake | workerCall | workerProgress | workerDone | workerExit
    | resolved | removed | serverStop | queueShutdown => contradiction

def sendUnpaired : List Event :=
  unlocking 0 7 ++ [.resolved (.lit "peer") sampleIp.str 8080] ++
    sending 1 (sampleToken 7) "a.txt" 9

theorem sendUnpaired_untouched : ∃ process, run step sampleStart sendUnpaired = some process ∧
    (∀ before event after, Takes step sampleStart sendUnpaired before event after →
      event.request = some 1 → Untouched before.world after.world) ∧
    ∀ later before event after, Takes step process later before event after →
      event.request = some 1 → Untouched before.world after.world := by
  obtain ⟨process, hrun⟩ : ∃ process, run step sampleStart sendUnpaired = some process :=
    Option.isSome_iff_exists.mp (by decide +kernel)
  have hphase : (run step sampleStart sendUnpaired).all (fun process =>
      (process.requests 1).map Request.phase =
        some (.answered (errorReply 403 "Peer remoto ainda nao foi pareado"))) = true := by
    decide +kernel
  rw [hrun] at hphase
  simp only [Option.all_some, decide_eq_true_eq] at hphase
  obtain ⟨request, hid, hanswered⟩ := Option.map_eq_some_iff.mp hphase
  exact ⟨process, hrun,
    refusedRequest_untouched sampleStart_started hrun hid hanswered (by decide)⟩

end LocalDrop
