import LocalDrop.PeerRegistry
import LocalDrop.Lib.Runs
import Mathlib.Logic.Function.Basic

/-! `discovery.c`: the registry as the Avahi callbacks keep it. A service appears and
disappears per interface, protocol and name; a resolver is started for each one that
appears and reports at any time later. Avahi itself is outside the sources. -/
namespace LocalDrop
open Lib

inductive BrowserEvent where
  | new
  | remove
deriving DecidableEq

inductive ResolverEvent where
  | found (address : Option (Chars 46)) (port : UInt16)
  | failure
deriving DecidableEq

/-- The registry, and whether `avahi_service_resolver_new` is called. -/
def browseCallback (localDeviceName : CString) (registry : PeerRegistry) (name : CString)
    (event : BrowserEvent) : PeerRegistry × Bool :=
  if localDeviceName ≠ CString.empty ∧ name = localDeviceName then (registry, false)
  else
    match event with
    | .new => (registry, true)
    | .remove => ((peerRegistryMarkInactive registry name).1, false)

def resolveCallback (registry : PeerRegistry) (name : CString) (now : Time) :
    ResolverEvent → PeerRegistry × Bool
  | .found (some address) port => peerRegistryAddOrUpdate registry name address.str port now
  | .found none _ => (registry, true)
  | .failure => (registry, true)

structure ServiceInstance where
  interface : Int
  protocol : Int
  name : Chars 256
deriving DecidableEq

/-- A service that is there is at the endpoint a resolver last reported for it. -/
inductive Presence where
  | absent
  | appeared
  | resolved (endpoint : Endpoint)
deriving DecidableEq

inductive AvahiEvent where
  | browser (service : ServiceInstance) (event : BrowserEvent)
  | resolver (service : ServiceInstance) (event : ResolverEvent) (now : Time)
deriving DecidableEq

/-- `services` is history that no callback reads; `pending` are the resolvers that have
not reported yet. -/
structure Discovery where
  localDeviceName : CString
  registry : PeerRegistry
  services : ServiceInstance → Presence
  pending : List ServiceInstance

def Presence.browsed (presence : Presence) : BrowserEvent → Presence
  | .new => if presence = .absent then .appeared else presence
  | .remove => .absent

def Presence.reported (presence : Presence) : ResolverEvent → Presence
  | .found (some address) port =>
      if presence = .absent then .absent else .resolved (address.str, port)
  | .found none _ => presence
  | .failure => presence

def Discovery.isLocal (discovery : Discovery) (service : ServiceInstance) : Bool :=
  discovery.localDeviceName ≠ CString.empty && service.name.str = discovery.localDeviceName

/-- The device's own announcements are no services here. A report that finds the registry
full is left out. -/
def discoveryStep (discovery : Discovery) : AvahiEvent → Option Discovery
  | .browser service event =>
      let called := browseCallback discovery.localDeviceName discovery.registry
        service.name.str event
      some { discovery with
        registry := called.1
        services :=
          if discovery.isLocal service then discovery.services
          else Function.update discovery.services service
            ((discovery.services service).browsed event)
        pending := if called.2 then discovery.pending ++ [service] else discovery.pending }
  | .resolver service event now =>
      let called := resolveCallback discovery.registry service.name.str now event
      if service ∈ discovery.pending ∧ called.2 = true then
        some { discovery with
          registry := called.1
          services := Function.update discovery.services service
            ((discovery.services service).reported event)
          pending := discovery.pending.erase service }
      else none

def ActiveEndpoint (registry : PeerRegistry) (endpoint : Endpoint) : Prop :=
  ∃ peer ∈ registry.entries, peer.endpoint = endpoint ∧ peer.active = true

def NamedEndpoint (registry : PeerRegistry) (endpoint : Endpoint) (name : CString) : Prop :=
  ∃ peer ∈ registry.entries, peer.endpoint = endpoint ∧ peer.name.str = name

section registry
variable {registry : PeerRegistry} {name ip : CString} {port : UInt16} {now : Time}

theorem activeEndpoint_markInactive (hone : OneEntryEach registry) (endpoint : Endpoint) :
    ActiveEndpoint (peerRegistryMarkInactive registry name).1 endpoint ↔
      ActiveEndpoint registry endpoint ∧ ¬ NamedEndpoint registry endpoint name := by
  constructor
  · rintro ⟨peer, hmem, hendpoint, hactive⟩
    obtain ⟨old, hold, rfl⟩ := List.mem_map.mp hmem
    split at hendpoint
    · rename_i hname
      simp [hname] at hactive
    · rename_i hname
      rw [if_neg hname] at hactive
      refine ⟨⟨old, hold, hendpoint, hactive⟩, ?_⟩
      rintro ⟨other, hother, hsame, hnamed⟩
      have heq : other = old :=
        List.inj_on_of_nodup_map hone hother hold (hsame.trans hendpoint.symm)
      exact hname (heq ▸ hnamed)
  · rintro ⟨⟨peer, hmem, hendpoint, hactive⟩, hnot⟩
    refine ⟨peer, List.mem_map.mpr ⟨peer, hmem, ?_⟩, hendpoint, hactive⟩
    rw [if_neg]
    exact fun hname => hnot ⟨peer, hmem, hendpoint, hname⟩

theorem activeEndpoint_addOrUpdate (hip : ip.length < 46)
    (h : (peerRegistryAddOrUpdate registry name ip port now).2 = true) (endpoint : Endpoint) :
    ActiveEndpoint (peerRegistryAddOrUpdate registry name ip port now).1 endpoint ↔
      endpoint = (ip, port) ∨ ActiveEndpoint registry endpoint := by
  unfold ActiveEndpoint
  rcases addOrUpdate_cases h with ⟨pre, old, post, hentries, hold, hafter⟩ | ⟨-, hafter⟩
  · rw [hafter, hentries]
    simp only [List.mem_append, List.mem_cons]
    constructor
    · rintro ⟨peer, hmem | rfl | hmem, hendpoint, hactive⟩
      · exact .inr ⟨peer, .inl hmem, hendpoint, hactive⟩
      · exact .inl (hendpoint.symm.trans hold)
      · exact .inr ⟨peer, .inr (.inr hmem), hendpoint, hactive⟩
    · rintro (rfl | ⟨peer, hmem | rfl | hmem, hendpoint, hactive⟩)
      · exact ⟨_, .inr (.inl rfl), hold, rfl⟩
      · exact ⟨peer, .inl hmem, hendpoint, hactive⟩
      · exact ⟨_, .inr (.inl rfl), hendpoint, rfl⟩
      · exact ⟨peer, .inr (.inr hmem), hendpoint, hactive⟩
  · have hnew : (copyString ip : Chars 46).str = ip := copyString_str_of_lt ip hip
    rw [hafter]
    simp only [List.mem_append, List.mem_singleton]
    constructor
    · rintro ⟨peer, hmem | rfl, hendpoint, hactive⟩
      · exact .inr ⟨peer, hmem, hendpoint, hactive⟩
      · left
        rw [← hendpoint, PeerInfo.endpoint, hnew]
    · rintro (rfl | ⟨peer, hmem, hendpoint, hactive⟩)
      · refine ⟨_, .inr rfl, ?_, rfl⟩
        rw [PeerInfo.endpoint, hnew]
      · exact ⟨peer, .inl hmem, hendpoint, hactive⟩

end registry

/-- An endpoint is active exactly if some service that is there was last resolved to it. -/
def Discovery.Tracks (discovery : Discovery) : Prop :=
  ∀ endpoint, ActiveEndpoint discovery.registry endpoint ↔
    ∃ service, discovery.services service = .resolved endpoint

def Discovery.AlsoAt (discovery : Discovery) (service : ServiceInstance) (endpoint : Endpoint) :
    Prop :=
  ∃ other, other ≠ service ∧ discovery.services other = .resolved endpoint

/-- What an event must find so that the registry keeps telling the truth. A service that
leaves takes its endpoint with it, unless another service is there too; and the name it
leaves under is not that of an endpoint where another one still is. A report comes while
its service is there, and not from elsewhere than the one before. -/
def Attributable (discovery : Discovery) : AvahiEvent → Prop
  | .browser _ .new => True
  | .browser service .remove => discovery.isLocal service = false →
      (∀ endpoint, discovery.AlsoAt service endpoint →
        ¬ NamedEndpoint discovery.registry endpoint service.name.str) ∧
      ∀ endpoint, discovery.services service = .resolved endpoint →
        ¬ discovery.AlsoAt service endpoint →
        NamedEndpoint discovery.registry endpoint service.name.str
  | .resolver service (.found (some address) port) _ =>
      (discovery.services service = .absent → discovery.AlsoAt service (address.str, port)) ∧
      ∀ endpoint, discovery.services service = .resolved endpoint →
        endpoint = (address.str, port) ∨ discovery.AlsoAt service endpoint
  | .resolver _ _ _ => True

section steps
variable {discovery after : Discovery} {service : ServiceInstance} {endpoint : Endpoint}

theorem exists_resolved_update {presence : Presence} :
    (∃ other, Function.update discovery.services service presence other = .resolved endpoint) ↔
      presence = .resolved endpoint ∨ discovery.AlsoAt service endpoint := by
  constructor
  · rintro ⟨other, hother⟩
    by_cases heq : other = service
    · rw [heq, Function.update_self] at hother
      exact .inl hother
    · rw [Function.update_of_ne heq] at hother
      exact .inr ⟨other, heq, hother⟩
  · rintro (hself | ⟨other, hne, hother⟩)
    · exact ⟨service, by rw [Function.update_self, hself]⟩
    · exact ⟨other, by rw [Function.update_of_ne hne, hother]⟩

theorem Discovery.Tracks.active_iff (h : discovery.Tracks) (service : ServiceInstance)
    (endpoint : Endpoint) :
    ActiveEndpoint discovery.registry endpoint ↔
      discovery.services service = .resolved endpoint ∨ discovery.AlsoAt service endpoint := by
  rw [h endpoint, ← exists_resolved_update, Function.update_eq_self]

theorem browse_local {event : BrowserEvent} (hlocal : discovery.isLocal service = true)
    (hstep : discoveryStep discovery (.browser service event) = some after) :
    after.registry = discovery.registry ∧ after.services = discovery.services := by
  have hname : discovery.localDeviceName ≠ CString.empty ∧
      service.name.str = discovery.localDeviceName := by
    simpa [Discovery.isLocal] using hlocal
  simp only [discoveryStep, browseCallback, if_pos hname, hlocal, if_true] at hstep
  cases Option.some.inj hstep
  exact ⟨rfl, rfl⟩

theorem browse_other {event : BrowserEvent} (hother : discovery.isLocal service = false)
    (hstep : discoveryStep discovery (.browser service event) = some after) :
    after.registry = (if event = .new then discovery.registry
      else (peerRegistryMarkInactive discovery.registry service.name.str).1) ∧
    after.services = Function.update discovery.services service
      ((discovery.services service).browsed event) := by
  have hname : ¬ (discovery.localDeviceName ≠ CString.empty ∧
      service.name.str = discovery.localDeviceName) := by
    simpa [Discovery.isLocal] using hother
  simp only [discoveryStep, browseCallback, if_neg hname, hother] at hstep
  cases Option.some.inj hstep
  cases event <;> exact ⟨rfl, rfl⟩

theorem resolve_step {event : ResolverEvent} {now : Time}
    (hstep : discoveryStep discovery (.resolver service event now) = some after) :
    (resolveCallback discovery.registry service.name.str now event).2 = true ∧
    after.registry = (resolveCallback discovery.registry service.name.str now event).1 ∧
    after.services = Function.update discovery.services service
      ((discovery.services service).reported event) := by
  simp only [discoveryStep] at hstep
  split at hstep
  · rename_i henabled
    cases Option.some.inj hstep
    exact ⟨henabled.2, rfl, rfl⟩
  · contradiction

theorem oneEntryEach_step (discovery : Discovery) (event : AvahiEvent) (after : Discovery)
    (hone : OneEntryEach discovery.registry)
    (hstep : discoveryStep discovery event = some after) : OneEntryEach after.registry := by
  cases event with
  | browser service event =>
      cases hlocal : discovery.isLocal service with
      | true =>
          rw [(browse_local hlocal hstep).1]
          exact hone
      | false =>
          rw [(browse_other hlocal hstep).1]
          cases event with
          | new => exact hone
          | remove => exact oneEntryEach_markInactive hone
  | resolver service event now =>
      obtain ⟨htaken, hregistry, -⟩ := resolve_step hstep
      rw [hregistry]
      match event with
      | .found (some address) port => exact oneEntryEach_addOrUpdate address.fits hone htaken
      | .found none _ => exact hone
      | .failure => exact hone

theorem tracks_new (htracks : discovery.Tracks) (hother : discovery.isLocal service = false)
    (hstep : discoveryStep discovery (.browser service .new) = some after) : after.Tracks := by
  obtain ⟨hregistry, hservices⟩ := browse_other hother hstep
  rw [if_pos rfl] at hregistry
  intro endpoint
  rw [hregistry, hservices, exists_resolved_update, htracks.active_iff service endpoint]
  simp only [Presence.browsed]
  split
  · rename_i habsent
    simp [habsent]
  · rfl

theorem tracks_remove_iff (hone : OneEntryEach discovery.registry) (htracks : discovery.Tracks)
    (hother : discovery.isLocal service = false)
    (hstep : discoveryStep discovery (.browser service .remove) = some after) :
    after.Tracks ↔ Attributable discovery (.browser service .remove) := by
  obtain ⟨hregistry, hservices⟩ := browse_other hother hstep
  rw [if_neg (by decide)] at hregistry
  have hafter : ∀ endpoint, (ActiveEndpoint after.registry endpoint ↔
      ∃ other, after.services other = .resolved endpoint) ↔
      ((discovery.services service = .resolved endpoint ∨ discovery.AlsoAt service endpoint) ∧
        ¬ NamedEndpoint discovery.registry endpoint service.name.str ↔
        discovery.AlsoAt service endpoint) := by
    intro endpoint
    rw [hregistry, hservices, exists_resolved_update, activeEndpoint_markInactive hone,
      htracks.active_iff service endpoint]
    simp [Presence.browsed]
  simp only [Discovery.Tracks, hafter, Attributable, hother, true_imp_iff]
  constructor
  · intro h
    exact ⟨fun endpoint halso => ((h endpoint).mpr halso).2,
      fun endpoint hself hnot => by_contra fun hname => hnot ((h endpoint).mp ⟨.inl hself, hname⟩)⟩
  · rintro ⟨hkeeps, htakes⟩ endpoint
    constructor
    · rintro ⟨hself | halso, hname⟩
      · exact by_contra fun hnot => hname (htakes endpoint hself hnot)
      · exact halso
    · exact fun halso => ⟨.inr halso, hkeeps endpoint halso⟩

theorem tracks_found_iff {address : Chars 46} {port : UInt16} {now : Time}
    (htracks : discovery.Tracks)
    (hstep : discoveryStep discovery (.resolver service (.found (some address) port) now) =
      some after) :
    after.Tracks ↔
      Attributable discovery (.resolver service (.found (some address) port) now) := by
  obtain ⟨htaken, hregistry, hservices⟩ := resolve_step hstep
  have hafter : ∀ endpoint, (ActiveEndpoint after.registry endpoint ↔
      ∃ other, after.services other = .resolved endpoint) ↔
      (endpoint = (address.str, port) ∨ discovery.services service = .resolved endpoint ∨
        discovery.AlsoAt service endpoint ↔
        (discovery.services service ≠ .absent ∧ endpoint = (address.str, port)) ∨
          discovery.AlsoAt service endpoint) := by
    intro endpoint
    rw [hregistry, hservices, exists_resolved_update]
    simp only [resolveCallback]
    rw [activeEndpoint_addOrUpdate address.fits htaken, htracks.active_iff service endpoint]
    by_cases habsent : discovery.services service = .absent
    · simp [Presence.reported, habsent]
    · simp [Presence.reported, habsent, eq_comm]
  simp only [Discovery.Tracks, hafter, Attributable]
  constructor
  · intro h
    refine ⟨fun habsent => ?_, fun endpoint hself => ?_⟩
    · rcases (h (address.str, port)).mp (.inl rfl) with ⟨hpresent, -⟩ | halso
      · exact absurd habsent hpresent
      · exact halso
    · rcases (h endpoint).mp (.inr (.inl hself)) with ⟨-, heq⟩ | halso
      · exact .inl heq
      · exact .inr halso
  · rintro ⟨hrevives, hmoves⟩ endpoint
    constructor
    · rintro (rfl | hself | halso)
      · by_cases habsent : discovery.services service = .absent
        · exact .inr (hrevives habsent)
        · exact .inl ⟨habsent, rfl⟩
      · rcases hmoves endpoint hself with heq | halso
        · exact .inl ⟨by rw [hself]; simp, heq⟩
        · exact .inr halso
      · exact .inr halso
    · rintro (⟨-, heq⟩ | halso)
      · exact .inl heq
      · exact .inr (.inr halso)

theorem tracks_step_iff (discovery : Discovery) (event : AvahiEvent) (after : Discovery)
    (hone : OneEntryEach discovery.registry) (htracks : discovery.Tracks)
    (hstep : discoveryStep discovery event = some after) :
    after.Tracks ↔ Attributable discovery event := by
  cases event with
  | browser service event =>
      cases hlocal : discovery.isLocal service with
      | true =>
          obtain ⟨hregistry, hservices⟩ := browse_local hlocal hstep
          refine iff_of_true ?_ ?_
          · unfold Discovery.Tracks
            rw [hregistry, hservices]
            exact htracks
          · cases event with
            | new => trivial
            | remove => exact fun hother => absurd hlocal (by simp [hother])
      | false =>
          cases event with
          | new => exact iff_of_true (tracks_new htracks hlocal hstep) trivial
          | remove => exact tracks_remove_iff hone htracks hlocal hstep
  | resolver service event now =>
      match event with
      | .found (some address) port => exact tracks_found_iff htracks hstep
      | .found none port =>
          obtain ⟨-, hregistry, hservices⟩ := resolve_step hstep
          refine iff_of_true ?_ trivial
          unfold Discovery.Tracks
          rw [hregistry, hservices, Presence.reported, Function.update_eq_self]
          exact htracks
      | .failure =>
          obtain ⟨-, hregistry, hservices⟩ := resolve_step hstep
          refine iff_of_true ?_ trivial
          unfold Discovery.Tracks
          rw [hregistry, hservices, Presence.reported, Function.update_eq_self]
          exact htracks

end steps

structure Discovery.Initial (discovery : Discovery) : Prop where
  registry : discovery.registry = peerRegistryInit
  services : ∀ service, discovery.services service = .absent
  pending : discovery.pending = []

/-- Along every run the active endpoints are those of the services that are there exactly
when every event is attributable; and then it is so in particular whenever all resolvers
have reported. -/
theorem presence_tracked_iff {start : Discovery} {events : List AvahiEvent}
    (hstart : start.Initial) :
    (Always discoveryStep Discovery.Tracks start events ↔
      Meets discoveryStep Attributable start events) ∧
    (Meets discoveryStep Attributable start events →
      Always discoveryStep (fun discovery => discovery.pending = [] → discovery.Tracks) start
        events) := by
  have hone : OneEntryEach start.registry := by
    rw [hstart.registry]
    exact List.nodup_nil
  have htracks : start.Tracks := by
    intro endpoint
    simp [ActiveEndpoint, hstart.registry, peerRegistryInit, hstart.services]
  have hiff : Always discoveryStep Discovery.Tracks start events ↔
      Meets discoveryStep Attributable start events :=
    @always_iff_meets_of_invariant _ _ _ _ _ _ (fun discovery => OneEntryEach discovery.registry)
      _ oneEntryEach_step tracks_step_iff hone htracks
  exact ⟨hiff, fun hmeets => (hiff.mpr hmeets).mono fun _ h _ => h⟩

def sampleService (interface : Int) : ServiceInstance :=
  ⟨interface, 0, copyString (.lit "desk")⟩

def sampleDiscovery : Discovery := ⟨.lit "laptop", peerRegistryInit, fun _ => .absent, []⟩

def appearing (interface : Int) (address : String) : List AvahiEvent :=
  [.browser (sampleService interface) .new,
    .resolver (sampleService interface) (.found (some (copyString (.lit address))) 8080) 100]

def AvahiEvent.service : AvahiEvent → ServiceInstance
  | .browser service _ => service
  | .resolver service _ _ => service

theorem services_elsewhere {discovery after : Discovery} {event : AvahiEvent}
    {other : ServiceInstance} (hstep : discoveryStep discovery event = some after)
    (hother : other ≠ event.service) : after.services other = discovery.services other := by
  cases event with
  | browser service event =>
      cases Option.some.inj hstep
      dsimp only
      split
      · rfl
      · exact Function.update_of_ne hother ..
  | resolver service event now =>
      simp only [discoveryStep] at hstep
      split at hstep
      · cases Option.some.inj hstep
        exact Function.update_of_ne hother ..
      · contradiction

theorem oneInterface_attributable : Meets discoveryStep Attributable sampleDiscovery
    (appearing 1 "10.0.0.2" ++ [.browser (sampleService 1) .remove]) := by
  intro appeared happeared
  refine ⟨trivial, fun resolved hresolved => ⟨⟨?_, ?_⟩, fun gone hgone => ⟨?_, trivial⟩⟩⟩
  · intro habsent
    have hservice : (discoveryStep sampleDiscovery (.browser (sampleService 1) .new)).all
        (fun discovery => discovery.services (sampleService 1) = .appeared) = true := by
      decide +kernel
    rw [happeared, Option.all_some, decide_eq_true_eq, habsent] at hservice
    contradiction
  · intro endpoint hendpoint
    have hservice : (discoveryStep sampleDiscovery (.browser (sampleService 1) .new)).all
        (fun discovery => discovery.services (sampleService 1) = .appeared) = true := by
      decide +kernel
    rw [happeared, Option.all_some, decide_eq_true_eq, hendpoint] at hservice
    contradiction
  · intro _
    have hrun : run discoveryStep sampleDiscovery (appearing 1 "10.0.0.2") = some resolved :=
      Option.bind_eq_some_iff.mpr ⟨appeared, happeared, Option.bind_eq_some_iff.mpr
        ⟨resolved, hresolved, rfl⟩⟩
    have hservice : (run discoveryStep sampleDiscovery (appearing 1 "10.0.0.2")).all
        (fun discovery =>
          discovery.services (sampleService 1) = .resolved (.lit "10.0.0.2", 8080) ∧
          ∃ peer ∈ discovery.registry.entries, peer.endpoint = (.lit "10.0.0.2", 8080) ∧
            peer.name.str = (sampleService 1).name.str) = true := by decide +kernel
    rw [hrun, Option.all_some, decide_eq_true_eq] at hservice
    have halone : ∀ endpoint, ¬ resolved.AlsoAt (sampleService 1) endpoint := by
      rintro endpoint ⟨other, hne, hother⟩
      rw [services_elsewhere hresolved hne, services_elsewhere happeared hne] at hother
      contradiction
    refine ⟨fun endpoint halso => absurd halso (halone endpoint), fun endpoint hendpoint _ => ?_⟩
    rw [hservice.1, Presence.resolved.injEq] at hendpoint
    exact hendpoint ▸ hservice.2

/-- The device has one interface, and leaves. -/
theorem oneInterface_tracked :
    (run discoveryStep sampleDiscovery
      (appearing 1 "10.0.0.2" ++ [.browser (sampleService 1) .remove])).isSome = true ∧
    Always discoveryStep Discovery.Tracks sampleDiscovery
      (appearing 1 "10.0.0.2" ++ [.browser (sampleService 1) .remove]) :=
  ⟨by decide +kernel,
    (presence_tracked_iff ⟨rfl, fun _ => rfl, rfl⟩).1.mpr oneInterface_attributable⟩

/-- The device leaves one of its two interfaces, and both its endpoints are gone. -/
theorem twoInterfaces_untracked : ∃ discovery,
    run discoveryStep sampleDiscovery (appearing 1 "10.0.0.2" ++ appearing 2 "10.0.1.2" ++
      [.browser (sampleService 2) .remove]) = some discovery ∧
    discovery.pending = [] ∧
    discovery.services (sampleService 1) = .resolved (.lit "10.0.0.2", 8080) ∧
    ¬ ActiveEndpoint discovery.registry (.lit "10.0.0.2", 8080) ∧ ¬ discovery.Tracks := by
  obtain ⟨discovery, hrun⟩ := Option.isSome_iff_exists.mp
    (show (run discoveryStep sampleDiscovery (appearing 1 "10.0.0.2" ++
      appearing 2 "10.0.1.2" ++ [.browser (sampleService 2) .remove])).isSome = true by
      decide +kernel)
  have hfinal : (run discoveryStep sampleDiscovery (appearing 1 "10.0.0.2" ++
      appearing 2 "10.0.1.2" ++ [.browser (sampleService 2) .remove])).all (fun discovery =>
      discovery.pending = [] ∧
      discovery.services (sampleService 1) = .resolved (.lit "10.0.0.2", 8080) ∧
      ∀ peer ∈ discovery.registry.entries, peer.active = false) = true := by
    decide +kernel
  rw [hrun] at hfinal
  simp only [Option.all_some, decide_eq_true_eq] at hfinal
  obtain ⟨hpending, hservice, hinactive⟩ := hfinal
  have hnot : ¬ ActiveEndpoint discovery.registry (.lit "10.0.0.2", 8080) := by
    rintro ⟨peer, hmem, -, hactive⟩
    rw [hinactive peer hmem] at hactive
    contradiction
  exact ⟨discovery, hrun, hpending, hservice, hnot,
    fun htracks => hnot ((htracks _).mpr ⟨_, hservice⟩)⟩

end LocalDrop
