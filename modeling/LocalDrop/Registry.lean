import LocalDrop.PeerRegistry
import LocalDrop.Lib.LastWrite
import LocalDrop.Lib.Runs

/-! Histories of registry calls. The registry is a map in the order in which endpoints were
first added; nothing ever leaves it. Addresses that are added fit their array. -/
namespace LocalDrop
open Lib

inductive RegistryCall where
  | addOrUpdate (name ip : CString) (port : UInt16) (now : Time)
  | markInactive (name : CString)
  | setPaired (ip : CString) (port : UInt16) (paired : Bool)
deriving DecidableEq

def RegistryCall.Fits : RegistryCall → Prop
  | addOrUpdate _ ip _ _ => ip.length < 46
  | markInactive _ => True
  | setPaired _ _ _ => True

instance : ∀ call : RegistryCall, Decidable call.Fits
  | .addOrUpdate _ ip _ _ => inferInstanceAs (Decidable (ip.length < 46))
  | .markInactive _ => .isTrue trivial
  | .setPaired _ _ _ => .isTrue trivial

def registryCall (registry : PeerRegistry) : RegistryCall → PeerRegistry × Bool
  | .addOrUpdate name ip port now => peerRegistryAddOrUpdate registry name ip port now
  | .markInactive name => peerRegistryMarkInactive registry name
  | .setPaired ip port paired => peerRegistrySetPaired registry ip port paired

/-- The registry, and the calls that succeeded in their order. -/
structure RegistryHistory where
  registry : PeerRegistry
  succeeded : List RegistryCall

def registryStep (history : RegistryHistory) (call : RegistryCall) : Option RegistryHistory :=
  if call.Fits then
    let called := registryCall history.registry call
    some ⟨called.1, if called.2 then history.succeeded ++ [call] else history.succeeded⟩
  else none

def RegistryHistory.initial : RegistryHistory := ⟨peerRegistryInit, []⟩

structure PeerAdd where
  name : CString
  endpoint : Endpoint

structure PeerPairing where
  endpoint : Endpoint
  paired : Bool

def RegistryCall.add : RegistryCall → Option PeerAdd
  | addOrUpdate name ip port _ => some ⟨name, (ip, port)⟩
  | markInactive _ => none
  | setPaired _ _ _ => none

def RegistryCall.pairing : RegistryCall → Option PeerPairing
  | addOrUpdate _ _ _ _ => none
  | markInactive _ => none
  | setPaired ip port paired => some ⟨(ip, port), paired⟩

def peerAdds (calls : List RegistryCall) : List PeerAdd := calls.filterMap RegistryCall.add

def peerPairings (calls : List RegistryCall) : List PeerPairing :=
  calls.filterMap RegistryCall.pairing

def sinceAdd (calls : List RegistryCall) (endpoint : Endpoint) : List RegistryCall :=
  calls.reverse.takeWhile fun call => call.add.map PeerAdd.endpoint ≠ some endpoint

structure PeerView where
  name : CString
  paired : Bool
  active : Bool
deriving DecidableEq

def PeerInfo.view (peer : PeerInfo) : PeerView := ⟨peer.name.str, peer.paired, peer.active⟩

/-- The name of the last add, cut to its array, the last pairing, and whether the peer was
not marked inactive under that name since. -/
def mappedPeer (calls : List RegistryCall) (endpoint : Endpoint) : Option PeerView :=
  (lastWrite PeerAdd.endpoint (peerAdds calls) endpoint).map fun add =>
    let name := (copyString add.name : Chars 256).str
    { name := name
      paired := ((lastWrite PeerPairing.endpoint (peerPairings calls) endpoint).map
        PeerPairing.paired).getD false
      active := .markInactive name ∉ sinceAdd calls endpoint }

def addedEndpoints (calls : List RegistryCall) : List Endpoint :=
  keysInOrder PeerAdd.endpoint (peerAdds calls)

section mapped
variable {calls : List RegistryCall} {endpoint : Endpoint}

theorem peerAdds_concat (call : RegistryCall) :
    peerAdds (calls ++ [call]) = peerAdds calls ++ call.add.toList := by
  rw [peerAdds, List.filterMap_append, List.filterMap_cons]
  cases call.add <;> rfl

theorem peerPairings_concat (call : RegistryCall) :
    peerPairings (calls ++ [call]) = peerPairings calls ++ call.pairing.toList := by
  rw [peerPairings, List.filterMap_append, List.filterMap_cons]
  cases call.pairing <;> rfl

theorem peerAdds_of_not_add {call : RegistryCall} (h : call.add = none) :
    peerAdds (calls ++ [call]) = peerAdds calls := by
  rw [peerAdds_concat, h, Option.toList_none, List.append_nil]

theorem peerPairings_of_not_pairing {call : RegistryCall} (h : call.pairing = none) :
    peerPairings (calls ++ [call]) = peerPairings calls := by
  rw [peerPairings_concat, h, Option.toList_none, List.append_nil]

theorem sinceAdd_concat (call : RegistryCall) :
    sinceAdd (calls ++ [call]) endpoint =
      if call.add.map PeerAdd.endpoint = some endpoint then []
      else call :: sinceAdd calls endpoint := by
  unfold sinceAdd
  rw [List.reverse_append, List.reverse_singleton, List.singleton_append, List.takeWhile_cons]
  by_cases h : call.add.map PeerAdd.endpoint = some endpoint <;> simp [h]

theorem mappedPeer_add (name ip : CString) (port : UInt16) (now : Time) :
    mappedPeer (calls ++ [.addOrUpdate name ip port now]) endpoint =
      if (ip, port) = endpoint then
        some ⟨(copyString name : Chars 256).str,
          ((lastWrite PeerPairing.endpoint (peerPairings calls) endpoint).map
            PeerPairing.paired).getD false, true⟩
      else mappedPeer calls endpoint := by
  have hadds : peerAdds (calls ++ [.addOrUpdate name ip port now]) =
      peerAdds calls ++ [⟨name, (ip, port)⟩] := peerAdds_concat _
  unfold mappedPeer
  rw [hadds, peerPairings_of_not_pairing rfl, lastWrite_concat, sinceAdd_concat]
  by_cases h : (ip, port) = endpoint <;> simp [h, RegistryCall.add]

theorem mappedPeer_markInactive (name : CString) :
    mappedPeer (calls ++ [.markInactive name]) endpoint =
      (mappedPeer calls endpoint).map fun peer =>
        if peer.name = name then { peer with active := false } else peer := by
  unfold mappedPeer
  rw [peerAdds_of_not_add rfl, peerPairings_of_not_pairing rfl, sinceAdd_concat, Option.map_map]
  apply congrArg (Option.map · _)
  funext add
  by_cases h : (copyString add.name : Chars 256).str = name <;> simp [h, RegistryCall.add]

theorem mappedPeer_setPaired (ip : CString) (port : UInt16) (paired : Bool) :
    mappedPeer (calls ++ [.setPaired ip port paired]) endpoint =
      (mappedPeer calls endpoint).map fun peer =>
        if (ip, port) = endpoint then { peer with paired := paired } else peer := by
  have hpairings : peerPairings (calls ++ [.setPaired ip port paired]) =
      peerPairings calls ++ [⟨(ip, port), paired⟩] := peerPairings_concat _
  unfold mappedPeer
  rw [peerAdds_of_not_add rfl, hpairings, sinceAdd_concat, lastWrite_concat, Option.map_map]
  apply congrArg (Option.map · _)
  funext add
  by_cases h : (ip, port) = endpoint <;> simp [h, RegistryCall.add]

end mapped

section calls
variable {registry : PeerRegistry} {name ip : CString} {port : UInt16} {now : Time}
  {paired : Bool}

theorem setPaired_cases (h : (peerRegistrySetPaired registry ip port paired).2 = true) :
    ∃ pre old post, registry.entries = pre ++ old :: post ∧ old.endpoint = (ip, port) ∧
      (peerRegistrySetPaired registry ip port paired).1.entries =
        pre ++ { old with paired := paired } :: post := by
  unfold peerRegistrySetPaired at h ⊢
  split at h
  · rename_i updated hupdate
    obtain ⟨pre, old, post, hentries, -, hfor, hentries'⟩ :=
      updateFirst_eq_some (PeerRegistry.update_entries hupdate)
    exact ⟨pre, old, post, hentries, isFor_iff_endpoint.mp hfor, hentries'⟩
  · contradiction

theorem registryCall_failed {call : RegistryCall} (h : (registryCall registry call).2 = false) :
    (registryCall registry call).1 = registry := by
  cases call with
  | addOrUpdate name ip port now =>
      simp only [registryCall, peerRegistryAddOrUpdate] at h ⊢
      split at h
      · contradiction
      · split at h
        · contradiction
        · rfl
  | markInactive name =>
      simp only [registryCall, peerRegistryMarkInactive, List.any_eq_false,
        decide_eq_true_eq] at h ⊢
      have hsame : registry.entries.map (fun peer =>
          if peer.name.str = name then { peer with active := false } else peer) =
          registry.entries := by
        refine List.map_congr_left (fun peer hmem => ?_) |>.trans (List.map_id _)
        rw [if_neg (h peer hmem), id_eq]
      simp only [hsame]
  | setPaired ip port paired =>
      simp only [registryCall, peerRegistrySetPaired] at h ⊢
      split at h
      · contradiction
      · rfl

end calls

structure RegistryHistory.Refines (history : RegistryHistory) : Prop where
  one : OneEntryEach history.registry
  order : history.registry.entries.map PeerInfo.endpoint = addedEndpoints history.succeeded
  peers : ∀ peer ∈ history.registry.entries,
    mappedPeer history.succeeded peer.endpoint = some peer.view
  pairings : ∀ pairing ∈ peerPairings history.succeeded,
    pairing.endpoint ∈ addedEndpoints history.succeeded

theorem RegistryHistory.initial_refines : RegistryHistory.initial.Refines :=
  ⟨List.nodup_nil, rfl, by simp [initial, peerRegistryInit],
    by simp [initial, peerPairings]⟩

section refine
variable {registry : PeerRegistry} {calls calls' : List RegistryCall} {name ip : CString}
  {port : UInt16} {now : Time} {paired : Bool}

theorem OneEntryEach.others (h : OneEntryEach registry) {pre post : List PeerInfo} {old : PeerInfo}
    (hentries : registry.entries = pre ++ old :: post) {peer : PeerInfo}
    (hmem : peer ∈ pre ∨ peer ∈ post) : peer.endpoint ≠ old.endpoint := by
  unfold OneEntryEach at h
  rw [hentries, List.map_append, List.map_cons, List.nodup_append, List.nodup_cons] at h
  obtain ⟨-, ⟨hpost, -⟩, hcross⟩ := h
  rcases hmem with hmem | hmem
  · exact hcross _ (List.mem_map_of_mem hmem) _ (by simp)
  · exact fun heq => hpost (heq ▸ List.mem_map_of_mem hmem)

theorem peers_rewrite (h : OneEntryEach registry)
    (hpeers : ∀ peer ∈ registry.entries, mappedPeer calls peer.endpoint = some peer.view)
    {pre post : List PeerInfo} {old new : PeerInfo}
    (hentries : registry.entries = pre ++ old :: post) (hnew : new.endpoint = old.endpoint)
    (hself : mappedPeer calls' old.endpoint = some new.view)
    (hothers : ∀ endpoint, endpoint ≠ old.endpoint →
      mappedPeer calls' endpoint = mappedPeer calls endpoint) :
    ∀ peer ∈ pre ++ new :: post, mappedPeer calls' peer.endpoint = some peer.view := by
  have hrest : ∀ peer, peer ∈ pre ∨ peer ∈ post →
      mappedPeer calls' peer.endpoint = some peer.view := by
    intro peer hmem
    rw [hothers _ (h.others hentries hmem)]
    apply hpeers
    rw [hentries, List.mem_append, List.mem_cons]
    exact hmem.imp_right .inr
  intro peer hmem
  rw [List.mem_append, List.mem_cons] at hmem
  rcases hmem with hmem | rfl | hmem
  · exact hrest peer (.inl hmem)
  · rw [hnew, hself]
  · exact hrest peer (.inr hmem)

theorem paired_of_mappedPeer {endpoint : Endpoint} {view : PeerView}
    (h : mappedPeer calls endpoint = some view) :
    ((lastWrite PeerPairing.endpoint (peerPairings calls) endpoint).map
      PeerPairing.paired).getD false = view.paired := by
  obtain ⟨add, -, rfl⟩ := Option.map_eq_some_iff.mp h
  rfl

theorem refines_add (h : RegistryHistory.Refines ⟨registry, calls⟩) (hip : ip.length < 46)
    (hadded : (peerRegistryAddOrUpdate registry name ip port now).2 = true) :
    RegistryHistory.Refines ⟨(peerRegistryAddOrUpdate registry name ip port now).1,
      calls ++ [.addOrUpdate name ip port now]⟩ := by
  have hone := oneEntryEach_addOrUpdate hip h.one hadded
  have hadds : addedEndpoints (calls ++ [.addOrUpdate name ip port now]) =
      keysInOrder PeerAdd.endpoint (peerAdds calls ++ [⟨name, (ip, port)⟩]) :=
    congrArg (keysInOrder PeerAdd.endpoint) (peerAdds_concat _)
  have hpairings : ∀ pairing ∈ peerPairings (calls ++ [.addOrUpdate name ip port now]),
      pairing.endpoint ∈ addedEndpoints (calls ++ [.addOrUpdate name ip port now]) := by
    intro pairing hmem
    rw [peerPairings_of_not_pairing rfl] at hmem
    rw [hadds]
    exact (keysInOrder_append _ _).subset (h.pairings pairing hmem)
  rcases addOrUpdate_cases hadded with ⟨pre, old, post, hentries, hold, hafter⟩ | ⟨hnew, hafter⟩
  · -- A known endpoint keeps its place and its pairing.
    refine ⟨hone, ?_, ?_, hpairings⟩
    · have hknown : (ip, port) ∈ addedEndpoints calls := by
        rw [← h.order, hentries, ← hold]
        simp
      rw [hadds, keysInOrder_concat_of_mem hknown, hafter]
      refine Eq.trans ?_ h.order
      rw [hentries]
      simp [PeerInfo.endpoint]
    · rw [hafter]
      have hmapped := h.peers old (by simp [hentries])
      refine peers_rewrite h.one h.peers hentries rfl ?_ ?_
      · rw [mappedPeer_add, if_pos hold.symm, paired_of_mappedPeer hmapped]
        rfl
      · intro endpoint hne
        rw [mappedPeer_add, if_neg (hold ▸ hne.symm)]
  · -- A new one comes last; it was never paired.
    have hself : (⟨copyString name, copyString ip, port, true, false, now⟩ : PeerInfo).endpoint =
        (ip, port) := by
      rw [PeerInfo.endpoint, copyString_str_of_lt ip hip]
    have hunknown : (ip, port) ∉ addedEndpoints calls := by
      rw [← h.order, List.mem_map]
      rintro ⟨peer, hmem, hendpoint⟩
      exact hnew peer hmem hendpoint
    refine ⟨hone, ?_, ?_, hpairings⟩
    · rw [hadds, keysInOrder_concat_of_notMem hunknown, hafter, List.map_append,
        List.map_singleton, hself]
      exact congrArg (· ++ [(ip, port)]) h.order
    · rw [hafter]
      intro peer hmem
      rw [mappedPeer_add]
      rcases List.mem_append.mp hmem with hmem | hmem
      · rw [if_neg (hnew peer hmem).symm]
        exact h.peers peer hmem
      · rw [List.mem_singleton] at hmem
        have hunpaired : lastWrite PeerPairing.endpoint (peerPairings calls) (ip, port) = none :=
          lastWrite_eq_none.mpr fun pairing hmem hendpoint =>
            hunknown (hendpoint ▸ h.pairings pairing hmem)
        rw [hmem, hself, if_pos rfl, hunpaired]
        rfl

theorem refines_markInactive (h : RegistryHistory.Refines ⟨registry, calls⟩) (name : CString) :
    RegistryHistory.Refines
      ⟨(peerRegistryMarkInactive registry name).1, calls ++ [.markInactive name]⟩ := by
  have hadds : addedEndpoints (calls ++ [.markInactive name]) = addedEndpoints calls :=
    congrArg (keysInOrder PeerAdd.endpoint) (peerAdds_of_not_add rfl)
  have hsame : ∀ peer : PeerInfo, (if peer.name.str = name then { peer with active := false }
      else peer).endpoint = peer.endpoint := by
    intro peer
    split <;> rfl
  refine ⟨oneEntryEach_markInactive h.one, ?_, ?_, ?_⟩
  · rw [hadds, ← h.order]
    simp only [peerRegistryMarkInactive, List.map_map]
    exact List.map_congr_left fun peer _ => hsame peer
  · intro peer hmem
    obtain ⟨old, hold, rfl⟩ := List.mem_map.mp hmem
    rw [mappedPeer_markInactive, hsame, h.peers old hold, Option.map_some]
    by_cases hname : old.name.str = name <;> simp [PeerInfo.view, hname]
  · intro pairing hmem
    rw [hadds]
    rw [peerPairings_of_not_pairing rfl] at hmem
    exact h.pairings pairing hmem

theorem refines_setPaired (h : RegistryHistory.Refines ⟨registry, calls⟩)
    (hpaired : (peerRegistrySetPaired registry ip port paired).2 = true) :
    RegistryHistory.Refines ⟨(peerRegistrySetPaired registry ip port paired).1,
      calls ++ [.setPaired ip port paired]⟩ := by
  have hadds : addedEndpoints (calls ++ [.setPaired ip port paired]) = addedEndpoints calls :=
    congrArg (keysInOrder PeerAdd.endpoint) (peerAdds_of_not_add rfl)
  obtain ⟨pre, old, post, hentries, hold, hafter⟩ := setPaired_cases hpaired
  have hsame : (peerRegistrySetPaired registry ip port paired).1.entries.map PeerInfo.endpoint =
      registry.entries.map PeerInfo.endpoint := by
    rw [hafter, hentries]
    simp [PeerInfo.endpoint]
  refine ⟨?_, ?_, ?_, ?_⟩
  · unfold OneEntryEach
    rw [hsame]
    exact h.one
  · rw [hadds, ← h.order]
    exact hsame
  · rw [hafter]
    have hmapped := h.peers old (by simp [hentries])
    refine peers_rewrite h.one h.peers hentries rfl ?_ ?_
    · rw [mappedPeer_setPaired, hmapped, Option.map_some, if_pos hold.symm]
      rfl
    · intro endpoint hne
      rw [mappedPeer_setPaired]
      simp [hold ▸ hne.symm]
  · intro pairing hmem
    rw [hadds]
    have hpairings : peerPairings (calls ++ [.setPaired ip port paired]) =
        peerPairings calls ++ [⟨(ip, port), paired⟩] := peerPairings_concat _
    rw [hpairings, List.mem_append, List.mem_singleton] at hmem
    rcases hmem with hmem | rfl
    · exact h.pairings pairing hmem
    · rw [← h.order, hentries, ← hold]
      simp

end refine

theorem registryRefines_step (history : RegistryHistory) (call : RegistryCall)
    (after : RegistryHistory) (h : history.Refines)
    (hstep : registryStep history call = some after) : after.Refines := by
  unfold registryStep at hstep
  split at hstep
  · rename_i hfits
    rw [Option.some.injEq] at hstep
    subst hstep
    cases hcalled : (registryCall history.registry call).2 with
    | false =>
        rw [registryCall_failed hcalled]
        exact h
    | true =>
        cases call with
        | addOrUpdate name ip port now => exact refines_add h hfits hcalled
        | markInactive name => exact refines_markInactive h name
        | setPaired ip port paired => exact refines_setPaired h hcalled
  · contradiction

/-- In every history a new endpoint is refused exactly when 50 others are registered,
whether they are still there or not. -/
theorem add_refused_iff_full {history : RegistryHistory} {calls : List RegistryCall}
    (hrun : run registryStep .initial calls = some history) (name : CString) {ip : CString}
    {port : UInt16} (now : Time)
    (hnew : peerRegistryFindByEndpoint history.registry ip port = none) :
    (peerRegistryAddOrUpdate history.registry name ip port now).2 = false ↔
      (addedEndpoints history.succeeded).length = peerRegistryMaxPeers := by
  have h := run_invariant registryRefines_step RegistryHistory.initial_refines hrun
  rw [← h.order, List.length_map, addOrUpdate_refused_iff]
  exact and_iff_right hnew

/-- 50 addresses of one device, which then leaves. -/
def departedCalls : List RegistryCall :=
  (List.range peerRegistryMaxPeers).map (fun port =>
    .addOrUpdate (.lit "nas") (.lit "10.0.0.9") (UInt16.ofNat port) 1) ++
    [.markInactive (.lit "nas")]

theorem departed_refused_at_full : ∃ history,
    run registryStep .initial departedCalls = some history ∧
      (peerRegistryAddOrUpdate history.registry (.lit "tv") (.lit "10.0.0.8") 8080 2).2 =
        false := by
  obtain ⟨history, hrun⟩ := Option.isSome_iff_exists.mp
    (show (run registryStep .initial departedCalls).isSome = true by decide +kernel)
  have hfull : (run registryStep .initial departedCalls).all (fun history => decide (
      peerRegistryFindByEndpoint history.registry (.lit "10.0.0.8") 8080 = none ∧
      (addedEndpoints history.succeeded).length = peerRegistryMaxPeers)) = true := by
    decide +kernel
  rw [hrun] at hfull
  simp only [Option.all_some, decide_eq_true_eq] at hfull
  exact ⟨history, hrun, (add_refused_iff_full hrun (.lit "tv") 2 hfull.1).mpr hfull.2⟩

/-- None of the registered peers is there, and a new one is refused. -/
theorem departed_block_registry : ∃ history,
    run registryStep .initial departedCalls = some history ∧
      (∀ peer ∈ history.registry.entries, peer.active = false) ∧
      peerRegistryFindByEndpoint history.registry (.lit "10.0.0.8") 8080 = none ∧
      (peerRegistryAddOrUpdate history.registry (.lit "tv") (.lit "10.0.0.8") 8080 2).2 =
        false := by
  obtain ⟨history, hrun⟩ := Option.isSome_iff_exists.mp
    (show (run registryStep .initial departedCalls).isSome = true by decide +kernel)
  have hfull : (run registryStep .initial departedCalls).all (fun history => decide (
      (∀ peer ∈ history.registry.entries, peer.active = false) ∧
      peerRegistryFindByEndpoint history.registry (.lit "10.0.0.8") 8080 = none ∧
      (peerRegistryAddOrUpdate history.registry (.lit "tv") (.lit "10.0.0.8") 8080 2).2 =
        false)) = true := by
    decide +kernel
  rw [hrun] at hfull
  simp only [Option.all_some, decide_eq_true_eq] at hfull
  exact ⟨history, hrun, hfull⟩

end LocalDrop
