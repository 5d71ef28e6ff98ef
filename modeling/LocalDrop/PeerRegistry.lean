import LocalDrop.Auth
import LocalDrop.JsonUtils

/-! `peer_registry.c`. Entries are only ever appended or rewritten in place, each
call under the registry lock. -/
namespace LocalDrop
open Lib

def peerRegistryMaxPeers : Nat := 50

structure PeerInfo where
  name : Chars 256
  ip : Chars 46
  port : UInt16
  active : Bool
  paired : Bool
  lastSeen : Time
deriving DecidableEq

/-- The first `registry_count` entries of the array. -/
structure PeerRegistry where
  entries : List PeerInfo
  bounded : entries.length ≤ peerRegistryMaxPeers
deriving DecidableEq

def peerRegistryInit : PeerRegistry := ⟨[], by decide⟩

def PeerInfo.isFor (ip : CString) (port : UInt16) (peer : PeerInfo) : Bool :=
  peer.ip.str = ip && peer.port = port

def PeerRegistry.update (registry : PeerRegistry) (ip : CString) (port : UInt16)
    (f : PeerInfo → PeerInfo) : Option PeerRegistry :=
  match h : updateFirst (PeerInfo.isFor ip port) f registry.entries with
  | some entries => some ⟨entries, (updateFirst_length h).le.trans registry.bounded⟩
  | none => none

def PeerRegistry.push (registry : PeerRegistry) (peer : PeerInfo) : Option PeerRegistry :=
  if h : registry.entries.length < peerRegistryMaxPeers then
    some ⟨registry.entries ++ [peer], by rw [List.length_append]; exact h⟩
  else none

/-- A known endpoint is renamed and revived, a new one appended unpaired. -/
def peerRegistryAddOrUpdate (registry : PeerRegistry) (name ip : CString) (port : UInt16)
    (now : Time) : PeerRegistry × Bool :=
  match registry.update ip port fun peer =>
      { peer with name := copyString name, active := true, lastSeen := now } with
  | some updated => (updated, true)
  | none =>
      match registry.push
          { name := copyString name
            ip := copyString ip
            port := port
            active := true
            paired := false
            lastSeen := now } with
      | some extended => (extended, true)
      | none => (registry, false)

/-- Every entry of that name, whatever its endpoint. -/
def peerRegistryMarkInactive (registry : PeerRegistry) (name : CString) :
    PeerRegistry × Bool :=
  (⟨registry.entries.map fun peer =>
      if peer.name.str = name then { peer with active := false } else peer,
      by simpa using registry.bounded⟩,
    registry.entries.any fun peer => peer.name.str = name)

def peerRegistrySetPaired (registry : PeerRegistry) (ip : CString) (port : UInt16)
    (paired : Bool) : PeerRegistry × Bool :=
  match registry.update ip port fun peer => { peer with paired := paired } with
  | some updated => (updated, true)
  | none => (registry, false)

def peerRegistryFindByEndpoint (registry : PeerRegistry) (ip : CString) (port : UInt16) :
    Option PeerInfo :=
  registry.entries.find? (PeerInfo.isFor ip port)

def jsonBool (value : Bool) : CString := if value then .lit "true" else .lit "false"

def peerJson (peer : PeerInfo) : Bytes :=
  (CString.lit "\x7b\"name\":\"").bytes ++ jsonEscape peer.name.str ++
    (CString.lit "\",\"ip\":\"").bytes ++ jsonEscape peer.ip.str ++
    (CString.lit "\",\"port\":").bytes ++ decimal peer.port.toNat ++
    (CString.lit ",\"active\":").bytes ++ (jsonBool peer.active).bytes ++
    (CString.lit ",\"paired\":").bytes ++ (jsonBool peer.paired).bytes ++
    (CString.lit ",\"last_seen\":").bytes ++ formatLong peer.lastSeen ++
    (CString.lit "\x7d").bytes

def peerRegistrySnapshotJson (registry : PeerRegistry) : Bytes :=
  [91] ++ [44].intercalate (registry.entries.map peerJson) ++ [93]

section registry
variable {registry updated : PeerRegistry} {ip : CString} {port : UInt16}
  {f : PeerInfo → PeerInfo}

theorem PeerRegistry.update_entries (h : registry.update ip port f = some updated) :
    updateFirst (PeerInfo.isFor ip port) f registry.entries = some updated.entries := by
  unfold PeerRegistry.update at h
  split at h
  · rename_i entries hentries
    cases Option.some.inj h
    exact hentries
  · contradiction

theorem PeerRegistry.update_eq_none_iff :
    registry.update ip port f = none ↔ peerRegistryFindByEndpoint registry ip port = none := by
  have hnone : registry.update ip port f = none ↔
      updateFirst (PeerInfo.isFor ip port) f registry.entries = none := by
    unfold PeerRegistry.update
    split
    · rename_i hentries
      simp [hentries]
    · rename_i hentries
      simp [hentries]
  rw [hnone, updateFirst_eq_none]
  simp [peerRegistryFindByEndpoint]

theorem PeerRegistry.find_update (h : registry.update ip port f = some updated)
    (hf : ∀ peer, (f peer).ip = peer.ip ∧ (f peer).port = peer.port) :
    peerRegistryFindByEndpoint updated ip port =
      (peerRegistryFindByEndpoint registry ip port).map f :=
  find?_updateFirst (PeerRegistry.update_entries h)
    (fun peer => by simp [PeerInfo.isFor, hf peer])

theorem find_addOrUpdate (registry : PeerRegistry) (name : CString) (hip : ip.length < 46)
    (now : Time) :
    (peerRegistryFindByEndpoint
        (peerRegistryAddOrUpdate registry name ip port now).1 ip port).isSome = true ↔
      (peerRegistryFindByEndpoint registry ip port).isSome = true ∨
        registry.entries.length < peerRegistryMaxPeers := by
  unfold peerRegistryAddOrUpdate
  split
  · rename_i updated hupdate
    have hfind := PeerRegistry.find_update hupdate fun _ => ⟨rfl, rfl⟩
    have hknown : (peerRegistryFindByEndpoint registry ip port).isSome = true := by
      rw [← Option.ne_none_iff_isSome, ne_eq, ← PeerRegistry.update_eq_none_iff, hupdate]
      simp
    simp [hfind, hknown]
  · rename_i hupdate
    have hnone := PeerRegistry.update_eq_none_iff.mp hupdate
    unfold PeerRegistry.push
    split
    · rename_i extended hextended
      split at hextended
      · rename_i hroom
        cases Option.some.inj hextended
        simp [peerRegistryFindByEndpoint, PeerInfo.isFor, copyString_str_of_lt ip hip, hroom]
      · contradiction
    · rename_i hfull
      split at hfull
      · contradiction
      · rename_i hroom
        simp [hnone, hroom]

theorem find_setPaired (registry : PeerRegistry) (ip : CString) (port : UInt16) (paired : Bool) :
    peerRegistryFindByEndpoint (peerRegistrySetPaired registry ip port paired).1 ip port =
      (peerRegistryFindByEndpoint registry ip port).map fun peer =>
        { peer with paired := paired } := by
  unfold peerRegistrySetPaired
  split
  · rename_i updated hupdate
    exact PeerRegistry.find_update hupdate fun _ => ⟨rfl, rfl⟩
  · rename_i hupdate
    rw [PeerRegistry.update_eq_none_iff.mp hupdate]
    rfl

end registry

def PairedEndpoint (registry : PeerRegistry) (ip : CString) (port : UInt16) : Prop :=
  ∃ peer ∈ registry.entries, peer.paired = true ∧ peer.ip.str = ip ∧ peer.port = port

theorem pairedEndpoint_addOrUpdate {registry : PeerRegistry} {name ip : CString}
    {port : UInt16} {now : Time} {ip' : CString} {port' : UInt16}
    (h : PairedEndpoint (peerRegistryAddOrUpdate registry name ip port now).1 ip' port') :
    PairedEndpoint registry ip' port' := by
  obtain ⟨peer, hmem, hpaired, hip, hport⟩ := h
  unfold peerRegistryAddOrUpdate at hmem
  split at hmem
  · rename_i updated hupdate
    rcases mem_of_mem_updateFirst (PeerRegistry.update_entries hupdate) hmem with
      hold | ⟨old, hold, -, rfl⟩
    · exact ⟨peer, hold, hpaired, hip, hport⟩
    · exact ⟨old, hold, hpaired, hip, hport⟩
  · unfold PeerRegistry.push at hmem
    split at hmem
    · rename_i extended hextended
      split at hextended
      · cases Option.some.inj hextended
        rcases List.mem_append.mp hmem with hold | hnew
        · exact ⟨peer, hold, hpaired, hip, hport⟩
        · rw [List.mem_singleton.mp hnew] at hpaired
          contradiction
      · contradiction
    · exact ⟨peer, hmem, hpaired, hip, hport⟩

theorem pairedEndpoint_markInactive {registry : PeerRegistry} {name ip : CString}
    {port : UInt16} (h : PairedEndpoint (peerRegistryMarkInactive registry name).1 ip port) :
    PairedEndpoint registry ip port := by
  obtain ⟨peer, hmem, hpaired, hip, hport⟩ := h
  obtain ⟨old, hold, rfl⟩ := List.mem_map.mp hmem
  split at hpaired
  · rename_i hname
    simp only [hname, if_true] at hip hport
    exact ⟨old, hold, hpaired, hip, hport⟩
  · rename_i hname
    simp only [hname, if_false] at hip hport
    exact ⟨old, hold, hpaired, hip, hport⟩

theorem pairedEndpoint_setPaired {registry : PeerRegistry} {ip ip' : CString}
    {port port' : UInt16}
    (h : PairedEndpoint (peerRegistrySetPaired registry ip port true).1 ip' port') :
    PairedEndpoint registry ip' port' ∨ ip' = ip ∧ port' = port ∧
      (peerRegistryFindByEndpoint registry ip port).isSome = true := by
  obtain ⟨peer, hmem, hpaired, hip, hport⟩ := h
  unfold peerRegistrySetPaired at hmem
  split at hmem
  · rename_i updated hupdate
    rcases mem_of_mem_updateFirst (PeerRegistry.update_entries hupdate) hmem with
      hold | ⟨old, hold, hfor, rfl⟩
    · exact .inl ⟨peer, hold, hpaired, hip, hport⟩
    · have hknown : (peerRegistryFindByEndpoint registry ip port).isSome = true :=
        List.find?_isSome.mpr ⟨old, hold, hfor⟩
      simp only [PeerInfo.isFor, Bool.and_eq_true, decide_eq_true_eq] at hfor
      exact .inr ⟨hip.symm.trans hfor.1, hport.symm.trans hfor.2, hknown⟩
  · exact .inl ⟨peer, hmem, hpaired, hip, hport⟩

theorem PairedEndpoint.of_find {registry : PeerRegistry} {ip : CString} {port : UInt16}
    {peer : PeerInfo} (h : peerRegistryFindByEndpoint registry ip port = some peer)
    (hpaired : peer.paired = true) : PairedEndpoint registry ip port := by
  have hfor := List.find?_some h
  simp only [PeerInfo.isFor, Bool.and_eq_true, decide_eq_true_eq] at hfor
  exact ⟨peer, List.mem_of_find?_eq_some h, hpaired, hfor.1, hfor.2⟩

abbrev Endpoint := CString × UInt16

def PeerInfo.endpoint (peer : PeerInfo) : Endpoint := (peer.ip.str, peer.port)

def OneEntryEach (registry : PeerRegistry) : Prop :=
  (registry.entries.map PeerInfo.endpoint).Nodup

/-- Nothing is stored: the endpoint is new and there is no room for it. -/
def PeerRegistry.Refuses (registry : PeerRegistry) (ip : CString) (port : UInt16) : Prop :=
  peerRegistryFindByEndpoint registry ip port = none ∧
    registry.entries.length = peerRegistryMaxPeers

section endpoints
variable {registry : PeerRegistry} {name ip : CString} {port : UInt16} {now : Time}

theorem isFor_iff_endpoint {peer : PeerInfo} :
    peer.isFor ip port = true ↔ peer.endpoint = (ip, port) := by
  simp [PeerInfo.isFor, PeerInfo.endpoint]

theorem endpoints_markInactive :
    (peerRegistryMarkInactive registry name).1.entries.map PeerInfo.endpoint =
      registry.entries.map PeerInfo.endpoint := by
  unfold peerRegistryMarkInactive
  rw [List.map_map]
  refine List.map_congr_left fun peer _ => ?_
  simp only [Function.comp_apply]
  split <;> rfl

theorem oneEntryEach_markInactive (hone : OneEntryEach registry) :
    OneEntryEach (peerRegistryMarkInactive registry name).1 := by
  unfold OneEntryEach
  rw [endpoints_markInactive]
  exact hone

theorem addOrUpdate_cases
    (h : (peerRegistryAddOrUpdate registry name ip port now).2 = true) :
    (∃ pre old post, registry.entries = pre ++ old :: post ∧ old.endpoint = (ip, port) ∧
      (peerRegistryAddOrUpdate registry name ip port now).1.entries =
        pre ++ { old with name := copyString name, active := true, lastSeen := now } :: post) ∨
    (∀ peer ∈ registry.entries, peer.endpoint ≠ (ip, port)) ∧
      (peerRegistryAddOrUpdate registry name ip port now).1.entries =
        registry.entries ++ [⟨copyString name, copyString ip, port, true, false, now⟩] := by
  unfold peerRegistryAddOrUpdate at h ⊢
  split at h
  · rename_i updated hupdate
    left
    obtain ⟨pre, old, post, hentries, -, hfor, hentries'⟩ :=
      updateFirst_eq_some (PeerRegistry.update_entries hupdate)
    exact ⟨pre, old, post, hentries, isFor_iff_endpoint.mp hfor, hentries'⟩
  · rename_i hupdate
    right
    have hnone := PeerRegistry.update_eq_none_iff.mp hupdate
    split at h
    · rename_i extended hextended
      refine ⟨fun peer hmem hendpoint => ?_, ?_⟩
      · exact List.find?_eq_none.mp hnone peer hmem (isFor_iff_endpoint.mpr hendpoint)
      · unfold PeerRegistry.push at hextended
        split at hextended
        · exact (Option.some.inj hextended) ▸ rfl
        · contradiction
    · contradiction

theorem addOrUpdate_refused_iff :
    (peerRegistryAddOrUpdate registry name ip port now).2 = false ↔ registry.Refuses ip port := by
  have hbounded := registry.bounded
  unfold peerRegistryAddOrUpdate PeerRegistry.Refuses
  split
  · rename_i updated hupdate
    have hknown : ¬ peerRegistryFindByEndpoint registry ip port = none := by
      rw [← PeerRegistry.update_eq_none_iff, hupdate]
      exact Option.some_ne_none updated
    simp [hknown]
  · rename_i hupdate
    rw [PeerRegistry.update_eq_none_iff.mp hupdate]
    unfold PeerRegistry.push
    by_cases hroom : registry.entries.length < peerRegistryMaxPeers
    · rw [dif_pos hroom]
      exact iff_of_false (by simp) fun hfull => hroom.ne hfull.2
    · rw [dif_neg hroom]
      exact iff_of_true rfl ⟨rfl, Nat.le_antisymm hbounded (Nat.le_of_not_lt hroom)⟩

theorem oneEntryEach_addOrUpdate (hip : ip.length < 46) (hone : OneEntryEach registry)
    (h : (peerRegistryAddOrUpdate registry name ip port now).2 = true) :
    OneEntryEach (peerRegistryAddOrUpdate registry name ip port now).1 := by
  unfold OneEntryEach at hone ⊢
  rcases addOrUpdate_cases h with ⟨pre, old, post, hentries, hold, hafter⟩ | ⟨hnone, hafter⟩
  · rw [hentries] at hone
    rw [hafter]
    simpa [PeerInfo.endpoint] using hone
  · rw [hafter, List.map_append, List.nodup_append]
    refine ⟨hone, by simp, ?_⟩
    intro endpoint hmem other hother heq
    obtain ⟨peer, hpeer, rfl⟩ := List.mem_map.mp hmem
    refine hnone peer hpeer (heq.trans ?_)
    rw [List.map_singleton, List.mem_singleton] at hother
    rw [hother, PeerInfo.endpoint, copyString_str_of_lt ip hip]

def PeerRegistry.Grows (registry registry' : PeerRegistry) : Prop :=
  registry'.entries.map PeerInfo.endpoint = registry.entries.map PeerInfo.endpoint ∨
    registry.entries.length < peerRegistryMaxPeers ∧ ∃ endpoint,
      registry'.entries.map PeerInfo.endpoint =
        registry.entries.map PeerInfo.endpoint ++ [endpoint]

theorem find_isSome_iff :
    (peerRegistryFindByEndpoint registry ip port).isSome = true ↔
      (ip, port) ∈ registry.entries.map PeerInfo.endpoint := by
  rw [peerRegistryFindByEndpoint, List.find?_isSome, List.mem_map]
  exact exists_congr fun peer => and_congr_right fun _ => isFor_iff_endpoint

theorem PeerRegistry.update_endpoints {f : PeerInfo → PeerInfo} {updated : PeerRegistry}
    (h : registry.update ip port f = some updated)
    (hf : ∀ peer, (f peer).endpoint = peer.endpoint) :
    updated.entries.map PeerInfo.endpoint = registry.entries.map PeerInfo.endpoint := by
  obtain ⟨pre, old, post, hentries, -, -, hafter⟩ :=
    updateFirst_eq_some (PeerRegistry.update_entries h)
  rw [hentries, hafter]
  simp [hf]

theorem grows_addOrUpdate :
    registry.Grows (peerRegistryAddOrUpdate registry name ip port now).1 := by
  unfold peerRegistryAddOrUpdate
  split
  · rename_i updated hupdate
    exact .inl (PeerRegistry.update_endpoints hupdate fun _ => rfl)
  · split
    · rename_i extended hextended
      unfold PeerRegistry.push at hextended
      split at hextended
      · rename_i hroom
        cases Option.some.inj hextended
        exact .inr ⟨hroom, _, List.map_append⟩
      · contradiction
    · exact .inl rfl

theorem grows_setPaired {paired : Bool} :
    registry.Grows (peerRegistrySetPaired registry ip port paired).1 := by
  unfold peerRegistrySetPaired
  split
  · rename_i updated hupdate
    exact .inl (PeerRegistry.update_endpoints hupdate fun _ => rfl)
  · exact .inl rfl

theorem PeerRegistry.Grows.isSome {registry' : PeerRegistry} (h : registry.Grows registry')
    (hknown : (peerRegistryFindByEndpoint registry ip port).isSome = true) :
    (peerRegistryFindByEndpoint registry' ip port).isSome = true := by
  rw [find_isSome_iff] at hknown ⊢
  rcases h with hsame | ⟨-, endpoint, hmore⟩
  · rw [hsame]
    exact hknown
  · rw [hmore]
    exact List.mem_append_left _ hknown

theorem PeerRegistry.Grows.refuses {registry' : PeerRegistry} (h : registry.Grows registry')
    (hrefuses : registry.Refuses ip port) : registry'.Refuses ip port := by
  obtain ⟨hnone, hfull⟩ := hrefuses
  rcases h with hsame | ⟨hroom, -⟩
  · refine ⟨?_, ?_⟩
    · rw [← Option.not_isSome_iff_eq_none, find_isSome_iff] at hnone ⊢
      rw [hsame]
      exact hnone
    · rw [← hfull, ← List.length_map PeerInfo.endpoint, hsame, List.length_map]
  · exact absurd hfull hroom.ne

theorem not_refuses_iff : ¬ registry.Refuses ip port ↔
    (peerRegistryFindByEndpoint registry ip port).isSome = true ∨
      registry.entries.length < peerRegistryMaxPeers := by
  have hbounded := registry.bounded
  rw [PeerRegistry.Refuses, ← Option.not_isSome_iff_eq_none, not_and_or, not_not]
  exact or_congr_right (by omega)

end endpoints

end LocalDrop
