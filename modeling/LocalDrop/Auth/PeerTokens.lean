import LocalDrop.Auth

/-! What the peer-token functions of `auth.c` do to the table. Lookups only ever
retire expired records; an upsert rewrites exactly one slot. -/
namespace LocalDrop
open Lib

abbrev PeerTokenTable := Table maxPeerTokens PeerTokenRecord

def PeerTokenRecord.endpoint (record : PeerTokenRecord) : CString × UInt16 :=
  (record.peerIp.str, record.peerPort)

def UniqueEndpoints (table : PeerTokenTable) : Prop :=
  Unique (fun record : PeerTokenRecord => record.active = true)
    PeerTokenRecord.endpoint table.slots

def HasToken (table : PeerTokenTable) (peerIp : CString) (peerPort : UInt16)
    (now : Time) : Prop :=
  ∃ record ∈ table.slots, record.live now = true ∧ record.isFor peerIp peerPort = true

theorem uniqueEndpoints_replicate :
    UniqueEndpoints (.replicate maxPeerTokens default) := by
  refine List.pairwise_replicate.mpr (.inr ?_)
  intro h
  exact absurd h (by decide)

namespace PeerTokenRecord

@[simp] theorem isFor_eq_true {peerIp : CString} {peerPort : UInt16}
    {record : PeerTokenRecord} :
    record.isFor peerIp peerPort = true ↔
      record.active = true ∧ record.endpoint = (peerIp, peerPort) := by
  simp [isFor, endpoint, and_assoc]

@[simp] theorem live_eq_true {now : Time} {record : PeerTokenRecord} :
    record.live now = true ↔ record.active = true ∧ now < record.expiresAt := by
  simp [live]

@[simp] theorem grants_eq_true {peerIp token : CString} {record : PeerTokenRecord} :
    record.grants peerIp token = true ↔
      record.active = true ∧ record.peerIp.str = peerIp ∧ record.token.str = token := by
  simp [grants, and_assoc]

theorem retire_of_live {now : Time} {record : PeerTokenRecord}
    (h : record.live now = true) : record.retire now = record := by
  rw [live_eq_true] at h
  have hnot : ¬ (record.active = true ∧ record.expiresAt ≤ now) :=
    fun hstale => absurd hstale.2 (not_le.mpr h.2)
  rw [retire, if_neg hnot]

@[simp] theorem retire_endpoint (now : Time) (record : PeerTokenRecord) :
    (record.retire now).endpoint = record.endpoint := by
  unfold retire
  split <;> rfl

theorem active_retire {now : Time} {record : PeerTokenRecord} :
    (record.retire now).active = true ↔ record.live now = true := by
  unfold retire live
  split
  · rename_i h
    simp [h.2]
  · rename_i h
    rw [not_and, not_le] at h
    cases ha : record.active
    · simp
    · simp [h ha]

theorem retire_retire {now later : Time} (hnow : now ≤ later) (record : PeerTokenRecord) :
    (record.retire now).retire later = record.retire later := by
  unfold retire
  by_cases hstale : record.active = true ∧ record.expiresAt ≤ now
  · rw [if_pos hstale, if_neg (by simp), if_pos ⟨hstale.1, le_trans hstale.2 hnow⟩]
  · rw [if_neg hstale]

theorem retire_eq_of_active {now : Time} {record : PeerTokenRecord}
    (h : (record.retire now).active = true) : record.retire now = record :=
  retire_of_live (active_retire.mp h)

end PeerTokenRecord

open PeerTokenRecord

theorem upsertPeerTokenLocked_eq_some {table table' : PeerTokenTable} {peerIp : CString}
    {peerPort : UInt16} {peerName token : CString} {expiresAt : Time}
    (h : upsertPeerTokenLocked table peerIp peerPort peerName token expiresAt =
      some table') :
    ∃ pre old post, table.slots = pre ++ old :: post ∧
      table'.slots =
        pre ++ peerTokenRecord peerIp peerPort peerName token expiresAt :: post ∧
      (old.isFor peerIp peerPort = true ∨
        old.active = false ∧ ∀ r ∈ table.slots, r.isFor peerIp peerPort = false) := by
  unfold upsertPeerTokenLocked at h
  split at h
  · rename_i updated hfirst
    cases Option.some.inj h
    obtain ⟨pre, old, post, hslots, -, hold, hslots'⟩ :=
      updateFirst_eq_some (Table.updateFirst_slots hfirst)
    refine ⟨pre, old, post, hslots, ?_, .inl hold⟩
    rw [hslots']
    obtain ⟨hactive, hendpoint⟩ := isFor_eq_true.mp hold
    have hip : old.peerIp.str = peerIp := congrArg Prod.fst hendpoint
    have hport : old.peerPort = peerPort := congrArg Prod.snd hendpoint
    subst hip hport
    simp [peerTokenRecord, hactive]
  · rename_i hfirst
    obtain ⟨pre, old, post, hslots, -, hold, hslots'⟩ :=
      updateFirst_eq_some (Table.updateFirst_slots h)
    exact ⟨pre, old, post, hslots, hslots', .inr ⟨by simpa using hold,
      Table.updateFirst_eq_none.mp hfirst⟩⟩

theorem upsertPeerTokenLocked_eq_none {table : PeerTokenTable} {peerIp : CString}
    {peerPort : UInt16} {peerName token : CString} {expiresAt : Time} :
    upsertPeerTokenLocked table peerIp peerPort peerName token expiresAt = none ↔
      ∀ r ∈ table.slots, r.active = true ∧ r.isFor peerIp peerPort = false := by
  unfold upsertPeerTokenLocked
  split
  · rename_i updated hfirst
    obtain ⟨pre, old, post, hslots, -, hold, -⟩ :=
      updateFirst_eq_some (Table.updateFirst_slots hfirst)
    simp only [reduceCtorEq, false_iff]
    intro hall
    have hnot := (hall old (by simp [hslots])).2
    rw [hold] at hnot
    contradiction
  · rename_i hfirst
    rw [Table.updateFirst_eq_none] at hfirst ⊢
    constructor
    · intro hall r hr
      exact ⟨by simpa using hall r hr, hfirst r hr⟩
    · intro hall r hr
      simp [(hall r hr).1]

section upsert
variable {table table' : PeerTokenTable} {peerIp : CString} {peerPort : UInt16}
  {peerName token : CString} {expiresAt : Time}
  (h : upsertPeerTokenLocked table peerIp peerPort peerName token expiresAt = some table')
include h

theorem mem_upsert_new :
    peerTokenRecord peerIp peerPort peerName token expiresAt ∈ table'.slots := by
  obtain ⟨pre, old, post, -, hslots', -⟩ := upsertPeerTokenLocked_eq_some h
  simp [hslots']

theorem mem_upsert_of_mem {record : PeerTokenRecord} (hmem : record ∈ table.slots)
    (hactive : record.active = true) (hother : record.isFor peerIp peerPort = false) :
    record ∈ table'.slots := by
  obtain ⟨pre, old, post, hslots, hslots', hold⟩ := upsertPeerTokenLocked_eq_some h
  rw [hslots] at hmem
  rw [hslots']
  rcases List.mem_append.mp hmem with hmem | hmem
  · exact List.mem_append_left _ hmem
  · rcases List.mem_cons.mp hmem with rfl | hmem
    · rcases hold with hold | ⟨hold, -⟩
      · rw [hold] at hother
        contradiction
      · rw [hold] at hactive
        contradiction
    · exact List.mem_append_right _ (List.mem_cons_of_mem _ hmem)

theorem mem_of_mem_upsert {record : PeerTokenRecord} (hmem : record ∈ table'.slots) :
    record ∈ table.slots ∨
      record = peerTokenRecord peerIp peerPort peerName token expiresAt := by
  obtain ⟨pre, old, post, hslots, hslots', -⟩ := upsertPeerTokenLocked_eq_some h
  rw [hslots'] at hmem
  rw [hslots]
  rcases List.mem_append.mp hmem with hmem | hmem
  · exact .inl (List.mem_append_left _ hmem)
  · rcases List.mem_cons.mp hmem with rfl | hmem
    · exact .inr rfl
    · exact .inl (List.mem_append_right _ (List.mem_cons_of_mem _ hmem))

theorem uniqueEndpoints_upsert (hip : peerIp.length < 46) (hunique : UniqueEndpoints table) :
    UniqueEndpoints table' := by
  obtain ⟨pre, old, post, hslots, hslots', hold⟩ := upsertPeerTokenLocked_eq_some h
  have hkey : (peerTokenRecord peerIp peerPort peerName token expiresAt).endpoint =
      (peerIp, peerPort) := by
    simp [endpoint, peerTokenRecord, copyString_str_of_lt peerIp hip]
  unfold UniqueEndpoints at hunique ⊢
  rw [hslots] at hunique
  rw [hslots']
  rcases hold with hold | ⟨-, hnone⟩
  · obtain ⟨hactive, hendpoint⟩ := isFor_eq_true.mp hold
    exact hunique.replace_same hactive (hkey.trans hendpoint.symm)
  · apply hunique.replace
    intro _ z hz hactive hsame
    have hmem : z ∈ table.slots := by
      rw [hslots]
      simp only [List.mem_append, List.mem_cons]
      rcases hz with hz | hz
      · exact .inl hz
      · exact .inr (.inr hz)
    have hfor : z.isFor peerIp peerPort = true := isFor_eq_true.mpr ⟨hactive, hsame.trans hkey⟩
    rw [hnone z hmem] at hfor
    contradiction

end upsert

def lookupPeerTokens (table : PeerTokenTable) (hit : PeerTokenRecord → Bool) (now : Time) :
    PeerTokenTable × Option PeerTokenRecord :=
  table.sweep (PeerTokenRecord.retire now) hit id

section lookup
variable {table : PeerTokenTable} {hit : PeerTokenRecord → Bool} {now : Time}

theorem mem_lookup_of_live {record : PeerTokenRecord} (hmem : record ∈ table.slots)
    (hlive : record.live now = true) :
    record ∈ (lookupPeerTokens table hit now).1.slots :=
  mem_sweep_of_mem hmem (retire_of_live hlive) fun _ => rfl

theorem mem_of_mem_lookup {record : PeerTokenRecord}
    (hmem : record ∈ (lookupPeerTokens table hit now).1.slots)
    (hactive : record.active = true) : record ∈ table.slots := by
  obtain ⟨old, hold, h | h | ⟨-, h⟩⟩ := mem_of_mem_sweep hmem
  · exact h ▸ hold
  · subst h
    rwa [retire_eq_of_active hactive]
  · simp only [id_eq] at h
    subst h
    rwa [retire_eq_of_active hactive]

theorem uniqueEndpoints_lookup (hhit : ∀ r, hit r = true → r.active = true)
    (hunique : UniqueEndpoints table) :
    UniqueEndpoints (lookupPeerTokens table hit now).1 :=
  Unique.sweep hunique (fun _ hr => (live_eq_true.mp (active_retire.mp hr)).1)
    (retire_endpoint now) hhit fun _ => rfl

theorem lookup_eq_some {record : PeerTokenRecord}
    (hhit : ∀ r, hit r = true → r.active = true)
    (h : (lookupPeerTokens table hit now).2 = some record) :
    record ∈ table.slots ∧ record.live now = true ∧ hit record = true := by
  obtain ⟨old, hold, rfl, hr⟩ := sweep_eq_some h
  have hactive := hhit _ hr
  have hlive := active_retire.mp hactive
  rw [retire_of_live hlive] at hr ⊢
  exact ⟨hold, hlive, hr⟩

theorem lookup_isSome_iff (hhit : ∀ r, hit r = true → r.active = true) :
    (lookupPeerTokens table hit now).2.isSome = true ↔
      ∃ record ∈ table.slots, record.live now = true ∧ hit record = true := by
  constructor
  · intro h
    obtain ⟨record, hr⟩ := Option.isSome_iff_exists.mp h
    exact ⟨record, lookup_eq_some hhit hr⟩
  · rintro ⟨record, hmem, hlive, hr⟩
    refine sweep_isSome_iff.mpr ⟨record, hmem, ?_⟩
    rwa [retire_of_live hlive]

end lookup

theorem authGetPeerToken_eq (auth : Auth) (peerIp : CString) (peerPort : UInt16) (now : Time) :
    authGetPeerToken auth peerIp peerPort now =
      let found := lookupPeerTokens auth.peerTokens (isFor peerIp peerPort) now
      ({ auth with peerTokens := found.1 }, found.2.map fun record => record.token.str) := rfl

theorem authGetPeerToken_eq_some_iff {auth : Auth} (hunique : UniqueEndpoints auth.peerTokens)
    {peerIp : CString} {peerPort : UInt16} {now : Time} {token : CString} :
    (authGetPeerToken auth peerIp peerPort now).2 = some token ↔
      ∃ record ∈ auth.peerTokens.slots, record.live now = true ∧
        record.isFor peerIp peerPort = true ∧ record.token.str = token := by
  have hhit : ∀ r, isFor peerIp peerPort r = true → r.active = true :=
    fun r hr => (isFor_eq_true.mp hr).1
  rw [authGetPeerToken_eq]
  dsimp only
  constructor
  · intro h
    obtain ⟨record, hrecord, rfl⟩ := Option.map_eq_some_iff.mp h
    obtain ⟨hmem, hlive, hfor⟩ := lookup_eq_some hhit hrecord
    exact ⟨record, hmem, hlive, hfor, rfl⟩
  · rintro ⟨record, hmem, hlive, hfor, rfl⟩
    obtain ⟨found, hfound⟩ := Option.isSome_iff_exists.mp
      ((lookup_isSome_iff hhit).mpr ⟨record, hmem, hlive, hfor⟩)
    obtain ⟨hmem', hlive', hfor'⟩ := lookup_eq_some hhit hfound
    have hsame : found = record := by
      rw [isFor_eq_true] at hfor hfor'
      exact hunique.eq_of_key hmem' hmem hfor'.1 hfor.1 (hfor'.2.trans hfor.2.symm)
    rw [hfound, hsame]
    rfl

theorem authGetPeerToken_isSome_iff {auth : Auth} {peerIp : CString} {peerPort : UInt16}
    {now : Time} :
    (authGetPeerToken auth peerIp peerPort now).2.isSome = true ↔
      HasToken auth.peerTokens peerIp peerPort now := by
  rw [authGetPeerToken_eq, Option.isSome_map]
  exact lookup_isSome_iff fun r hr => (isFor_eq_true.mp hr).1

theorem authValidatePeerToken_iff {auth : Auth} {peerIp token : CString} {now : Time} :
    (authValidatePeerToken auth peerIp token now).2 = true ↔
      token ≠ CString.empty ∧ ∃ record ∈ auth.peerTokens.slots,
        record.live now = true ∧ record.grants peerIp token = true := by
  unfold authValidatePeerToken
  split
  · rename_i hempty
    simp [hempty]
  · rename_i hne
    simp only [ne_eq, hne, not_false_eq_true, true_and]
    exact lookup_isSome_iff fun r hr => (grants_eq_true.mp hr).1

theorem ensurePairingCodeLocked_eq_some {auth current : Auth} {now : Time}
    {random : RandomBytes 6} (h : ensurePairingCodeLocked auth now random = some current) :
    now < current.pairingCodeExpiresAt ∧ current =
      { auth with
        pairingCode := current.pairingCode
        pairingCodeExpiresAt := current.pairingCodeExpiresAt } := by
  unfold ensurePairingCodeLocked at h
  split at h
  · rename_i hcurrent
    cases Option.some.inj h
    exact ⟨hcurrent.1, rfl⟩
  · obtain ⟨code, -, rfl⟩ := Option.map_eq_some_iff.mp h
    exact ⟨Int.lt_add_of_pos_right now (by decide), rfl⟩

theorem authIssuePairToken_eq_some {auth auth' : Auth} {peerIp peerName : CString}
    {peerPort : UInt16} {provided : CString} {now : Time} {codeRandom : RandomBytes 6}
    {random : RandomBytes 32} {token : CString} {expiresAt : Time}
    (h : authIssuePairToken auth peerIp peerName peerPort provided now codeRandom random =
      (auth', some (token, expiresAt))) :
    ∃ current table, ensurePairingCodeLocked auth now codeRandom = some current ∧
      current.pairingCode.str = provided ∧ cryptoRandomToken random = some token ∧
      expiresAt = now + peerTokenTtlSeconds ∧
      upsertPeerTokenLocked auth.peerTokens peerIp peerPort peerName token expiresAt =
        some table ∧
      auth' = { current with peerTokens := table } := by
  unfold authIssuePairToken at h
  split at h
  · simp at h
  · rename_i current hcurrent
    split at h
    · simp at h
    · rename_i hcode
      split at h
      · simp at h
      · rename_i fresh hfresh
        dsimp only at h
        split at h
        · simp at h
        · rename_i table htable
          simp only [Prod.mk.injEq, Option.some.injEq] at h
          obtain ⟨rfl, rfl, rfl⟩ := h
          have htokens : current.peerTokens = auth.peerTokens := by
            rw [(ensurePairingCodeLocked_eq_some hcurrent).2]
          rw [htokens] at htable
          exact ⟨current, table, hcurrent, by simpa using hcode, hfresh, rfl, htable, rfl⟩

theorem authStorePeerToken_eq_true {auth auth' : Auth} {peerIp : CString} {peerPort : UInt16}
    {peerName token : CString} {expiresAt : Time}
    (h : authStorePeerToken auth peerIp peerPort peerName token expiresAt = (auth', true)) :
    ∃ table, upsertPeerTokenLocked auth.peerTokens peerIp peerPort peerName token expiresAt =
      some table ∧ auth' = { auth with peerTokens := table } := by
  unfold authStorePeerToken at h
  split at h
  · simp at h
  · rename_i table htable
    simp only [Prod.mk.injEq, and_true] at h
    exact ⟨table, htable, h.symm⟩

end LocalDrop
