import LocalDrop.Auth
import LocalDrop.Lib.FixedWindow

/-! `auth_rate_limit_allow` against a map of fixed windows. The 64 slots hold the map:
records that have run out may still be active, but a key never has two active records,
and a lookup that finds none has retired every one that has run out. -/
namespace LocalDrop
open Lib

abbrev RateLimitTable := Table maxRateLimits RateLimitRecord

namespace RateLimitRecord

def key (record : RateLimitRecord) : CString × CString := (record.clientIp.str, record.scope.str)

def live (length now : Time) (record : RateLimitRecord) : Bool :=
  record.active && now < record.windowStartedAt + length

def window (record : RateLimitRecord) : Window := ⟨record.windowStartedAt, record.count⟩

@[simp] theorem live_eq_true {length now : Time} {record : RateLimitRecord} :
    record.live length now = true ↔
      record.active = true ∧ now < record.windowStartedAt + length := by
  simp [live]

@[simp] theorem isFor_eq_true {clientIp scope : CString} {record : RateLimitRecord} :
    record.isFor clientIp scope = true ↔
      record.active = true ∧ record.key = (clientIp, scope) := by
  simp [isFor, key, and_assoc]

@[simp] theorem retire_key (length now : Time) (record : RateLimitRecord) :
    (record.retire length now).key = record.key := by
  unfold retire
  split <;> rfl

theorem retire_of_live {length now : Time} {record : RateLimitRecord}
    (h : record.live length now = true) : record.retire length now = record := by
  rw [live_eq_true] at h
  have hnot : ¬ (record.active = true ∧ record.windowStartedAt + length ≤ now) :=
    fun hstale => absurd hstale.2 (not_le.mpr h.2)
  rw [retire, if_neg hnot]

theorem active_retire {length now : Time} {record : RateLimitRecord} :
    (record.retire length now).active = true ↔ record.live length now = true := by
  unfold retire live
  split
  · rename_i h
    simp [h.2]
  · rename_i h
    rw [not_and, not_le] at h
    cases ha : record.active
    · simp
    · simp [h ha]

theorem live_retire {length now : Time} {record : RateLimitRecord} :
    (record.retire length now).live length now = true ↔ record.live length now = true := by
  constructor
  · intro h
    exact active_retire.mp (live_eq_true.mp h).1
  · intro h
    rwa [retire_of_live h]

end RateLimitRecord

open RateLimitRecord

def UniqueKeys (table : RateLimitTable) : Prop :=
  Unique (fun record : RateLimitRecord => record.active = true) RateLimitRecord.key table.slots

/-- The map of open windows that the table holds. -/
def rateWindows (length now : Time) (table : RateLimitTable) :
    CString × CString → Option Window :=
  fun key => (table.slots.find? fun record => record.live length now && record.key = key).map
    RateLimitRecord.window

theorem uniqueKeys_replicate : UniqueKeys (.replicate maxRateLimits default) := by
  refine List.pairwise_replicate.mpr (.inr ?_)
  intro h
  exact absurd h (by decide)

section windows
variable {length now : Time} {table table' : RateLimitTable}

theorem rateWindows_eq_some_iff (hunique : UniqueKeys table) {key : CString × CString}
    {window : Window} :
    rateWindows length now table key = some window ↔ ∃ record ∈ table.slots,
      record.live length now = true ∧ record.key = key ∧ record.window = window := by
  rw [rateWindows, Option.map_eq_some_iff]
  constructor
  · rintro ⟨record, hfind, hwindow⟩
    have hfound := List.find?_some hfind
    rw [Bool.and_eq_true, decide_eq_true_eq] at hfound
    exact ⟨record, List.mem_of_find?_eq_some hfind, hfound.1, hfound.2, hwindow⟩
  · rintro ⟨record, hmem, hlive, hkey, hwindow⟩
    have hsome : (table.slots.find? fun record =>
        record.live length now && record.key = key).isSome = true :=
      List.find?_isSome.mpr ⟨record, hmem, by simp [hlive, hkey]⟩
    obtain ⟨found, hfind⟩ := Option.isSome_iff_exists.mp hsome
    have hfound := List.find?_some hfind
    rw [Bool.and_eq_true, decide_eq_true_eq] at hfound
    have hsame : found = record := hunique.eq_of_key (List.mem_of_find?_eq_some hfind) hmem
      (live_eq_true.mp hfound.1).1 (live_eq_true.mp hlive).1 (hfound.2.trans hkey.symm)
    exact ⟨record, hsame ▸ hfind, hwindow⟩

theorem rateWindows_eq_none_iff {key : CString × CString} :
    rateWindows length now table key = none ↔
      ∀ record ∈ table.slots, record.live length now = true → record.key ≠ key := by
  simp [rateWindows]

theorem rateWindows_congr (hunique : UniqueKeys table) (hunique' : UniqueKeys table')
    (h : ∀ record : RateLimitRecord, record.live length now = true →
      (record ∈ table'.slots ↔ record ∈ table.slots)) :
    rateWindows length now table' = rateWindows length now table := by
  funext key
  apply Option.ext
  intro window
  rw [rateWindows_eq_some_iff hunique, rateWindows_eq_some_iff hunique']
  refine exists_congr fun record => ?_
  constructor
  · rintro ⟨hmem, hlive, hrest⟩
    exact ⟨(h record hlive).mp hmem, hlive, hrest⟩
  · rintro ⟨hmem, hlive, hrest⟩
    exact ⟨(h record hlive).mpr hmem, hlive, hrest⟩

theorem rateWindows_update (hunique : UniqueKeys table) (hunique' : UniqueKeys table')
    {new : RateLimitRecord} (hnew : new.live length now = true)
    (h : ∀ record : RateLimitRecord, record.live length now = true →
      (record ∈ table'.slots ↔ record = new ∨ record ∈ table.slots ∧ record.key ≠ new.key)) :
    rateWindows length now table' =
      Function.update (rateWindows length now table) new.key (some new.window) := by
  funext key
  apply Option.ext
  intro window
  rw [rateWindows_eq_some_iff hunique']
  by_cases hkey : key = new.key
  · subst hkey
    rw [Function.update_self, Option.some.injEq]
    constructor
    · rintro ⟨record, hmem, hlive, hsame, rfl⟩
      rcases (h record hlive).mp hmem with rfl | ⟨-, hother⟩
      · rfl
      · exact absurd hsame hother
    · rintro rfl
      exact ⟨new, (h new hnew).mpr (.inl rfl), hnew, rfl, rfl⟩
  · rw [Function.update_of_ne hkey, rateWindows_eq_some_iff hunique]
    constructor
    · rintro ⟨record, hmem, hlive, rfl, hwindow⟩
      rcases (h record hlive).mp hmem with rfl | ⟨hold, -⟩
      · exact absurd rfl hkey
      · exact ⟨record, hold, hlive, rfl, hwindow⟩
    · rintro ⟨record, hmem, hlive, rfl, hwindow⟩
      exact ⟨record, (h record hlive).mpr (.inr ⟨hmem, hkey⟩), hlive, rfl, hwindow⟩

theorem rateWindows_later (hunique : UniqueKeys table) {later : Time} (hlater : now ≤ later) :
    rateWindows length later table =
      Window.current length later (rateWindows length now table) := by
  funext key
  apply Option.ext
  intro window
  rw [rateWindows_eq_some_iff hunique, Window.current, Option.filter_eq_some_iff,
    rateWindows_eq_some_iff hunique]
  constructor
  · rintro ⟨record, hmem, hlive, hkey, rfl⟩
    rw [live_eq_true] at hlive
    have hbefore := live_eq_true.mpr ⟨hlive.1, lt_of_le_of_lt hlater hlive.2⟩
    refine ⟨⟨record, hmem, hbefore, hkey, rfl⟩, ?_⟩
    exact decide_eq_true hlive.2
  · rintro ⟨⟨record, hmem, hlive, hkey, rfl⟩, hopen⟩
    exact ⟨record, hmem,
      live_eq_true.mpr ⟨(live_eq_true.mp hlive).1, of_decide_eq_true hopen⟩, hkey, rfl⟩

theorem ncard_rateWindows (hunique : UniqueKeys table) :
    {key | rateWindows length now table key ≠ none}.ncard =
      (table.slots.filter (RateLimitRecord.live length now)).length := by
  have hnodup : ((table.slots.filter (RateLimitRecord.live length now)).map
      RateLimitRecord.key).Nodup := by
    rw [List.Nodup, List.pairwise_map]
    refine (List.Pairwise.filter _ hunique).imp_of_mem ?_
    intro a b ha hb hab
    exact hab (live_eq_true.mp (List.mem_filter.mp ha).2).1
      (live_eq_true.mp (List.mem_filter.mp hb).2).1
  have hkeys : {key | rateWindows length now table key ≠ none} =
      ↑((table.slots.filter (RateLimitRecord.live length now)).map
        RateLimitRecord.key).toFinset := by
    ext key
    simp [rateWindows_eq_none_iff, and_assoc]
  rw [hkeys, Set.ncard_coe_finset, List.toFinset_card_of_nodup hnodup, List.length_map]

end windows

theorem rateWindows_init {auth : Auth}
    (hauth : auth.rateLimits = .replicate maxRateLimits default) (length now : Time) :
    rateWindows length now auth.rateLimits = fun _ => none := by
  funext key
  rw [rateWindows_eq_none_iff, hauth]
  intro record hmem hlive
  rw [List.eq_of_mem_replicate hmem] at hlive
  contradiction

section call
variable {auth : Auth} {clientIp scope : CString} {limit : Nat} {length now : Time}

def RateLimitRecord.counted (limit : Nat) (record : RateLimitRecord) : RateLimitRecord :=
  if limit ≤ record.count then record else { record with count := record.count + 1 }

@[simp] theorem RateLimitRecord.counted_key (limit : Nat) (record : RateLimitRecord) :
    (record.counted limit).key = record.key := by
  unfold counted
  split <;> rfl

def newRateLimitRecord (clientIp scope : CString) (now : Time) : RateLimitRecord where
  active := true
  clientIp := copyString clientIp
  scope := copyString scope
  count := 1
  windowStartedAt := now

/-- The key has an open window: the scan stops at its record, and the records behind it
are as they were. -/
theorem authRateLimitAllow_of_hit (hlimit : 0 < limit) (hlength : 0 < length)
    {pre post : List RateLimitRecord} {record : RateLimitRecord}
    (hslots : auth.rateLimits.slots = pre ++ record :: post)
    (hpre : ∀ other ∈ pre, (other.retire length now).isFor clientIp scope = false)
    (hlive : record.live length now = true) (hkey : record.key = (clientIp, scope)) :
    ∃ table : RateLimitTable,
      table.slots = pre.map (RateLimitRecord.retire length now) ++ record.counted limit :: post ∧
      authRateLimitAllow auth clientIp scope limit length now =
        ({ auth with rateLimits := table },
          if limit ≤ record.count then
            .refused (some (CString.lit "Limite de requisicoes atingido para " ++ scope))
          else .allowed) := by
  have hhit : (record.retire length now).isFor clientIp scope = true := by
    rw [retire_of_live hlive]
    exact isFor_eq_true.mpr ⟨(live_eq_true.mp hlive).1, hkey⟩
  have hsweep := sweep_of_hit (f := RateLimitRecord.counted limit) pre record post hpre hhit
  rw [retire_of_live hlive, ← hslots] at hsweep
  refine ⟨(auth.rateLimits.sweep (RateLimitRecord.retire length now)
    (RateLimitRecord.isFor clientIp scope) (RateLimitRecord.counted limit)).1, ?_, ?_⟩
  · exact congrArg Prod.fst hsweep
  · have hfound : (auth.rateLimits.sweep (RateLimitRecord.retire length now)
        (RateLimitRecord.isFor clientIp scope) (RateLimitRecord.counted limit)).2 = some record :=
      congrArg Prod.snd hsweep
    unfold authRateLimitAllow
    rw [if_neg (not_or.mpr ⟨hlimit.ne', not_le.mpr hlength⟩)]
    dsimp only
    split
    · rename_i other hother
      obtain rfl := Option.some.inj (hother.symm.trans hfound)
      split <;> rfl
    · rename_i hnone
      exact absurd (hnone.symm.trans hfound) (by simp)

/-- The key has none: every record that has run out is retired, and the first slot that
is then free takes a new record. -/
theorem authRateLimitAllow_of_miss (hlimit : 0 < limit) (hlength : 0 < length)
    (hmiss : ∀ record ∈ auth.rateLimits.slots,
      (record.retire length now).isFor clientIp scope = false) :
    ∃ swept : RateLimitTable,
      swept.slots = auth.rateLimits.slots.map (RateLimitRecord.retire length now) ∧
      authRateLimitAllow auth clientIp scope limit length now =
        match swept.updateFirst (fun record => !record.active)
            (fun _ => newRateLimitRecord clientIp scope now) with
        | none => ({ auth with rateLimits := swept }, .refused none)
        | some table => ({ auth with rateLimits := table }, .allowed) := by
  have hsweep := sweep_of_miss (f := RateLimitRecord.counted limit) hmiss
  refine ⟨(auth.rateLimits.sweep (RateLimitRecord.retire length now)
    (RateLimitRecord.isFor clientIp scope) (RateLimitRecord.counted limit)).1, ?_, ?_⟩
  · exact congrArg Prod.fst hsweep
  · have hfound : (auth.rateLimits.sweep (RateLimitRecord.retire length now)
        (RateLimitRecord.isFor clientIp scope) (RateLimitRecord.counted limit)).2 = none :=
      congrArg Prod.snd hsweep
    unfold authRateLimitAllow
    rw [if_neg (not_or.mpr ⟨hlimit.ne', not_le.mpr hlength⟩)]
    dsimp only
    split
    · rename_i other hother
      exact absurd (hother.symm.trans hfound) (by simp)
    · rfl

theorem newRateLimitRecord_key (hip : clientIp.length < 46) (hscope : scope.length < 32) :
    (newRateLimitRecord clientIp scope now).key = (clientIp, scope) := by
  simp [newRateLimitRecord, RateLimitRecord.key, copyString_str_of_lt clientIp hip,
    copyString_str_of_lt scope hscope]

theorem mem_map_retire {record : RateLimitRecord} (hlive : record.live length now = true)
    {slots : List RateLimitRecord} :
    record ∈ slots.map (RateLimitRecord.retire length now) ↔ record ∈ slots := by
  constructor
  · intro hmem
    obtain ⟨old, hold, rfl⟩ := List.mem_map.mp hmem
    rw [live_retire] at hlive
    rwa [retire_of_live hlive]
  · intro hmem
    exact List.mem_map.mpr ⟨record, hmem, retire_of_live hlive⟩

theorem uniqueKeys_map_retire {table swept : RateLimitTable} (hunique : UniqueKeys table)
    (hswept : swept.slots = table.slots.map (RateLimitRecord.retire length now)) :
    UniqueKeys swept := by
  unfold UniqueKeys
  rw [hswept]
  exact Unique.map hunique (fun _ h => (live_eq_true.mp (active_retire.mp h)).1)
    (retire_key length now)

theorem newRateLimitRecord_live (hlength : 0 < length) :
    (newRateLimitRecord clientIp scope now).live length now = true := by
  simp only [live_eq_true, newRateLimitRecord, true_and]
  exact Int.lt_add_of_pos_right now hlength

theorem rateWindows_insert {swept table : RateLimitTable} (hip : clientIp.length < 46)
    (hscope : scope.length < 32) (hlength : 0 < length) (hunique : UniqueKeys swept)
    (hactive : ∀ record ∈ swept.slots, record.active = true → record.live length now = true)
    (hnone : rateWindows length now swept (clientIp, scope) = none)
    (h : swept.updateFirst (fun record => !record.active)
      (fun _ => newRateLimitRecord clientIp scope now) = some table) :
    UniqueKeys table ∧ rateWindows length now table =
      Function.update (rateWindows length now swept) (clientIp, scope) (some ⟨now, 1⟩) := by
  obtain ⟨pre, old, post, hslots, -, hold, hslots'⟩ :=
    updateFirst_eq_some (Table.updateFirst_slots h)
  have hkey := @newRateLimitRecord_key _ _ now hip hscope
  have hlive := @newRateLimitRecord_live clientIp scope _ now hlength
  have hfree : ∀ record ∈ swept.slots, record.active = true →
      record.key ≠ (newRateLimitRecord clientIp scope now).key := by
    intro record hmem ha
    rw [hkey]
    exact rateWindows_eq_none_iff.mp hnone record hmem (hactive record hmem ha)
  have hunique' : UniqueKeys table := by
    unfold UniqueKeys at hunique ⊢
    rw [hslots] at hunique
    rw [hslots']
    refine hunique.replace fun _ z hz ha => hfree z ?_ ha
    simp only [hslots, List.mem_append, List.mem_cons]
    rcases hz with hz | hz
    · exact .inl hz
    · exact .inr (.inr hz)
  refine ⟨hunique', ?_⟩
  rw [← hkey]
  refine rateWindows_update hunique hunique' hlive fun record hrecord => ?_
  have ha := (live_eq_true.mp hrecord).1
  have hne : record ≠ old := by
    rintro rfl
    simp [ha] at hold
  rw [hslots', hslots]
  simp only [List.mem_append, List.mem_cons, hne, false_or]
  constructor
  · rintro (hmem | rfl | hmem)
    · exact .inr ⟨.inl hmem, hfree record (by simp [hslots, hmem]) ha⟩
    · exact .inl rfl
    · exact .inr ⟨.inr hmem, hfree record (by simp [hslots, hmem]) ha⟩
  · rintro (rfl | ⟨hmem | hmem, -⟩)
    · exact .inr (.inl rfl)
    · exact .inl hmem
    · exact .inr (.inr hmem)

theorem rateWindows_count {table table' : RateLimitTable} {pre post : List RateLimitRecord}
    {record : RateLimitRecord} (hunique : UniqueKeys table)
    (hslots : table.slots = pre ++ record :: post)
    (hlive : record.live length now = true)
    (hslots' : table'.slots =
      pre.map (RateLimitRecord.retire length now) ++ record.counted limit :: post) :
    UniqueKeys table' ∧ rateWindows length now table' =
      Function.update (rateWindows length now table) record.key
        (some (record.counted limit).window) := by
  have hcounted : (record.counted limit).live length now = true := by
    unfold RateLimitRecord.counted
    split
    · exact hlive
    · exact hlive
  have hother : ∀ z, z ∈ pre ∨ z ∈ post → z.active = true → z.key ≠ record.key := by
    intro z hz hz'
    unfold UniqueKeys Lib.Unique at hunique
    rw [hslots, List.pairwise_append, List.pairwise_cons] at hunique
    rcases hz with hz | hz
    · exact hunique.2.2 z hz record (by simp) hz' (live_eq_true.mp hlive).1
    · exact (hunique.2.1.1 z hz (live_eq_true.mp hlive).1 hz').symm
  have hunique' : UniqueKeys table' := by
    unfold UniqueKeys at hunique ⊢
    rw [hslots] at hunique
    rw [hslots']
    have hpre := hunique.map_append
      (fun _ h => (live_eq_true.mp (active_retire.mp h)).1) (retire_key length now)
    exact hpre.replace_same (live_eq_true.mp hlive).1 (counted_key limit record)
  refine ⟨hunique', ?_⟩
  rw [← counted_key limit record]
  refine rateWindows_update hunique hunique' hcounted fun other hrecord => ?_
  have ha := (live_eq_true.mp hrecord).1
  rw [hslots', hslots]
  simp only [List.mem_append, List.mem_cons, mem_map_retire hrecord, counted_key]
  constructor
  · rintro (hmem | rfl | hmem)
    · exact .inr ⟨.inl hmem, hother other (.inl hmem) ha⟩
    · exact .inl rfl
    · exact .inr ⟨.inr (.inr hmem), hother other (.inr hmem) ha⟩
  · rintro (rfl | ⟨hmem | rfl | hmem, hne⟩)
    · exact .inr (.inl rfl)
    · exact .inl hmem
    · exact absurd rfl hne
    · exact .inr (.inr hmem)

theorem length_filter_live_lt_iff (table : RateLimitTable) :
    (table.slots.filter (RateLimitRecord.live length now)).length < maxRateLimits ↔
      ∃ record ∈ table.slots, (record.retire length now).active = false := by
  have hsize := table.size
  have hlt := List.length_filter_lt_length_iff_exists (l := table.slots)
    (p := RateLimitRecord.live length now)
  rw [hsize] at hlt
  rw [hlt]
  refine exists_congr fun record => and_congr_right fun _ => ?_
  rw [← active_retire, Bool.not_eq_true]

/-- One call is a call on the map of windows, and keeps it a map. -/
theorem authRateLimitAllow_refines (hip : clientIp.length < 46) (hscope : scope.length < 32)
    (hlimit : 0 < limit) (hlength : 0 < length) (hunique : UniqueKeys auth.rateLimits) :
    UniqueKeys (authRateLimitAllow auth clientIp scope limit length now).1.rateLimits ∧
      (rateWindows length now
          (authRateLimitAllow auth clientIp scope limit length now).1.rateLimits,
        decide ((authRateLimitAllow auth clientIp scope limit length now).2 = .allowed)) =
      Window.call maxRateLimits (rateWindows length now auth.rateLimits) (clientIp, scope) limit
        now := by
  rcases sweep_cases (RateLimitRecord.retire length now) (RateLimitRecord.isFor clientIp scope)
    (RateLimitRecord.counted limit) auth.rateLimits.slots with
    ⟨hmiss, -⟩ | ⟨pre, record, post, hslots, hpre, hhit, -⟩
  · obtain ⟨swept, hswept, hcall⟩ := authRateLimitAllow_of_miss hlimit hlength hmiss
    have huniqueSwept := uniqueKeys_map_retire hunique hswept
    have hsame : rateWindows length now swept = rateWindows length now auth.rateLimits :=
      rateWindows_congr hunique huniqueSwept fun record hlive => by
        rw [hswept]
        exact mem_map_retire hlive
    have hactive : ∀ record ∈ swept.slots, record.active = true →
        record.live length now = true := by
      intro record hmem ha
      rw [hswept] at hmem
      obtain ⟨old, -, rfl⟩ := List.mem_map.mp hmem
      exact live_retire.mpr (active_retire.mp ha)
    have hnone : rateWindows length now auth.rateLimits (clientIp, scope) = none := by
      rw [rateWindows_eq_none_iff]
      intro record hmem hlive hkey
      have := hmiss record hmem
      rw [retire_of_live hlive, isFor_eq_true.mpr ⟨(live_eq_true.mp hlive).1, hkey⟩] at this
      contradiction
    have hroom := @length_filter_live_lt_iff length now auth.rateLimits
    rw [← ncard_rateWindows hunique] at hroom
    rw [hcall, Window.call, hnone]
    dsimp only
    cases hupdate : swept.updateFirst (fun record => !record.active)
        (fun _ => newRateLimitRecord clientIp scope now) with
    | none =>
        have hfull : ¬ ∃ record ∈ auth.rateLimits.slots,
            (record.retire length now).active = false := by
          rintro ⟨record, hmem, hfree⟩
          have := Table.updateFirst_eq_none.mp hupdate (record.retire length now)
            (by rw [hswept]; exact List.mem_map_of_mem hmem)
          simp [hfree] at this
        rw [if_neg (hroom.not.mpr hfull)]
        exact ⟨huniqueSwept, by simp [hsame]⟩
    | some table =>
        have hfree : ∃ record ∈ auth.rateLimits.slots,
            (record.retire length now).active = false := by
          obtain ⟨pre, old, post, hold, -, hinactive, -⟩ :=
            updateFirst_eq_some (Table.updateFirst_slots hupdate)
          have hmem : old ∈ swept.slots := by simp [hold]
          rw [hswept] at hmem
          obtain ⟨record, hrecord, rfl⟩ := List.mem_map.mp hmem
          exact ⟨record, hrecord, by simpa using hinactive⟩
        rw [if_pos (hroom.mpr hfree)]
        obtain ⟨hunique', hwindows⟩ := rateWindows_insert hip hscope hlength huniqueSwept hactive
          (hsame ▸ hnone) hupdate
        exact ⟨hunique', by simp [hwindows, hsame]⟩
  · have hlive : record.live length now = true :=
      active_retire.mp (isFor_eq_true.mp hhit).1
    have hkey : record.key = (clientIp, scope) := by
      rw [← retire_key length now record]
      exact (isFor_eq_true.mp hhit).2
    obtain ⟨table, hslots', hcall⟩ :=
      authRateLimitAllow_of_hit hlimit hlength hslots hpre hlive hkey
    obtain ⟨hunique', hwindows⟩ := rateWindows_count hunique hslots hlive hslots'
    have hsome : rateWindows length now auth.rateLimits (clientIp, scope) = some record.window :=
      (rateWindows_eq_some_iff hunique).mpr ⟨record, by simp [hslots], hlive, hkey, rfl⟩
    rw [hcall, Window.call, hsome]
    dsimp only
    rw [hkey] at hwindows
    refine ⟨hunique', ?_⟩
    rw [hwindows]
    by_cases hroom : limit ≤ record.count
    · have hnot : ¬ record.window.count < limit := not_lt.mpr hroom
      rw [if_pos hroom, if_neg hnot, RateLimitRecord.counted, if_pos hroom, ← hsome,
        Function.update_eq_self]
      simp
    · have hlt : record.window.count < limit := not_le.mp hroom
      rw [if_neg hroom, if_pos hlt, RateLimitRecord.counted, if_neg hroom]
      rfl

theorem authRateLimitAllow_of_open (hlimit : 0 < limit) (hlength : 0 < length)
    (hunique : UniqueKeys auth.rateLimits) {window : Window}
    (hopen : rateWindows length now auth.rateLimits (clientIp, scope) = some window) :
    (authRateLimitAllow auth clientIp scope limit length now).2 =
      if window.count < limit then .allowed
      else .refused (some (CString.lit "Limite de requisicoes atingido para " ++ scope)) := by
  obtain ⟨record, hmem, hlive, hkey, rfl⟩ := (rateWindows_eq_some_iff hunique).mp hopen
  rcases sweep_cases (RateLimitRecord.retire length now) (RateLimitRecord.isFor clientIp scope)
    (RateLimitRecord.counted limit) auth.rateLimits.slots with
    ⟨hmiss, -⟩ | ⟨pre, found, post, hslots, hpre, hhit, -⟩
  · have hfor := hmiss record hmem
    rw [retire_of_live hlive, isFor_eq_true.mpr ⟨(live_eq_true.mp hlive).1, hkey⟩] at hfor
    contradiction
  · have hfound := active_retire.mp (isFor_eq_true.mp hhit).1
    have hfoundKey : found.key = (clientIp, scope) := by
      rw [← retire_key length now found]
      exact (isFor_eq_true.mp hhit).2
    have hsame : found = record := hunique.eq_of_key (by simp [hslots]) hmem
      (live_eq_true.mp hfound).1 (live_eq_true.mp hlive).1 (hfoundKey.trans hkey.symm)
    subst hsame
    obtain ⟨table, -, hcall⟩ := authRateLimitAllow_of_hit hlimit hlength hslots hpre hfound hkey
    rw [hcall]
    by_cases hroom : limit ≤ found.count
    · rw [if_pos hroom, if_neg (show ¬ found.window.count < limit from not_lt.mpr hroom)]
    · rw [if_neg hroom, if_pos (show found.window.count < limit from not_le.mp hroom)]

end call

end LocalDrop
