import LocalDrop.Auth

/-! What the UI session functions of `auth.c` do to the table. A validation only retires
expired sessions; a new session takes the first slot that is unused, expired or of the
same client, so a live session of somebody else is never in its way. -/
namespace LocalDrop
open Lib

namespace UiSession
variable {now : Time} {session : UiSession} {clientIp token : CString}

@[simp] theorem live_eq_true :
    session.live now = true ↔ session.active = true ∧ now < session.expiresAt := by
  simp [live]

@[simp] theorem grants_eq_true :
    session.grants clientIp token = true ↔
      session.active = true ∧ session.clientIp.str = clientIp ∧ session.token.str = token := by
  simp [grants, and_assoc]

theorem usable_eq_false :
    session.usable clientIp now = false ↔
      session.live now = true ∧ session.clientIp.str ≠ clientIp := by
  simp [usable, live, and_assoc]

theorem retire_of_live (h : session.live now = true) : session.retire now = session := by
  rw [live_eq_true] at h
  have hnot : ¬ (session.active = true ∧ session.expiresAt ≤ now) :=
    fun hstale => absurd hstale.2 (not_le.mpr h.2)
  rw [retire, if_neg hnot]

theorem live_of_active_retire (h : (session.retire now).active = true) :
    session.retire now = session ∧ session.live now = true := by
  unfold retire at h ⊢
  split at h
  · simp at h
  · rename_i hnot
    rw [if_neg hnot]
    rw [not_and, not_le] at hnot
    exact ⟨rfl, by simp [live, h, hnot h]⟩

theorem live_earlier {later : Time} (hnow : now ≤ later) (h : session.live later = true) :
    session.live now = true := by
  rw [live_eq_true] at h ⊢
  exact ⟨h.1, lt_of_le_of_lt hnow h.2⟩

theorem retire_retire {later : Time} (hnow : now ≤ later) (session : UiSession) :
    (session.retire now).retire later = session.retire later := by
  unfold retire
  by_cases hstale : session.active = true ∧ session.expiresAt ≤ now
  · rw [if_pos hstale, if_neg (by simp), if_pos ⟨hstale.1, le_trans hstale.2 hnow⟩]
  · rw [if_neg hstale]

end UiSession

section
variable {auth auth' : Auth} {clientIp provided token : CString} {now : Time}
  {random : RandomBytes 32}

theorem authValidateUiSession_iff :
    (authValidateUiSession auth clientIp token now).2 = true ↔
      token ≠ CString.empty ∧ ∃ session ∈ auth.uiSessions.slots,
        session.live now = true ∧ session.grants clientIp token = true := by
  unfold authValidateUiSession
  split
  · rename_i hempty
    simp [hempty]
  · rename_i hne
    simp only [ne_eq, hne, not_false_eq_true, true_and]
    refine sweep_isSome_iff.trans (exists_congr fun session => and_congr_right fun _ => ?_)
    constructor
    · intro hgrants
      obtain ⟨hsame, hlive⟩ :=
        UiSession.live_of_active_retire (UiSession.grants_eq_true.mp hgrants).1
      exact ⟨hlive, hsame ▸ hgrants⟩
    · rintro ⟨hlive, hgrants⟩
      rwa [UiSession.retire_of_live hlive]

theorem authValidateUiSession_frame (auth : Auth) (clientIp token : CString) (now : Time) :
    (authValidateUiSession auth clientIp token now).1.adminCode = auth.adminCode ∧
      (authValidateUiSession auth clientIp token now).1.peerTokens = auth.peerTokens := by
  unfold authValidateUiSession
  split <;> exact ⟨rfl, rfl⟩

theorem mem_of_mem_validate {session : UiSession}
    (h : session ∈ (authValidateUiSession auth clientIp token now).1.uiSessions.slots)
    (hactive : session.active = true) : session ∈ auth.uiSessions.slots := by
  unfold authValidateUiSession at h
  split at h
  · exact h
  · obtain ⟨old, hold, rfl | rfl | ⟨-, rfl⟩⟩ := mem_of_mem_sweep h
    · exact hold
    · rwa [(UiSession.live_of_active_retire hactive).1]
    · simp only [id_eq] at hactive ⊢
      rwa [(UiSession.live_of_active_retire hactive).1]

theorem mem_validate_of_live {session : UiSession} (h : session ∈ auth.uiSessions.slots)
    (hlive : session.live now = true) :
    session ∈ (authValidateUiSession auth clientIp token now).1.uiSessions.slots := by
  unfold authValidateUiSession
  split
  · exact h
  · exact mem_sweep_of_mem h (UiSession.retire_of_live hlive) fun _ => rfl

theorem authCreateUiSession_none
    (h : authCreateUiSession auth clientIp provided now random = (auth', none)) :
    auth' = auth := by
  unfold authCreateUiSession at h
  split at h
  · exact (congrArg Prod.fst h).symm
  · split at h
    · exact (congrArg Prod.fst h).symm
    · split at h
      · exact (congrArg Prod.fst h).symm
      · simp at h

def newUiSession (clientIp token : CString) (now : Time) : UiSession :=
  ⟨true, copyString token, copyString clientIp, now + uiSessionTtlSeconds⟩

theorem authCreateUiSession_some
    (h : authCreateUiSession auth clientIp provided now random = (auth', some token)) :
    auth.adminCode.str = provided ∧ cryptoRandomToken random = some token ∧
      ∃ sessions, auth' = { auth with uiSessions := sessions } ∧
        ∃ pre old post, auth.uiSessions.slots = pre ++ old :: post ∧
          (∀ session ∈ pre, session.usable clientIp now = false) ∧
          old.usable clientIp now = true ∧
          sessions.slots = pre ++ newUiSession clientIp token now :: post := by
  unfold authCreateUiSession at h
  split at h
  · simp at h
  · rename_i hcode
    split at h
    · simp at h
    · rename_i fresh hfresh
      split at h
      · simp at h
      · rename_i sessions hsessions
        simp only [Prod.mk.injEq, Option.some.injEq] at h
        obtain ⟨rfl, rfl⟩ := h
        refine ⟨by simpa using hcode, hfresh, sessions, rfl, ?_⟩
        exact updateFirst_eq_some (Table.updateFirst_slots hsessions)

theorem authCreateUiSession_wrong (hne : auth.adminCode.str ≠ provided) :
    authCreateUiSession auth clientIp provided now random = (auth, none) := by
  unfold authCreateUiSession
  rw [if_pos hne]

section created
variable (h : authCreateUiSession auth clientIp provided now random = (auth', some token))
  {session : UiSession}
include h

theorem mem_create_new : newUiSession clientIp token now ∈ auth'.uiSessions.slots := by
  obtain ⟨-, -, sessions, rfl, pre, old, post, -, -, -, hslots⟩ := authCreateUiSession_some h
  simp [hslots]

theorem mem_of_mem_create (hmem : session ∈ auth'.uiSessions.slots) :
    session ∈ auth.uiSessions.slots ∨ session = newUiSession clientIp token now := by
  obtain ⟨-, -, sessions, rfl, pre, old, post, hslots, -, -, hslots'⟩ :=
    authCreateUiSession_some h
  rw [hslots', List.mem_append, List.mem_cons] at hmem
  rw [hslots, List.mem_append, List.mem_cons]
  tauto

theorem mem_create_of_live (hmem : session ∈ auth.uiSessions.slots)
    (hlive : session.live now = true) (hother : session.clientIp.str ≠ clientIp) :
    session ∈ auth'.uiSessions.slots := by
  obtain ⟨-, -, sessions, rfl, pre, old, post, hslots, -, hold, hslots'⟩ :=
    authCreateUiSession_some h
  have hne : session ≠ old := by
    intro heq
    rw [← heq, UiSession.usable_eq_false.mpr ⟨hlive, hother⟩] at hold
    contradiction
  rw [hslots, List.mem_append, List.mem_cons] at hmem
  rw [hslots', List.mem_append, List.mem_cons]
  tauto

end created

theorem newUiSession_live (clientIp token : CString) (now : Time) :
    (newUiSession clientIp token now).live now = true := by
  rw [UiSession.live_eq_true]
  exact ⟨rfl, Int.lt_add_of_pos_right now (by decide)⟩

theorem newUiSession_token (h : cryptoRandomToken random = some token) :
    (newUiSession clientIp token now).token.str = token := by
  have hlength := cryptoRandomToken_length h
  exact copyString_str_of_lt token (by omega)

theorem cryptoRandomToken_ne_empty (h : cryptoRandomToken random = some token) :
    token ≠ CString.empty := by
  have hlength := cryptoRandomToken_length h
  intro hempty
  rw [hempty] at hlength
  contradiction

end

end LocalDrop
