import LocalDrop.Auth.PeerTokens
import LocalDrop.Lib.Runs
import LocalDrop.Transfer
import Mathlib.Data.Fintype.Basic
import Mathlib.Data.Option.Basic

/-! Two nodes pairing with each other. Either side may have any number of
exchanges open at once; requests are served and answers stored in any order. An
exchange writes two records: the responder's when the token is issued and the
initiator's when the answer arrives. -/
namespace LocalDrop.Pairing
open Lib

inductive Party where
  | a
  | b
deriving DecidableEq

instance : Fintype Party where
  elems := {.a, .b}
  complete := by
    intro p
    cases p <;> decide

def Party.other : Party → Party
  | .a => .b
  | .b => .a

@[simp] theorem Party.other_other (p : Party) : p.other.other = p := by cases p <;> rfl

structure Peers where
  ip : Party → CString
  port : Party → UInt16
  name : Party → CString
  ip_fits : ∀ p, (ip p).length < 46

inductive Phase where
  | requested
  | answered (body : Bytes)
  | stored
deriving DecidableEq

/-- One `POST /api/pair`: the code its user typed, how far it got, and the token
issued for it. -/
structure Exchange where
  code : CString
  phase : Phase
  issued : Option CString

structure Nodes where
  clock : Time
  auth : Party → Auth
  exchanges : Party → List Exchange

inductive Event where
  | tick (seconds : Nat)
  | request (initiator : Party) (code : CString)
  | serve (initiator : Party) (index : Nat) (codeRandom : RandomBytes 6)
      (random : RandomBytes 32)
  | deliver (initiator : Party) (index : Nat)

def Nodes.setAuth (nodes : Nodes) (p : Party) (auth : Auth) : Nodes :=
  { nodes with auth := fun q => if q = p then auth else nodes.auth q }

def Nodes.setExchanges (nodes : Nodes) (p : Party) (exchanges : List Exchange) : Nodes :=
  { nodes with exchanges := fun q => if q = p then exchanges else nodes.exchanges q }

/-- `/api/pair/exchange` on the other node. Exchanges that are not answered with
200 are outside the runs considered, so the step needs a token. -/
def serve (peers : Peers) (nodes : Nodes) (p : Party) (index : Nat)
    (codeRandom : RandomBytes 6) (random : RandomBytes 32) : Option Nodes := do
  let exchange ← (nodes.exchanges p)[index]?
  guard (exchange.phase = .requested)
  let (auth, issued) := authIssuePairToken (nodes.auth p.other) (peers.ip p) (peers.name p)
    (peers.port p) exchange.code nodes.clock codeRandom random
  let (token, expiresAt) ← issued
  pure ((nodes.setAuth p.other auth).setExchanges p ((nodes.exchanges p).set index
    { exchange with
      phase := .answered (pairResponse pairMessage token expiresAt)
      issued := some token }))

/-- The tail of `/api/pair`: read the answer and store its token, the table
having room for it. -/
def deliver (peers : Peers) (nodes : Nodes) (p : Party) (index : Nat) : Option Nodes := do
  let exchange ← (nodes.exchanges p)[index]?
  match exchange.phase with
  | .answered body =>
      match transferPairPeer (.replied 200 (some body)) 65 256 with
      | .refused _ => none
      | .paired token expiresAt _ =>
          let (auth, stored) := authStorePeerToken (nodes.auth p) (peers.ip p.other)
            (peers.port p.other) (peers.name p.other) token expiresAt
          guard (stored = true)
          pure ((nodes.setAuth p auth).setExchanges p ((nodes.exchanges p).set index
            { exchange with phase := .stored }))
  | _ => none

def step (peers : Peers) (nodes : Nodes) : Event → Option Nodes
  | .tick seconds => some { nodes with clock := nodes.clock + seconds }
  | .request p code =>
      some (nodes.setExchanges p (nodes.exchanges p ++ [⟨code, .requested, none⟩]))
  | .serve p index codeRandom random => serve peers nodes p index codeRandom random
  | .deliver p index => deliver peers nodes p index

abbrev ExchangeId := Party × Nat

/-- The exchange whose token an event writes into `q`'s record for the other node. -/
def writes (q : Party) : Event → Option ExchangeId
  | .serve p index _ _ => if p.other = q then some (p, index) else none
  | .deliver p index => if p = q then some (p, index) else none
  | _ => none

def lastWriter (q : Party) (events : List Event) : Option ExchangeId :=
  (events.filterMap (writes q)).getLast?

theorem lastWriter_concat (q : Party) (events : List Event) (e : Event) :
    lastWriter q (events ++ [e]) = (writes q e).or (lastWriter q events) := by
  unfold lastWriter
  rw [List.filterMap_append]
  cases h : writes q e with
  | none => simp [h]
  | some id => simp [h]

def Nodes.exchange (nodes : Nodes) (id : ExchangeId) : Option Exchange :=
  (nodes.exchanges id.1)[id.2]?

def Quiescent (nodes : Nodes) : Prop :=
  ∀ p, ∀ exchange ∈ nodes.exchanges p, exchange.phase = .stored

def SomeCompleted (nodes : Nodes) : Prop :=
  ∃ p, ∃ exchange ∈ nodes.exchanges p, exchange.phase = .stored

def NothingExpired (nodes : Nodes) : Prop :=
  ∀ p, ∀ record ∈ (nodes.auth p).peerTokens.slots,
    record.active = true → nodes.clock < record.expiresAt

def TokensDistinct (nodes : Nodes) : Prop :=
  ∀ x y ex ey token, nodes.exchange x = some ex → nodes.exchange y = some ey →
    ex.issued = some token → ey.issued = some token → x = y

def held (peers : Peers) (nodes : Nodes) (q : Party) : Option CString :=
  (authGetPeerToken (nodes.auth q) (peers.ip q.other) (peers.port q.other) nodes.clock).2

/-- Both nodes hold the same token for each other, and each accepts what the
other would present. -/
def Agreement (peers : Peers) (nodes : Nodes) : Prop :=
  ∃ token, ∀ q, held peers nodes q = some token ∧
    (authValidatePeerToken (nodes.auth q) (peers.ip q.other) token nodes.clock).2 = true

/-- A pair of nodes before any exchange, with tables in any sound state. -/
def Initial (nodes : Nodes) : Prop :=
  ∀ p, nodes.exchanges p = [] ∧ UniqueEndpoints (nodes.auth p).peerTokens

def Holds (peers : Peers) (nodes : Nodes) (q : Party) (token : CString) : Prop :=
  ∃ record ∈ (nodes.auth q).peerTokens.slots,
    record.isFor (peers.ip q.other) (peers.port q.other) = true ∧ record.token.str = token

structure Inv (peers : Peers) (past : List Event) (nodes : Nodes) : Prop where
  unique : ∀ q, UniqueEndpoints (nodes.auth q).peerTokens
  fresh : ∀ id exchange, nodes.exchange id = some exchange →
    exchange.phase = .requested → exchange.issued = none
  body : ∀ id exchange text, nodes.exchange id = some exchange →
    exchange.phase = .answered text →
    ∃ token expiresAt, exchange.issued = some token ∧
      text = pairResponse pairMessage token expiresAt
  valid : ∀ id exchange token, nodes.exchange id = some exchange →
    exchange.issued = some token → IsPairToken token
  served : ∀ id exchange, nodes.exchange id = some exchange →
    exchange.phase ≠ .requested → lastWriter id.1.other past ≠ none
  stored : ∀ id exchange, nodes.exchange id = some exchange →
    exchange.phase = .stored → lastWriter id.1 past ≠ none
  holds : ∀ q id, lastWriter q past = some id →
    ∃ exchange token, nodes.exchange id = some exchange ∧ exchange.issued = some token ∧
      Holds peers nodes q token

theorem inv_initial {peers : Peers} {nodes : Nodes} (h : Initial nodes) :
    Inv peers [] nodes where
  unique q := (h q).2
  fresh id exchange hid _ := by simp [Nodes.exchange, (h id.1).1] at hid
  body id exchange text hid _ := by simp [Nodes.exchange, (h id.1).1] at hid
  valid id exchange token hid _ := by simp [Nodes.exchange, (h id.1).1] at hid
  served id exchange hid _ := by simp [Nodes.exchange, (h id.1).1] at hid
  stored id exchange hid _ := by simp [Nodes.exchange, (h id.1).1] at hid
  holds q id hq := by simp [lastWriter] at hq

/-- The effect of serving or delivering exchange `id`: its token goes into `q`'s
record for the other node, and `id` moves on to `after`. -/
structure Wrote (peers : Peers) (nodes nodes' : Nodes) (q : Party) (id : ExchangeId)
    (token : CString) (before after : Exchange) : Prop where
  table : ∃ name expiresAt, upsertPeerTokenLocked (nodes.auth q).peerTokens
    (peers.ip q.other) (peers.port q.other) name token expiresAt =
      some (nodes'.auth q).peerTokens
  frame : ∀ r, r ≠ q → nodes'.auth r = nodes.auth r
  was : nodes.exchange id = some before
  now : nodes'.exchange id = some after
  others : ∀ x, x ≠ id → nodes'.exchange x = nodes.exchange x
  valid : IsPairToken token
  issued : after.issued = some token
  kept : ∀ t, before.issued = some t → t = token

theorem exchange_setExchanges {nodes : Nodes} {p : Party} {index : Nat} {before : Exchange}
    (q : Party) (auth : Auth) (after : Exchange) (h : nodes.exchange (p, index) = some before) :
    let nodes' := (nodes.setAuth q auth).setExchanges p
      ((nodes.exchanges p).set index after)
    nodes'.exchange (p, index) = some after ∧
      ∀ x, x ≠ (p, index) → nodes'.exchange x = nodes.exchange x := by
  have hlt : index < (nodes.exchanges p).length := by
    obtain ⟨hlt, -⟩ := List.getElem?_eq_some_iff.mp h
    exact hlt
  refine ⟨?_, ?_⟩
  · simp [Nodes.exchange, Nodes.setExchanges, hlt]
  · rintro ⟨r, k⟩ hne
    by_cases hr : r = p
    · subst hr
      have hk : index ≠ k := fun hk => hne (by rw [hk])
      simp [Nodes.exchange, Nodes.setExchanges, List.getElem?_set_ne hk]
    · simp [Nodes.exchange, Nodes.setExchanges, Nodes.setAuth, hr]

theorem serve_wrote {peers : Peers} {past : List Event} {nodes nodes' : Nodes} {p : Party}
    {index : Nat} {codeRandom : RandomBytes 6} {random : RandomBytes 32}
    (hinv : Inv peers past nodes)
    (h : serve peers nodes p index codeRandom random = some nodes') :
    ∃ token expiresAt before, before.phase = .requested ∧
      Wrote peers nodes nodes' p.other (p, index) token before
        { before with
          phase := .answered (pairResponse pairMessage token expiresAt)
          issued := some token } := by
  unfold serve at h
  simp only [Option.bind_eq_bind, Option.bind_eq_some_iff, Option.guard_eq_some',
    Option.pure_def, Option.some.injEq, exists_const] at h
  obtain ⟨exchange, hexchange, hphase, ⟨token, expiresAt⟩, hissued, rfl⟩ := h
  obtain ⟨current, table, -, -, hrandom, -, htable, hauth⟩ :=
    authIssuePairToken_eq_some (Prod.ext rfl hissued)
  obtain ⟨hself, hothers⟩ := exchange_setExchanges p.other
    (authIssuePairToken (nodes.auth p.other) (peers.ip p) (peers.name p)
      (peers.port p) exchange.code nodes.clock codeRandom random).1
    { exchange with
      phase := .answered (pairResponse pairMessage token expiresAt), issued := some token }
    hexchange
  refine ⟨token, expiresAt, exchange, hphase, ?_, ?_, hexchange, hself, hothers,
    isPairToken_of_random hrandom, rfl, ?_⟩
  · refine ⟨peers.name p, expiresAt, ?_⟩
    simp only [Party.other_other, Nodes.setExchanges, Nodes.setAuth, if_true, hauth]
    exact htable
  · intro r hr
    simp [Nodes.setExchanges, Nodes.setAuth, hr]
  · intro t ht
    rw [hinv.fresh (p, index) _ hexchange hphase] at ht
    contradiction

theorem deliver_wrote {peers : Peers} {past : List Event} {nodes nodes' : Nodes} {p : Party}
    {index : Nat} (hinv : Inv peers past nodes)
    (h : deliver peers nodes p index = some nodes') :
    ∃ token before, before.phase ≠ .requested ∧
      Wrote peers nodes nodes' p (p, index) token before { before with phase := .stored } := by
  unfold deliver at h
  obtain ⟨exchange, hexchange, h⟩ := Option.bind_eq_some_iff.mp h
  split at h
  · rename_i text hphase
    obtain ⟨token, expiresAt, hissued, rfl⟩ := hinv.body (p, index) _ _ hexchange hphase
    have hvalid := hinv.valid (p, index) _ _ hexchange hissued
    obtain ⟨expiresAt', message, hread⟩ := transferPairPeer_pairResponse hvalid expiresAt
    rw [hread] at h
    simp only [Option.bind_eq_bind, Option.bind_eq_some_iff, Option.guard_eq_some',
      Option.pure_def, Option.some.injEq, exists_const] at h
    obtain ⟨hstored, rfl⟩ := h
    obtain ⟨table, htable, hauth⟩ := authStorePeerToken_eq_true (Prod.ext rfl hstored)
    obtain ⟨hself, hothers⟩ := exchange_setExchanges p
      (authStorePeerToken (nodes.auth p) (peers.ip p.other) (peers.port p.other)
        (peers.name p.other) token expiresAt').1 { exchange with phase := .stored } hexchange
    refine ⟨token, exchange, by simp [hphase], ?_, ?_, hexchange, hself, hothers, hvalid,
      hissued, ?_⟩
    · refine ⟨peers.name p.other, expiresAt', ?_⟩
      simp only [Nodes.setExchanges, Nodes.setAuth, if_true, hauth]
      exact htable
    · intro r hr
      simp [Nodes.setExchanges, Nodes.setAuth, hr]
    · intro t ht
      rw [hissued] at ht
      exact (Option.some.inj ht).symm
  · contradiction

theorem lastWriter_ne_none_concat {q : Party} {past : List Event} {e : Event}
    (h : lastWriter q past ≠ none) : lastWriter q (past ++ [e]) ≠ none := by
  rw [lastWriter_concat]
  cases hw : writes q e with
  | none => simpa using h
  | some id => simp

theorem Wrote.holds_other {peers : Peers} {nodes nodes' : Nodes} {q r : Party}
    {id : ExchangeId} {token t : CString} {before after : Exchange}
    (h : Wrote peers nodes nodes' q id token before after) (hr : r ≠ q)
    (hold : Holds peers nodes r t) : Holds peers nodes' r t := by
  unfold Holds at hold ⊢
  rwa [h.frame r hr]

theorem Wrote.holds_self {peers : Peers} {nodes nodes' : Nodes} {q : Party}
    {id : ExchangeId} {token : CString} {before after : Exchange}
    (h : Wrote peers nodes nodes' q id token before after) : Holds peers nodes' q token := by
  obtain ⟨name, expiresAt, htable⟩ := h.table
  refine ⟨_, mem_upsert_new htable, ?_, ?_⟩
  · rw [PeerTokenRecord.isFor_eq_true]
    refine ⟨rfl, ?_⟩
    simp [PeerTokenRecord.endpoint, peerTokenRecord,
      copyString_str_of_lt _ (peers.ip_fits q.other)]
  · exact copyString_str_of_lt token (by have := h.valid.1; omega)

theorem Wrote.unique {peers : Peers} {nodes nodes' : Nodes} {q : Party}
    {id : ExchangeId} {token : CString} {before after : Exchange}
    (h : Wrote peers nodes nodes' q id token before after)
    (hunique : ∀ r, UniqueEndpoints (nodes.auth r).peerTokens) (r : Party) :
    UniqueEndpoints (nodes'.auth r).peerTokens := by
  by_cases hr : r = q
  · subst hr
    obtain ⟨name, expiresAt, htable⟩ := h.table
    exact uniqueEndpoints_upsert htable (peers.ip_fits r.other) (hunique r)
  · rw [h.frame r hr]
    exact hunique r

theorem Wrote.exchange_cases {peers : Peers} {nodes nodes' : Nodes} {q : Party}
    {id x : ExchangeId} {token : CString} {before after exchange : Exchange}
    (h : Wrote peers nodes nodes' q id token before after)
    (hx : nodes'.exchange x = some exchange) :
    x = id ∧ exchange = after ∨ x ≠ id ∧ nodes.exchange x = some exchange := by
  by_cases hid : x = id
  · subst hid
    rw [h.now] at hx
    exact .inl ⟨rfl, (Option.some.inj hx).symm⟩
  · rw [h.others x hid] at hx
    exact .inr ⟨hid, hx⟩

theorem Wrote.valid_after {peers : Peers} {nodes nodes' : Nodes} {q : Party}
    {id : ExchangeId} {token : CString} {before after : Exchange}
    (h : Wrote peers nodes nodes' q id token before after)
    (hvalid : ∀ x exchange t, nodes.exchange x = some exchange →
      exchange.issued = some t → IsPairToken t)
    (x : ExchangeId) (exchange : Exchange) (t : CString)
    (hx : nodes'.exchange x = some exchange) (hissued : exchange.issued = some t) :
    IsPairToken t := by
  rcases h.exchange_cases hx with ⟨-, rfl⟩ | ⟨-, hx⟩
  · rw [h.issued, Option.some.injEq] at hissued
    exact hissued ▸ h.valid
  · exact hvalid x exchange t hx hissued

theorem Wrote.holds_last {peers : Peers} {past : List Event} {nodes nodes' : Nodes}
    {q : Party} {id : ExchangeId} {token : CString} {before after : Exchange} {e : Event}
    (h : Wrote peers nodes nodes' q id token before after) (hinv : Inv peers past nodes)
    (hq : writes q e = some id) (hother : ∀ r, r ≠ q → writes r e = none)
    (r : Party) (x : ExchangeId) (hx : lastWriter r (past ++ [e]) = some x) :
    ∃ exchange t, nodes'.exchange x = some exchange ∧ exchange.issued = some t ∧
      Holds peers nodes' r t := by
  rw [lastWriter_concat] at hx
  by_cases hr : r = q
  · subst hr
    rw [hq, Option.some_or, Option.some.injEq] at hx
    subst hx
    exact ⟨after, token, h.now, h.issued, h.holds_self⟩
  · rw [hother r hr, Option.none_or] at hx
    obtain ⟨exchange, t, hexchange, hissued, hold⟩ := hinv.holds r x hx
    by_cases hid : x = id
    · subst hid
      rw [h.was] at hexchange
      cases Option.some.inj hexchange
      rw [h.kept t hissued] at hold
      exact ⟨after, token, h.now, h.issued, h.holds_other hr hold⟩
    · exact ⟨exchange, t, (h.others x hid).trans hexchange, hissued, h.holds_other hr hold⟩

theorem inv_serve {peers : Peers} {past : List Event} {nodes nodes' : Nodes} {p : Party}
    {index : Nat} {codeRandom : RandomBytes 6} {random : RandomBytes 32}
    (hinv : Inv peers past nodes)
    (h : serve peers nodes p index codeRandom random = some nodes') :
    Inv peers (past ++ [.serve p index codeRandom random]) nodes' := by
  obtain ⟨token, expiresAt, before, hphase, hw⟩ := serve_wrote hinv h
  refine ⟨hw.unique hinv.unique, ?_, ?_, ?_, ?_, ?_, ?_⟩
  · intro x exchange hx hreq
    rcases hw.exchange_cases hx with ⟨-, rfl⟩ | ⟨-, hx⟩
    · simp at hreq
    · exact hinv.fresh x exchange hx hreq
  · intro x exchange text hx htext
    rcases hw.exchange_cases hx with ⟨-, rfl⟩ | ⟨-, hx⟩
    · simp only [Phase.answered.injEq] at htext
      exact ⟨token, expiresAt, rfl, htext.symm⟩
    · exact hinv.body x exchange text hx htext
  · exact hw.valid_after hinv.valid
  · intro x exchange hx hne
    rcases hw.exchange_cases hx with ⟨rfl, -⟩ | ⟨-, hx⟩
    · simp [lastWriter_concat, writes]
    · exact lastWriter_ne_none_concat (hinv.served x exchange hx hne)
  · intro x exchange hx hst
    rcases hw.exchange_cases hx with ⟨-, rfl⟩ | ⟨-, hx⟩
    · simp at hst
    · exact lastWriter_ne_none_concat (hinv.stored x exchange hx hst)
  · refine hw.holds_last hinv (by simp [writes]) ?_
    intro r hr
    simp [writes, Ne.symm hr]

theorem inv_deliver {peers : Peers} {past : List Event} {nodes nodes' : Nodes} {p : Party}
    {index : Nat} (hinv : Inv peers past nodes)
    (h : deliver peers nodes p index = some nodes') :
    Inv peers (past ++ [.deliver p index]) nodes' := by
  obtain ⟨token, before, hphase, hw⟩ := deliver_wrote hinv h
  refine ⟨hw.unique hinv.unique, ?_, ?_, ?_, ?_, ?_, ?_⟩
  · intro x exchange hx hreq
    rcases hw.exchange_cases hx with ⟨-, rfl⟩ | ⟨-, hx⟩
    · simp at hreq
    · exact hinv.fresh x exchange hx hreq
  · intro x exchange text hx htext
    rcases hw.exchange_cases hx with ⟨-, rfl⟩ | ⟨-, hx⟩
    · simp at htext
    · exact hinv.body x exchange text hx htext
  · exact hw.valid_after hinv.valid
  · intro x exchange hx hne
    rcases hw.exchange_cases hx with ⟨rfl, -⟩ | ⟨-, hx⟩
    · exact lastWriter_ne_none_concat (hinv.served _ _ hw.was hphase)
    · exact lastWriter_ne_none_concat (hinv.served x exchange hx hne)
  · intro x exchange hx hst
    rcases hw.exchange_cases hx with ⟨rfl, -⟩ | ⟨-, hx⟩
    · simp [lastWriter_concat, writes]
    · exact lastWriter_ne_none_concat (hinv.stored x exchange hx hst)
  · refine hw.holds_last hinv (by simp [writes]) ?_
    intro r hr
    simp [writes, Ne.symm hr]

theorem inv_request {peers : Peers} {past : List Event} {nodes : Nodes} {p : Party}
    {code : CString} (hinv : Inv peers past nodes) :
    Inv peers (past ++ [.request p code])
      (nodes.setExchanges p (nodes.exchanges p ++ [⟨code, .requested, none⟩])) := by
  have hlast : ∀ q, lastWriter q (past ++ [.request p code]) = lastWriter q past := by
    intro q
    simp [lastWriter_concat, writes]
  -- an exchange of the longer list is an old one or the one just requested
  have hcases : ∀ x exchange, (nodes.setExchanges p
      (nodes.exchanges p ++ [⟨code, .requested, none⟩])).exchange x = some exchange →
      nodes.exchange x = some exchange ∨ exchange = ⟨code, .requested, none⟩ := by
    rintro ⟨r, k⟩ exchange hx
    by_cases hr : r = p
    · subst hr
      simp only [Nodes.exchange, Nodes.setExchanges, if_true, List.getElem?_append] at hx ⊢
      split at hx
      · exact .inl hx
      · rw [List.getElem?_singleton] at hx
        split at hx
        · exact .inr (Option.some.inj hx).symm
        · contradiction
    · simp only [Nodes.exchange, Nodes.setExchanges, hr, if_false] at hx ⊢
      exact .inl hx
  have hold : ∀ x exchange, nodes.exchange x = some exchange → (nodes.setExchanges p
      (nodes.exchanges p ++ [⟨code, .requested, none⟩])).exchange x = some exchange := by
    rintro ⟨r, k⟩ exchange hx
    by_cases hr : r = p
    · subst hr
      simp only [Nodes.exchange, Nodes.setExchanges, if_true] at hx ⊢
      rw [List.getElem?_append_left (List.getElem?_eq_some_iff.mp hx).1]
      exact hx
    · simpa [Nodes.exchange, Nodes.setExchanges, hr] using hx
  refine ⟨hinv.unique, ?_, ?_, ?_, ?_, ?_, ?_⟩
  · intro x exchange hx hreq
    rcases hcases x exchange hx with hx | rfl
    · exact hinv.fresh x exchange hx hreq
    · rfl
  · intro x exchange text hx htext
    rcases hcases x exchange hx with hx | rfl
    · exact hinv.body x exchange text hx htext
    · simp at htext
  · intro x exchange token hx hissued
    rcases hcases x exchange hx with hx | rfl
    · exact hinv.valid x exchange token hx hissued
    · simp at hissued
  · intro x exchange hx hne
    rw [hlast]
    rcases hcases x exchange hx with hx | rfl
    · exact hinv.served x exchange hx hne
    · simp at hne
  · intro x exchange hx hst
    rw [hlast]
    rcases hcases x exchange hx with hx | rfl
    · exact hinv.stored x exchange hx hst
    · simp at hst
  · intro q x hx
    rw [hlast] at hx
    obtain ⟨exchange, token, hexchange, hissued, hholds⟩ := hinv.holds q x hx
    exact ⟨exchange, token, hold x exchange hexchange, hissued, hholds⟩

theorem inv_step {peers : Peers} (past : List Event) (nodes : Nodes) (e : Event)
    (nodes' : Nodes) (hinv : Inv peers past nodes) (h : step peers nodes e = some nodes') :
    Inv peers (past ++ [e]) nodes' := by
  cases e with
  | tick seconds =>
      cases Option.some.inj h
      have hlast : ∀ q, lastWriter q (past ++ [.tick seconds]) = lastWriter q past := by
        intro q
        simp [lastWriter_concat, writes]
      refine ⟨hinv.unique, hinv.fresh, hinv.body, hinv.valid, ?_, ?_, ?_⟩
      · intro x exchange hx hne
        exact hlast x.1.other ▸ hinv.served x exchange hx hne
      · intro x exchange hx hst
        exact hlast x.1 ▸ hinv.stored x exchange hx hst
      · intro q x hx
        exact hinv.holds q x (hlast q ▸ hx)
  | request p code =>
      cases Option.some.inj h
      exact inv_request hinv
  | serve p index codeRandom random => exact inv_serve hinv h
  | deliver p index => exact inv_deliver hinv h

theorem inv_run {peers : Peers} {start nodes : Nodes} {events : List Event}
    (hstart : Initial start) (hrun : run (step peers) start events = some nodes) :
    Inv peers events nodes := by
  have h := run_history inv_step (inv_initial hstart) hrun
  simpa using h

theorem held_of_lastWriter {peers : Peers} {events : List Event} {nodes : Nodes}
    (hinv : Inv peers events nodes) (hexpired : NothingExpired nodes) {q : Party}
    {id : ExchangeId} (h : lastWriter q events = some id) :
    ∃ exchange token, nodes.exchange id = some exchange ∧ exchange.issued = some token ∧
      held peers nodes q = some token ∧ ∃ record ∈ (nodes.auth q).peerTokens.slots,
        record.live nodes.clock = true ∧ record.grants (peers.ip q.other) token = true := by
  obtain ⟨exchange, token, hexchange, hissued, record, hmem, hfor, htoken⟩ := hinv.holds q id h
  obtain ⟨hactive, hendpoint⟩ := PeerTokenRecord.isFor_eq_true.mp hfor
  have hlive : record.live nodes.clock = true :=
    PeerTokenRecord.live_eq_true.mpr ⟨hactive, hexpired q record hmem hactive⟩
  refine ⟨exchange, token, hexchange, hissued, ?_, record, hmem, hlive, ?_⟩
  · exact (authGetPeerToken_eq_some_iff (hinv.unique q)).mpr ⟨record, hmem, hlive, hfor, htoken⟩
  · exact PeerTokenRecord.grants_eq_true.mpr ⟨hactive, congrArg Prod.fst hendpoint, htoken⟩

/-- Two nodes at rest agree on their token exactly when the same exchange wrote
both records last. Overlapping exchanges can break that: each side then keeps
the token of a different exchange. -/
theorem agreement_iff_same_lastWriter (peers : Peers) (start nodes : Nodes)
    (events : List Event) (hstart : Initial start)
    (hrun : run (step peers) start events = some nodes)
    (hsome : SomeCompleted nodes)
    (hexpired : NothingExpired nodes) (hdistinct : TokensDistinct nodes) :
    Agreement peers nodes ↔ lastWriter .a events = lastWriter .b events := by
  have hinv := inv_run hstart hrun
  obtain ⟨p, exchange, hmem, hphase⟩ := hsome
  obtain ⟨index, hindex⟩ := List.mem_iff_getElem?.mp hmem
  have hboth : ∀ q, ∃ id, lastWriter q events = some id := by
    have hp := hinv.stored (p, index) exchange hindex hphase
    have ho := hinv.served (p, index) exchange hindex (by simp [hphase])
    intro q
    apply Option.ne_none_iff_exists'.mp
    cases p <;> cases q
    · exact hp
    · exact ho
    · exact ho
    · exact hp
  obtain ⟨x, hx⟩ := hboth .a
  obtain ⟨y, hy⟩ := hboth .b
  obtain ⟨ex, tx, hex, htx, hheldx, rx, hrx, hlivex, hgrantx⟩ :=
    held_of_lastWriter hinv hexpired hx
  obtain ⟨ey, ty, hey, hty, hheldy, ry, hry, hlivey, hgranty⟩ :=
    held_of_lastWriter hinv hexpired hy
  rw [hx, hy, Option.some.injEq]
  constructor
  · rintro ⟨token, hagree⟩
    have hax := (hagree .a).1
    have hay := (hagree .b).1
    rw [hheldx, Option.some.injEq] at hax
    rw [hheldy, Option.some.injEq] at hay
    subst hax hay
    exact hdistinct x y ex ey ty hex hey htx hty
  · rintro rfl
    rw [hex, Option.some.injEq] at hey
    subst hey
    rw [htx, Option.some.injEq] at hty
    subst hty
    have hne : tx ≠ CString.empty := by
      rintro rfl
      exact absurd (hinv.valid x ex _ hex htx).1 (by decide)
    refine ⟨tx, ?_⟩
    intro q
    cases q
    · exact ⟨hheldx, authValidatePeerToken_iff.mpr ⟨hne, rx, hrx, hlivex, hgrantx⟩⟩
    · exact ⟨hheldy, authValidatePeerToken_iff.mpr ⟨hne, ry, hry, hlivey, hgranty⟩⟩

def samplePeers : Peers where
  ip := fun
    | .a => .lit "10.0.0.1"
    | .b => .lit "10.0.0.2"
  port := fun _ => 8080
  name := fun
    | .a => .lit "alpha"
    | .b => .lit "beta"
  ip_fits := by
    intro p
    cases p <;> decide

def sampleNodes : Nodes where
  clock := 0
  auth := fun _ => {
    adminCode := copyString (.lit "123456")
    pairingCode := copyString (.lit "654321")
    pairingCodeExpiresAt := 300
    uiSessions := .replicate maxUiSessions default
    peerTokens := .replicate maxPeerTokens default
    rateLimits := .replicate maxRateLimits default }
  exchanges := fun _ => []

theorem sampleNodes_initial : Initial sampleNodes :=
  fun _ => ⟨rfl, uniqueEndpoints_replicate⟩

def onePairing : List Event :=
  [.request .a (.lit "654321"), .serve .a 0 none (some (.replicate 32 1)), .deliver .a 0]

theorem onePairing_agrees : ∃ nodes,
    run (step samplePeers) sampleNodes onePairing = some nodes ∧
      Agreement samplePeers nodes := by
  obtain ⟨nodes, hrun⟩ : ∃ nodes,
      run (step samplePeers) sampleNodes onePairing = some nodes :=
    Option.isSome_iff_exists.mp (by decide +kernel)
  have hfacts : (run (step samplePeers) sampleNodes onePairing).all (fun nodes =>
      (∀ p, ∀ record ∈ (nodes.auth p).peerTokens.slots,
        record.active = true → nodes.clock < record.expiresAt) ∧
      (nodes.exchanges .a).map (·.phase) = [.stored] ∧
      (nodes.exchanges .b).length = 0) = true := by decide +kernel
  rw [hrun] at hfacts
  simp only [Option.all_some, decide_eq_true_eq] at hfacts
  obtain ⟨hexpired, ha, hb⟩ := hfacts
  obtain ⟨exchange, hexchange, hphase⟩ := List.map_eq_singleton_iff.mp ha
  have honly : ∀ x ex, nodes.exchange x = some ex → x = (.a, 0) := by
    rintro ⟨p, index⟩ ex hx
    cases p with
    | a =>
        rw [Nodes.exchange, hexchange, List.getElem?_singleton] at hx
        split at hx
        · rename_i h0
          exact Prod.ext rfl h0
        · contradiction
    | b => simp [Nodes.exchange, List.length_eq_zero_iff.mp hb] at hx
  refine ⟨nodes, hrun, (agreement_iff_same_lastWriter samplePeers sampleNodes nodes onePairing
    sampleNodes_initial hrun ⟨.a, exchange, by simp [hexchange], hphase⟩ hexpired ?_).mpr
    (by decide)⟩
  intro x y ex ey token hx hy _ _
  rw [honly x ex hx, honly y ey hy]

/-- Both nodes press "pair" at the same time and each serves the other's request
before it stores the answer to its own. -/
def crossingPairings : List Event :=
  [.request .a (.lit "654321"), .request .b (.lit "654321"),
    .serve .a 0 none (some (.replicate 32 1)), .serve .b 0 none (some (.replicate 32 2)),
    .deliver .a 0, .deliver .b 0]

theorem crossingPairings_disagree : ∃ nodes,
    run (step samplePeers) sampleNodes crossingPairings = some nodes ∧
      Initial sampleNodes ∧ Quiescent nodes ∧ SomeCompleted nodes ∧ NothingExpired nodes ∧
      held samplePeers nodes .a ≠ held samplePeers nodes .b ∧
      ¬ Agreement samplePeers nodes := by
  obtain ⟨nodes, hrun⟩ : ∃ nodes,
      run (step samplePeers) sampleNodes crossingPairings = some nodes :=
    Option.isSome_iff_exists.mp (by decide +kernel)
  have hfacts : (run (step samplePeers) sampleNodes crossingPairings).all (fun nodes =>
      (∀ p, ∀ exchange ∈ nodes.exchanges p, exchange.phase = .stored) ∧
      (∃ p, ∃ exchange ∈ nodes.exchanges p, exchange.phase = .stored) ∧
      (∀ p, ∀ record ∈ (nodes.auth p).peerTokens.slots,
        record.active = true → nodes.clock < record.expiresAt) ∧
      held samplePeers nodes .a ≠ held samplePeers nodes .b) = true := by decide +kernel
  rw [hrun] at hfacts
  simp only [Option.all_some, decide_eq_true_eq] at hfacts
  obtain ⟨hquiet, hsome, hexpired, hheld⟩ := hfacts
  refine ⟨nodes, hrun, sampleNodes_initial, hquiet, hsome, hexpired, hheld, ?_⟩
  rintro ⟨token, hagree⟩
  exact hheld ((hagree .a).1.trans (hagree .b).1.symm)

end LocalDrop.Pairing
