import LightningLink.Server.Membership

/-!
# Allocation of player ids

Library `Server`. Which id `register_or_get` hands out in any state that calls of the session
manager reach: the id of the endpoint, else the smallest one that no session holds, and none
only where `MAX_PLAYERS` sessions are live. A run of the server is such a sequence of calls.
-/

namespace LightningLink.Srv

open Support Proto

namespace SessionManager

/-- A live session holds the id. -/
def Holds (m : SessionManager) (id : UInt16) : Prop :=
  ∃ ep s, m.byEndpoint ep = some s ∧ s.playerId = id

/-- A call that can change the tables. -/
inductive Call
  | registerOrGet (now : Int) (ep : Endpoint)
  | touch (now : Int) (ep : Endpoint)
  | reapTimeouts (now : Int) (order : UMap.Traversal Endpoint Session)
  | removeByEndpoint (ep : Endpoint)

/-- Tables after one call. -/
def call (m : SessionManager) : Call → SessionManager
  | .registerOrGet now ep => (m.registerOrGet now ep).2
  | .touch now ep => m.touch now ep
  | .reapTimeouts now order => (m.reapTimeouts now order).2
  | .removeByEndpoint ep => (m.removeByEndpoint ep).2

/-- Tables after a sequence of calls. -/
def run (m : SessionManager) (calls : List Call) : SessionManager := calls.foldl call m

/-- A registration keeps the tables well formed. -/
theorem WF.registerOrGet {m : SessionManager} (h : m.WF) (now : Int) (ep : Endpoint) :
    (m.registerOrGet now ep).2.WF := by
  cases hs : m.sessions.find? ep with
  | some s =>
    rw [registerOrGet_of_some now ep m s hs]
    exact h.touch now ep
  | none =>
    by_cases hid : m.nextFreeId = 0
    · rw [registerOrGet_of_full now ep m hs hid]
      exact h
    · rw [registerOrGet_of_free now ep m hs hid]
      obtain ⟨hrange, hfree⟩ := m.nextFreeId_spec hid
      exact h.create now ep m.nextFreeId hs hfree hrange

/-- Every call keeps the tables well formed. -/
theorem WF.call {m : SessionManager} (h : m.WF) (c : Call) : (m.call c).WF := by
  cases c with
  | registerOrGet now ep => exact h.registerOrGet now ep
  | touch now ep => exact h.touch now ep
  | reapTimeouts now order => exact h.reapTimeouts now order
  | removeByEndpoint ep => exact h.removeByEndpoint ep

/-- The tables are well formed after every sequence of calls. -/
theorem wf_run (calls : List Call) : (init.run calls).WF :=
  List.foldlRecOn (motive := WF) calls call wf_init fun _ h c _ ↦ h.call c

/-! ### Lookups by id -/

/-- The session found under an id is the one that holds it. -/
theorem WF.byPlayerId_eq_some_iff {m : SessionManager} (h : m.WF) (id : UInt16) (s : Session) :
    m.byPlayerId id = some s ↔ ∃ ep, m.byEndpoint ep = some s ∧ s.playerId = id := by
  rw [byPlayerId, Option.bind_eq_some_iff]
  refine exists_congr fun ep ↦ ?_
  rw [h.inverse]
  constructor
  · rintro ⟨⟨t, ht, hid⟩, hs⟩
    rw [byEndpoint, ht, Option.some.injEq] at hs
    subst hs
    exact ⟨ht, hid⟩
  · rintro ⟨hs, hid⟩
    exact ⟨⟨s, hs, hid⟩, hs⟩

/-- The lookup of an id depends on the sessions with this id only. -/
theorem WF.byPlayerId_congr {m n : SessionManager} (hm : m.WF) (hn : n.WF) (id : UInt16)
    (h : ∀ ep s, s.playerId = id → (n.byEndpoint ep = some s ↔ m.byEndpoint ep = some s)) :
    n.byPlayerId id = m.byPlayerId id := by
  apply Option.ext
  intro s
  rw [hn.byPlayerId_eq_some_iff, hm.byPlayerId_eq_some_iff]
  refine exists_congr fun ep ↦ and_congr_left fun hid ↦ ?_
  exact h ep s hid

/-- An id is held exactly when it is used. -/
theorem WF.holds_iff {m : SessionManager} (h : m.WF) (id : UInt16) :
    m.Holds id ↔ (m.idToEndpoint.find? id).isSome := (h.used_iff id).symm

/-! ### Registrations -/

/-- A registration of a known endpoint returns its id and refreshes its session only. -/
theorem WF.registerOrGet_known {m : SessionManager} (h : m.WF) (now : Int) (ep : Endpoint)
    (s : Session) (hs : m.byEndpoint ep = some s) :
    let r := m.registerOrGet now ep
    r.1 = some s.playerId ∧ r.2.size = m.size ∧
      r.2.byEndpoint ep = some { s with lastInputTime := now } ∧
      (∀ a, a ≠ ep → r.2.byEndpoint a = m.byEndpoint a) ∧
      ∀ i, i ≠ s.playerId → r.2.byPlayerId i = m.byPlayerId i := by
  have hown : (m.touch now ep).byEndpoint ep = some { s with lastInputTime := now } := by
    rw [byEndpoint, sessions_touch, if_pos rfl, show m.sessions.find? ep = some s from hs]
    rfl
  have hother : ∀ a, a ≠ ep → (m.touch now ep).byEndpoint a = m.byEndpoint a := by
    intro a ha
    rw [byEndpoint, sessions_touch, if_neg ha, byEndpoint]
  rw [registerOrGet_of_some now ep m s hs]
  refine ⟨rfl, ?_, hown, hother, fun i hi ↦ ?_⟩
  · refine UMap.size_eq_of_isSome _ _ fun a ↦ ?_
    rw [sessions_touch]
    split <;> simp
  · refine h.byPlayerId_congr (h.touch now ep) i fun a t ht ↦ ?_
    by_cases ha : a = ep
    · -- Both sessions of `ep` have its id, which is not `i`.
      subst ha
      rw [hown, hs, Option.some.injEq, Option.some.injEq]
      constructor
      · rintro rfl
        exact absurd ht.symm hi
      · rintro rfl
        exact absurd ht.symm hi
    · rw [hother a ha]

/-- A registration of a new endpoint is refused, without effect, exactly when `MAX_PLAYERS`
sessions are live. -/
theorem WF.registerOrGet_refused {m : SessionManager} (h : m.WF) (now : Int) (ep : Endpoint)
    (hs : m.byEndpoint ep = none) :
    ((m.registerOrGet now ep).1 = none ↔ m.size = maxPlayers) ∧
      ((m.registerOrGet now ep).1 = none → (m.registerOrGet now ep).2 = m) := by
  rw [size, ← h.nextFreeId_eq_zero_iff]
  by_cases hid : m.nextFreeId = 0
  · rw [registerOrGet_of_full now ep m hs hid]
    simp [hid]
  · rw [registerOrGet_of_free now ep m hs hid]
    simp [hid]

/-- A registration of a new endpoint that is not refused takes the smallest id that no session
holds, and both lookups find the new session and the old ones. -/
theorem WF.registerOrGet_new {m : SessionManager} (h : m.WF) (now : Int) (ep : Endpoint)
    (hs : m.byEndpoint ep = none) (id : UInt16) (hr : (m.registerOrGet now ep).1 = some id) :
    let n := (m.registerOrGet now ep).2
    (1 ≤ id.toNat ∧ id.toNat ≤ maxPlayers) ∧ ¬m.Holds id ∧
      (∀ j, 1 ≤ j.toNat → j < id → m.Holds j) ∧ n.size = m.size + 1 ∧
      n.byEndpoint ep = some ⟨id, ep, now⟩ ∧ n.byPlayerId id = some ⟨id, ep, now⟩ ∧
      (∀ a, a ≠ ep → n.byEndpoint a = m.byEndpoint a) ∧
      ∀ i, i ≠ id → n.byPlayerId i = m.byPlayerId i := by
  have hwf := h.registerOrGet now ep
  by_cases hid : m.nextFreeId = 0
  · rw [registerOrGet_of_full now ep m hs hid] at hr
    cases hr
  · rw [registerOrGet_of_free now ep m hs hid] at hr hwf ⊢
    obtain rfl : m.nextFreeId = id := Option.some.inj hr
    obtain ⟨hrange, hfree⟩ := m.nextFreeId_spec hid
    dsimp only at hwf ⊢
    set n : SessionManager :=
      ⟨m.sessions.assign ep ⟨m.nextFreeId, ep, now⟩, m.idToEndpoint.assign m.nextFreeId ep⟩
    have hown : n.byEndpoint ep = some ⟨m.nextFreeId, ep, now⟩ :=
      (UMap.find?_assign _ _ _ _).trans (if_pos rfl)
    have hother : ∀ a, a ≠ ep → n.byEndpoint a = m.byEndpoint a :=
      fun a ha ↦ (UMap.find?_assign _ _ _ _).trans (if_neg ha)
    refine ⟨hrange, ?_, fun j hpos hlt ↦ ?_, UMap.size_assign_of_none hs _, hown, ?_, hother,
      fun i hi ↦ ?_⟩
    · rw [h.holds_iff, hfree]
      exact Bool.false_ne_true
    · rw [h.holds_iff]
      exact m.isSome_of_lt_nextFreeId j hpos hlt
    · exact (hwf.byPlayerId_eq_some_iff _ _).mpr ⟨ep, hown, rfl⟩
    · refine h.byPlayerId_congr hwf i fun a t ht ↦ ?_
      by_cases ha : a = ep
      · subst ha
        simp only [hown, hs, Option.some.injEq, reduceCtorEq, iff_false]
        rintro rfl
        exact hi ht.symm
      · rw [hother a ha]

end SessionManager

/-! ### Runs of the server -/

namespace Server

variable {F : Type} [FloatArith F] [FloatBits F]

/-- An event makes at most one call of the session manager that changes its tables. -/
theorem sessions_step (s : Server F) (ev : Event F) :
    ∃ calls, (s.step ev).sessions = s.sessions.run calls := by
  cases ev with
  | tick now order => exact ⟨[.reapTimeouts now order.reap], sessions_tick s now order⟩
  | datagram now src payload =>
    change ∃ calls, (s.handleInboundUdp now src payload).1.sessions = _
    rw [handleInboundUdp_eq]
    split
    · refine ⟨[.registerOrGet now src], ?_⟩
      change (s.handleJoinRequest now src).1.sessions = (s.sessions.registerOrGet now src).2
      unfold handleJoinRequest
      split <;> next hr => rw [hr]
    · unfold handleInputCommand
      split
      · exact ⟨[.touch now src], rfl⟩
      · exact ⟨[], rfl⟩
    · unfold handleDisconnectNotice
      split
      · exact ⟨[], rfl⟩
      · split
        · exact ⟨[.removeByEndpoint src], rfl⟩
        · exact ⟨[], rfl⟩
    · exact ⟨[], rfl⟩

/-- The session tables of a run are reached by calls of the session manager. -/
theorem sessions_run (evs : List (Event F)) :
    ∃ calls, ((init : Server F).run evs).sessions = SessionManager.init.run calls := by
  induction evs using List.reverseRecOn with
  | nil => exact ⟨[], rfl⟩
  | append_singleton evs ev ih =>
    obtain ⟨past, hpast⟩ := ih
    obtain ⟨calls, hcalls⟩ := ((init : Server F).run evs).sessions_step ev
    refine ⟨past ++ calls, ?_⟩
    rw [run_concat, hcalls, hpast, SessionManager.run, SessionManager.run, SessionManager.run,
      List.foldl_append]

/-- A join request of a known endpoint is answered with its id, and refreshes its session
without any other effect. -/
theorem WF.join_known {s : Server F} (h : s.WF) (ev : Event F) (ep : Endpoint) (hj : ev.Joins ep)
    (ses : Session) (hs : s.sessions.byEndpoint ep = some ses) :
    (s.handle ev).2 = joinAnswer F ep ses.playerId ∧ (s.step ev).world = s.world ∧
      (∃ t, (s.step ev).sessions.byEndpoint ep = some { ses with lastInputTime := t }) ∧
      ∀ a, a ≠ ep → (s.step ev).sessions.byEndpoint a = s.sessions.byEndpoint a := by
  cases ev with
  | tick now order => exact hj.elim
  | datagram now src payload =>
    obtain ⟨rfl, jr, hr⟩ := hj
    have hh : s.handle (.datagram now src payload) = s.handleJoinRequest now src := by
      change s.handleInboundUdp now src payload = _
      rw [handleInboundUdp_eq, hr]
    obtain ⟨hid, _, hown, hother, _⟩ := h.sessions.registerOrGet_known now src ses hs
    obtain ⟨p, hp⟩ := h.exists_player hs
    have hw := s.world.addPlayer_of_some ses.playerId p hp
    rw [Server.step, hh]
    unfold handleJoinRequest
    split
    · next hr => rw [hr] at hid; cases hid
    · next id sessions hr =>
      rw [hr] at hid hown hother
      obtain rfl := Option.some.inj hid
      exact ⟨rfl, congrArg Prod.snd hw, ⟨now, hown⟩, hother⟩

/-- Repeated join requests of a known endpoint refresh its session without any other effect. -/
theorem WF.joins_known {s : Server F} (h : s.WF) (ep : Endpoint) (joins : List (Event F))
    (hj : ∀ ev ∈ joins, ev.Joins ep) (ses : Session)
    (hs : s.sessions.byEndpoint ep = some ses) :
    (s.run joins).world = s.world ∧
      (∃ t, (s.run joins).sessions.byEndpoint ep = some { ses with lastInputTime := t }) ∧
      ∀ a, a ≠ ep → (s.run joins).sessions.byEndpoint a = s.sessions.byEndpoint a := by
  induction joins generalizing s ses with
  | nil => exact ⟨rfl, ⟨ses.lastInputTime, hs⟩, fun _ _ ↦ rfl⟩
  | cons ev joins ih =>
    obtain ⟨hev, hrest⟩ := List.forall_mem_cons.mp hj
    obtain ⟨_, hw, ⟨t, ht⟩, hother⟩ := h.join_known ev ep hev ses hs
    obtain ⟨hw', hown, hother'⟩ := ih (h.step s ev) hrest _ ht
    exact ⟨hw'.trans hw, hown, fun a ha ↦ (hother' a ha).trans (hother a ha)⟩

/-- Id allocation: for every reachable session table what `register_or_get` returns and does,
and for every run of the server what repeated join requests of a known endpoint do. -/
theorem id_allocation :
    (∀ (calls : List SessionManager.Call) (now : Int) (ep : Endpoint),
      let m := SessionManager.init.run calls
      let r := m.registerOrGet now ep
      (∀ s, m.byEndpoint ep = some s →
        r.1 = some s.playerId ∧ r.2.size = m.size ∧
          r.2.byEndpoint ep = some { s with lastInputTime := now } ∧
          (∀ a, a ≠ ep → r.2.byEndpoint a = m.byEndpoint a) ∧
          ∀ i, i ≠ s.playerId → r.2.byPlayerId i = m.byPlayerId i) ∧
      (m.byEndpoint ep = none →
        (r.1 = none ↔ m.size = maxPlayers) ∧ (r.1 = none → r.2 = m) ∧
        ∀ id, r.1 = some id →
          (1 ≤ id.toNat ∧ id.toNat ≤ maxPlayers) ∧ ¬m.Holds id ∧
            (∀ j, 1 ≤ j.toNat → j < id → m.Holds j) ∧ r.2.size = m.size + 1 ∧
            r.2.byEndpoint ep = some ⟨id, ep, now⟩ ∧ r.2.byPlayerId id = some ⟨id, ep, now⟩ ∧
            (∀ a, a ≠ ep → r.2.byEndpoint a = m.byEndpoint a) ∧
            ∀ i, i ≠ id → r.2.byPlayerId i = m.byPlayerId i)) ∧
    (∀ evs : List (Event F),
      ∃ calls, ((init : Server F).run evs).sessions = SessionManager.init.run calls) ∧
    ∀ (evs joins : List (Event F)) (ep : Endpoint) (ses : Session),
      let s := (init : Server F).run evs
      s.sessions.byEndpoint ep = some ses → (∀ ev ∈ joins, ev.Joins ep) →
        (s.run joins).world = s.world ∧
        (∃ t, (s.run joins).sessions.byEndpoint ep = some { ses with lastInputTime := t }) ∧
        (∀ a, a ≠ ep → (s.run joins).sessions.byEndpoint a = s.sessions.byEndpoint a) ∧
        ∀ ev, ev.Joins ep → ((s.run joins).handle ev).2 = joinAnswer F ep ses.playerId := by
  refine ⟨fun calls now ep ↦ ?_, sessions_run, fun evs joins ep ses hs hj ↦ ?_⟩
  · have h := SessionManager.wf_run calls
    refine ⟨h.registerOrGet_known now ep, fun hs ↦ ?_⟩
    obtain ⟨hfull, hsame⟩ := h.registerOrGet_refused now ep hs
    exact ⟨hfull, hsame, h.registerOrGet_new now ep hs⟩
  · have h : ((init : Server F).run evs).WF := wf_init.run evs
    obtain ⟨hw, ⟨t, ht⟩, hother⟩ := h.joins_known ep joins hj ses hs
    exact ⟨hw, ⟨t, ht⟩, hother, fun ev hev ↦ ((h.run joins).join_known ev ep hev _ ht).1⟩

end Server
end LightningLink.Srv
