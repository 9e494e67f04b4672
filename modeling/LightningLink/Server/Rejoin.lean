import LightningLink.Server.Membership

/-!
# First input after a join

Library `Server`. A freshly started client joins and numbers its inputs from 1. Its first
input is accepted exactly when the join did not meet a living session whose player has
seen a higher number, and nothing removes the session before the input arrives.
-/

namespace LightningLink.Srv

open Support Proto

/-- The datagrams sent are one `JOIN_ACCEPT` with the id. -/
def Answers (sends : List Datagram) (e : Endpoint) (id : UInt16) : Prop :=
  ∃ payload w h, sends = [⟨e, payload⟩] ∧ Packet.read payload = some (.joinAccept ⟨id, w, h⟩)

/-- Neither a join nor an input of the endpoint. -/
def Event.Quiet {F : Type} (e : Endpoint) : Event F → Prop
  | .datagram _ src payload => src = e →
    (∀ jr, Packet.read payload ≠ some (.joinRequest jr)) ∧
      ∀ ip, Packet.read payload ≠ some (.input ip)
  | .tick _ _ => True

/-- A disconnect of the endpoint with its id, or a tick that finds its session, last
refreshed at `since`, expired. -/
def Event.Ends {F : Type} (e : Endpoint) (id : UInt16) (since : Int) : Event F → Prop
  | .datagram _ src payload => src = e ∧ ∃ dn : DisconnectNotice,
    Packet.read payload = some (.disconnect dn) ∧ dn.playerId = id
  | .tick now _ => clientTimeout < now - since

namespace Server

variable {F : Type}

/-- The session is verified and `apply_input` returns `true`. -/
def acceptsInput (s : Server F) (e : Endpoint) (ip : InputPacket) : Bool :=
  s.sessions.verifyInput e ip.playerId && (s.world.applyInput ip.playerId ip.seq ip.mx ip.my).1

/-- An input is accepted exactly when the endpoint has the id and has not seen a higher number. -/
theorem acceptsInput_iff (s : Server F) (e : Endpoint) (ip : InputPacket) (m : Member F)
    (hm : s.member e = some m) :
    s.acceptsInput e ip = true ↔
      m.session.playerId = ip.playerId ∧ m.player.latestSeenSeq ≤ ip.seq := by
  obtain ⟨hs, hp⟩ := (member_eq_some_iff s e m).mp hm
  rw [acceptsInput, Bool.and_eq_true, verifyInput_iff, WorldState.applyInput_fst, hs]
  constructor
  · rintro ⟨⟨ses, hses, hid⟩, q, hq, hle⟩
    obtain rfl := Option.some.inj hses
    rw [← hid, hp] at hq
    obtain rfl := Option.some.inj hq
    exact ⟨hid, hle⟩
  · rintro ⟨hid, hle⟩
    exact ⟨⟨m.session, rfl, hid⟩, m.player, by rw [← hid, hp], hle⟩

/-- Without a session no input is accepted. -/
theorem acceptsInput_of_none (s : Server F) (e : Endpoint) (ip : InputPacket)
    (hs : s.sessions.sessions.find? e = none) : s.acceptsInput e ip = false := by
  have hv : s.sessions.verifyInput e ip.playerId = false := by
    rw [SessionManager.verifyInput, SessionManager.byEndpoint, hs]
  rw [acceptsInput, hv, Bool.false_and]

variable [FloatArith F] [FloatBits F]

/-- A quiet event that does not end the session keeps it and the last number seen. -/
theorem member_quiet (v : ValidServer F) (e : Endpoint) (m : Member F)
    (hm : v.server.member e = some m) (ev : Event F) (hq : ev.Quiet e) :
    (¬ev.Ends e m.session.playerId m.session.lastInputTime →
      ∃ m', (v.step ev).server.member e = some m' ∧ m'.session = m.session ∧
        m'.player.latestSeenSeq = m.player.latestSeenSeq) ∧
    (ev.Ends e m.session.playerId m.session.lastInputTime →
      (v.step ev).server.member e = none) := by
  have hv := (memberView e).view_step_of_some ev hm
  change (v.step ev).server.member e = _ at hv
  cases ev with
  | tick now order =>
    change _ = (if m.session.expired now then none else some m.move) at hv
    simp only [Event.Ends, Session.expired, decide_eq_true_eq] at hv ⊢
    rw [hv]
    refine ⟨fun hx ↦ ?_, fun hx ↦ if_pos hx⟩
    rw [if_neg hx]
    exact ⟨_, rfl, rfl, rfl⟩
  | datagram now src payload =>
    by_cases he : src = e
    · subst he
      obtain ⟨hjoin, hinput⟩ := hq rfl
      have hi : (memberView src).input (.datagram now src payload : Event F) =
          some (.receive now payload) := if_pos rfl
      rw [hi] at hv
      change _ = m.next (.receive now payload) at hv
      rw [hv, Member.next]
      cases hr : Packet.read payload with
      | none => exact ⟨fun _ ↦ ⟨m, rfl, rfl, rfl⟩, by rintro ⟨_, dn, hd, _⟩; simp [hr] at hd⟩
      | some p =>
        cases p with
        | joinRequest jr => exact absurd hr (hjoin jr)
        | input ip => exact absurd hr (hinput ip)
        | disconnect dn =>
          by_cases hid : m.session.playerId = dn.playerId
          · refine ⟨fun hx ↦ absurd ⟨rfl, dn, hr, hid.symm⟩ hx, fun _ ↦ if_pos hid⟩
          · refine ⟨fun _ ↦ ⟨m, if_neg hid, rfl, rfl⟩, ?_⟩
            rintro ⟨_, d, hd, hdn⟩
            rw [hr] at hd
            obtain rfl := Packet.disconnect.inj (Option.some.inj hd)
            exact absurd hdn.symm hid
        | joinAccept ja =>
          exact ⟨fun _ ↦ ⟨m, rfl, rfl, rfl⟩, by rintro ⟨_, dn, hd, _⟩; simp [hr] at hd⟩
        | snapshot sn =>
          exact ⟨fun _ ↦ ⟨m, rfl, rfl, rfl⟩, by rintro ⟨_, dn, hd, _⟩; simp [hr] at hd⟩
    · have hi : (memberView e).input (.datagram now src payload : Event F) = none := if_neg he
      rw [hi] at hv
      exact ⟨fun _ ↦ ⟨m, hv, rfl, rfl⟩, fun hx ↦ absurd hx.1 he⟩

/-- Without a session, quiet events do not create one. -/
theorem none_of_quiet (s : Server F) (e : Endpoint) (hs : s.sessions.sessions.find? e = none)
    (mid : List (Event F)) (hq : ∀ ev ∈ mid, ev.Quiet e) :
    (s.run mid).sessions.sessions.find? e = none := by
  induction mid generalizing s with
  | nil => exact hs
  | cons ev mid ih =>
    refine ih (s.step ev) ?_ fun x hx ↦ hq x (List.mem_cons_of_mem _ hx)
    apply sessions_step_none s ev e hs
    cases ev with
    | tick now order => exact id
    | datagram now src payload =>
      rintro ⟨rfl, jr, hr⟩
      exact (hq _ List.mem_cons_self rfl).1 jr hr

/-- Quiet events end the session if one of them ends it, and else keep it. -/
theorem member_run_quiet (v : ValidServer F) (e : Endpoint) (m : Member F)
    (hm : v.server.member e = some m) (mid : List (Event F)) (hq : ∀ ev ∈ mid, ev.Quiet e) :
    ((∀ ev ∈ mid, ¬ev.Ends e m.session.playerId m.session.lastInputTime) →
      ∃ m', (v.server.run mid).member e = some m' ∧ m'.session = m.session ∧
        m'.player.latestSeenSeq = m.player.latestSeenSeq) ∧
    ((∃ ev ∈ mid, ev.Ends e m.session.playerId m.session.lastInputTime) →
      (v.server.run mid).sessions.sessions.find? e = none) := by
  induction mid generalizing v m with
  | nil => exact ⟨fun _ ↦ ⟨m, hm, rfl, rfl⟩, by simp⟩
  | cons ev mid ih =>
    obtain ⟨hkeep, hend⟩ := member_quiet v e m hm ev (hq ev List.mem_cons_self)
    have hq' : ∀ x ∈ mid, x.Quiet e := fun x hx ↦ hq x (List.mem_cons_of_mem _ hx)
    by_cases hx : ev.Ends e m.session.playerId m.session.lastInputTime
    · refine ⟨fun hall ↦ absurd hx (hall ev List.mem_cons_self), fun _ ↦ ?_⟩
      have hnone := (v.step ev).wf.session_none (hend hx)
      exact none_of_quiet (v.step ev).server e hnone mid hq'
    · obtain ⟨m', hm', hses, hseen⟩ := hkeep hx
      obtain ⟨ihkeep, ihend⟩ := ih (v.step ev) m' hm' hq'
      rw [hses] at ihkeep ihend
      rw [hseen] at ihkeep
      refine ⟨fun hall ↦ ihkeep fun x hx ↦ hall x (List.mem_cons_of_mem _ hx), ?_⟩
      rintro ⟨x, hmem, hends⟩
      rcases List.mem_cons.mp hmem with rfl | hmem
      · exact absurd hends hx
      · exact ihend ⟨x, hmem, hends⟩

end Server

section

variable [FloatArith F32]

/-- The answer to an accepted join carries its id. -/
theorem answers_joinAnswer (e : Endpoint) (id p : UInt16) :
    Answers (Server.joinAnswer F32 e id) e p ↔ p = id := by
  let ja : JoinAccept F32 := ⟨id, arenaWidth F32, arenaHeight F32⟩
  have hread : Packet.read ((encodeJoinAccept (fun _ ↦ 0) 32 ja).1.bytes
      (encodeJoinAccept (fun _ ↦ 0) 32 ja).2) = some (.joinAccept ja) := by
    have hb := ((Packet.joinAccept ja).encode_encodes (fun _ ↦ 0) 32).bytes
      (by rw [Packet.length_wire]; exact Nat.le_of_ble_eq_true rfl)
    exact (congrArg Packet.read hb).trans (Packet.read_wire _ trivial)
  constructor
  · rintro ⟨payload, w, h, hsend, hp⟩
    obtain rfl := (Datagram.mk.inj (List.cons.inj hsend).1).2
    exact congrArg JoinAccept.playerId
      (Packet.joinAccept.inj (Option.some.inj (hp.symm.trans hread)))
  · rintro rfl
    exact ⟨_, _, _, rfl, hread⟩

/-- The member of an endpoint right after its join is answered: the session is refreshed,
and the record is the one it had, or a fresh one. -/
theorem member_of_answer (v : ValidServer F32) (now : Int) (e : Endpoint) (payload : List UInt8)
    (jr : JoinRequest) (hjoin : Packet.read payload = some (.joinRequest jr)) (p : UInt16)
    (hans : Answers (v.server.handle (.datagram now e payload)).2 e p) :
    ∃ m, (v.step (.datagram now e payload)).server.member e = some m ∧
      m.session.playerId = p ∧ m.session.lastInputTime = now ∧
      m.player = ((v.server.member e).map Member.player).getD (ServerPlayer.spawn p) := by
  have hh : v.server.handle (.datagram now e payload) = v.server.handleJoinRequest now e := by
    change v.server.handleInboundUdp now e payload = _
    rw [Server.handleInboundUdp_eq, hjoin]
  change ∃ m, (v.server.handle (.datagram now e payload)).1.member e = some m ∧ _
  rw [hh] at hans ⊢
  cases hm : v.server.member e with
  | some m =>
    rw [Server.join_of_member _ now e m hm, answers_joinAnswer] at hans
    refine ⟨m.refresh now, ?_, hans.symm, rfl, rfl⟩
    rw [Server.member_join _ now e e m hm, if_pos rfl]
  | none =>
    have hs := v.wf.session_none hm
    by_cases hid : v.server.sessions.nextFreeId = 0
    · rw [Server.join_of_full _ now e hs hid] at hans
      obtain ⟨_, _, _, hsend, _⟩ := hans
      cases hsend
    · obtain ⟨hmem, hsend⟩ := v.wf.join_of_free now e hs hid
      rw [hsend, answers_joinAnswer] at hans
      exact ⟨_, hmem, hans.symm, rfl, by rw [hans]; rfl⟩

namespace Server

/-- The first input after an answered join is accepted exactly when the join found no
session whose player had seen a number above 1, and the session lasts until the input. -/
theorem join_then_input_iff (past : List (Event F32)) (now : Int) (e : Endpoint)
    (joinPayload : List UInt8) (jr : JoinRequest) (p : UInt16)
    (hjoin : Packet.read joinPayload = some (.joinRequest jr))
    (hans : Answers ((init.run past).handle (.datagram now e joinPayload)).2 e p)
    (mid : List (Event F32)) (hmid : ∀ ev ∈ mid, ev.Quiet e)
    (later : Int) (inputPayload : List UInt8) (mx my : Int8)
    (hinput : Packet.read inputPayload = some (.input ⟨p, 1, mx, my⟩)) :
    let s : Server F32 := init.run past
    let before := (s.step (.datagram now e joinPayload)).run mid
    let after := before.step (.datagram later e inputPayload)
    (before.acceptsInput e ⟨p, 1, mx, my⟩ = true ∧ ∃ q, after.world.get p = some q ∧
        q.pendingMx = clampDir mx ∧ q.pendingMy = clampDir my ∧
        q.state.lastProcessedInputSeq = 1) ↔
      (∀ ses q, s.sessions.sessions.find? e = some ses → s.world.get ses.playerId = some q →
        q.latestSeenSeq ≤ 1) ∧
      ∀ ev ∈ mid, ¬ev.Ends e p now := by
  let v : ValidServer F32 := ValidServer.reached past
  have hv : v.server = init.run past := ValidServer.server_reached past
  rw [← hv] at hans ⊢
  intro s before after
  obtain ⟨m, hm, hid, htime, hplayer⟩ := member_of_answer v now e joinPayload jr hjoin p hans
  have hfresh : m.player.latestSeenSeq ≤ 1 ↔ ∀ ses q, s.sessions.sessions.find? e = some ses →
      s.world.get ses.playerId = some q → q.latestSeenSeq ≤ 1 := by
    rw [hplayer]
    cases hold : v.server.member e with
    | none =>
      refine ⟨fun _ ses q hs hq ↦ ?_, fun _ ↦ UInt32.zero_le⟩
      rw [show s.member e = some ⟨ses, q⟩ from
        (member_eq_some_iff s e ⟨ses, q⟩).mpr ⟨hs, hq⟩] at hold
      cases hold
    | some old =>
      obtain ⟨hs, hq⟩ := (member_eq_some_iff s e old).mp hold
      refine ⟨fun h ses q hs' hq' ↦ ?_, fun h ↦ h old.session old.player hs hq⟩
      obtain rfl := Option.some.inj (hs.symm.trans hs')
      obtain rfl := Option.some.inj (hq.symm.trans hq')
      exact h
  obtain ⟨hkeep, hend⟩ := member_run_quiet (v.step (.datagram now e joinPayload)) e m hm mid hmid
  rw [hid, htime] at hkeep hend
  by_cases hlast : ∀ ev ∈ mid, ¬ev.Ends e p now
  · obtain ⟨m', hm', hses, hseen⟩ := hkeep hlast
    have hm'b : before.member e = some m' := hm'
    rw [acceptsInput_iff before e _ m' hm'b, hses, hid, hseen, hfresh]
    refine ⟨fun h ↦ ⟨h.1.2, hlast⟩, fun h ↦ ⟨⟨rfl, h.1⟩, ?_⟩⟩
    -- The record after the input is that of the member after the input.
    have hvalid : before.WF := (v.step (.datagram now e joinPayload)).wf.run mid
    have hafter : after.member e = some (m'.input later ⟨p, 1, mx, my⟩) := by
      change (before.handleInboundUdp later e inputPayload).1.member e = _
      rw [handleInboundUdp_eq, hinput]
      have hmi := hvalid.member_input later e e ⟨p, 1, mx, my⟩ m' hm'b
      rwa [if_pos ⟨rfl, by rw [hses, hid]⟩] at hmi
    have hget := ((member_eq_some_iff after e _).mp hafter).2
    have hle : ¬(1 : UInt32) < m'.player.latestSeenSeq := by
      rw [hseen]
      exact UInt32.not_lt.mpr (hfresh.mpr h.1)
    have hin : (m'.input later ⟨p, 1, mx, my⟩).player = m'.player.accept 1 mx my := if_neg hle
    rw [hin] at hget
    refine ⟨m'.player.accept 1 mx my, ?_, rfl, rfl, rfl⟩
    rw [← hget]
    change after.world.get p = after.world.get m'.session.playerId
    rw [hses, hid]
  · have hnone : before.sessions.sessions.find? e = none := by
      apply hend
      push Not at hlast
      exact hlast
    rw [acceptsInput_of_none before e _ hnone]
    simp [hlast]

end Server
end

namespace Server

/-- A first join, with the first input right after it. -/
theorem join_then_input_first :
    let before : Server F32 := init.step (.datagram 0 ⟨1, 1⟩ [1, 0, 2])
    let after := before.step (.datagram 1 ⟨1, 1⟩ [3, 0, 1, 0, 0, 0, 1, 1, 0])
    before.acceptsInput ⟨1, 1⟩ ⟨1, 1, 1, 0⟩ = true ∧ ∃ q, after.world.get 1 = some q ∧
      q.pendingMx = clampDir 1 ∧ q.pendingMy = clampDir 0 ∧ q.state.lastProcessedInputSeq = 1 :=
  (join_then_input_iff [] 0 ⟨1, 1⟩ [1, 0, 2] ⟨2⟩ 1 (by decide)
    ((answers_joinAnswer ⟨1, 1⟩ 1 1).mpr rfl) [] (fun _ h ↦ absurd h List.not_mem_nil) 1
    [3, 0, 1, 0, 0, 0, 1, 1, 0] 1 0 (by decide)).mpr
    ⟨(fun _ _ h ↦ by cases h), fun _ h ↦ absurd h List.not_mem_nil⟩

/-- A client restarts on its address while its old session lives, whose player has seen
input 2. Its join is answered with the old id, and its first input is rejected: the old
direction and acknowledgement stay. -/
theorem rejoin_rejected :
    let s : Server F32 := init.run
      [.datagram 0 ⟨1, 1⟩ [1, 0, 2], .datagram 1 ⟨1, 1⟩ [3, 0, 1, 0, 0, 0, 2, 1, 0]]
    let joined := s.handle (.datagram 2 ⟨1, 1⟩ [1, 0, 2])
    let after := joined.1.step (.datagram 3 ⟨1, 1⟩ [3, 0, 1, 0, 0, 0, 1, 0, 1])
    Answers joined.2 ⟨1, 1⟩ 1 ∧
      Packet.read [3, 0, 1, 0, 0, 0, 1, 0, 1] = some (.input ⟨1, 1, 0, 1⟩) ∧
      joined.1.acceptsInput ⟨1, 1⟩ ⟨1, 1, 0, 1⟩ = false ∧
      (after.world.get 1).map (fun q ↦ (q.pendingMx, q.pendingMy, q.state.lastProcessedInputSeq)) =
        some (1, 0, 2) := by
  refine ⟨(answers_joinAnswer ⟨1, 1⟩ 1 1).mpr rfl, ?_, ?_, ?_⟩ <;> decide

end Server
end LightningLink.Srv
