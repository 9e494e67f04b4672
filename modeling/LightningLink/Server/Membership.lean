import LightningLink.Server.Store

/-!
# Membership of one endpoint

Library `Server`. What the server is for one endpoint: a session with its player record,
which only the endpoint's own packets and the ticks change. `memberView` shows that the
server implements this for every endpoint at once; that no endpoint can interfere with
another follows from it.
-/

namespace LightningLink.Srv

open Support Proto

/-- Session of an endpoint together with the record of its player. -/
structure Member (F : Type) where
  session : Session
  player : ServerPlayer F
  deriving DecidableEq

/-- What can happen to a member: a datagram of its endpoint, or a tick. -/
inductive Input
  | receive (now : Int) (payload : List UInt8)
  | tick (now : Int)

/-- The input that an event is for an endpoint; a datagram of another endpoint is none. -/
def Event.inputOf {F : Type} (e : Endpoint) : Event F → Option Input
  | .datagram now src payload => if src = e then some (.receive now payload) else none
  | .tick now _ => some (.tick now)

/-- A join request of an endpoint. -/
def Event.Joins {F : Type} (e : Endpoint) : Event F → Prop
  | .datagram _ src payload => src = e ∧ ∃ jr, Packet.read payload = some (.joinRequest jr)
  | .tick _ _ => False

/-- Joining is decided by the type of the packet. -/
instance {F : Type} (e : Endpoint) : DecidablePred (Event.Joins e : Event F → Prop)
  | .tick _ _ => isFalse id
  | .datagram _ src payload =>
    decidable_of_iff (src = e ∧ (Packet.read payload).map Packet.type = some .joinRequest)
      (and_congr_right fun _ ↦ by
        cases Packet.read payload with
        | none => simp
        | some p => cases p <;> simp [Packet.type])

namespace Member

variable {F : Type}

/-- The session with a new clock reading. -/
def refresh (now : Int) (m : Member F) : Member F :=
  { m with session := { m.session with lastInputTime := now } }

/-- Member after its own input packet. -/
def input (now : Int) (ip : InputPacket) (m : Member F) : Member F :=
  ⟨(m.refresh now).session, m.player.input ip.seq ip.mx ip.my⟩

/-- Member after a tick that does not find it expired. -/
def move [FloatArith F] (m : Member F) : Member F := { m with player := m.player.move }

/-- Effect of an input on a member; none where it is removed. -/
def next [FloatArith F] (m : Member F) : Input → Option (Member F)
  | .receive now payload =>
    match Packet.read payload with
    | some (.joinRequest _) => some (m.refresh now)
    | some (.input ip) => some (if m.session.playerId = ip.playerId then m.input now ip else m)
    | some (.disconnect dn) => if m.session.playerId = dn.playerId then none else some m
    | _ => some m
  | .tick now => if m.session.expired now then none else some m.move

/-- An input to a member keeps its id, and changes its record by `apply_input` or by a tick. -/
theorem next_player [FloatArith F] {m m' : Member F} {i : Input} (h : m.next i = some m') :
    m'.session.playerId = m.session.playerId ∧
      (m'.player = m.player ∨ m'.player = m.player.move ∨
        ∃ seq mx my, m'.player = m.player.input seq mx my) := by
  unfold next at h
  split at h
  · split at h
    · obtain rfl := Option.some.inj h
      exact ⟨rfl, Or.inl rfl⟩
    · obtain rfl := Option.some.inj h
      split
      · exact ⟨rfl, Or.inr (Or.inr ⟨_, _, _, rfl⟩)⟩
      · exact ⟨rfl, Or.inl rfl⟩
    · split at h
      · cases h
      · obtain rfl := Option.some.inj h
        exact ⟨rfl, Or.inl rfl⟩
    · obtain rfl := Option.some.inj h
      exact ⟨rfl, Or.inl rfl⟩
  · split at h
    · cases h
    · obtain rfl := Option.some.inj h
      exact ⟨rfl, Or.inr (Or.inl rfl)⟩

end Member

namespace Server

variable {F : Type}

/-- What the server holds for an endpoint. -/
def member (s : Server F) (e : Endpoint) : Option (Member F) :=
  (s.sessions.byEndpoint e).bind fun ses ↦ (s.world.get ses.playerId).map fun p ↦ ⟨ses, p⟩

/-- A member is a session and the record under its id. -/
theorem member_eq_some_iff (s : Server F) (e : Endpoint) (m : Member F) :
    s.member e = some m ↔ s.sessions.sessions.find? e = some m.session ∧
      s.world.get m.session.playerId = some m.player := by
  rw [member, Option.bind_eq_some_iff]
  constructor
  · rintro ⟨ses, hs, hm⟩
    obtain ⟨p, hp, rfl⟩ := Option.map_eq_some_iff.mp hm
    exact ⟨hs, hp⟩
  · rintro ⟨hs, hp⟩
    exact ⟨m.session, hs, Option.map_eq_some_iff.mpr ⟨m.player, hp, rfl⟩⟩

/-- An endpoint has a member exactly when it has a session. -/
theorem WF.member_isSome {s : Server F} (h : s.WF) (e : Endpoint) :
    (s.member e).isSome ↔ (s.sessions.sessions.find? e).isSome := by
  rw [Option.isSome_iff_exists, Option.isSome_iff_exists]
  constructor
  · rintro ⟨m, hm⟩
    exact ⟨m.session, ((member_eq_some_iff s e m).mp hm).1⟩
  · rintro ⟨ses, hs⟩
    obtain ⟨p, hp⟩ := h.exists_player hs
    exact ⟨⟨ses, p⟩, (member_eq_some_iff s e ⟨ses, p⟩).mpr ⟨hs, hp⟩⟩

/-- An endpoint without a member has no session. -/
theorem WF.session_none {s : Server F} (h : s.WF) {e : Endpoint} (hn : s.member e = none) :
    s.sessions.sessions.find? e = none := by
  rw [← Option.not_isSome_iff_eq_none, ← h.member_isSome, hn]
  simp

/-- A session belongs to the endpoint whose claimed id it verifies. -/
theorem verifyInput_iff (m : SessionManager) (ep : Endpoint) (id : UInt16) :
    m.verifyInput ep id = true ↔ ∃ ses, m.sessions.find? ep = some ses ∧ ses.playerId = id := by
  unfold SessionManager.verifyInput SessionManager.byEndpoint
  cases m.sessions.find? ep <;> simp

/-- A join refreshes the member of its endpoint and leaves the others. -/
theorem member_join [FloatArith F] [FloatBits F] (s : Server F) (now : Int)
    (src e : Endpoint) (m : Member F) (hm : s.member e = some m) :
    (s.handleJoinRequest now src).1.member e =
      some (if src = e then m.refresh now else m) := by
  obtain ⟨hs, hp⟩ := (member_eq_some_iff s e m).mp hm
  have hadd : ∀ id, (s.world.addPlayer id).2.get m.session.playerId = some m.player := by
    intro id
    rw [WorldState.get_addPlayer, hp]
    split
    · next hid => rw [hid.1, hid.2] at hp; cases hp
    · rfl
  rw [member_eq_some_iff]
  unfold handleJoinRequest
  by_cases he : src = e
  · subst he
    rw [if_pos rfl, SessionManager.registerOrGet_of_some now src _ _ hs]
    refine ⟨?_, hadd _⟩
    dsimp only
    rw [SessionManager.sessions_touch, if_pos rfl, hs]
    rfl
  · rw [if_neg he]
    have hses := SessionManager.sessions_registerOrGet now src e s.sessions (Ne.symm he)
    rw [hs] at hses
    split
    · next hr =>
      rw [hr] at hses
      exact ⟨hses, hp⟩
    · next id sessions hr =>
      rw [hr] at hses
      exact ⟨hses, hadd id⟩

/-- An input changes the member of its endpoint if it names its id, and no other. -/
theorem WF.member_input {s : Server F} (h : s.WF) (now : Int) (src e : Endpoint)
    (ip : InputPacket) (m : Member F) (hm : s.member e = some m) :
    (s.handleInputCommand now src ip).member e =
      some (if src = e ∧ m.session.playerId = ip.playerId then m.input now ip else m) := by
  obtain ⟨hs, hp⟩ := (member_eq_some_iff s e m).mp hm
  unfold handleInputCommand
  by_cases hv : s.sessions.verifyInput src ip.playerId = true
  · rw [if_pos hv, member_eq_some_iff]
    dsimp only
    rw [SessionManager.sessions_touch, WorldState.get_applyInput]
    obtain ⟨ses, hses, hid⟩ := (verifyInput_iff _ _ _).mp hv
    by_cases he : src = e
    · subst he
      obtain rfl := Option.some.inj (hs.symm.trans hses)
      rw [if_pos rfl, if_pos ⟨rfl, hid⟩, hs]
      refine ⟨rfl, ?_⟩
      change (if m.session.playerId = ip.playerId then
        (s.world.get m.session.playerId).map _ else s.world.get m.session.playerId) = _
      rw [if_pos hid, hp]
      rfl
    · -- Two endpoints do not share an id, so the record of `e` is another one.
      have hne : m.session.playerId ≠ ip.playerId := fun hc ↦
        he (h.sessions.injective hses hs (hid.trans hc.symm))
      simp [he, Ne.symm he, hne, hs, hp]
  · rw [if_neg hv, hm]
    have hn : ¬(src = e ∧ m.session.playerId = ip.playerId) := by
      rintro ⟨rfl, hid⟩
      exact hv ((verifyInput_iff _ _ _).mpr ⟨m.session, hs, hid⟩)
    rw [if_neg hn]

/-- A disconnect removes the member of its endpoint if it names its id, and no other. -/
theorem WF.member_disconnect {s : Server F} (h : s.WF) (src e : Endpoint)
    (dn : DisconnectNotice) (m : Member F) (hm : s.member e = some m) :
    (s.handleDisconnectNotice src dn).member e =
      if src = e ∧ m.session.playerId = dn.playerId then none else some m := by
  obtain ⟨hs, hp⟩ := (member_eq_some_iff s e m).mp hm
  unfold handleDisconnectNotice SessionManager.byEndpoint
  by_cases he : src = e
  · subst he
    rw [hs]
    dsimp only
    by_cases hid : m.session.playerId = dn.playerId
    · rw [if_pos hid, if_pos ⟨rfl, hid⟩, member, SessionManager.byEndpoint]
      dsimp only
      rw [SessionManager.sessions_removeByEndpoint, if_pos rfl]
      rfl
    · rw [if_neg hid, if_neg (by simp [hid]), hm]
  · rw [if_neg (by simp [he])]
    cases hses : s.sessions.sessions.find? src with
    | none => exact hm
    | some ses =>
      dsimp only
      split
      · next hid =>
        have hne : m.session.playerId ≠ dn.playerId := fun hc ↦
          he (h.sessions.injective hses hs (hid.trans hc.symm))
        rw [member_eq_some_iff]
        dsimp only
        rw [SessionManager.sessions_removeByEndpoint, WorldState.get_removePlayer]
        exact ⟨(if_neg (Ne.symm he)).trans hs, (if_neg hne).trans hp⟩
      · exact hm

/-- A tick removes the expired members and moves the others. -/
theorem WF.member_tick [FloatArith F] [FloatBits F] {s : Server F} (h : s.WF) (now : Int)
    (order : TickOrder F) (e : Endpoint) (m : Member F) (hm : s.member e = some m) :
    (s.tickAndMaybeBroadcast now order).1.member e =
      if m.session.expired now then none else some m.move := by
  obtain ⟨hs, hp⟩ := (member_eq_some_iff s e m).mp hm
  have hf : (s.tickAndMaybeBroadcast now order).1.sessions.sessions.find? e =
      if m.session.expired now then none else some m.session := by
    rw [sessions_tick, SessionManager.sessions_reapTimeouts, hs, Option.filter_some]
    by_cases hx : m.session.expired now = true <;> simp [hx]
  by_cases hx : m.session.expired now = true
  · rw [if_pos hx] at hf ⊢
    rw [member, SessionManager.byEndpoint, hf]
    rfl
  · rw [if_neg hx] at hf ⊢
    have hkept : m.session.playerId ∉ (s.sessions.reapTimeouts now order.reap).1 := by
      rw [SessionManager.mem_reapTimeouts]
      rintro ⟨ep, ses, hses, hxs, hid⟩
      obtain rfl := h.sessions.injective hses hs hid
      rw [Option.some.inj (hses.symm.trans hs)] at hxs
      exact hx hxs
    rw [member_eq_some_iff, get_tick]
    refine ⟨hf, (if_neg hkept).trans ?_⟩
    change (s.world.get m.session.playerId).map _ = _
    rw [hp]
    rfl

/-- A tick after which the session is there has moved its member. -/
theorem WF.member_tick_of_isSome [FloatArith F] [FloatBits F] {s : Server F} (h : s.WF)
    (now : Int) (order : TickOrder F) (e : Endpoint) (m : Member F) (hm : s.member e = some m)
    (hs : ((s.tickAndMaybeBroadcast now order).1.sessions.sessions.find? e).isSome) :
    (s.tickAndMaybeBroadcast now order).1.member e = some m.move := by
  have htick := h.member_tick now order e m hm
  by_cases hx : m.session.expired now = true
  · have hwf : (s.tickAndMaybeBroadcast now order).1.WF := h.step s (.tick now order)
    rw [if_pos hx] at htick
    rw [← hwf.member_isSome, htick] at hs
    cases hs
  · rwa [if_neg hx] at htick

end Server

/-! ### Joining and absence -/

namespace Server

/-- Answer to an accepted join. -/
def joinAnswer (F : Type) [FloatArith F] [FloatBits F] (src : Endpoint) (id : UInt16) : List Datagram :=
  let out := encodeJoinAccept (fun _ ↦ 0) 32 (⟨id, arenaWidth F, arenaHeight F⟩ : JoinAccept F)
  [⟨src, out.1.bytes out.2⟩]

variable {F : Type} [FloatArith F] [FloatBits F]

/-- A join of a member is answered with its id. -/
theorem join_of_member (s : Server F) (now : Int) (src : Endpoint) (m : Member F)
    (hm : s.member src = some m) :
    (s.handleJoinRequest now src).2 = joinAnswer F src m.session.playerId := by
  unfold handleJoinRequest
  rw [SessionManager.registerOrGet_of_some now src _ _ ((member_eq_some_iff s src m).mp hm).1]
  rfl

/-- A join of a new endpoint is dropped where all ids are in use. -/
theorem join_of_full (s : Server F) (now : Int) (src : Endpoint)
    (hs : s.sessions.sessions.find? src = none) (hid : s.sessions.nextFreeId = 0) :
    s.handleJoinRequest now src = (s, []) := by
  unfold handleJoinRequest
  rw [SessionManager.registerOrGet_of_full now src _ hs hid]

/-- A join of a new endpoint creates a member with a fresh record and is answered. -/
theorem WF.join_of_free {s : Server F} (h : s.WF) (now : Int) (src : Endpoint)
    (hs : s.sessions.sessions.find? src = none) (hid : s.sessions.nextFreeId ≠ 0) :
    let id := s.sessions.nextFreeId
    (s.handleJoinRequest now src).1.member src = some ⟨⟨id, src, now⟩, ServerPlayer.spawn id⟩ ∧
      (s.handleJoinRequest now src).2 = joinAnswer F src id := by
  have hnone := h.get_nextFreeId hid
  unfold handleJoinRequest
  rw [SessionManager.registerOrGet_of_free now src _ hs hid]
  refine ⟨?_, rfl⟩
  rw [member_eq_some_iff]
  dsimp only
  rw [UMap.find?_assign, WorldState.get_addPlayer, if_pos rfl, if_pos ⟨rfl, hnone⟩]
  exact ⟨rfl, rfl⟩

/-- Only a join of the endpoint itself can create its session. -/
theorem sessions_step_none (s : Server F) (ev : Event F) (e : Endpoint)
    (hs : s.sessions.sessions.find? e = none) (hj : ¬ev.Joins e) :
    (s.step ev).sessions.sessions.find? e = none := by
  cases ev with
  | tick now order =>
    change (s.tickAndMaybeBroadcast now order).1.sessions.sessions.find? e = none
    rw [sessions_tick, SessionManager.sessions_reapTimeouts, hs]
    rfl
  | datagram now src payload =>
    change (s.handleInboundUdp now src payload).1.sessions.sessions.find? e = none
    rw [handleInboundUdp_eq]
    split
    · next jr hr =>
      have hne : e ≠ src := by
        rintro rfl
        exact hj ⟨rfl, jr, hr⟩
      have hsess := SessionManager.sessions_registerOrGet now src e s.sessions hne
      rw [hs] at hsess
      unfold handleJoinRequest
      split <;> next hreg => rw [hreg] at hsess; exact hsess
    · unfold handleInputCommand
      split
      · dsimp only
        rw [SessionManager.sessions_touch, hs]
        split <;> rfl
      · exact hs
    · unfold handleDisconnectNotice
      split
      · exact hs
      · split
        · dsimp only
          rw [SessionManager.sessions_removeByEndpoint, hs]
          split <;> rfl
        · exact hs
    · exact hs

end Server

/-- The server implements the member of every endpoint. -/
def memberView {F : Type} [FloatArith F] [FloatBits F] (e : Endpoint) :
    LocalView (ValidServer.step : ValidServer F → Event F → ValidServer F) Input (Member F) where
  view v := v.server.member e
  input := Event.inputOf e
  next := Member.next
  view_frame v ev m hi hm := by
    cases ev with
    | tick now order => cases hi
    | datagram now src payload =>
      have he : src ≠ e := by
        intro he
        rw [Event.inputOf, if_pos he] at hi
        cases hi
      change (v.server.handleInboundUdp now src payload).1.member e = some m
      rw [Server.handleInboundUdp_eq]
      split
      · rw [v.server.member_join now src e m hm, if_neg he]
      · rw [v.wf.member_input now src e _ m hm, if_neg (by simp [he])]
      · rw [v.wf.member_disconnect src e _ m hm, if_neg (by simp [he])]
      · exact hm
  view_step v ev i m hi hm := by
    cases ev with
    | tick now order =>
      obtain rfl := Option.some.inj hi
      exact v.wf.member_tick now order e m hm
    | datagram now src payload =>
      by_cases he : src = e
      · rw [Event.inputOf, if_pos he] at hi
        obtain rfl := Option.some.inj hi
        change (v.server.handleInboundUdp now src payload).1.member e = _
        rw [Server.handleInboundUdp_eq, Member.next]
        cases hr : Packet.read payload with
        | none => exact hm
        | some p =>
          cases p with
          | joinRequest jr => exact (v.server.member_join now src e m hm).trans (by rw [if_pos he])
          | input ip => exact (v.wf.member_input now src e ip m hm).trans (by simp [he])
          | disconnect dn => exact (v.wf.member_disconnect src e dn m hm).trans (by simp [he])
          | joinAccept ja => exact hm
          | snapshot sn => exact hm
      · rw [Event.inputOf, if_neg he] at hi
        cases hi

/-! ### Records over a run -/

section

variable {F : Type} [FloatArith F] [FloatBits F]

/-- A join of an endpoint without a member creates one with a fresh record and is answered
with its id, or is dropped. -/
theorem Server.WF.join_new {s : Server F} (h : s.WF) (ev : Event F) (e : Endpoint)
    (hj : ev.Joins e) (hn : s.member e = none) :
    (∃ m, (s.step ev).member e = some m ∧ m.player = ServerPlayer.spawn m.session.playerId ∧
      (s.handle ev).2 = Server.joinAnswer F e m.session.playerId) ∨
    (s.step ev).member e = none ∧ (s.handle ev).2 = [] := by
  have hs := h.session_none hn
  cases ev with
  | tick now order => exact hj.elim
  | datagram now src payload =>
    obtain ⟨rfl, jr, hr⟩ := hj
    have hh : s.handle (.datagram now src payload) = s.handleJoinRequest now src := by
      change s.handleInboundUdp now src payload = _
      rw [Server.handleInboundUdp_eq, hr]
    change (∃ m, (s.handle _).1.member src = some m ∧ _ ∧ (s.handle _).2 = _) ∨
      (s.handle _).1.member src = none ∧ (s.handle _).2 = []
    rw [hh]
    by_cases hid : s.sessions.nextFreeId = 0
    · rw [Server.join_of_full s now src hs hid]
      exact Or.inr ⟨hn, rfl⟩
    · obtain ⟨hmem, hsend⟩ := h.join_of_free now src hs hid
      exact Or.inl ⟨_, hmem, rfl, hsend⟩

/-- Without a join, an endpoint without a member stays without one. -/
theorem Server.WF.member_none {s : Server F} (h : s.WF) (ev : Event F) (e : Endpoint)
    (hn : s.member e = none) (hj : ¬ev.Joins e) : (s.step ev).member e = none := by
  have hs := h.session_none hn
  rw [Server.member, SessionManager.byEndpoint, Server.sessions_step_none s ev e hs hj]
  rfl

/-- A member appears with a fresh record. -/
theorem Server.WF.member_new {s : Server F} (h : s.WF) (ev : Event F) (e : Endpoint)
    (hn : s.member e = none) {m : Member F} (hm : (s.step ev).member e = some m) :
    m.player = ServerPlayer.spawn m.session.playerId := by
  by_cases hj : ev.Joins e
  · rcases h.join_new ev e hj hn with ⟨m', hm', hp, _⟩ | ⟨hnone, _⟩
    · rw [hm] at hm'
      rw [Option.some.inj hm', hp]
    · rw [hm] at hnone
      cases hnone
  · rw [h.member_none ev e hn hj] at hm
    cases hm

/-- What a member that stays after an event has become. -/
theorem ValidServer.member_step (v : ValidServer F) (ev : Event F) (e : Endpoint) {m m' : Member F}
    (hm : v.server.member e = some m) (hm' : (v.step ev).server.member e = some m') :
    m'.session.playerId = m.session.playerId ∧
      (m'.player = m.player ∨ m'.player = m.player.move ∨
        ∃ seq mx my, m'.player = m.player.input seq mx my) := by
  have hv : (v.step ev).server.member e = _ := (memberView e).view_step_of_some ev hm
  rw [hm'] at hv
  split at hv
  · rw [Option.some.inj hv]
    exact ⟨rfl, Or.inl rfl⟩
  · exact Member.next_player hv.symm

/-- A property of fresh records that inputs and ticks keep holds of every member. -/
theorem ValidServer.member_invariant (P : ServerPlayer F → Prop)
    (spawn : ∀ id, P (ServerPlayer.spawn id))
    (move : ∀ p, P p → P p.move)
    (input : ∀ p seq mx my, P p → P (p.input seq mx my))
    (evs : List (Event F)) (e : Endpoint) {m : Member F}
    (hm : (ValidServer.reached evs).server.member e = some m) : P m.player := by
  induction evs using List.reverseRecOn generalizing m with
  | nil => cases hm
  | append_singleton evs ev ih =>
    rw [ValidServer.reached_concat] at hm
    cases hold : (ValidServer.reached evs : ValidServer F).server.member e with
    | none =>
      rw [(ValidServer.reached evs).wf.member_new ev e hold hm]
      exact spawn _
    | some m₀ =>
      have hp := ih hold
      rcases ((ValidServer.reached evs).member_step ev e hold hm).2 with h | h | ⟨_, _, _, h⟩
      · rwa [h]
      · rw [h]
        exact move _ hp
      · rw [h]
        exact input _ _ _ _ hp

end

end LightningLink.Srv
