import LightningLink.Server.Allocation

/-!
# Accepted and rejected datagrams

Library `Server`. `Accepts` lists the datagrams that the server acts on: a complete join
request of a known endpoint or while a place is free, and a complete input or disconnect
notice that names the id of its sender. Every other datagram leaves the server as it was.
-/

namespace LightningLink.Srv

open Support Proto

namespace SessionManager

/-- The tables differ at most in the clock reading of one session. -/
structure Refreshed (m n : SessionManager) (ep : Endpoint) (now : Int) : Prop where
  ids : n.idToEndpoint = m.idToEndpoint
  session : n.byEndpoint ep = (m.byEndpoint ep).map fun s ↦ { s with lastInputTime := now }
  others : ∀ a, a ≠ ep → n.byEndpoint a = m.byEndpoint a

/-- The second tables hold one session more, and its id. -/
structure Added (m n : SessionManager) (s : Session) : Prop where
  absent : m.byEndpoint s.endpoint = none
  unused : m.idToEndpoint.find? s.playerId = none
  session : n.byEndpoint s.endpoint = some s
  id : n.idToEndpoint.find? s.playerId = some s.endpoint
  others : ∀ a, a ≠ s.endpoint → n.byEndpoint a = m.byEndpoint a
  otherIds : ∀ i, i ≠ s.playerId → n.idToEndpoint.find? i = m.idToEndpoint.find? i

/-- Touching an endpoint refreshes its session. -/
theorem refreshed_touch (m : SessionManager) (now : Int) (ep : Endpoint) :
    m.Refreshed (m.touch now ep) ep now where
  ids := rfl
  session := by rw [byEndpoint, sessions_touch, if_pos rfl, byEndpoint]
  others a ha := by rw [byEndpoint, sessions_touch, if_neg ha, byEndpoint]

/-- A registration of a new endpoint with a free id adds its session. -/
theorem added_registerOrGet (m : SessionManager) (now : Int) (ep : Endpoint)
    (hs : m.byEndpoint ep = none) (hid : m.nextFreeId ≠ 0) :
    m.Added (m.registerOrGet now ep).2 ⟨m.nextFreeId, ep, now⟩ := by
  rw [registerOrGet_of_free now ep m hs hid]
  exact {
    absent := hs
    unused := (m.nextFreeId_spec hid).2
    session := (UMap.find?_assign _ _ _ _).trans (if_pos rfl)
    id := (UMap.find?_assign _ _ _ _).trans (if_pos rfl)
    others := fun a ha ↦ (UMap.find?_assign _ _ _ _).trans (if_neg ha)
    otherIds := fun i hi ↦ (UMap.find?_assign _ _ _ _).trans (if_neg hi) }

/-- Removing an endpoint undoes adding its session. -/
theorem WF.added_removeByEndpoint {m : SessionManager} (h : m.WF) (ep : Endpoint) (s : Session)
    (hs : m.byEndpoint ep = some s) : (m.removeByEndpoint ep).2.Added m s := by
  obtain rfl := h.endpoint ep s hs
  have hf : m.sessions.find? s.endpoint = some s := hs
  have hids : (m.removeByEndpoint s.endpoint).2.idToEndpoint = m.idToEndpoint.erase s.playerId := by
    rw [SessionManager.removeByEndpoint, hf]
  exact {
    absent := by rw [byEndpoint, sessions_removeByEndpoint, if_pos rfl]
    unused := by rw [hids, UMap.find?_erase, if_pos rfl]
    session := hs
    id := (h.inverse _ _).mpr ⟨s, hs, rfl⟩
    others := fun a ha ↦ by rw [byEndpoint, byEndpoint, sessions_removeByEndpoint, if_neg ha]
    otherIds := fun i hi ↦ by rw [hids, UMap.find?_erase, if_neg hi] }

end SessionManager

namespace WorldState

variable {F : Type}

/-- The second world holds one record more. -/
structure Added (w v : WorldState F) (p : ServerPlayer F) : Prop where
  tick : v.tick = w.tick
  absent : w.get p.state.id = none
  player : v.get p.state.id = some p
  others : ∀ i, i ≠ p.state.id → v.get i = w.get i

/-- Adding a player without a record adds a fresh one. -/
theorem added_addPlayer [FloatArith F] (w : WorldState F) (id : UInt16) (h : w.get id = none) :
    w.Added (w.addPlayer id).2 (ServerPlayer.spawn id) where
  tick := tick_addPlayer w id
  absent := h
  player := by rw [get_addPlayer, if_pos ⟨rfl, h⟩]
  others i hi := by rw [get_addPlayer, if_neg fun hc ↦ hi hc.1]

/-- Removing a player undoes adding its record. -/
theorem added_removePlayer (w : WorldState F) (p : ServerPlayer F)
    (h : w.get p.state.id = some p) : (w.removePlayer p.state.id).2.Added w p where
  tick := rfl
  absent := by rw [get_removePlayer, if_pos rfl]
  player := h
  others i hi := by rw [get_removePlayer, if_neg hi]

end WorldState

namespace Server

variable {F : Type}

/-- The endpoint has a session with the id. -/
def Owns (s : Server F) (src : Endpoint) (id : UInt16) : Prop :=
  ∃ ses, s.sessions.byEndpoint src = some ses ∧ ses.playerId = id

/-- A datagram that the server acts on. -/
inductive Accepts (s : Server F) (src : Endpoint) (b : List UInt8) : Prop
  | join (jr : JoinRequest) (begins : (Packet.joinRequest jr).wire <+: b)
      (room : (s.sessions.byEndpoint src).isSome ∨ s.sessions.size < maxPlayers)
  | input (ip : InputPacket) (begins : (Packet.input ip).wire <+: b)
      (owns : s.Owns src ip.playerId)
  | disconnect (dn : DisconnectNotice) (begins : (Packet.disconnect dn).wire <+: b)
      (owns : s.Owns src dn.playerId)

/-- Fewer than `MAX_PLAYERS` sessions leave an id free. -/
theorem WF.nextFreeId_ne_zero {s : Server F} (h : s.WF) (hlt : s.sessions.size < maxPlayers) :
    s.sessions.nextFreeId ≠ 0 := by
  rw [ne_eq, h.sessions.nextFreeId_eq_zero_iff]
  exact hlt.ne

/-! ### One packet type after the other -/

/-- An input with the id of its sender refreshes the session, is counted, and changes at
most the record of the player. -/
theorem input_changes (s : Server F) (now : Int) (src : Endpoint) (ip : InputPacket)
    (ho : s.Owns src ip.playerId) :
    let s' := s.handleInputCommand now src ip
    s.sessions.Refreshed s'.sessions src now ∧
      s'.inputsReceivedTotal = s.inputsReceivedTotal + 1 ∧ s'.world.tick = s.world.tick ∧
      s'.world.get ip.playerId =
        (s.world.get ip.playerId).map (fun p ↦ p.input ip.seq ip.mx ip.my) ∧
      ∀ id, id ≠ ip.playerId → s'.world.get id = s.world.get id := by
  unfold handleInputCommand
  rw [if_pos ((verifyInput_iff _ _ _).mpr ho)]
  refine ⟨s.sessions.refreshed_touch now src, rfl, WorldState.tick_applyInput _ _ _ _ _, ?_,
    fun id hid ↦ ?_⟩
  · exact (WorldState.get_applyInput _ _ _ _ _ _).trans (if_pos rfl)
  · exact (WorldState.get_applyInput _ _ _ _ _ _).trans (if_neg hid)

/-- A disconnect notice with the id of its sender removes its session and its record. -/
theorem WF.disconnect_removes {s : Server F} (h : s.WF) (src : Endpoint) (dn : DisconnectNotice)
    (ses : Session) (hs : s.sessions.byEndpoint src = some ses)
    (hid : ses.playerId = dn.playerId) :
    let s' := s.handleDisconnectNotice src dn
    s'.sessions.Added s.sessions ses ∧
      (∃ p, p.state.id = dn.playerId ∧ s'.world.Added s.world p) ∧
      s'.inputsReceivedTotal = s.inputsReceivedTotal := by
  obtain ⟨p, hp⟩ := h.exists_player hs
  rw [hid] at hp
  have hkey := h.key _ p hp
  unfold handleDisconnectNotice
  rw [hs]
  dsimp only
  rw [if_pos hid, ← hkey]
  rw [← hkey] at hp
  exact ⟨h.sessions.added_removeByEndpoint src ses hs, ⟨p, rfl, s.world.added_removePlayer p hp⟩,
    rfl⟩

variable [FloatArith F] [FloatBits F]

/-- A datagram is handled as the packet it begins with. -/
theorem handle_of_wire (s : Server F) (now : Int) (src : Endpoint) (b : List UInt8) (p : Packet)
    (hp : p.Bounded) (hb : p.wire <+: b) :
    s.handle (.datagram now src b) = match p with
      | .joinRequest _ => s.handleJoinRequest now src
      | .input ip => (s.handleInputCommand now src ip, [])
      | .disconnect dn => (s.handleDisconnectNotice src dn, [])
      | _ => (s, []) := by
  change s.handleInboundUdp now src b = _
  rw [handleInboundUdp_eq, (Packet.read_eq_some_iff b p).mpr ⟨hp, hb⟩]
  cases p <;> rfl

/-- A join request of a known endpoint refreshes its session. -/
theorem WF.join_refreshes {s : Server F} (h : s.WF) (now : Int) (src : Endpoint)
    (hs : (s.sessions.byEndpoint src).isSome) :
    let s' := (s.handleJoinRequest now src).1
    s.sessions.Refreshed s'.sessions src now ∧ s'.world = s.world ∧
      s'.inputsReceivedTotal = s.inputsReceivedTotal := by
  obtain ⟨ses, hses⟩ := Option.isSome_iff_exists.mp hs
  obtain ⟨p, hp⟩ := h.exists_player hses
  unfold handleJoinRequest
  rw [SessionManager.registerOrGet_of_some now src _ ses hses]
  exact ⟨s.sessions.refreshed_touch now src,
    congrArg Prod.snd (s.world.addPlayer_of_some ses.playerId p hp), rfl⟩

/-- A join request of a new endpoint with a free place adds a session and a fresh record. -/
theorem WF.join_adds {s : Server F} (h : s.WF) (now : Int) (src : Endpoint)
    (hs : s.sessions.byEndpoint src = none) (hroom : s.sessions.size < maxPlayers) :
    let s' := (s.handleJoinRequest now src).1
    ∃ id, s.sessions.Added s'.sessions ⟨id, src, now⟩ ∧
      s.world.Added s'.world (ServerPlayer.spawn id) ∧
      s'.inputsReceivedTotal = s.inputsReceivedTotal := by
  have hid := h.nextFreeId_ne_zero hroom
  have hadded := s.sessions.added_registerOrGet now src hs hid
  have hnone := h.get_nextFreeId hid
  refine ⟨s.sessions.nextFreeId, ?_⟩
  unfold handleJoinRequest
  rw [SessionManager.registerOrGet_of_free now src _ hs hid] at hadded ⊢
  exact ⟨hadded, s.world.added_addPlayer _ hnone, rfl⟩

/-- A datagram that is not accepted has no effect and no answer. -/
theorem WF.rejected {s : Server F} (h : s.WF) (now : Int) (src : Endpoint) (b : List UInt8)
    (hrej : ¬s.Accepts src b) : s.handle (.datagram now src b) = (s, []) := by
  change s.handleInboundUdp now src b = _
  rw [handleInboundUdp_eq]
  cases hr : Packet.read b with
  | none => rfl
  | some p =>
    have hb := ((Packet.read_eq_some_iff b p).mp hr).2
    cases p with
    | joinRequest jr =>
      have hs : s.sessions.byEndpoint src = none := by
        by_contra hne
        exact hrej (.join jr hb (Or.inl (Option.isSome_iff_ne_none.mpr hne)))
      have hfull : s.sessions.nextFreeId = 0 := by
        by_contra hid
        refine hrej (.join jr hb (Or.inr (lt_of_le_of_ne h.size_le fun he ↦ ?_)))
        exact hid (h.sessions.nextFreeId_eq_zero_iff.mpr he)
      exact s.join_of_full now src hs hfull
    | input ip =>
      have hv : ¬s.sessions.verifyInput src ip.playerId = true := fun hv ↦
        hrej (.input ip hb ((verifyInput_iff _ _ _).mp hv))
      dsimp only
      rw [handleInputCommand, if_neg hv]
    | disconnect dn =>
      dsimp only
      rw [handleDisconnectNotice]
      cases hs : s.sessions.byEndpoint src with
      | none => rfl
      | some ses =>
        have hid : ¬ses.playerId = dn.playerId := fun hid ↦
          hrej (.disconnect dn hb ⟨ses, hs, hid⟩)
        dsimp only
        rw [if_neg hid]
    | joinAccept ja => rfl
    | snapshot sn => rfl

/-- A player record can appear only through a join request. -/
theorem WF.begins_join {s : Server F} (h : s.WF) (now : Int) (src : Endpoint) (b : List UInt8)
    (id : UInt16) (hnone : s.world.get id = none)
    (hsome : ((s.step (.datagram now src b)).world.get id).isSome) :
    ∃ jr, (Packet.joinRequest jr).wire <+: b := by
  change ((s.handle (.datagram now src b)).1.world.get id).isSome at hsome
  by_cases hacc : s.Accepts src b
  · cases hacc with
    | join jr hb _ => exact ⟨jr, hb⟩
    | input ip hb ho =>
      rw [s.handle_of_wire now src b (.input ip) trivial hb] at hsome
      obtain ⟨ses, hs, hid⟩ := ho
      obtain ⟨p, hp⟩ := h.exists_player hs
      have hne : id ≠ ip.playerId := by
        rintro rfl
        rw [hid, hnone] at hp
        cases hp
      have hsame := (s.input_changes now src ip ⟨ses, hs, hid⟩).2.2.2.2 id hne
      rw [hsame, hnone] at hsome
      cases hsome
    | disconnect dn hb ho =>
      rw [s.handle_of_wire now src b (.disconnect dn) trivial hb] at hsome
      obtain ⟨ses, hs, hid⟩ := ho
      obtain ⟨_, ⟨p, hp, hadded⟩, _⟩ := h.disconnect_removes src dn ses hs hid
      have hsame : (s.handleDisconnectNotice src dn).world.get id = none := by
        by_cases hi : id = p.state.id
        · rw [hi, hadded.absent]
        · rw [← hadded.others id hi, hnone]
      rw [hsame] at hsome
      cases hsome
  · rw [h.rejected now src b hacc, hnone] at hsome
    cases hsome

/-- Effect of one datagram on every reachable state: none where it is rejected, and else a
refreshed session, an added session with its record, an input, or a removed session. -/
theorem datagram_effect (evs : List (Event F)) (now : Int) (src : Endpoint) (b : List UInt8) :
    let s := (init : Server F).run evs
    let s' := s.step (.datagram now src b)
    (¬s.Accepts src b → s.handle (.datagram now src b) = (s, [])) ∧
    (∀ jr, (Packet.joinRequest jr).wire <+: b → (s.sessions.byEndpoint src).isSome →
      s.sessions.Refreshed s'.sessions src now ∧ s'.world = s.world ∧
        s'.inputsReceivedTotal = s.inputsReceivedTotal) ∧
    (∀ jr, (Packet.joinRequest jr).wire <+: b → s.sessions.byEndpoint src = none →
      s.sessions.size < maxPlayers →
        ∃ id, s.sessions.Added s'.sessions ⟨id, src, now⟩ ∧
          s.world.Added s'.world (ServerPlayer.spawn id) ∧
          s'.inputsReceivedTotal = s.inputsReceivedTotal) ∧
    (∀ ip, (Packet.input ip).wire <+: b → s.Owns src ip.playerId →
      s.sessions.Refreshed s'.sessions src now ∧
        s'.inputsReceivedTotal = s.inputsReceivedTotal + 1 ∧ s'.world.tick = s.world.tick ∧
        s'.world.get ip.playerId =
          (s.world.get ip.playerId).map (fun p ↦ p.input ip.seq ip.mx ip.my) ∧
        ∀ id, id ≠ ip.playerId → s'.world.get id = s.world.get id) ∧
    (∀ dn ses, (Packet.disconnect dn).wire <+: b → s.sessions.byEndpoint src = some ses →
      ses.playerId = dn.playerId →
        s'.sessions.Added s.sessions ses ∧
          (∃ p, p.state.id = dn.playerId ∧ s'.world.Added s.world p) ∧
          s'.inputsReceivedTotal = s.inputsReceivedTotal) ∧
    (∀ id, s.world.get id = none → (s'.world.get id).isSome →
      ∃ jr, (Packet.joinRequest jr).wire <+: b) ∧
    ∀ ip, (Packet.input ip).wire <+: b → s.sessions.byEndpoint src = none → s' = s := by
  intro s s'
  have h : s.WF := wf_init.run evs
  have hs' : s' = (s.handle (.datagram now src b)).1 := rfl
  refine ⟨h.rejected now src b, fun jr hb hs ↦ ?_, fun jr hb hs hroom ↦ ?_, fun ip hb ho ↦ ?_,
    fun dn ses hb hs hid ↦ ?_, fun id hnone hsome ↦ ?_, fun ip hb hs ↦ ?_⟩
  · rw [hs', s.handle_of_wire now src b (.joinRequest jr) trivial hb]
    exact h.join_refreshes now src hs
  · rw [hs', s.handle_of_wire now src b (.joinRequest jr) trivial hb]
    exact h.join_adds now src hs hroom
  · rw [hs', s.handle_of_wire now src b (.input ip) trivial hb]
    exact s.input_changes now src ip ho
  · rw [hs', s.handle_of_wire now src b (.disconnect dn) trivial hb]
    exact h.disconnect_removes src dn ses hs hid
  · exact h.begins_join now src b id hnone hsome
  · rw [hs', s.handle_of_wire now src b (.input ip) trivial hb]
    have hv : ¬s.sessions.verifyInput src ip.playerId = true := by
      rw [SessionManager.verifyInput, hs]
      exact Bool.false_ne_true
    dsimp only
    rw [handleInputCommand, if_neg hv]

end Server
end LightningLink.Srv
