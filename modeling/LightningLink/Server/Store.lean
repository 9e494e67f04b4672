import LightningLink.Server.Server
import LightningLink.Support.Machine

/-!
# Store invariant

Library `Server`. The session table and the table of used ids are inverse to each other,
ids are in range, and the world has exactly one record for each used id. Every event keeps
this, so it holds after every run; a `ValidServer` carries it with the state.
-/

namespace LightningLink.Srv

open Support Proto

namespace SessionManager

/-- The two tables are inverse, sessions know their endpoint, ids are in range. -/
structure WF (m : SessionManager) : Prop where
  inverse : ∀ id ep, m.idToEndpoint.find? id = some ep ↔
    ∃ s, m.sessions.find? ep = some s ∧ s.playerId = id
  endpoint : ∀ ep s, m.sessions.find? ep = some s → s.endpoint = ep
  range : ∀ ep s, m.sessions.find? ep = some s →
    1 ≤ s.playerId.toNat ∧ s.playerId.toNat ≤ maxPlayers

/-- The empty tables are well formed. -/
theorem wf_init : init.WF := by
  refine ⟨?_, ?_, ?_⟩ <;> simp [init]

/-- No two endpoints share an id. -/
theorem WF.injective {m : SessionManager} (h : m.WF) {a b : Endpoint} {s t : Session}
    (ha : m.sessions.find? a = some s) (hb : m.sessions.find? b = some t)
    (he : s.playerId = t.playerId) : a = b := by
  have h1 := (h.inverse s.playerId a).mpr ⟨s, ha, rfl⟩
  have h2 := (h.inverse s.playerId b).mpr ⟨t, hb, he.symm⟩
  exact Option.some.inj (h1.symm.trans h2)

/-- A used id is the id of some session. -/
theorem WF.used_iff {m : SessionManager} (h : m.WF) (id : UInt16) :
    (m.idToEndpoint.find? id).isSome ↔ ∃ ep s, m.sessions.find? ep = some s ∧ s.playerId = id := by
  rw [Option.isSome_iff_exists]
  exact exists_congr fun ep ↦ h.inverse id ep

/-- A registration of a known endpoint refreshes its session. -/
theorem registerOrGet_of_some (now : Int) (ep : Endpoint) (m : SessionManager) (s : Session)
    (h : m.sessions.find? ep = some s) :
    m.registerOrGet now ep = (some s.playerId, m.touch now ep) := by
  simp [registerOrGet, touch, UMap.modify, h]

/-- A registration of a new endpoint fails where no id is free. -/
theorem registerOrGet_of_full (now : Int) (ep : Endpoint) (m : SessionManager)
    (h : m.sessions.find? ep = none) (hid : m.nextFreeId = 0) :
    m.registerOrGet now ep = (none, m) := by
  simp [registerOrGet, h, hid]

/-- A registration of a new endpoint takes the next free id. -/
theorem registerOrGet_of_free (now : Int) (ep : Endpoint) (m : SessionManager)
    (h : m.sessions.find? ep = none) (hid : m.nextFreeId ≠ 0) :
    m.registerOrGet now ep = (some m.nextFreeId,
      ⟨m.sessions.assign ep ⟨m.nextFreeId, ep, now⟩, m.idToEndpoint.assign m.nextFreeId ep⟩) := by
  simp [registerOrGet, UMap.emplace, h, hid]

/-- Refreshing a session keeps the tables well formed. -/
theorem WF.touch {m : SessionManager} (h : m.WF) (now : Int) (ep : Endpoint) :
    (m.touch now ep).WF := by
  have hs : ∀ a s, (m.touch now ep).sessions.find? a = some s →
      ∃ t, m.sessions.find? a = some t ∧ t.playerId = s.playerId ∧ t.endpoint = s.endpoint := by
    intro a s ha
    rw [sessions_touch] at ha
    split at ha
    · obtain ⟨t, ht, rfl⟩ := Option.map_eq_some_iff.mp ha
      exact ⟨t, ht, rfl, rfl⟩
    · exact ⟨s, ha, rfl, rfl⟩
  have hback : ∀ a t, m.sessions.find? a = some t →
      ∃ s, (m.touch now ep).sessions.find? a = some s ∧ s.playerId = t.playerId := by
    intro a t ha
    rw [sessions_touch]
    by_cases he : a = ep
    · rw [if_pos he, ha]
      exact ⟨_, rfl, rfl⟩
    · rw [if_neg he]
      exact ⟨t, ha, rfl⟩
  refine ⟨?_, ?_, ?_⟩
  · intro id a
    change m.idToEndpoint.find? id = some a ↔ _
    rw [h.inverse]
    constructor
    · rintro ⟨t, ht, rfl⟩
      exact hback a t ht
    · rintro ⟨s, hf, rfl⟩
      obtain ⟨t, ht, hid, _⟩ := hs a s hf
      exact ⟨t, ht, hid⟩
  · intro a s hf
    obtain ⟨t, ht, _, he⟩ := hs a s hf
    rw [← he]
    exact h.endpoint a t ht
  · intro a s hf
    obtain ⟨t, ht, hid, _⟩ := hs a s hf
    rw [← hid]
    exact h.range a t ht

/-- A new session with an unused id keeps the tables well formed. -/
theorem WF.create {m : SessionManager} (h : m.WF) (now : Int) (ep : Endpoint) (id : UInt16)
    (hep : m.sessions.find? ep = none) (hid : m.idToEndpoint.find? id = none)
    (hrange : 1 ≤ id.toNat ∧ id.toNat ≤ maxPlayers) :
    (⟨m.sessions.assign ep ⟨id, ep, now⟩, m.idToEndpoint.assign id ep⟩ : SessionManager).WF := by
  refine ⟨?_, ?_, ?_⟩
  · intro i a
    dsimp only
    rw [UMap.find?_assign, UMap.find?_assign]
    by_cases ha : a = ep
    · subst ha
      by_cases hi : i = id
      · simp [hi]
      · have hn : m.idToEndpoint.find? i ≠ some a := by
          rw [ne_eq, h.inverse, hep]
          simp
        simp [hi, hn, Ne.symm hi]
    · rw [if_neg ha]
      by_cases hi : i = id
      · subst hi
        have hn : ¬∃ s, m.sessions.find? a = some s ∧ s.playerId = i := by
          rw [← h.inverse, hid]
          simp
        simp only [if_pos, Option.some.injEq, iff_false_right hn]
        exact fun e ↦ ha e.symm
      · rw [if_neg hi]
        exact h.inverse i a
  · intro a s hs
    dsimp only at hs
    rw [UMap.find?_assign] at hs
    split at hs
    · next ha =>
      obtain rfl := Option.some.inj hs
      exact ha.symm
    · exact h.endpoint a s hs
  · intro a s hs
    dsimp only at hs
    rw [UMap.find?_assign] at hs
    split at hs
    · obtain rfl := Option.some.inj hs
      exact hrange
    · exact h.range a s hs

/-- Removing some sessions together with their ids keeps the tables well formed. -/
theorem WF.restrict {m n : SessionManager} (h : m.WF) (gone : Session → Prop)
    (hs : ∀ a s, n.sessions.find? a = some s ↔ m.sessions.find? a = some s ∧ ¬gone s)
    (hi : ∀ id a, n.idToEndpoint.find? id = some a ↔ m.idToEndpoint.find? id = some a ∧
      ¬∃ b s, m.sessions.find? b = some s ∧ gone s ∧ s.playerId = id) : n.WF := by
  refine ⟨?_, fun a s ha ↦ h.endpoint a s ((hs a s).mp ha).1,
    fun a s ha ↦ h.range a s ((hs a s).mp ha).1⟩
  intro id a
  rw [hi, h.inverse]
  constructor
  · rintro ⟨⟨s, ha, rfl⟩, hn⟩
    exact ⟨s, (hs a s).mpr ⟨ha, fun hg ↦ hn ⟨a, s, ha, hg, rfl⟩⟩, rfl⟩
  · rintro ⟨s, ha, rfl⟩
    obtain ⟨ha, hg⟩ := (hs a s).mp ha
    refine ⟨⟨s, ha, rfl⟩, ?_⟩
    rintro ⟨b, t, hb, hgt, he⟩
    obtain rfl := h.injective ha hb he.symm
    obtain rfl := Option.some.inj (ha.symm.trans hb)
    exact hg hgt

/-- Removing an endpoint keeps the tables well formed. -/
theorem WF.removeByEndpoint {m : SessionManager} (h : m.WF) (ep : Endpoint) :
    (m.removeByEndpoint ep).2.WF := by
  cases hs : m.sessions.find? ep with
  | none => simpa [SessionManager.removeByEndpoint, hs] using h
  | some s =>
    have he := h.endpoint ep s hs
    refine h.restrict (fun t ↦ t.endpoint = ep) ?_ ?_
    · intro a t
      rw [sessions_removeByEndpoint]
      split
      · next ha =>
        subst ha
        simp only [reduceCtorEq, false_iff, not_and, not_not]
        exact h.endpoint a t
      · next ha =>
        refine ⟨fun ht ↦ ⟨ht, ?_⟩, And.left⟩
        rw [h.endpoint a t ht]
        exact ha
    · intro id a
      have hid : (m.removeByEndpoint ep).2.idToEndpoint = m.idToEndpoint.erase s.playerId := by
        simp [SessionManager.removeByEndpoint, hs]
      have hg : (∃ b t, m.sessions.find? b = some t ∧ t.endpoint = ep ∧ t.playerId = id) ↔
          id = s.playerId := by
        constructor
        · rintro ⟨b, t, hb, ht, rfl⟩
          rw [h.endpoint b t hb] at ht
          subst ht
          rw [Option.some.inj (hb.symm.trans hs)]
        · rintro rfl
          exact ⟨ep, s, hs, he, rfl⟩
      rw [hid, UMap.find?_erase, hg]
      split
      · next hi => simp [hi]
      · next hi => simp [hi]

/-- Reaping keeps the tables well formed. -/
theorem WF.reapTimeouts {m : SessionManager} (h : m.WF) (now : Int)
    (order : UMap.Traversal Endpoint Session) : (m.reapTimeouts now order).2.WF := by
  refine h.restrict (fun t ↦ t.expired now = true) ?_ ?_
  · intro a t
    rw [sessions_reapTimeouts, Option.filter_eq_some_iff]
    simp
  · intro id a
    rw [idToEndpoint_reapTimeouts, ← mem_reapTimeouts now order]
    by_cases hd : id ∈ (m.reapTimeouts now order).1 <;> simp [hd]

/-! ### Numbers of sessions and of ids -/

/-- There are as many used ids as sessions. -/
theorem WF.size_ids {m : SessionManager} (h : m.WF) : m.idToEndpoint.size = m.sessions.size := by
  let idOf (ep : Endpoint) : UInt16 := ((m.sessions.find? ep).map Session.playerId).getD 0
  have hsome : ∀ ep ∈ m.sessions.keys,
      ∃ t, m.sessions.find? ep = some t ∧ idOf ep = t.playerId := by
    intro ep hep
    obtain ⟨t, ht⟩ := Option.isSome_iff_exists.mp ((UMap.mem_keys _ _).mp hep)
    exact ⟨t, ht, by simp [idOf, ht]⟩
  refine (UMap.size_eq_of_bijOn _ _ idOf ?_ ?_ ?_).symm
  · intro ep hep
    obtain ⟨t, ht, hid⟩ := hsome ep hep
    rw [UMap.mem_keys, hid, h.used_iff]
    exact ⟨ep, t, ht, rfl⟩
  · intro a ha b hb hab
    obtain ⟨t, ht, hta⟩ := hsome a ha
    obtain ⟨u, hu, hub⟩ := hsome b hb
    exact h.injective ht hu (hta.symm.trans (hab.trans hub))
  · intro id hid
    obtain ⟨ep, t, ht, rfl⟩ := (h.used_iff id).mp ((UMap.mem_keys _ _).mp hid)
    refine ⟨ep, (UMap.mem_keys _ _).mpr (by rw [ht]; rfl), ?_⟩
    simp [idOf, ht]

/-- The ids `1..MAX_PLAYERS`. -/
def playerIds : Finset UInt16 :=
  (Finset.range maxPlayers).image fun i ↦ UInt16.ofNat (i + 1)

theorem mem_playerIds (id : UInt16) :
    id ∈ playerIds ↔ 1 ≤ id.toNat ∧ id.toNat ≤ maxPlayers := by
  rw [playerIds, Finset.mem_image]
  constructor
  · rintro ⟨i, hi, rfl⟩
    rw [toNat_searched (Finset.mem_range.mp hi)]
    have := Finset.mem_range.mp hi
    omega
  · rintro ⟨hpos, hle⟩
    exact ⟨id.toNat - 1, Finset.mem_range.mpr (by omega), searched_eq hpos⟩

theorem card_playerIds : playerIds.card = maxPlayers := by decide

/-- Every used id is one of `1..MAX_PLAYERS`. -/
theorem WF.keys_subset {m : SessionManager} (h : m.WF) : m.idToEndpoint.keys ⊆ playerIds := by
  intro id hid
  obtain ⟨ep, t, ht, rfl⟩ := (h.used_iff id).mp ((UMap.mem_keys _ _).mp hid)
  exact (mem_playerIds _).mpr (h.range ep t ht)

/-- There are at most `MAX_PLAYERS` sessions. -/
theorem WF.size_le {m : SessionManager} (h : m.WF) : m.sessions.size ≤ maxPlayers := by
  rw [← h.size_ids, ← card_playerIds]
  exact Finset.card_le_card h.keys_subset

/-- No id is free exactly when there are `MAX_PLAYERS` sessions. -/
theorem WF.nextFreeId_eq_zero_iff {m : SessionManager} (h : m.WF) :
    m.nextFreeId = 0 ↔ m.sessions.size = maxPlayers := by
  rw [← h.size_ids]
  constructor
  · intro hz
    have hall : playerIds ⊆ m.idToEndpoint.keys := by
      intro id hid
      obtain ⟨hpos, hle⟩ := (mem_playerIds id).mp hid
      exact (UMap.mem_keys _ _).mpr (m.isSome_of_nextFreeId_eq_zero hz id hpos hle)
    rw [UMap.size, ← card_playerIds, Finset.Subset.antisymm h.keys_subset hall]
  · intro hfull
    -- All ids are used, so the search cannot have ended at one of them.
    have hall : m.idToEndpoint.keys = playerIds :=
      Finset.eq_of_subset_of_card_le h.keys_subset (card_playerIds.trans hfull.symm).le
    by_contra hz
    obtain ⟨hrange, hfree⟩ := m.nextFreeId_spec hz
    have hmem : m.nextFreeId ∈ m.idToEndpoint.keys := by
      rw [hall]
      exact (mem_playerIds _).mpr hrange
    rw [UMap.mem_keys, hfree] at hmem
    cases hmem

end SessionManager

/-- Lookup after removing several players. -/
theorem WorldState.get_foldl_removePlayer {F : Type} (ids : List UInt16) (w : WorldState F)
    (a : UInt16) : (ids.foldl (fun w id ↦ (w.removePlayer id).2) w).get a =
      if a ∈ ids then none else w.get a := by
  induction ids generalizing w with
  | nil => simp
  | cons id ids ih =>
    rw [List.foldl_cons, ih, get_removePlayer]
    by_cases ha : a = id <;> simp [ha]

namespace Server

variable {F : Type}

/-- The store invariant of the server: the tables are well formed, the world has a record
for exactly the used ids, and records know their id. -/
structure WF (s : Server F) : Prop where
  sessions : s.sessions.WF
  players : ∀ id, (s.world.get id).isSome ↔ (s.sessions.idToEndpoint.find? id).isSome
  key : ∀ id p, s.world.get id = some p → p.state.id = id

/-- A server that has just started is well formed. -/
theorem wf_init : (init : Server F).WF := by
  refine ⟨SessionManager.wf_init, ?_, ?_⟩ <;>
    simp [init, SessionManager.init, WorldState.init, WorldState.get]

/-- Every session has a player record. -/
theorem WF.exists_player {s : Server F} (h : s.WF) {ep : Endpoint} {ses : Session}
    (hs : s.sessions.sessions.find? ep = some ses) : ∃ p, s.world.get ses.playerId = some p := by
  rw [← Option.isSome_iff_exists, h.players, h.sessions.used_iff]
  exact ⟨ep, ses, hs, rfl⟩

/-- The next free id has no player. -/
theorem WF.get_nextFreeId {s : Server F} (h : s.WF) (hid : s.sessions.nextFreeId ≠ 0) :
    s.world.get s.sessions.nextFreeId = none := by
  rw [← Option.not_isSome_iff_eq_none, h.players, (s.sessions.nextFreeId_spec hid).2]
  simp

private theorem WF.join [FloatArith F] [FloatBits F] {s : Server F} (h : s.WF) (now : Int)
    (src : Endpoint) : (s.handleJoinRequest now src).1.WF := by
  unfold handleJoinRequest
  cases hs : s.sessions.sessions.find? src with
  | some ses =>
    rw [SessionManager.registerOrGet_of_some now src _ ses hs]
    obtain ⟨p, hp⟩ := h.exists_player hs
    -- The player of a known endpoint exists, so `add_player` does nothing.
    have hw : ∀ a, (s.world.addPlayer ses.playerId).2.get a = s.world.get a := by
      intro a
      rw [WorldState.get_addPlayer, hp]
      simp
    refine ⟨h.sessions.touch now src, fun id ↦ ?_, fun id q hq ↦ ?_⟩
    · dsimp only
      rw [hw]
      exact h.players id
    · dsimp only at hq
      rw [hw] at hq
      exact h.key id q hq
  | none =>
    by_cases hid : s.sessions.nextFreeId = 0
    · rw [SessionManager.registerOrGet_of_full now src _ hs hid]
      exact h
    · rw [SessionManager.registerOrGet_of_free now src _ hs hid]
      obtain ⟨hrange, hfree⟩ := s.sessions.nextFreeId_spec hid
      have hnone := h.get_nextFreeId hid
      refine ⟨h.sessions.create now src _ hs hfree hrange, fun id ↦ ?_, fun id q hq ↦ ?_⟩
      · dsimp only
        rw [WorldState.get_addPlayer, UMap.find?_assign, hnone]
        by_cases ha : id = s.sessions.nextFreeId
        · simp [ha]
        · simpa [ha] using h.players id
      · dsimp only at hq
        rw [WorldState.get_addPlayer, hnone] at hq
        by_cases ha : id = s.sessions.nextFreeId
        · rw [if_pos ⟨ha, rfl⟩] at hq
          rw [← Option.some.inj hq, ha]
          rfl
        · rw [if_neg (by simp [ha])] at hq
          exact h.key id q hq

private theorem WF.input {s : Server F} (h : s.WF) (now : Int) (src : Endpoint)
    (ip : InputPacket) : (s.handleInputCommand now src ip).WF := by
  unfold handleInputCommand
  split
  · refine ⟨h.sessions.touch now src, fun id ↦ ?_, fun id q hq ↦ ?_⟩
    · refine Iff.trans ?_ (h.players id)
      dsimp only
      rw [WorldState.get_applyInput]
      split <;> simp
    · dsimp only at hq
      rw [WorldState.get_applyInput] at hq
      split at hq
      · obtain ⟨p, hp, rfl⟩ := Option.map_eq_some_iff.mp hq
        rw [ServerPlayer.input_id]
        exact h.key id p hp
      · exact h.key id q hq
  · exact h

private theorem WF.disconnect {s : Server F} (h : s.WF) (src : Endpoint)
    (dn : DisconnectNotice) : (s.handleDisconnectNotice src dn).WF := by
  unfold handleDisconnectNotice
  cases hs : s.sessions.byEndpoint src with
  | none => exact h
  | some ses =>
    dsimp only
    split
    · next hid =>
      have hf : (s.sessions.removeByEndpoint src).2.idToEndpoint =
          s.sessions.idToEndpoint.erase ses.playerId := by
        have hs' : s.sessions.sessions.find? src = some ses := hs
        simp [SessionManager.removeByEndpoint, hs']
      refine ⟨h.sessions.removeByEndpoint src, fun id ↦ ?_, fun id q hq ↦ ?_⟩
      · dsimp only
        rw [WorldState.get_removePlayer, hf, UMap.find?_erase, hid]
        split
        · rfl
        · exact h.players id
      · dsimp only at hq
        rw [WorldState.get_removePlayer] at hq
        split at hq
        · cases hq
        · exact h.key id q hq
    · exact h

/-- A tick removes the players of the reaped sessions and simulates. -/
theorem world_tick [FloatArith F] [FloatBits F] (s : Server F) (now : Int)
    (order : TickOrder F) :
    (s.tickAndMaybeBroadcast now order).1.world =
      ((s.sessions.reapTimeouts now order.reap).1.foldl
        (fun w id ↦ (w.removePlayer id).2) s.world).stepTick ∧
    (s.tickAndMaybeBroadcast now order).1.sessions =
      (s.sessions.reapTimeouts now order.reap).2 := by
  unfold tickAndMaybeBroadcast
  dsimp only
  split <;> exact ⟨rfl, rfl⟩

/-- A tick drops the players of the reaped sessions and moves the others. -/
theorem get_tick [FloatArith F] [FloatBits F] (s : Server F) (now : Int) (order : TickOrder F)
    (id : UInt16) : (s.tickAndMaybeBroadcast now order).1.world.get id =
      if id ∈ (s.sessions.reapTimeouts now order.reap).1 then none
      else (s.world.get id).map ServerPlayer.move := by
  rw [(world_tick s now order).1, WorldState.get_stepTick, WorldState.get_foldl_removePlayer]
  split <;> rfl

/-- A tick leaves the sessions that reaping leaves. -/
theorem sessions_tick [FloatArith F] [FloatBits F] (s : Server F) (now : Int)
    (order : TickOrder F) : (s.tickAndMaybeBroadcast now order).1.sessions =
      (s.sessions.reapTimeouts now order.reap).2 := (world_tick s now order).2

private theorem WF.tick [FloatArith F] [FloatBits F] {s : Server F} (h : s.WF) (now : Int)
    (order : TickOrder F) : (s.tickAndMaybeBroadcast now order).1.WF := by
  refine ⟨?_, fun id ↦ ?_, fun id q hq ↦ ?_⟩
  · rw [sessions_tick]
    exact h.sessions.reapTimeouts now order.reap
  · rw [sessions_tick, get_tick, SessionManager.idToEndpoint_reapTimeouts]
    split
    · rfl
    · rw [Option.isSome_map]
      exact h.players id
  · rw [get_tick] at hq
    split at hq
    · cases hq
    · obtain ⟨p, hp, rfl⟩ := Option.map_eq_some_iff.mp hq
      exact h.key id p hp

/-- Every event keeps the store invariant. -/
theorem WF.step [FloatArith F] [FloatBits F] (s : Server F) (ev : Event F) (h : s.WF) :
    (s.step ev).WF := by
  cases ev with
  | tick now order => exact h.tick now order
  | datagram now src payload =>
    change (s.handleInboundUdp now src payload).1.WF
    rw [handleInboundUdp_eq]
    split
    · exact h.join now src
    · exact h.input now src _
    · exact h.disconnect src _
    · exact h

/-- Every run keeps the store invariant. -/
theorem WF.run [FloatArith F] [FloatBits F] {s : Server F} (h : s.WF) (evs : List (Event F)) :
    (s.run evs).WF := by
  induction evs generalizing s with
  | nil => exact h
  | cons ev evs ih => exact ih (h.step s ev)

/-- There are at most `MAX_PLAYERS` sessions. -/
theorem WF.size_le {s : Server F} (h : s.WF) : s.sessions.sessions.size ≤ maxPlayers :=
  h.sessions.size_le

/-- There are as many players as sessions. -/
theorem WF.size_players {s : Server F} (h : s.WF) :
    s.world.players.size = s.sessions.sessions.size := by
  rw [← h.sessions.size_ids]
  exact UMap.size_eq_of_isSome _ _ fun id ↦ Bool.eq_iff_iff.mpr (h.players id)

end Server

/-- A server state that keeps the store invariant. -/
structure ValidServer (F : Type) where
  server : Server F
  wf : server.WF

namespace ValidServer

variable {F : Type}

/-- The initial state is valid. -/
def init : ValidServer F := ⟨Server.init, Server.wf_init⟩

/-- An event leads to a valid state. -/
def step [FloatArith F] [FloatBits F] (v : ValidServer F) (ev : Event F) : ValidServer F :=
  ⟨v.server.step ev, v.wf.step v.server ev⟩

/-- Runs of valid states are runs of the server. -/
theorem server_foldl [FloatArith F] [FloatBits F] (v : ValidServer F) (evs : List (Event F)) :
    (evs.foldl step v).server = v.server.run evs := by
  induction evs generalizing v with
  | nil => rfl
  | cons ev evs ih => exact ih (v.step ev)

/-- State that a run from the start reaches. -/
def reached [FloatArith F] [FloatBits F] (evs : List (Event F)) : ValidServer F :=
  evs.foldl step init

/-- State after one more event. -/
theorem reached_concat [FloatArith F] [FloatBits F] (evs : List (Event F)) (ev : Event F) :
    (reached (evs ++ [ev]) : ValidServer F) = (reached evs).step ev := by
  rw [reached, List.foldl_append]
  rfl

/-- The server state reached by a run. -/
theorem server_reached [FloatArith F] [FloatBits F] (evs : List (Event F)) :
    (reached evs : ValidServer F).server = Server.init.run evs := server_foldl init evs

end ValidServer

namespace Server

variable {F : Type} [FloatArith F] [FloatBits F]

/-- The store invariant after every run, whatever the clock reads. -/
theorem run_store (evs : List (Event F)) :
    let s := (init : Server F).run evs
    (∀ id ep, s.sessions.idToEndpoint.find? id = some ep ↔
      ∃ ses, s.sessions.sessions.find? ep = some ses ∧ ses.playerId = id) ∧
    (∀ ep ses, s.sessions.sessions.find? ep = some ses → ses.endpoint = ep) ∧
    (∀ ep ses, s.sessions.sessions.find? ep = some ses →
      1 ≤ ses.playerId.toNat ∧ ses.playerId.toNat ≤ maxPlayers) ∧
    (∀ a b t u, s.sessions.sessions.find? a = some t → s.sessions.sessions.find? b = some u →
      t.playerId = u.playerId → a = b) ∧
    s.sessions.sessions.size ≤ maxPlayers ∧
    (∀ id, (s.world.players.find? id).isSome ↔
      ∃ ep ses, s.sessions.sessions.find? ep = some ses ∧ ses.playerId = id) ∧
    ∀ id p, s.world.players.find? id = some p → p.state.id = id := by
  have h : ((init : Server F).run evs).WF := wf_init.run evs
  refine ⟨h.sessions.inverse, h.sessions.endpoint, h.sessions.range,
    fun _ _ _ _ ↦ h.sessions.injective, h.size_le, ?_, h.key⟩
  intro id
  rw [← h.sessions.used_iff]
  exact h.players id

end Server
end LightningLink.Srv
