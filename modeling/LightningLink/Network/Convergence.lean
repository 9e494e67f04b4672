import LightningLink.Network.Arena
import LightningLink.Network.Prediction
import LightningLink.Network.Steering

/-!
# Client and server agree at rest

Library `Network`. Once a player has let go of the keys and the server has acknowledged an input
without a direction, the client shows its player exactly where the server has it, whatever was
lost, delayed or reordered before. The floating-point arithmetic is used in one respect only: a
move without a direction ends where it starts.
-/

namespace LightningLink

open Support Proto FloatOps FloatArith

/-- A move of this duration without a direction leaves every position of the arena. -/
def Cl.Still {F : Type} [FloatArith F] (dt : Double F) : Prop :=
  ∀ pos : Vec2 F, pos.InArena → applyMove pos 0 0 dt = pos

/-- An input that has no direction, or a number below a given one. -/
def Proto.InputPacket.RestsFrom (ack : ℕ) (ip : InputPacket) : Prop :=
  ack ≤ ip.seq.toNat → ip.mx = 0 ∧ ip.my = 0

instance (ack : ℕ) (ip : InputPacket) : Decidable (ip.RestsFrom ack) := by
  unfold InputPacket.RestsFrom
  infer_instance

/-! ### The server -/

namespace Srv

open Cl

section

variable {F : Type} [FloatArith F]

/-- A record without a direction at a position, which has seen a number. -/
structure ServerPlayer.Stands (ack : ℕ) (pos : Vec2 F) (p : ServerPlayer F) : Prop where
  pos : p.state.pos = pos
  mx : p.pendingMx = 0
  my : p.pendingMy = 0
  seen : ack ≤ p.latestSeenSeq.toNat

namespace ServerPlayer

variable {ack : ℕ} {pos : Vec2 F} {p : ServerPlayer F}

/-- A new record. -/
theorem stands_spawn (id : UInt16) : (spawn id : ServerPlayer F).Stands 0 initialPos :=
  ⟨rfl, rfl, rfl, Nat.zero_le _⟩

/-- A tick. -/
theorem Stands.move (h : p.Stands ack pos) (hpos : pos.InArena) (hdt : Still (dtSeconds F)) :
    p.move.Stands ack pos where
  pos := by
    have hmove : p.move.state.pos =
      applyMove p.state.pos p.pendingMx p.pendingMy (dtSeconds F) := rfl
    rw [hmove, h.pos, h.mx, h.my]
    exact hdt pos hpos
  mx := h.mx
  my := h.my
  seen := h.seen

omit [FloatArith F] in
/-- An input that rests. -/
theorem Stands.input (h : p.Stands ack pos) {ip : InputPacket} (hip : ip.RestsFrom ack) :
    (p.input ip.seq ip.mx ip.my).Stands ack pos := by
  unfold ServerPlayer.input
  split
  · exact h
  · next hnew =>
    have hle : p.latestSeenSeq.toNat ≤ ip.seq.toNat :=
      UInt32.le_iff_toNat_le.mp (UInt32.not_lt.mp hnew)
    have hseen : ack ≤ ip.seq.toNat := h.seen.trans hle
    obtain ⟨hmx, hmy⟩ := hip hseen
    refine ⟨h.pos, ?_, ?_, hseen⟩
    · rw [hmx]
      rfl
    · rw [hmy]
      rfl

end ServerPlayer

/-- What an input to a member does to its record, and which packet it delivers. -/
theorem Member.next_delivers {m m' : Member F} {i : Input} (h : m.next i = some m') :
    m'.player = m.player ∨ m'.player = m.player.move ∨
      ∃ ip, i.delivers m.session.playerId = some ip ∧
        m'.player = m.player.input ip.seq ip.mx ip.my := by
  cases hdel : i.delivers m.session.playerId with
  | some ip => exact Or.inr (Or.inr ⟨ip, rfl, Member.next_of_delivers h hdel⟩)
  | none =>
    unfold next at h
    unfold Input.delivers at hdel
    split at h
    · split at h
      · obtain rfl := Option.some.inj h
        exact Or.inl rfl
      · next hr =>
        simp only [hr] at hdel
        obtain rfl := Option.some.inj h
        split at hdel
        · cases hdel
        · next hid => exact Or.inl (by rw [if_neg hid])
      · split at h
        · cases h
        · obtain rfl := Option.some.inj h
          exact Or.inl rfl
      · obtain rfl := Option.some.inj h
        exact Or.inl rfl
    · split at h
      · cases h
      · obtain rfl := Option.some.inj h
        exact Or.inr (Or.inl rfl)

variable [FloatBits F]

/-- What an event does to the record of a member that stays, and which packet it delivers. -/
theorem ValidServer.member_delivers (v : ValidServer F) (ev : Event F) (e : Endpoint)
    {m m' : Member F} (hm : v.server.member e = some m)
    (hm' : (v.step ev).server.member e = some m') :
    m'.player = m.player ∨ m'.player = m.player.move ∨
      ∃ ip, ev.delivers e m.session.playerId = some ip ∧
        m'.player = m.player.input ip.seq ip.mx ip.my := by
  have hv : (v.step ev).server.member e = _ := (memberView e).view_step_of_some ev hm
  rw [hm'] at hv
  cases hi : ev.inputOf e with
  | none =>
    rw [show (memberView e).input ev = none from hi] at hv
    exact Or.inl (congrArg Member.player (Option.some.inj hv))
  | some i =>
    rw [show (memberView e).input ev = some i from hi] at hv
    rw [Event.delivers, hi, Option.bind_some]
    exact Member.next_delivers hv.symm

/-- The member of an endpoint, if it has a given id, stands. -/
def Server.Stands (e : Endpoint) (id : UInt16) (ack : ℕ) (pos : Vec2 F) (s : Server F) : Prop :=
  ∀ m, s.member e = some m → m.session.playerId = id → m.player.Stands ack pos

/-- One event that delivers nothing but inputs that rest. A join can only create a member that
has not moved. -/
theorem Server.Stands.step {v : ValidServer F} {e : Endpoint} {id : UInt16} {ack : ℕ}
    {pos : Vec2 F} (h : v.server.Stands e id ack pos) (hpos : pos.InArena)
    (hdt : Still (dtSeconds F)) (ev : Event F)
    (hrests : ∀ ip, ev.delivers e id = some ip → ip.RestsFrom ack)
    (hjoins : ev.Joins e → ack = 0 ∧ pos = initialPos) :
    (v.step ev).server.Stands e id ack pos := by
  intro m' hm' hid
  cases hm : v.server.member e with
  | none =>
    have hjoin : ev.Joins e := by
      by_contra hno
      have hnone : (v.step ev).server.member e = none := v.wf.member_none ev e hm hno
      rw [hnone] at hm'
      cases hm'
    obtain ⟨rfl, rfl⟩ := hjoins hjoin
    rw [v.wf.member_new ev e hm hm']
    exact ServerPlayer.stands_spawn _
  | some m =>
    have hkept := (v.member_step ev e hm hm').1
    have hstands := h m hm (hkept.symm.trans hid)
    rcases v.member_delivers ev e hm hm' with heq | heq | ⟨ip, hdel, heq⟩
    · rwa [heq]
    · rw [heq]
      exact hstands.move hpos hdt
    · rw [heq]
      rw [← hkept, hid] at hdel
      exact hstands.input (hrests ip hdel)

/-- A run that delivers nothing but inputs that rest. -/
theorem Server.Stands.run {past : List (Event F)} {e : Endpoint} {id : UInt16} {ack : ℕ}
    {pos : Vec2 F} (h : (ValidServer.reached past).server.Stands e id ack pos)
    (hpos : pos.InArena) (hdt : Still (dtSeconds F)) (evs : List (Event F))
    (hrests : ∀ ip ∈ delivered e id evs, ip.RestsFrom ack)
    (hjoins : ∀ ev ∈ evs, ev.Joins e → ack = 0 ∧ pos = initialPos) :
    (ValidServer.reached (past ++ evs)).server.Stands e id ack pos := by
  induction evs using List.reverseRecOn with
  | nil => rwa [List.append_nil]
  | append_singleton evs ev ih =>
    rw [delivered, List.filterMap_append] at hrests
    rw [← List.append_assoc, ValidServer.reached_concat]
    refine (ih ?_ ?_).step hpos hdt ev ?_ ?_
    · exact fun ip hip ↦ hrests ip (List.mem_append_left _ hip)
    · exact fun ev' hev ↦ hjoins ev' (List.mem_append_left _ hev)
    · exact fun ip hip ↦ hrests ip
        (List.mem_append_right _ (List.mem_filterMap.mpr ⟨ev, List.mem_singleton_self ev, hip⟩))
    · exact hjoins ev (List.mem_append_right _ (List.mem_singleton_self ev))

/-- The controls of a member are those of a new record, or those that a delivered input sets. -/
theorem ValidServer.controls_reached (evs : List (Event F)) (e : Endpoint) {m : Member F}
    (hm : (ValidServer.reached evs).server.member e = some m) :
    m.player.controls = (0, 0, 0, 0) ∨ ∃ ip ∈ delivered e m.session.playerId evs,
      m.player.controls = (ip.seq, ip.seq, clampDir ip.mx, clampDir ip.my) := by
  induction evs using List.reverseRecOn generalizing m with
  | nil => cases hm
  | append_singleton evs ev ih =>
    rw [ValidServer.reached_concat] at hm
    have hmore : delivered e m.session.playerId (evs ++ [ev]) =
        delivered e m.session.playerId evs ++ delivered e m.session.playerId [ev] :=
      List.filterMap_append
    rw [hmore]
    cases hold : (ValidServer.reached evs : ValidServer F).server.member e with
    | none =>
      rw [(ValidServer.reached evs).wf.member_new ev e hold hm]
      exact Or.inl rfl
    | some m₀ =>
      have hid := ((ValidServer.reached evs).member_step ev e hold hm).1
      have hkept {p : ServerPlayer F} (hp : p.controls = m₀.player.controls) :
          p.controls = (0, 0, 0, 0) ∨ ∃ ip ∈ delivered e m.session.playerId evs ++
              delivered e m.session.playerId [ev],
            p.controls = (ip.seq, ip.seq, clampDir ip.mx, clampDir ip.my) := by
        rw [hp, hid]
        exact (ih hold).imp_right fun ⟨ip, hip, hset⟩ ↦
          ⟨ip, List.mem_append_left _ hip, hset⟩
      rcases (ValidServer.reached evs).member_delivers ev e hold hm with
        heq | heq | ⟨ip, hdel, heq⟩
      · exact hkept (congrArg ServerPlayer.controls heq)
      · exact hkept (by rw [heq]; rfl)
      · by_cases hold' : ip.seq < m₀.player.latestSeenSeq
        · exact hkept (by rw [heq, ServerPlayer.input, if_pos hold'])
        · refine Or.inr ⟨ip, List.mem_append_right _ ?_, ?_⟩
          · rw [hid]
            exact List.mem_filterMap.mpr ⟨ev, List.mem_singleton_self ev, hdel⟩
          · rw [heq]
            exact m₀.player.controls_input ip.mx ip.my (UInt32.not_lt.mp hold')

/-- A member to which no input but those that rest from its acknowledgement on was delivered. -/
theorem ValidServer.stands_reached (evs : List (Event F)) (e : Endpoint) {m : Member F}
    (hm : (ValidServer.reached evs).server.member e = some m)
    (hrests : ∀ ip ∈ delivered e m.session.playerId evs,
      ip.RestsFrom m.player.state.lastProcessedInputSeq.toNat) :
    m.player.Stands m.player.state.lastProcessedInputSeq.toNat m.player.state.pos := by
  have hfields {seq ack : UInt32} {mx my : Int8}
      (h : m.player.controls = (seq, ack, mx, my)) : m.player.latestSeenSeq = seq ∧
        m.player.state.lastProcessedInputSeq = ack ∧ m.player.pendingMx = mx ∧
        m.player.pendingMy = my := by
    simpa [ServerPlayer.controls] using h
  rcases ValidServer.controls_reached evs e hm with h | ⟨ip, hip, h⟩
  · obtain ⟨hseen, hack, hmx, hmy⟩ := hfields h
    exact ⟨rfl, hmx, hmy, by rw [hack, hseen]⟩
  · obtain ⟨hseen, hack, hmx, hmy⟩ := hfields h
    have hrest := hrests ip hip
    rw [hack] at hrest
    obtain ⟨hx, hy⟩ := hrest le_rfl
    rw [hx] at hmx
    rw [hy] at hmy
    exact ⟨rfl, hmx, hmy, by rw [hack, hseen]⟩

/-- A member has joined. -/
theorem exists_join_of_member (evs : List (Event F)) (e : Endpoint)
    (h : ((ValidServer.reached evs).server.member e).isSome) : ∃ ev ∈ evs, ev.Joins e := by
  induction evs using List.reverseRecOn with
  | nil => cases h
  | append_singleton evs ev ih =>
    by_cases hj : ev.Joins e
    · exact ⟨ev, List.mem_append_right _ (List.mem_singleton_self ev), hj⟩
    · cases hm : (ValidServer.reached evs : ValidServer F).server.member e with
      | some m =>
        obtain ⟨ev', hev, hj'⟩ := ih (Option.isSome_iff_exists.mpr ⟨m, hm⟩)
        exact ⟨ev', List.mem_append_left _ hev, hj'⟩
      | none =>
        rw [ValidServer.reached_concat] at h
        have hnone : ((ValidServer.reached evs).step ev : ValidServer F).server.member e = none :=
          (ValidServer.reached evs).wf.member_none ev e hm hj
        rw [hnone] at h
        cases h

end

variable [FloatArith F32]

/-- A snapshot is sent to an endpoint with a member, and has its state under its id. -/
theorem Sends.exists_member {evs : List (Event F32)} {e : Endpoint} {snap : Snapshot F32}
    (h : Sends evs e (.snapshot snap)) : ∃ past rest m, evs = past ++ rest ∧
      (ValidServer.reached past).server.member e = some m ∧
        ∀ ps ∈ snap.players, ps.id = m.session.playerId → ps = m.player.state := by
  obtain ⟨past, ev, rest, rfl, d, hd, rfl, hr⟩ := h
  let v : ValidServer F32 := ValidServer.reached past
  cases ev with
  | datagram now src bytes =>
    rcases v.server.sends_of_datagram now src bytes with hnone | ⟨_, id, hjoin⟩
    · rw [hnone] at hd
      cases hd
    · obtain ⟨out, _, _, hans, hread⟩ := (answers_joinAnswer src id id).mpr rfl
      rw [hjoin, hans] at hd
      obtain rfl := List.mem_singleton.mp hd
      cases hread.symm.trans hr
  | tick now order =>
    obtain ⟨hsnap, hlive⟩ := v.wf.of_mem_tick now order hd
    rw [snapshotOf_eq_some_iff_read] at hsnap
    obtain rfl := Packet.snapshot.inj (Option.some.inj (hr.symm.trans hsnap))
    have hwf := (v.step (.tick now order)).wf
    obtain ⟨m, hm⟩ := Option.isSome_iff_exists.mp ((hwf.member_isSome d.endpoint).mpr hlive)
    refine ⟨past ++ [.tick now order], rest, m, ?_, ?_, fun ps hps hid ↦ ?_⟩
    · rw [List.append_assoc]
      rfl
    · rw [ValidServer.reached_concat]
      exact hm
    · obtain ⟨p, hp, rfl⟩ := (hwf.record_iff order ps m.session.playerId).mp ⟨hps, hid⟩
      have hplayer := ((Server.member_eq_some_iff _ _ m).mp hm).2
      exact congrArg ServerPlayer.state (Option.some.inj (hp.symm.trans hplayer))

end Srv

/-! ### The client -/

namespace Net

open Srv Cl

section

variable [FloatArith F32]

/-- Join request that a payload carries. -/
def joinIn (payload : List UInt8) : Option JoinRequest :=
  match Packet.read payload with
  | some (.joinRequest jr) => some jr
  | _ => none

/-- A client that plays has asked to join once. -/
theorem Life.joins_out (l : Life) : l.out.filterMap joinIn = {⟨protocolVersion⟩} := by
  have hinput (ip : InputPacket) : (joinIn ∘ inputBytes) ip = none := by
    rw [Function.comp_apply, joinIn, read_inputBytes]
  have hjoin : joinIn joinBytes = some ⟨protocolVersion⟩ := by
    rw [joinIn, read_joinBytes]
  rw [Life.out, Multiset.filterMap_cons_some _ _ _ hjoin, Multiset.filterMap_coe,
    List.filterMap_map]
  exact congrArg _ (congrArg _ (List.filterMap_eq_nil_iff.mpr fun ip _ ↦ hinput ip))

omit [FloatArith F32] in
/-- A join is heard. -/
theorem joins_heard {e : Endpoint} {evs : List (Srv.Event F32)}
    (h : ∃ ev ∈ evs, ev.Joins e) : 0 < ((heard e evs).filterMap joinIn).card := by
  obtain ⟨ev, hev, hj⟩ := h
  cases ev with
  | tick now order => exact hj.elim
  | datagram now src payload =>
    obtain ⟨rfl, jr, hr⟩ := hj
    have hmem : payload ∈ heard src evs :=
      Multiset.mem_coe.mpr (List.mem_filterMap.mpr ⟨_, hev, if_pos rfl⟩)
    refine Multiset.card_pos_iff_exists_mem.mpr ⟨jr, (Multiset.mem_filterMap joinIn _).mpr ?_⟩
    exact ⟨payload, hmem, by rw [joinIn, hr]⟩

/-- After a client that plays has become a member it does not join. -/
theorem Life.noJoin (l : Life) {e : Endpoint} {past evs : List (Srv.Event F32)}
    (h : heard e (past ++ evs) ≤ l.out) {m : Member F32}
    (hm : (ValidServer.reached past).server.member e = some m) : ∀ ev ∈ evs, ¬ev.Joins e := by
  intro ev hev hj
  have hfirst := joins_heard (exists_join_of_member past e (Option.isSome_iff_exists.mpr ⟨m, hm⟩))
  have hsecond := joins_heard ⟨ev, hev, hj⟩
  have hheard : heard e (past ++ evs) = heard e past + heard e evs := by
    rw [heard, List.filterMap_append, ← Multiset.coe_add]
    rfl
  have hcard := Multiset.card_le_card (Multiset.filterMap_le_filterMap joinIn h)
  rw [l.joins_out, Multiset.card_singleton, hheard, Multiset.filterMap_add,
    Multiset.card_add] at hcard
  omega

/-- From the input that its record acknowledges on, a client has sent no direction. -/
def Playing.Rests (p : Playing) : Prop := ∀ ip ∈ p.sent, ip.RestsFrom p.client.base.mark

instance (p : Playing) : Decidable p.Rests := by
  unfold Playing.Rests
  infer_instance

/-- Moves without a direction, one after another. -/
theorem foldl_still {inputs : List (PredictedInput F32)} {pos : Vec2 F32} (hpos : pos.InArena)
    (h : ∀ pi ∈ inputs, pi.mx = 0 ∧ pi.my = 0 ∧ Still pi.dt) :
    inputs.foldl PredictedInput.move pos = pos := by
  induction inputs with
  | nil => rfl
  | cons pi inputs ih =>
    obtain ⟨hmx, hmy, hdt⟩ := h pi List.mem_cons_self
    have hmove : PredictedInput.move pos pi = pos := by
      rw [PredictedInput.move, hmx, hmy]
      exact hdt pos hpos
    rw [List.foldl_cons, hmove]
    exact ih fun pi' hpi ↦ h pi' (List.mem_cons_of_mem pi hpi)

/-- The inputs after the first ones have higher numbers. -/
theorem Playing.Numbered.lt_of_mem_drop {p : Playing} (h : p.Numbered)
    (hn : p.sent.length < 2 ^ 32 - 1) {ack : ℕ} {ip : InputPacket} (hip : ip ∈ p.sent.drop ack) :
    ack < ip.seq.toNat := by
  obtain ⟨i, hi, rfl⟩ := List.mem_drop_iff_getElem.mp hip
  have hlt : ack + i < p.sent.length := by omega
  have hseq := congrArg (fun seqs ↦ seqs[ack + i]?) h.sent
  simp only [List.getElem?_map, List.getElem?_eq_getElem hlt, List.getElem?_range hlt,
    Option.map_some, Option.some.injEq] at hseq
  rw [hseq, UInt32.toNat_ofNat']
  omega

/-- A client that rests replays nothing that moves it. -/
theorem Playing.Rests.replay {p : Playing} (h : p.Rests) (hnum : p.Numbered)
    (hn : p.sent.length < 2 ^ 32 - 1) (hpos : p.client.base.state.InArena)
    {inputs : List (PredictedInput F32)}
    (hsent : inputs.map PredictedInput.command = p.sent.map InputPacket.command)
    (hdt : ∀ pi ∈ inputs, Still pi.dt) :
    p.client.base.replay PredictedInput.move inputs = p.client.base.state := by
  refine foldl_still hpos fun pi hpi ↦ ?_
  have hcommand : pi.command ∈ (p.sent.drop p.client.base.mark).map InputPacket.command := by
    rw [List.map_drop, ← hsent, ← List.map_drop]
    exact List.mem_map_of_mem hpi
  obtain ⟨ip, hip, heq⟩ := List.mem_map.mp hcommand
  obtain ⟨hmx, hmy⟩ := h ip (List.mem_of_mem_drop hip) (hnum.lt_of_mem_drop hn hip).le
  obtain ⟨_, hx, hy⟩ : ip.seq = pi.seq ∧ ip.mx = pi.mx ∧ ip.my = pi.my := by
    simpa [InputPacket.command, PredictedInput.command] using heq
  exact ⟨hx ▸ hmx, hy ▸ hmy, hdt pi (List.mem_of_mem_drop hpi)⟩

/-- The record of a client that rests is in the arena, and the server has its player there. -/
theorem System.stands_run (acts : List Action) {e : Endpoint} {p : Playing}
    (hp : (init.run acts).process e = .playing p) (hrests : p.Rests)
    (hdt : Still (dtSeconds F32)) : p.client.base.state.InArena ∧
      (init.run acts).server.server.Stands e p.client.myPid p.client.base.mark
        p.client.base.state := by
  have hsplits := splits_reached acts
  have hserver := hsplits.1
  obtain ⟨out, taken, hdid, hflight, _⟩ := hsplits.2 e
  have hheard : heard e (init.history acts) ≤ out := (Multiset.le_add_right _ _).trans hflight
  have hprocess := hsplits.sourced.process e
  rw [hp] at hdid hprocess
  obtain ⟨inputs, hclient⟩ := hprocess.exists_sourced
  obtain ⟨l, rfl, _, rfl, _⟩ := hdid.exists_life
  have hdelivered : ∀ ip ∈ delivered e l.playing.client.myPid (init.history acts),
      ip.RestsFrom l.playing.client.base.mark := fun ip hip ↦
    hrests ip (Multiset.mem_coe.mp (Multiset.mem_of_le
      ((delivered_le e _ _).trans (l.heardInputs_le hheard)) (Multiset.mem_coe.mpr hip)))
  rw [hserver]
  cases hfind : l.playing.client.latestAuthoritative.find? l.playing.client.myPid with
  | none =>
    rw [Client.base_of_none hfind] at hdelivered ⊢
    have hstart : (ValidServer.reached [] : ValidServer F32).server.Stands e
        l.playing.client.myPid 0 initialPos := fun m hm ↦ by cases hm
    exact ⟨Or.inl rfl, hstart.run (Or.inl rfl) hdt _ hdelivered fun _ _ _ ↦ ⟨rfl, rfl⟩⟩
  | some auth =>
    rw [Client.base_of_some hfind] at hdelivered ⊢
    obtain ⟨hid, snap, hsends, hmem⟩ := hclient.stored _ auth hfind
    have hpos : auth.pos.InArena := hsends.broadcasts.inArena auth hmem
    obtain ⟨past, rest, m, hevs, hm, hrecord⟩ := hsends.exists_member
    rw [hevs] at hheard hdelivered ⊢
    rw [delivered, List.filterMap_append] at hdelivered
    -- The record is the member's at the tick that sent it. A client joins once, so the member
    -- has not been replaced since, and only inputs that rest have reached it.
    have hstart : (ValidServer.reached past).server.Stands e l.playing.client.myPid
        auth.lastProcessedInputSeq.toNat auth.pos := by
      intro m' hm' hid'
      obtain rfl := Option.some.inj (hm.symm.trans hm')
      rw [hrecord auth hmem (hid.trans hid'.symm)] at hdelivered ⊢
      refine ValidServer.stands_reached past e hm fun ip hip ↦ ?_
      exact hdelivered ip (List.mem_append_left _ (hid' ▸ hip))
    refine ⟨hpos, hstart.run hpos hdt rest ?_ ?_⟩
    · exact fun ip hip ↦ hdelivered ip (List.mem_append_right _ hip)
    · exact fun ev hev hj ↦ absurd hj (l.noJoin hheard hm ev hev)

namespace Conditioned

variable {D : Type} [FloatOps D] {Q : PriorityQueue Pending Pending.deliverAtUs}

/-- In every run of the server, its clients and their conditioners, as long as a client predicts
and its ring suffices: once it rests, it shows its player where its record has it, and the server
has the player there too. -/
theorem agrees_run (serverEp : Endpoint) (cfg : Endpoint → LaggedSocketConfig D)
    (serverCfg : LaggedSocketConfig D) (as : List (Action D)) (e : Endpoint)
    (h : let start : Conditioned D Q := init serverEp cfg serverCfg
      EveryStep (fun past a ↦ (start.run past).Steady e a) as)
    (htick : Still (dtSeconds F32))
    (hdt : let start : Conditioned D Q := init serverEp cfg serverCfg
      ∀ pi ∈ start.recorded e as, Still pi.dt) :
    let start : Conditioned D Q := init serverEp cfg serverCfg
    ∀ p, (start.run as).process e = .playing p → p.Rests →
      p.client.localPos = p.client.base.state ∧
        ∀ m, (start.run as).server.server.member e = some m →
          m.player.state.pos = p.client.localPos := by
  intro start p hp hrests
  obtain ⟨acts, hrefines, _⟩ := (refines_init (Q := Q) serverEp cfg serverCfg).run as
  change Refines (start.run as) _ at hrefines
  have hprocess : (System.init.run acts).process e = .playing p :=
    (congrFun hrefines.process e).symm.trans hp
  obtain ⟨hpos, hstands⟩ := System.stands_run acts hprocess hrests htick
  have hholds := System.holds_run acts e
  have hpredicts := predicts_reached (Q := Q) serverEp cfg serverCfg as e h
  change ((start.run as).process e).Predicts _ at hpredicts
  rw [System.Holds, hprocess] at hholds
  rw [hp] at hpredicts
  obtain ⟨hclient, hsent⟩ := hpredicts
  have hlocal : p.client.localPos = p.client.base.state := by
    rw [hclient.localPos]
    exact hrests.replay hholds.numbered (Process.Predicts.length_eq hsent ▸ hclient.bound) hpos
      hsent hdt
  refine ⟨hlocal, fun m hm ↦ ?_⟩
  rw [hrefines.server] at hm
  have hid : m.session.playerId = p.client.myPid := (hholds.owns.member m hm).1
  rw [hlocal]
  exact (hstands m hm hid).pos

end Conditioned
end
end Net

/-! ### A player that stops -/

/-- A move without a direction, however long it takes, leaves every position of the arena. -/
theorem still_nonneg (dt : ℚ) : let _ := F32.nonneg; Cl.Still (F := F32) dt := by
  intro _ pos hpos
  have hzero : (normalizeDir 0 0 : Vec2 F32) = ⟨⟨0⟩, ⟨0⟩⟩ := by decide +kernel
  have hmove : Cl.applyMove pos 0 0 dt = clampToArena pos (arenaWidth F32) (arenaHeight F32) := by
    unfold Cl.applyMove
    rw [hzero]
    rfl
  have hlt : lt (arenaWidth F32) (ofInt 0) = false ∧ lt (arenaHeight F32) (ofInt 0) = false := by
    decide +kernel
  have hwithin : Within (ofInt 0) (arenaWidth F32) pos.x ∧
      Within (ofInt 0) (arenaHeight F32) pos.y := by
    rcases hpos with rfl | h
    · exact ⟨Or.inr (by decide +kernel), Or.inr (by decide +kernel)⟩
    · exact h
  rw [hmove, clampToArena, clampf_of_within hwithin.1 hlt.1, clampf_of_within hwithin.2 hlt.2]

namespace Net

open Srv Cl

namespace Conditioned

section

variable {D : Type} [FloatOps D] [FloatArith F32]

/-- A client joins, moves its player by one tick, stops it and receives a snapshot that
acknowledges both inputs. -/
def stopping (e : Endpoint) : List (Action D) :=
  let accept := encodeJoinAccept (fun _ ↦ 0) 32
    (⟨1, arenaWidth F32, arenaHeight F32⟩ : JoinAccept F32)
  let told := encodeSnapshot (fun _ ↦ 0) maxSnapshotBytes
    (⟨3, [⟨1, ⟨ofInt 644, ofInt 360⟩, Vec2.zero, 2⟩]⟩ : Snapshot F32)
  let tick : Action D := .tick 0 .sorted fun _ ↦ still
  [.start e false false still] ++ serving e joinBytes ++ taking e (accept.1.bytes accept.2) ++
    [.input e 1 0 (dtSeconds F32) 0 PendingInputSample.sorted still,
      .input e 0 0 (dtSeconds F32) 16 PendingInputSample.sorted still] ++
    serving e (inputBytes ⟨1, 1, 1, 0⟩) ++ [tick] ++ serving e (inputBytes ⟨1, 2, 0, 0⟩) ++
    [tick, tick] ++ taking e (told.1.bytes told.2) ++ [.drain e 20 PendingInputSample.sorted]

end

section

local instance : FloatOps ℤ := LaggedSocketConfig.wholeLoss

local instance : FloatArith F32 := F32.nonneg

/-- The client has taken the record of the server, and the server still has the member. -/
theorem stopped : ((plain.run (stopping ⟨1, 1⟩)).process ⟨1, 1⟩).Plays (fun p ↦ p.Rests ∧
      p.client.base.state = ⟨ofInt 644, ofInt 360⟩ ∧ p.client.base.mark = 2) ∧
      ((plain.run (stopping ⟨1, 1⟩)).server.server.member ⟨1, 1⟩).isSome := by
  decide +kernel

/-- Each step leaves the client to itself. -/
theorem steady_stopping : EveryStep (fun past a ↦ (plain.run past).Steady ⟨1, 1⟩ a)
    (stopping ⟨1, 1⟩) := by
  refine .cons (fun _ ↦ rfl) ?_
  iterate 5 refine .cons trivial ?_
  refine .cons (fun _ ↦ by decide +kernel) (.cons (fun _ ↦ by decide +kernel) ?_)
  iterate 10 refine .cons trivial ?_
  exact .cons (fun _ ↦ by decide +kernel) .nil

/-- A player stops after one tick, four units to the right of the middle. -/
theorem agrees_run_stop : ∃ p m,
    (plain.run (stopping ⟨1, 1⟩)).process ⟨1, 1⟩ = .playing p ∧
      (plain.run (stopping ⟨1, 1⟩)).server.server.member ⟨1, 1⟩ = some m ∧
      p.client.base = ⟨⟨ofInt 644, ofInt 360⟩, 2⟩ ∧
      p.client.localPos = p.client.base.state ∧ m.player.state.pos = p.client.localPos := by
  have hstopped := stopped
  have hplain : init ⟨9, 9⟩ (fun _ ↦ ⟨0, 0, 0, 0⟩) ⟨0, 0, 0, 0⟩ = plain := rfl
  have hrun := agrees_run (D := ℤ) (Q := .newestFirst _) ⟨9, 9⟩ (fun _ ↦ ⟨0, 0, 0, 0⟩)
    ⟨0, 0, 0, 0⟩ (stopping ⟨1, 1⟩) ⟨1, 1⟩
  rw [hplain] at hrun
  have hagrees := hrun steady_stopping (still_nonneg _) fun pi _ ↦ still_nonneg pi.dt
  dsimp only at hagrees
  generalize plain.run (stopping ⟨1, 1⟩) = c at hstopped hagrees ⊢
  obtain ⟨hplays, hmember⟩ := hstopped
  obtain ⟨p, hp, hrests, hstate, hmark⟩ := hplays.exists
  obtain ⟨m, hm⟩ := Option.isSome_iff_exists.mp hmember
  obtain ⟨hlocal, hserver⟩ := hagrees p hp hrests
  refine ⟨p, m, hp, hm, ?_, hlocal, hserver m hm⟩
  rw [← hstate, ← hmark]

end

end Conditioned
end Net
end LightningLink
