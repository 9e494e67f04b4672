import LightningLink.Network.System

/-!
# A client receives its own player

Library `Network`. The invariant of one endpoint relates its process, its datagrams in
flight and its member at the server. It survives every action, so ids that are freed and
assigned again never confuse a client: each snapshot that reaches it holds one record of
its id, and this record acknowledges only what the client has sent.
-/

namespace LightningLink.Net

open Support Proto Srv Cl FloatArith

/-! ### Datagrams of one endpoint -/

/-- Payloads of the datagrams of an endpoint. -/
def payloads (e : Endpoint) (ds : Multiset Datagram) : Multiset (List UInt8) :=
  (ds.filter fun d ↦ d.endpoint = e).map Datagram.payload

/-- A payload of an endpoint comes from one of its datagrams. -/
theorem mem_payloads (e : Endpoint) (ds : Multiset Datagram) (payload : List UInt8) :
    payload ∈ payloads e ds ↔ ⟨e, payload⟩ ∈ ds := by
  simp only [payloads, Multiset.mem_map, Multiset.mem_filter]
  constructor
  · rintro ⟨d, ⟨hd, rfl⟩, rfl⟩
    exact hd
  · intro h
    exact ⟨⟨e, payload⟩, ⟨h, rfl⟩, rfl⟩

/-- Payloads of two bags of datagrams. -/
theorem payloads_add (e : Endpoint) (ds es : Multiset Datagram) :
    payloads e (ds + es) = payloads e ds + payloads e es := by
  rw [payloads, Multiset.filter_add, Multiset.map_add]
  rfl

/-- Taking a datagram out takes its payload out. -/
theorem payloads_erase (d : Datagram) (ds : Multiset Datagram) (h : d ∈ ds) :
    payloads d.endpoint ds = d.payload ::ₘ payloads d.endpoint (ds.erase d) := by
  have hf := Multiset.filter_cons_of_pos (p := fun x : Datagram ↦ x.endpoint = d.endpoint)
    (a := d) (ds.erase d) rfl
  rw [Multiset.cons_erase h] at hf
  rw [payloads, hf, Multiset.map_cons]
  rfl

/-- Taking a datagram out adds no payload. -/
theorem payloads_erase_le (e : Endpoint) (d : Datagram) (ds : Multiset Datagram) :
    payloads e (ds.erase d) ≤ payloads e ds :=
  Multiset.map_le_map (Multiset.filter_le_filter _ (Multiset.erase_le d ds))

/-- Datagrams that a process sends are its own. -/
theorem payloads_sends (e src : Endpoint) (sends : List (List UInt8)) :
    payloads e ((sends.map fun payload ↦ (⟨src, payload⟩ : Datagram) : List Datagram) :
      Multiset Datagram) = if src = e then (sends : Multiset (List UInt8)) else 0 := by
  rw [payloads, Multiset.filter_coe, List.filter_map, Multiset.map_coe, List.map_map]
  split
  · next h => simp [h, Function.comp_def]
  · next h => simp [h, Function.comp_def]

/-! ### Links -/

/-- What a record of a client may acknowledge: nothing, or an input sent with its id. -/
def Issued (id : UInt16) (sent : List InputPacket) (ack : UInt32) : Prop :=
  ack = 0 ∨ ∃ ip ∈ sent, ip.playerId = id ∧ ip.seq = ack

/-- A snapshot with one record of an id, which acknowledges an input issued with it. -/
def Own (id : UInt16) (sent : List InputPacket) (snap : Snapshot F32) : Prop :=
  ∃ ack, snap.Acks id ack ∧ Issued id sent ack

/-- What is in flight between an endpoint and the server, and its member there. -/
structure Link where
  up : Multiset (List UInt8)
  down : Multiset (List UInt8)
  member : Option (Member F32)

namespace Link

/-- The server does not know the endpoint and has sent it nothing. -/
structure Fresh (l : Link) : Prop where
  down : l.down = 0
  member : l.member = none

/-- The id is that of the endpoint: no join is on its way, its inputs are issued, it is told
no other id, its snapshots and its record are its own. -/
structure Owns (id : UInt16) (sent : List InputPacket) (l : Link) : Prop where
  noJoin : ∀ payload ∈ l.up, ∀ jr, Packet.read payload ≠ some (.joinRequest jr)
  input : ∀ payload ∈ l.up, ∀ ip, Packet.read payload = some (.input ip) → ip ∈ sent
  accept : ∀ payload ∈ l.down, ∀ ja, Packet.read payload = some (.joinAccept ja) →
    ja.playerId = id
  snapshot : ∀ payload ∈ l.down, ∀ snap, Packet.read payload = some (.snapshot snap) →
    Own id sent snap
  member : ∀ m, l.member = some m →
    m.session.playerId = id ∧ Issued id sent m.player.state.lastProcessedInputSeq

/-- Without anything in flight or at the server, any id is that of the endpoint. -/
theorem Fresh.owns {l : Link} (h : l.Fresh) (hup : l.up = 0) (id : UInt16) : l.Owns id [] where
  noJoin p hp := by rw [hup] at hp; cases Multiset.notMem_zero p hp
  input p hp := by rw [hup] at hp; cases Multiset.notMem_zero p hp
  accept p hp := by rw [h.down] at hp; cases Multiset.notMem_zero p hp
  snapshot p hp := by rw [h.down] at hp; cases Multiset.notMem_zero p hp
  member m hm := by rw [h.member] at hm; cases hm

/-- Losing datagrams keeps the id. -/
theorem Owns.le {id : UInt16} {sent : List InputPacket} {l l' : Link} (h : l.Owns id sent)
    (hup : l'.up ≤ l.up) (hdown : l'.down ≤ l.down) (hm : l'.member = l.member) :
    l'.Owns id sent where
  noJoin p hp := h.noJoin p (Multiset.mem_of_le hup hp)
  input p hp := h.input p (Multiset.mem_of_le hup hp)
  accept p hp := h.accept p (Multiset.mem_of_le hdown hp)
  snapshot p hp := h.snapshot p (Multiset.mem_of_le hdown hp)
  member m hm' := h.member m (hm ▸ hm')

end Link

/-- More inputs sent issue no less. -/
theorem Issued.append {id : UInt16} {sent : List InputPacket} {ack : UInt32}
    (h : Issued id sent ack) (more : List InputPacket) : Issued id (sent ++ more) ack := by
  rcases h with h | ⟨ip, hip, hid, hseq⟩
  · exact Or.inl h
  · exact Or.inr ⟨ip, List.mem_append_left _ hip, hid, hseq⟩

/-- Sending an input keeps the id. -/
theorem Link.Owns.send {id : UInt16} {sent : List InputPacket} {l : Link} (h : l.Owns id sent)
    (ip : InputPacket) :
    Link.Owns id (sent ++ [ip]) { l with up := l.up + {inputBytes ip} } where
  noJoin p hp jr := by
    rcases Multiset.mem_add.mp hp with hp | hp
    · exact h.noJoin p hp jr
    · rw [Multiset.mem_singleton.mp hp, read_inputBytes]
      simp
  input p hp ip' hr := by
    rcases Multiset.mem_add.mp hp with hp | hp
    · exact List.mem_append_left _ (h.input p hp ip' hr)
    · rw [Multiset.mem_singleton.mp hp, read_inputBytes] at hr
      rw [Packet.input.inj (Option.some.inj hr)]
      exact List.mem_append_right _ (List.mem_singleton_self _)
  accept := h.accept
  snapshot p hp snap hr := by
    obtain ⟨ack, ha, hi⟩ := h.snapshot p hp snap hr
    exact ⟨ack, ha, hi.append [ip]⟩
  member m hm := ⟨(h.member m hm).1, (h.member m hm).2.append [ip]⟩

section

variable [FloatArith F32]

/-! ### The server side of a link -/

/-- What a server event sends to an endpoint that does not join with it: the snapshot of the
state after the event, in which the endpoint has a member. -/
theorem sends_spec (v : ValidServer F32) (ev : Srv.Event F32) (e : Endpoint) (hj : ¬ev.Joins e)
    (payload : List UInt8) (hp : payload ∈ payloads e ((v.server.handle ev).2 : Multiset _)) :
    ∃ snap m, Packet.read payload = some (.snapshot snap) ∧
      (v.step ev).server.member e = some m ∧
      snap.Acks m.session.playerId m.player.state.lastProcessedInputSeq := by
  rw [mem_payloads, Multiset.mem_coe] at hp
  cases ev with
  | datagram now src bytes =>
    rcases v.server.sends_of_datagram now src bytes with h | ⟨hjoin, id, h⟩
    · rw [h] at hp
      cases hp
    · rw [h] at hp
      rw [show e = src from congrArg Datagram.endpoint (List.mem_singleton.mp hp)] at hj
      exact absurd hjoin hj
  | tick now order =>
    obtain ⟨hsnap, hlive⟩ := v.wf.of_mem_tick now order hp
    have hwf := (v.step (.tick now order)).wf
    obtain ⟨m, hm⟩ := Option.isSome_iff_exists.mp ((hwf.member_isSome e).mpr hlive)
    exact ⟨_, m, (snapshotOf_eq_some_iff_read _ _).mp hsnap, hm, hwf.acks_tickSnapshot order hm⟩

/-- An event that is no join of the endpoint and delivers only issued inputs keeps the id. -/
theorem Link.Owns.serve {id : UInt16} {sent : List InputPacket} {l : Link} (h : l.Owns id sent)
    (v : ValidServer F32) (e : Endpoint) (hl : l.member = v.server.member e)
    (ev : Srv.Event F32) (hj : ¬ev.Joins e)
    (hin : ∀ ip, ev.delivers e id = some ip → ip ∈ sent) :
    Link.Owns id sent ⟨l.up, l.down + payloads e ((v.server.handle ev).2 : Multiset _),
      (v.step ev).server.member e⟩ := by
  have hmember : ∀ m', (v.step ev).server.member e = some m' →
      m'.session.playerId = id ∧ Issued id sent m'.player.state.lastProcessedInputSeq := by
    intro m' hm'
    cases hm : v.server.member e with
    | none =>
      rw [show (v.step ev).server.member e = none from v.wf.member_none ev e hm hj] at hm'
      cases hm'
    | some m =>
      obtain ⟨hid, hack⟩ := h.member m (hl.trans hm)
      refine ⟨(v.member_step ev e hm hm').1.trans hid, ?_⟩
      rcases v.acked_step ev e hm hm' with heq | ⟨ip, hd, heq⟩
      · rwa [heq]
      · rw [hid] at hd
        exact Or.inr ⟨ip, hin ip hd, ((Srv.Event.delivers_eq_some_iff e id ev ip).mp hd).1, heq.symm⟩
  refine ⟨h.noJoin, h.input, ?_, ?_, hmember⟩
  · intro payload hp ja hr
    rcases Multiset.mem_add.mp hp with hp | hp
    · exact h.accept payload hp ja hr
    · obtain ⟨snap, _, hs, _⟩ := sends_spec v ev e hj payload hp
      rw [hr] at hs
      cases hs
  · intro payload hp snap hr
    rcases Multiset.mem_add.mp hp with hp | hp
    · exact h.snapshot payload hp snap hr
    · obtain ⟨snap', m, hs, hm, hacks⟩ := sends_spec v ev e hj payload hp
      rw [hr] at hs
      obtain rfl := Packet.snapshot.inj (Option.some.inj hs)
      obtain ⟨hid, hissued⟩ := hmember m hm
      rw [hid] at hacks
      exact ⟨_, hacks, hissued⟩

/-- An event that is no join of the endpoint keeps it unknown. -/
theorem Link.Fresh.serve {l : Link} (h : l.Fresh) (v : ValidServer F32) (e : Endpoint)
    (hl : l.member = v.server.member e) (ev : Srv.Event F32) (hj : ¬ev.Joins e) :
    Link.Fresh ⟨l.up, l.down + payloads e ((v.server.handle ev).2 : Multiset _),
      (v.step ev).server.member e⟩ := by
  have hnone : (v.step ev).server.member e = none :=
    v.wf.member_none ev e (hl.symm.trans h.member) hj
  refine ⟨?_, hnone⟩
  rw [h.down, zero_add, Multiset.eq_zero_iff_forall_notMem]
  intro payload hp
  obtain ⟨_, m, _, hm, _⟩ := sends_spec v ev e hj payload hp
  rw [hnone] at hm
  cases hm

/-- A join of an unknown endpoint with nothing else in flight gives it an id. -/
theorem Link.Fresh.join {l : Link} (h : l.Fresh) (v : ValidServer F32) (now : Int) (e : Endpoint)
    (hl : l.member = v.server.member e) :
    let ev : Srv.Event F32 := .datagram now e joinBytes
    ∃ id, Link.Owns id [] ⟨0, l.down + payloads e ((v.server.handle ev).2 : Multiset _),
      (v.step ev).server.member e⟩ := by
  intro ev
  have hj : ev.Joins e := ⟨rfl, _, read_joinBytes⟩
  rw [h.down, zero_add]
  rcases v.wf.join_new ev e hj (hl.symm.trans h.member) with ⟨m, hm, hp, hsend⟩ | ⟨hm, hsend⟩
  · change (v.step ev).server.member e = some m at hm
    obtain ⟨bytes, w, ht, hans, hread⟩ :=
      (answers_joinAnswer e m.session.playerId m.session.playerId).mpr rfl
    have hdown : ∀ payload ∈ payloads e ((v.server.handle ev).2 : Multiset _),
        payload = bytes := by
      intro payload hpay
      rw [mem_payloads, hsend, hans, Multiset.mem_coe, List.mem_singleton] at hpay
      exact congrArg Datagram.payload hpay
    refine ⟨m.session.playerId, ?_, ?_, ?_, ?_, ?_⟩
    · exact fun payload hpay ↦ absurd hpay (Multiset.notMem_zero payload)
    · exact fun payload hpay ↦ absurd hpay (Multiset.notMem_zero payload)
    · intro payload hpay ja hr
      rw [hdown payload hpay, hread] at hr
      rw [← Packet.joinAccept.inj (Option.some.inj hr)]
    · intro payload hpay snap hr
      rw [hdown payload hpay, hread] at hr
      cases hr
    · intro m' hm'
      obtain rfl := Option.some.inj (hm.symm.trans hm')
      exact ⟨rfl, Or.inl (by rw [hp]; rfl)⟩
  · change (v.step ev).server.member e = none at hm
    refine ⟨0, Link.Fresh.owns ⟨?_, hm⟩ rfl 0⟩
    rw [hsend]
    rfl

/-! ### The invariant of an endpoint -/

/-- The inputs sent are numbered 1, 2, 3, …, and the next number follows. -/
structure Playing.Numbered (p : Playing) : Prop where
  sent : p.sent.map InputPacket.seq = (List.range p.sent.length).map fun i ↦ UInt32.ofNat (i + 1)
  next : p.client.predictor.nextSeq = UInt32.ofNat (p.sent.length + 1)

/-- A process in its main loop has the id of its endpoint, and its queue is its own. -/
structure Playing.Own (p : Playing) (l : Link) : Prop where
  owns : l.Owns p.client.myPid p.sent
  numbered : p.Numbered
  queue : ∀ ss ∈ p.queue, Net.Own p.client.myPid p.sent ss.snap

/-- What a process knows about its link. After the `JOIN_REQUEST` has arrived or is lost,
the process still waits, and some id is that of its endpoint. -/
def Inv : Process → Link → Prop
  | .idle, l => l.Fresh ∧ l.up = 0
  | .joining _ _, l => l.Fresh ∧ l.up = {joinBytes} ∨ ∃ id, l.Owns id []
  | .playing p, l => p.Own l
  | .done, _ => True

/-- Losing datagrams keeps the invariant. -/
theorem Inv.le {pr : Process} {l l' : Link} (h : Inv pr l) (hup : l'.up ≤ l.up)
    (hdown : l'.down ≤ l.down) (hm : l'.member = l.member) : Inv pr l' := by
  have hfresh (hf : l.Fresh) : l'.Fresh :=
    ⟨Multiset.le_zero.mp (hf.down ▸ hdown), hm.trans hf.member⟩
  cases pr with
  | idle => exact ⟨hfresh h.1, Multiset.le_zero.mp (h.2 ▸ hup)⟩
  | joining =>
    rcases h with ⟨hf, hj⟩ | ⟨id, ho⟩
    · rw [hj, Multiset.le_singleton] at hup
      rcases hup with h0 | h1
      · exact Or.inr ⟨0, (hfresh hf).owns h0 0⟩
      · exact Or.inl ⟨hfresh hf, h1⟩
    · exact Or.inr ⟨id, ho.le hup hdown hm⟩
  | playing p => exact ⟨h.owns.le hup hdown hm, h.numbered, h.queue⟩
  | done => trivial

/-- An event of the server that does not come from the endpoint keeps the invariant. -/
theorem Inv.serve {pr : Process} {l : Link} (h : Inv pr l) (v : ValidServer F32) (e : Endpoint)
    (hl : l.member = v.server.member e) (ev : Srv.Event F32) (hj : ¬ev.Joins e)
    (hd : ∀ id, ev.delivers e id = none) :
    Inv pr ⟨l.up, l.down + payloads e ((v.server.handle ev).2 : Multiset _),
      (v.step ev).server.member e⟩ := by
  have howns {id : UInt16} {sent : List InputPacket} (ho : l.Owns id sent) :=
    ho.serve v e hl ev hj fun ip hip ↦ by rw [hd] at hip; cases hip
  cases pr with
  | idle => exact ⟨h.1.serve v e hl ev hj, h.2⟩
  | joining =>
    rcases h with ⟨hf, hup⟩ | ⟨id, ho⟩
    · exact Or.inl ⟨hf.serve v e hl ev hj, hup⟩
    · exact Or.inr ⟨id, howns ho⟩
  | playing p => exact ⟨howns h.owns, h.numbered, h.queue⟩
  | done => trivial

/-- A datagram of the endpoint that reaches the server keeps the invariant. -/
theorem Inv.deliver {pr : Process} {l : Link} (h : Inv pr l) (v : ValidServer F32) (now : Int)
    (e : Endpoint) (hl : l.member = v.server.member e) (payload : List UInt8)
    (rest : Multiset (List UInt8)) (hup : l.up = payload ::ₘ rest) :
    let ev : Srv.Event F32 := .datagram now e payload
    Inv pr ⟨rest, l.down + payloads e ((v.server.handle ev).2 : Multiset _),
      (v.step ev).server.member e⟩ := by
  intro ev
  have hmem : payload ∈ l.up := hup ▸ Multiset.mem_cons_self payload rest
  have hle : rest ≤ l.up := hup ▸ Multiset.le_cons_self rest payload
  have howns {id : UInt16} {sent : List InputPacket} (ho : l.Owns id sent) :
      Link.Owns id sent ⟨rest, l.down + payloads e ((v.server.handle ev).2 : Multiset _),
        (v.step ev).server.member e⟩ := by
    refine (ho.serve v e hl ev ?_ ?_).le hle le_rfl rfl
    · rintro ⟨_, jr, hr⟩
      exact ho.noJoin payload hmem jr hr
    · intro ip hip
      obtain ⟨_, _, _, hev, hr⟩ := (Srv.Event.delivers_eq_some_iff e id ev ip).mp hip
      obtain ⟨_, _, rfl⟩ := Srv.Event.datagram.inj hev
      exact ho.input payload hmem ip hr
  cases pr with
  | idle =>
    rw [h.2] at hmem
    cases Multiset.notMem_zero payload hmem
  | joining =>
    rcases h with ⟨hf, hj⟩ | ⟨id, ho⟩
    · obtain ⟨rfl, rfl⟩ : payload = joinBytes ∧ rest = 0 := by
        obtain ⟨hb, hr⟩ := (Multiset.singleton_eq_cons_iff rest).mp (hj.symm.trans hup)
        exact ⟨hb.symm, hr⟩
      exact Or.inr (hf.join v now e hl)
    · exact Or.inr ⟨id, howns ho⟩
  | playing p => exact ⟨howns h.owns, h.numbered, h.queue⟩
  | done => trivial

/-- A datagram that reaches the process keeps the invariant. -/
theorem Inv.receive {pr : Process} {l : Link} (h : Inv pr l) (wallMs : UInt64)
    (payload : List UInt8) (hp : payload ∈ l.down) : Inv (pr.receive wallMs payload) l := by
  cases pr with
  | idle => exact h
  | joining noPrediction noInterpolation =>
    unfold Process.receive
    dsimp only
    split
    · exact h
    · next id hid =>
      obtain ⟨ja, hr, rfl⟩ := read_of_acceptedId payload id hid
      rcases h with ⟨hf, _⟩ | ⟨id, ho⟩
      · rw [hf.down] at hp
        cases Multiset.notMem_zero payload hp
      · rw [ho.accept payload hp ja hr]
        split
        · trivial
        · exact ⟨ho, ⟨rfl, rfl⟩, fun ss hs ↦ absurd hs List.not_mem_nil⟩
  | playing p =>
    unfold Process.receive
    dsimp only
    split
    · exact h
    · next snap hs =>
      refine ⟨h.owns, ⟨h.numbered.sent, h.numbered.next⟩, fun ss hss ↦ ?_⟩
      rcases List.mem_append.mp hss with hss | hss
      · exact h.queue ss hss
      · rw [List.mem_singleton.mp hss]
        exact h.owns.snapshot payload hp snap ((NetworkReceiver.receive_eq_some_iff _ _).mp hs)
  | done => trivial

/-- Draining a snapshot keeps the invariant. -/
theorem Inv.drain {pr : Process} {l : Link} (h : Inv pr l) (nowMs : UInt64)
    (order : UMap.Traversal UInt32 (PendingInputSample F32)) : Inv (pr.drain nowMs order) l := by
  cases pr with
  | playing p =>
    unfold Process.drain
    dsimp only
    split
    · exact h
    · next ss queue hq =>
      obtain ⟨hpid, hpred⟩ := Client.drainSnapshot_frame ss nowMs order p.client
      change Playing.Own ⟨p.client.drainSnapshot ss nowMs order, queue, p.sent⟩ l
      refine ⟨?_, ⟨h.numbered.sent, ?_⟩, ?_⟩
      · rw [hpid]
        exact h.owns
      · rw [hpred]
        exact h.numbered.next
      · rw [hpid]
        exact fun ss' hs ↦ h.queue ss' (hq ▸ List.mem_cons_of_mem _ hs)
  | idle => exact h
  | joining => exact h
  | done => trivial

/-- The other parts of the main loop keep the invariant. -/
theorem Inv.act {pr : Process} {l : Link} (h : Inv pr l) (ev : Cl.Event F32) :
    Inv (pr.act ev) l := by
  cases pr with
  | playing p =>
    unfold Process.act
    dsimp only
    split
    all_goals exact ⟨h.owns, ⟨h.numbered.sent, h.numbered.next⟩, h.queue⟩
  | idle => exact h
  | joining => exact h
  | done => trivial

/-- Sending an input keeps the invariant. -/
theorem Playing.Own.input {p : Playing} {l : Link} (h : p.Own l) (mx my : Int8)
    (dt : Double F32) (nowMs : UInt64) (order : UMap.Traversal UInt32 (PendingInputSample F32)) :
    let sent := p.client.sendInput mx my dt nowMs order
    Playing.Own ⟨sent.1, p.queue, p.sent ++ [sent.2]⟩
      { l with up := l.up + {inputBytes sent.2} } := by
  intro sent
  obtain ⟨hip, hpid, hnext⟩ := p.client.sendInput_spec mx my dt nowMs order
  change sent.2 = _ at hip
  change sent.1.myPid = _ at hpid
  change sent.1.predictor.nextSeq = _ at hnext
  refine ⟨?_, ⟨?_, ?_⟩, ?_⟩
  · rw [hpid]
    exact h.owns.send sent.2
  · rw [List.length_append, List.length_singleton, List.range_succ, List.map_append,
      List.map_append, h.numbered.sent, hip, h.numbered.next]
    rfl
  · rw [hnext, h.numbered.next, List.length_append, List.length_singleton]
    exact (UInt32.ofNat_add _ 1).symm
  · intro ss hs
    rw [hpid]
    obtain ⟨ack, ha, hi⟩ := h.queue ss hs
    exact ⟨ack, ha, hi.append [sent.2]⟩

namespace System

/-- The link of an endpoint. -/
def link (s : System) (e : Endpoint) : Link :=
  ⟨payloads e s.toServer, payloads e s.toClients, s.server.server.member e⟩

/-- The process of an endpoint and its link are in the invariant. -/
def Holds (s : System) (e : Endpoint) : Prop := Inv (s.process e) (s.link e)

/-- A change of a process concerns its own endpoint. -/
theorem Holds.become {s : System} {e : Endpoint} (h : s.Holds e) (src : Endpoint) (pr : Process)
    (sends : List (List UInt8))
    (hsrc : src = e → Inv pr { s.link e with up := (s.link e).up + (sends : Multiset _) }) :
    (s.become src pr sends).Holds e := by
  unfold Holds link System.become
  dsimp only
  rw [payloads_add, payloads_sends, Function.update_apply]
  by_cases he : src = e
  · rw [if_pos he.symm, if_pos he]
    exact hsrc he
  · rw [if_neg (Ne.symm he), if_neg he, add_zero]
    exact h

/-- Every action keeps the invariant of every endpoint. -/
theorem Holds.step {s : System} {e : Endpoint} (h : s.Holds e) (a : Action) :
    (s.step a).Holds e := by
  cases a with
  | start src noPrediction noInterpolation =>
    unfold System.step
    dsimp only
    split
    · next hidle =>
      apply h.become src _ _
      rintro rfl
      rw [Holds, hidle] at h
      refine Or.inl ⟨⟨h.1.down, h.1.member⟩, ?_⟩
      rw [h.2, zero_add]
      rfl
    · exact h
  | giveUp src =>
    unfold System.step
    dsimp only
    split
    · exact h.become src _ _ fun _ ↦ trivial
    · exact h
  | drain src nowMs order =>
    apply h.become src _ _
    rintro rfl
    exact (Inv.drain h nowMs order).le (by simp) le_rfl rfl
  | act src ev =>
    apply h.become src _ _
    rintro rfl
    exact (Inv.act h ev).le (by simp) le_rfl rfl
  | input src mx my dt nowMs order =>
    unfold System.step
    dsimp only
    split
    · next p hp =>
      apply h.become src _ _
      rintro rfl
      rw [Holds, hp] at h
      exact Playing.Own.input h mx my dt nowMs order
    · exact h
  | quit src =>
    unfold System.step
    dsimp only
    split
    · exact h.become src _ _ fun _ ↦ trivial
    · exact h
  | deliver d now =>
    unfold System.step
    dsimp only
    split
    · next hd =>
      unfold Holds link System.serve
      dsimp only
      rw [payloads_add]
      by_cases he : d.endpoint = e
      · subst he
        exact Inv.deliver h s.server now d.endpoint rfl d.payload _ (payloads_erase d _ hd)
      · refine (Inv.serve h s.server e rfl (.datagram now d.endpoint d.payload) ?_ ?_).le
          (payloads_erase_le e d _) le_rfl rfl
        · exact fun hj ↦ he hj.1
        · intro id
          rw [Srv.Event.delivers, Srv.Event.inputOf, if_neg he]
          rfl
    · exact h
  | receive d wallMs =>
    unfold System.step
    dsimp only
    split
    · next hd =>
      have hlost : ({ s with toClients := s.toClients.erase d } : System).Holds e :=
        Inv.le h le_rfl (payloads_erase_le e d _) rfl
      apply hlost.become d.endpoint _ _
      rintro rfl
      refine (Inv.receive h wallMs d.payload ?_).le (by simp [link])
        (payloads_erase_le d.endpoint d _) rfl
      exact (mem_payloads _ _ _).mpr hd
    · exact h
  | loseToServer d => exact Inv.le h (payloads_erase_le e d _) le_rfl rfl
  | loseToClient d => exact Inv.le h le_rfl (payloads_erase_le e d _) rfl
  | tick now order =>
    unfold System.step Holds link System.serve
    dsimp only
    rw [payloads_add]
    exact Inv.serve h s.server e rfl (.tick now order) id fun _ ↦ rfl

/-- The invariant of every endpoint holds after every run. -/
theorem holds_run (as : List Action) (e : Endpoint) : (init.run as).Holds e := by
  apply List.foldlRecOn as step (motive := fun s : System ↦ s.Holds e)
  · exact ⟨⟨rfl, rfl⟩, rfl⟩
  · exact fun _ h a _ ↦ h.step a

end System

/-- Below the wrap of the sequence numbers, what is issued is below the next number. -/
theorem Playing.Numbered.lt_next {p : Playing} (h : p.Numbered) (hn : p.sent.length < 2 ^ 32 - 1)
    {id : UInt16} {ack : UInt32} (hi : Issued id p.sent ack) :
    ack < p.client.predictor.nextSeq := by
  rw [h.next, UInt32.lt_iff_toNat_lt, UInt32.toNat_ofNat']
  rcases hi with rfl | ⟨ip, hip, _, rfl⟩
  · rw [UInt32.toNat_zero]
    omega
  · have hseq := List.mem_map_of_mem (f := InputPacket.seq) hip
    rw [h.sent] at hseq
    obtain ⟨i, hi, heq⟩ := List.mem_map.mp hseq
    rw [List.mem_range] at hi
    rw [← heq, UInt32.toNat_ofNat']
    omega

namespace System

/-- In every run, every snapshot that reaches a client with an id, or waits in its queue,
has one record of this id, and the record acknowledges nothing or an input that the client
has sent with this id. -/
theorem received_own (as : List Action) (e : Endpoint) (p : Playing)
    (hp : (init.run as).process e = .playing p) (hn : p.sent.length < 2 ^ 32 - 1)
    (snap : Snapshot F32)
    (hs : (∃ d ∈ (init.run as).toClients, d.endpoint = e ∧
      NetworkReceiver.receive d.payload = some snap) ∨ ∃ ss ∈ p.queue, ss.snap = snap) :
    ∃ ps, snap.players.filter (fun ps ↦ ps.id = p.client.myPid) = [ps] ∧
      (ps.lastProcessedInputSeq = 0 ∨
        ∃ ip ∈ p.sent, ip.playerId = p.client.myPid ∧ ip.seq = ps.lastProcessedInputSeq) ∧
      ps.lastProcessedInputSeq < p.client.predictor.nextSeq := by
  have h := holds_run as e
  rw [Holds, hp] at h
  have howns : p.Own ((init.run as).link e) := h
  have hown : Own p.client.myPid p.sent snap := by
    rcases hs with ⟨d, hd, rfl, hr⟩ | ⟨ss, hss, rfl⟩
    · exact howns.owns.snapshot d.payload ((mem_payloads _ _ _).mpr hd) snap
        ((NetworkReceiver.receive_eq_some_iff _ _).mp hr)
    · exact howns.queue ss hss
  obtain ⟨ack, hacks, hissued⟩ := hown
  obtain ⟨ps, hps, rfl⟩ := hacks.filter_eq
  exact ⟨ps, hps, hissued, howns.numbered.lt_next hn hissued⟩

end System

end

namespace System

/-- A client that joins and takes its id receives its own record with the third tick. -/
theorem received_own_first :
    let out := encodeJoinAccept (fun _ ↦ 0) 32
      (⟨1, arenaWidth F32, arenaHeight F32⟩ : JoinAccept F32)
    let s := init.run [.start ⟨1, 1⟩ false false, .deliver ⟨⟨1, 1⟩, joinBytes⟩ 0,
      .receive ⟨⟨1, 1⟩, out.1.bytes out.2⟩ 0,
      .tick 0 .sorted, .tick 0 .sorted, .tick 0 .sorted]
    ∃ p d snap, s.process ⟨1, 1⟩ = .playing p ∧ d ∈ s.toClients ∧
      NetworkReceiver.receive d.payload = some snap ∧
      ∃ ps, snap.players.filter (fun ps ↦ ps.id = p.client.myPid) = [ps] ∧
        (ps.lastProcessedInputSeq = 0 ∨
          ∃ ip ∈ p.sent, ip.playerId = p.client.myPid ∧ ip.seq = ps.lastProcessedInputSeq) ∧
        ps.lastProcessedInputSeq < p.client.predictor.nextSeq := by
  intro out s
  let accept : Datagram := ⟨⟨1, 1⟩, out.1.bytes out.2⟩
  let joined : System := init.run [.start ⟨1, 1⟩ false false, .deliver ⟨⟨1, 1⟩, joinBytes⟩ 0]
  let p : Playing := ⟨Client.init 1 false false, [], []⟩
  have hflight : joined.toClients = {accept} := rfl
  have haccept : (joined.process ⟨1, 1⟩).receive 0 accept.payload = .playing p := by
    have hid : acceptedId accept.payload = some 1 := by decide
    change Process.receive 0 accept.payload (.joining false false) = .playing p
    unfold Process.receive
    rw [hid]
    rfl
  have hreceive : joined.step (.receive accept 0) = { joined with
      toClients := joined.toClients.erase accept }.become ⟨1, 1⟩ (.playing p) [] := by
    rw [System.step, if_pos (hflight ▸ Multiset.mem_singleton_self accept), haccept]
  have hs : s = (((joined.step (.receive accept 0)).serve (.tick 0 .sorted)).serve
      (.tick 0 .sorted)).serve (.tick 0 .sorted) := by
    change List.foldl System.step init ([_, _] ++ [_, _, _, _]) = _
    rw [List.foldl_append]
    rfl
  rw [hreceive] at hs
  have hp : s.process ⟨1, 1⟩ = .playing p := by
    rw [hs]
    exact Function.update_self (⟨1, 1⟩ : Endpoint) (.playing p) joined.process
  -- The third tick broadcasts, and the session is alive.
  let v : ValidServer F32 := (joined.server.step (.tick 0 .sorted)).step (.tick 0 .sorted)
  obtain ⟨d, hd, he⟩ := v.wf.exists_mem_tick 0 .sorted (by decide)
    (show ((v.server.tickAndMaybeBroadcast 0 .sorted).1.sessions.sessions.find? ⟨1, 1⟩).isSome
      from by decide)
  have hds : d ∈ s.toClients := by
    rw [hs]
    exact Multiset.mem_add.mpr (Or.inr hd)
  have hsnap := (v.wf.of_mem_tick 0 .sorted hd).1
  rw [snapshotOf_eq_some_iff_read, ← NetworkReceiver.receive_eq_some_iff] at hsnap
  exact ⟨p, d, _, hp, hds, hsnap, received_own _ ⟨1, 1⟩ p hp (by decide) _
    (Or.inl ⟨d, hds, he, hsnap⟩)⟩

end System

end LightningLink.Net
