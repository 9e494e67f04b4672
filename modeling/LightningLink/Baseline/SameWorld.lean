import LightningLink.Baseline.Exact
import LightningLink.Baseline.Lines
import LightningLink.Client.Handshake
import LightningLink.Server.Store

/-!
# Two servers, one world

Library `Baseline`. Both servers are driven by the same joins, inputs, leaves and ticks, each
in the form it receives them. `Agree` relates a session table keyed by endpoint to a client
table keyed by descriptor; every event keeps it, so both servers refuse the same joins, assign
the same ids and simulate the same world.
-/

namespace LightningLink.Baseline

open Support Srv

/-- What happens to both servers. A client is named by its endpoint and its descriptor. -/
inductive Happening (F : Type)
  | join (ep : Endpoint) (fd : Int) (now : Int)
  | input (ep : Endpoint) (fd : Int) (seq : UInt32) (mx my : Int8) (now : Int)
  | leave (ep : Endpoint) (fd : Int) (now : Int)
  | tick (now : Int) (order : TickOrder F) (players : UMap.Traversal UInt16 (ServerPlayer F))
      (clients : UMap.Traversal Int TcpClient)

/-- The two servers, and the clients that have joined and not left. -/
structure BothServers (F : Type) where
  optimized : Server F
  baseline : BaselineServer F
  joined : List (Endpoint × Int)

namespace BothServers

variable {F : Type}

/-- Servers that have just started. -/
def init : BothServers F := ⟨Server.init, BaselineServer.init, []⟩

/-- Id that the optimized server has given to an endpoint. -/
def idOf (b : BothServers F) (ep : Endpoint) : Option UInt16 :=
  (b.optimized.sessions.byEndpoint ep).map Session.playerId

/-- Id that the baseline server has given to a connection. -/
def idOfFd (b : BothServers F) (fd : Int) : Option UInt16 :=
  (b.baseline.clients.find? fd).map TcpClient.playerId

/-- An event can happen: a client that joins is new and its descriptor not open, a client that
sends or leaves has joined, and no session has timed out at a tick. -/
def Occurs (b : BothServers F) : Happening F → Prop
  | .join ep fd _ => 0 ≤ fd ∧ ep ∉ b.joined.map Prod.fst ∧ fd ∉ b.joined.map Prod.snd
  | .input ep fd _ _ _ _ => (ep, fd) ∈ b.joined
  | .leave ep fd _ => (ep, fd) ∈ b.joined
  | .tick now _ _ _ => ∀ ep ∈ b.optimized.sessions.sessions.keys,
      (b.optimized.sessions.sessions.find? ep).all fun s ↦ !s.expired now

instance (b : BothServers F) (ev : Happening F) : Decidable (b.Occurs ev) := by
  cases ev <;> unfold Occurs <;> infer_instance

variable [FloatArith F] [FloatBits F] [FloatText F]

/-- One event for each server: a datagram of the client or a tick, and an accepted connection,
a line, an end of stream or a tick. -/
def step (b : BothServers F) : Happening F → BothServers F
  | .join ep fd now =>
    let optimized := b.optimized.step (.datagram now ep Cl.joinBytes)
    let baseline := b.baseline.step (.accept fd now)
    ⟨optimized, baseline,
      if (optimized.sessions.byEndpoint ep).isSome then (ep, fd) :: b.joined else b.joined⟩
  | .input ep fd seq mx my now =>
    { b with
      optimized := b.optimized.step
        (.datagram now ep (Cl.inputBytes ⟨(b.idOf ep).getD 0, seq, mx, my⟩))
      baseline := b.baseline.step (.read fd (inputLine seq mx my) false fun _ ↦ now) }
  | .leave ep fd now =>
    ⟨b.optimized.step (.datagram now ep (Cl.disconnectBytes ((b.idOf ep).getD 0))),
      b.baseline.step (.read fd [] true fun _ ↦ now),
      b.joined.filter fun j ↦ j ≠ (ep, fd)⟩
  | .tick now order players clients =>
    { b with
      optimized := b.optimized.step (.tick now order)
      baseline := b.baseline.step (.tick players clients) }

/-- Servers after a finite run. -/
def run (b : BothServers F) (evs : List (Happening F)) : BothServers F := evs.foldl step b

/-! ### The relation -/

omit [FloatArith F] [FloatBits F] [FloatText F] in
/-- The simulation relation: one world, and a session and a client with the same id for every
client that has joined, and for no other. -/
structure Agree (b : BothServers F) : Prop where
  wf : b.optimized.WF
  world : b.optimized.world = b.baseline.world
  session : ∀ ep ses, b.optimized.sessions.sessions.find? ep = some ses →
    ∃ fd, (ep, fd) ∈ b.joined
  client : ∀ fd c, b.baseline.clients.find? fd = some c → ∃ ep, (ep, fd) ∈ b.joined
  pair : ∀ ep fd, (ep, fd) ∈ b.joined → ∃ ses c,
    b.optimized.sessions.sessions.find? ep = some ses ∧ b.baseline.clients.find? fd = some c ∧
      c.playerId = ses.playerId ∧ 0 ≤ c.fd ∧ c.rxBuffer = []
  unique : ∀ ep fd ep' fd', (ep, fd) ∈ b.joined → (ep', fd') ∈ b.joined → (ep = ep' ↔ fd = fd')

namespace Agree

variable {b : BothServers F}

omit [FloatArith F] [FloatBits F] [FloatText F]

/-- Servers that have just started agree. -/
theorem init : (BothServers.init : BothServers F).Agree where
  wf := Server.wf_init
  world := rfl
  session ep ses h := by cases (UMap.find?_empty ep).symm.trans h
  client fd c h := by cases (UMap.find?_empty fd).symm.trans h
  pair ep fd h := absurd h List.not_mem_nil
  unique ep fd ep' fd' h := absurd h List.not_mem_nil

/-- An id is that of a client exactly when it is that of a session. -/
theorem taken_iff (h : b.Agree) (id : UInt16) : taken b.baseline.clients id = true ↔
    (b.optimized.sessions.idToEndpoint.find? id).isSome = true := by
  rw [h.wf.sessions.used_iff, taken, decide_eq_true_eq]
  constructor
  · rintro ⟨fd, _, hany⟩
    obtain ⟨c, hc, hid⟩ := (Option.any_eq_true _ _).mp hany
    obtain ⟨ep, hj⟩ := h.client fd c hc
    obtain ⟨ses, c', hses, hc', hpid, _⟩ := h.pair ep fd hj
    obtain rfl := Option.some.inj (hc.symm.trans hc')
    exact ⟨ep, ses, hses, hpid.symm.trans (of_decide_eq_true hid)⟩
  · rintro ⟨ep, ses, hses, rfl⟩
    obtain ⟨fd, hj⟩ := h.session ep ses hses
    obtain ⟨ses', c, hses', hc, hpid, _⟩ := h.pair ep fd hj
    obtain rfl := Option.some.inj (hses.symm.trans hses')
    exact ⟨fd, (UMap.mem_keys _ _).mpr (by rw [hc]; rfl), by simp [hc, hpid]⟩

/-- Both servers allocate the same id. -/
theorem allocId_eq (h : b.Agree) : allocId b.baseline.clients = b.optimized.sessions.nextFreeId := by
  unfold allocId SessionManager.nextFreeId
  congr 2
  funext id
  have htaken := h.taken_iff id
  cases hs : b.optimized.sessions.idToEndpoint.find? id with
  | none =>
    rw [hs] at htaken
    simpa using htaken
  | some ep =>
    rw [hs] at htaken
    simpa using htaken

variable {b' : BothServers F} (ep : Endpoint) (fd : Int)

/-- A client gets a session and a connection with one id, or keeps them. -/
theorem assign (ses : Session) {c : TcpClient} (h : b.Agree) (hwf : b'.optimized.WF)
    (hworld : b'.optimized.world = b'.baseline.world)
    (hs : ∀ a, b'.optimized.sessions.sessions.find? a =
      if a = ep then some ses else b.optimized.sessions.sessions.find? a)
    (hc : ∀ d, b'.baseline.clients.find? d = if d = fd then some c else b.baseline.clients.find? d)
    (hj : ∀ j, j ∈ b'.joined ↔ j = (ep, fd) ∨ j ∈ b.joined)
    (hunique : ∀ a d, (a, d) ∈ b.joined → (ep = a ↔ fd = d))
    (hid : c.playerId = ses.playerId) (hfd : 0 ≤ c.fd) (hbuf : c.rxBuffer = []) : b'.Agree where
  wf := hwf
  world := hworld
  session a t ht := by
    rw [hs] at ht
    split at ht
    · next ha => exact ⟨fd, (hj _).mpr (.inl (by rw [ha]))⟩
    · obtain ⟨d, hd⟩ := h.session a t ht
      exact ⟨d, (hj _).mpr (.inr hd)⟩
  client d t ht := by
    rw [hc] at ht
    split at ht
    · next hd => exact ⟨ep, (hj _).mpr (.inl (by rw [hd]))⟩
    · obtain ⟨a, ha⟩ := h.client d t ht
      exact ⟨a, (hj _).mpr (.inr ha)⟩
  pair a d had := by
    rw [hs, hc]
    by_cases ha : a = ep
    · have hd : d = fd := by
        rcases (hj _).mp had with he | hold
        · exact congrArg Prod.snd he
        · exact ((hunique a d hold).mp ha.symm).symm
      exact ⟨ses, c, if_pos ha, if_pos hd, hid, hfd, hbuf⟩
    · rcases (hj _).mp had with he | hold
      · exact absurd (congrArg Prod.fst he) ha
      · have hd : d ≠ fd := fun hd ↦ ha ((hunique a d hold).mpr hd.symm).symm
        rw [if_neg ha, if_neg hd]
        exact h.pair a d hold
  unique a d a' d' had had' := by
    rcases (hj _).mp had with he | hold <;> rcases (hj _).mp had' with he' | hold'
    · obtain ⟨rfl, rfl⟩ := Prod.mk.inj he
      obtain ⟨rfl, rfl⟩ := Prod.mk.inj he'
      simp
    · obtain ⟨rfl, rfl⟩ := Prod.mk.inj he
      exact hunique a' d' hold'
    · obtain ⟨rfl, rfl⟩ := Prod.mk.inj he'
      rw [eq_comm, hunique a d hold, eq_comm]
    · exact h.unique a d a' d' hold hold'

/-- A client loses its session and its connection. -/
theorem remove (h : b.Agree) (hmem : (ep, fd) ∈ b.joined) (hwf : b'.optimized.WF)
    (hworld : b'.optimized.world = b'.baseline.world)
    (hs : ∀ a, b'.optimized.sessions.sessions.find? a =
      if a = ep then none else b.optimized.sessions.sessions.find? a)
    (hc : ∀ d, b'.baseline.clients.find? d = if d = fd then none else b.baseline.clients.find? d)
    (hj : ∀ j, j ∈ b'.joined ↔ j ∈ b.joined ∧ j ≠ (ep, fd)) : b'.Agree where
  wf := hwf
  world := hworld
  session a t ht := by
    rw [hs] at ht
    split at ht
    · cases ht
    · next ha =>
      obtain ⟨d, hd⟩ := h.session a t ht
      exact ⟨d, (hj _).mpr ⟨hd, fun he ↦ ha (congrArg Prod.fst he)⟩⟩
  client d t ht := by
    rw [hc] at ht
    split at ht
    · cases ht
    · next hd =>
      obtain ⟨a, ha⟩ := h.client d t ht
      exact ⟨a, (hj _).mpr ⟨ha, fun he ↦ hd (congrArg Prod.snd he)⟩⟩
  pair a d had := by
    obtain ⟨hold, hne⟩ := (hj _).mp had
    have ha : a ≠ ep := by
      rintro rfl
      exact hne (by rw [(h.unique a d a fd hold hmem).mp rfl])
    have hd : d ≠ fd := by
      rintro rfl
      exact hne (by rw [(h.unique a d ep d hold hmem).mpr rfl])
    rw [hs, hc, if_neg ha, if_neg hd]
    exact h.pair a d hold
  unique a d a' d' had had' := h.unique a d a' d' ((hj _).mp had).1 ((hj _).mp had').1

end Agree

/-! ### One event -/

variable {b : BothServers F}

/-- A join is refused by both servers or gets the same id from both. -/
theorem Agree.join (h : b.Agree) (ep : Endpoint) (fd now : Int) (ho : b.Occurs (.join ep fd now)) :
    (b.step (.join ep fd now)).Agree ∧
      (b.step (.join ep fd now)).idOf ep = (b.step (.join ep fd now)).idOfFd fd := by
  obtain ⟨hfd, hep, hnew⟩ := ho
  have hwf := h.wf.step _ (.datagram now ep Cl.joinBytes)
  have hses : b.optimized.sessions.sessions.find? ep = none := by
    cases hs : b.optimized.sessions.sessions.find? ep with
    | none => rfl
    | some ses =>
      obtain ⟨fd', hj⟩ := h.session ep ses hs
      exact absurd (List.mem_map.mpr ⟨_, hj, rfl⟩) hep
  have hclient : b.baseline.clients.find? fd = none := by
    cases hc : b.baseline.clients.find? fd with
    | none => rfl
    | some c =>
      obtain ⟨ep', hj⟩ := h.client fd c hc
      exact absurd (List.mem_map.mpr ⟨_, hj, rfl⟩) hnew
  have hopt : b.optimized.step (.datagram now ep Cl.joinBytes) =
      (b.optimized.handleJoinRequest now ep).1 := by
    change (b.optimized.handleInboundUdp now ep Cl.joinBytes).1 = _
    rw [Server.handleInboundUdp_eq, Cl.read_joinBytes]
  have hbase : b.baseline.step (.accept fd now) = (b.baseline.accept fd now).1 := rfl
  unfold BothServers.step idOf idOfFd
  dsimp only
  rw [hopt] at hwf ⊢
  rw [hbase]
  unfold BaselineServer.accept
  rw [h.allocId_eq]
  unfold Server.handleJoinRequest at hwf ⊢
  by_cases hid : b.optimized.sessions.nextFreeId = 0
  · -- Both servers are full.
    rw [SessionManager.registerOrGet_of_full now ep _ hses hid] at hwf ⊢
    simp only [hid, if_true, SessionManager.byEndpoint, hses, hclient, Option.isSome_none,
      Bool.false_eq_true, if_false, Option.map_none, and_true]
    exact h
  · rw [SessionManager.registerOrGet_of_free now ep _ hses hid] at hwf ⊢
    simp only [hid, if_false, SessionManager.byEndpoint, UMap.find?_assign, if_true,
      Option.isSome_some, Option.map_some, and_true]
    refine h.assign ep fd _ hwf ?_ (UMap.find?_assign _ _ · _)
      (UMap.find?_assign _ _ · _) (fun j ↦ List.mem_cons) (fun a d hd ↦ ?_) rfl hfd rfl
    · rw [h.world]
    · refine iff_of_false ?_ ?_
      · rintro rfl
        exact hep (List.mem_map.mpr ⟨_, hd, rfl⟩)
      · rintro rfl
        exact hnew (List.mem_map.mpr ⟨_, hd, rfl⟩)

/-- An input is applied to the same record by both servers. -/
theorem Agree.input (h : b.Agree) (ep : Endpoint) (fd : Int) (seq : UInt32) (mx my : Int8)
    (now : Int) (ho : b.Occurs (.input ep fd seq mx my now)) :
    (b.step (.input ep fd seq mx my now)).Agree := by
  obtain ⟨ses, c, hses, hc, hid, hfd, hbuf⟩ := h.pair ep fd ho
  have hidOf : b.idOf ep = some ses.playerId := congrArg (Option.map Session.playerId) hses
  have hwf := h.wf.step _ (.datagram now ep (Cl.inputBytes ⟨ses.playerId, seq, mx, my⟩))
  have hopt : b.optimized.step (.datagram now ep (Cl.inputBytes ⟨ses.playerId, seq, mx, my⟩)) =
      b.optimized.handleInputCommand now ep ⟨ses.playerId, seq, mx, my⟩ := by
    change (b.optimized.handleInboundUdp now ep (Cl.inputBytes ⟨ses.playerId, seq, mx, my⟩)).1 = _
    rw [Server.handleInboundUdp_eq, Cl.read_inputBytes]
  have hverify : b.optimized.sessions.verifyInput ep ses.playerId = true := by
    simp [SessionManager.verifyInput, SessionManager.byEndpoint, hses]
  have hbase : b.baseline.step (.read fd (inputLine seq mx my) false fun _ ↦ now) =
      { b.baseline with
        world := (b.baseline.world.applyInput c.playerId seq mx my).2
        clients := b.baseline.clients.assign fd { c with rxBuffer := [], lastInput := now }
        inputsReceived := b.baseline.inputsReceived + 1 } := by
    change b.baseline.read fd _ _ _ = _
    unfold BaselineServer.read
    rw [hc]
    simp only [Int.not_lt.mpr hfd, if_false, hbuf, List.nil_append, Bool.false_eq_true]
    rw [processLines_inputLine _ seq mx my _ _ _ rfl]
  unfold BothServers.step
  dsimp only
  rw [hidOf, Option.getD_some, hbase]
  rw [hopt] at hwf ⊢
  unfold Server.handleInputCommand at hwf ⊢
  rw [if_pos hverify] at hwf ⊢
  refine h.assign ep fd { ses with lastInputTime := now } hwf ?_
    (fun a ↦ ?_) (UMap.find?_assign _ _ · _) (fun j ↦ ?_) (h.unique ep fd · · ho ·) hid hfd rfl
  · rw [h.world, hid]
  · rw [SessionManager.sessions_touch]
    split
    · next ha => rw [ha, hses]; rfl
    · rfl
  · exact ⟨.inr, fun hj ↦ hj.elim (fun he ↦ he ▸ ho) id⟩

/-- A client that leaves is removed by both servers. -/
theorem Agree.leave (h : b.Agree) (ep : Endpoint) (fd now : Int)
    (ho : b.Occurs (.leave ep fd now)) : (b.step (.leave ep fd now)).Agree := by
  obtain ⟨ses, c, hses, hc, hid, hfd, hbuf⟩ := h.pair ep fd ho
  have hidOf : b.idOf ep = some ses.playerId := congrArg (Option.map Session.playerId) hses
  have hwf := h.wf.step _ (.datagram now ep (Cl.disconnectBytes ses.playerId))
  have hopt : b.optimized.step (.datagram now ep (Cl.disconnectBytes ses.playerId)) =
      b.optimized.handleDisconnectNotice ep ⟨ses.playerId⟩ := by
    change (b.optimized.handleInboundUdp now ep (Cl.disconnectBytes ses.playerId)).1 = _
    rw [Server.handleInboundUdp_eq, Cl.read_disconnectBytes]
  have hbase : b.baseline.step (.read fd [] true fun _ ↦ now) =
      { b.baseline with
        world := (b.baseline.world.removePlayer c.playerId).2
        clients := b.baseline.clients.erase fd } := by
    change b.baseline.read fd _ _ _ = _
    unfold BaselineServer.read
    rw [hc]
    simp [Int.not_lt.mpr hfd]
  unfold BothServers.step
  dsimp only
  rw [hidOf, Option.getD_some, hbase]
  rw [hopt] at hwf ⊢
  unfold Server.handleDisconnectNotice at hwf ⊢
  have hby : b.optimized.sessions.byEndpoint ep = some ses := hses
  simp only [hby, if_true] at hwf ⊢
  refine h.remove ep fd ho hwf ?_ (SessionManager.sessions_removeByEndpoint ep · _)
    (UMap.find?_erase _ _) (fun j ↦ ?_)
  · rw [h.world, hid]
  · simp [List.mem_filter]

/-- A tick without timeouts moves the players of both servers alike. -/
theorem Agree.tick (h : b.Agree) (now : Int) (order : TickOrder F)
    (players : UMap.Traversal UInt16 (ServerPlayer F)) (clients : UMap.Traversal Int TcpClient)
    (ho : b.Occurs (.tick now order players clients)) :
    (b.step (.tick now order players clients)).Agree := by
  have hwf := h.wf.step _ (.tick now order)
  have halive : ∀ ep ses, b.optimized.sessions.sessions.find? ep = some ses →
      ses.expired now = false := by
    intro ep ses hses
    have hall := ho ep ((UMap.mem_keys _ _).mpr (by rw [hses]; rfl))
    simpa [hses] using hall
  have hreaped : (b.optimized.sessions.reapTimeouts now order.reap).1 = [] := by
    refine List.eq_nil_iff_forall_not_mem.mpr fun id hmem ↦ ?_
    obtain ⟨ep, ses, hses, hexp, _⟩ := (SessionManager.mem_reapTimeouts _ _ _ _).mp hmem
    rw [halive ep ses hses] at hexp
    cases hexp
  have hkept : ∀ a, (b.optimized.step (.tick now order)).sessions.sessions.find? a =
      b.optimized.sessions.sessions.find? a := by
    intro a
    change (b.optimized.tickAndMaybeBroadcast now order).1.sessions.sessions.find? a = _
    rw [Server.sessions_tick, SessionManager.sessions_reapTimeouts]
    cases hs : b.optimized.sessions.sessions.find? a with
    | none => rfl
    | some ses => simp [halive a ses hs]
  have hworld : (b.optimized.step (.tick now order)).world = b.optimized.world.stepTick := by
    change (b.optimized.tickAndMaybeBroadcast now order).1.world = _
    rw [(Server.world_tick _ now order).1, hreaped]
    rfl
  have hbase : (b.baseline.step (.tick players clients)).world = b.baseline.world.stepTick ∧
      (b.baseline.step (.tick players clients)).clients = b.baseline.clients := by
    change (b.baseline.tick players clients).1.world = _ ∧
      (b.baseline.tick players clients).1.clients = _
    unfold BaselineServer.tick
    dsimp only
    split <;> exact ⟨rfl, rfl⟩
  unfold BothServers.step
  refine ⟨hwf, ?_, fun ep ses hs ↦ ?_, fun fd c hc ↦ ?_, fun ep fd hj ↦ ?_, h.unique⟩
  · dsimp only
    rw [hworld, hbase.1, h.world]
  · exact h.session ep ses ((hkept ep).symm.trans hs)
  · dsimp only at hc
    rw [hbase.2] at hc
    exact h.client fd c hc
  · dsimp only
    rw [hkept, hbase.2]
    exact h.pair ep fd hj

/-- Every event that can happen keeps the servers in agreement. -/
theorem Agree.step (h : b.Agree) (ev : Happening F) (ho : b.Occurs ev) : (b.step ev).Agree := by
  cases ev with
  | join ep fd now => exact (h.join ep fd now ho).1
  | input ep fd seq mx my now => exact h.input ep fd seq mx my now ho
  | leave ep fd now => exact h.leave ep fd now ho
  | tick now order players clients => exact h.tick now order players clients ho

/-- Servers after one more event. -/
theorem run_concat (b : BothServers F) (evs : List (Happening F)) (ev : Happening F) :
    b.run (evs ++ [ev]) = (b.run evs).step ev := by
  rw [run, List.foldl_append]
  rfl

/-- The servers agree after every run. -/
theorem agree_run (evs : List (Happening F))
    (h : EveryStep (fun past ev ↦ ((init : BothServers F).run past).Occurs ev) evs) :
    ((init : BothServers F).run evs).Agree :=
  h.invariant Agree.init fun _ ev ho hagree ↦ hagree.step ev ho

/-- Both servers simulate the same world. In every run without timeouts the worlds and ticks
are equal, a client that has joined has one id on both servers, and a join is refused by both
or gets the same id from both. -/
theorem sameWorld (evs : List (Happening F))
    (h : EveryStep (fun past ev ↦ ((init : BothServers F).run past).Occurs ev) evs) :
    let b : BothServers F := init.run evs
    b.optimized.world = b.baseline.world ∧
    (∀ ep fd, (ep, fd) ∈ b.joined → ∃ id, b.idOf ep = some id ∧ b.idOfFd fd = some id) ∧
    ∀ past ep fd now, past ++ [.join ep fd now] <+: evs →
      let joined : BothServers F := init.run (past ++ [.join ep fd now])
      joined.idOf ep = joined.idOfFd fd := by
  have hagree := agree_run evs h
  refine ⟨hagree.world, fun ep fd hj ↦ ?_, fun past ep fd now hp ↦ ?_⟩
  · obtain ⟨ses, c, hses, hc, hid, _⟩ := hagree.pair ep fd hj
    exact ⟨ses.playerId, congrArg (Option.map _) hses,
      (congrArg (Option.map _) hc).trans (congrArg some hid)⟩
  · have hpast : EveryStep (fun past ev ↦ ((init : BothServers F).run past).Occurs ev)
        (past ++ [.join ep fd now]) := fun past' ev' hp' ↦ h past' ev' (hp'.trans hp)
    rw [run_concat]
    exact ((agree_run past hpast.init).join ep fd now hpast.last).2

/-- A client joins, sends an input and is moved by a tick; another joins and leaves. -/
theorem sameWorld_two :
    letI := ratArith
    letI := ratBits
    letI := ratText
    let evs : List (Happening Rat) := [.join ⟨1, 1⟩ 5 0, .input ⟨1, 1⟩ 5 1 1 0 1, .join ⟨2, 2⟩ 6 2,
      .tick 3 .sorted byId byFd, .leave ⟨2, 2⟩ 6 4]
    let b : BothServers Rat := init.run evs
    b.joined = [(⟨1, 1⟩, 5)] ∧ b.optimized.world = b.baseline.world ∧
      ∃ id, b.idOf ⟨1, 1⟩ = some id ∧ b.idOfFd 5 = some id := by
  let _ := ratArith
  let _ := ratBits
  let _ := ratText
  intro evs b
  have hjoined : b.joined = [(⟨1, 1⟩, 5)] := by decide +kernel
  have h := sameWorld evs (.cons (by decide +kernel) (.cons (by decide +kernel)
    (.cons (by decide +kernel) (.cons (by decide +kernel) (.cons (by decide +kernel) .nil)))))
  exact ⟨hjoined, h.1, h.2.1 _ _ (hjoined ▸ List.mem_singleton_self _)⟩

end BothServers
end LightningLink.Baseline
