import LightningLink.Server.Broadcast
import LightningLink.Server.NonInterference

/-!
# Acknowledged inputs

Library `Server`. An input is acknowledged when it arrives and takes effect at a tick. All
inputs that a broadcast acknowledges have been simulated exactly when none of them arrived
while an earlier one was still waiting for its first tick.
-/

namespace LightningLink.Srv

open Support Proto

/-- Input packet that reaches `apply_input` for a member with an id. -/
def Input.delivers (id : UInt16) : Input → Option InputPacket
  | .receive _ payload =>
    match Packet.read payload with
    | some (.input ip) => if id = ip.playerId then some ip else none
    | _ => none
  | .tick _ => none

namespace Event

variable {F : Type}

/-- Input packet that an event delivers from an endpoint for an id. -/
def delivers (e : Endpoint) (id : UInt16) (ev : Event F) : Option InputPacket :=
  (ev.inputOf e).bind (Input.delivers id)

/-- A delivered packet is read from a datagram of the endpoint and names the id. -/
theorem delivers_eq_some_iff (e : Endpoint) (id : UInt16) (ev : Event F) (ip : InputPacket) :
    ev.delivers e id = some ip ↔ ip.playerId = id ∧ ∃ now payload,
      ev = .datagram now e payload ∧ Packet.read payload = some (.input ip) := by
  cases ev with
  | tick now order => simp [delivers, inputOf, Input.delivers]
  | datagram now src payload =>
    by_cases he : src = e
    · subst he
      have hd : (datagram now src payload : Event F).delivers src id =
          Input.delivers id (.receive now payload) := by
        rw [delivers, inputOf, if_pos rfl, Option.bind_some]
      rw [hd, Input.delivers]
      constructor
      · intro h
        split at h
        · next ip' hr =>
          split at h
          · next hid =>
            obtain rfl := Option.some.inj h
            exact ⟨hid.symm, now, payload, rfl, hr⟩
          · cases h
        · cases h
      · rintro ⟨rfl, _, _, hev, hr⟩
        obtain ⟨_, _, rfl⟩ := datagram.inj hev
        rw [hr]
        exact if_pos rfl
    · simp [delivers, inputOf, he]

/-- Whether an event is a tick. -/
def isTick : Event F → Bool
  | .datagram _ _ _ => false
  | .tick _ _ => true

end Event

/-- Inputs that a run delivers from an endpoint for an id, in order. -/
def delivered {F : Type} (e : Endpoint) (id : UInt16) (evs : List (Event F)) : List InputPacket :=
  evs.filterMap (Event.delivers e id)

/-- Inputs numbered 1, 2, 3, … without loss. -/
def InOrder (ips : List InputPacket) : Prop :=
  ips.length < 2 ^ 32 ∧
    ips.map InputPacket.seq = (List.range ips.length).map fun i ↦ UInt32.ofNat (i + 1)

/-- No input is delivered while an earlier one waits for its first tick; `waiting` says
whether one does. -/
def Spaced {F : Type} (e : Endpoint) (id : UInt16) : (waiting : Bool) → List (Event F) → Prop
  | _, [] => True
  | waiting, ev :: evs =>
    if (ev.delivers e id).isSome then waiting = false ∧ Spaced e id true evs
    else Spaced e id (waiting && !ev.isTick) evs

instance (ips : List InputPacket) : Decidable (InOrder ips) := by
  unfold InOrder
  infer_instance

/-- Spacing is decided event by event. -/
instance decidableSpaced {F : Type} (e : Endpoint) (id : UInt16) :
    (waiting : Bool) → (evs : List (Event F)) → Decidable (Spaced e id waiting evs)
  | _, [] => isTrue trivial
  | waiting, ev :: evs => by
    have := decidableSpaced e id true evs
    have := decidableSpaced e id (waiting && !ev.isTick) evs
    unfold Spaced
    infer_instance

/-! ### Deliveries in order -/

/-- Splitting the last input off. -/
theorem inOrder_concat (ips : List InputPacket) (ip : InputPacket) (h : InOrder (ips ++ [ip])) :
    InOrder ips ∧ ip.seq = UInt32.ofNat (ips.length + 1) := by
  obtain ⟨hlen, hseq⟩ := h
  rw [List.length_append, List.length_singleton] at hlen hseq
  rw [List.map_append, List.range_succ, List.map_append] at hseq
  have hi := List.append_inj hseq (by simp)
  exact ⟨⟨by omega, hi.1⟩, (List.cons.inj hi.2).1⟩

private theorem inOrder_take (ips : List InputPacket) (k : Nat) (h : InOrder ips) :
    InOrder (ips.take k) := by
  induction ips using List.reverseRecOn with
  | nil => simpa using h
  | append_singleton ips ip ih =>
    by_cases hk : k ≤ ips.length
    · rw [List.take_append_of_le_length hk]
      exact ih (inOrder_concat ips ip h).1
    · rwa [List.take_of_length_le (by rw [List.length_append, List.length_singleton]; omega)]

variable {F : Type}

/-- A prefix of a run delivers a prefix of the inputs. -/
theorem delivered_mono (e : Endpoint) (id : UInt16) {past evs : List (Event F)}
    (hp : past <+: evs) : delivered e id past <+: delivered e id evs := by
  obtain ⟨rest, rfl⟩ := hp
  rw [delivered, delivered, List.filterMap_append]
  exact List.prefix_append _ _

/-- A prefix of inputs in order is in order. -/
theorem InOrder.mono {got all : List InputPacket} (h : InOrder all) (hp : got <+: all) :
    InOrder got := by
  rw [List.prefix_iff_eq_take.mp hp]
  exact inOrder_take all _ h

/-- The number of an input is its position. -/
theorem InOrder.seq_eq {ips : List InputPacket} (h : InOrder ips) (i : Nat) (hi : i < ips.length) :
    ips[i].seq = UInt32.ofNat (i + 1) := by
  have hs := congrArg (fun l ↦ l[i]?) h.2
  simpa [hi] using hs

/-! ### Where deliveries and ticks stand -/

/-- A tick of the run has `k` deliveries before it, of which `n` came before the run. -/
def TickAfter (e : Endpoint) (id : UInt16) (evs : List (Event F)) (n k : Nat) : Prop :=
  ∃ a now order c, evs = a ++ .tick now order :: c ∧ n + (delivered e id a).length = k

/-- The first event is the tick looked for, or a later one is. -/
theorem tickAfter_cons (e : Endpoint) (id : UInt16) (ev : Event F) (evs : List (Event F))
    (n k : Nat) : TickAfter e id (ev :: evs) n k ↔
      (ev.isTick = true ∧ n = k) ∨
        TickAfter e id evs (n + (ev.delivers e id).toList.length) k := by
  have hlen (a : List (Event F)) : (delivered e id (ev :: a)).length =
      (ev.delivers e id).toList.length + (delivered e id a).length := by
    rw [delivered, delivered, List.filterMap_cons]
    cases ev.delivers e id <;> simp [Nat.add_comm]
  constructor
  · rintro ⟨a, now, order, c, he, hk⟩
    cases a with
    | nil =>
      obtain ⟨rfl, rfl⟩ := List.cons.inj he
      exact Or.inl ⟨rfl, hk⟩
    | cons x a =>
      obtain ⟨rfl, rfl⟩ := List.cons.inj he
      rw [hlen] at hk
      exact Or.inr ⟨a, now, order, c, rfl, by omega⟩
  · rintro (⟨ht, rfl⟩ | ⟨a, now, order, c, rfl, hk⟩)
    · cases ev with
      | datagram => cases ht
      | tick now order => exact ⟨[], now, order, evs, rfl, rfl⟩
    · refine ⟨ev :: a, now, order, c, rfl, ?_⟩
      rw [hlen]
      omega

/-- A run is spaced exactly when every delivery that waits or comes has a tick before the
next one, given a tick at the end. -/
theorem spaced_iff (e : Endpoint) (id : UInt16) (evs : List (Event F)) (now : Int)
    (order : TickOrder F) (n : Nat) (waiting : Bool) :
    Spaced e id waiting evs ↔ ∀ k, (if waiting then n else n + 1) ≤ k →
      k ≤ n + (delivered e id evs).length → TickAfter e id (evs ++ [.tick now order]) n k := by
  induction evs generalizing n waiting with
  | nil =>
    refine ⟨fun _ k h1 h2 ↦ ?_, fun _ ↦ trivial⟩
    have hk : k = n := by
      change k ≤ n + 0 at h2
      split at h1 <;> omega
    exact (tickAfter_cons e id _ [] n k).mpr (Or.inl ⟨rfl, hk.symm⟩)
  | cons ev evs ih =>
    rw [Spaced]
    simp only [List.cons_append, tickAfter_cons]
    cases hd : ev.delivers e id with
    | some ip =>
      have ht : ev.isTick = false := by
        cases ev with
        | datagram => rfl
        | tick => cases hd
      have hlen : (delivered e id (ev :: evs)).length = (delivered e id evs).length + 1 := by
        simp [delivered, hd]
      have ihn := ih (n + 1) true
      simp only [ht, hlen, Option.isSome_some, if_true, Bool.false_eq_true, false_and, false_or,
        Option.toList_some, List.length_singleton] at ihn ⊢
      rw [ihn]
      cases waiting with
      | false =>
        simp only [true_and, Bool.false_eq_true, if_false]
        refine forall₂_congr fun k _ ↦ ?_
        rw [show n + 1 + (delivered e id evs).length =
          n + ((delivered e id evs).length + 1) by omega]
      | true =>
        simp only [Bool.true_eq_false, false_and, if_true, false_iff]
        intro h
        -- The waiting input would need a tick after fewer deliveries than there are already.
        obtain ⟨a, _, _, _, _, hk⟩ := h n le_rfl (by omega)
        omega
    | none =>
      have hlen : (delivered e id (ev :: evs)).length = (delivered e id evs).length := by
        simp [delivered, hd]
      simp only [hlen, Option.isSome_none, Bool.false_eq_true, if_false, Option.toList_none,
        List.length_nil, Nat.add_zero]
      cases ht : ev.isTick with
      | true =>
        rw [Bool.not_true, Bool.and_false, ih n false]
        simp only [Bool.false_eq_true, if_false, true_and]
        constructor
        · intro h k h1 h2
          by_cases hk : n = k
          · exact Or.inl hk
          · refine Or.inr (h k ?_ h2)
            split at h1 <;> omega
        · intro h k h1 h2
          rcases h k (by split <;> omega) h2 with hk | hk
          · omega
          · exact hk
      | false =>
        rw [Bool.not_false, Bool.and_true, ih n waiting]
        simp

/-! ### The record of the player -/

/-- What inputs set and ticks keep: the numbers seen and acknowledged, and the direction. -/
def ServerPlayer.controls (p : ServerPlayer F) : UInt32 × UInt32 × Int8 × Int8 :=
  (p.latestSeenSeq, p.state.lastProcessedInputSeq, p.pendingMx, p.pendingMy)

/-- An input with a higher number sets the controls. -/
theorem ServerPlayer.controls_input (p : ServerPlayer F) {seq : UInt32} (mx my : Int8)
    (h : p.latestSeenSeq ≤ seq) :
    (p.input seq mx my).controls = (seq, seq, clampDir mx, clampDir my) := by
  rw [input, if_neg (UInt32.not_lt.mpr h)]
  rfl

/-- Number seen and controls of a record after delivered packets. -/
def Tracks (p : ServerPlayer F) (ips : List InputPacket) : Prop :=
  p.latestSeenSeq = UInt32.ofNat ips.length ∧
    ∀ ip, ips.getLast? = some ip → p.controls = (ip.seq, ip.seq, clampDir ip.mx, clampDir ip.my)

/-- The number acknowledged is that of the last packet. -/
theorem Tracks.acked {p : ServerPlayer F} {ips : List InputPacket} (h : Tracks p ips)
    (hin : InOrder ips) (hne : 0 < ips.length) :
    p.state.lastProcessedInputSeq = UInt32.ofNat ips.length := by
  have hi : ips.length - 1 < ips.length := by omega
  have hlast : ips.getLast? = some ips[ips.length - 1] := by
    rw [List.getLast?_eq_getElem?, List.getElem?_eq_getElem hi]
  have hc := congrArg (fun x ↦ x.2.1) (h.2 _ hlast)
  rw [hin.seq_eq _ hi, Nat.sub_add_cancel hne] at hc
  exact hc

/-- A record shows a packet exactly while it is the last one delivered. -/
theorem Tracks.shows_iff {p : ServerPlayer F} {got all : List InputPacket} (h : Tracks p got)
    (hp : got <+: all) (hin : InOrder all) (i : Nat) (hi : i < all.length) :
    (p.latestSeenSeq = all[i].seq ∧ p.pendingMx = clampDir all[i].mx ∧
      p.pendingMy = clampDir all[i].my) ↔ got.length = i + 1 := by
  have hlen := hin.1
  have hle := hp.length_le
  constructor
  · rintro ⟨hseq, _, _⟩
    rw [h.1, hin.seq_eq i hi] at hseq
    have hn := congrArg UInt32.toNat hseq
    rw [UInt32.toNat_ofNat', UInt32.toNat_ofNat'] at hn
    omega
  · intro hk
    have hlast : got.getLast? = all[i]? := by
      obtain ⟨rest, rfl⟩ := hp
      rw [List.getLast?_eq_getElem?, hk, Nat.add_sub_cancel, List.getElem?_append_left (by omega)]
    rw [List.getElem?_eq_getElem hi] at hlast
    have hc := h.2 _ hlast
    exact ⟨congrArg Prod.fst hc, congrArg (fun x ↦ x.2.2.1) hc, congrArg (fun x ↦ x.2.2.2) hc⟩

section

variable [FloatArith F]

/-- Inputs that deliver nothing keep the controls. -/
theorem Member.next_of_none {m m' : Member F} {i : Input} (h : m.next i = some m')
    (hd : i.delivers m.session.playerId = none) : m'.player.controls = m.player.controls := by
  cases i with
  | tick now =>
    rw [next] at h
    split at h
    · cases h
    · obtain rfl := Option.some.inj h
      rfl
  | receive now payload =>
    rw [next] at h
    rw [Input.delivers] at hd
    cases hr : Packet.read payload with
    | none =>
      rw [hr] at h
      obtain rfl := Option.some.inj h
      rfl
    | some pk =>
      rw [hr] at h hd
      cases pk with
      | input ip =>
        by_cases hid : m.session.playerId = ip.playerId
        · simp [hid] at hd
        · obtain rfl := Option.some.inj h
          rw [if_neg hid]
      | disconnect dn =>
        dsimp only at h
        split at h
        · cases h
        · obtain rfl := Option.some.inj h
          rfl
      | joinRequest => obtain rfl := Option.some.inj h; rfl
      | joinAccept => obtain rfl := Option.some.inj h; rfl
      | snapshot => obtain rfl := Option.some.inj h; rfl

/-- A delivered packet reaches `apply_input`. -/
theorem Member.next_of_delivers {m m' : Member F} {i : Input} {ip : InputPacket}
    (h : m.next i = some m') (hd : i.delivers m.session.playerId = some ip) :
    m'.player = m.player.input ip.seq ip.mx ip.my := by
  cases i with
  | tick now => cases hd
  | receive now payload =>
    rw [next] at h
    rw [Input.delivers] at hd
    split at hd
    · next ip' hr =>
      rw [hr] at h
      split at hd
      · next hid =>
        obtain rfl := Option.some.inj hd
        obtain rfl := Option.some.inj h
        rw [if_pos hid]
        rfl
      · cases hd
    · cases hd

variable [FloatBits F]

/-- A member follows the packets delivered to it in order. -/
theorem follow_tracks (e : Endpoint) (m₀ : Member F) (h₀ : m₀.player.latestSeenSeq = 0)
    (evs : List (Event F)) (hin : InOrder (delivered e m₀.session.playerId evs)) {m : Member F}
    (hf : (memberView e).follow m₀ evs = some m) :
    Tracks m.player (delivered e m₀.session.playerId evs) := by
  induction evs using List.reverseRecOn generalizing m with
  | nil =>
    obtain rfl : m₀ = m := Option.some.inj hf
    exact ⟨h₀, fun _ h ↦ by cases h⟩
  | append_singleton evs ev ih =>
    rw [LocalView.follow_concat, Option.bind_eq_some_iff] at hf
    obtain ⟨m₁, hf₁, hstep⟩ := hf
    have hid := follow_playerId e evs hf₁
    have hcat : delivered e m₀.session.playerId (evs ++ [ev]) =
        delivered e m₀.session.playerId evs ++ (ev.delivers e m₀.session.playerId).toList := by
      rw [delivered, delivered, List.filterMap_append]
      cases h : ev.delivers e m₀.session.playerId <;> simp [h]
    obtain ⟨hseen, hlast⟩ := ih (hin.mono (hcat ▸ List.prefix_append _ _)) hf₁
    cases hd : ev.delivers e m₀.session.playerId with
    | none =>
      have hc : m.player.controls = m₁.player.controls := by
        cases hi : ev.inputOf e with
        | none =>
          rw [show (memberView e).input ev = none from hi] at hstep
          rw [Option.some.inj hstep]
        | some i =>
          rw [show (memberView e).input ev = some i from hi] at hstep
          rw [Event.delivers, hi, ← hid] at hd
          exact Member.next_of_none hstep hd
      rw [hcat, hd, Option.toList_none, List.append_nil]
      exact ⟨(congrArg Prod.fst hc).trans hseen, fun ip h ↦ hc.trans (hlast ip h)⟩
    | some ip =>
      obtain ⟨i, hi, hdi⟩ := Option.bind_eq_some_iff.mp hd
      rw [show (memberView e).input ev = some i from hi] at hstep
      rw [hcat, hd, Option.toList_some] at hin ⊢
      obtain ⟨_, hseq⟩ := inOrder_concat _ ip hin
      have hlen := hin.1
      rw [List.length_append, List.length_singleton] at hlen
      have hle : m₁.player.latestSeenSeq ≤ ip.seq := by
        rw [hseen, hseq, UInt32.le_iff_toNat_le, UInt32.toNat_ofNat', UInt32.toNat_ofNat']
        omega
      have hc := m₁.player.controls_input ip.mx ip.my hle
      rw [← Member.next_of_delivers hstep (hid ▸ hdi)] at hc
      refine ⟨?_, fun ip' h ↦ ?_⟩
      · rw [List.length_append, List.length_singleton, ← hseq]
        exact congrArg Prod.fst hc
      · rw [List.getLast?_concat] at h
        rw [← Option.some.inj h]
        exact hc

end

/-- The player's pending direction is the one that an input has set. -/
def Server.Pending (s : Server F) (ip : InputPacket) : Prop :=
  ∃ q, s.world.get ip.playerId = some q ∧ q.latestSeenSeq = ip.seq ∧
    q.pendingMx = clampDir ip.mx ∧ q.pendingMy = clampDir ip.my

instance (s : Server F) (ip : InputPacket) : Decidable (s.Pending ip) :=
  match h : s.world.get ip.playerId with
  | none => isFalse fun ⟨_, hq, _⟩ ↦ by rw [h] at hq; cases hq
  | some q => decidable_of_iff (q.latestSeenSeq = ip.seq ∧ q.pendingMx = clampDir ip.mx ∧
      q.pendingMy = clampDir ip.my)
    ⟨fun hq ↦ ⟨q, h, hq⟩, fun ⟨p, hp, hq⟩ ↦ by rwa [Option.some.inj (h.symm.trans hp)]⟩

/-- Delivered packets carry the id they are delivered for. -/
theorem playerId_of_delivered (e : Endpoint) (id : UInt16) (evs : List (Event F))
    (ip : InputPacket) (h : ip ∈ delivered e id evs) : ip.playerId = id := by
  obtain ⟨ev, _, hd⟩ := List.mem_filterMap.mp h
  exact ((Event.delivers_eq_some_iff e id ev ip).mp hd).1

namespace Server

section

variable [FloatArith F] [FloatBits F]

/-- A member that stays through a run has followed the inputs delivered in order. -/
theorem exists_tracks (v : ValidServer F) (e : Endpoint) (m₀ : Member F)
    (hm : v.server.member e = some m₀) (h₀ : m₀.player.latestSeenSeq = 0) (evs : List (Event F))
    (hp : v.server.Present e evs) (hin : InOrder (delivered e m₀.session.playerId evs)) :
    ∃ m, (v.server.run evs).member e = some m ∧ m.session.playerId = m₀.session.playerId ∧
      Tracks m.player (delivered e m₀.session.playerId evs) := by
  rw [present_iff_alive] at hp
  obtain ⟨m, hf⟩ := Option.isSome_iff_exists.mp (((memberView e).alive_iff hm evs).mp hp)
  refine ⟨m, ?_, follow_playerId e evs hf, follow_tracks e m₀ h₀ evs hin hf⟩
  rw [← ValidServer.server_foldl]
  exact (memberView e).view_run hm evs hf

omit [FloatArith F] [FloatBits F] in
/-- An input is the pending direction of its player exactly while it is the last one delivered. -/
theorem pending_iff (s : Server F) (e : Endpoint) (m : Member F) (hm : s.member e = some m)
    {got all : List InputPacket} (ht : Tracks m.player got) (hgot : got <+: all)
    (hin : InOrder all) (i : Nat) (hi : i < all.length)
    (hid : all[i].playerId = m.session.playerId) :
    s.Pending all[i] ↔ got.length = i + 1 := by
  have hget : s.world.get all[i].playerId = some m.player := by
    rw [hid]
    exact ((member_eq_some_iff _ e m).mp hm).2
  rw [← ht.shows_iff hgot hin i hi]
  constructor
  · rintro ⟨p, hp, h⟩
    obtain rfl := Option.some.inj (hget.symm.trans hp)
    exact h
  · exact fun h ↦ ⟨m.player, hget, h⟩

end

/-- A tick of a run with a tick at its end comes after a part of the run. -/
theorem past_of_tick {evs a c : List (Event F)} {now now' : Int} {order order' : TickOrder F}
    (h : evs ++ [.tick now order] = a ++ .tick now' order' :: c) : a <+: evs := by
  rcases List.prefix_concat_iff.mp ⟨_, h.symm⟩ with rfl | ha
  · have hlen := congrArg List.length h
    simp at hlen
  · exact ha

section

variable [FloatArith F32]

/-- Every input that a broadcast acknowledges to a player, whose inputs were delivered in
order since it joined, was its pending direction at some tick of the run so far: this holds
exactly when none arrived while an earlier one waited for its first tick. -/
theorem acked_simulated_iff (past evs : List (Event F32)) (e : Endpoint) (now : Int)
    (order : TickOrder F32) (ses : Session)
    (hses : (init.run past).sessions.sessions.find? e = some ses)
    (hfresh : ((init.run past).world.get ses.playerId).map ServerPlayer.latestSeenSeq = some 0)
    (hin : InOrder (delivered e ses.playerId evs))
    (hp : (init.run past).Present e (evs ++ [.tick now order]))
    (hb : ((init.run past).run (evs ++ [.tick now order])).world.tick.toNat % ticksPerSnapshot =
      0) :
    let s : Server F32 := init.run past
    (∀ d ∈ ((s.run evs).tickAndMaybeBroadcast now order).2, ∀ snap,
      snapshotOf d.payload = some snap → ∀ ps ∈ snap.players, ps.id = ses.playerId →
        ∀ ip ∈ delivered e ses.playerId evs, ip.seq ≤ ps.lastProcessedInputSeq →
          ∃ a now' order' c, evs ++ [.tick now order] = a ++ .tick now' order' :: c ∧
            (s.run a).Pending ip) ↔
      Spaced e ses.playerId false evs := by
  let v : ValidServer F32 := ValidServer.reached past
  have hv : v.server = init.run past := ValidServer.server_reached past
  rw [← hv] at hses hfresh hp hb ⊢
  intro s
  obtain ⟨q, hq, hfresh⟩ := Option.map_eq_some_iff.mp hfresh
  have hm : v.server.member e = some ⟨ses, q⟩ :=
    (member_eq_some_iff v.server e ⟨ses, q⟩).mpr ⟨hses, hq⟩
  -- The record of the player after every prefix of the run.
  have track : ∀ a, a <+: evs → ∃ m : Member F32, (s.run a).member e = some m ∧
      m.session.playerId = ses.playerId ∧ Tracks m.player (delivered e ses.playerId a) :=
    fun a ha ↦ exists_tracks v e ⟨ses, q⟩ hm hfresh a
      (fun b hb ↦ hp b (hb.trans (ha.trans (List.prefix_append _ _))))
      (hin.mono (delivered_mono e _ ha))
  have hpend : ∀ a, a <+: evs → ∀ i (hi : i < (delivered e ses.playerId evs).length),
      (s.run a).Pending (delivered e ses.playerId evs)[i] ↔
        (delivered e ses.playerId a).length = i + 1 := by
    intro a ha i hi
    obtain ⟨m, hm, hid, ht⟩ := track a ha
    apply pending_iff _ e m hm ht (delivered_mono e _ ha) hin i hi
    rw [playerId_of_delivered e _ evs _ (List.getElem_mem hi), hid]
  -- The broadcast record of the player acknowledges all inputs delivered.
  have hwf : (s.run evs).WF := v.wf.run evs
  have hrun : s.run (evs ++ [.tick now order]) =
      ((s.run evs).tickAndMaybeBroadcast now order).1 := by
    rw [run, List.foldl_append]
    rfl
  rw [hrun] at hb
  have hsome := hp _ List.prefix_rfl
  rw [hrun] at hsome
  obtain ⟨m, hme, hid, htrack⟩ := track evs List.prefix_rfl
  have hafter := hwf.member_tick_of_isSome now order e m hme hsome
  rw [spaced_iff e _ evs now order 0 false]
  simp only [Bool.false_eq_true, if_false, Nat.zero_add]
  constructor
  · intro h k h1 hk
    have hwf' : ((s.run evs).tickAndMaybeBroadcast now order).1.WF :=
      hwf.step _ (.tick now order)
    have hi : k - 1 < (delivered e ses.playerId evs).length := by omega
    obtain ⟨d, hd, _⟩ := hwf.exists_mem_tick now order hb hsome
    obtain ⟨hps, hpid⟩ := (hwf'.record_iff order m.move.player.state ses.playerId).mpr
      ⟨m.move.player, by rw [← hid]; exact ((member_eq_some_iff _ e _).mp hafter).2, rfl⟩
    have hack : (delivered e ses.playerId evs)[k - 1].seq ≤
        m.move.player.state.lastProcessedInputSeq := by
      have hlen := hin.1
      change _ ≤ m.player.state.lastProcessedInputSeq
      rw [htrack.acked hin (by omega), hin.seq_eq _ hi, UInt32.le_iff_toNat_le,
        UInt32.toNat_ofNat', UInt32.toNat_ofNat']
      omega
    obtain ⟨a, now', order', c, he, hpd⟩ := h d hd _ (hwf.of_mem_tick now order hd).1 _ hps hpid _
      (List.getElem_mem hi) hack
    have hcount := (hpend a (past_of_tick he) (k - 1) hi).mp hpd
    exact ⟨a, now', order', c, he, by omega⟩
  · intro h d _ snap _ ps _ _ ip hip _
    obtain ⟨i, hi, rfl⟩ := List.mem_iff_getElem.mp hip
    obtain ⟨a, now', order', c, he, hk⟩ := h (i + 1) (by omega) (by omega)
    exact ⟨a, now', order', c, he, (hpend a (past_of_tick he) i hi).mpr (by omega)⟩

end

/-- Two inputs with a tick between them, of which the third tick simulates the second before it
broadcasts. -/
theorem acked_simulated_two :
    let s : Server F32 := init.run [.datagram 0 ⟨1, 1⟩ [1, 0, 2]]
    let evs : List (Event F32) := [.tick 0 .sorted,
      .datagram 0 ⟨1, 1⟩ [3, 0, 1, 0, 0, 0, 1, 1, 0], .tick 0 .sorted,
      .datagram 0 ⟨1, 1⟩ [3, 0, 1, 0, 0, 0, 2, 0, 255]]
    delivered ⟨1, 1⟩ 1 evs = [⟨1, 1, 1, 0⟩, ⟨1, 2, 0, -1⟩] ∧
    ∀ d ∈ ((s.run evs).tickAndMaybeBroadcast 0 .sorted).2, ∀ snap,
      snapshotOf d.payload = some snap → ∀ ps ∈ snap.players, ps.id = 1 →
        ∀ ip ∈ delivered ⟨1, 1⟩ 1 evs, ip.seq ≤ ps.lastProcessedInputSeq →
          ∃ a now' order' c, evs ++ [.tick 0 .sorted] = a ++ .tick now' order' :: c ∧
            (s.run a).Pending ip :=
  ⟨by decide, (acked_simulated_iff [.datagram 0 ⟨1, 1⟩ [1, 0, 2]] [.tick 0 .sorted,
    .datagram 0 ⟨1, 1⟩ [3, 0, 1, 0, 0, 0, 1, 1, 0], .tick 0 .sorted,
    .datagram 0 ⟨1, 1⟩ [3, 0, 1, 0, 0, 0, 2, 0, 255]] ⟨1, 1⟩ 0 .sorted ⟨1, ⟨1, 1⟩, 0⟩
    (by decide) (by decide) (by decide) (by decide) (by decide)).mpr (by decide)⟩

/-- Inputs 1 and 2 arrive between the second and the third tick. The third tick acknowledges
both, and input 1 has been the pending direction at none of them. -/
theorem acked_not_simulated :
    let s : Server F32 := init.run [.datagram 0 ⟨1, 1⟩ [1, 0, 2]]
    let evs : List (Event F32) := [.tick 0 .sorted, .tick 0 .sorted,
      .datagram 0 ⟨1, 1⟩ [3, 0, 1, 0, 0, 0, 1, 1, 0],
      .datagram 0 ⟨1, 1⟩ [3, 0, 1, 0, 0, 0, 2, 0, 1]]
    delivered ⟨1, 1⟩ 1 evs = [⟨1, 1, 1, 0⟩, ⟨1, 2, 0, 1⟩] ∧
    (∃ d ∈ ((s.run evs).tickAndMaybeBroadcast 0 .sorted).2, ∃ snap,
      snapshotOf d.payload = some snap ∧
        (snap.players.map fun ps ↦ (ps.id, ps.lastProcessedInputSeq)) = [(1, 2)]) ∧
    ∀ a now order c, evs ++ [.tick 0 .sorted] = a ++ .tick now order :: c →
      ¬(s.run a).Pending ⟨1, 1, 1, 0⟩ := by
  intro s evs
  refine ⟨by decide, ?_, ?_⟩
  · have hwf : (s.run evs).WF := (wf_init.run _).run evs
    obtain ⟨d, hd, _⟩ := hwf.exists_mem_tick 0 .sorted (by decide) (show
      (((s.run evs).tickAndMaybeBroadcast 0 .sorted).1.sessions.sessions.find? ⟨1, 1⟩).isSome
        from by decide)
    exact ⟨d, hd, _, (hwf.of_mem_tick 0 .sorted hd).1, by decide⟩
  · intro a now order c h
    have hlen : a.length < 5 := by
      have := congrArg List.length h
      simp [evs] at this
      omega
    have htick : ((evs ++ [.tick 0 .sorted])[a.length]?).any Event.isTick = true := by
      rw [h]
      simp [Event.isTick]
    have ha := congrArg (List.take a.length) h
    rw [List.take_left] at ha
    rw [← ha]
    revert hlen htick
    generalize a.length = k
    revert k
    decide

end Server
end LightningLink.Srv
