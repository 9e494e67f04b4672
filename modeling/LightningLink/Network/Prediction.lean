import LightningLink.Client.Correction
import LightningLink.Network.Transparent

/-!
# Prediction over the network

Library `Network`. However datagrams are dropped, delayed and reordered on the way, a client
with prediction on shows its player where the inputs that the server has not acknowledged take
the position that the server gave it. It is never acknowledged an input that it has not sent.
-/

namespace LightningLink

open Support Proto Srv Cl FloatOps FloatArith

namespace Net

section

variable [FloatArith F32]

namespace Process

/-- A condition on a process in its main loop. -/
def IfPlaying (P : Playing → Prop) : Process → Prop
  | playing p => P p
  | _ => True

instance (P : Playing → Prop) [DecidablePred P] (pr : Process) : Decidable (pr.IfPlaying P) :=
  match pr with
  | idle => .isTrue trivial
  | joining _ _ => .isTrue trivial
  | playing p => inferInstanceAs (Decidable (P p))
  | done => .isTrue trivial

/-- The ring has every input that the record does not acknowledge. -/
def Remembers (pr : Process) : Prop :=
  pr.IfPlaying fun p ↦ p.sent.length ≤ p.client.base.mark + inputHistorySize

instance (pr : Process) : Decidable pr.Remembers := by
  unfold Remembers
  infer_instance

/-- The number of the next input does not wrap. -/
def Numbers (pr : Process) : Prop :=
  pr.IfPlaying fun p ↦ p.sent.length + 1 < 2 ^ 32 - 1

instance (pr : Process) : Decidable pr.Numbers := by
  unfold Numbers
  infer_instance

/-- A process that predicts, and the inputs that it has recorded. -/
def Predicts (inputs : List (PredictedInput F32)) : Process → Prop
  | idle => inputs = []
  | joining noPrediction _ => noPrediction = false ∧ inputs = []
  | playing p => p.client.Predicts inputs ∧
      inputs.map PredictedInput.command = p.sent.map InputPacket.command
  | done => True

namespace Predicts

variable {pr : Process} {inputs : List (PredictedInput F32)}

/-- A datagram is received. -/
theorem receive (h : pr.Predicts inputs) (wallMs : UInt64) (payload : List UInt8) :
    (pr.receive wallMs payload).Predicts inputs := by
  cases pr with
  | idle => exact h
  | done => exact h
  | joining noPrediction noInterpolation =>
    obtain ⟨rfl, rfl⟩ := h
    unfold Process.receive
    dsimp only
    split
    · exact ⟨rfl, rfl⟩
    · next id _ =>
      split
      · trivial
      · exact ⟨Client.predicts_init id noInterpolation, rfl⟩
  | playing p =>
    unfold Process.receive
    dsimp only
    split
    · exact h
    · exact h

/-- The other parts of the main loop, except switching prediction off. -/
theorem act (h : pr.Predicts inputs) {ev : Cl.Event F32} (hev : ev ≠ .togglePrediction) :
    (pr.act ev).Predicts inputs := by
  cases pr with
  | idle => exact h
  | done => exact h
  | joining => exact h
  | playing p =>
    unfold Process.act
    dsimp only
    split
    · exact absurd rfl hev
    · next nowMs order =>
      have hquiet : p.client.Predictable inputs.length (.prune nowMs order) := trivial
      have hstep := h.1.step hquiet
      change Client.Predicts _ (inputs ++ []) at hstep
      rw [List.append_nil] at hstep
      exact ⟨hstep, h.2⟩
    · exact h

end Predicts
end Process

/-- A record that a client stores acknowledges what the snapshot does. -/
theorem mark_snapshot {c : Client F32} {ss : StampedSnapshot F32} {nowMs : UInt64}
    {order : UMap.Traversal UInt32 (PendingInputSample F32)} {ack : UInt32}
    (h : ss.snap.Acks c.myPid ack) :
    (c.step (.snapshot ss nowMs order)).base.mark = ack.toNat := by
  obtain ⟨hnodup, auth, hauth, hid, hack⟩ := h
  have hfind := UMap.find?_foldl_assign_of_mem PlayerState.id _ c.latestAuthoritative auth hauth
    hnodup
  rw [hid] at hfind
  obtain ⟨hmyPid, _⟩ := Client.drainSnapshot_frame ss nowMs order c
  have hstored := (Client.drainSnapshot_stores ss nowMs order c).2.2.1
  have hbase : (c.step (.snapshot ss nowMs order)).base =
      ⟨auth.pos, auth.lastProcessedInputSeq.toNat⟩ :=
    Client.base_of_some (hmyPid.symm ▸ hstored ▸ hfind)
  rw [hbase, hack]

/-- A snapshot of its own acknowledges no input that the client has not sent. -/
theorem Playing.Numbered.mark_le {p : Playing} (h : p.Numbered) (hn : p.sent.length < 2 ^ 32 - 1)
    {ss : StampedSnapshot F32} (hown : Net.Own p.client.myPid p.sent ss.snap) (nowMs : UInt64)
    (order : UMap.Traversal UInt32 (PendingInputSample F32)) :
    (p.client.step (.snapshot ss nowMs order)).base.mark ≤ p.sent.length := by
  obtain ⟨ack, hacks, hissued⟩ := hown
  have hlt := h.lt_next hn hissued
  rw [h.next, UInt32.lt_iff_toNat_lt, UInt32.toNat_ofNat', Nat.mod_eq_of_lt (by omega)] at hlt
  rw [mark_snapshot hacks]
  omega

namespace Process.Predicts

variable {pr : Process} {inputs : List (PredictedInput F32)}

/-- As many inputs are recorded as sent. -/
theorem length_eq {sent : List InputPacket}
    (h : inputs.map PredictedInput.command = sent.map InputPacket.command) :
    inputs.length = sent.length := by
  simpa using congrArg List.length h

/-- The oldest snapshot of the queue is drained. -/
theorem drain (h : pr.Predicts inputs) {l : Link} (hinv : Inv pr l) (nowMs : UInt64)
    (order : UMap.Traversal UInt32 (PendingInputSample F32))
    (hring : (pr.drain nowMs order).Remembers) : (pr.drain nowMs order).Predicts inputs := by
  cases pr with
  | idle => exact h
  | done => exact h
  | joining => exact h
  | playing p =>
    obtain ⟨hclient, hsent⟩ := h
    have hlen := length_eq hsent
    unfold Process.drain at hring ⊢
    dsimp only at hring ⊢
    split at hring
    · exact ⟨hclient, hsent⟩
    · next ss queue hq =>
      refine ⟨?_, hsent⟩
      have hown := hinv.queue ss (hq ▸ List.mem_cons_self)
      have hmark := hinv.numbered.mark_le (hlen ▸ hclient.bound) hown nowMs order
      have hkept : p.client.Predictable inputs.length (.snapshot ss nowMs order) := by
        rw [hlen]
        exact ⟨hmark, hring⟩
      exact (List.append_nil inputs) ▸ hclient.step hkept

/-- An input is sent. -/
theorem input {p : Playing} (h : (Process.playing p).Predicts inputs)
    (hn : (Process.playing p).Numbers) (mx my : Int8) (dt : Double F32) (nowMs : UInt64)
    (order : UMap.Traversal UInt32 (PendingInputSample F32)) :
    let sent := p.client.sendInput mx my dt nowMs order
    (Process.playing ⟨sent.1, p.queue, p.sent ++ [sent.2]⟩).Predicts
      (inputs ++ (p.client.record (.input mx my dt nowMs order)).toList) := by
  obtain ⟨hclient, hsent⟩ := h
  have hn : p.client.Predictable inputs.length (.input mx my dt nowMs order) := by
    rw [length_eq hsent]
    exact hn
  refine ⟨hclient.step hn, ?_⟩
  rw [List.map_append, List.map_append, hsent, Client.command_record hclient.enabled]
  rfl

end Process.Predicts

namespace Conditioned

variable {D : Type} {Q : PriorityQueue Pending Pending.deliverAtUs}

/-- Input that the client at an endpoint records with an action. -/
def record (e : Endpoint) (c : Conditioned D Q) : Action D → Option (PredictedInput F32)
  | .input src mx my dt nowMs order _ =>
    match c.process src with
    | .playing p => if src = e then p.client.record (.input mx my dt nowMs order) else none
    | _ => none
  | _ => none

variable [FloatOps D]

/-- Inputs that the client at an endpoint records in a run, in order. -/
def recorded (e : Endpoint) (c : Conditioned D Q) : List (Action D) → List (PredictedInput F32)
  | [] => []
  | a :: as => (c.record e a).toList ++ recorded e (c.step a) as

/-- Inputs recorded up to one more action. -/
theorem recorded_concat (e : Endpoint) (c : Conditioned D Q) (as : List (Action D))
    (a : Action D) :
    c.recorded e (as ++ [a]) = c.recorded e as ++ ((c.run as).record e a).toList := by
  induction as generalizing c with
  | nil => exact List.append_nil _
  | cons a' as ih =>
    rw [List.cons_append, recorded, ih, recorded, List.append_assoc]
    rfl

/-- An action after which the client at an endpoint still predicts: it starts with prediction on
and does not switch it off, its ring has not lost an input that is not acknowledged when it
drains a snapshot, and its numbers do not wrap. -/
def Steady (e : Endpoint) (c : Conditioned D Q) : Action D → Prop
  | .start src noPrediction _ _ => src = e → noPrediction = false
  | .act src ev => src = e → ev ≠ .togglePrediction
  | .drain src nowMs order => src = e → ((c.process src).drain nowMs order).Remembers
  | .input src _ _ _ _ _ _ => src = e → (c.process src).Numbers
  | _ => True

omit [FloatOps D] in
/-- A change of one process that goes on predicting. -/
theorem predicts_become {c : Conditioned D Q} {e : Endpoint} {inputs : List (PredictedInput F32)}
    (h : (c.process e).Predicts inputs) (src : Endpoint) {pr : Process}
    {more : List (PredictedInput F32)} (hsrc : src = e → pr.Predicts (inputs ++ more))
    (hne : src ≠ e → more = []) : ((c.become src pr).process e).Predicts (inputs ++ more) := by
  change Process.Predicts _ (Function.update c.process src pr e)
  rw [Function.update_apply]
  split
  · next he => exact hsrc he.symm
  · next he =>
    rw [hne (Ne.symm he), List.append_nil]
    exact h

/-- Every action that leaves the client to itself. -/
theorem predicts_step {c : Conditioned D Q} {e : Endpoint} {inputs : List (PredictedInput F32)}
    (h : (c.process e).Predicts inputs) {l : Link} (hinv : Inv (c.process e) l) (a : Action D)
    (ha : c.Steady e a) :
    ((c.step a).process e).Predicts (inputs ++ (c.record e a).toList) := by
  have hsame {c' : Conditioned D Q} (hc' : c'.process = c.process) :
      (c'.process e).Predicts (inputs ++ []) := by
    rw [hc', List.append_nil]
    exact h
  have hbecome {c' : Conditioned D Q} (hc' : c'.process = c.process) (src : Endpoint)
      {pr : Process} (hsrc : src = e → pr.Predicts inputs) :
      ((c'.become src pr).process e).Predicts (inputs ++ []) :=
    predicts_become (hc' ▸ h) src (fun he ↦ (List.append_nil inputs).symm ▸ hsrc he) fun _ ↦ rfl
  cases a with
  | start src noPrediction noInterpolation tx =>
    unfold Conditioned.step
    dsimp only
    split
    · next hidle =>
      rw [send, (exec_frame _ _ _).1]
      refine hbecome rfl src ?_
      rintro rfl
      rw [hidle] at h
      exact ⟨ha rfl, h⟩
    · exact hsame rfl
  | giveUp src =>
    unfold Conditioned.step
    dsimp only
    split
    · exact hbecome rfl src fun _ ↦ trivial
    · exact hsame rfl
  | drain src nowMs order =>
    refine hbecome rfl src ?_
    rintro rfl
    exact h.drain hinv nowMs order (ha rfl)
  | act src ev =>
    refine hbecome rfl src ?_
    rintro rfl
    exact h.act (ha rfl)
  | input src mx my dt nowMs order tx =>
    unfold Conditioned.step record
    dsimp only
    cases hp : c.process src with
    | playing p =>
      dsimp only
      rw [send, (exec_frame _ _ _).1]
      refine predicts_become h src ?_ fun hne ↦ by rw [if_neg hne]; rfl
      rintro rfl
      have hn : (c.process src).Numbers := ha rfl
      rw [hp] at h hn
      rw [if_pos rfl]
      exact h.input hn mx my dt nowMs order
    | _ => exact hsame rfl
  | quit src tx pumpUs =>
    unfold Conditioned.step
    dsimp only
    split
    · rw [(exec_frame _ _ _).1, send, (exec_frame _ _ _).1]
      exact hbecome rfl src fun _ ↦ trivial
    · exact hsame rfl
  | close src =>
    unfold Conditioned.step
    dsimp only
    split <;> exact hsame rfl
  | pump src nowUs => exact hsame (exec_frame _ _ _).1
  | read src a =>
    unfold Conditioned.step
    dsimp only
    split
    · exact hsame (exec_frame _ _ _).1
    · exact hsame rfl
  | search src flushUs scanUs =>
    unfold Conditioned.step
    dsimp only
    split
    · exact hsame (exec_frame _ _ _).1
    · exact hsame rfl
  | handle src wallMs =>
    unfold Conditioned.step
    dsimp only
    split
    · exact hsame rfl
    · next x _ =>
      refine hbecome rfl src ?_
      rintro rfl
      exact h.receive wallMs x.bytes
  | readServer a =>
    unfold Conditioned.step
    dsimp only
    split <;> exact hsame rfl
  | searchServer now flushUs scanUs tx =>
    unfold Conditioned.step
    dsimp only
    split <;> exact hsame rfl
  | pumpServer | tick | loseToServer | loseToClient => exact hsame rfl

/-- Every process is in the invariant of its endpoint with some link. -/
theorem exists_inv (serverEp : Endpoint) (cfg : Endpoint → LaggedSocketConfig D)
    (serverCfg : LaggedSocketConfig D) (as : List (Action D)) (e : Endpoint) :
    ∃ l, Inv (((init serverEp cfg serverCfg : Conditioned D Q).run as).process e) l := by
  obtain ⟨acts, h, _⟩ := (refines_init (Q := Q) serverEp cfg serverCfg).run as
  rw [h.process]
  exact ⟨_, System.holds_run acts e⟩

/-- Every run that leaves the client to itself. -/
theorem predicts_reached (serverEp : Endpoint) (cfg : Endpoint → LaggedSocketConfig D)
    (serverCfg : LaggedSocketConfig D) (as : List (Action D)) (e : Endpoint)
    (h : let start : Conditioned D Q := init serverEp cfg serverCfg
      EveryStep (fun past a ↦ (start.run past).Steady e a) as) :
    let start : Conditioned D Q := init serverEp cfg serverCfg
    ((start.run as).process e).Predicts (start.recorded e as) := by
  intro start
  induction as using List.reverseRecOn with
  | nil => rfl
  | append_singleton as a ih =>
    obtain ⟨l, hinv⟩ := exists_inv (Q := Q) serverEp cfg serverCfg as e
    have hrun : start.run (as ++ [a]) = (start.run as).step a := List.foldl_concat ..
    rw [recorded_concat, hrun]
    exact predicts_step (ih h.init) hinv a h.last

/-- In every run of the server, its clients and their conditioners, as long as a client predicts
and its ring suffices, its position is what the inputs that it has sent and that are not
acknowledged make of the record that it has, and this record acknowledges only inputs sent. -/
theorem predicted_run (serverEp : Endpoint) (cfg : Endpoint → LaggedSocketConfig D)
    (serverCfg : LaggedSocketConfig D) (as : List (Action D)) (e : Endpoint)
    (h : let start : Conditioned D Q := init serverEp cfg serverCfg
      EveryStep (fun past a ↦ (start.run past).Steady e a) as) :
    let start : Conditioned D Q := init serverEp cfg serverCfg
    let inputs := start.recorded e as
    ∀ p, (start.run as).process e = .playing p →
      inputs.map PredictedInput.command = p.sent.map InputPacket.command ∧
      p.client.base.mark ≤ p.sent.length ∧
      p.client.localPos = p.client.base.replay PredictedInput.move inputs := by
  intro start inputs p hp
  have hpredicts := predicts_reached (Q := Q) serverEp cfg serverCfg as e h
  change ((start.run as).process e).Predicts inputs at hpredicts
  rw [hp] at hpredicts
  obtain ⟨hclient, hsent⟩ := hpredicts
  exact ⟨hsent, Process.Predicts.length_eq hsent ▸ hclient.mark, hclient.localPos⟩

end Conditioned
end

end Net

/-! ### A client that is told of its first input -/

/-- Magnitude of a finite `float`, as a multiple of `2 ^ -149`. -/
def F32.units (a : F32) : ℕ :=
  let n := a.bits.toNat % 2 ^ 31
  if n < 2 ^ 23 then n else (2 ^ 23 + n % 2 ^ 23) * 2 ^ (n / 2 ^ 23 - 1)

/-- The `float` nearest to a fraction of such multiples. -/
def F32.nearest (num den : ℕ) : F32 :=
  let e := (num / den).log2 - 23
  ⟨UInt32.ofNat (e * 2 ^ 23 + (2 * num + den * 2 ^ e) / (2 * den * 2 ^ e))⟩

/-- Rational numbers in the place of `double`. -/
@[reducible] def rationals : FloatOps ℚ where
  ofInt n := n
  lt a b := a < b
  sqrt a := (a.num.toNat * a.den).sqrt / a.den

/-- The arithmetic of `float` on numbers that are not negative, rounded to the nearest one; a
difference stops at zero. -/
@[reducible] def F32.nonneg : FloatArith F32 where
  add a b := if b.bits = 0 then a else .nearest (a.units + b.units) 1
  sub a b := .nearest (a.units - b.units) 1
  mul a b := if a.bits = 0 then a else .nearest (a.units * b.units) (2 ^ 149)
  div a b := .nearest (a.units * 2 ^ 149) b.units
  ofInt n := .nearest (n.toNat * 2 ^ 149) 1
  lt a b := a.bits < b.bits
  sqrt a := .nearest (a.units * 2 ^ 149).sqrt 1
  Double := ℚ
  doubleOps := rationals
  ofDouble d := .nearest (d.num.toNat * 2 ^ 149) d.den

example : let _ := F32.nonneg; (ofDouble (dtSeconds F32) : F32).bits = 0x3C888889 := by
  decide +kernel

namespace Net

/-- A process in its main loop that meets a condition. -/
def Process.Plays [FloatArith F32] (P : Playing → Prop) : Process → Prop
  | playing p => P p
  | _ => False

instance [FloatArith F32] (P : Playing → Prop) [DecidablePred P] (pr : Process) :
    Decidable (pr.Plays P) :=
  match pr with
  | .idle => .isFalse id
  | .joining _ _ => .isFalse id
  | .playing p => inferInstanceAs (Decidable (P p))
  | .done => .isFalse id

/-- The client of a process in its main loop. -/
theorem Process.Plays.exists [FloatArith F32] {P : Playing → Prop} {pr : Process}
    (h : pr.Plays P) : ∃ p, pr = .playing p ∧ P p := by
  cases pr with
  | playing p => exact ⟨p, rfl, h⟩
  | _ => exact h.elim

namespace Conditioned

section

variable {D : Type} [FloatOps D] [FloatArith F32]

/-- A datagram reaches the server. -/
def serving (e : Endpoint) (payload : List UInt8) : List (Action D) :=
  [.readServer (arrival e payload), .searchServer 0 0 0 fun _ ↦ still]

/-- A datagram of the server reaches a process. -/
def taking (e : Endpoint) (payload : List UInt8) : List (Action D) :=
  [.read e (arrival ⟨9, 9⟩ payload), .search e 0 0, .handle e 0]

/-- A client joins, sends two inputs and receives a snapshot that acknowledges the first of them. -/
def telling (e : Endpoint) : List (Action D) :=
  let accept := encodeJoinAccept (fun _ ↦ 0) 32
    (⟨1, arenaWidth F32, arenaHeight F32⟩ : JoinAccept F32)
  let told := encodeSnapshot (fun _ ↦ 0) maxSnapshotBytes
    (⟨3, [⟨1, ⟨ofInt 652, ofInt 360⟩, ⟨ofInt 240, ofInt 0⟩, 1⟩]⟩ : Snapshot F32)
  let tick : Action D := .tick 0 .sorted fun _ ↦ still
  [.start e false false still] ++ serving e joinBytes ++ taking e (accept.1.bytes accept.2) ++
    [.input e 1 0 (dtSeconds F32) 0 PendingInputSample.sorted still,
      .input e 0 1 (dtSeconds F32) 16 PendingInputSample.sorted still] ++
    serving e (inputBytes ⟨1, 1, 1, 0⟩) ++ [tick, tick, tick] ++ taking e (told.1.bytes told.2) ++
    [.drain e 20 PendingInputSample.sorted]

end

section

local instance : FloatOps ℤ := LaggedSocketConfig.wholeLoss

local instance : FloatArith F32 := F32.nonneg

/-- Sockets without conditioning. -/
def plain : Conditioned ℤ (.newestFirst Pending.deliverAtUs) :=
  init ⟨9, 9⟩ (fun _ ↦ ⟨0, 0, 0, 0⟩) ⟨0, 0, 0, 0⟩

/-- The client has drained the record, and moves on from it by its second input. -/
theorem telling_drained : ((plain.run (telling ⟨1, 1⟩)).process ⟨1, 1⟩).Plays fun p ↦
    p.sent.length = 2 ∧ (p.client.base.state = ⟨ofInt 652, ofInt 360⟩ ∧ p.client.base.mark = 1) ∧
    p.client.localPos = ⟨ofInt 652, ofInt 364⟩ := by
  decide +kernel

/-- Each step leaves the client to itself. -/
theorem steady_telling : EveryStep (fun past a ↦ (plain.run past).Steady ⟨1, 1⟩ a)
    (telling ⟨1, 1⟩) := by
  refine .cons (fun _ ↦ rfl) ?_
  iterate 5 refine .cons trivial ?_
  refine .cons (fun _ ↦ by decide +kernel) (.cons (fun _ ↦ by decide +kernel) ?_)
  iterate 8 refine .cons trivial ?_
  exact .cons (fun _ ↦ by decide +kernel) .nil

/-- A client that has moved right and down, of which the server knows the first. -/
theorem predicted_run_two : ∃ p, (plain.run (telling ⟨1, 1⟩)).process ⟨1, 1⟩ = .playing p ∧
    p.client.base = ⟨⟨ofInt 652, ofInt 360⟩, 1⟩ ∧
    p.client.localPos = ⟨ofInt 652, ofInt 364⟩ ∧
    let inputs := plain.recorded ⟨1, 1⟩ (telling ⟨1, 1⟩)
    (inputs.map PredictedInput.command = p.sent.map InputPacket.command ∧ inputs.length = 2) ∧
    p.client.base.mark ≤ p.sent.length ∧
    p.client.localPos = p.client.base.replay PredictedInput.move inputs := by
  have hplain : init ⟨9, 9⟩ (fun _ ↦ ⟨0, 0, 0, 0⟩) ⟨0, 0, 0, 0⟩ = plain := rfl
  have hrun := predicted_run (D := ℤ) (Q := .newestFirst _) ⟨9, 9⟩ (fun _ ↦ ⟨0, 0, 0, 0⟩)
    ⟨0, 0, 0, 0⟩ (telling ⟨1, 1⟩) ⟨1, 1⟩
  rw [hplain] at hrun
  obtain ⟨p, hp, hsent, ⟨hstate, hmark⟩, hpos⟩ := telling_drained.exists
  obtain ⟨hcommands, hle, hlocal⟩ := hrun steady_telling p hp
  have hlen := congrArg List.length hcommands
  rw [List.length_map, List.length_map, hsent] at hlen
  refine ⟨p, hp, ?_, hpos, ⟨hcommands, hlen⟩, hle, hlocal⟩
  rw [← hstate, ← hmark]

end

end Conditioned
end Net
end LightningLink
