import LightningLink.Network.Projection
import LightningLink.Server.Obedience

/-!
# Who steers a player

Library `Network`. As long as a client plays, the server moves its player in the direction of
the newest of its inputs that have arrived, in whatever order and however late they arrive, and
lets it stand while none has. No other client and no earlier owner of the id has a part in it.
-/

namespace LightningLink.Net

open Support Proto Srv Cl FloatArith

section

variable [FloatArith F32]

/-- An event keeps a member obeying the inputs delivered to it. -/
theorem obeys_step {v : ValidServer F32} {e : Endpoint} {m m' : Member F32} {ips : List InputPacket}
    (h : Obeys (ips.map InputPacket.command) m.player) (hm : v.server.member e = some m)
    (ev : Srv.Event F32) (hm' : (v.step ev).server.member e = some m') :
    Obeys ((ips ++ (ev.delivers e m.session.playerId).toList).map InputPacket.command)
      m'.player := by
  have hv : (v.step ev).server.member e = _ := (memberView e).view_step_of_some ev hm
  rw [hm'] at hv
  cases hi : ev.inputOf e with
  | none =>
    rw [show (memberView e).input ev = none from hi] at hv
    rw [Srv.Event.delivers, hi, Option.some.inj hv]
    exact (List.append_nil ips).symm ▸ h
  | some i =>
    rw [show (memberView e).input ev = some i from hi] at hv
    rw [Srv.Event.delivers, hi, Option.bind_some]
    cases hdel : i.delivers m.session.playerId with
    | none => exact (List.append_nil ips).symm ▸ h.of_controls (Member.next_of_none hv.symm hdel)
    | some ip =>
      rw [Member.next_of_delivers hv.symm hdel, List.map_append]
      exact h.input ip.command

/-! ### What the server hears from a process -/

omit [FloatArith F32] in
/-- What is delivered from an endpoint is heard from it. -/
theorem mem_heard_of_delivered {e : Endpoint} {id : UInt16} {evs : List (Srv.Event F32)}
    {ip : InputPacket} (h : ip ∈ delivered e id evs) :
    ∃ payload ∈ heard e evs, Packet.read payload = some (.input ip) := by
  obtain ⟨ev, hev, hdel⟩ := List.mem_filterMap.mp h
  obtain ⟨_, now, payload, rfl, hr⟩ := (Srv.Event.delivers_eq_some_iff e id ev ip).mp hdel
  exact ⟨payload, Multiset.mem_coe.mpr (List.mem_filterMap.mpr ⟨_, hev, if_pos rfl⟩), hr⟩

omit [FloatArith F32] in
/-- From a process that has not played the server hears no input. -/
theorem delivered_eq_nil {e : Endpoint} {id : UInt16} {evs : List (Srv.Event F32)}
    (h : heard e evs ≤ {joinBytes}) : delivered e id evs = [] := by
  refine List.eq_nil_iff_forall_not_mem.mpr fun ip hip ↦ ?_
  obtain ⟨payload, hmem, hr⟩ := mem_heard_of_delivered hip
  rw [Multiset.mem_singleton.mp (Multiset.mem_of_le h hmem), read_joinBytes] at hr
  cases hr

omit [FloatArith F32] in
/-- Inputs are delivered no more often than they are heard. -/
theorem delivered_le (e : Endpoint) (id : UInt16) (evs : List (Srv.Event F32)) :
    (delivered e id evs : Multiset InputPacket) ≤ heardInputs e evs := by
  induction evs using List.reverseRecOn with
  | nil => exact Multiset.zero_le _
  | append_singleton evs ev ih =>
    rw [delivered, List.filterMap_append, ← Multiset.coe_add, heardInputs_concat]
    refine add_le_add ih ?_
    cases hdel : ev.delivers e id with
    | none =>
      rw [List.filterMap_cons_none hdel]
      exact Multiset.zero_le _
    | some ip =>
      obtain ⟨_, now, payload, rfl, hr⟩ := (Srv.Event.delivers_eq_some_iff e id ev ip).mp hdel
      have hheard : (heardBy e (.datagram now e payload : Srv.Event F32)).bind inputIn =
          some ip := by
        rw [show heardBy e (.datagram now e payload) = some payload from if_pos rfl,
          Option.bind_some, inputIn, hr]
      rw [List.filterMap_cons_some hdel, hheard]
      exact le_rfl

namespace System

/-- What is delivered from an endpoint for the id of its member steers this member, unless the
process there has left. -/
def Steered (s : System) (evs : List (Srv.Event F32)) (e : Endpoint) : Prop :=
  s.process e ≠ .done → ∀ m, s.server.server.member e = some m →
    Obeys ((delivered e m.session.playerId evs).map InputPacket.command) m.player

/-- A process that has left does not come back. -/
theorem done_step {s : System} {e : Endpoint} (h : s.process e = .done) (a : Action) :
    (s.step a).process e = .done := by
  have hbecome {s' : System} (hs' : s'.process = s.process) (src : Endpoint) (pr : Process)
      (sends : List (List UInt8)) (hpr : src = e → pr = .done) :
      (s'.become src pr sends).process e = .done := by
    unfold System.become
    dsimp only
    rw [Function.update_apply]
    split
    · next he => exact hpr he.symm
    · exact hs' ▸ h
  cases a with
  | start src noPrediction noInterpolation =>
    unfold System.step
    dsimp only
    split
    · next hidle => exact hbecome rfl src _ _ fun he ↦ by rw [he, h] at hidle; cases hidle
    · exact h
  | giveUp src =>
    unfold System.step
    dsimp only
    split
    · exact hbecome rfl src _ _ fun _ ↦ rfl
    · exact h
  | drain src nowMs order => exact hbecome rfl src _ _ fun he ↦ by rw [he, h]; rfl
  | act src ev => exact hbecome rfl src _ _ fun he ↦ by rw [he, h]; rfl
  | input src mx my dt nowMs order =>
    unfold System.step
    dsimp only
    split
    · next p hp => exact hbecome rfl src _ _ fun he ↦ by rw [he, h] at hp; cases hp
    · exact h
  | quit src =>
    unfold System.step
    dsimp only
    split
    · exact hbecome rfl src _ _ fun _ ↦ rfl
    · exact h
  | deliver d now =>
    unfold System.step
    dsimp only
    split
    · exact h
    · exact h
  | receive d wallMs =>
    unfold System.step
    dsimp only
    split
    · have hsame : { s with toClients := s.toClients.erase d }.process = s.process := rfl
      exact hbecome hsame d.endpoint _ [] fun he ↦ by rw [he, h]; rfl
    · exact h
  | loseToServer d => exact h
  | loseToClient d => exact h
  | tick now order => exact h

/-- An action that serves an event changes the server by it and no process. -/
theorem step_of_serves {s : System} {a : Action} {ev : Srv.Event F32}
    (h : s.serves a = some ev) :
    (s.step a).process = s.process ∧ (s.step a).server = s.server.step ev ∧
      ∀ e, ev.Joins e → ∃ payload ∈ (s.link e).up, ∃ jr,
        Packet.read payload = some (.joinRequest jr) := by
  cases a with
  | tick now order =>
    obtain rfl := Option.some.inj h
    exact ⟨rfl, rfl, fun e hj ↦ hj.elim⟩
  | deliver d now =>
    change (if d ∈ s.toServer then _ else none) = some ev at h
    split at h
    · next hd =>
      obtain rfl := Option.some.inj h
      refine ⟨?_, ?_, ?_⟩
      · rw [System.step, if_pos hd]
        rfl
      · rw [System.step, if_pos hd]
        rfl
      · rintro e ⟨rfl, hr⟩
        exact ⟨d.payload, (mem_payloads _ _ _).mpr hd, hr⟩
    · cases h
  | _ => cases h

/-- Other actions leave the server. -/
theorem server_of_not_serves {s : System} {a : Action} (h : s.serves a = none) :
    (s.step a).server = s.server := by
  cases a with
  | tick now order => cases h
  | deliver d now =>
    change (if d ∈ s.toServer then some _ else none) = none at h
    split at h
    · cases h
    · next hd => rw [System.step, if_neg hd]
  | drain | act | loseToServer | loseToClient => rfl
  | _ =>
    unfold System.step
    dsimp only
    split <;> rfl

/-- Every action keeps the members steered. -/
theorem Steered.step {s : System} {evs : List (Srv.Event F32)} {e : Endpoint}
    {did : Endpoint → List (Cl.Event F32)} (h : s.Steered evs e) (hsplits : s.Splits evs did)
    (hholds : s.Holds e) (a : Action) :
    (s.step a).Steered (evs ++ (s.serves a).toList) e := by
  intro hplays m' hm'
  have hplayed : s.process e ≠ .done := fun hdone ↦ hplays (done_step hdone a)
  cases hserves : s.serves a with
  | none =>
    rw [server_of_not_serves hserves] at hm'
    exact (List.append_nil evs).symm ▸ h hplayed m' hm'
  | some ev =>
    obtain ⟨hprocess, hserver, hjoins⟩ := step_of_serves hserves
    rw [hserver] at hm'
    cases hm : s.server.server.member e with
    | some m =>
      rw [Option.toList_some, delivered, List.filterMap_append,
        ((s.server.member_step ev e hm hm').1)]
      have hstep := obeys_step (h hplayed m hm) hm ev hm'
      cases hdel : ev.delivers e m.session.playerId with
      | none =>
        rw [hdel] at hstep
        rwa [List.filterMap_cons_none hdel]
      | some ip =>
        rw [hdel] at hstep
        rwa [List.filterMap_cons_some hdel]
    | none =>
      have hjoin : ev.Joins e := by
        by_contra hno
        have hnone : (s.server.step ev).server.member e = none :=
          s.server.wf.member_none ev e hm hno
        rw [hnone] at hm'
        cases hm'
      obtain ⟨payload, hup, jr, hr⟩ := hjoins e hjoin
      obtain ⟨out, taken, hdid, hheard, _⟩ := (hsplits.step a).2 e
      rw [hprocess] at hdid
      rw [hserves] at hheard
      have hle := (Multiset.le_add_right _ _).trans hheard
      have hnone : delivered e m'.session.playerId (evs ++ [ev]) = [] := by
        refine delivered_eq_nil (hle.trans (hdid.out_le (fun p hp ↦ ?_) hplayed))
        rw [Holds, hp] at hholds
        exact Link.Owns.noJoin hholds.owns payload hup jr hr
      rw [Option.toList_some, hnone, s.server.wf.member_new ev e hm hm']
      exact obeys_spawn _

/-- Every run keeps the members steered. -/
theorem Steered.run {s : System} {evs : List (Srv.Event F32)} {e : Endpoint}
    {did : Endpoint → List (Cl.Event F32)} (h : s.Steered evs e) (hsplits : s.Splits evs did)
    (hholds : s.Holds e) (as : List Action) :
    (s.run as).Steered (evs ++ s.history as) e := by
  induction as generalizing s evs did with
  | nil => exact (List.append_nil evs).symm ▸ h
  | cons a as ih =>
    rw [history, ← List.append_assoc]
    exact ih (h.step hsplits hholds a) (hsplits.step a) (hholds.step a)

end System

/-! ### Behind conditioners -/

/-- A client in its main loop steers its player: the server has applied its inputs only, none
of them more often than sent, and the record has the direction of the newest one. -/
def Process.Steers (evs : List (Srv.Event F32)) (e : Endpoint) (member : Option (Member F32)) :
    Process → Prop
  | .playing p =>
    (delivered e p.client.myPid evs : Multiset InputPacket) ≤ (p.sent : Multiset InputPacket) ∧
      ∀ m, member = some m → m.session.playerId = p.client.myPid ∧
        Obeys ((delivered e p.client.myPid evs).map InputPacket.command) m.player
  | _ => True

/-- In every run of the server, its clients and their conditioners, every client in its main
loop steers its player, whatever is dropped, delayed or reordered. -/
theorem Conditioned.steers_run {D : Type} [FloatOps D]
    {Q : PriorityQueue Pending Pending.deliverAtUs} (serverEp : Endpoint)
    (cfg : Endpoint → LaggedSocketConfig D) (serverCfg : LaggedSocketConfig D)
    (as : List (Conditioned.Action D)) (e : Endpoint) :
    let start : Conditioned D Q := init serverEp cfg serverCfg
    ((start.run as).process e).Steers (start.history as) e
      ((start.run as).server.server.member e) := by
  intro start
  obtain ⟨acts, h, hhistory, hsplits⟩ := exists_splits (Q := Q) serverEp cfg serverCfg as
  obtain ⟨out, taken, hdid, hheard, _⟩ := hsplits.2 e
  rw [hhistory] at hheard
  rw [show start.history as = _ from hhistory, show (start.run as).process = _ from h.process,
    show (start.run as).server = _ from h.server]
  have hholds := System.holds_run acts e
  have hsteered : (System.init.run acts).Steered (System.init.history acts) e :=
    System.Steered.run (fun _ m hm ↦ by cases hm) System.splits_init (System.holds_run [] e) acts
  revert hdid hholds hsteered
  unfold System.Holds System.Steered
  cases (System.init.run acts).process e with
  | playing p =>
    intro hdid hholds hsteered
    refine ⟨?_, fun m hm ↦ ?_⟩
    · obtain ⟨l, rfl, _, rfl, _⟩ := hdid.exists_life
      exact (delivered_le e _ _).trans
        (l.heardInputs_le ((Multiset.le_add_right _ _).trans hheard))
    · have hid := (Link.Owns.member hholds.owns m hm).1
      exact ⟨hid, hid ▸ hsteered (fun h ↦ by cases h) m hm⟩
  | _ => exact fun _ _ _ ↦ trivial

end
end LightningLink.Net
