import LightningLink.Server.Rejection

/-!
# Timeouts

Library `Server`. The clock reading of a session is the time of the last join request or
verified input of its endpoint since the session was created. With a clock that does not run
backwards a tick therefore removes exactly the sessions of silent endpoints.
-/

namespace LightningLink.Srv

open Support Proto

namespace Event

variable {F : Type}

/-- Clock reading of an event. -/
def clock : Event F → Int
  | .datagram now _ _ => now
  | .tick now _ => now

/-- The clock does not run backwards. -/
def Chronological (evs : List (Event F)) : Prop := evs.Pairwise fun a b ↦ a.clock ≤ b.clock

/-- A join request of the endpoint, or an input of it with the id of its session. -/
def Refreshes (s : Server F) (e : Endpoint) : Event F → Prop
  | .datagram _ src b => src = e ∧ ((∃ jr, (Packet.joinRequest jr).wire <+: b) ∨
    ∃ ip, (Packet.input ip).wire <+: b ∧ s.Owns e ip.playerId)
  | .tick _ _ => False

end Event

namespace SessionManager

/-- Every id is returned once by a reaping. -/
theorem WF.nodup_reapTimeouts {m : SessionManager} (h : m.WF) (now : Int)
    (order : UMap.Traversal Endpoint Session) : (m.reapTimeouts now order).1.Nodup := by
  obtain ⟨hkeys, hmem⟩ := order.enumerates m.sessions
  rw [reapTimeouts_fst]
  refine List.Nodup.map_on ?_ (hkeys.of_map.filter _)
  rintro ⟨a, s⟩ ha ⟨b, t⟩ hb hid
  have hs := (hmem a s).mp (List.mem_of_mem_filter ha)
  have ht := (hmem b t).mp (List.mem_of_mem_filter hb)
  obtain rfl := h.injective hs ht hid
  rw [Option.some.inj (hs.symm.trans ht)]

/-- An id that is not held goes to the next new endpoint, unless a smaller one does. -/
theorem WF.available {m : SessionManager} (h : m.WF) (id : UInt16)
    (hrange : 1 ≤ id.toNat ∧ id.toNat ≤ maxPlayers) (hfree : ¬m.Holds id) (ep : Endpoint)
    (now : Int) (hs : m.byEndpoint ep = none) :
    ∃ j, (m.registerOrGet now ep).1 = some j ∧ j ≤ id ∧
      ((∀ i, 1 ≤ i.toNat → i < id → m.Holds i) → j = id) := by
  cases hr : (m.registerOrGet now ep).1 with
  | none =>
    -- With all ids held, `id` would be held too.
    refine absurd ?_ hfree
    rw [(h.registerOrGet_refused now ep hs).1, size, ← h.nextFreeId_eq_zero_iff] at hr
    exact (h.holds_iff id).mpr (m.isSome_of_nextFreeId_eq_zero hr id hrange.1 hrange.2)
  | some j =>
    obtain ⟨hj, hnot, hsmaller, _⟩ := h.registerOrGet_new now ep hs j hr
    have hle : j ≤ id := by
      by_contra hlt
      exact hfree (hsmaller id hrange.1 (UInt16.not_le.mp hlt))
    refine ⟨j, rfl, hle, fun hall ↦ ?_⟩
    by_contra hne
    exact hnot (hall j hj.1 (UInt16.lt_of_le_of_ne hle hne))

/-- A session in refreshed tables is the refreshed one or an old one. -/
theorem Refreshed.session_cases {m n : SessionManager} {ep : Endpoint} {now : Int}
    (h : m.Refreshed n ep now) {e : Endpoint} {ses : Session} (hs : n.byEndpoint e = some ses) :
    e = ep ∧ ses.lastInputTime = now ∨ e ≠ ep ∧ m.byEndpoint e = some ses := by
  by_cases he : e = ep
  · subst he
    rw [h.session, Option.map_eq_some_iff] at hs
    obtain ⟨s, _, rfl⟩ := hs
    exact Or.inl ⟨rfl, rfl⟩
  · exact Or.inr ⟨he, (h.others e he).symm.trans hs⟩

/-- A session in extended tables is the added one or an old one. -/
theorem Added.session_cases {m n : SessionManager} {s : Session} (h : m.Added n s) {e : Endpoint}
    {ses : Session} (hs : n.byEndpoint e = some ses) :
    e = s.endpoint ∧ ses = s ∨ e ≠ s.endpoint ∧ m.byEndpoint e = some ses := by
  by_cases he : e = s.endpoint
  · rw [he, h.session, Option.some.injEq] at hs
    exact Or.inl ⟨he, hs.symm⟩
  · exact Or.inr ⟨he, (h.others e he).symm.trans hs⟩

end SessionManager

namespace Server

variable {F : Type} [FloatArith F] [FloatBits F]

/-- A session after an event was refreshed by it, or was there before. -/
theorem WF.session_step {s : Server F} (h : s.WF) (ev : Event F) (e : Endpoint) (ses : Session)
    (hs : (s.step ev).sessions.byEndpoint e = some ses) :
    ev.Refreshes s e ∧ ses.lastInputTime = ev.clock ∨
      ¬ev.Refreshes s e ∧ s.sessions.byEndpoint e = some ses := by
  cases ev with
  | tick now order =>
    refine Or.inr ⟨id, ?_⟩
    change (s.tickAndMaybeBroadcast now order).1.sessions.sessions.find? e = some ses at hs
    rw [sessions_tick, SessionManager.sessions_reapTimeouts, Option.filter_eq_some_iff] at hs
    exact hs.1
  | datagram now src b =>
    change (s.handle (.datagram now src b)).1.sessions.byEndpoint e = some ses at hs
    by_cases hacc : s.Accepts src b
    · cases hacc with
      | join jr hb hroom =>
        rw [s.handle_of_wire now src b (.joinRequest jr) trivial hb] at hs
        cases hsrc : s.sessions.byEndpoint src with
        | some old =>
          have hknown := (h.join_refreshes now src (Option.isSome_iff_exists.mpr ⟨old, hsrc⟩)).1
          rcases hknown.session_cases hs with ⟨rfl, ht⟩ | ⟨hne, hold⟩
          · exact Or.inl ⟨⟨rfl, Or.inl ⟨jr, hb⟩⟩, ht⟩
          · exact Or.inr ⟨fun hr ↦ hne hr.1.symm, hold⟩
        | none =>
          rw [hsrc] at hroom
          have hlt := hroom.resolve_left Bool.false_ne_true
          obtain ⟨id, hadded, _⟩ := h.join_adds now src hsrc hlt
          rcases hadded.session_cases hs with ⟨rfl, rfl⟩ | ⟨hne, hold⟩
          · exact Or.inl ⟨⟨rfl, Or.inl ⟨jr, hb⟩⟩, rfl⟩
          · exact Or.inr ⟨fun hr ↦ hne hr.1.symm, hold⟩
      | input ip hb ho =>
        rw [s.handle_of_wire now src b (.input ip) trivial hb] at hs
        rcases (s.input_changes now src ip ho).1.session_cases hs with ⟨rfl, ht⟩ | ⟨hne, hold⟩
        · exact Or.inl ⟨⟨rfl, Or.inr ⟨ip, hb, ho⟩⟩, ht⟩
        · exact Or.inr ⟨fun hr ↦ hne hr.1.symm, hold⟩
      | disconnect dn hb ho =>
        rw [s.handle_of_wire now src b (.disconnect dn) trivial hb] at hs
        obtain ⟨own, hown, hid⟩ := ho
        have hremoved := (h.disconnect_removes src dn own hown hid).1
        have hsrc : own.endpoint = src := h.sessions.endpoint src own hown
        have hne : e ≠ own.endpoint := by
          rintro rfl
          rw [hremoved.absent] at hs
          cases hs
        refine Or.inr ⟨fun hr ↦ hne (hr.1.symm.trans hsrc.symm), ?_⟩
        exact (hremoved.others e hne).trans hs
    · rw [h.rejected now src b hacc] at hs
      refine Or.inr ⟨?_, hs⟩
      rintro ⟨rfl, ⟨jr, hb⟩ | ⟨ip, hb, ho⟩⟩
      · exact hacc (.join jr hb (Or.inl (Option.isSome_iff_exists.mpr ⟨ses, hs⟩)))
      · exact hacc (.input ip hb ho)

/-! ### Activity since the session was created -/

/-- A refresh of the endpoint's session at time `t` in a run after which the session has
stayed there. -/
def RefreshedAt (evs : List (Event F)) (e : Endpoint) (t : Int) : Prop :=
  ∃ past ev rest, evs = past ++ ev :: rest ∧ ev.Refreshes (init.run past) e ∧ ev.clock = t ∧
    ∀ mid, mid <+: rest → ((init.run (past ++ ev :: mid)).sessions.byEndpoint e).isSome

/-- One event more. -/
theorem refreshedAt_concat (evs : List (Event F)) (ev : Event F) (e : Endpoint) (t : Int) :
    RefreshedAt (evs ++ [ev]) e t ↔
      (((init.run (evs ++ [ev]) : Server F).sessions.byEndpoint e).isSome) ∧
        (ev.Refreshes (init.run evs) e ∧ ev.clock = t ∨ RefreshedAt evs e t) := by
  constructor
  · rintro ⟨past, ev', rest, heq, hr, ht, halive⟩
    have hnow := halive rest List.prefix_rfl
    rw [← heq] at hnow
    refine ⟨hnow, ?_⟩
    rcases List.eq_nil_or_concat rest with rfl | ⟨rest, last, rfl⟩
    · obtain ⟨rfl, hev⟩ := List.append_inj' heq rfl
      obtain rfl := List.singleton_inj.mp hev
      exact Or.inl ⟨hr, ht⟩
    · rw [List.concat_eq_append] at heq halive
      rw [← List.cons_append, ← List.append_assoc] at heq
      obtain ⟨rfl, _⟩ := List.append_inj' heq rfl
      exact Or.inr ⟨past, ev', rest, rfl, hr, ht,
        fun mid hmid ↦ halive mid (hmid.trans (List.prefix_append _ _))⟩
  · rintro ⟨hnow, ⟨hr, ht⟩ | ⟨past, ev', rest, rfl, hr, ht, halive⟩⟩
    · refine ⟨evs, ev, [], rfl, hr, ht, fun mid hmid ↦ ?_⟩
      rw [List.prefix_nil.mp hmid]
      exact hnow
    · refine ⟨past, ev', rest ++ [ev], by simp, hr, ht, fun mid hmid ↦ ?_⟩
      rcases List.prefix_concat_iff.mp hmid with rfl | hmid
      · rwa [← List.cons_append, ← List.append_assoc]
      · exact halive mid hmid

/-- A refresh is an event of the run. -/
theorem RefreshedAt.exists_mem {evs : List (Event F)} {e : Endpoint} {t : Int}
    (h : RefreshedAt evs e t) : ∃ ev ∈ evs, ev.clock = t := by
  obtain ⟨past, ev, rest, rfl, _, ht, _⟩ := h
  exact ⟨ev, by simp, ht⟩

/-- The clock reading of a session is that of a refresh since it was created. -/
theorem refreshedAt_lastInputTime (evs : List (Event F)) (e : Endpoint) (ses : Session)
    (hs : (init.run evs : Server F).sessions.byEndpoint e = some ses) :
    RefreshedAt evs e ses.lastInputTime := by
  induction evs using List.reverseRecOn with
  | nil => cases hs
  | append_singleton evs ev ih =>
    rw [refreshedAt_concat, hs]
    refine ⟨rfl, ?_⟩
    rw [run_concat] at hs
    rcases (wf_init.run evs).session_step ev e ses hs with ⟨hr, ht⟩ | ⟨_, hold⟩
    · exact Or.inl ⟨hr, ht.symm⟩
    · exact Or.inr (ih hold)

/-- With a clock that does not run backwards no refresh is later. -/
theorem le_lastInputTime_of_refreshedAt (evs : List (Event F))
    (hclock : Event.Chronological evs) (e : Endpoint) (ses : Session)
    (hs : (init.run evs : Server F).sessions.byEndpoint e = some ses) (t : Int)
    (ht : RefreshedAt evs e t) : t ≤ ses.lastInputTime := by
  induction evs using List.reverseRecOn with
  | nil => cases hs
  | append_singleton evs ev ih =>
    obtain ⟨hpast, _, hle⟩ := List.pairwise_append.mp hclock
    rw [refreshedAt_concat] at ht
    rw [run_concat] at hs
    rcases (wf_init.run evs).session_step ev e ses hs with ⟨_, hnow⟩ | ⟨hno, hold⟩
    · rw [hnow]
      rcases ht.2 with ⟨_, rfl⟩ | hearlier
      · exact Int.le_refl _
      · obtain ⟨ev', hmem, rfl⟩ := hearlier.exists_mem
        exact hle ev' hmem ev (List.mem_singleton_self ev)
    · rcases ht.2 with ⟨hr, _⟩ | hearlier
      · exact absurd hr hno
      · exact ih hpast hold hearlier

/-- A refresh at time `t` or later. -/
def ActiveSince (evs : List (Event F)) (e : Endpoint) (t : Int) : Prop :=
  ∃ u, t ≤ u ∧ RefreshedAt evs e u

/-- A session is expired exactly when its endpoint was silent for the timeout. -/
theorem expired_iff (evs : List (Event F)) (hclock : Event.Chronological evs)
    (e : Endpoint) (ses : Session) (hs : (init.run evs : Server F).sessions.byEndpoint e = some ses)
    (T : Int) : ses.expired T = true ↔ ¬ActiveSince evs e (T - clientTimeout) := by
  rw [Session.expired, decide_eq_true_iff]
  constructor
  · rintro hx ⟨u, hu, hr⟩
    have hle := le_lastInputTime_of_refreshedAt evs hclock e ses hs u hr
    omega
  · intro hsilent
    by_contra hx
    exact hsilent ⟨ses.lastInputTime, by omega, refreshedAt_lastInputTime evs e ses hs⟩

/-- The session of an endpoint after a tick. -/
theorem byEndpoint_tick (s : Server F) (T : Int) (order : TickOrder F) (e : Endpoint) :
    (s.step (.tick T order)).sessions.byEndpoint e =
      (s.sessions.byEndpoint e).filter fun ses ↦ !ses.expired T := by
  change (s.tickAndMaybeBroadcast T order).1.sessions.sessions.find? e = _
  rw [sessions_tick, SessionManager.sessions_reapTimeouts]
  rfl

/-- A tick removes exactly the sessions of the endpoints that were silent for the timeout, and
frees their ids everywhere. -/
theorem timeouts_exact (evs : List (Event F)) (T : Int) (order : TickOrder F)
    (hclock : Event.Chronological (evs ++ [.tick T order])) :
    let s := (init : Server F).run evs
    let s' := s.step (.tick T order)
    let removed := (s.sessions.reapTimeouts T order.reap).1
    (∀ e ses, s.sessions.byEndpoint e = some ses →
      (s'.sessions.byEndpoint e = none ↔ ¬ActiveSince evs e (T - clientTimeout))) ∧
    (∀ e, s'.sessions.byEndpoint e = none ∨
      s'.sessions.byEndpoint e = s.sessions.byEndpoint e) ∧
    removed.Nodup ∧
    (∀ id, id ∈ removed ↔ ∃ e ses, s.sessions.byEndpoint e = some ses ∧
      s'.sessions.byEndpoint e = none ∧ ses.playerId = id) ∧
    ∀ id ∈ removed,
      s'.sessions.idToEndpoint.find? id = none ∧
      (∀ e ses, s'.sessions.byEndpoint e = some ses → ses.playerId ≠ id) ∧
      s'.world.get id = none ∧
      ∀ ep now, s'.sessions.byEndpoint ep = none →
        ∃ j, (s'.sessions.registerOrGet now ep).1 = some j ∧ j ≤ id ∧
          ((∀ i, 1 ≤ i.toNat → i < id → s'.sessions.Holds i) → j = id) := by
  intro s s' removed
  have h : s.WF := wf_init.run evs
  have h' : s'.WF := h.step s _
  have hpast : Event.Chronological evs := (List.pairwise_append.mp hclock).1
  have htick : ∀ e, s'.sessions.byEndpoint e = (s.sessions.byEndpoint e).filter fun ses ↦
      !ses.expired T := s.byEndpoint_tick T order
  have hids : s'.sessions.idToEndpoint = (s.sessions.reapTimeouts T order.reap).2.idToEndpoint :=
    congrArg SessionManager.idToEndpoint (s.sessions_tick T order)
  have hgone : ∀ e ses, s.sessions.byEndpoint e = some ses →
      (s'.sessions.byEndpoint e = none ↔ ses.expired T = true) := by
    intro e ses hs
    rw [htick, hs]
    simp [Option.filter]
  refine ⟨fun e ses hs ↦ ?_, fun e ↦ ?_, h.sessions.nodup_reapTimeouts T order.reap, fun id ↦ ?_,
    fun id hid ↦ ?_⟩
  · rw [hgone e ses hs]
    exact expired_iff evs hpast e ses hs T
  · rw [htick]
    cases hs : s.sessions.byEndpoint e with
    | none => exact Or.inl rfl
    | some ses => cases hx : ses.expired T <;> simp [Option.filter, hx]
  · rw [SessionManager.mem_reapTimeouts]
    refine exists_congr fun e ↦ exists_congr fun ses ↦ ?_
    refine and_congr_right fun hs ↦ and_congr_left fun _ ↦ ?_
    exact (hgone e ses hs).symm
  · have hunused : s'.sessions.idToEndpoint.find? id = none := by
      rw [hids, SessionManager.idToEndpoint_reapTimeouts, if_pos hid]
    have hfree : ¬s'.sessions.Holds id := by
      rw [h'.sessions.holds_iff, hunused]
      exact Bool.false_ne_true
    obtain ⟨a, t, ht, _, rfl⟩ := (SessionManager.mem_reapTimeouts _ _ _ _).mp hid
    refine ⟨hunused, fun e ses hs hc ↦ hfree ⟨e, ses, hs, hc⟩, ?_, fun ep now hs ↦ ?_⟩
    · exact (s.get_tick T order _).trans (if_pos hid)
    · exact h'.sessions.available t.playerId (h.sessions.range a t ht) hfree ep now hs

/-- The id of a client that joins and stays silent for four seconds is free again. -/
theorem timeouts_exact_silent :
    let s : Server F32 := init.run [.datagram 0 ⟨1, 1⟩ [1, 0, 2]]
    let s' := s.step (.tick 4000000000 .sorted)
    s'.sessions.idToEndpoint.find? 1 = none ∧ s'.world.get 1 = none :=
  have h := timeouts_exact [.datagram 0 ⟨1, 1⟩ [1, 0, 2]] 4000000000 (.sorted : TickOrder F32)
    (by simp [Event.Chronological, Event.clock])
  have hid := (SessionManager.mem_reapTimeouts _ _ _ _).mpr
    ⟨⟨1, 1⟩, ⟨1, ⟨1, 1⟩, 0⟩, by decide, rfl, rfl⟩
  ⟨(h.2.2.2.2 1 hid).1, (h.2.2.2.2 1 hid).2.2.1⟩

end Server
end LightningLink.Srv
