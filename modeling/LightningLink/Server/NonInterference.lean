import LightningLink.Server.Membership

/-!
# Non-interference between endpoints

Library `Server`. Deleting the datagrams of all other endpoints from a timed run changes
nothing of what the server holds for an endpoint, as long as its session exists.
-/

namespace LightningLink.Srv

open Support Proto

namespace Event

variable {F : Type}

/-- An event without the iteration orders of a tick. -/
def timed : Event F → Option (Endpoint × List UInt8) × Int
  | .datagram now src payload => (some (src, payload), now)
  | .tick now _ => (none, now)

/-- Datagrams of the endpoint, and ticks. -/
def concerns (e : Endpoint) (ev : Event F) : Bool := (ev.inputOf e).isSome

/-- The input of an event does not depend on iteration orders. -/
theorem inputOf_eq_of_timed (e : Endpoint) {a b : Event F} (h : a.timed = b.timed) :
    a.inputOf e = b.inputOf e := by
  cases a <;> cases b <;> simp_all [timed, inputOf]

/-- Deleting the other datagrams, and changing iteration orders, keeps the inputs. -/
theorem filterMap_inputOf (e : Endpoint) (evs own : List (Event F))
    (h : own.map timed = (evs.filter (concerns e)).map timed) :
    own.filterMap (inputOf e) = evs.filterMap (inputOf e) := by
  have hf : (evs.filter (concerns e)).filterMap (inputOf e) = evs.filterMap (inputOf e) := by
    rw [List.filterMap_filter]
    refine List.filterMap_congr fun ev _ ↦ ?_
    unfold concerns
    cases ev.inputOf e <;> rfl
  rw [← hf]
  revert h
  generalize evs.filter (concerns e) = kept
  intro h
  induction own generalizing kept with
  | nil =>
    rw [List.map_nil, eq_comm, List.map_eq_nil_iff] at h
    rw [h]
  | cons a own ih =>
    cases kept with
    | nil => cases h
    | cons b kept =>
      rw [List.map_cons, List.map_cons, List.cons.injEq] at h
      rw [List.filterMap_cons, List.filterMap_cons, inputOf_eq_of_timed e h.1, ih kept h.2]

end Event

variable {F : Type} [FloatArith F]

/-- A followed member keeps its id. -/
theorem follow_playerId [FloatBits F] (e : Endpoint) (evs : List (Event F)) {m m' : Member F}
    (h : (memberView e).follow m evs = some m') : m'.session.playerId = m.session.playerId := by
  induction evs using List.reverseRecOn generalizing m' with
  | nil =>
    obtain rfl : m = m' := Option.some.inj h
    rfl
  | append_singleton evs ev ih =>
    rw [LocalView.follow_concat, Option.bind_eq_some_iff] at h
    obtain ⟨m₁, h₁, h⟩ := h
    rw [← ih h₁]
    split at h
    · obtain rfl := Option.some.inj h
      rfl
    · exact (Member.next_player h).1

namespace Server

variable [FloatBits F]

/-- The endpoint has a session in every state of a run. -/
def Present (s : Server F) (e : Endpoint) (evs : List (Event F)) : Prop :=
  ∀ past, past <+: evs → ((s.run past).sessions.sessions.find? e).isSome

instance (s : Server F) (e : Endpoint) (evs : List (Event F)) : Decidable (s.Present e evs) :=
  decidable_of_iff (∀ k < evs.length + 1,
    ((s.run (evs.take k)).sessions.sessions.find? e).isSome = true) (by
      constructor
      · intro h past hp
        rw [List.prefix_iff_eq_take.mp hp]
        exact h _ (Nat.lt_succ_of_le hp.length_le)
      · exact fun h k _ ↦ h _ (List.take_prefix k evs))

/-- Presence of the session is presence of the member. -/
theorem present_iff_alive (v : ValidServer F) (e : Endpoint) (evs : List (Event F)) :
    v.server.Present e evs ↔ (memberView e).Alive v evs := by
  refine forall₂_congr fun past _ ↦ ?_
  rw [← ValidServer.server_foldl]
  exact ((past.foldl ValidServer.step v).wf.member_isSome e).symm

/-- The same server state for one endpoint: its session, and the record under its id. -/
def SameFor (e : Endpoint) (id : UInt16) (s t : Server F) : Prop :=
  s.sessions.sessions.find? e = t.sessions.sessions.find? e ∧ s.world.get id = t.world.get id

omit [FloatArith F] [FloatBits F] in
private theorem sameFor_of_member {e : Endpoint} {s t : Server F} {m : Member F}
    (hs : s.member e = some m) (ht : t.member e = some m) :
    SameFor e m.session.playerId s t := by
  rw [member_eq_some_iff] at hs ht
  exact ⟨hs.1.trans ht.1.symm, hs.2.trans ht.2.symm⟩

/-- Runs that agree on the datagrams of an endpoint and on the ticks treat it alike: its
session exists as long, with the same record, and the same event removes it; a datagram of
another endpoint leaves both alone. -/
theorem run_nonInterference (past evs own : List (Event F)) (e : Endpoint) (ses : Session)
    (hses : (init.run past).sessions.sessions.find? e = some ses)
    (hown : own.map Event.timed = (evs.filter (Event.concerns e)).map Event.timed) :
    let s : Server F := init.run past
    (s.Present e own ↔ s.Present e evs) ∧
    (s.Present e evs → SameFor e ses.playerId (s.run own) (s.run evs)) ∧
    (∀ ev ev' : Event F, ev'.timed = ev.timed →
      (s.Present e (own ++ [ev']) ↔ s.Present e (evs ++ [ev]))) ∧
    (∀ ev : Event F, s.Present e evs → ev.concerns e = false →
      s.Present e (evs ++ [ev]) ∧ SameFor e ses.playerId (s.run (evs ++ [ev])) (s.run evs)) := by
  let v : ValidServer F := ValidServer.reached past
  have hv : v.server = init.run past := ValidServer.server_reached past
  rw [← hv] at hses ⊢
  have hm₀ := (v.wf.member_isSome e).mpr (by rw [hses]; rfl)
  obtain ⟨m, hm⟩ := Option.isSome_iff_exists.mp hm₀
  obtain rfl : m.session = ses :=
    Option.some.inj (((member_eq_some_iff v.server e m).mp hm).1.symm.trans hses)
  have hview : (memberView e).view v = some m := hm
  -- Two runs with the same inputs for `e` end in the same member of `e`.
  have same : ∀ evs own : List (Event F),
      own.filterMap (Event.inputOf e) = evs.filterMap (Event.inputOf e) →
      (v.server.Present e own ↔ v.server.Present e evs) ∧ (v.server.Present e evs →
        SameFor e m.session.playerId (v.server.run own) (v.server.run evs)) := by
    intro evs own hi
    obtain ⟨ha, hvw⟩ := (memberView e).alive_congr hview hi
    rw [present_iff_alive, present_iff_alive]
    refine ⟨ha, fun h ↦ ?_⟩
    obtain ⟨m', hm'⟩ := Option.isSome_iff_exists.mp (((memberView e).alive_iff hview evs).mp h)
    have hevs := (memberView e).view_run hview evs hm'
    have hown := (hvw h).trans hevs
    rw [← follow_playerId e evs hm', ← ValidServer.server_foldl, ← ValidServer.server_foldl]
    exact sameFor_of_member hown hevs
  have hin := Event.filterMap_inputOf e evs own hown
  refine ⟨(same evs own hin).1, (same evs own hin).2, ?_, ?_⟩
  · intro ev ev' ht
    refine (same (evs ++ [ev]) (own ++ [ev']) ?_).1
    rw [List.filterMap_append, List.filterMap_append, hin, List.filterMap_cons,
      List.filterMap_cons, Event.inputOf_eq_of_timed e ht]
  · intro ev hp hc
    have hnone : ev.inputOf e = none := by simpa [Event.concerns] using hc
    have hi : (evs ++ [ev]).filterMap (Event.inputOf e) = evs.filterMap (Event.inputOf e) := by
      rw [List.filterMap_append, List.filterMap_cons, hnone]
      exact List.append_nil _
    obtain ⟨h1, h2⟩ := same evs (evs ++ [ev]) hi
    exact ⟨h1.mpr hp, h2 hp⟩

/-- An input from elsewhere that claims id 1 leaves player 1 alone. -/
theorem run_nonInterference_forged :
    let s : Server F32 := init.run [.datagram 0 ⟨1, 1⟩ [1, 0, 2]]
    SameFor ⟨1, 1⟩ 1 (s.run ([] ++ [.datagram 1 ⟨2, 1⟩ [3, 0, 1, 0, 0, 0, 9, 1, 0]])) (s.run []) :=
  ((run_nonInterference [.datagram 0 ⟨1, 1⟩ [1, 0, 2]] [] [] ⟨1, 1⟩ ⟨1, ⟨1, 1⟩, 0⟩
    (by decide) rfl).2.2.2 (.datagram 1 ⟨2, 1⟩ [3, 0, 1, 0, 0, 0, 9, 1, 0])
      (by decide) (by decide)).2

end Server
end LightningLink.Srv
