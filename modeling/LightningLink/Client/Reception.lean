import LightningLink.Client.Client
import LightningLink.Client.Handshake

/-!
# Datagrams from other endpoints

Library `Client`. Models what the handshake of `client/client.cpp` and then
`NetworkReceiver::run` make of the datagrams that `recv_from` returns. Neither loop reads the
source of a datagram, so an id and snapshots are taken from any endpoint; what is received
is what the server has sent exactly when no datagram from elsewhere is read as either.
-/

namespace LightningLink.Cl

open Support Proto

/-- Source and bytes of a datagram that `recv_from` returns. -/
structure Received where
  src : Endpoint
  payload : List UInt8
  deriving DecidableEq

/-- Id taken by the handshake, and the datagrams left to the receive thread;
`client/client.cpp:93–106`. -/
def handshake : List Received → Option (UInt16 × List Received)
  | [] => none
  | d :: ds =>
    match acceptedId d.payload with
    | none => handshake ds
    | some id => some (id, ds)

/-- Snapshots that the receive thread pushes; `client/network_receiver.cpp:28–46`. -/
def pushed (ds : List Received) : List (Snapshot F32) :=
  ds.filterMap fun d ↦ NetworkReceiver.receive d.payload

/-- `my_pid` and the snapshots pushed to the queue. Without an id the client exits before it
starts the receive thread; `client/client.cpp:107–118`. -/
def reception (ds : List Received) : UInt16 × List (Snapshot F32) :=
  match handshake ds with
  | none => (0, [])
  | some (id, rest) => if id = 0 then (0, []) else (id, pushed rest)

/-- Datagrams of the resolved server endpoint. -/
def ofServer (server : Endpoint) (ds : List Received) : List Received :=
  ds.filter fun d ↦ d.src = server

/-! ### When other endpoints change nothing -/

/-- No datagram of another endpoint is read as a snapshot. -/
def NoForeignSnapshot (server : Endpoint) (ds : List Received) : Prop :=
  ∀ d ∈ ds, d.src ≠ server → NetworkReceiver.receive d.payload = none

/-- After another endpoint has assigned an id, the server assigns the same one, with no
snapshot before and none from elsewhere after it. With id 0 the client exits, and snapshots
do not matter. -/
def Repeats (server : Endpoint) (id : UInt16) : List Received → Prop
  | [] => id = 0
  | d :: ds =>
    match if d.src = server then acceptedId d.payload else none with
    | none => (id = 0 ∨ NetworkReceiver.receive d.payload = none) ∧ Repeats server id ds
    | some own => own = id ∧ (id = 0 ∨ NoForeignSnapshot server ds)

/-- The first datagram that assigns an id is the server's and no snapshot from elsewhere
follows it, or the server repeats it. -/
def Undisturbed (server : Endpoint) : List Received → Prop
  | [] => True
  | d :: ds =>
    match acceptedId d.payload with
    | none => Undisturbed server ds
    | some id =>
      if d.src = server then id = 0 ∨ NoForeignSnapshot server ds else Repeats server id ds

/-- A client with an id and the snapshots that follow it, or one that exits. -/
private def taken (id : UInt16) (ds : List Received) : UInt16 × List (Snapshot F32) :=
  if id = 0 then (0, []) else (id, pushed ds)

private theorem reception_cons (d : Received) (ds : List Received) :
    reception (d :: ds) = match acceptedId d.payload with
      | none => reception ds
      | some id => taken id ds := by
  unfold reception
  rw [handshake]
  cases acceptedId d.payload <;> rfl

private theorem taken_eq_taken_iff (id own : UInt16) (ds ds' : List Received) :
    taken id ds = taken own ds' ↔ own = id ∧ (id = 0 ∨ pushed ds = pushed ds') := by
  unfold taken
  by_cases hid : id = 0
  · subst hid
    by_cases hown : own = 0
    · simp [hown]
    · simp [hown, Ne.symm hown]
  · by_cases hown : own = 0
    · subst hown
      simp [hid, Ne.symm hid]
    · simp [hid, hown, eq_comm]

private theorem ofServer_cons (server : Endpoint) (d : Received) (ds : List Received) :
    ofServer server (d :: ds) = if d.src = server then d :: ofServer server ds
      else ofServer server ds := by
  rw [ofServer, List.filter_cons]
  simp only [decide_eq_true_eq]
  rfl

/-- The snapshots of the server are among those pushed. -/
theorem pushed_ofServer_sublist (server : Endpoint) (ds : List Received) :
    (pushed (ofServer server ds)).Sublist (pushed ds) :=
  List.filter_sublist.filterMap _

/-- A client does not push more snapshots than it receives. -/
theorem reception_sublist (ds : List Received) : (reception ds).2.Sublist (pushed ds) := by
  induction ds with
  | nil => exact List.Sublist.refl _
  | cons d ds ih =>
    have hcons : (pushed ds).Sublist (pushed (d :: ds)) := (List.sublist_cons_self d ds).filterMap _
    rw [reception_cons]
    split
    · exact ih.trans hcons
    · unfold taken
      split
      · exact List.nil_sublist _
      · exact hcons

/-- The server's snapshots are all that is pushed exactly when none comes from elsewhere. -/
theorem pushed_ofServer_iff (server : Endpoint) (ds : List Received) :
    pushed ds = pushed (ofServer server ds) ↔ NoForeignSnapshot server ds := by
  induction ds with
  | nil => simp [pushed, ofServer, NoForeignSnapshot]
  | cons d ds ih =>
    have hforall : NoForeignSnapshot server (d :: ds) ↔
        (d.src ≠ server → NetworkReceiver.receive d.payload = none) ∧
          NoForeignSnapshot server ds := List.forall_mem_cons
    have hle := (pushed_ofServer_sublist server ds).length_le
    rw [hforall, ← ih, ofServer_cons]
    unfold pushed at hle ⊢
    by_cases hs : d.src = server
    · rw [if_pos hs]
      cases hr : NetworkReceiver.receive d.payload <;> simp [hr, hs]
    · rw [if_neg hs]
      cases hr : NetworkReceiver.receive d.payload with
      | none => simp [hr]
      | some snap =>
        simp only [List.filterMap_cons, hr, hs, ne_eq, not_false_eq_true, true_imp_iff, reduceCtorEq,
          false_and, iff_false]
        intro heq
        rw [← heq, List.length_cons] at hle
        omega

/-- A `JOIN_ACCEPT` is no snapshot. -/
theorem receive_of_acceptedId (payload : List UInt8) (id : UInt16)
    (h : acceptedId payload = some id) : NetworkReceiver.receive payload = none := by
  obtain ⟨ja, hja, _⟩ := read_of_acceptedId payload id h
  rw [Option.eq_none_iff_forall_ne_some]
  intro snap hs
  rw [NetworkReceiver.receive_eq_some_iff, hja] at hs
  cases hs

/-- A datagram that the server's part leaves out, or that assigns no id, must not be read as
a snapshot, unless the client exits. -/
private theorem taken_cons_iff (server : Endpoint) (id : UInt16) (d : Received)
    (ds : List Received) : taken id (d :: ds) = reception (ofServer server ds) ↔
      (id = 0 ∨ NetworkReceiver.receive d.payload = none) ∧
        taken id ds = reception (ofServer server ds) := by
  unfold taken
  by_cases hid : id = 0
  · simp [hid]
  · rw [if_neg hid, if_neg hid]
    cases hr : NetworkReceiver.receive d.payload with
    | none => simp [pushed, hr]
    | some snap =>
      simp only [hid, reduceCtorEq, or_self, false_and, iff_false]
      intro heq
      have hle := ((reception_sublist (ofServer server ds)).trans
        (pushed_ofServer_sublist server ds)).length_le
      have hcons : pushed (d :: ds) = snap :: pushed ds := List.filterMap_cons_some hr
      rw [← heq] at hle
      dsimp only at hle
      rw [hcons, List.length_cons] at hle
      exact Nat.not_succ_le_self _ hle

/-- What follows an id assigned by another endpoint is what the server sends exactly when
the server repeats the id in time. -/
theorem taken_iff_repeats (server : Endpoint) (id : UInt16) (ds : List Received) :
    taken id ds = reception (ofServer server ds) ↔ Repeats server id ds := by
  induction ds with
  | nil =>
    unfold Repeats taken
    by_cases hid : id = 0 <;> simp [hid, reception, handshake, ofServer]
  | cons d ds ih =>
    rw [Repeats, ofServer_cons]
    by_cases hs : d.src = server
    · rw [if_pos hs, if_pos hs, reception_cons]
      cases ha : acceptedId d.payload with
      | none => exact (taken_cons_iff server id d ds).trans (and_congr_right fun _ ↦ ih)
      | some own =>
        have hskip : pushed (d :: ds) = pushed ds :=
          List.filterMap_cons_none (receive_of_acceptedId _ own ha)
        dsimp only
        rw [taken_eq_taken_iff, hskip, pushed_ofServer_iff]
    · rw [if_neg hs, if_neg hs]
      exact (taken_cons_iff server id d ds).trans (and_congr_right fun _ ↦ ih)

/-- The id and the snapshots that a client takes are those it would take from the server's
datagrams alone exactly when these are undisturbed. -/
theorem reception_iff_undisturbed (server : Endpoint) (ds : List Received) :
    reception ds = reception (ofServer server ds) ↔ Undisturbed server ds := by
  induction ds with
  | nil => simp [ofServer, Undisturbed]
  | cons d ds ih =>
    rw [Undisturbed, ofServer_cons, reception_cons]
    by_cases hs : d.src = server
    · rw [if_pos hs, reception_cons]
      cases acceptedId d.payload with
      | none => exact ih
      | some id =>
        dsimp only
        rw [taken_eq_taken_iff, pushed_ofServer_iff, if_pos hs]
        exact and_iff_right rfl
    · rw [if_neg hs]
      cases acceptedId d.payload with
      | none => exact ih
      | some id =>
        dsimp only
        rw [if_neg hs]
        exact taken_iff_repeats server id ds

/-- A third party at (9, 9) assigns id 7 before the server at (1, 1) assigns id 1, and then
sends a snapshot of tick 5 without players. -/
theorem reception_forged :
    let ds : List Received := [⟨⟨9, 9⟩, [2, 0, 7, 0, 0, 0, 0, 0, 0, 0, 0]⟩,
      ⟨⟨1, 1⟩, [2, 0, 1, 68, 160, 0, 0, 68, 52, 0, 0]⟩, ⟨⟨9, 9⟩, [4, 0, 0, 0, 5, 0, 0]⟩]
    reception ds = (7, [⟨5, []⟩]) ∧ reception (ofServer ⟨1, 1⟩ ds) = (1, []) := by
  refine ⟨by decide, by decide⟩

end LightningLink.Cl
