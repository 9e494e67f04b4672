import LightningLink.Server.Stream

/-!
# Delivery of inputs

Library `Server`. Between two ticks only the newest input of a player matters: the record
does not depend on the order in which inputs arrive, on duplicates, or on older ones. Over
whole runs the acknowledged number of a session never decreases.
-/

namespace LightningLink.Srv

open Support Proto FloatArith

/-- `clampDir` clamps to `{-1, 0, 1}`. -/
theorem toInt_clampDir (v : Int8) : (clampDir v).toInt = max (-1) (min 1 v.toInt) := by
  unfold clampDir
  simp only [Int8.lt_iff_toInt_lt, apply_ite Int8.toInt]
  have h1 : (1 : Int8).toInt = 1 := rfl
  have h2 : (-1 : Int8).toInt = -1 := rfl
  rw [h1, h2]
  omega

namespace ServerPlayer

variable {F : Type}

/-- Record after inputs one after another. -/
def inputs (p : ServerPlayer F) (ips : List InputPacket) : ServerPlayer F :=
  ips.foldl (fun p ip ↦ p.input ip.seq ip.mx ip.my) p

/-- A packet of which none in a list is newer. -/
def Newest (ips : List InputPacket) (ip : InputPacket) : Prop :=
  ip ∈ ips ∧ ∀ other ∈ ips, other.seq ≤ ip.seq

/-- An accepted input hides the ones accepted before it. -/
theorem accept_accept (p : ServerPlayer F) (seq seq' : UInt32) (mx my mx' my' : Int8) :
    (p.accept seq mx my).accept seq' mx' my' = p.accept seq' mx' my' := rfl

/-- Inputs leave a record as it is if all of them are older than the newest one seen, and
else the newest of them is accepted. -/
theorem inputs_newest (p : ServerPlayer F) (ips : List InputPacket) :
    (p.inputs ips = p ∧ ∀ ip ∈ ips, ip.seq < p.latestSeenSeq) ∨
      ∃ ip, Newest ips ip ∧ p.latestSeenSeq ≤ ip.seq ∧
        p.inputs ips = p.accept ip.seq ip.mx ip.my := by
  induction ips using List.reverseRecOn with
  | nil => exact Or.inl ⟨rfl, fun _ h ↦ absurd h List.not_mem_nil⟩
  | append_singleton ips ip ih =>
    have hstep : p.inputs (ips ++ [ip]) = (p.inputs ips).input ip.seq ip.mx ip.my := by
      rw [inputs, List.foldl_append]
      rfl
    have hmem : ip ∈ ips ++ [ip] := List.mem_append_right _ (List.mem_singleton_self ip)
    have hconcat {P : InputPacket → Prop} (h : ∀ x ∈ ips, P x) (hip : P ip) :
        ∀ x ∈ ips ++ [ip], P x :=
      List.forall_mem_append.mpr ⟨h, List.forall_mem_singleton.mpr hip⟩
    rw [hstep, input]
    rcases ih with ⟨heq, hold⟩ | ⟨old, ⟨holdm, hnew⟩, hle, heq⟩
    · rw [heq]
      by_cases hs : ip.seq < p.latestSeenSeq
      · rw [if_pos hs]
        exact Or.inl ⟨rfl, hconcat hold hs⟩
      · rw [if_neg hs]
        have hseen := UInt32.not_lt.mp hs
        refine Or.inr ⟨ip, ⟨hmem, hconcat (fun x hx ↦ ?_) (UInt32.le_refl _)⟩, hseen, rfl⟩
        exact UInt32.le_trans (UInt32.le_of_lt (hold x hx)) hseen
    · rw [heq, show (p.accept old.seq old.mx old.my).latestSeenSeq = old.seq from rfl]
      by_cases hs : ip.seq < old.seq
      · rw [if_pos hs]
        exact Or.inr ⟨old, ⟨List.mem_append_left _ holdm, hconcat hnew (UInt32.le_of_lt hs)⟩, hle,
          rfl⟩
      · rw [if_neg hs, accept_accept]
        have hseen := UInt32.not_lt.mp hs
        refine Or.inr ⟨ip, ⟨hmem, hconcat (fun x hx ↦ ?_) (UInt32.le_refl _)⟩,
          UInt32.le_trans hle hseen, rfl⟩
        exact UInt32.le_trans (hnew x hx) hseen

/-- The largest number is seen. -/
theorem latestSeenSeq_inputs (p : ServerPlayer F) (ips : List InputPacket) :
    (p.inputs ips).latestSeenSeq = (ips.map InputPacket.seq).foldl max p.latestSeenSeq := by
  induction ips generalizing p with
  | nil => rfl
  | cons ip ips ih =>
    apply (ih (p.input ip.seq ip.mx ip.my)).trans
    rw [List.map_cons, List.foldl_cons]
    congr 1
    unfold input
    by_cases hs : ip.seq < p.latestSeenSeq
    · rw [if_pos hs]
      exact (if_neg (UInt32.not_le.mpr hs)).symm
    · rw [if_neg hs]
      exact (if_pos (UInt32.not_lt.mp hs)).symm

/-- Inputs keep a record settled. -/
theorem Settled.inputs {p : ServerPlayer F} (h : p.Settled) (ips : List InputPacket) :
    (p.inputs ips).Settled := by
  rcases p.inputs_newest ips with ⟨heq, _⟩ | ⟨ip, _, _, heq⟩
  · rwa [heq]
  · rw [heq]
    rfl

/-- Two lists of the same packets, with one direction for each number, lead to one record. -/
theorem inputs_congr (p : ServerPlayer F) {xs ys : List InputPacket}
    (hset : ∀ ip, ip ∈ xs ↔ ip ∈ ys)
    (hfixed : ∀ a ∈ xs, ∀ b ∈ xs, a.seq = b.seq → a.mx = b.mx ∧ a.my = b.my) :
    p.inputs xs = p.inputs ys := by
  rcases p.inputs_newest xs with ⟨hx, hxold⟩ | ⟨a, ⟨ham, hanew⟩, hale, ha⟩
  · rcases p.inputs_newest ys with ⟨hy, _⟩ | ⟨b, ⟨hbm, _⟩, hble, _⟩
    · rw [hx, hy]
    · exact absurd (hxold b ((hset b).mpr hbm)) (UInt32.not_lt.mpr hble)
  · rcases p.inputs_newest ys with ⟨_, hyold⟩ | ⟨b, ⟨hbm, hbnew⟩, _, hb⟩
    · exact absurd (hyold a ((hset a).mp ham)) (UInt32.not_lt.mpr hale)
    · have hbx := (hset b).mpr hbm
      have hseq := UInt32.le_antisymm (hbnew a ((hset a).mp ham)) (hanew b hbx)
      obtain ⟨hmx, hmy⟩ := hfixed a ham b hbx hseq
      rw [ha, hb, hseq, hmx, hmy]

end ServerPlayer

namespace WorldState

variable {F : Type}

/-- World after `apply_input` of packets one after another. -/
def applyInputs (w : WorldState F) (ips : List InputPacket) : WorldState F :=
  ips.foldl (fun w ip ↦ (w.applyInput ip.playerId ip.seq ip.mx ip.my).2) w

/-- Inputs of a player act on its record. -/
theorem get_applyInputs (w : WorldState F) (id : UInt16) (ips : List InputPacket)
    (hid : ∀ ip ∈ ips, ip.playerId = id) :
    (w.applyInputs ips).get id = (w.get id).map fun p ↦ p.inputs ips := by
  induction ips generalizing w with
  | nil => cases h : w.get id <;> simp [applyInputs, ServerPlayer.inputs, h]
  | cons ip ips ih =>
    have hstep := ih (w.applyInput ip.playerId ip.seq ip.mx ip.my).2
      fun x hx ↦ hid x (List.mem_cons_of_mem _ hx)
    rw [get_applyInput, if_pos (hid ip List.mem_cons_self).symm, Option.map_map] at hstep
    exact hstep

end WorldState

namespace Server

variable {F : Type} [FloatArith F] [FloatBits F]

/-- A member that stays through a run does not acknowledge less at its end. -/
theorem acked_le_run (past evs : List (Event F)) (e : Endpoint) {m m' : Member F}
    (hm : (ValidServer.reached past).server.member e = some m)
    (hp : (ValidServer.reached past).server.Present e evs)
    (hm' : ((ValidServer.reached past).server.run evs).member e = some m') :
    m.player.state.lastProcessedInputSeq ≤ m'.player.state.lastProcessedInputSeq := by
  induction evs generalizing past m with
  | nil =>
    obtain rfl := Option.some.inj (hm.symm.trans hm')
    exact UInt32.le_refl _
  | cons ev evs ih =>
    have hr : (ValidServer.reached (past ++ [ev]) : ValidServer F) = _ :=
      ValidServer.reached_concat past ev
    have hsome := hp [ev] ⟨evs, rfl⟩
    rw [show (ValidServer.reached past).server.run [ev] =
      ((ValidServer.reached past).step ev).server from rfl] at hsome
    obtain ⟨m₁, hm₁⟩ := Option.isSome_iff_exists.mp
      ((((ValidServer.reached past).step ev).wf.member_isSome e).mpr hsome)
    refine UInt32.le_trans (acked_le_step past e ev hm hm₁) (ih (past ++ [ev]) ?_ ?_ ?_)
    · rw [hr]
      exact hm₁
    · rw [hr]
      rintro pre ⟨rest, rfl⟩
      exact hp (ev :: pre) ⟨rest, rfl⟩
    · rw [hr]
      exact hm'

/-- Delivery of inputs to a player of a reachable state: the order and the repetitions of
the packets do not matter, the largest number is seen and acknowledged, and the newest
packet sets the direction unless it is older than what was seen. An acknowledgement of a
session never decreases over a run. -/
theorem delivery_newest (past : List (Event F)) (id : UInt16) (p : ServerPlayer F)
    (hp : (init.run past).world.get id = some p) :
    let s : Server F := init.run past
    (∀ xs ys : List InputPacket, (∀ ip ∈ xs, ip.playerId = id) → (∀ ip, ip ∈ xs ↔ ip ∈ ys) →
      (∀ a ∈ xs, ∀ b ∈ xs, a.seq = b.seq → a.mx = b.mx ∧ a.my = b.my) →
      ∃ q, (s.world.applyInputs xs).get id = some q ∧ (s.world.applyInputs ys).get id = some q ∧
        q.latestSeenSeq = (xs.map InputPacket.seq).foldl max p.latestSeenSeq ∧
        q.state.lastProcessedInputSeq = q.latestSeenSeq ∧
        (∀ ip ∈ xs, (∀ other ∈ xs, other.seq ≤ ip.seq) → p.latestSeenSeq ≤ ip.seq →
          q.pendingMx.toInt = max (-1) (min 1 ip.mx.toInt) ∧
          q.pendingMy.toInt = max (-1) (min 1 ip.my.toInt)) ∧
        ((∀ ip ∈ xs, ip.seq < p.latestSeenSeq) → q = p)) ∧
    ∀ e ses, s.sessions.sessions.find? e = some ses → ses.playerId = id →
      ∀ evs, s.Present e evs → ∃ q, (s.run evs).world.get id = some q ∧
        p.state.lastProcessedInputSeq ≤ q.state.lastProcessedInputSeq := by
  let v : ValidServer F := ValidServer.reached past
  have hv : v.server = init.run past := ValidServer.server_reached past
  rw [← hv] at hp ⊢
  intro s
  refine ⟨fun xs ys hid hset hfixed ↦ ?_, fun e ses hses hid evs hpres ↦ ?_⟩
  · have hget {ips : List InputPacket} (h : ∀ ip ∈ ips, ip.playerId = id) :
        (s.world.applyInputs ips).get id = some (p.inputs ips) := by
      rw [WorldState.get_applyInputs _ _ _ h, hp]
      rfl
    have hsettled : p.Settled := by
      obtain ⟨ep, ses, hses, rfl⟩ := (v.wf.sessions.used_iff id).mp
        ((v.wf.players id).mp (by rw [hp]; rfl))
      exact ValidServer.settled past ep ((member_eq_some_iff s ep ⟨ses, p⟩).mpr ⟨hses, hp⟩)
    refine ⟨p.inputs xs, hget hid, ?_, p.latestSeenSeq_inputs xs, (hsettled.inputs xs).symm, ?_, ?_⟩
    · rw [hget fun ip h ↦ hid ip ((hset ip).mpr h), p.inputs_congr hset hfixed]
    · intro ip hip hnew hle
      rcases p.inputs_newest xs with ⟨_, hold⟩ | ⟨a, ⟨ham, hanew⟩, _, ha⟩
      · exact absurd (hold ip hip) (UInt32.not_lt.mpr hle)
      · obtain ⟨hmx, hmy⟩ := hfixed a ham ip hip (UInt32.le_antisymm (hnew a ham) (hanew ip hip))
        rw [ha, ← hmx, ← hmy]
        exact ⟨toInt_clampDir a.mx, toInt_clampDir a.my⟩
    · intro hold
      rcases p.inputs_newest xs with ⟨heq, _⟩ | ⟨a, ⟨ham, _⟩, hle, _⟩
      · exact heq
      · exact absurd (hold a ham) (UInt32.not_lt.mpr hle)
  · subst hid
    have hm : v.server.member e = some ⟨ses, p⟩ :=
      (member_eq_some_iff v.server e ⟨ses, p⟩).mpr ⟨hses, hp⟩
    obtain ⟨m, hf⟩ := Option.isSome_iff_exists.mp
      (((memberView e).alive_iff hm evs).mp ((present_iff_alive v e evs).mp hpres))
    have hend : (s.run evs).member e = some m := by
      rw [← ValidServer.server_foldl v]
      exact (memberView e).view_run hm evs hf
    refine ⟨m.player, ?_, acked_le_run past evs e hm hpres hend⟩
    rw [← follow_playerId e evs hf]
    exact ((member_eq_some_iff _ e m).mp hend).2

/-- Inputs 2, 1 and 2 again lead to the same record as 1 and 2. -/
theorem delivery_newest_three :
    let s : Server F32 := init.run [.datagram 0 ⟨1, 1⟩ [1, 0, 2]]
    let a : InputPacket := ⟨1, 1, 1, 0⟩
    let b : InputPacket := ⟨1, 2, 0, 100⟩
    ∃ q, (s.world.applyInputs [b, a, b]).get 1 = some q ∧
      (s.world.applyInputs [a, b]).get 1 = some q ∧ q.state.lastProcessedInputSeq = 2 ∧
      q.pendingMy.toInt = 1 := by
  intro s a b
  have hp : s.world.get 1 = some (ServerPlayer.spawn 1) := rfl
  obtain ⟨q, hx, hy, hseen, hack, hdir, _⟩ :=
    (delivery_newest [.datagram 0 ⟨1, 1⟩ [1, 0, 2]] 1 _ hp).1 [b, a, b] [a, b]
      (by decide) (by simp [or_comm]) (by decide)
  exact ⟨q, hx, hy, hack.trans hseen, (hdir b (by decide) (by decide) (by decide)).2⟩

end Server
end LightningLink.Srv
