import LightningLink.Network.Arena
import LightningLink.Server.Rejoin

/-!
# Frames

Library `Network`. Models `Renderer::draw_players` and its colours (`client/renderer.cpp`).
The palette has a colour for each of the ids `1..MAX_PLAYERS`. The ids of snapshots and of
answers to joins are such ones, so no two players of a frame have the same colour.
-/

namespace LightningLink

open Support Proto FloatArith

namespace Cl

/-! ### The renderer -/

/-- `sf::Color`. -/
structure Color where
  r : UInt8
  g : UInt8
  b : UInt8
  a : UInt8
  deriving DecidableEq

/-- `client/renderer.cpp:24–33`. -/
def palette : Vector Color 8 :=
  #v[⟨230, 80, 80, 255⟩, ⟨80, 180, 250, 255⟩, ⟨120, 220, 120, 255⟩, ⟨250, 200, 80, 255⟩,
    ⟨200, 120, 230, 255⟩, ⟨80, 220, 220, 255⟩, ⟨255, 140, 90, 255⟩, ⟨180, 180, 180, 255⟩]

/-- `client/renderer.cpp:23–35`; the difference is converted to `std::size_t`. -/
def colorFor (id : UInt16) : Color := palette.get (Fin.ofNat 8 (id.toUInt64 - 1).toNat)

/-- An `sf::CircleShape` with the label over it. -/
structure Circle (F : Type) where
  position : Vec2 F
  fillColor : Color
  outlineThickness : Nat
  label : Option UInt16

/-- `client/renderer.cpp:67–90`. The label is drawn if a font has been found. -/
def drawPlayer {F : Type} (fontLoaded : Bool) (p : RenderedPlayer F) : Circle F :=
  let col := colorFor p.id
  let label := if fontLoaded then some p.id else none
  if p.isGhost then ⟨p.pos, { col with a := 110 }, 1, label⟩
  else ⟨p.pos, col, if p.isLocal then 2 else 0, label⟩

/-- `client/renderer.cpp:65–91`. -/
def drawPlayers {F : Type} (fontLoaded : Bool) (players : List (RenderedPlayer F)) :
    List (Circle F) :=
  players.map (drawPlayer fontLoaded)

/-- A fill that hides what is below. -/
def Circle.solid {F : Type} (c : Circle F) : Bool := c.fillColor.a = 255

/-- All colours of the palette are solid. -/
theorem palette_solid (i : Fin 8) : (palette.get i).a = 255 := by
  revert i
  decide

/-- The palette has no colour twice. -/
theorem palette_injective : Function.Injective palette.get := by
  intro i j
  revert i j
  decide

/-- Two players have two colours. -/
theorem colorFor_injOn : Set.InjOn colorFor Srv.SessionManager.playerIds := by
  have hindex {id : UInt16} (hid : id ∈ Srv.SessionManager.playerIds) :
      (id.toUInt64 - 1).toNat = id.toNat - 1 ∧ 1 ≤ id.toNat ∧ id.toNat ≤ 8 := by
    obtain ⟨hpos, hle⟩ := (Srv.SessionManager.mem_playerIds id).mp hid
    have hle64 : (1 : UInt64) ≤ id.toUInt64 := UInt64.le_iff_toNat_le.mpr hpos
    rw [UInt64.toNat_sub_of_le _ _ hle64]
    exact ⟨rfl, hpos, hle⟩
  intro a ha b hb hab
  obtain ⟨hia, hpa, hla⟩ := hindex ha
  obtain ⟨hib, hpb, hlb⟩ := hindex hb
  have hslot := congrArg Fin.val (palette_injective hab)
  rw [Fin.val_ofNat, Fin.val_ofNat, hia, hib] at hslot
  exact UInt16.toNat_inj.mp (by omega)

/-- Ghosts are translucent. -/
theorem solid_drawPlayer {F : Type} (fontLoaded : Bool) (p : RenderedPlayer F) :
    (drawPlayer fontLoaded p).solid = !p.isGhost := by
  unfold drawPlayer Circle.solid
  cases p.isGhost with
  | true => rfl
  | false => exact decide_eq_true (palette_solid _)

/-- Others have the colour of their id. -/
theorem fillColor_drawPlayer {F : Type} (fontLoaded : Bool) {p : RenderedPlayer F}
    (hp : p.isGhost = false) : (drawPlayer fontLoaded p).fillColor = colorFor p.id := by
  unfold drawPlayer
  rw [hp]
  rfl

/-- Only the local player has a thick outline. -/
theorem outlined_drawPlayer {F : Type} (fontLoaded : Bool) (p : RenderedPlayer F) :
    decide ((drawPlayer fontLoaded p).outlineThickness = 2) = (!p.isGhost && p.isLocal) := by
  unfold drawPlayer
  cases p.isGhost <;> cases p.isLocal <;> rfl

/-- Circles with a property are those of the players with one. -/
theorem filter_drawPlayers {F : Type} (fontLoaded : Bool) (players : List (RenderedPlayer F))
    {f : Circle F → Bool} {g : RenderedPlayer F → Bool}
    (h : ∀ p, f (drawPlayer fontLoaded p) = g p) :
    (drawPlayers fontLoaded players).filter f = (players.filter g).map (drawPlayer fontLoaded) := by
  rw [drawPlayers, List.filter_map]
  exact congrArg _ (List.filter_congr fun p _ ↦ h p)

end Cl

/-! ### The ids that the server gives -/

namespace Srv

open SessionManager

/-- Players have ids of sessions. -/
theorem Server.WF.mem_playerIds {F : Type} {s : Server F} (h : s.WF) {id : UInt16}
    {p : ServerPlayer F} (hp : s.world.get id = some p) : id ∈ playerIds := by
  apply h.sessions.keys_subset
  rw [UMap.mem_keys, ← h.players, hp]
  rfl

section

variable [FloatArith F32]

/-- The records of a broadcast have ids of players. -/
theorem Broadcasts.mem_playerIds {evs : List (Event F32)} {snap : Snapshot F32}
    (h : Broadcasts evs snap) : ∀ ps ∈ snap.players, ps.id ∈ playerIds := by
  obtain ⟨past, now, order, _, _, _, rfl⟩ := h
  intro ps hps
  let v : ValidServer F32 := ValidServer.reached (past ++ [.tick now order])
  obtain ⟨id, p, hp, rfl⟩ := (Server.mem_tickSnapshot v.server order ps).mp hps
  rw [v.wf.key id p hp]
  exact v.wf.mem_playerIds hp

/-- A join is answered with the id of a player. -/
theorem Sends.mem_playerIds {evs : List (Event F32)} {e : Endpoint} {ja : JoinAccept F32}
    (h : Sends evs e (.joinAccept ja)) : ja.playerId ∈ playerIds := by
  rcases h.cases with ⟨_, heq, _⟩ | ⟨past, ev, _, ja', _, heq, hjoins, hanswer⟩
  · cases heq
  obtain rfl := Packet.joinAccept.inj heq
  cases ev with
  | tick now order => exact absurd hjoins id
  | datagram now src bytes =>
    obtain ⟨rfl, jr, hjoin⟩ := hjoins
    let v : ValidServer F32 := ValidServer.reached past
    obtain ⟨m, hm, hid, _⟩ := member_of_answer v now src bytes jr hjoin ja.playerId
      (hanswer ▸ (answers_joinAnswer src ja.playerId ja.playerId).mpr rfl)
    exact hid ▸ (v.step _).wf.mem_playerIds ((Server.member_eq_some_iff _ src m).mp hm).2

end
end Srv

/-! ### What a frame shows -/

namespace Cl

variable {F : Type} [FloatArith F]

/-- The ids of the client and of its records are those of players. -/
structure Client.Known (c : Client F) : Prop where
  own : c.myPid ∈ Srv.SessionManager.playerIds
  stored : ∀ id ∈ c.latestAuthoritative.keys, id ∈ Srv.SessionManager.playerIds

/-- No two solid circles have the same colour. One of them, at the position of the client, has a
thick outline. At most one circle is translucent, and it has the same colour otherwise. -/
structure Legible (own : Vec2 F) (circles : List (Circle F)) : Prop where
  distinct : ((circles.filter Circle.solid).map Circle.fillColor).Nodup
  outlined : ∃ c, circles.filter (fun c ↦ c.outlineThickness = 2) = [c] ∧
    c.position = own ∧ c.solid = true ∧
    ∀ g ∈ circles, g.solid = false → g.fillColor = { c.fillColor with a := 110 }
  ghosts : (circles.filter fun c ↦ !c.solid).length ≤ 1
  count : circles.length ≤ maxPlayers + 1

namespace Screen

/-- The remote players of a frame. -/
def remotes (nowMs : UInt64) (order : UMap.Traversal UInt16 (PlayerState F)) (s : Screen F) :
    List (RenderedPlayer F) :=
  (order.order s.client.latestAuthoritative).filterMap (s.drawRemote nowMs)

variable (nowMs : UInt64) (order : UMap.Traversal UInt16 (PlayerState F)) (s : Screen F)

/-- Remote players are neither local nor ghosts, and have ids of records of others. -/
theorem of_mem_remotes {p : RenderedPlayer F} (hp : p ∈ s.remotes nowMs order) :
    p.isLocal = false ∧ p.isGhost = false ∧ p.id ≠ s.client.myPid ∧
      p.id ∈ s.client.latestAuthoritative.keys := by
  obtain ⟨e, he, hdraw⟩ := List.mem_filterMap.mp hp
  obtain ⟨hid, hne, _⟩ := (drawRemote_iff nowMs s e p.id).mp ⟨p, hdraw, rfl⟩
  have hkey : p.id ∈ s.client.latestAuthoritative.keys := by
    rw [UMap.mem_keys, ← (order.enumerates _).mem_keys, ← hid]
    exact List.mem_map_of_mem he
  unfold drawRemote at hdraw
  split at hdraw
  · cases hdraw
  · obtain ⟨pos, _, rfl⟩ := Option.map_eq_some_iff.mp hdraw
    exact ⟨rfl, rfl, hne, hkey⟩

/-- Each is drawn once. -/
theorem nodup_remotes : ((s.remotes nowMs order).map RenderedPlayer.id).Nodup := by
  have hsub : ((s.remotes nowMs order).map RenderedPlayer.id).Sublist
      ((order.order s.client.latestAuthoritative).map Prod.fst) := by
    unfold remotes
    generalize order.order s.client.latestAuthoritative = entries
    induction entries with
    | nil => exact List.Sublist.slnil
    | cons e rest ih =>
      cases hdraw : s.drawRemote nowMs e with
      | none =>
        rw [List.filterMap_cons_none hdraw]
        exact ih.cons e.1
      | some p =>
        rw [List.filterMap_cons_some hdraw, List.map_cons, List.map_cons,
          ((drawRemote_iff nowMs s e p.id).mp ⟨p, hdraw, rfl⟩).1]
        exact ih.cons_cons p.id
  exact hsub.nodup (order.enumerates s.client.latestAuthoritative).1

/-- The ghost of a frame. -/
def ghost (s : Screen F) : Option (RenderedPlayer F) :=
  (if s.showGhost then s.client.latestAuthoritative.find? s.client.myPid else none).map
    fun ps ↦ ⟨s.client.myPid, ps.pos, false, true⟩

/-- The local player of a frame. -/
def own (s : Screen F) : RenderedPlayer F := ⟨s.client.myPid, s.client.localPos, true, false⟩

/-- What a frame draws. -/
theorem toDraw_eq :
    s.toDraw nowMs order = s.own :: (s.remotes nowMs order ++ s.ghost.toList) := by
  unfold toDraw own remotes ghost
  rw [Option.toList_map]

/-- The ghost is one of the local player. -/
theorem of_mem_ghost {p : RenderedPlayer F} (hp : p ∈ s.ghost.toList) :
    p.isGhost = true ∧ p.id = s.client.myPid := by
  obtain ⟨ps, _, rfl⟩ := Option.map_eq_some_iff.mp (Option.mem_toList.mp hp)
  exact ⟨rfl, rfl⟩

/-- All but the ghost. -/
theorem filter_toDraw :
    (s.toDraw nowMs order).filter (fun p ↦ !p.isGhost) = s.own :: s.remotes nowMs order := by
  rw [toDraw_eq, List.filter_cons_of_pos rfl, List.filter_append]
  have hremote : (s.remotes nowMs order).filter (fun p ↦ !p.isGhost) = s.remotes nowMs order :=
    List.filter_eq_self.mpr fun p hp ↦ by rw [(s.of_mem_remotes nowMs order hp).2.1]; rfl
  have hghost : s.ghost.toList.filter (fun p ↦ !p.isGhost) = [] :=
    List.filter_eq_nil_iff.mpr fun p hp ↦ by rw [(s.of_mem_ghost hp).1]; exact Bool.false_ne_true
  rw [hremote, hghost, List.append_nil]

/-- The ghost alone. -/
theorem ghosts_toDraw :
    (s.toDraw nowMs order).filter RenderedPlayer.isGhost = s.ghost.toList := by
  rw [toDraw_eq, List.filter_cons_of_neg Bool.false_ne_true, List.filter_append]
  have hremote : (s.remotes nowMs order).filter RenderedPlayer.isGhost = [] :=
    List.filter_eq_nil_iff.mpr fun p hp ↦ by
      rw [(s.of_mem_remotes nowMs order hp).2.1]
      exact Bool.false_ne_true
  rw [hremote, List.nil_append]
  exact List.filter_eq_self.mpr fun p hp ↦ (s.of_mem_ghost hp).1

/-- The local player alone. -/
theorem local_toDraw :
    (s.toDraw nowMs order).filter (fun p ↦ !p.isGhost && p.isLocal) = [s.own] := by
  have hremote : (s.remotes nowMs order).filter RenderedPlayer.isLocal = [] :=
    List.filter_eq_nil_iff.mpr fun p hp ↦ by
      rw [(s.of_mem_remotes nowMs order hp).1]
      exact Bool.false_ne_true
  have hsplit := List.filter_filter (p := RenderedPlayer.isLocal) (q := fun p ↦ !p.isGhost)
    (l := s.toDraw nowMs order)
  rw [filter_toDraw, List.filter_cons_of_pos rfl, hremote] at hsplit
  rw [hsplit]
  exact List.filter_congr fun p _ ↦ Bool.and_comm _ _

/-- The ids in a frame, without the ghost, are different ids of players. -/
theorem nodup_ids (h : s.client.Known) :
    ((s.own :: s.remotes nowMs order).map RenderedPlayer.id).Nodup ∧
      ∀ p ∈ s.own :: s.remotes nowMs order, p.id ∈ Srv.SessionManager.playerIds := by
  refine ⟨List.nodup_cons.mpr ⟨fun hmem ↦ ?_, s.nodup_remotes nowMs order⟩, fun p hp ↦ ?_⟩
  · obtain ⟨p, hp, hid⟩ := List.mem_map.mp hmem
    exact (s.of_mem_remotes nowMs order hp).2.2.1 hid
  · rcases List.mem_cons.mp hp with rfl | hp
    · exact h.own
    · exact h.stored p.id (s.of_mem_remotes nowMs order hp).2.2.2

/-- A frame has at most `MAX_PLAYERS` players and a ghost. -/
theorem length_toDraw (h : s.client.Known) : (s.toDraw nowMs order).length ≤ maxPlayers + 1 := by
  obtain ⟨hnodup, hids⟩ := s.nodup_ids nowMs order h
  have hplayers : (s.own :: s.remotes nowMs order).length ≤ maxPlayers := by
    rw [← List.length_map RenderedPlayer.id, ← List.toFinset_card_of_nodup hnodup,
      ← Srv.SessionManager.card_playerIds]
    refine Finset.card_le_card fun id hid ↦ ?_
    obtain ⟨p, hp, rfl⟩ := List.mem_map.mp (List.mem_toFinset.mp hid)
    exact hids p hp
  have hghost : s.ghost.toList.length ≤ 1 := Option.length_toList_le
  rw [toDraw_eq, ← List.cons_append, List.length_append]
  exact Nat.add_le_add hplayers hghost

/-- The fills of the local player and the remote ones are different. -/
theorem nodup_fillColor (h : s.client.Known) (fontLoaded : Bool) :
    ((s.own :: s.remotes nowMs order).map
      fun p ↦ (drawPlayer fontLoaded p).fillColor).Nodup := by
  obtain ⟨hnodup, hids⟩ := s.nodup_ids nowMs order h
  have hcolor : (s.own :: s.remotes nowMs order).map
      (fun p ↦ (drawPlayer fontLoaded p).fillColor) =
        ((s.own :: s.remotes nowMs order).map RenderedPlayer.id).map colorFor := by
    rw [List.map_map]
    refine List.map_congr_left fun p hp ↦ fillColor_drawPlayer fontLoaded ?_
    rw [← filter_toDraw] at hp
    exact Bool.not_eq_true' _ ▸ (List.mem_filter.mp hp).2
  rw [hcolor]
  refine hnodup.map_on fun a ha b hb hab ↦ colorFor_injOn ?_ ?_ hab
  · obtain ⟨p, hp, rfl⟩ := List.mem_map.mp ha
    exact hids p hp
  · obtain ⟨p, hp, rfl⟩ := List.mem_map.mp hb
    exact hids p hp

/-- Frames of a client that knows only ids of players are legible. -/
theorem legible (h : s.client.Known) (fontLoaded : Bool) :
    Legible s.client.localPos (drawPlayers fontLoaded (s.toDraw nowMs order)) := by
  constructor
  · rw [filter_drawPlayers fontLoaded _ (solid_drawPlayer fontLoaded), filter_toDraw,
      List.map_map]
    exact s.nodup_fillColor nowMs order h fontLoaded
  · refine ⟨drawPlayer fontLoaded s.own, ?_, rfl, solid_drawPlayer fontLoaded s.own, ?_⟩
    · rw [filter_drawPlayers fontLoaded _ (outlined_drawPlayer fontLoaded), local_toDraw]
      rfl
    · intro g hg hfaint
      obtain ⟨p, hp, rfl⟩ := List.mem_map.mp hg
      rw [solid_drawPlayer, Bool.not_eq_false'] at hfaint
      have hmem : p ∈ s.ghost.toList := by
        rw [← s.ghosts_toDraw nowMs order]
        exact List.mem_filter.mpr ⟨hp, hfaint⟩
      unfold drawPlayer
      rw [hfaint, (s.of_mem_ghost hmem).2]
      rfl
  · have hfaint (p : RenderedPlayer F) : (!(drawPlayer fontLoaded p).solid) = p.isGhost := by
      rw [solid_drawPlayer, Bool.not_not]
    rw [filter_drawPlayers fontLoaded _ hfaint, ghosts_toDraw, List.length_map]
    exact Option.length_toList_le
  · rw [drawPlayers, List.length_map]
    exact s.length_toDraw nowMs order h

end Screen
end Cl

/-! ### The system -/

namespace Net

open Srv Cl

/-- Whatever the user toggles and whenever it is drawn, a frame of a client in its main loop is
legible. -/
def Process.Legible [FloatArith F32] : Process → Prop
  | .playing p => ∀ (showGhost interpolationEnabled fontLoaded : Bool) (nowMs : UInt64)
    (order : UMap.Traversal UInt16 (PlayerState F32)),
    Cl.Legible p.client.localPos (drawPlayers fontLoaded
      ((⟨p.client, showGhost, interpolationEnabled⟩ : Screen F32).toDraw nowMs order))
  | _ => True

variable {D : Type} [FloatOps D] {Q : PriorityQueue Pending Pending.deliverAtUs} [FloatArith F32]

/-- In every run, whatever the conditioners drop and delay, every frame of every client is
legible. -/
theorem Conditioned.legible_run (serverEp : Endpoint) (cfg : Endpoint → LaggedSocketConfig D)
    (serverCfg : LaggedSocketConfig D) (as : List (Conditioned.Action D)) (e : Endpoint) :
    (((init serverEp cfg serverCfg : Conditioned D Q).run as).process e).Legible := by
  obtain ⟨acts, h, _, hsplits⟩ := exists_splits (Q := Q) serverEp cfg serverCfg as
  have hprocess := (h.sourced hsplits.sourced).process e
  revert hprocess
  cases ((init serverEp cfg serverCfg : Conditioned D Q).run as).process e with
  | playing p =>
    rintro ⟨⟨ja, hja, hid⟩, ⟨_, _, _, hclient⟩, _⟩ showGhost interpolationEnabled fontLoaded nowMs order
    refine Screen.legible nowMs order ⟨p.client, showGhost, interpolationEnabled⟩
      ⟨hid ▸ hja.mem_playerIds, fun id hmem ↦ ?_⟩ fontLoaded
    obtain ⟨ps, hps⟩ := Option.isSome_iff_exists.mp ((UMap.mem_keys _ _).mp hmem)
    obtain ⟨rfl, snap, hsnap, hrecord⟩ := hclient.stored id ps hps
    exact hsnap.broadcasts.mem_playerIds ps hrecord
  | _ => exact fun _ ↦ trivial

end Net
end LightningLink
