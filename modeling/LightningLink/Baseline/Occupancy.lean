import LightningLink.Baseline.Intake
import LightningLink.Server.SessionManager

/-!
# Store invariant of the baseline server

Library `Baseline`. The clients of the baseline server have distinct ids in range, and the world has
records for exactly these ids. Every event keeps this as long as descriptors are unique among open
connections.
-/

namespace LightningLink.Baseline

open Support FloatArith Srv

/-! ### Ids -/

/-- Some client has an id. -/
theorem taken_iff (clients : UMap Int TcpClient) (id : UInt16) :
    taken clients id = true ↔ ∃ fd c, clients.find? fd = some c ∧ c.playerId = id := by
  rw [taken, decide_eq_true_eq]
  constructor
  · rintro ⟨fd, _, hany⟩
    obtain ⟨c, hc, hid⟩ := (Option.any_eq_true _ _).mp hany
    exact ⟨fd, c, hc, of_decide_eq_true hid⟩
  · rintro ⟨fd, c, hc, rfl⟩
    exact ⟨fd, (UMap.mem_keys _ _).mpr (by rw [hc]; rfl), by simp [hc]⟩

/-- The allocated id is free and in range, or all ids are taken. -/
theorem allocId_cases (clients : UMap Int TcpClient) :
    (allocId clients = 0 ∧
      ∀ id, 1 ≤ id.toNat → id.toNat ≤ maxPlayers → taken clients id = true) ∨
    (1 ≤ (allocId clients).toNat ∧ (allocId clients).toNat ≤ maxPlayers ∧
      taken clients (allocId clients) = false) := by
  unfold allocId
  cases hfind : ((List.range maxPlayers).map fun i ↦ UInt16.ofNat (i + 1)).find? fun id ↦
      !taken clients id with
  | none =>
    left
    refine ⟨rfl, fun id hpos hle ↦ ?_⟩
    have hmem : id ∈ (List.range maxPlayers).map fun i ↦ UInt16.ofNat (i + 1) :=
      List.mem_map.mpr ⟨id.toNat - 1, List.mem_range.mpr (by omega),
        SessionManager.searched_eq hpos⟩
    simpa using List.find?_eq_none.mp hfind id hmem
  | some id =>
    right
    obtain ⟨i, hi, rfl⟩ := List.mem_map.mp (List.mem_of_find?_eq_some hfind)
    have hlt := List.mem_range.mp hi
    rw [Option.getD_some, SessionManager.toNat_searched hlt]
    exact ⟨by omega, by omega, by simpa using List.find?_some hfind⟩

/-! ### Worlds -/

section

variable {F : Type}

/-- Calls neither add nor remove a record, and leave its id alone. -/
theorem map_id_applyCalls (id a : UInt16) (calls : List (UInt32 × Int8 × Int8))
    (w : WorldState F × UInt64) :
    ((applyCalls id calls w).1.get a).map (fun p ↦ p.state.id) =
      (w.1.get a).map fun p ↦ p.state.id := by
  induction calls generalizing w with
  | nil => rfl
  | cons call calls ih =>
    refine (ih _).trans ?_
    rw [WorldState.get_applyInput]
    split
    · rw [Option.map_map]
      congr 1
      funext p
      exact ServerPlayer.input_id p _ _ _
    · rfl

end

namespace BaselineServer

variable {F : Type}

/-- The store invariant: ids in range and distinct, entries under their descriptors or marked, and
a record for each id of a client. -/
structure Occupied (s : BaselineServer F) : Prop where
  range : ∀ fd c, s.clients.find? fd = some c →
    1 ≤ c.playerId.toNat ∧ c.playerId.toNat ≤ maxPlayers
  distinct : ∀ fd fd' c c', s.clients.find? fd = some c → s.clients.find? fd' = some c' →
    c.playerId = c'.playerId → fd = fd'
  mark : ∀ fd c, s.clients.find? fd = some c → 0 ≤ fd ∧ (c.fd = fd ∨ c.fd = -1)
  world : ∀ id, (∃ fd c, s.clients.find? fd = some c ∧ c.playerId = id) ↔
    (s.world.get id).isSome = true
  key : ∀ id p, s.world.get id = some p → p.state.id = id

/-- A descriptor that is accepted is not that of an open connection. -/
def Fresh (s : BaselineServer F) : ServerEvent F → Prop
  | .accept fd _ => 0 ≤ fd ∧ s.clients.find? fd = none
  | _ => True

/-! ### Events -/

/-- A connection that is accepted gets the allocated id. -/
theorem accept_of_ne [FloatArith F] [FloatText F] {s : BaselineServer F}
    (h : allocId s.clients ≠ 0) (fd now : Int) : (s.accept fd now).1 = { s with
      world := (s.world.addPlayer (allocId s.clients)).2
      clients := s.clients.assign fd ⟨fd, allocId s.clients, [], now⟩ } := by
  unfold accept
  rw [if_neg h]

/-- A client that is marked or at the end of its stream is removed. -/
theorem read_of_gone {s : BaselineServer F} {fd : Int} {c : TcpClient}
    (hc : s.clients.find? fd = some c) {eof : Bool} (hgone : c.fd < 0 ∨ eof = true)
    (received : List Char) (clock : Nat → Int) : s.read fd received eof clock = { s with
      world := (s.world.removePlayer c.playerId).2
      clients := s.clients.erase fd } := by
  unfold read
  rw [hc]
  dsimp only
  by_cases hmark : c.fd < 0
  · rw [if_pos hmark, if_pos hmark]
  · rw [if_neg hmark, if_pos (hgone.resolve_left hmark)]
    rfl

/-- A client that stays has its lines processed. -/
theorem read_of_stays {s : BaselineServer F} {fd : Int} {c : TcpClient}
    (hc : s.clients.find? fd = some c) {eof : Bool} (hstays : ¬ (c.fd < 0 ∨ eof = true))
    (received : List Char) (clock : Nat → Int) :
    let r := processLines clock ({ c with rxBuffer := c.rxBuffer ++ received }, s.world,
      s.inputsReceived)
    s.read fd received eof clock = { s with
      world := r.2.1
      clients := s.clients.assign fd r.1
      inputsReceived := r.2.2 } := by
  obtain ⟨hmark, heof⟩ := not_or.mp hstays
  unfold read
  rw [hc]
  simp only [if_neg hmark, if_neg heof]

/-! ### The invariant -/

/-- A server that has just started has no clients. -/
theorem occupied_init : (init : BaselineServer F).Occupied := by
  refine ⟨?_, ?_, ?_, ?_, ?_⟩ <;> simp [init, WorldState.init, WorldState.get]

/-- A client that has an id keeps others from it. -/
theorem Occupied.get_eq_none {s : BaselineServer F} (h : s.Occupied) {id : UInt16}
    (hfree : taken s.clients id = false) : s.world.get id = none := by
  rw [← Option.not_isSome_iff_eq_none, ← h.world, ← taken_iff, hfree]
  exact Bool.false_ne_true

/-- A client with an id that is free keeps the invariant. -/
theorem Occupied.join [FloatArith F] {s : BaselineServer F} (h : s.Occupied) {fd : Int}
    (hpos : 0 ≤ fd) (hfresh : s.clients.find? fd = none) {id : UInt16} (hlo : 1 ≤ id.toNat)
    (hhi : id.toNat ≤ maxPlayers) (hfree : taken s.clients id = false) (now : Int) :
    Occupied { s with
      world := (s.world.addPlayer id).2
      clients := s.clients.assign fd ⟨fd, id, [], now⟩ } := by
  have hnone := h.get_eq_none hfree
  have hother : ∀ fd' c, s.clients.find? fd' = some c → c.playerId ≠ id := by
    intro fd' c hc hid
    rw [(taken_iff _ _).mpr ⟨fd', c, hc, hid⟩] at hfree
    cases hfree
  have hget (a : UInt16) : (s.world.addPlayer id).2.get a =
      if a = id then some (ServerPlayer.spawn id) else s.world.get a := by
    rw [WorldState.get_addPlayer]
    simp only [hnone, and_true]
  constructor
  · intro fd' c hc
    dsimp only at hc
    rw [UMap.find?_assign] at hc
    split at hc
    · rw [← Option.some.inj hc]
      exact ⟨hlo, hhi⟩
    · exact h.range fd' c hc
  · intro fd₁ fd₂ c₁ c₂ h₁ h₂ hid
    dsimp only at h₁ h₂
    rw [UMap.find?_assign] at h₁ h₂
    split at h₁ <;> split at h₂
    · next e₁ e₂ => rw [e₁, e₂]
    · rw [← Option.some.inj h₁] at hid
      exact absurd hid.symm (hother fd₂ c₂ h₂)
    · rw [← Option.some.inj h₂] at hid
      exact absurd hid (hother fd₁ c₁ h₁)
    · exact h.distinct fd₁ fd₂ c₁ c₂ h₁ h₂ hid
  · intro fd' c hc
    dsimp only at hc
    rw [UMap.find?_assign] at hc
    split at hc
    · next hfd =>
      rw [← Option.some.inj hc, hfd]
      exact ⟨hpos, Or.inl rfl⟩
    · exact h.mark fd' c hc
  · intro a
    dsimp only
    rw [hget]
    by_cases ha : a = id
    · rw [if_pos ha]
      refine ⟨fun _ ↦ rfl, fun _ ↦ ⟨fd, ⟨fd, id, [], now⟩, ?_, ha.symm⟩⟩
      rw [UMap.find?_assign, if_pos rfl]
    · rw [if_neg ha, ← h.world]
      constructor
      · rintro ⟨fd', c, hc, hid⟩
        rw [UMap.find?_assign] at hc
        split at hc
        · rw [← Option.some.inj hc] at hid
          exact absurd hid.symm ha
        · exact ⟨fd', c, hc, hid⟩
      · rintro ⟨fd', c, hc, hid⟩
        have hfd : fd' ≠ fd := by
          rintro rfl
          rw [hfresh] at hc
          cases hc
        exact ⟨fd', c, by rw [UMap.find?_assign, if_neg hfd, hc], hid⟩
  · intro a p hp
    dsimp only at hp
    rw [hget] at hp
    split at hp
    · next ha =>
      rw [← Option.some.inj hp, ha]
      rfl
    · exact h.key a p hp

/-- A fresh descriptor keeps the invariant, whether it gets an id or not. -/
theorem Occupied.accept [FloatArith F] [FloatText F] {s : BaselineServer F} (h : s.Occupied)
    {fd : Int} (hpos : 0 ≤ fd) (hfresh : s.clients.find? fd = none) (now : Int) :
    (s.accept fd now).1.Occupied := by
  rcases allocId_cases s.clients with ⟨hzero, _⟩ | ⟨hlo, hhi, hfree⟩
  · unfold BaselineServer.accept
    rwa [if_pos hzero]
  · have hne : allocId s.clients ≠ 0 := by
      intro hzero
      rw [hzero] at hlo
      exact absurd hlo (by decide)
    rw [accept_of_ne hne]
    exact h.join hpos hfresh hlo hhi hfree now

/-- Removing a client with its record keeps the invariant. -/
theorem Occupied.remove {s : BaselineServer F} (h : s.Occupied) {fd : Int} {c : TcpClient}
    (hc : s.clients.find? fd = some c) : Occupied { s with
      world := (s.world.removePlayer c.playerId).2
      clients := s.clients.erase fd } := by
  have hfind {fd' : Int} {c' : TcpClient} (h' : (s.clients.erase fd).find? fd' = some c') :
      fd' ≠ fd ∧ s.clients.find? fd' = some c' := by
    rw [UMap.find?_erase] at h'
    split at h'
    · cases h'
    · next hne => exact ⟨hne, h'⟩
  constructor
  · exact fun fd' c' hc' ↦ h.range fd' c' (hfind hc').2
  · exact fun fd₁ fd₂ c₁ c₂ h₁ h₂ ↦ h.distinct fd₁ fd₂ c₁ c₂ (hfind h₁).2 (hfind h₂).2
  · exact fun fd' c' hc' ↦ h.mark fd' c' (hfind hc').2
  · intro a
    dsimp only
    rw [WorldState.get_removePlayer]
    by_cases ha : a = c.playerId
    · rw [if_pos ha]
      simp only [Option.isSome_none, Bool.false_eq_true, iff_false]
      rintro ⟨fd', c', hc', hid⟩
      obtain ⟨hne, hold⟩ := hfind hc'
      exact hne (h.distinct fd' fd c' c hold hc (hid.trans ha))
    · rw [if_neg ha, ← h.world]
      constructor
      · rintro ⟨fd', c', hc', hid⟩
        exact ⟨fd', c', (hfind hc').2, hid⟩
      · rintro ⟨fd', c', hc', hid⟩
        have hne : fd' ≠ fd := by
          rintro rfl
          rw [hc] at hc'
          rw [← Option.some.inj hc'] at hid
          exact ha hid.symm
        exact ⟨fd', c', by rw [UMap.find?_erase, if_neg hne, hc'], hid⟩
  · intro a p hp
    dsimp only at hp
    rw [WorldState.get_removePlayer] at hp
    split at hp
    · cases hp
    · exact h.key a p hp

/-- A client that keeps its id and its descriptor, or is marked, keeps the invariant in a world
with the same records. -/
theorem Occupied.update {s : BaselineServer F} (h : s.Occupied) {fd : Int} {c c' : TcpClient}
    (hc : s.clients.find? fd = some c) (hid : c'.playerId = c.playerId)
    (hfd : c'.fd = c.fd ∨ c'.fd = -1) {world : WorldState F}
    (hworld : ∀ a, (world.get a).map (fun p ↦ p.state.id) =
      (s.world.get a).map fun p ↦ p.state.id) (inputs : UInt64) :
    Occupied { s with
      world := world
      clients := s.clients.assign fd c'
      inputsReceived := inputs } := by
  have hfind {fd' : Int} {d : TcpClient} (h' : (s.clients.assign fd c').find? fd' = some d) :
      ∃ d', s.clients.find? fd' = some d' ∧ d.playerId = d'.playerId ∧
        (d.fd = d'.fd ∨ d.fd = -1) := by
    rw [UMap.find?_assign] at h'
    split at h'
    · next he =>
      rw [← Option.some.inj h', he]
      exact ⟨c, hc, hid, hfd⟩
    · exact ⟨d, h', rfl, Or.inl rfl⟩
  constructor
  · intro fd' d hd
    obtain ⟨d', hd', hsame, _⟩ := hfind hd
    rw [hsame]
    exact h.range fd' d' hd'
  · intro fd₁ fd₂ d₁ d₂ h₁ h₂ hids
    obtain ⟨e₁, he₁, hsame₁, _⟩ := hfind h₁
    obtain ⟨e₂, he₂, hsame₂, _⟩ := hfind h₂
    exact h.distinct fd₁ fd₂ e₁ e₂ he₁ he₂ (by rw [← hsame₁, ← hsame₂, hids])
  · intro fd' d hd
    obtain ⟨d', hd', _, hmark⟩ := hfind hd
    obtain ⟨hpos, hold⟩ := h.mark fd' d' hd'
    refine ⟨hpos, ?_⟩
    rcases hmark with hmark | hmark
    · rwa [hmark]
    · exact Or.inr hmark
  · intro a
    have hsome := congrArg Option.isSome (hworld a)
    rw [Option.isSome_map, Option.isSome_map] at hsome
    dsimp only
    rw [hsome, ← h.world]
    constructor
    · rintro ⟨fd', d, hd, rfl⟩
      obtain ⟨d', hd', hsame, _⟩ := hfind hd
      exact ⟨fd', d', hd', hsame.symm⟩
    · rintro ⟨fd', d, hd, rfl⟩
      by_cases he : fd' = fd
      · rw [he, hc] at hd
        rw [← Option.some.inj hd]
        exact ⟨fd, c', by rw [UMap.find?_assign, if_pos rfl], hid⟩
      · exact ⟨fd', d, by rw [UMap.find?_assign, if_neg he, hd], rfl⟩
  · intro a p hp
    have hkey := hworld a
    rw [show world.get a = some p from hp, Option.map_some, eq_comm, Option.map_eq_some_iff] at hkey
    obtain ⟨q, hq, heq⟩ := hkey
    rw [← heq]
    exact h.key a q hq

/-- The read loop at a client keeps the invariant. -/
theorem Occupied.read {s : BaselineServer F} (h : s.Occupied) (fd : Int) (received : List Char)
    (eof : Bool) (clock : Nat → Int) : (s.read fd received eof clock).Occupied := by
  cases hc : s.clients.find? fd with
  | none =>
    unfold BaselineServer.read
    rwa [hc]
  | some c =>
    by_cases hgone : c.fd < 0 ∨ eof = true
    · rw [read_of_gone hc hgone]
      exact h.remove hc
    · rw [read_of_stays hc hgone]
      obtain ⟨hid, _, hfd, hcalls⟩ := processLines_spec clock
        ({ c with rxBuffer := c.rxBuffer ++ received }, s.world, s.inputsReceived)
      refine h.update hc hid ?_ (fun a ↦ ?_) _
      · rw [hfd]
        split
        · exact Or.inr rfl
        · exact Or.inl rfl
      · rw [hcalls]
        exact map_id_applyCalls _ a _ _

/-- A tick keeps the invariant. -/
theorem Occupied.tick [FloatArith F] [FloatText F] {s : BaselineServer F} (h : s.Occupied)
    (players : UMap.Traversal UInt16 (ServerPlayer F)) (clients : UMap.Traversal Int TcpClient) :
    (s.tick players clients).1.Occupied := by
  have hstep : ∀ s' : BaselineServer F, s'.clients = s.clients → s'.world = s.world.stepTick →
      s'.Occupied := by
    intro s' hclients hworld
    refine ⟨?_, ?_, ?_, ?_, ?_⟩
    · rw [hclients]
      exact h.range
    · rw [hclients]
      exact h.distinct
    · rw [hclients]
      exact h.mark
    · intro a
      rw [hclients, hworld, WorldState.get_stepTick, Option.isSome_map]
      exact h.world a
    · intro a p hp
      rw [hworld, WorldState.get_stepTick, Option.map_eq_some_iff] at hp
      obtain ⟨q, hq, rfl⟩ := hp
      exact h.key a q hq
  unfold BaselineServer.tick
  dsimp only
  split <;> exact hstep _ rfl rfl

/-- Every event keeps the invariant. -/
theorem Occupied.step [FloatArith F] [FloatText F] {s : BaselineServer F} (h : s.Occupied)
    (ev : ServerEvent F) (hfresh : s.Fresh ev) : (s.step ev).Occupied := by
  cases ev with
  | accept fd now => exact h.accept hfresh.1 hfresh.2 now
  | read fd received eof clock => exact h.read fd received eof clock
  | tick players clients => exact h.tick players clients

/-- The invariant after a run. -/
theorem occupied_run [FloatArith F] [FloatText F] {s : BaselineServer F} (hs : s.Occupied)
    {evs : List (ServerEvent F)}
    (hfresh : EveryStep (fun past ev ↦ (s.run past).Fresh ev) evs) : (s.run evs).Occupied :=
  hfresh.invariant hs fun _ ev hev h ↦ h.step ev hev

end BaselineServer
end LightningLink.Baseline
