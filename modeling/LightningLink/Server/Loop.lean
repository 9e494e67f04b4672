import LightningLink.Common.Pacing
import LightningLink.Server.Stream

/-!
# Main loop of the optimized server

Library `Server`. Models the loop of `server/server.cpp:49–72` over the steps of the server. An
iteration handles the datagrams that have arrived, reads the clock, and ticks if it is time.
-/

namespace LightningLink.Srv

/-- What an iteration of `Server::run` receives and reads. -/
structure Turn (F : Type) where
  /-- Datagrams that `handle_inbound_udp` receives, with the clock readings it makes. -/
  arrivals : List (Int × Endpoint × List UInt8)
  arrivals_le : arrivals.length ≤ 256
  now : Int
  /-- Clock reading of `reap_timeouts`. -/
  reapedAt : Int
  order : TickOrder F

namespace Turn

variable {F : Type}

/-- Events of `handle_inbound_udp`. -/
def inbound (a : Turn F) : List (Event F) := a.arrivals.map fun d ↦ .datagram d.1 d.2.1 d.2.2

/-- Event of `tick_and_maybe_broadcast`. -/
def tick (a : Turn F) : Event F := .tick a.reapedAt a.order

/-- Events of an iteration. -/
def events (p : Scheduled (Server F)) (a : Turn F) : List (Event F) :=
  a.inbound ++ if p.next ≤ a.now then [a.tick] else []

end Turn

namespace Server

variable {F : Type} [FloatArith F] [FloatBits F]

/-- `server/server.cpp:49–72`. -/
def loop : Loop (Server F) (Turn F) where
  period := tickPeriod
  now a := a.now
  work a s := s.run a.inbound
  step a s := s.step a.tick

/-- The loop only reaches states that events reach. -/
theorem state_run_loop (p : Scheduled (Server F)) (as : List (Turn F)) :
    (loop.run p as).state = p.state.run (loop.events Turn.events p as) := by
  refine loop.state_run_of_events Turn.events step (fun p a ↦ ?_) p as
  rw [Loop.state_iterate, Turn.events, List.foldl_append]
  change (if p.next ≤ a.now then _ else _) = _
  split <;> rfl

/-- Datagrams do not count as ticks. -/
theorem tick_run_inbound (s : Server F) (a : Turn F) :
    (s.run a.inbound).world.tick = s.world.tick := by
  unfold Turn.inbound
  induction a.arrivals generalizing s with
  | nil => rfl
  | cons d ds ih =>
    change ((s.step _).run _).world.tick = _
    rw [ih, tick_step]
    rfl

/-- The world counts the steps of the schedule. -/
theorem tick_run_loop (p : Scheduled (Server F)) (as : List (Turn F)) :
    (loop.run p as).state.world.tick =
      p.state.world.tick + UInt32.ofNat (loop.executed p as).length := by
  induction as generalizing p with
  | nil => exact (UInt32.add_zero _).symm
  | cons a as ih =>
    rw [Loop.run, List.foldl_cons, ← Loop.run, ih, Loop.state_iterate, Loop.executed,
      List.length_append, UInt32.ofNat_add, ← UInt32.add_assoc]
    have hwork : (loop.work a p.state).world.tick = p.state.world.tick := tick_run_inbound _ _
    by_cases hdue : p.next ≤ loop.now a
    · rw [if_pos hdue, if_pos hdue]
      change ((loop.work a p.state).step a.tick).world.tick + _ = _
      rw [tick_step, hwork]
      rfl
    · rw [if_neg hdue, if_neg hdue]
      change (loop.work a p.state).world.tick + _ = p.state.world.tick + 0 + _
      rw [hwork, UInt32.add_zero]

end Server
end LightningLink.Srv
