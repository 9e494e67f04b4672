import LightningLink.Common.Types
import LightningLink.Support.Cadence

/-!
# Loops at a fixed rate

Library `Common`. The pattern that the loops of both servers and the input steps of both
clients share, in `server/server.cpp:55–60`, `server/tcp_baseline.cpp:177–190`,
`client/client.cpp:257–304` and `client/tcp_baseline_client.cpp:268–290`. An iteration does its
work, reads the clock, and runs a step if `next` has been reached.
-/

namespace LightningLink

open Support

/-- `DT_SECONDS` in the nanoseconds of `steady_clock`; `duration_cast` truncates. -/
def tickPeriod : Int := 1000000000 / tickRateHz

/-- `INPUT_SEND_RATE_HZ`. -/
def inputSendRateHz : Nat := 60

/-- `1.0 / INPUT_SEND_RATE_HZ` in the nanoseconds of `steady_clock`. -/
def inputPeriod : Int := 1000000000 / inputSendRateHz

/-- A loop over states `S` whose iterations have the inputs `A`. -/
structure Loop (S A : Type) where
  period : Int
  /-- Clock reading that an iteration compares with `next`. -/
  now : A → Int
  /-- What every iteration does. -/
  work : A → S → S
  /-- What an iteration does at the fixed rate. -/
  step : A → S → S
  /-- What every iteration does afterwards. -/
  finish : A → S → S := fun _ s ↦ s

/-- Variables of a loop with its `next_tick`, `next_input_send` or `next_input`. -/
structure Scheduled (S : Type) where
  state : S
  next : Int

namespace Loop

variable {S A : Type} (l : Loop S A)

/-- One iteration, with the catch-up guard. -/
def iterate (p : Scheduled S) (a : A) : Scheduled S :=
  let s := l.work a p.state
  if p.next ≤ l.now a then
    let next := p.next + l.period
    ⟨l.finish a (l.step a s), if next < l.now a then l.now a else next⟩
  else ⟨l.finish a s, p.next⟩

/-- Variables after several iterations. -/
def run (p : Scheduled S) (as : List A) : Scheduled S := as.foldl l.iterate p

/-- Iterations in which a step is run. -/
def executed (p : Scheduled S) : List A → List A
  | [] => []
  | a :: as => (if p.next ≤ l.now a then [a] else []) ++ executed (l.iterate p a) as

/-- Events of several iterations, from those of one. -/
def events {E : Type} (occur : Scheduled S → A → List E) (p : Scheduled S) : List A → List E
  | [] => []
  | a :: as => occur p a ++ events occur (l.iterate p a) as

/-- Steps are run in iterations. -/
theorem executed_sublist (p : Scheduled S) (as : List A) : (l.executed p as).Sublist as := by
  induction as generalizing p with
  | nil => exact List.Sublist.refl []
  | cons a as ih =>
    rw [executed]
    split
    · exact (ih _).cons_cons a
    · exact (ih _).cons a

theorem run_concat (p : Scheduled S) (as : List A) (a : A) :
    l.run p (as ++ [a]) = l.iterate (l.run p as) a := List.foldl_concat ..

theorem events_concat {E : Type} (occur : Scheduled S → A → List E) (p : Scheduled S) (as : List A)
    (a : A) : l.events occur p (as ++ [a]) = l.events occur p as ++ occur (l.run p as) a := by
  induction as generalizing p with
  | nil => exact List.append_nil _
  | cons b as ih =>
    rw [List.cons_append, events, ih, events, List.append_assoc]
    rfl

/-- A step follows the work of an iteration that reaches `next`. -/
theorem state_iterate (p : Scheduled S) (a : A) :
    (l.iterate p a).state = l.finish a
      (if p.next ≤ l.now a then l.step a (l.work a p.state) else l.work a p.state) := by
  unfold iterate
  dsimp only
  split <;> rfl

/-- A loop that handles events in its iterations runs through all of them. -/
theorem state_run_of_events {E : Type} (occur : Scheduled S → A → List E) (f : S → E → S)
    (hoccur : ∀ p a, (l.iterate p a).state = (occur p a).foldl f p.state) (p : Scheduled S)
    (as : List A) : (l.run p as).state = (l.events occur p as).foldl f p.state := by
  induction as generalizing p with
  | nil => rfl
  | cons a as ih => rw [run, List.foldl_cons, ← run, ih, events, List.foldl_append, ← hoccur]

/-- The steps run are those that a counter of steps counts. -/
theorem count_run (count : S → Nat) (hwork : ∀ b s, count (l.work b s) = count s)
    (hstep : ∀ b s, count (l.step b s) = count s + 1)
    (hfinish : ∀ b s, count (l.finish b s) = count s) (p : Scheduled S) (as : List A) :
    count (l.run p as).state = count p.state + (l.executed p as).length := by
  induction as generalizing p with
  | nil => rfl
  | cons a as ih =>
    rw [run, List.foldl_cons, ← run, ih, state_iterate, hfinish, executed, List.length_append]
    by_cases hdue : p.next ≤ l.now a
    · rw [if_pos hdue, if_pos hdue, hstep, hwork, List.length_singleton]
      omega
    · rw [if_neg hdue, if_neg hdue, hwork, List.length_nil]
      omega

/-! ### The schedule -/

/-- The schedule of a loop does not depend on its states. -/
theorem next_iterate (p : Scheduled S) (a : A) :
    (l.iterate p a).next = Cadence.advance l.period p.next (l.now a) := by
  unfold iterate Cadence.advance
  dsimp only
  split <;> rfl

theorem next_run (p : Scheduled S) (as : List A) :
    (l.run p as).next = Cadence.nextAfter l.period p.next (as.map l.now) := by
  induction as generalizing p with
  | nil => rfl
  | cons a as ih =>
    rw [run, List.foldl_cons, ← run, ih, next_iterate]
    rfl

/-- Steps are run at the readings of the schedule. -/
theorem map_now_executed (p : Scheduled S) (as : List A) :
    (l.executed p as).map l.now = Cadence.executed l.period p.next (as.map l.now) := by
  induction as generalizing p with
  | nil => rfl
  | cons a as ih =>
    rw [executed, List.map_append, ih, next_iterate, List.map_cons, Cadence.executed]
    by_cases h : p.next ≤ l.now a
    · rw [if_pos h, if_pos h]
      rfl
    · rw [if_neg h, if_neg h, Cadence.advance_of_lt (Int.not_le.mp h)]
      rfl

/-- The steps run within a window are counted at its readings. -/
theorem countP_executed (p : Scheduled S) (as : List A) (q : Int → Bool) :
    (l.executed p as).countP (fun b ↦ q (l.now b)) =
      (Cadence.executed l.period p.next (as.map l.now)).countP q := by
  rw [← map_now_executed, List.countP_map]
  rfl

/-- At most a step for each period of a window, and two more. -/
theorem countP_executed_window (hd : 0 < l.period) (p : Scheduled S) (as : List A)
    {first last : Int} (hwindow : first ≤ last) :
    ((l.executed p as).countP (fun b ↦ first ≤ l.now b ∧ l.now b ≤ last) : Int) ≤
      (last - first) / l.period + 2 := by
  have hcount := Cadence.countP_executed_window hd.le p.next first last (as.map l.now) hwindow
  rw [← countP_executed] at hcount
  exact Cadence.le_ediv_add hd (Int.sub_nonneg_of_le hwindow) 2 hcount

/-- At most a step for each period since the start, and the first one. -/
theorem length_executed_le (hd : 0 < l.period) (p : Scheduled S) (as : List A) {last : Int}
    (hle : ∀ b ∈ as, l.now b ≤ last) (hstart : p.next ≤ last) :
    ((l.executed p as).length : Int) ≤ (last - p.next) / l.period + 1 := by
  have hall : (Cadence.executed l.period p.next (as.map l.now)).countP (fun t ↦ t ≤ last) =
      (l.executed p as).length := by
    rw [← List.length_map (f := l.now), map_now_executed, List.countP_eq_length]
    intro t ht
    have hread := (Cadence.executed_sublist p.next _).subset ht
    rw [List.mem_map] at hread
    obtain ⟨b, hb, rfl⟩ := hread
    exact decide_eq_true (hle b hb)
  have hcount := Cadence.countP_executed_le hd.le p.next last (as.map l.now)
  rw [hall] at hcount
  refine Cadence.le_ediv_add hd (Int.sub_nonneg_of_le hstart) 1 fun hk ↦ ?_
  rw [Nat.cast_one, Int.one_mul]
  exact hcount hk

/-- After a step the next one is at most a period away. -/
theorem next_iterate_le (hd : 0 < l.period) (p : Scheduled S) {a : A} (h : p.next ≤ l.now a) :
    (l.iterate p a).next ≤ l.now a + l.period := by
  rw [next_iterate]
  exact Cadence.advance_le hd.le h

/-- Steady readings miss no step. -/
theorem length_executed_of_steady (hd : 0 < l.period) (p : Scheduled S) (a : A) (as : List A)
    (hstart : p.next ≤ l.now a) (hfirst : l.now a < p.next + l.period)
    (hsorted : ((a :: as).map l.now).Pairwise (· ≤ ·))
    (hgaps : ((a :: as).map l.now).IsChain (fun s t ↦ t ≤ s + l.period)) :
    ((l.executed p (a :: as)).length : Int) =
      ((as.map l.now).getLastD (l.now a) - p.next) / l.period + 1 := by
  have hadvance : Cadence.advance l.period p.next (l.now a) = p.next + l.period := by
    unfold Cadence.advance
    rw [if_pos hstart, if_neg (by omega)]
  have hrest := Cadence.length_executed_of_steady (l.now a) (p.next + l.period) (as.map l.now)
    hfirst (by omega) hsorted hgaps
  rw [← List.length_map (f := l.now), map_now_executed, List.map_cons, Cadence.executed,
    if_pos hstart, hadvance, List.length_cons]
  generalize (as.map l.now).getLastD (l.now a) = last at hrest ⊢
  dsimp only at hrest
  generalize (Cadence.executed l.period (p.next + l.period) (as.map l.now)).length = k at hrest ⊢
  have hquotient : (last - p.next) / l.period = k := by
    rw [Int.ediv_eq_iff_of_pos hd]
    constructor
    · linarith [hrest.2]
    · linarith [hrest.1]
  push_cast
  omega

/-- Steps neither run ahead of the period nor pile up after a stall, steady readings miss none,
and a state that counts its steps counts these. -/
theorem steps_bounded (hd : 0 < l.period) (start : S) (t₀ : Int) (as : List A) (a : A)
    (hclock : (t₀ :: (as ++ [a]).map l.now).Pairwise (· ≤ ·)) :
    let p : Scheduled S := ⟨start, t₀⟩
    let steps := l.executed p (as ++ [a])
    (steps.length : Int) ≤ (l.now a - t₀) / l.period + 1 ∧
    (∀ first last, first ≤ last →
      (steps.countP (fun b ↦ first ≤ l.now b ∧ l.now b ≤ last) : Int) ≤
        (last - first) / l.period + 2) ∧
    ((l.run p as).next ≤ l.now a → (l.run p (as ++ [a])).next ≤ l.now a + l.period) ∧
    ((∀ b ∈ (as ++ [a]).head?, l.now b < t₀ + l.period) →
      ((as ++ [a]).map l.now).IsChain (fun s t ↦ t ≤ s + l.period) →
      (steps.length : Int) = (l.now a - t₀) / l.period + 1) ∧
    ∀ count : S → Nat, (∀ b s, count (l.work b s) = count s) →
      (∀ b s, count (l.step b s) = count s + 1) → (∀ b s, count (l.finish b s) = count s) →
      count (l.run p (as ++ [a])).state = count start + steps.length := by
  intro p steps
  obtain ⟨hstart, hsorted⟩ := List.pairwise_cons.mp hclock
  have hlast : ∀ b ∈ as ++ [a], l.now b ≤ l.now a := by
    intro b hb
    rw [List.map_append, List.pairwise_append] at hsorted
    rw [List.mem_append, List.mem_singleton] at hb
    cases hb with
    | inl h => exact hsorted.2.2 _ (List.mem_map_of_mem h) _ (List.mem_singleton.mpr rfl)
    | inr h => exact (congrArg l.now h).le
  have hmem : l.now a ∈ (as ++ [a]).map l.now := List.mem_map_of_mem (by simp)
  refine ⟨l.length_executed_le hd p _ hlast (hstart _ hmem), ?_, ?_, ?_, ?_⟩
  · intro first last hwindow
    exact l.countP_executed_window hd p _ hwindow
  · intro hdue
    rw [run_concat]
    exact l.next_iterate_le hd _ hdue
  · intro hfirst hgaps
    cases as with
    | nil =>
      exact l.length_executed_of_steady hd p a [] (hstart _ hmem) (hfirst a rfl) hsorted hgaps
    | cons b as =>
      have hsteps := l.length_executed_of_steady hd p b (as ++ [a])
        (hstart _ List.mem_cons_self) (hfirst b rfl) hsorted hgaps
      rw [List.map_append, List.map_singleton, List.getLastD_concat] at hsteps
      exact hsteps
  · intro count hwork hstep hfinish
    exact l.count_run count hwork hstep hfinish p (as ++ [a])

/-- Steps of a loop that counts them: a stalled one makes up for two of those it has missed, and
a steady one misses none. -/
theorem steps_bounded_stalled :
    let l : Loop Nat Int := ⟨tickPeriod, id, fun _ s ↦ s, fun _ s ↦ s + 1, fun _ s ↦ s⟩
    let stalled := l.run ⟨0, 5⟩ ([5, 90000000, 90000001] ++ [90000002])
    let burst := (l.executed ⟨0, 5⟩ ([5, 90000000, 90000001] ++ [90000002])).countP fun t ↦
      90000000 ≤ t ∧ t ≤ 90000002
    let steady := l.run ⟨0, 5⟩ ([5, 9000000, 20000000] ++ [35000000])
    ((stalled.state : Int) ≤ (90000002 - 5) / tickPeriod + 1 ∧
      (burst : Int) ≤ (90000002 - 90000000) / tickPeriod + 2) ∧
    (stalled.state = 3 ∧ burst = 2) ∧
    (steady.state : Int) = (35000000 - 5) / tickPeriod + 1 := by
  intro l stalled burst steady
  obtain ⟨hle, hwindow, _, _, hcount⟩ := l.steps_bounded (by decide) 0 5 [5, 90000000, 90000001]
    90000002 (by decide)
  obtain ⟨_, _, _, hsteady, hcount'⟩ := l.steps_bounded (by decide) 0 5 [5, 9000000, 20000000]
    35000000 (by decide)
  have hstalled := hcount id (fun _ _ ↦ rfl) (fun _ _ ↦ rfl) fun _ _ ↦ rfl
  have hsteps := hcount' id (fun _ _ ↦ rfl) (fun _ _ ↦ rfl) fun _ _ ↦ rfl
  rw [id_eq, id_eq, Nat.zero_add] at hstalled hsteps
  refine ⟨⟨hstalled ▸ hle, hwindow 90000000 90000002 (by decide)⟩, ?_, hsteps ▸ hsteady ?_ ?_⟩
  · decide +kernel
  · decide
  · decide

end Loop
end LightningLink
