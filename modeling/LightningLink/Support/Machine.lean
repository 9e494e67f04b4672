import Mathlib.Data.List.Induction
import Mathlib.Algebra.Order.Group.Multiset

/-!
# Local views of a machine

Library `Support`. A machine is a step function on its states; a run folds it over a list
of events, and `EveryStep` puts a condition on each of them. A `LocalView` is a part of the
state that may be present or absent and that, as long as it is present, changes by a step
function of its own under the events that concern it. Two runs with the same local inputs
then show the same local states.
-/

namespace Support

variable {S E I M : Type}

/-! ### Conditions on the steps of a run -/

/-- A condition on every step of a run, which may depend on the events before it. -/
def EveryStep (P : List E → E → Prop) (evs : List E) : Prop :=
  ∀ past ev, past ++ [ev] <+: evs → P past ev

namespace EveryStep

variable {P : List E → E → Prop} {evs : List E} {e : E}

/-- A run without events meets every condition. -/
theorem nil : EveryStep P [] := by
  intro past ev h
  simp at h

/-- The first step of a run, and those after it. -/
theorem cons (he : P [] e) (h : EveryStep (fun past ev ↦ P (e :: past) ev) evs) :
    EveryStep P (e :: evs) := by
  intro past ev hp
  cases past with
  | nil =>
    obtain ⟨rfl, _⟩ := List.cons_prefix_cons.mp hp
    exact he
  | cons e' past =>
    obtain ⟨rfl, htail⟩ := List.cons_prefix_cons.mp hp
    exact h past ev htail

/-- One more step. -/
theorem concat (h : EveryStep P evs) (he : P evs e) : EveryStep P (evs ++ [e]) := by
  intro past ev hp
  rcases List.prefix_concat_iff.mp hp with heq | hp
  · obtain ⟨rfl, rfl⟩ := List.append_inj' heq rfl |>.imp id List.singleton_inj.mp
    exact he
  · exact h past ev hp

/-- All steps but the last of a run. -/
theorem init (h : EveryStep P (evs ++ [e])) : EveryStep P evs :=
  fun past ev hp ↦ h past ev (hp.trans (List.prefix_append _ _))

/-- The last step of a run. -/
theorem last (h : EveryStep P (evs ++ [e])) : P evs e := h evs e List.prefix_rfl

/-- The first steps of a run. -/
theorem past (h : EveryStep P evs) {first : List E} (hfirst : first <+: evs) : EveryStep P first :=
  fun past ev hp ↦ h past ev (hp.trans hfirst)

/-- The first steps of a run, and those after them. -/
theorem append_iff {first : List E} : EveryStep P (first ++ evs) ↔
    EveryStep P first ∧ EveryStep (fun past ev ↦ P (first ++ past) ev) evs := by
  constructor
  · intro h
    refine ⟨h.past (List.prefix_append _ _), fun past ev hp ↦ ?_⟩
    apply h
    rw [List.append_assoc]
    exact (List.prefix_append_right_inj first).mpr hp
  · rintro ⟨hfirst, hlater⟩
    induction evs using List.reverseRecOn with
    | nil => rwa [List.append_nil]
    | append_singleton evs ev ih =>
      rw [← List.append_assoc]
      exact (ih hlater.init).concat hlater.last

/-- Two conditions at once. -/
theorem and {P' : List E → E → Prop} (h : EveryStep P evs) (h' : EveryStep P' evs) :
    EveryStep (fun past ev ↦ P past ev ∧ P' past ev) evs :=
  fun past ev hp ↦ ⟨h past ev hp, h' past ev hp⟩

/-- What holds at the start and is kept by every step that meets its condition holds at the
end. -/
theorem invariant {step : S → E → S} {s : S} {Inv : S → Prop} (h : EveryStep P evs)
    (start : Inv s)
    (next : ∀ past ev, P past ev → Inv (past.foldl step s) → Inv (step (past.foldl step s) ev)) :
    Inv (evs.foldl step s) := by
  induction evs using List.reverseRecOn with
  | nil => exact start
  | append_singleton evs ev ih =>
    rw [List.foldl_append]
    exact next evs ev h.last (ih h.init)

end EveryStep

/-! ### Observations -/

/-- What the steps of a run contribute to an observation. -/
def observed (step : S → E → S) (f : S → E → Multiset M) (s : S) : List E → Multiset M
  | [] => 0
  | e :: evs => f s e + observed step f (step s e) evs

/-- The contribution of one more step. -/
theorem observed_concat (step : S → E → S) (f : S → E → Multiset M) (s : S) (evs : List E) (e : E) :
    observed step f s (evs ++ [e]) = observed step f s evs + f (evs.foldl step s) e := by
  induction evs generalizing s with
  | nil => exact add_comm _ _
  | cons e' evs ih => rw [List.cons_append, observed, ih, observed, add_assoc, List.foldl_cons]

/-- What relates an observation to the state, and is kept by every step, holds after a run. -/
theorem observed_invariant {step : S → E → S} {f : S → E → Multiset M} {P : Multiset M → S → Prop}
    {s : S} (start : P 0 s) (next : ∀ seen s e, P seen s → P (seen + f s e) (step s e))
    (evs : List E) : P (observed step f s evs) (evs.foldl step s) := by
  induction evs using List.reverseRecOn with
  | nil => exact start
  | append_singleton evs e ih =>
    rw [observed_concat, List.foldl_append]
    exact next _ _ e ih

/-! ### Local views -/

/-- A local part of the states of a machine, read by `view`. `input` selects the events
that concern it; `next` says how it changes, or that it disappears. -/
structure LocalView (step : S → E → S) (I M : Type) where
  view : S → Option M
  input : E → Option I
  next : M → I → Option M
  view_frame : ∀ s e m, input e = none → view s = some m → view (step s e) = some m
  view_step : ∀ s e i m, input e = some i → view s = some m → view (step s e) = next m i

namespace LocalView

variable {step : S → E → S} (v : LocalView step I M)

/-- Local state after the local inputs of a run, if it is there throughout. -/
def follow (m : M) (evs : List E) : Option M := (evs.filterMap v.input).foldlM v.next m

/-- The local part is there in every state of a run. -/
def Alive (s : S) (evs : List E) : Prop :=
  ∀ past, past <+: evs → (v.view (past.foldl step s)).isSome

/-- Runs with the same local inputs have the same local states. -/
theorem follow_congr (m : M) {evs own : List E}
    (h : own.filterMap v.input = evs.filterMap v.input) : v.follow m own = v.follow m evs := by
  rw [follow, follow, h]

/-- Following one more event. -/
theorem follow_concat (m : M) (evs : List E) (e : E) :
    v.follow m (evs ++ [e]) = (v.follow m evs).bind fun m' ↦
      match v.input e with
      | none => some m'
      | some i => v.next m' i := by
  rw [follow, follow, List.filterMap_append, List.foldlM_append]
  congr 1
  funext m'
  cases h : v.input e with
  | none => simp [h]
  | some i => simp [h]

/-- One event changes a present local part as its input says. -/
theorem view_step_of_some {s : S} {m : M} (e : E) (hm : v.view s = some m) :
    v.view (step s e) = match v.input e with
      | none => some m
      | some i => v.next m i := by
  cases h : v.input e with
  | none => exact v.view_frame s e m h hm
  | some i => exact v.view_step s e i m h hm

/-- A run that can be followed ends in the followed local state. -/
theorem view_run {s : S} {m m' : M} (hm : v.view s = some m) (evs : List E)
    (h : v.follow m evs = some m') : v.view (evs.foldl step s) = some m' := by
  induction evs using List.reverseRecOn generalizing m' with
  | nil =>
    obtain rfl : m = m' := Option.some.inj h
    exact hm
  | append_singleton evs e ih =>
    rw [follow_concat, Option.bind_eq_some_iff] at h
    obtain ⟨m₁, h₁, h⟩ := h
    rw [List.foldl_append]
    exact (v.view_step_of_some e (ih h₁)).trans h

/-- Staying there for one more event. -/
theorem alive_concat (s : S) (evs : List E) (e : E) : v.Alive s (evs ++ [e]) ↔
    v.Alive s evs ∧ (v.view ((evs ++ [e]).foldl step s)).isSome := by
  constructor
  · intro h
    exact ⟨fun past hp ↦ h past (hp.trans (List.prefix_append _ _)), h _ List.prefix_rfl⟩
  · rintro ⟨h, he⟩ past hp
    rcases List.prefix_concat_iff.mp hp with rfl | hp
    · exact he
    · exact h past hp

/-- The local part is there throughout exactly when the run can be followed. -/
theorem alive_iff {s : S} {m : M} (hm : v.view s = some m) (evs : List E) :
    v.Alive s evs ↔ (v.follow m evs).isSome := by
  induction evs using List.reverseRecOn with
  | nil =>
    refine ⟨fun _ ↦ rfl, fun _ past hp ↦ ?_⟩
    rw [List.prefix_nil.mp hp]
    exact Option.isSome_iff_exists.mpr ⟨m, hm⟩
  | append_singleton evs e ih =>
    rw [alive_concat, ih]
    cases hf : v.follow m evs with
    | none => simp [follow_concat, hf]
    | some m' =>
      have hv := v.view_step_of_some e (v.view_run hm evs hf)
      rw [List.foldl_append, follow_concat, hf, Option.bind_some]
      change _ ∧ (v.view (step (evs.foldl step s) e)).isSome = true ↔ _
      rw [hv]
      simp

/-- The state shown at the end of a run in which the local part stays there. -/
theorem view_of_alive {s : S} {m : M} (hm : v.view s = some m) {evs : List E}
    (h : v.Alive s evs) : v.view (evs.foldl step s) = v.follow m evs := by
  obtain ⟨m', hm'⟩ := Option.isSome_iff_exists.mp ((v.alive_iff hm evs).mp h)
  rw [v.view_run hm evs hm', hm']

/-- A run with the same local inputs keeps the local part as long, in the same states. -/
theorem alive_congr {s : S} {m : M} (hm : v.view s = some m) {evs own : List E}
    (h : own.filterMap v.input = evs.filterMap v.input) :
    (v.Alive s own ↔ v.Alive s evs) ∧
      (v.Alive s evs → v.view (own.foldl step s) = v.view (evs.foldl step s)) := by
  have ha : v.Alive s own ↔ v.Alive s evs := by
    rw [v.alive_iff hm, v.alive_iff hm, v.follow_congr m h]
  refine ⟨ha, fun he ↦ ?_⟩
  rw [v.view_of_alive hm he, v.view_of_alive hm (ha.mpr he), v.follow_congr m h]

end LocalView
end Support
