import LightningLink.Support.Machine
import Mathlib.Data.List.Chain
import Mathlib.Data.List.Forall2

/-!
# Throttled samples

Library `Support`. A machine is polled at clock readings, and a sample of its state is taken if
none has been taken yet or a period has passed since the last one, in unsigned arithmetic.
Samples are taken of the states of the run, in order. Without a step back of the clock they are
a period apart, and every reading is less than a period after a sample.
-/

namespace Support

/-- A step of the machine, or a clock reading at which it is polled. -/
inductive Polled (E : Type)
  | step (e : E)
  | poll (now : UInt64)

/-- A machine with the samples taken of it. A reading of 0 stands for none. -/
structure Throttle (S R : Type) where
  state : S
  last : UInt64
  samples : List (UInt64 × R)

namespace Throttle

variable {S E R : Type}

/-- Take a sample if it is time. -/
def poll (period : UInt64) (sample : S → R) (now : UInt64) (t : Throttle S R) : Throttle S R :=
  if t.last = 0 ∨ period ≤ now - t.last then
    { t with last := now, samples := t.samples ++ [(now, sample t.state)] }
  else t

/-- State after one event. -/
def next (step : S → E → S) (period : UInt64) (sample : S → R) (t : Throttle S R) :
    Polled E → Throttle S R
  | .step e => { t with state := step t.state e }
  | .poll now => t.poll period sample now

/-- State after a finite run from a state of the machine. -/
def run (step : S → E → S) (period : UInt64) (sample : S → R) (s : S) (evs : List (Polled E)) :
    Throttle S R :=
  evs.foldl (next step period sample) ⟨s, 0, []⟩

/-- Steps of the machine. -/
def steps (evs : List (Polled E)) : List E :=
  evs.filterMap fun
    | .step e => some e
    | .poll _ => none

/-- A sample is taken at a poll, of the state that the steps before it lead to. -/
def Taken (step : S → E → S) (sample : S → R) (s : S) (evs : List (Polled E)) (x : UInt64 × R)
    (past : List (Polled E)) : Prop :=
  past ++ [.poll x.1] <+: evs ∧ x.2 = sample ((steps past).foldl step s)

/-- A later reading: a period has passed, or the clock has gone back. -/
def Apart (period : UInt64) (a b : UInt64) : Prop :=
  a = 0 ∨ b < a ∨ a.toNat + period.toNat ≤ b.toNat

variable {step : S → E → S} {period : UInt64} {sample : S → R} {s : S}

/-- State after one more event. -/
theorem run_concat (evs : List (Polled E)) (ev : Polled E) :
    run step period sample s (evs ++ [ev]) =
      (run step period sample s evs).next step period sample ev := by
  rw [run, List.foldl_append]
  rfl

/-- The machine makes its steps. -/
theorem state_run (evs : List (Polled E)) :
    (run step period sample s evs).state = (steps evs).foldl step s := by
  induction evs using List.reverseRecOn with
  | nil => rfl
  | append_singleton evs ev ih =>
    rw [run_concat, steps, List.filterMap_append, List.foldl_append, ← steps, ← ih]
    cases ev with
    | step e => rfl
    | poll now =>
      unfold next poll
      dsimp only
      split <;> rfl

/-- More events take nothing back. -/
theorem Taken.append {evs : List (Polled E)} {x : UInt64 × R} {past : List (Polled E)}
    (h : Taken step sample s evs x past) (more : List (Polled E)) :
    Taken step sample s (evs ++ more) x past :=
  ⟨h.1.trans (List.prefix_append _ _), h.2⟩

/-- A reading at which it is time has a period between it and the last sample. -/
theorem apart_of_due {last now : UInt64} (h : last = 0 ∨ period ≤ now - last) :
    Apart period last now := by
  refine h.imp_right fun hle ↦ ?_
  by_cases hback : now < last
  · exact Or.inl hback
  · have hsub := UInt64.toNat_sub_of_le _ _ (UInt64.not_lt.mp hback)
    have hnat := UInt64.le_iff_toNat_le.mp hle
    have horder := UInt64.le_iff_toNat_le.mp (UInt64.not_lt.mp hback)
    exact Or.inr (by omega)

/-- What has been sampled in a run. -/
structure Samples (step : S → E → S) (period : UInt64) (sample : S → R) (s : S)
    (evs : List (Polled E)) (t : Throttle S R) (pasts : List (List (Polled E))) : Prop where
  /-- The samples are those of the states after the first parts of the run. -/
  taken : List.Forall₂ (Taken step sample s evs) t.samples pasts
  /-- They come in order. -/
  ordered : pasts.Pairwise (· <+: ·)
  prefixes : ∀ past ∈ pasts, past <+: evs
  /-- The last one gives the reading that is compared. -/
  last : t.last = ((t.samples.getLast?).map Prod.fst).getD 0
  apart : (t.samples.map Prod.fst).IsChain (Apart period)
  /-- At every poll a sample is there that is less than a period old. -/
  covered : ∀ past now, past ++ [.poll now] <+: evs → ∃ x ∈ t.samples, ∃ p ∈ pasts,
    Taken step sample s evs x p ∧ p <+: past ∧ now - x.1 < period

namespace Samples

variable {evs : List (Polled E)} {t : Throttle S R} {pasts : List (List (Polled E))}

/-- Every sample is taken. -/
theorem exists_taken (h : Samples step period sample s evs t pasts) {x : UInt64 × R}
    (hx : x ∈ t.samples) : ∃ p ∈ pasts, Taken step sample s evs x p := by
  have htaken := h.taken
  generalize t.samples = xs at htaken hx
  clear h
  induction htaken with
  | nil => cases hx
  | @cons y p xs ps hyp _ ih =>
    rcases List.mem_cons.mp hx with rfl | hx
    · exact ⟨p, List.mem_cons_self, hyp⟩
    · obtain ⟨q, hq, hxq⟩ := ih hx
      exact ⟨q, List.mem_cons_of_mem _ hq, hxq⟩

/-- An event that takes no sample. -/
theorem skip (h : Samples step period sample s evs t pasts) (ev : Polled E) {t' : Throttle S R}
    (hlast : t'.last = t.last) (hsamples : t'.samples = t.samples)
    (hcovered : ∀ now, ev = .poll now → ∃ x ∈ t.samples, now - x.1 < period) :
    Samples step period sample s (evs ++ [ev]) t' pasts where
  taken := hsamples ▸ h.taken.imp fun _ _ hx ↦ hx.append [ev]
  ordered := h.ordered
  prefixes past hp := (h.prefixes past hp).trans (List.prefix_append _ _)
  last := by rw [hlast, hsamples, h.last]
  apart := hsamples ▸ h.apart
  covered past now hp := by
    rw [hsamples]
    rcases List.prefix_concat_iff.mp hp with heq | hp
    · obtain ⟨rfl, hpoll⟩ := List.append_inj' heq rfl
      obtain ⟨x, hx, hlt⟩ := hcovered now (List.singleton_inj.mp hpoll).symm
      obtain ⟨p, hp, htaken⟩ := h.exists_taken hx
      exact ⟨x, hx, p, hp, htaken.append [ev], h.prefixes p hp, hlt⟩
    · obtain ⟨x, hx, p, hmem, htaken, hrest⟩ := h.covered past now hp
      exact ⟨x, hx, p, hmem, htaken.append [ev], hrest⟩

/-- An event that takes a sample. -/
theorem take (h : Samples step period sample s evs t pasts) (hperiod : 0 < period)
    (hstate : t.state = (steps evs).foldl step s) {now : UInt64}
    (hdue : t.last = 0 ∨ period ≤ now - t.last) :
    Samples step period sample s (evs ++ [.poll now])
      { t with last := now, samples := t.samples ++ [(now, sample t.state)] } (pasts ++ [evs]) := by
  have hnew : Taken step sample s (evs ++ [.poll now]) (now, sample t.state) evs :=
    ⟨List.prefix_rfl, congrArg sample hstate⟩
  refine ⟨?_, ?_, fun past hp ↦ ?_, ?_, ?_, fun past now' hp ↦ ?_⟩
  · exact List.rel_append (h.taken.imp fun _ _ hx ↦ hx.append _)
      (List.Forall₂.cons hnew List.Forall₂.nil)
  · exact List.pairwise_append.mpr ⟨h.ordered, List.pairwise_singleton _ _,
      fun past hp past' hp' ↦ List.mem_singleton.mp hp' ▸ h.prefixes past hp⟩
  · rcases List.mem_append.mp hp with hp | hp
    · exact (h.prefixes past hp).trans (List.prefix_append _ _)
    · exact List.mem_singleton.mp hp ▸ List.prefix_append _ _
  · rw [List.getLast?_concat]
    rfl
  · rw [List.map_append]
    refine h.apart.append (List.isChain_singleton _) fun a ha b hb ↦ ?_
    obtain rfl : now = b := Option.some.inj hb
    have hlast := h.last
    rw [← List.getLast?_map, ha, Option.getD_some] at hlast
    exact apart_of_due (hlast ▸ hdue)
  · rcases List.prefix_concat_iff.mp hp with heq | hp
    · obtain ⟨rfl, hpoll⟩ := List.append_inj' heq rfl
      obtain rfl := Polled.poll.inj (List.singleton_inj.mp hpoll)
      exact ⟨_, List.mem_append_right _ (List.mem_singleton_self _), _,
        List.mem_append_right _ (List.mem_singleton_self _), hnew, List.prefix_rfl,
        (UInt64.sub_self now').symm ▸ hperiod⟩
    · obtain ⟨x, hx, p, hmem, htaken, hrest⟩ := h.covered past now' hp
      exact ⟨x, List.mem_append_left _ hx, p, List.mem_append_left _ hmem, htaken.append _, hrest⟩

end Samples

/-- The samples of every run. -/
theorem exists_samples (hperiod : 0 < period) (evs : List (Polled E)) :
    ∃ pasts, Samples step period sample s evs (run step period sample s evs) pasts := by
  induction evs using List.reverseRecOn with
  | nil =>
    refine ⟨[], List.Forall₂.nil, List.Pairwise.nil, ?_, rfl, List.isChain_nil, ?_⟩
    · exact fun past hp ↦ absurd hp List.not_mem_nil
    · intro past now hp
      exact absurd (List.prefix_nil.mp hp)
        (List.append_ne_nil_of_right_ne_nil _ (List.cons_ne_nil _ _))
  | append_singleton evs ev ih =>
    obtain ⟨pasts, h⟩ := ih
    rw [run_concat]
    cases ev with
    | step e => exact ⟨pasts, h.skip _ rfl rfl fun now heq ↦ by cases heq⟩
    | poll now =>
      unfold next poll
      dsimp only
      split
      · next hdue => exact ⟨_, h.take hperiod (state_run evs) hdue⟩
      · next hearly =>
        refine ⟨pasts, h.skip _ rfl rfl fun now' heq ↦ ?_⟩
        obtain rfl := Polled.poll.inj heq
        rw [not_or, UInt64.not_le] at hearly
        have hlast := h.last
        cases hx : (run step period sample s evs).samples.getLast? with
        | none =>
          rw [hx] at hlast
          exact absurd hlast hearly.1
        | some x =>
          rw [hx, Option.map_some, Option.getD_some] at hlast
          exact ⟨x, List.mem_of_getLast? hx, hlast ▸ hearly.2⟩

end Throttle
end Support
