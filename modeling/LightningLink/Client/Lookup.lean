import LightningLink.Client.History

/-!
# Slots of the input ring

Library `Client`. Where the ring of the predictor keeps which input. The write slot, the lookup
from the newest input and the replay from the oldest one index the same slots, and the lookup
finds exactly the inputs that are still kept. Slots that were never written are not visited.
-/

namespace LightningLink.Cl

open Support FloatOps FloatArith

/-- A call of the predictor. -/
inductive PredictorCall (F : Type) [FloatArith F]
  | recordAndStep (c : RecordCall F)
  | reconcile (authoritative : PlayerState F)
  | findInputBySeq (seq : UInt32)

variable {F : Type} [FloatArith F]

/-- Arguments of a call that records an input. -/
def PredictorCall.records : PredictorCall F → Option (RecordCall F)
  | recordAndStep c => some c
  | _ => none

namespace Predictor

/-- Predictor after a call. Only recording changes it. -/
def call (p : Predictor F) : PredictorCall F → Predictor F
  | .recordAndStep c => (p.recordAndStep c.mx c.my c.dt c.localPos).2.2
  | .reconcile _ => p
  | .findInputBySeq _ => p

/-- Predictor after several calls. -/
def run (p : Predictor F) (calls : List (PredictorCall F)) : Predictor F := calls.foldl call p

/-- Other calls do not matter for what is recorded. -/
theorem run_eq_recordAll (calls : List (PredictorCall F)) :
    init.run calls = recordAll (calls.filterMap PredictorCall.records) := by
  induction calls using List.reverseRecOn with
  | nil => rfl
  | append_singleton calls c ih =>
    have hrun : init.run (calls ++ [c]) = (init.run calls).call c := List.foldl_concat ..
    rw [hrun, ih, List.filterMap_append]
    cases c with
    | recordAndStep c => exact (recordAll_concat _ c).symm
    | reconcile authoritative =>
      show _ = recordAll (_ ++ [])
      rw [List.append_nil]
      rfl
    | findInputBySeq seq =>
      show _ = recordAll (_ ++ [])
      rw [List.append_nil]
      rfl

/-- Fields of the ring after recording. -/
theorem ring_recordAll (calls : List (RecordCall F)) :
    (recordAll calls).ring.head.val = calls.length % inputHistorySize ∧
      (recordAll calls).ring.count = min calls.length inputHistorySize := by
  rw [recordAll_eq, ← length_history calls]
  constructor
  · exact Ring.head_foldl_push _ _
  · exact (Ring.toList_foldl_push _ _).2

/-- The input number `i` from the oldest one that is kept. -/
theorem oldest_recordAll (calls : List (RecordCall F)) (i : Nat)
    (hi : i < (recordAll calls).ring.count) :
    (history calls)[calls.length - (recordAll calls).ring.count + i]? =
      some ((recordAll calls).ring.oldest i) := by
  have hcount := (ring_recordAll calls).2
  have hlist := toList_recordAll calls
  have hget := (recordAll calls).ring.getElem_toList i (by rwa [Ring.length_toList])
  simp only [hlist, List.getElem_drop] at hget
  rw [← hget, List.getElem?_eq_some_iff]
  refine ⟨by rw [length_history]; omega, ?_⟩
  congr 1
  omega

/-- The lookup visits the last inputs, newest first. -/
theorem findInputBySeq_recordAll (calls : List (RecordCall F)) (seq : UInt32) :
    findInputBySeq seq (recordAll calls) =
      ((history calls).drop (calls.length - inputHistorySize)).reverse.find?
        fun pi ↦ pi.seq = seq := by
  rw [findInputBySeq, Ring.map_newest, toList_recordAll]

/-- The lookup finds the inputs that are kept under their numbers, and nothing else. -/
theorem findInputBySeq_eq_some_iff (calls : List (RecordCall F))
    (hn : calls.length < 2 ^ 32 - 1) (seq : UInt32) (pi : PredictedInput F) :
    findInputBySeq seq (recordAll calls) = some pi ↔
      calls.length - inputHistorySize < seq.toNat ∧ (history calls)[seq.toNat - 1]? = some pi := by
  have hfound : ∀ pi, findInputBySeq seq (recordAll calls) = some pi →
      calls.length - inputHistorySize < seq.toNat ∧
        (history calls)[seq.toNat - 1]? = some pi := by
    intro pi h
    rw [findInputBySeq_recordAll] at h
    have hseq : pi.seq = seq := by simpa using List.find?_some h
    have hmem := List.mem_reverse.mp (List.mem_of_find?_eq_some h)
    obtain ⟨j, hj, hget⟩ := List.mem_iff_getElem.mp hmem
    rw [List.getElem_drop] at hget
    have hnum := toNat_seq_history calls hn (calls.length - inputHistorySize + j) (by
      rw [List.length_drop] at hj
      omega)
    rw [hget, hseq] at hnum
    constructor
    · omega
    · rw [hnum, Nat.add_sub_cancel, ← hget]
      exact List.getElem?_eq_getElem _
  constructor
  · exact hfound pi
  · rintro ⟨hlate, hget⟩
    obtain ⟨hlt, hpi⟩ := List.getElem?_eq_some_iff.mp hget
    have hnum := toNat_seq_history calls hn (seq.toNat - 1) hlt
    rw [hpi] at hnum
    have hseq : pi.seq = seq := by
      apply UInt32.toNat_inj.mp
      omega
    have hmem : pi ∈ (history calls).drop (calls.length - inputHistorySize) := by
      apply List.mem_of_getElem?
      rw [List.getElem?_drop, ← hget]
      congr 1
      exact Nat.add_sub_cancel' (by omega : _ ≤ seq.toNat - 1)
    cases hfind : findInputBySeq seq (recordAll calls) with
    | some other =>
      rw [← (hfound other hfind).2]
      exact hget
    | none =>
      rw [findInputBySeq_recordAll, List.find?_eq_none] at hfind
      exact absurd (by simpa using hseq) (hfind pi (List.mem_reverse.mpr hmem))

/-- After any calls of a fresh predictor, `n` of which record inputs: the ring keeps the last
ones, each in its slot, and the lookup finds exactly these. -/
theorem ring_invariant (calls : List (PredictorCall F))
    (hn : (calls.filterMap PredictorCall.records).length < 2 ^ 32 - 1) :
    let recorded := calls.filterMap PredictorCall.records
    let n := recorded.length
    let p : Predictor F := init.run calls
    let count := p.ring.count
    let slot := fun i ↦ (p.ring.head.val + inputHistorySize - count + i) % inputHistorySize
    (p.ring.head.val = n % inputHistorySize ∧ count = min n inputHistorySize ∧
      p.nextSeq.toNat = n + 1) ∧
    (∀ i j, i < count → j < count → slot i = slot j → i = j) ∧
    (∀ i, i < count → ∃ c, recorded[n - count + i]? = some c ∧
      p.ring.slots[slot i]? = some ⟨UInt32.ofNat (n - count + 1 + i), c.mx, c.my, c.dt⟩) ∧
    ∀ seq : UInt32,
      (n - count < seq.toNat ∧ seq.toNat ≤ n → ∃ c, recorded[seq.toNat - 1]? = some c ∧
        p.findInputBySeq seq = some ⟨seq, c.mx, c.my, c.dt⟩) ∧
      (¬(n - count < seq.toNat ∧ seq.toNat ≤ n) → p.findInputBySeq seq = none) := by
  intro recorded n p count slot
  have hp : p = recordAll recorded := run_eq_recordAll calls
  have hlen : n < 2 ^ 32 - 1 := hn
  obtain ⟨hhead, hcount⟩ := ring_recordAll recorded
  rw [← hp] at hhead hcount
  have hkept : n - count = n - inputHistorySize := by
    show n - p.ring.count = _
    omega
  refine ⟨⟨hhead, hcount, ?_⟩, ?_, ?_, ?_⟩
  · rw [hp, recordAll_eq, UInt32.toNat_ofNat', Nat.mod_eq_of_lt]
    show n + 1 < _
    omega
  · intro i j hi hj h
    exact p.ring.index_inj hi hj h
  · intro i hi
    have hinput := oldest_recordAll recorded i (by rwa [← hp])
    have hslot : p.ring.slots[slot i]? = some (p.ring.oldest i) := by
      exact Vector.getElem?_eq_getElem _
    rw [getElem?_history, ← hp, Option.map_eq_some_iff] at hinput
    obtain ⟨c, hc, heq⟩ := hinput
    refine ⟨c, hc, ?_⟩
    rw [hslot, ← heq, Nat.add_right_comm]
  · intro seq
    have hfind := fun pi ↦ findInputBySeq_eq_some_iff recorded hn seq pi
    rw [← hp] at hfind
    constructor
    · rintro ⟨hlate, hle⟩
      have hlt : seq.toNat - 1 < recorded.length := by omega
      have hc : recorded[seq.toNat - 1]? = some recorded[seq.toNat - 1] :=
        List.getElem?_eq_getElem hlt
      refine ⟨_, hc, (hfind _).mpr ⟨by omega, ?_⟩⟩
      have hnum : UInt32.ofNat (seq.toNat - 1 + 1) = seq := by
        rw [Nat.sub_add_cancel (by omega), UInt32.ofNat_toNat]
      rw [getElem?_history, hc, Option.map_some, hnum]
    · intro hout
      cases hr : p.findInputBySeq seq with
      | none => rfl
      | some pi =>
        obtain ⟨hlate, hget⟩ := (hfind pi).mp hr
        obtain ⟨hlt, _⟩ := List.getElem?_eq_some_iff.mp hget
        rw [length_history] at hlt
        exact absurd ⟨by omega, by omega⟩ hout

/-- Two inputs are recorded, with a lookup in between: the second one is found and a third is
not. -/
theorem ring_invariant_two :
    let right : RecordCall F32 := ⟨1, 0, dtSeconds F32, initialPos⟩
    let up : RecordCall F32 := ⟨0, -1, dtSeconds F32, initialPos⟩
    let p := init.run [.recordAndStep right, .findInputBySeq 1, .recordAndStep up]
    p.findInputBySeq 2 = some ⟨2, up.mx, up.my, up.dt⟩ ∧ p.findInputBySeq 3 = none := by
  intro right up p
  obtain ⟨_, _, _, hfind⟩ := ring_invariant
    [.recordAndStep right, .findInputBySeq 1, .recordAndStep up] (by decide)
  obtain ⟨c, hc, hget⟩ := (hfind 2).1 (by decide)
  obtain rfl : up = c := Option.some.inj hc
  exact ⟨hget, (hfind 3).2 (by decide)⟩

end Predictor
end LightningLink.Cl
