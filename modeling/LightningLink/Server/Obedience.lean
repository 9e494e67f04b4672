import LightningLink.Server.Acknowledgement

/-!
# Obeying the newest input

Library `Server`. A record that `apply_input` is called for, in whatever order of the numbers,
has the number and the direction of the newest input, and no direction if there was none. Both
servers keep their records by these calls.
-/

namespace LightningLink.Srv

variable {F : Type} {calls : List (UInt32 × Int8 × Int8)} {p : ServerPlayer F}

/-- A record obeys the newest of some calls, given by their numbers and directions, or has no
direction if there are none. -/
structure Obeys (calls : List (UInt32 × Int8 × Int8)) (p : ServerPlayer F) : Prop where
  newest : ∀ call ∈ calls, call.1 ≤ p.latestSeenSeq
  controls : calls = [] ∧ p.controls = (0, 0, 0, 0) ∨
    ∃ call ∈ calls, p.controls = (call.1, call.1, clampDir call.2.1, clampDir call.2.2)

/-- A new record. -/
theorem obeys_spawn [FloatArith F] (id : UInt16) :
    Obeys [] (ServerPlayer.spawn id : ServerPlayer F) :=
  ⟨fun _ h ↦ absurd h List.not_mem_nil, Or.inl ⟨rfl, rfl⟩⟩

namespace Obeys

/-- A record with the same controls. -/
theorem of_controls {q : ServerPlayer F} (h : Obeys calls p) (heq : q.controls = p.controls) :
    Obeys calls q where
  newest call hcall := (h.newest call hcall).trans_eq (congrArg Prod.fst heq).symm
  controls := heq ▸ h.controls

/-- A tick. -/
theorem move [FloatArith F] (h : Obeys calls p) : Obeys calls p.move := h.of_controls rfl

/-- One more call. -/
theorem input (h : Obeys calls p) (call : UInt32 × Int8 × Int8) :
    Obeys (calls ++ [call]) (p.input call.1 call.2.1 call.2.2) := by
  have hlast : call ∈ calls ++ [call] := List.mem_append_right _ (List.mem_singleton_self call)
  by_cases hold : call.1 < p.latestSeenSeq
  · have hkept : p.input call.1 call.2.1 call.2.2 = p := if_pos hold
    rw [hkept]
    refine ⟨fun call' hcall ↦ ?_, Or.inr ?_⟩
    · rcases List.mem_append.mp hcall with hcall | hcall
      · exact h.newest call' hcall
      · exact List.mem_singleton.mp hcall ▸ UInt32.le_of_lt hold
    · rcases h.controls with ⟨_, hzero⟩ | ⟨call', hcall, heq⟩
      · -- Nothing is older than the number 0.
        have hseen : p.latestSeenSeq = 0 := congrArg Prod.fst hzero
        rw [hseen] at hold
        exact absurd hold (UInt32.not_lt_zero)
      · exact ⟨call', List.mem_append_left _ hcall, heq⟩
  · have hle := UInt32.not_lt.mp hold
    have hnew := p.controls_input call.2.1 call.2.2 hle
    refine ⟨fun call' hcall ↦ ?_, Or.inr ⟨call, hlast, hnew⟩⟩
    rw [show (p.input call.1 call.2.1 call.2.2).latestSeenSeq = call.1 from
      congrArg Prod.fst hnew]
    rcases List.mem_append.mp hcall with hcall | hcall
    · exact UInt32.le_trans (h.newest call' hcall) hle
    · exact List.mem_singleton.mp hcall ▸ UInt32.le_refl _

end Obeys
end LightningLink.Srv
