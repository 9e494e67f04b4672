import Mathlib.Data.List.Induction
import Mathlib.Data.List.Basic

/-!
# Delimited streams

Library `Support`. A stream is cut into the pieces that end with a delimiter and the rest
after the last one. Cutting in chunks gives the same pieces as cutting at once, and pieces
written one after another are cut again as they were written.
-/

namespace Support

variable {α : Type} [DecidableEq α] (d : α)

/-- First piece that the delimiter ends, and what follows. -/
def cutLine (xs : List α) : Option (List α × List α) :=
  match xs.dropWhile (· ≠ d) with
  | [] => none
  | _ :: rest => some (xs.takeWhile (· ≠ d), rest)

/-- All pieces that a delimiter ends, in order, and the rest. -/
def splitLines : List α → List (List α) × List α
  | [] => ([], [])
  | x :: xs =>
    let r := splitLines xs
    if x = d then ([] :: r.1, r.2)
    else match r.1 with
      | [] => ([], x :: r.2)
      | l :: ls => ((x :: l) :: ls, r.2)

/-- Pieces, each followed by the delimiter. -/
def joinLines (ls : List (List α)) : List α := ls.flatMap (· ++ [d])

variable {d}

omit [DecidableEq α] in
/-- Pieces one after another. -/
theorem joinLines_append (ls ls' : List (List α)) :
    joinLines d (ls ++ ls') = joinLines d ls ++ joinLines d ls' := List.flatMap_append

private theorem cutLine_cons (x : α) (xs : List α) : cutLine d (x :: xs) =
    if x = d then some ([], xs) else (cutLine d xs).map fun p ↦ (x :: p.1, p.2) := by
  unfold cutLine
  by_cases hx : x = d
  · simp [hx]
  · simp only [List.dropWhile_cons, List.takeWhile_cons, ne_eq, hx, not_false_eq_true,
      decide_true, if_true, if_false]
    cases xs.dropWhile fun x ↦ decide ¬x = d with
    | nil => rfl
    | cons y rest => rfl

/-- The loop that cuts one piece after another. -/
theorem splitLines_eq (xs : List α) : splitLines d xs = match cutLine d xs with
    | none => ([], xs)
    | some (l, rest) => (l :: (splitLines d rest).1, (splitLines d rest).2) := by
  induction xs with
  | nil => rfl
  | cons x xs ih =>
    rw [splitLines, cutLine_cons]
    by_cases hx : x = d
    · simp only [if_pos hx]
    · simp only [if_neg hx]
      rw [ih]
      cases cutLine d xs with
      | none => rfl
      | some p => rfl

/-- The first piece, the delimiter and what follows make up the stream. -/
theorem eq_of_cutLine {xs l rest : List α} (h : cutLine d xs = some (l, rest)) :
    xs = l ++ d :: rest ∧ d ∉ l := by
  induction xs generalizing l with
  | nil => cases h
  | cons x xs ih =>
    rw [cutLine_cons] at h
    by_cases hx : x = d
    · rw [if_pos hx, Option.some.injEq, Prod.mk.injEq] at h
      obtain ⟨rfl, rfl⟩ := h
      exact ⟨congrArg (· :: xs) hx, List.not_mem_nil⟩
    · rw [if_neg hx, Option.map_eq_some_iff] at h
      obtain ⟨⟨l', rest'⟩, hcut, heq⟩ := h
      obtain ⟨rfl, rfl⟩ := Prod.mk.inj heq
      obtain ⟨hxs, hl⟩ := ih hcut
      refine ⟨congrArg (x :: ·) hxs, ?_⟩
      rw [List.mem_cons, not_or]
      exact ⟨Ne.symm hx, hl⟩

/-- What the delimiter does not occur in has no piece. -/
theorem splitLines_of_notMem {xs : List α} (h : d ∉ xs) : splitLines d xs = ([], xs) := by
  induction xs with
  | nil => rfl
  | cons x xs ih =>
    rw [List.mem_cons, not_or] at h
    simp [splitLines, ih h.2, Ne.symm h.1]

/-- No piece has a delimiter inside. -/
theorem notMem_of_mem_lines (xs : List α) : ∀ l ∈ (splitLines d xs).1, d ∉ l := by
  induction xs with
  | nil => exact fun _ hl ↦ absurd hl List.not_mem_nil
  | cons x xs ih =>
    unfold splitLines
    by_cases hx : x = d
    · simp only [if_pos hx]
      exact List.forall_mem_cons.mpr ⟨List.not_mem_nil, ih⟩
    · simp only [if_neg hx]
      split
      · exact fun _ hl ↦ absurd hl List.not_mem_nil
      · next l ls heq =>
        rw [heq] at ih
        obtain ⟨hl, hls⟩ := List.forall_mem_cons.mp ih
        refine List.forall_mem_cons.mpr ⟨?_, hls⟩
        rw [List.mem_cons, not_or]
        exact ⟨Ne.symm hx, hl⟩

/-- The rest has no delimiter. -/
theorem notMem_rest (xs : List α) : d ∉ (splitLines d xs).2 := by
  induction xs with
  | nil => exact List.not_mem_nil
  | cons x xs ih =>
    unfold splitLines
    by_cases hx : x = d
    · simp only [if_pos hx]
      exact ih
    · simp only [if_neg hx]
      split
      · rw [List.mem_cons, not_or]
        exact ⟨Ne.symm hx, ih⟩
      · exact ih

/-- A piece in front is cut off. -/
theorem splitLines_line_append {l : List α} (h : d ∉ l) (xs : List α) :
    splitLines d (l ++ d :: xs) = (l :: (splitLines d xs).1, (splitLines d xs).2) := by
  induction l with
  | nil => simp [splitLines]
  | cons x l ih =>
    rw [List.mem_cons, not_or] at h
    rw [List.cons_append, splitLines, ih h.2, if_neg (Ne.symm h.1)]

/-- Written pieces are cut again as they were written. -/
theorem splitLines_joinLines_append {ls : List (List α)} (h : ∀ l ∈ ls, d ∉ l) (xs : List α) :
    splitLines d (joinLines d ls ++ xs) = (ls ++ (splitLines d xs).1, (splitLines d xs).2) := by
  induction ls with
  | nil => rfl
  | cons l ls ih =>
    obtain ⟨hl, hls⟩ := List.forall_mem_cons.mp h
    have hjoin : joinLines d (l :: ls) ++ xs = l ++ d :: (joinLines d ls ++ xs) := by
      simp [joinLines]
    rw [hjoin, splitLines_line_append hl, ih hls]
    rfl

/-- The stream is its pieces and the rest. -/
theorem joinLines_append_rest (xs : List α) :
    joinLines d (splitLines d xs).1 ++ (splitLines d xs).2 = xs := by
  induction xs with
  | nil => rfl
  | cons x xs ih =>
    unfold splitLines
    by_cases hx : x = d
    · simp only [if_pos hx]
      rw [hx]
      exact congrArg (d :: ·) ih
    · simp only [if_neg hx]
      split
      · next heq =>
        rw [heq] at ih
        exact congrArg (x :: ·) ih
      · next l ls heq =>
        rw [heq] at ih
        exact congrArg (x :: ·) ih

end Support
