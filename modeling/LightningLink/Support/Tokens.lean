import Mathlib.Data.List.TakeWhile

/-!
# Tokens

Library `Support`. The tokens of a stream are its longest parts without separators. A reader that
skips separators and takes what follows up to the next one reads the tokens in order.
-/

namespace Support

variable {α : Type} (sep : α → Bool)

/-- Longest parts without separators. -/
def tokens (xs : List α) : List (List α) := (xs.splitOnP sep).filter fun t ↦ !t.isEmpty

/-- What follows a token: nothing, or a separator. -/
def Ended (xs : List α) : Prop := ∀ x ∈ xs.head?, sep x = true

variable {sep}

/-- A separator in front is skipped. -/
theorem tokens_cons_of_sep {x : α} (hx : sep x = true) (xs : List α) :
    tokens sep (x :: xs) = tokens sep xs := by
  unfold tokens
  rw [List.splitOnP_cons_eq_if_modifyHead, if_pos hx]
  rfl

/-- So are several. -/
theorem tokens_dropWhile (xs : List α) : tokens sep (xs.dropWhile sep) = tokens sep xs := by
  induction xs with
  | nil => rfl
  | cons x xs ih =>
    by_cases hx : sep x = true
    · rw [List.dropWhile_cons_of_pos hx, ih, tokens_cons_of_sep hx]
    · rw [List.dropWhile_cons_of_neg hx]

/-- A part without separators is a token. -/
theorem tokens_append {t : List α} (hne : t ≠ []) (ht : ∀ x ∈ t, sep x = false) {xs : List α}
    (hxs : Ended sep xs) : tokens sep (t ++ xs) = t :: tokens sep xs := by
  have hkeep (ts : List (List α)) : (t :: ts).filter (fun t ↦ !t.isEmpty) =
      t :: ts.filter fun t ↦ !t.isEmpty := List.filter_cons_of_pos (by simpa using hne)
  unfold tokens
  cases xs with
  | nil =>
    rw [List.append_nil, List.splitOnP_eq_singleton ht, hkeep]
    rfl
  | cons x xs =>
    have hx : sep x = true := hxs x rfl
    rw [List.splitOnP_append_cons_of_forall_mem ht _ hx, hkeep,
      List.splitOnP_cons_eq_if_modifyHead, if_pos hx]
    rfl

/-- What is left at the end of a token is ended. -/
theorem ended_dropWhile (xs : List α) : Ended sep (xs.dropWhile fun x ↦ !sep x) := by
  induction xs with
  | nil => exact fun x hx ↦ absurd hx (by simp)
  | cons x xs ih =>
    cases hx : sep x with
    | false =>
      rw [List.dropWhile_cons_of_pos (by simp [hx])]
      exact ih
    | true =>
      rw [List.dropWhile_cons_of_neg (by simp [hx])]
      intro y hy
      rwa [← Option.some.inj hy]

private theorem not_sep_of_dropWhile {xs ys : List α} {y : α} (h : xs.dropWhile sep = y :: ys) :
    sep y = false := by
  have hhead := List.head_dropWhile_not sep (l := xs) (by rw [h]; exact List.cons_ne_nil y ys)
  simpa only [h, List.head_cons] using hhead

/-- A stream has no token, or a first one after separators. -/
theorem tokens_eq (xs : List α) : tokens sep xs = match xs.dropWhile sep with
    | [] => []
    | y :: ys => (y :: ys).takeWhile (fun x ↦ !sep x) ::
        tokens sep ((y :: ys).dropWhile fun x ↦ !sep x) := by
  rw [← tokens_dropWhile]
  cases hys : xs.dropWhile sep with
  | nil => rfl
  | cons y ys =>
    have hy := not_sep_of_dropWhile hys
    have hne : (y :: ys).takeWhile (fun x ↦ !sep x) ≠ [] := by
      rw [List.takeWhile_cons_of_pos (by simp [hy])]
      exact List.cons_ne_nil _ _
    dsimp only
    rw [← tokens_append hne (fun x hx ↦ by simpa using List.mem_takeWhile_imp hx)
      (ended_dropWhile _), List.takeWhile_append_dropWhile]

/-- The first token and what follows it. -/
theorem dropWhile_of_tokens {xs t : List α} {ts : List (List α)} (h : tokens sep xs = t :: ts) :
    (t ≠ [] ∧ ∀ x ∈ t, sep x = false) ∧
      ∃ rest, xs.dropWhile sep = t ++ rest ∧ Ended sep rest ∧ tokens sep rest = ts := by
  rw [tokens_eq] at h
  cases hys : xs.dropWhile sep with
  | nil =>
    rw [hys] at h
    cases h
  | cons y ys =>
    rw [hys] at h
    obtain ⟨ht, hts⟩ := List.cons.inj h
    have hy := not_sep_of_dropWhile hys
    refine ⟨⟨?_, ?_⟩, _, ?_, ended_dropWhile (y :: ys), hts⟩
    · rw [← ht, List.takeWhile_cons_of_pos (by simp [hy])]
      exact List.cons_ne_nil _ _
    · intro x hx
      rw [← ht] at hx
      simpa using List.mem_takeWhile_imp hx
    · rw [← ht, List.takeWhile_append_dropWhile]

end Support
