import Mathlib.Algebra.GroupWithZero.Nat
import Mathlib.Data.List.Basic
import Mathlib.Data.List.Induction

/-!
# Ring buffers of fixed capacity

Library `Support`. A ring keeps the last elements pushed, overwriting the oldest one when
it is full. Its head is the next slot to write and is always a slot; the count never
exceeds the capacity. `toList` reads the elements from the oldest to the newest.
-/

namespace Support

/-- Slots, next slot to write, and number of slots in use. -/
structure Ring (α : Type) (n : Nat) where
  slots : Vector α n
  head : Fin n
  count : Nat
  count_le : count ≤ n

namespace Ring

variable {α : Type} {n : Nat}

/-- The ring with no slot in use; the slots hold a default value. -/
def empty [NeZero n] (a : α) : Ring α n := ⟨Vector.replicate n a, 0, 0, Nat.zero_le n⟩

/-- Slot at an index taken modulo the capacity. -/
def slot (r : Ring α n) (i : Nat) : α :=
  have : i % n < n := Nat.mod_lt i (Nat.zero_lt_of_lt r.head.isLt)
  r.slots[i % n]

/-- Write the head slot and advance. -/
def push (x : α) (r : Ring α n) : Ring α n where
  slots := r.slots.set r.head x
  head := ⟨(r.head + 1) % n, Nat.mod_lt _ (Nat.zero_lt_of_lt r.head.isLt)⟩
  count := if r.count < n then r.count + 1 else r.count
  count_le := by
    have := r.count_le
    split <;> omega

/-- Element number `i` from the oldest. -/
def oldest (r : Ring α n) (i : Nat) : α := r.slot (r.head + n - r.count + i)

/-- Element number `i` from the newest. -/
def newest (r : Ring α n) (i : Nat) : α := r.slot (r.head + n - 1 - i)

/-- The elements in use, oldest first. -/
def toList (r : Ring α n) : List α := (List.range r.count).map r.oldest

@[simp] theorem length_toList (r : Ring α n) : r.toList.length = r.count := by
  rw [toList, List.length_map, List.length_range]

/-- Elements are numbered from the oldest. -/
theorem getElem_toList (r : Ring α n) (i : Nat) (h : i < r.toList.length) :
    r.toList[i] = r.oldest i := by
  simp [toList]

private theorem mod_two_laps (i : Nat) (h : i < 2 * n) :
    i < n ∧ i % n = i ∨ n ≤ i ∧ i % n = i - n := by
  by_cases hi : i < n
  · exact Or.inl ⟨hi, Nat.mod_eq_of_lt hi⟩
  · refine Or.inr ⟨by omega, ?_⟩
    rw [Nat.mod_eq_sub_mod (by omega), Nat.mod_eq_of_lt (by omega)]

/-- A push changes the head slot only. -/
theorem slot_push (x : α) (r : Ring α n) (i : Nat) (h : i < 2 * n) :
    (r.push x).slot i = if i = r.head ∨ i = r.head + n then x else r.slot i := by
  have hr := r.head.isLt
  have hm := mod_two_laps i h
  unfold slot push
  rw [Vector.getElem_set]
  have hhead : r.head.val = i % n ↔ i = r.head ∨ i = r.head + n := by omega
  by_cases hi : r.head.val = i % n
  · rw [if_pos hi, if_pos (hhead.mp hi)]
  · rw [if_neg hi, if_neg (mt hhead.mpr hi)]

private theorem slot_congr (r : Ring α n) {i j : Nat} (h : i % n = j % n) :
    r.slot i = r.slot j := by
  simp only [slot, h]

/-- Head and count after a push. -/
theorem head_count_push (x : α) (r : Ring α n) :
    (r.head.val + 1 < n ∧ (r.push x).head.val = r.head.val + 1 ∨
      r.head.val + 1 = n ∧ (r.push x).head.val = 0) ∧
    (r.count < n ∧ (r.push x).count = r.count + 1 ∨ r.count = n ∧ (r.push x).count = n) := by
  have hr := r.head.isLt
  have hc := r.count_le
  have hm := mod_two_laps (r.head.val + 1) (by omega : r.head.val + 1 < 2 * n)
  have hhead : (r.push x).head.val = (r.head.val + 1) % n := rfl
  have hcount : (r.push x).count = if r.count < n then r.count + 1 else r.count := rfl
  refine ⟨by omega, ?_⟩
  split at hcount <;> omega

/-- A push appends the element and drops the oldest one of a full ring. -/
theorem toList_push (x : α) (r : Ring α n) :
    (r.push x).toList = (r.toList ++ [x]).drop (r.count + 1 - n) := by
  have hr := r.head.isLt
  have hc := r.count_le
  obtain ⟨hhead, hcount⟩ := head_count_push x r
  apply List.ext_getElem
  · rw [length_toList, List.length_drop, List.length_append, length_toList, List.length_singleton]
    omega
  · intro i hi hj
    rw [length_toList] at hi
    rw [getElem_toList, List.getElem_drop]
    -- The same slot, counted from the head before the push.
    have hslot : (r.push x).oldest i =
        (r.push x).slot (r.head + n - r.count + (r.count + 1 - n + i)) := by
      apply slot_congr
      have h1 := mod_two_laps ((r.push x).head + n - (r.push x).count + i)
        (by omega : _ < 2 * n)
      have h2 := mod_two_laps (r.head + n - r.count + (r.count + 1 - n + i))
        (by omega : _ < 2 * n)
      omega
    rw [hslot, slot_push _ _ _ (by omega)]
    by_cases hlast : r.count + 1 - n + i = r.count
    · rw [if_pos (by omega), List.getElem_append_right (by rw [length_toList]; omega)]
      simp
    · rw [if_neg (by omega), List.getElem_append_left (by rw [length_toList]; omega)]
      simp [toList, oldest]

/-- A ring that holds the end of a list, read by `f`, does so after a push and an addition
to the list exactly when the same is pushed as is added. -/
theorem suffix_push_iff [NeZero n] {β : Type} (f : α → β) (r : Ring α n) (x : α) (xs : List β)
    (y : β) (h : r.toList.map f <:+ xs) :
    (r.push x).toList.map f <:+ xs ++ [y] ↔ f x = y := by
  rw [toList_push, List.map_drop, List.map_append, List.map_singleton]
  have hc := r.count_le
  have hn := Nat.pos_of_neZero n
  have hlen : (r.toList.map f).length = r.count := by rw [List.length_map, length_toList]
  rw [List.drop_append_of_le_length (by omega)]
  constructor
  · intro hs
    have hlast := hs.getLast (by simp)
    simpa using hlast
  · rintro rfl
    exact (List.suffix_append_inj_of_length_eq rfl).mpr ⟨(List.drop_suffix _ _).trans h, rfl⟩

/-- Pushes onto an empty ring leave the last elements pushed. -/
theorem toList_foldl_push [NeZero n] (a : α) (xs : List α) :
    (xs.foldl (fun r x ↦ r.push x) (empty a : Ring α n)).toList = xs.drop (xs.length - n) ∧
      (xs.foldl (fun r x ↦ r.push x) (empty a : Ring α n)).count = min xs.length n := by
  induction xs using List.reverseRecOn with
  | nil => simp [empty, toList]
  | append_singleton xs x ih =>
    rw [List.foldl_append]
    obtain ⟨hl, hc⟩ := ih
    have hpush := toList_push x (xs.foldl (fun r x ↦ r.push x) (empty a : Ring α n))
    constructor
    · apply hpush.trans
      rw [hl, hc, List.length_append, List.length_singleton]
      by_cases hn : xs.length < n
      · rw [Nat.sub_eq_zero_of_le (by omega), Nat.sub_eq_zero_of_le (by omega),
          Nat.sub_eq_zero_of_le (by omega)]
        simp
      · have h1 : min xs.length n + 1 - n = 1 := by omega
        have h2 : xs.length + 1 - n = xs.length - n + 1 := by omega
        have h3 : xs.drop (xs.length - n) ++ [x] = (xs ++ [x]).drop (xs.length - n) := by
          rw [List.drop_append_of_le_length (by omega)]
        rw [h1, h2, h3, List.drop_drop]
    · have hcount := (head_count_push x (xs.foldl (fun r x ↦ r.push x) (empty a : Ring α n))).2
      rw [hc] at hcount
      rw [List.length_append, List.length_singleton]
      change (push x _).count = _
      omega

/-- The head after pushes onto an empty ring counts them modulo the capacity. -/
theorem head_foldl_push [NeZero n] (a : α) (xs : List α) :
    (xs.foldl (fun r x ↦ r.push x) (empty a : Ring α n)).head.val = xs.length % n := by
  induction xs using List.reverseRecOn with
  | nil => simp [empty]
  | append_singleton xs x ih =>
    rw [List.foldl_append, List.length_append, List.length_singleton]
    show (_ + 1) % n = _
    rw [ih, Nat.mod_add_mod]

/-- The slots in use are different. -/
theorem index_inj (r : Ring α n) {i j : Nat} (hi : i < r.count) (hj : j < r.count)
    (h : (r.head + n - r.count + i) % n = (r.head + n - r.count + j) % n) : i = j := by
  have hr := r.head.isLt
  have hc := r.count_le
  have h1 := mod_two_laps (r.head.val + n - r.count + i) (by omega : _ < 2 * n)
  have h2 := mod_two_laps (r.head.val + n - r.count + j) (by omega : _ < 2 * n)
  omega

/-- The elements in use, newest first. -/
theorem map_newest (r : Ring α n) : (List.range r.count).map r.newest = r.toList.reverse := by
  have hr := r.head.isLt
  have hc := r.count_le
  apply List.ext_getElem
  · simp
  · intro i hi hj
    rw [List.length_map, List.length_range] at hi
    rw [List.getElem_map, List.getElem_range, List.getElem_reverse, getElem_toList, length_toList]
    apply slot_congr
    congr 1
    omega

end Ring
end Support
