import Mathlib.Data.List.Basic
import Mathlib.Order.Lattice

/-!
# Consecutive elements that bracket a key

Library `Support`. A search runs through the consecutive pairs of a list. In a list sorted by
a key, a pair that brackets a key is found exactly between the first and the last element, and
neither later elements nor the loss of earlier ones changes which pair is found.
-/

namespace Support

variable {α T : Type}

/-- The first two consecutive elements with a property. -/
def firstPair (p : α → α → Prop) [∀ a b, Decidable (p a b)] : List α → Option (α × α)
  | a :: b :: rest => if p a b then some (a, b) else firstPair p (b :: rest)
  | _ => none

section

variable {p : α → α → Prop} [∀ a b, Decidable (p a b)]

/-- The search depends on what the property says only. -/
theorem firstPair_congr {q : α → α → Prop} [∀ a b, Decidable (q a b)]
    (h : ∀ a b, p a b ↔ q a b) (l : List α) : firstPair p l = firstPair q l := by
  induction l with
  | nil => rfl
  | cons x l ih =>
    cases l with
    | nil => rfl
    | cons y rest => rw [firstPair, firstPair, ih, if_congr (h x y) rfl rfl]

/-- A pair that is found is consecutive and has the property. -/
theorem firstPair_eq_some {l : List α} {a b : α} (h : firstPair p l = some (a, b)) :
    p a b ∧ ∃ before after, l = before ++ a :: b :: after := by
  induction l with
  | nil => cases h
  | cons x l ih =>
    cases l with
    | nil => cases h
    | cons y rest =>
      rw [firstPair] at h
      split at h
      · next hp =>
        obtain ⟨rfl, rfl⟩ := Prod.mk.inj (Option.some.inj h)
        exact ⟨hp, [], rest, rfl⟩
      · obtain ⟨hp, before, after, heq⟩ := ih h
        exact ⟨hp, x :: before, after, by rw [heq, List.cons_append]⟩

/-- Elements after a pair that is found do not change the search. -/
theorem firstPair_append {l : List α} {q : α × α} (h : firstPair p l = some q) (m : List α) :
    firstPair p (l ++ m) = some q := by
  induction l with
  | nil => cases h
  | cons x l ih =>
    cases l with
    | nil => cases h
    | cons y rest =>
      rw [firstPair] at h
      rw [List.cons_append, List.cons_append, firstPair]
      split at h
      · next hp => rw [if_pos hp, h]
      · next hp =>
        rw [if_neg hp]
        exact ih h

end

section

variable [LinearOrder T] (key : α → T) (t : T)

/-- The keys of two elements bracket a key. -/
def Brackets (a b : α) : Prop := key a ≤ t ∧ t ≤ key b

instance (a b : α) : Decidable (Brackets key t a b) := inferInstanceAs (Decidable (_ ∧ _))

variable {key t} {l : List α}

/-- The first element of a sorted list has the least key. -/
theorem le_of_head (hl : l.Pairwise fun a b ↦ key a ≤ key b) {front s : α}
    (hf : l.head? = some front) (hs : s ∈ l) : key front ≤ key s := by
  obtain ⟨rest, rfl⟩ := List.head?_eq_some_iff.mp hf
  rcases List.mem_cons.mp hs with rfl | hs
  · exact le_rfl
  · exact List.rel_of_pairwise_cons hl hs

/-- The last element of a sorted list has the greatest key. -/
theorem le_of_getLast (hl : l.Pairwise fun a b ↦ key a ≤ key b) {back s : α}
    (hb : l.getLast? = some back) (hs : s ∈ l) : key s ≤ key back := by
  obtain ⟨init, rfl⟩ := List.getLast?_eq_some_iff.mp hb
  rcases List.mem_append.mp hs with hs | hs
  · exact (List.pairwise_append.mp hl).2.2 s hs back (List.mem_singleton_self back)
  · rw [List.mem_singleton.mp hs]

/-- Nothing brackets a key outside the list. -/
theorem firstPair_eq_none (hl : l.Pairwise fun a b ↦ key a ≤ key b) {front back : α}
    (hf : l.head? = some front) (hb : l.getLast? = some back)
    (h : t < key front ∨ key back < t) : firstPair (Brackets key t) l = none := by
  by_contra hne
  obtain ⟨⟨a, b⟩, hq⟩ := Option.ne_none_iff_exists'.mp hne
  obtain ⟨⟨hat, htb⟩, before, after, rfl⟩ := firstPair_eq_some hq
  rcases h with h | h
  · have hle := le_of_head hl hf (s := a) (by simp)
    exact absurd (hle.trans hat) (not_le.mpr h)
  · have hle := le_of_getLast hl hb (s := b) (by simp)
    exact absurd (htb.trans hle) (not_le.mpr h)

/-- Among two elements or more something brackets a key inside the list. -/
theorem exists_firstPair {a b : α} {rest : List α} {back : α} (hat : key a ≤ t)
    (hb : (a :: b :: rest).getLast? = some back) (ht : t ≤ key back) :
    ∃ q, firstPair (Brackets key t) (a :: b :: rest) = some q := by
  induction rest generalizing a b with
  | nil =>
    obtain rfl : b = back := by simpa using hb
    exact ⟨(a, b), if_pos ⟨hat, ht⟩⟩
  | cons c rest ih =>
    rw [firstPair]
    by_cases htb : t ≤ key b
    · exact ⟨(a, b), if_pos ⟨hat, htb⟩⟩
    · rw [if_neg fun h ↦ htb h.2]
      exact ih (not_le.mp htb).le (by simpa [List.getLast?_cons_cons] using hb)

/-- Dropping elements does not change the search while an element before the key is left. -/
theorem firstPair_drop (hl : l.Pairwise fun a b ↦ key a ≤ key b) (k : Nat) {s : α}
    (hs : s ∈ l.drop k) (hst : key s < t) :
    firstPair (Brackets key t) (l.drop k) = firstPair (Brackets key t) l := by
  induction l generalizing k with
  | nil => rw [List.drop_nil]
  | cons x l ih =>
    cases k with
    | zero => rfl
    | succ k =>
      rw [List.drop_succ_cons] at hs ⊢
      obtain ⟨_, htail⟩ := List.pairwise_cons.mp hl
      rw [ih htail k hs]
      cases l with
      | nil => rfl
      | cons y rest =>
        -- `y` is not after `s`, so the pair `(x, y)` lies before the key.
        have hy := le_of_head htail rfl (List.mem_of_mem_drop hs)
        rw [firstPair.eq_1 _ x y rest, if_neg]
        exact fun h ↦ absurd h.2 (not_le.mpr (hy.trans_lt hst))

end

end Support
