import Mathlib.Algebra.Order.Group.Multiset

/-!
# Priority queues of which only the laws are known

Library `Support`. A queue stands for the multiset of its elements, and popping takes some
element of least key; which one among equal keys, or how it is found, is left open. Two
loops are built on it: popping while a test holds, and taking the first element that passes
a test while putting the others back.
-/

namespace Support

/-- An implementation of priority queues, with its laws. -/
structure PriorityQueue (α : Type) {N : Type} [LE N] (key : α → N) where
  Carrier : Type
  empty : Carrier
  push : α → Carrier → Carrier
  pop : Carrier → Option (α × Carrier)
  elems : Carrier → Multiset α
  elems_empty : elems empty = 0
  elems_push : ∀ x q, elems (push x q) = x ::ₘ elems q
  elems_of_pop_none : ∀ q, pop q = none → elems q = 0
  elems_of_pop : ∀ q x q', pop q = some (x, q') → elems q = x ::ₘ elems q'
  least_of_pop : ∀ q x q', pop q = some (x, q') → ∀ y ∈ elems q, key x ≤ key y

namespace PriorityQueue

section

variable {α N : Type} [LE N] {key : α → N} (Q : PriorityQueue α key)

/-- Number of elements. -/
def size (q : Q.Carrier) : Nat := (Q.elems q).card

/-- A pop makes the queue smaller. -/
theorem size_of_pop {q q' : Q.Carrier} {x : α} (h : Q.pop q = some (x, q')) :
    Q.size q = Q.size q' + 1 := by
  rw [size, Q.elems_of_pop q x q' h, Multiset.card_cons]
  rfl

/-- An empty queue pops nothing. -/
theorem pop_of_size_zero {q : Q.Carrier} (h : Q.size q = 0) : Q.pop q = none := by
  cases hp : Q.pop q with
  | none => rfl
  | some r =>
    have := Q.size_of_pop hp
    omega

/-- What is popped was there. -/
theorem mem_of_pop {q q' : Q.Carrier} {x : α} (h : Q.pop q = some (x, q')) : x ∈ Q.elems q := by
  rw [Q.elems_of_pop q x q' h]
  exact Multiset.mem_cons_self x _

/-- And so was what is left. -/
theorem le_of_pop {q q' : Q.Carrier} {x : α} (h : Q.pop q = some (x, q')) :
    Q.elems q' ≤ Q.elems q := by
  rw [Q.elems_of_pop q x q' h]
  exact Multiset.le_cons_self _ x

/-- A single element is popped. -/
theorem pop_of_singleton {q : Q.Carrier} {x : α} (h : Q.elems q = {x}) :
    ∃ q', Q.pop q = some (x, q') ∧ Q.elems q' = 0 := by
  cases hp : Q.pop q with
  | none =>
    rw [Q.elems_of_pop_none q hp] at h
    exact absurd h (Multiset.singleton_ne_zero x).symm
  | some r =>
    have hr := h.symm.trans (Q.elems_of_pop q r.1 r.2 hp)
    obtain ⟨rfl, hempty⟩ := (Multiset.singleton_eq_cons_iff _).mp hr
    exact ⟨r.2, rfl, hempty⟩

/-! ### Popping while a test holds -/

/-- Pop while the top passes the test of its turn, at most `fuel` times. -/
def popWhileFuel : Nat → (Nat → α → Bool) → Q.Carrier → List α × Q.Carrier
  | 0, _, q => ([], q)
  | fuel + 1, test, q =>
    match Q.pop q with
    | none => ([], q)
    | some (x, q') =>
      if test 0 x then
        let r := popWhileFuel fuel (fun i ↦ test (i + 1)) q'
        (x :: r.1, r.2)
      else ([], q)

/-- Pop while the top passes the test of its turn: what is popped, and what is left. -/
def popWhile (test : Nat → α → Bool) (q : Q.Carrier) : List α × Q.Carrier :=
  Q.popWhileFuel (Q.size q) test q

/-- The loop pops nothing from an empty queue. -/
theorem popWhile_of_size_zero {q : Q.Carrier} (h : Q.size q = 0) (test : Nat → α → Bool) :
    Q.popWhile test q = ([], q) := by
  rw [popWhile, h]
  rfl

/-- The loop pops nothing where the top fails its test. -/
theorem popWhile_of_not {q q' : Q.Carrier} {x : α} (h : Q.pop q = some (x, q'))
    {test : Nat → α → Bool} (ht : test 0 x = false) : Q.popWhile test q = ([], q) := by
  rw [popWhile, Q.size_of_pop h, popWhileFuel, h]
  simp [ht]

/-- The runs of the loop: it ends at an empty queue or at a top that fails its test. -/
inductive Pops : (Nat → α → Bool) → Q.Carrier → List α → Q.Carrier → Prop
  | empty {test : Nat → α → Bool} {q : Q.Carrier} (h : Q.pop q = none) : Pops test q [] q
  | stop {test : Nat → α → Bool} {q q' : Q.Carrier} {x : α} (h : Q.pop q = some (x, q'))
      (ht : test 0 x = false) : Pops test q [] q
  | pop {test : Nat → α → Bool} {q q' q'' : Q.Carrier} {x : α} {xs : List α}
      (h : Q.pop q = some (x, q')) (ht : test 0 x = true)
      (hr : Pops (fun i ↦ test (i + 1)) q' xs q'') : Pops test q (x :: xs) q''

private theorem pops_popWhileFuel (fuel : Nat) (test : Nat → α → Bool) (q : Q.Carrier)
    (hf : Q.size q ≤ fuel) :
    Pops Q test q (Q.popWhileFuel fuel test q).1 (Q.popWhileFuel fuel test q).2 := by
  induction fuel generalizing test q with
  | zero => exact .empty (Q.pop_of_size_zero (Nat.le_zero.mp hf))
  | succ fuel ih =>
    unfold popWhileFuel
    split
    · next hp => exact .empty hp
    · next x q' hp =>
      have hsize := Q.size_of_pop hp
      by_cases ht : test 0 x = true
      · rw [if_pos ht]
        exact .pop hp ht (ih _ q' (by omega))
      · rw [if_neg ht]
        exact .stop hp (Bool.eq_false_iff.mpr ht)

/-- The loop ends by itself. -/
theorem pops_popWhile (test : Nat → α → Bool) (q : Q.Carrier) :
    Pops Q test q (Q.popWhile test q).1 (Q.popWhile test q).2 :=
  Q.pops_popWhileFuel _ test q le_rfl

namespace Pops

variable {Q} {test : Nat → α → Bool} {q q' : Q.Carrier} {xs : List α}

/-- Nothing is lost or duplicated. -/
theorem elems_eq (h : Pops Q test q xs q') : Q.elems q = (xs : Multiset α) + Q.elems q' := by
  induction h with
  | empty => simp
  | stop => simp
  | pop hp _ _ ih =>
    rw [Q.elems_of_pop _ _ _ hp, ih, ← Multiset.cons_coe, Multiset.cons_add]

/-- What is popped has passed the test of its turn. -/
theorem test_of_mem (h : Pops Q test q xs q') : ∀ x ∈ xs, ∃ i, test i x = true := by
  induction h with
  | empty => exact fun _ hx ↦ absurd hx List.not_mem_nil
  | stop => exact fun _ hx ↦ absurd hx List.not_mem_nil
  | pop _ ht _ ih =>
    intro y hy
    rcases List.mem_cons.mp hy with rfl | hy
    · exact ⟨0, ht⟩
    · obtain ⟨i, hi⟩ := ih y hy
      exact ⟨i + 1, hi⟩

end Pops

/-! ### The order of popping -/

/-- All elements in the order in which they are popped. -/
def popAll (q : Q.Carrier) : List α := (Q.popWhile (fun _ _ ↦ true) q).1

private theorem Pops.all_eq {Q : PriorityQueue α key} {test test' : Nat → α → Bool}
    {q q' q'' : Q.Carrier} {xs ys : List α} (ht : ∀ i, ∀ x ∈ Q.elems q, test i x = true)
    (ht' : ∀ i, ∀ x ∈ Q.elems q, test' i x = true) (h : Pops Q test q xs q')
    (h' : Pops Q test' q ys q'') : xs = ys := by
  induction h generalizing test' ys q'' with
  | empty hp =>
    cases h' with
    | empty => rfl
    | stop => rfl
    | pop hp' => rw [hp] at hp'; cases hp'
  | stop hp hf => rw [ht 0 _ (Q.mem_of_pop hp)] at hf; cases hf
  | pop hp _ _ ih =>
    cases h' with
    | empty hp' => rw [hp] at hp'; cases hp'
    | stop hp' hf => rw [ht' 0 _ (Q.mem_of_pop hp')] at hf; cases hf
    | pop hp' _ hr' =>
      rw [hp] at hp'
      obtain ⟨rfl, rfl⟩ := Prod.mk.inj (Option.some.inj hp')
      have hle := Q.le_of_pop hp
      rw [ih (fun i y hy ↦ ht (i + 1) y (Multiset.mem_of_le hle hy))
        (fun i y hy ↦ ht' (i + 1) y (Multiset.mem_of_le hle hy)) hr']

/-- Popping while a test holds takes all elements if they always pass it. -/
theorem Pops.eq_popAll {Q : PriorityQueue α key} {test : Nat → α → Bool} {q q' : Q.Carrier}
    {xs : List α} (h : Pops Q test q xs q') (hall : ∀ i, ∀ x ∈ Q.elems q, test i x = true) :
    xs = Q.popAll q :=
  Pops.all_eq hall (fun _ _ _ ↦ rfl) h (Q.pops_popWhile _ q)

/-- An empty queue pops nothing. -/
theorem popAll_of_none {q : Q.Carrier} (h : Q.pop q = none) : Q.popAll q = [] :=
  (Q.pops_popWhile (fun _ _ ↦ true) q).all_eq (fun _ _ _ ↦ rfl) (fun _ _ _ ↦ rfl) (.empty h)

/-- What is popped first, and then the others. -/
theorem popAll_of_some {q q' : Q.Carrier} {x : α} (h : Q.pop q = some (x, q')) :
    Q.popAll q = x :: Q.popAll q' :=
  (Q.pops_popWhile (fun _ _ ↦ true) q).all_eq (fun _ _ _ ↦ rfl) (fun _ _ _ ↦ rfl)
    (.pop h rfl (Q.pops_popWhile _ q'))

/-- Popping while a test holds takes a first part of this order and leaves the rest. -/
theorem Pops.split {Q : PriorityQueue α key} {t : α → Bool} {test : Nat → α → Bool}
    {q q' : Q.Carrier} {xs : List α} (ht : test = fun _ ↦ t) (h : Pops Q test q xs q') :
    xs = (Q.popAll q).takeWhile t ∧ Q.popAll q' = (Q.popAll q).dropWhile t := by
  induction h with
  | empty hp => rw [Q.popAll_of_none hp]; exact ⟨rfl, rfl⟩
  | stop hp hx =>
    rw [ht] at hx
    rw [Q.popAll_of_some hp, List.takeWhile_cons_of_neg (by simp [hx]),
      List.dropWhile_cons_of_neg (by simp [hx])]
    exact ⟨rfl, rfl⟩
  | pop hp hx _ ih =>
    rw [ht] at hx ih
    obtain ⟨hxs, hrest⟩ := ih rfl
    rw [Q.popAll_of_some hp, List.takeWhile_cons_of_pos hx, List.dropWhile_cons_of_pos hx]
    exact ⟨congrArg _ hxs, hrest⟩

/-- Nothing is left when all is popped. -/
theorem coe_popAll (q : Q.Carrier) : (Q.popAll q : Multiset α) = Q.elems q := by
  induction hn : Q.size q generalizing q with
  | zero =>
    have hp := Q.pop_of_size_zero hn
    rw [Q.popAll_of_none hp, Q.elems_of_pop_none q hp, Multiset.coe_nil]
  | succ n ih =>
    cases hp : Q.pop q with
    | none => rw [Q.popAll_of_none hp, Q.elems_of_pop_none q hp, Multiset.coe_nil]
    | some r =>
      have hsize := Q.size_of_pop hp
      rw [Q.popAll_of_some hp, Q.elems_of_pop q r.1 r.2 hp, ← ih r.2 (by omega), Multiset.cons_coe]

/-- Elements are popped in the order of their keys. -/
theorem sorted_popAll (q : Q.Carrier) : (Q.popAll q).Pairwise fun x y ↦ key x ≤ key y := by
  induction hn : Q.size q generalizing q with
  | zero =>
    rw [Q.popAll_of_none (Q.pop_of_size_zero hn)]
    exact List.Pairwise.nil
  | succ n ih =>
    cases hp : Q.pop q with
    | none =>
      rw [Q.popAll_of_none hp]
      exact List.Pairwise.nil
    | some r =>
      have hsize := Q.size_of_pop hp
      rw [Q.popAll_of_some hp]
      refine List.pairwise_cons.mpr ⟨fun y hy ↦ Q.least_of_pop q r.1 r.2 hp y ?_, ih r.2 (by omega)⟩
      rw [Q.elems_of_pop q r.1 r.2 hp, Multiset.mem_cons, ← Q.coe_popAll, Multiset.mem_coe]
      exact Or.inr hy

/-- An element later than all others is popped last. -/
theorem popAll_concat [LT N] [Std.LawfulOrderLT N] {q : Q.Carrier} {x : α} {s : Multiset α}
    (hq : Q.elems q = x ::ₘ s) (hlast : ∀ y ∈ s, key y < key x) :
    ∃ ys : List α, Q.popAll q = ys ++ [x] ∧ (ys : Multiset α) = s := by
  have hcoe := (Q.coe_popAll q).trans hq
  have hsorted := Q.sorted_popAll q
  rcases List.eq_nil_or_concat (Q.popAll q) with hnil | ⟨ys, z, hconcat⟩
  · rw [hnil] at hcoe
    exact absurd hcoe.symm Multiset.cons_ne_zero
  · rw [hconcat, List.concat_eq_append] at hcoe hsorted
    rw [hconcat, List.concat_eq_append]
    have hcons : z ::ₘ (ys : Multiset α) = x ::ₘ s := by
      rw [← hcoe, ← Multiset.coe_add, Multiset.coe_singleton, add_comm, Multiset.singleton_add]
    rcases Multiset.cons_eq_cons.mp hcons with ⟨rfl, hs⟩ | ⟨_, t, hys, hs⟩
    · exact ⟨ys, rfl, hs⟩
    · -- the last one popped would be both earlier and no earlier than the latest
      have hx : x ∈ ys := by
        rw [← Multiset.mem_coe, hys]
        exact Multiset.mem_cons_self x t
      have hle := (List.pairwise_append.mp hsorted).2.2 x hx z (List.mem_singleton_self z)
      have hlt := hlast z (hs ▸ Multiset.mem_cons_self z t)
      exact absurd hlt (Std.not_lt_of_ge hle)

/-! ### Taking the first element that passes a test -/

/-- Pop up to the first element that is `found`, at most `fuel` elements: it, the elements
held back, and what is left. -/
def searchFuel (found : α → Bool) : Nat → Q.Carrier → Option α × List α × Q.Carrier
  | 0, q => (none, [], q)
  | fuel + 1, q =>
    match Q.pop q with
    | none => (none, [], q)
    | some (x, q') =>
      if found x then (some x, [], q')
      else
        let r := searchFuel found fuel q'
        (r.1, x :: r.2.1, r.2.2)

/-- Push elements one after another. -/
def pushAll (xs : List α) (q : Q.Carrier) : Q.Carrier := xs.foldl (fun q x ↦ Q.push x q) q

/-- Pop up to the first element that is `found`, and push those held back. -/
def takeFirst (found : α → Bool) (q : Q.Carrier) : Option α × Q.Carrier :=
  let r := Q.searchFuel found (Q.size q) q
  (r.1, Q.pushAll r.2.1 r.2.2)

/-- The top is taken where it passes the test. -/
theorem takeFirst_of_pop {q q' : Q.Carrier} {x : α} (h : Q.pop q = some (x, q'))
    {found : α → Bool} (hx : found x = true) : Q.takeFirst found q = (some x, q') := by
  rw [takeFirst, Q.size_of_pop h, searchFuel, h]
  simp [hx, pushAll]

/-- Pushing adds the elements. -/
theorem elems_pushAll (xs : List α) (q : Q.Carrier) :
    Q.elems (Q.pushAll xs q) = (xs : Multiset α) + Q.elems q := by
  induction xs generalizing q with
  | nil => simp [pushAll]
  | cons x xs ih =>
    apply (ih (Q.push x q)).trans
    rw [Q.elems_push, ← Multiset.cons_coe, Multiset.cons_add, Multiset.add_cons]

/-- What a search finds, holds back and leaves. -/
private theorem searchFuel_spec (found : α → Bool) (fuel : Nat) (q : Q.Carrier)
    (hf : Q.size q ≤ fuel) :
    let r := Q.searchFuel found fuel q
    (∀ y ∈ r.2.1, found y = false) ∧
    match r.1 with
    | none => Q.elems q = (r.2.1 : Multiset α) ∧ Q.elems r.2.2 = 0
    | some x => Q.elems q = x ::ₘ ((r.2.1 : Multiset α) + Q.elems r.2.2) ∧ found x = true ∧
        ∀ y ∈ x ::ₘ Q.elems r.2.2, key x ≤ key y := by
  induction fuel generalizing q with
  | zero =>
    have h0 := Q.elems_of_pop_none q (Q.pop_of_size_zero (Nat.le_zero.mp hf))
    refine ⟨fun _ hy ↦ absurd hy List.not_mem_nil, ?_⟩
    exact ⟨h0, h0⟩
  | succ fuel ih =>
    intro r
    have hr : r = Q.searchFuel found (fuel + 1) q := rfl
    unfold searchFuel at hr
    split at hr
    · next hp =>
      have h0 := Q.elems_of_pop_none q hp
      rw [hr]
      exact ⟨fun _ hy ↦ absurd hy List.not_mem_nil, h0, h0⟩
    · next x q' hp =>
      have hsize := Q.size_of_pop hp
      have hq := Q.elems_of_pop q x q' hp
      by_cases hx : found x = true
      · rw [if_pos hx] at hr
        rw [hr]
        refine ⟨fun _ hy ↦ absurd hy List.not_mem_nil, ?_, hx, ?_⟩
        · rw [hq, Multiset.coe_nil, zero_add]
        · rw [← hq]
          exact Q.least_of_pop q x q' hp
      · rw [if_neg hx] at hr
        obtain ⟨hheld, hcase⟩ := ih q' (by omega)
        rw [hr]
        dsimp only
        refine ⟨List.forall_mem_cons.mpr ⟨Bool.eq_false_iff.mpr hx, hheld⟩, ?_⟩
        split
        · next hnone =>
          rw [hnone] at hcase
          exact ⟨by rw [hq, hcase.1, Multiset.cons_coe], hcase.2⟩
        · next y hsome =>
          rw [hsome] at hcase
          refine ⟨?_, hcase.2⟩
          rw [hq, hcase.1, ← Multiset.cons_coe, Multiset.cons_swap, Multiset.cons_add]

/-- Where nothing is found, the queue keeps its elements, and none of them passes the test. -/
theorem takeFirst_none {found : α → Bool} {q q' : Q.Carrier}
    (h : Q.takeFirst found q = (none, q')) :
    Q.elems q' = Q.elems q ∧ ∀ y ∈ Q.elems q, found y = false := by
  have hspec := Q.searchFuel_spec found _ q le_rfl
  obtain ⟨h1, rfl⟩ := Prod.mk.inj h
  dsimp only at hspec
  rw [h1] at hspec
  obtain ⟨hheld, heq, hzero⟩ := hspec
  refine ⟨by rw [elems_pushAll, hzero, add_zero, heq], fun y hy ↦ hheld y ?_⟩
  rwa [heq, Multiset.mem_coe] at hy

/-- What is found passes the test, leaves the other elements, and is least among those that
pass the test. -/
theorem takeFirst_some {found : α → Bool} {q q' : Q.Carrier} {x : α}
    (h : Q.takeFirst found q = (some x, q')) :
    found x = true ∧ Q.elems q = x ::ₘ Q.elems q' ∧
      ∀ y ∈ Q.elems q, found y = true → key x ≤ key y := by
  have hspec := Q.searchFuel_spec found _ q le_rfl
  obtain ⟨h1, rfl⟩ := Prod.mk.inj h
  dsimp only at hspec
  rw [h1] at hspec
  obtain ⟨hheld, heq, hx, hle⟩ := hspec
  refine ⟨hx, by rw [elems_pushAll, heq], fun y hy hfound ↦ ?_⟩
  rw [heq, Multiset.mem_cons, Multiset.mem_add, Multiset.mem_coe] at hy
  rcases hy with rfl | hy | hy
  · exact hle y (Multiset.mem_cons_self _ _)
  · rw [hheld y hy] at hfound
    cases hfound
  · exact hle y (Multiset.mem_cons_of_mem hy)

end

/-! ### Order of arrival -/

section

variable {α N : Type} [LE N] [LT N] {key : α → N} {xs : List α} {s t : Multiset α} {x : α}

/-- The elements of a multiset in the order of their arrival, which is that of their keys. -/
structure Waiting (key : α → N) (xs : List α) (s : Multiset α) : Prop where
  elems : (xs : Multiset α) = s
  sorted : xs.Pairwise fun x y ↦ key x < key y

namespace Waiting

variable [Std.LawfulOrderLT N]

/-- An element of least key leaves: it is the first that arrived. -/
theorem leave (h : Waiting key xs s) (hs : s = x ::ₘ t) (hx : ∀ y ∈ s, key x ≤ key y) :
    ∃ ys, xs = x :: ys ∧ Waiting key ys t := by
  have hmem : x ∈ xs := by
    rw [← Multiset.mem_coe, h.elems, hs]
    exact Multiset.mem_cons_self _ _
  cases xs with
  | nil => cases hmem
  | cons y ys =>
    obtain ⟨hy, hys⟩ := List.pairwise_cons.mp h.sorted
    have hyx : y = x := by
      rcases List.mem_cons.mp hmem with rfl | hmem
      · rfl
      · have hle := hx y (h.elems ▸ Multiset.mem_coe.mpr List.mem_cons_self)
        exact absurd (hy x hmem) (Std.not_lt_of_ge hle)
    subst hyx
    refine ⟨ys, rfl, ⟨?_, hys⟩⟩
    have helems := h.elems
    rw [hs, ← Multiset.cons_coe] at helems
    exact Multiset.cons_inj_right _ |>.mp helems

end Waiting

/-- What has come out is a first part of what went in, and the rest waits. -/
def InOrder (key : α → N) (ins outs : List α) (s : Multiset α) : Prop :=
  ∃ xs, ins = outs ++ xs ∧ Waiting key xs s

namespace InOrder

variable {ins outs : List α}

omit [LE N] in
/-- Nothing went in. -/
theorem nil : InOrder key [] [] 0 := ⟨[], rfl, rfl, List.Pairwise.nil⟩

omit [LE N] in
/-- What has come out went in first. -/
theorem isPrefix (h : InOrder key ins outs s) : outs <+: ins := by
  obtain ⟨xs, rfl, _⟩ := h
  exact List.prefix_append _ _

omit [LE N] in
/-- Elements with later keys go in one after another. -/
theorem push {ys : List α} (h : InOrder key ins outs s)
    (hys : ys.Pairwise fun x y ↦ key x < key y) (hlater : ∀ y ∈ ys, ∀ x ∈ s, key x < key y) :
    InOrder key (ins ++ ys) outs (ys + s) := by
  obtain ⟨xs, rfl, hw⟩ := h
  refine ⟨xs ++ ys, List.append_assoc _ _ _, ?_, List.pairwise_append.mpr ⟨hw.sorted, hys, ?_⟩⟩
  · rw [← hw.elems, ← Multiset.coe_add, add_comm]
  · intro x hx y hy
    exact hlater y hy x (hw.elems ▸ Multiset.mem_coe.mpr hx)

omit [LE N] in
/-- An element passes while nothing waits. -/
theorem pass (h : InOrder key ins outs 0) (x : α) : InOrder key (ins ++ [x]) (outs ++ [x]) 0 := by
  obtain ⟨xs, rfl, hw⟩ := h
  obtain rfl : xs = [] := Multiset.coe_eq_zero _ |>.mp hw.elems
  exact ⟨[], by simp, rfl, List.Pairwise.nil⟩

variable [Std.LawfulOrderLT N]

/-- An element of least key comes out. -/
theorem leave (h : InOrder key ins outs s) (hs : s = x ::ₘ t) (hx : ∀ y ∈ s, key x ≤ key y) :
    InOrder key ins (outs ++ [x]) t := by
  obtain ⟨xs, rfl, hw⟩ := h
  obtain ⟨ys, rfl, hys⟩ := hw.leave hs hx
  exact ⟨ys, by simp, hys⟩

/-- A loop that pops elements of one kind only lets them come out in their order. -/
theorem pops {Q : PriorityQueue α key} {test : Nat → α → Bool} {q q' : Q.Carrier} {ys : List α}
    (p : α → Prop) [DecidablePred p] (hpop : Pops Q test q ys q') (hp : ∀ y ∈ ys, p y)
    (h : InOrder key ins outs ((Q.elems q).filter p)) :
    InOrder key ins (outs ++ ys) ((Q.elems q').filter p) := by
  induction hpop generalizing outs with
  | empty => simpa using h
  | stop => simpa using h
  | @pop _ _ _ _ x ys hq _ _ ih =>
    obtain ⟨hx, hys⟩ := List.forall_mem_cons.mp hp
    have hs := congrArg (Multiset.filter p) (Q.elems_of_pop _ _ _ hq)
    rw [Multiset.filter_cons_of_pos _ hx] at hs
    have hleave := h.leave hs fun y hy ↦
      Q.least_of_pop _ _ _ hq y (Multiset.mem_of_mem_filter hy)
    have hrest := ih hys hleave
    rwa [List.append_assoc] at hrest

end InOrder
end

/-! ### Lists as queues -/

section

variable {α N : Type} [LE N] [DecidableLE N]

/-- First element of least key, and the others. -/
def popLeast (key : α → N) : List α → Option (α × List α)
  | [] => none
  | x :: xs =>
    match popLeast key xs with
    | none => some (x, xs)
    | some (y, ys) => if key x ≤ key y then some (x, xs) else some (y, x :: ys)

/-- A list pops nothing only if it is empty. -/
theorem popLeast_none {key : α → N} {xs : List α} (h : popLeast key xs = none) : xs = [] := by
  cases xs with
  | nil => rfl
  | cons x xs =>
    unfold popLeast at h
    split at h
    · cases h
    · split at h <;> cases h

variable [Std.IsLinearOrder N]

/-- The first element of least key is taken off. -/
theorem popLeast_some {key : α → N} {xs ys : List α} {x : α} (h : popLeast key xs = some (x, ys)) :
    (xs : Multiset α) = x ::ₘ (ys : Multiset α) ∧ ∀ y ∈ xs, key x ≤ key y := by
  induction xs generalizing x ys with
  | nil => cases h
  | cons z zs ih =>
    unfold popLeast at h
    split at h
    · next hn =>
      obtain ⟨rfl, rfl⟩ := Prod.mk.inj (Option.some.inj h)
      rw [popLeast_none hn]
      exact ⟨rfl, List.forall_mem_singleton.mpr (Std.le_refl _)⟩
    · next w ws hs =>
      obtain ⟨heq, hle⟩ := ih hs
      split at h
      · next hzw =>
        obtain ⟨rfl, rfl⟩ := Prod.mk.inj (Option.some.inj h)
        exact ⟨rfl, List.forall_mem_cons.mpr
          ⟨Std.le_refl _, fun y hy ↦ Std.le_trans hzw (hle y hy)⟩⟩
      · next hzw =>
        obtain ⟨rfl, rfl⟩ := Prod.mk.inj (Option.some.inj h)
        refine ⟨?_, List.forall_mem_cons.mpr ⟨?_, hle⟩⟩
        · rw [← Multiset.cons_coe, heq, ← Multiset.cons_coe, Multiset.cons_swap]
        · exact (Std.le_total (a := key z) (b := key w)).resolve_left hzw

/-- Lists that push in front: among equal keys the newest element comes first. -/
def newestFirst (key : α → N) : PriorityQueue α key where
  Carrier := List α
  empty := []
  push x xs := x :: xs
  pop := popLeast key
  elems xs := xs
  elems_empty := rfl
  elems_push _ _ := rfl
  elems_of_pop_none _ h := by rw [popLeast_none h]; rfl
  elems_of_pop _ _ _ h := (popLeast_some h).1
  least_of_pop _ _ _ h := (popLeast_some h).2

end
end PriorityQueue
end Support
