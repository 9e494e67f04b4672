import LightningLink.Support.PriorityQueue

/-!
# Binary heaps

Library `Support`. A heap is an array that lists a tree row by row, and no element has a key
greater than those below it. Elements are pushed and popped by the moves of `std::push_heap`
and `std::pop_heap`: a new element rises from the end; a pop moves the last element to the
root, lets it sink to a leaf along the lesser children, the right one of two equal ones, and
lets it rise again. Elements of equal key need not come out in the order they went in.
-/

namespace Support

namespace Heap

/-- Place of the element above. -/
def parent (c : Nat) : Nat := (c - 1) / 2

theorem parent_lt {c : Nat} (h : 0 < c) : parent c < c := by
  unfold parent
  omega

section

variable {α N : Type} [LE N] [DecidableLE N] (key : α → N)

/-- An element rises while the key above it is greater. -/
def siftUp : Nat → Array α → Nat → Array α
  | 0, a, _ => a
  | fuel + 1, a, i =>
    if h : i < a.size then
      have hp : parent i < a.size := Nat.lt_of_le_of_lt (Nat.le_trans (Nat.div_le_self _ _)
        (Nat.sub_le i 1)) h
      if key a[parent i] ≤ key a[i] then a
      else siftUp fuel (a.swap i (parent i)) (parent i)
    else a

/-- An element sinks to a leaf along the lesser children: the array, and where it ends. -/
def siftDown : Nat → Array α → Nat → Array α × Nat
  | 0, a, i => (a, i)
  | fuel + 1, a, i =>
    if _ : 2 * i + 2 < a.size then
      if key a[2 * i + 2] ≤ key a[2 * i + 1] then
        siftDown fuel (a.swap i (2 * i + 2)) (2 * i + 2)
      else siftDown fuel (a.swap i (2 * i + 1)) (2 * i + 1)
    else if _ : 2 * i + 1 < a.size then (a.swap i (2 * i + 1), 2 * i + 1)
    else (a, i)

/-- A new element rises from the end. -/
def push (x : α) (a : Array α) : Array α := siftUp key a.size (a.push x) a.size

/-- The last element takes the place of the root, which is popped. -/
def pop (a : Array α) : Option (α × Array α) :=
  if h : 0 < a.size then
    let b := (a.swap 0 (a.size - 1)).pop
    let r := siftDown key b.size b 0
    some (a[0], siftUp key r.2 r.1 r.2)
  else none

end

/-! ### Nothing is lost -/

section

variable {α N : Type} [LE N] [DecidableLE N] {key : α → N}

theorem siftUp_perm (fuel : Nat) (a : Array α) (i : Nat) :
    (siftUp key fuel a i).toList.Perm a.toList := by
  induction fuel generalizing a i with
  | zero => exact .refl _
  | succ fuel ih =>
    unfold siftUp
    split
    · dsimp only
      split
      · exact .refl _
      · exact (ih _ _).trans (Array.swap_perm _ _).toList
    · exact .refl _

theorem siftDown_perm (fuel : Nat) (a : Array α) (i : Nat) :
    (siftDown key fuel a i).1.toList.Perm a.toList := by
  induction fuel generalizing a i with
  | zero => exact .refl _
  | succ fuel ih =>
    unfold siftDown
    split
    · split
      · exact (ih _ _).trans (Array.swap_perm _ _).toList
      · exact (ih _ _).trans (Array.swap_perm _ _).toList
    · split
      · exact (Array.swap_perm _ _).toList
      · exact .refl _

/-- A push adds its element. -/
theorem push_perm (x : α) (a : Array α) : (push key x a).toList.Perm (x :: a.toList) := by
  refine (siftUp_perm _ _ _).trans ?_
  rw [Array.toList_push]
  exact List.perm_append_comm

/-- A pop takes an element off. -/
theorem pop_perm {a b : Array α} {x : α} (h : pop key a = some (x, b)) :
    a.toList.Perm (x :: b.toList) := by
  unfold pop at h
  split at h
  · next hpos =>
    obtain ⟨rfl, rfl⟩ := Prod.mk.inj (Option.some.inj h)
    have hne : (a.swap 0 (a.size - 1)).toList ≠ [] := by
      rw [← List.length_pos_iff, Array.length_toList, Array.size_swap]
      exact hpos
    have hlast : (a.swap 0 (a.size - 1)).toList.Perm
        (a[0] :: (a.swap 0 (a.size - 1)).pop.toList) := by
      rw [Array.toList_pop]
      refine .trans (.of_eq (List.dropLast_append_getLast hne).symm) ?_
      refine .trans List.perm_append_comm ?_
      rw [List.getLast_eq_getElem]
      simp
    exact (Array.swap_perm (by omega) (by omega)).toList.symm.trans (hlast.trans
      (.cons _ ((siftUp_perm _ _ _).trans (siftDown_perm _ _ _)).symm))
  · cases h

/-- Only an empty heap pops nothing. -/
theorem eq_empty_of_pop {a : Array α} (h : pop key a = none) : a = #[] := by
  unfold pop at h
  split at h
  · cases h
  · next hpos => exact Array.size_eq_zero_iff.mp (by omega)

end

/-! ### The order of the tree -/

section

variable {α N : Type} [LE N] {key : α → N}

/-- No key of the first place is greater than one of the second. -/
def Le (key : α → N) (x y : Option α) : Prop := ∀ u ∈ x, ∀ v ∈ y, key u ≤ key v

/-- No element has a key greater than those below it. -/
def Ordered (key : α → N) (a : Array α) : Prop := ∀ c, 0 < c → Le key a[parent c]? a[c]?

/-- The tree is in order everywhere but at the place `i`, and across it. -/
structure Around (key : α → N) (a : Array α) (i : Nat) : Prop where
  off : ∀ c, 0 < c → c ≠ i → parent c ≠ i → Le key a[parent c]? a[c]?
  across : 0 < i → ∀ c, 0 < c → parent c = i → Le key a[parent i]? a[c]?

/-- The element at the place `i` is in order with those below it. -/
def Above (key : α → N) (a : Array α) (i : Nat) : Prop :=
  ∀ c, 0 < c → parent c = i → Le key a[i]? a[c]?

omit [LE N] in
theorem swap_fst {a : Array α} {i j : Nat} (hi : i < a.size) (hj : j < a.size) :
    (a.swap i j)[i]? = a[j]? := by
  rw [Array.getElem?_swap]
  split
  · next h => subst h; simp [hi]
  · simp [hj]

omit [LE N] in
theorem swap_snd {a : Array α} {i j : Nat} (hi : i < a.size) (hj : j < a.size) :
    (a.swap i j)[j]? = a[i]? := by
  rw [Array.getElem?_swap]
  simp [hi]

omit [LE N] in
theorem swap_other {a : Array α} {i j k : Nat} (hi : i < a.size) (hj : j < a.size)
    (hik : k ≠ i) (hjk : k ≠ j) : (a.swap i j)[k]? = a[k]? := by
  rw [Array.getElem?_swap, if_neg (Ne.symm hjk), if_neg (Ne.symm hik)]

/-- Nothing is below the places behind the end. -/
theorem le_of_size {a : Array α} {x : Option α} {c : Nat} (h : a.size ≤ c) : Le key x a[c]? := by
  intro u _ v hv
  rw [Array.getElem?_eq_none h] at hv
  cases hv

theorem le_of_getElem {a : Array α} {i j : Nat} {hi : i < a.size} {hj : j < a.size}
    (h : key a[i] ≤ key a[j]) : Le key a[i]? a[j]? := by
  rw [Array.getElem?_eq_getElem hi, Array.getElem?_eq_getElem hj]
  rintro u ⟨⟩ v ⟨⟩
  exact h

theorem Le.trans [Std.IsLinearOrder N] {x z : Option α} {y : α} (h : Le key x (some y))
    (h' : Le key (some y) z) : Le key x z :=
  fun u hu v hv ↦ Std.le_trans (h u hu y rfl) (h' y rfl v hv)

namespace Around

variable {a : Array α} {i : Nat}

/-- Where the place is in order with its neighbours, the whole tree is. -/
theorem ordered (h : Around key a i) (habove : Above key a i)
    (hbelow : 0 < i → Le key a[parent i]? a[i]?) : Ordered key a := by
  intro c hc
  by_cases hp : parent c = i
  · exact hp ▸ habove c hc hp
  · by_cases hi : c = i
    · subst hi
      exact hbelow hc
    · exact h.off c hc hi hp

variable [Std.IsLinearOrder N]

/-- An element changes places with a greater one above it. -/
theorem rise (h : Around key a i) (hpos : 0 < i) (hi : i < a.size)
    (hp : parent i < a.size) (hle : key a[i] ≤ key a[parent i]) :
    Around key (a.swap i (parent i)) (parent i) ∧ Above key (a.swap i (parent i)) (parent i) := by
  have hlt := parent_lt hpos
  refine ⟨⟨fun c hc hcp hpp ↦ ?_, fun hpp c hc hcp ↦ ?_⟩, fun c hc hcp ↦ ?_⟩
  · -- Those below the place now have its old parent above them.
    have hci : c ≠ i := fun hci ↦ hpp (hci ▸ rfl)
    rw [swap_other hi hp hci hcp]
    by_cases hcc : parent c = i
    · rw [hcc, swap_fst hi hp]
      exact h.across hpos c hc hcc
    · rw [swap_other hi hp hcc hpp]
      exact h.off c hc hci hcc
  · have hgrand := parent_lt hpp
    have hoff : Le key a[parent (parent i)]? a[parent i]? :=
      h.off (parent i) hpp (by omega) (by omega)
    rw [swap_other hi hp (by omega) (by omega)]
    by_cases hci : c = i
    · rw [hci, swap_fst hi hp]
      exact hoff
    · have hcc := parent_lt hc
      rw [swap_other hi hp hci (by omega)]
      rw [Array.getElem?_eq_getElem hp] at hoff
      refine hoff.trans ?_
      rw [← Array.getElem?_eq_getElem hp, ← hcp]
      exact h.off c hc hci (by omega)
  · rw [swap_snd hi hp]
    by_cases hci : c = i
    · rw [hci, swap_fst hi hp]
      exact le_of_getElem hle
    · have hcc := parent_lt hc
      rw [swap_other hi hp hci (by omega)]
      have hup : Le key a[i]? a[parent i]? := le_of_getElem hle
      rw [Array.getElem?_eq_getElem hp] at hup
      refine hup.trans ?_
      rw [← Array.getElem?_eq_getElem hp, ← hcp]
      exact h.off c hc hci (by omega)

omit [Std.IsLinearOrder N] in
/-- An element changes places with the lesser of those below it. -/
theorem sink {j : Nat} (h : Around key a i) (hi : i < a.size) (hj : j < a.size) (hpos : 0 < j)
    (hji : parent j = i) (hleast : ∀ c, 0 < c → parent c = i → c ≠ j → Le key a[j]? a[c]?) :
    Around key (a.swap i j) j := by
  have hlt := parent_lt hpos
  refine ⟨fun c hc hcj hpj ↦ ?_, fun _ c hc hcj ↦ ?_⟩
  · by_cases hci : c = i
    · subst hci
      have hcc := parent_lt hc
      rw [swap_fst hi hj, swap_other hi hj (by omega) hpj]
      exact h.across hc j hpos hji
    · rw [swap_other hi hj hci hcj]
      by_cases hcc : parent c = i
      · rw [hcc, swap_fst hi hj]
        exact hleast c hc hcc hcj
      · rw [swap_other hi hj hcc hpj]
        exact h.off c hc hci hcc
  · have hcc := parent_lt hc
    rw [hji, swap_fst hi hj, swap_other hi hj (by omega) (by omega)]
    rw [← hcj]
    exact h.off c hc (by omega) (by omega)

end Around

variable [DecidableLE N] [Std.IsLinearOrder N]

/-- An element that rises from a place that is in order with those below it leaves the tree in
order. -/
theorem ordered_siftUp (fuel : Nat) (a : Array α) (i : Nat) (hfuel : i ≤ fuel)
    (haround : Around key a i) (habove : Above key a i) :
    Ordered key (siftUp key fuel a i) := by
  induction fuel generalizing a i with
  | zero => exact haround.ordered habove fun hpos ↦ absurd hfuel (by omega)
  | succ fuel ih =>
    unfold siftUp
    split
    · next hi =>
      dsimp only
      split
      · next hle => exact haround.ordered habove fun _ ↦ le_of_getElem hle
      · next hle =>
        have hpos : 0 < i := by
          refine Nat.pos_of_ne_zero fun hzero ↦ hle ?_
          subst hzero
          exact Std.le_refl _
        have hlt := parent_lt hpos
        obtain ⟨h, h'⟩ := haround.rise hpos hi (by omega)
          ((Std.le_total (a := key a[i])).resolve_right hle)
        exact ih _ _ (by omega) h h'
    · next hi => exact haround.ordered habove fun _ ↦ le_of_size (by omega)

/-- An element that sinks ends at a leaf, and the tree is in order around it. -/
theorem around_siftDown (fuel : Nat) (a : Array α) (i : Nat) (hfuel : a.size ≤ i + fuel)
    (haround : Around key a i) :
    Around key (siftDown key fuel a i).1 (siftDown key fuel a i).2 ∧
      Above key (siftDown key fuel a i).1 (siftDown key fuel a i).2 := by
  induction fuel generalizing a i with
  | zero =>
    refine ⟨haround, fun c hc hp ↦ le_of_size ?_⟩
    have hlt := parent_lt hc
    change parent c = i at hp
    change a.size ≤ c
    omega
  | succ fuel ih =>
    unfold siftDown
    have hside : ∀ c, 0 < c → parent c = i → c = 2 * i + 1 ∨ c = 2 * i + 2 := by
      intro c hc hp
      unfold parent at hp
      omega
    have hleft : parent (2 * i + 1) = i := by
      unfold parent
      omega
    have hright : parent (2 * i + 2) = i := by
      unfold parent
      omega
    split
    · next h =>
      split
      · next hle =>
        refine ih _ _ (by rw [Array.size_swap]; omega) (haround.sink (by omega) h (by omega) hright
          fun c hc hp hne ↦ ?_)
        rw [(hside c hc hp).resolve_right hne]
        exact le_of_getElem hle
      · next hle =>
        refine ih _ _ (by rw [Array.size_swap]; omega) (haround.sink (by omega) (by omega)
          (by omega) hleft fun c hc hp hne ↦ ?_)
        rw [(hside c hc hp).resolve_left hne]
        exact le_of_getElem ((Std.le_total (a := key a[2 * i + 1])).resolve_right hle)
    · next h =>
      split
      · next h' =>
        refine ⟨haround.sink (by omega) h' (by omega) hleft fun c hc hp hne ↦ ?_, ?_⟩
        · rw [(hside c hc hp).resolve_left hne]
          exact le_of_size (by omega)
        · intro c hc hp
          refine le_of_size ?_
          unfold parent at hp
          rw [Array.size_swap]
          omega
      · next h' =>
        refine ⟨haround, fun c hc hp ↦ le_of_size ?_⟩
        have hc' := hside c hc hp
        change a.size ≤ c
        omega

/-- A push keeps the order. -/
theorem Ordered.push {a : Array α} (h : Ordered key a) (x : α) : Ordered key (push key x a) := by
  have hother : ∀ c, c ≠ a.size → (a.push x)[c]? = a[c]? := by
    intro c hc
    rw [Array.getElem?_push, if_neg hc]
  have hout : ∀ y : Option α, ∀ c, a.size < c → Le key y (a.push x)[c]? := fun y c hc ↦
    le_of_size (by rw [Array.size_push]; omega)
  refine ordered_siftUp _ _ _ le_rfl ⟨fun c hc hcs hps ↦ ?_, fun _ c hc hp ↦ ?_⟩ fun c hc hp ↦ ?_
  · rw [hother c hcs, hother _ hps]
    exact h c hc
  · exact hout _ c (hp ▸ parent_lt hc)
  · exact hout _ c (hp ▸ parent_lt hc)

/-- A pop keeps the order. -/
theorem Ordered.pop {a b : Array α} {x : α} (h : Ordered key a) (hp : pop key a = some (x, b)) :
    Ordered key b := by
  unfold Heap.pop at hp
  split at hp
  · next hpos =>
    obtain ⟨rfl, rfl⟩ := Prod.mk.inj (Option.some.inj hp)
    have hother : ∀ c, 0 < c → c < a.size - 1 →
        (a.swap 0 (a.size - 1)).pop[c]? = a[c]? := by
      intro c hc hlt
      rw [Array.getElem?_pop, Array.size_swap, if_pos (by omega)]
      exact swap_other hpos (by omega) (by omega) (by omega)
    have hstart : Around key (a.swap 0 (a.size - 1)).pop 0 := by
      refine ⟨fun c hc _ hp0 ↦ ?_, fun h0 ↦ absurd h0 (by omega)⟩
      by_cases hlt : c < a.size - 1
      · have hpc := parent_lt hc
        rw [hother c hc hlt, hother _ (by omega) (by omega)]
        exact h c hc
      · exact le_of_size (by rw [Array.size_pop, Array.size_swap]; omega)
    obtain ⟨haround, habove⟩ := around_siftDown _ _ 0 (Nat.zero_add _).ge hstart
    exact ordered_siftUp _ _ _ le_rfl haround habove
  · cases hp

omit [DecidableLE N] in
/-- The root is least. -/
theorem Ordered.root_le {a : Array α} (h : Ordered key a) (hpos : 0 < a.size) (i : Nat)
    (hi : i < a.size) : key a[0] ≤ key a[i] := by
  induction i using Nat.strongRecOn with
  | ind i ih =>
    by_cases hzero : i = 0
    · subst hzero
      exact Std.le_refl _
    · have hlt := parent_lt (Nat.pos_of_ne_zero hzero)
      have hle := h i (Nat.pos_of_ne_zero hzero)
      rw [Array.getElem?_eq_getElem (show parent i < a.size by omega),
        Array.getElem?_eq_getElem hi] at hle
      exact Std.le_trans (ih (parent i) hlt (by omega)) (hle _ rfl _ rfl)

/-- A pop takes an element of least key. -/
theorem Ordered.least {a b : Array α} {x : α} (h : Ordered key a)
    (hp : Heap.pop key a = some (x, b)) : ∀ y ∈ a.toList, key x ≤ key y := by
  unfold Heap.pop at hp
  split at hp
  · next hpos =>
    obtain ⟨rfl, rfl⟩ := Prod.mk.inj (Option.some.inj hp)
    intro y hy
    obtain ⟨i, hi, rfl⟩ := List.getElem_of_mem hy
    exact h.root_le hpos i (by simpa using hi)
  · cases hp

end

end Heap

/-- Heaps as priority queues. -/
def PriorityQueue.heap {α N : Type} [LE N] [DecidableLE N] [Std.IsLinearOrder N] (key : α → N) :
    PriorityQueue α key where
  Carrier := { a : Array α // Heap.Ordered key a }
  empty := ⟨#[], fun _ _ ↦ Heap.le_of_size (Nat.zero_le _)⟩
  push x q := ⟨Heap.push key x q.1, q.2.push x⟩
  pop q :=
    match h : Heap.pop key q.1 with
    | none => none
    | some (x, b) => some (x, ⟨b, q.2.pop h⟩)
  elems q := (q.1.toList : Multiset α)
  elems_empty := rfl
  elems_push x q := Multiset.coe_eq_coe.mpr (Heap.push_perm x q.1)
  elems_of_pop_none q h := by
    split at h
    · next hp => rw [Heap.eq_empty_of_pop hp]; rfl
    · cases h
  elems_of_pop q x q' h := by
    split at h
    · cases h
    · next y b hp =>
      obtain ⟨rfl, rfl⟩ := Prod.mk.inj (Option.some.inj h)
      exact Multiset.coe_eq_coe.mpr (Heap.pop_perm hp)
  least_of_pop q x q' h := by
    split at h
    · cases h
    · next y b hp =>
      obtain ⟨rfl, rfl⟩ := Prod.mk.inj (Option.some.inj h)
      exact q.2.least hp

end Support
