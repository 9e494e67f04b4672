import Mathlib.Data.Finmap
import Mathlib.Data.List.Sort
import Mathlib.Data.Finset.Card
import Mathlib.Data.List.Induction

/-!
# Unordered finite maps and their traversals

Library `Support`. A map has no element order: a loop over it sees some enumeration of
its entries. `Enumerates` says which lists are enumerations, and a `Traversal` chooses
one for every map. The storage is Mathlib's `Finmap`; callers use `find?` and its laws.
-/

namespace Support

/-- Finite map from `K` to `V` without an element order. The storage is private;
callers observe the map through `find?`, `keys` and its enumerations. -/
structure UMap (K V : Type) where
  private ofFinmap ::
  private raw : Finmap fun _ : K ↦ V

namespace UMap

variable {K V W : Type} [DecidableEq K]

/-- The map without entries. -/
def empty : UMap K V := ⟨∅⟩

/-- Value stored under a key. -/
def find? (m : UMap K V) (k : K) : Option V := m.raw.lookup k

/-- Set of stored keys. -/
def keys (m : UMap K V) : Finset K := m.raw.keys

/-- Number of entries. -/
def size (m : UMap K V) : Nat := m.keys.card

/-- Store a value under a key, replacing an older one. -/
def assign (m : UMap K V) (k : K) (v : V) : UMap K V := ⟨m.raw.insert k v⟩

/-- Store a value under a key that holds none; an existing entry is kept. -/
def emplace (m : UMap K V) (k : K) (v : V) : UMap K V :=
  if (m.find? k).isSome then m else m.assign k v

/-- Remove the entry under a key, if any. -/
def erase (m : UMap K V) (k : K) : UMap K V := ⟨m.raw.erase k⟩

/-- Update the value under a key in place, if any. -/
def modify (m : UMap K V) (k : K) (f : V → V) : UMap K V :=
  match m.find? k with
  | none => m
  | some v => m.assign k (f v)

/-- Update every value in place. -/
def map (f : K → V → W) (m : UMap K V) : UMap K W :=
  ⟨⟨m.raw.entries.map fun e ↦ ⟨e.1, f e.1 e.2⟩, by
    rw [← Multiset.nodup_keys, Multiset.keys, Multiset.map_map]
    exact Multiset.nodup_keys.mpr m.raw.nodupKeys⟩⟩

/-- Maps with the same lookups are equal. -/
theorem ext_find? {m n : UMap K V} (h : ∀ k, m.find? k = n.find? k) : m = n := by
  cases m
  cases n
  exact congrArg ofFinmap (Finmap.ext_lookup h)

/-- The empty map stores nothing. -/
@[simp] theorem find?_empty (k : K) : (empty : UMap K V).find? k = none :=
  Finmap.lookup_empty k

/-- Lookup after an assignment. -/
theorem find?_assign (m : UMap K V) (k a : K) (v : V) :
    (m.assign k v).find? a = if a = k then some v else m.find? a := by
  unfold find? assign
  split
  · next h => rw [h]; exact Finmap.lookup_insert _
  · next h => exact Finmap.lookup_insert_of_ne _ h

/-- Lookup after emplacing a key that holds no value. -/
theorem find?_emplace (m : UMap K V) (k a : K) (v : V) (h : m.find? k = none) :
    (m.emplace k v).find? a = if a = k then some v else m.find? a := by
  simp [emplace, h, find?_assign]

/-- Lookup after a removal. -/
theorem find?_erase (m : UMap K V) (k a : K) :
    (m.erase k).find? a = if a = k then none else m.find? a := by
  unfold find? erase
  split
  · next h => rw [h]; exact Finmap.lookup_erase _ _
  · next h => exact Finmap.lookup_erase_ne h

/-- Lookup after removing several keys one after another. -/
theorem find?_foldl_erase (ks : List K) (m : UMap K V) (a : K) :
    (ks.foldl erase m).find? a = if a ∈ ks then none else m.find? a := by
  induction ks generalizing m with
  | nil => simp
  | cons k ks ih =>
    rw [List.foldl_cons, ih, find?_erase]
    by_cases ha : a = k <;> simp [ha]

/-- Storing values under other keys keeps the value of a key. -/
theorem find?_foldl_assign_of_notMem (key : V → K) (xs : List V) (m : UMap K V) (k : K)
    (h : k ∉ xs.map key) : (xs.foldl (fun m x ↦ m.assign (key x) x) m).find? k = m.find? k := by
  induction xs generalizing m with
  | nil => rfl
  | cons x xs ih =>
    rw [List.map_cons, List.mem_cons, not_or] at h
    rw [List.foldl_cons, ih _ h.2, find?_assign, if_neg h.1]

/-- Values stored under distinct keys are found. -/
theorem find?_foldl_assign_of_mem (key : V → K) (xs : List V) (m : UMap K V) (x : V)
    (hx : x ∈ xs) (h : (xs.map key).Nodup) :
    (xs.foldl (fun m x ↦ m.assign (key x) x) m).find? (key x) = some x := by
  induction xs generalizing m with
  | nil => cases hx
  | cons y ys ih =>
    rw [List.map_cons, List.nodup_cons] at h
    rw [List.foldl_cons]
    rcases List.mem_cons.mp hx with rfl | hx
    · rw [find?_foldl_assign_of_notMem key ys _ _ h.1, find?_assign, if_pos rfl]
    · exact ih _ hx h.2

/-- Lookup after storing several values: the last one under a key, or the one before. -/
theorem find?_foldl_assign (key : V → K) (xs : List V) (m : UMap K V) (k : K) :
    (xs.foldl (fun m x ↦ m.assign (key x) x) m).find? k =
      ((xs.filter fun x ↦ key x = k).getLast?).or (m.find? k) := by
  induction xs using List.reverseRecOn with
  | nil => rfl
  | append_singleton xs x ih =>
    rw [List.foldl_append, List.foldl_cons, List.foldl_nil, find?_assign, ih, List.filter_append]
    by_cases hk : key x = k
    · simp [hk]
    · simp [hk, Ne.symm hk]

/-- Lookup after an update in place. -/
theorem find?_modify (m : UMap K V) (k a : K) (f : V → V) :
    (m.modify k f).find? a = if a = k then (m.find? a).map f else m.find? a := by
  unfold modify
  split
  · next h =>
    split
    · next ha => rw [ha, h]; rfl
    · rfl
  · next v h =>
    rw [find?_assign]
    split
    · next ha => rw [ha, h]; rfl
    · rfl

/-- Lookup after updating every value. -/
@[simp] theorem find?_map (m : UMap K V) (f : K → V → W) (k : K) :
    (m.map f).find? k = (m.find? k).map (f k) := by
  apply Option.ext
  intro w
  unfold find? map
  rw [← Option.mem_def, Finmap.mem_lookup_iff]
  simp only [Multiset.mem_map, Option.map_eq_some_iff, Sigma.mk.injEq]
  constructor
  · rintro ⟨⟨a, v⟩, hm, rfl, hv⟩
    exact ⟨v, Finmap.mem_lookup_iff.mpr hm, eq_of_heq hv⟩
  · rintro ⟨v, hv, rfl⟩
    exact ⟨⟨k, v⟩, Finmap.mem_lookup_iff.mp hv, rfl, HEq.rfl⟩

/-- A key is stored exactly when a lookup finds a value. -/
theorem mem_keys (m : UMap K V) (k : K) : k ∈ m.keys ↔ (m.find? k).isSome = true := by
  rw [keys, Finmap.mem_keys, find?, Finmap.lookup_isSome]

omit [DecidableEq K] in
/-- Two maps with corresponding keys have the same size. -/
theorem size_eq_of_bijOn {L : Type} [DecidableEq L] (m : UMap K V) (n : UMap L W) (f : K → L)
    (maps : ∀ k ∈ m.keys, f k ∈ n.keys)
    (inj : ∀ j ∈ m.keys, ∀ k ∈ m.keys, f j = f k → j = k)
    (surj : ∀ l ∈ n.keys, ∃ k ∈ m.keys, f k = l) : m.size = n.size :=
  Finset.card_bij (fun k _ ↦ f k) maps inj fun l hl ↦
    let ⟨k, hk, he⟩ := surj l hl
    ⟨k, hk, he⟩

/-- Two maps that store the same keys have the same size. -/
theorem size_eq_of_isSome (m : UMap K V) (n : UMap K W)
    (h : ∀ k, (m.find? k).isSome = (n.find? k).isSome) : m.size = n.size := by
  have hk : m.keys = n.keys := by
    ext k
    rw [mem_keys, mem_keys, h]
  rw [size, size, hk]

/-- Keys after an assignment. -/
theorem keys_assign (m : UMap K V) (k : K) (v : V) : (m.assign k v).keys = insert k m.keys := by
  ext a
  rw [Finset.mem_insert, mem_keys, mem_keys, find?_assign]
  split
  · next ha => simp [ha]
  · next ha => simp [ha]

/-- Keys after storing several values. -/
theorem mem_keys_foldl_assign (key : V → K) (xs : List V) (m : UMap K V) (k : K) :
    k ∈ (xs.foldl (fun m x ↦ m.assign (key x) x) m).keys ↔ k ∈ m.keys ∨ k ∈ xs.map key := by
  induction xs generalizing m with
  | nil => simp
  | cons x xs ih =>
    rw [List.foldl_cons, ih, keys_assign, Finset.mem_insert, List.map_cons, List.mem_cons]
    tauto

omit [DecidableEq K] in
/-- The empty map has no keys. -/
@[simp] theorem keys_empty : (empty : UMap K V).keys = ∅ := Finmap.keys_empty

/-- An assignment to a key that holds no value adds one entry. -/
theorem size_assign_of_none {m : UMap K V} {k : K} (h : m.find? k = none) (v : V) :
    (m.assign k v).size = m.size + 1 := by
  have hnot : k ∉ m.keys := by
    rw [mem_keys, h]
    exact Bool.false_ne_true
  rw [size, keys_assign, Finset.card_insert_of_notMem hnot, size]

/-- An erasure of a stored key removes one entry. -/
theorem size_erase_of_some {m : UMap K V} {k : K} {v : V} (h : m.find? k = some v) :
    (m.erase k).size + 1 = m.size := by
  have hnone : (m.erase k).find? k = none := (find?_erase m k k).trans (if_pos rfl)
  have hback : (m.erase k).assign k v = m := ext_find? fun a ↦ by
    rw [find?_assign, find?_erase]
    split
    · next ha => rw [ha, h]
    · rfl
  rw [← size_assign_of_none hnone v, hback]

/-! ### Enumerations -/

/-- A list holds every entry of the map exactly once. -/
def Enumerates (xs : List (K × V)) (m : UMap K V) : Prop :=
  (xs.map Prod.fst).Nodup ∧ ∀ k v, (k, v) ∈ xs ↔ m.find? k = some v

namespace Enumerates

variable {xs : List (K × V)} {m : UMap K V}

/-- The enumerated keys are the stored keys. -/
theorem mem_keys (h : Enumerates xs m) (k : K) :
    k ∈ xs.map Prod.fst ↔ (m.find? k).isSome = true := by
  simp only [List.mem_map, Prod.exists, exists_and_right, exists_eq_right, h.2,
    Option.isSome_iff_exists]

/-- The enumerated keys, without their order. -/
theorem coe_keys (h : Enumerates xs m) : (xs.map Prod.fst : Multiset K) = m.keys.val :=
  (Multiset.Nodup.ext (Multiset.coe_nodup.mpr h.1) m.keys.nodup).mpr fun k ↦ by
    rw [Multiset.mem_coe, h.mem_keys, Finset.mem_val, UMap.mem_keys]

/-- The entries with a property enumerate the map that keeps them. -/
theorem filter (h : Enumerates xs m) {n : UMap K V} {p : V → Bool}
    (hn : ∀ k, n.find? k = (m.find? k).filter p) : Enumerates (xs.filter fun e ↦ p e.2) n := by
  refine ⟨h.1.sublist (List.filter_sublist.map Prod.fst), fun k v ↦ ?_⟩
  rw [List.mem_filter, h.2, hn, Option.filter_eq_some_iff]

/-- Every enumeration has as many elements as the map has entries. -/
theorem length_eq (h : Enumerates xs m) : xs.length = m.size := by
  rw [size, Finset.card, ← h.coe_keys, Multiset.coe_card, List.length_map]

end Enumerates

/-- Choice of an enumeration for every map. -/
structure Traversal (K V : Type) [DecidableEq K] where
  order : UMap K V → List (K × V)
  enumerates : ∀ m, Enumerates (order m) m

/-- A loop that erases the entries with a property keeps the others. -/
theorem Enumerates.find?_foldl_eraseIf {xs : List (K × V)} {m : UMap K V} (h : Enumerates xs m)
    (drop : V → Prop) [DecidablePred drop] (k : K) :
    (xs.foldl (fun n e ↦ if drop e.2 then n.erase e.1 else n) m).find? k =
      (m.find? k).filter fun v ↦ !decide (drop v) := by
  have hloop : xs.foldl (fun n e ↦ if drop e.2 then n.erase e.1 else n) m =
      ((xs.filter fun e ↦ drop e.2).map Prod.fst).foldl erase m := by
    rw [List.foldl_map, List.foldl_filter]
    simp only [decide_eq_true_eq]
  rw [hloop, find?_foldl_erase]
  simp only [List.mem_map, List.mem_filter, Prod.exists, exists_and_right, exists_eq_right, h.2,
    decide_eq_true_eq]
  cases hk : m.find? k with
  | none => simp
  | some v => by_cases hd : drop v <;> simp [hd, Option.filter]

omit [DecidableEq K] in
private theorem sort_keys_perm (rank : K → Nat) (inj : Function.Injective rank) (xs ys : List K)
    (h : xs.Perm ys) :
    xs.insertionSort (fun a b ↦ rank a ≤ rank b) =
      ys.insertionSort (fun a b ↦ rank a ≤ rank b) := by
  have : IsTrans K (fun a b ↦ rank a ≤ rank b) := ⟨fun _ _ _ ↦ Nat.le_trans⟩
  have : Std.Total (fun a b : K ↦ rank a ≤ rank b) := ⟨fun a b ↦ Nat.le_total _ _⟩
  have hp := ((List.perm_insertionSort (fun a b ↦ rank a ≤ rank b) xs).trans h).trans
    (List.perm_insertionSort (fun a b ↦ rank a ≤ rank b) ys).symm
  exact hp.eq_of_pairwise (fun _a _b _ _ hab hba ↦ inj (Nat.le_antisymm hab hba))
    (List.pairwise_insertionSort _ _) (List.pairwise_insertionSort _ _)

/-- Stored keys by increasing rank. -/
def keysByRank (rank : K → Nat) (inj : Function.Injective rank) (m : UMap K V) : List K :=
  Quot.liftOn m.keys.val (List.insertionSort fun a b ↦ rank a ≤ rank b)
    (sort_keys_perm rank inj)

omit [DecidableEq K] in
private theorem coe_keysByRank (rank : K → Nat) (inj : Function.Injective rank)
    (m : UMap K V) : (m.keysByRank rank inj : Multiset K) = m.keys.val := by
  unfold keysByRank
  induction m.keys.val using Quot.inductionOn with
  | h l => exact Multiset.coe_eq_coe.mpr (List.perm_insertionSort _ l)

/-- The traversal that visits the keys by increasing rank. -/
def Traversal.byRank (rank : K → Nat) (inj : Function.Injective rank) : Traversal K V where
  order m := (m.keysByRank rank inj).filterMap fun k ↦ (m.find? k).map fun v ↦ (k, v)
  enumerates m := by
    have hm : ∀ k, k ∈ m.keysByRank rank inj ↔ (m.find? k).isSome = true := by
      intro k
      rw [← Multiset.mem_coe, coe_keysByRank, Finset.mem_val, UMap.mem_keys]
    have hk : ((m.keysByRank rank inj).filterMap fun k ↦
        (m.find? k).map fun v ↦ (k, v)).map Prod.fst = m.keysByRank rank inj := by
      rw [List.map_filterMap]
      have : ∀ k ∈ m.keysByRank rank inj,
          Option.map Prod.fst ((m.find? k).map fun v ↦ (k, v)) = some k := by
        intro k hk
        obtain ⟨v, hv⟩ := Option.isSome_iff_exists.mp ((hm k).mp hk)
        rw [hv]
        rfl
      rw [List.filterMap_congr this, List.filterMap_some]
    constructor
    · rw [hk, ← Multiset.coe_nodup, coe_keysByRank]
      exact m.keys.nodup
    · intro k v
      simp only [List.mem_filterMap, Option.map_eq_some_iff, Prod.mk.injEq]
      constructor
      · rintro ⟨a, _, w, hw, rfl, rfl⟩
        exact hw
      · intro hv
        exact ⟨k, (hm k).mpr (by rw [hv]; rfl), v, hv, rfl, rfl⟩

end UMap
end Support
