import LightningLink.Support.UnorderedMap
import Mathlib.Data.List.Induction

/-!
# Overwriting caches of versioned updates

Library `Support`. An update has a version and a list of keyed values. A cache that
overwrites its version and its values with every update it receives holds the newest
ones, whenever it is looked at, exactly when the updates arrive in version order.
-/

namespace Support

/-- How updates of type `U` are read: their version, their values and the keys of these. -/
structure Feed (U N K V : Type) where
  version : U → N
  values : U → List V
  key : V → K

namespace Feed

variable {U N K V : Type} [DecidableEq K]

/-- Store every value of an update under its key. -/
def overwrite (d : Feed U N K V) (m : UMap K V) (u : U) : UMap K V :=
  (d.values u).foldl (fun m x ↦ m.assign (d.key x) x) m

/-- The cache after an update, whatever it has held. -/
def receive (d : Feed U N K V) (c : N × UMap K V) (u : U) : N × UMap K V :=
  (d.version u, d.overwrite c.2 u)

/-- A value of a received update whose version no received update with its key exceeds. -/
def IsNewest [LE N] (d : Feed U N K V) (got : List U) (x : V) : Prop :=
  ∃ u ∈ got, x ∈ d.values u ∧
    ∀ w ∈ got, ∀ y ∈ d.values w, d.key y = d.key x → d.version w ≤ d.version u

/-- The cache holds the largest version and the newest values received. -/
structure Newest [LE N] (d : Feed U N K V) (got : List U) (c : N × UMap K V) : Prop where
  upper : ∀ u ∈ got, d.version u ≤ c.1
  attained : got ≠ [] → ∃ u ∈ got, d.version u = c.1
  stored : ∀ x, d.IsNewest got x → c.2.find? (d.key x) = some x

variable (d : Feed U N K V)

/-- A cache that has received nothing holds the newest. -/
theorem newest_nil [LE N] (c : N × UMap K V) : d.Newest [] c where
  upper u hu := absurd hu List.not_mem_nil
  attained h := absurd rfl h
  stored := by
    rintro x ⟨u, hu, _⟩
    exact absurd hu List.not_mem_nil

section

variable [LE N] [LT N] [Std.IsPartialOrder N] [Std.LawfulOrderLT N]

/-- An update newer than all before it keeps the cache at the newest. -/
theorem Newest.concat {got : List U} {c : N × UMap K V} (h : d.Newest got c) (u : U)
    (hkeys : ((d.values u).map d.key).Nodup) (hu : ∀ w ∈ got, d.version w < d.version u) :
    d.Newest (got ++ [u]) (d.receive c u) where
  upper w hw := by
    rcases List.mem_append.mp hw with hw | hw
    · exact Std.le_of_lt (hu w hw)
    · rw [List.mem_singleton.mp hw]
      exact Std.le_refl _
  attained _ := ⟨u, List.mem_append_right _ (List.mem_singleton_self u), rfl⟩
  stored := by
    rintro x ⟨w, hw, hx, hmax⟩
    rcases List.mem_append.mp hw with hw | hw
    · have hk : d.key x ∉ (d.values u).map d.key := by
        intro hk
        obtain ⟨y, hy, hyx⟩ := List.mem_map.mp hk
        have hle := hmax u (List.mem_append_right _ (List.mem_singleton_self u)) y hy hyx
        exact Std.not_lt_of_ge hle (hu w hw)
      refine (UMap.find?_foldl_assign_of_notMem d.key _ c.2 _ hk).trans (h.stored x ⟨w, hw, hx, ?_⟩)
      exact fun v hv ↦ hmax v (List.mem_append_left _ hv)
    · obtain rfl := List.mem_singleton.mp hw
      exact UMap.find?_foldl_assign_of_mem d.key _ c.2 x hx hkeys

/-- The cache is at the newest after every update exactly when the versions increase. -/
theorem newest_iff (c : N × UMap K V) (got : List U) (hver : (got.map d.version).Nodup)
    (hkeys : ∀ u ∈ got, ((d.values u).map d.key).Nodup) :
    (∀ past, past <+: got → d.Newest past (past.foldl d.receive c)) ↔
      got.Pairwise fun u w ↦ d.version u < d.version w := by
  induction got using List.reverseRecOn with
  | nil =>
    refine ⟨fun _ ↦ List.Pairwise.nil, fun _ past hp ↦ ?_⟩
    rw [List.prefix_nil.mp hp]
    exact d.newest_nil c
  | append_singleton got u ih =>
    rw [List.map_append, List.nodup_append'] at hver
    have ih := ih hver.1 fun w hw ↦ hkeys w (List.mem_append_left _ hw)
    have hfold : (got ++ [u]).foldl d.receive c = d.receive (got.foldl d.receive c) u := by
      rw [List.foldl_append]
      rfl
    rw [List.pairwise_append, ← ih]
    constructor
    · intro h
      refine ⟨fun past hp ↦ h past (hp.trans (List.prefix_append _ _)),
        List.pairwise_singleton _ _, fun w hw v hv ↦ ?_⟩
      obtain rfl := List.mem_singleton.mp hv
      have hlast := h _ List.prefix_rfl
      rw [hfold] at hlast
      refine Std.lt_of_le_of_ne (hlast.upper w (List.mem_append_left _ hw)) fun he ↦ ?_
      exact hver.2.2 (List.mem_map_of_mem hw) (by rw [he]; exact List.mem_singleton_self _)
    · rintro ⟨h, _, hlt⟩ past hp
      rcases List.prefix_concat_iff.mp hp with rfl | hp
      · rw [hfold]
        exact (h got List.prefix_rfl).concat d u
          (hkeys u (List.mem_append_right _ (List.mem_singleton_self u)))
          fun w hw ↦ hlt w hw u (List.mem_singleton_self u)
      · exact h past hp

end

end Feed
end Support
