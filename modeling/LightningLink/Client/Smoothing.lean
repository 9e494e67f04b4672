import Mathlib
import LightningLink.Client.Interpolation
import LightningLink.Common.Reals

/-!
# Interpolated positions

Library `Client`. In exact arithmetic the position of an entity is a piecewise linear function
of the time, through its retained samples and constant outside their stamps. It stays within
the bounds of the retained positions, and later samples do not change its past.
-/

namespace LightningLink.Cl

open Support

/-- The samples ingested for an entity. -/
def samplesOf {F : Type} (id : UInt16) (calls : List (UInt16 × InterpSample F)) :
    List (InterpSample F) :=
  (calls.filter fun c ↦ c.1 = id).map Prod.snd

/-- The last `SNAPSHOT_HISTORY_SIZE` samples. -/
def retained {F : Type} (samples : List (InterpSample F)) : List (InterpSample F) :=
  samples.drop (samples.length - snapshotHistorySize)

/-- Stamps in the order of ingestion do not decrease. -/
def Stamped {F : Type} (samples : List (InterpSample F)) : Prop :=
  samples.Pairwise fun a b ↦ a.recvWallMs.toNat ≤ b.recvWallMs.toNat

namespace Interpolator

variable {F : Type}

/-- Histories after a sequence of `ingest` calls. -/
def ingestAll (calls : List (UInt16 × InterpSample F)) : Interpolator F :=
  calls.foldl (fun i c ↦ i.ingest c.1 c.2) init

/-- Lookup after ingesting a sample. -/
theorem find?_ingest (i : Interpolator F) (remoteId a : UInt16) (s : InterpSample F) :
    (i.ingest remoteId s).histories.find? a =
      if a = remoteId then some (retained ((i.histories.find? a).getD [] ++ [s]))
      else i.histories.find? a := by
  refine (UMap.find?_assign _ _ _ _).trans ?_
  split
  · next ha =>
    subst ha
    rfl
  · rfl

/-- Retaining the last samples can be done part by part. -/
theorem retained_append (samples more : List (InterpSample F)) :
    retained (retained samples ++ more) = retained (samples ++ more) := by
  unfold retained
  have hlen : (samples.drop (samples.length - snapshotHistorySize)).length =
      min samples.length snapshotHistorySize := by
    rw [List.length_drop]
    omega
  rw [List.length_append, List.length_append, hlen,
    ← List.drop_append_of_le_length (by omega), List.drop_drop]
  congr 1
  omega

/-- After a sequence of calls the entities with a sample have a history, of the last ones. -/
theorem find?_ingestAll (calls : List (UInt16 × InterpSample F)) (id : UInt16) :
    (ingestAll calls).histories.find? id =
      if samplesOf id calls = [] then none else some (retained (samplesOf id calls)) := by
  induction calls using List.reverseRecOn with
  | nil => rfl
  | append_singleton calls c ih =>
    have hstep : ingestAll (calls ++ [c]) = (ingestAll calls).ingest c.1 c.2 := by
      rw [ingestAll, List.foldl_append]
      rfl
    rw [hstep, find?_ingest, ih]
    by_cases hid : id = c.1
    · have hs : samplesOf id (calls ++ [c]) = samplesOf id calls ++ [c.2] := by
        simp [samplesOf, List.filter_append, hid]
      have hne : samplesOf id calls ++ [c.2] ≠ [] := List.append_ne_nil_of_right_ne_nil _ (by simp)
      rw [if_pos hid, hs, if_neg hne]
      by_cases hnil : samplesOf id calls = []
      · rw [if_pos hnil, hnil]
        rfl
      · rw [if_neg hnil, Option.getD_some, retained_append]
    · have hs : samplesOf id (calls ++ [c]) = samplesOf id calls := by
        simp [samplesOf, List.filter_append, Ne.symm hid]
      rw [if_neg hid, hs]

/-- After the delay an entity is drawn exactly if it has a sample whose age, in wrapping
arithmetic, is within the limit. -/
theorem renderPosition_ingestAll [FloatArith F] (calls : List (UInt16 × InterpSample F))
    (id : UInt16) (now : UInt64) (hnow : interpDelayMs ≤ now) (p : Vec2 F) :
    (ingestAll calls).renderPosition id now = some p ↔
      ∃ front back, (retained (samplesOf id calls)).head? = some front ∧
        (retained (samplesOf id calls)).getLast? = some back ∧
        now - back.recvWallMs ≤ entityStaleMs ∧
        InterpSample.positionAt (now - interpDelayMs) (retained (samplesOf id calls)) front back = p := by
  rw [renderPosition, find?_ingestAll]
  by_cases hnil : samplesOf id calls = []
  · rw [if_pos hnil, hnil]
    simp [retained]
  · rw [if_neg hnil]
    dsimp only
    generalize retained (samplesOf id calls) = dq
    cases hf : dq.head? with
    | none => simp
    | some front =>
      cases hb : dq.getLast? with
      | none => simp
      | some back =>
        dsimp only
        rw [if_neg (UInt64.not_lt.mpr hnow)]
        by_cases hx : entityStaleMs < now - back.recvWallMs
        · rw [if_pos hx]
          simp [UInt64.not_le.mpr hx]
        · rw [if_neg hx]
          simp [UInt64.not_lt.mp hx]

end Interpolator

/-! ### Between two samples -/

namespace InterpSample

variable {target : UInt64} {a b : InterpSample ℝ}

/-- Part of the way from one stamp to another at a time. -/
noncomputable def fraction (target a b : UInt64) : ℝ :=
  ((target.toNat : ℝ) - a.toNat) / ((b.toNat : ℝ) - a.toNat)

/-- Between two samples with different stamps the position is linear in the time. -/
theorem between_of_ne (h : Brackets target a b) (hne : a.recvWallMs ≠ b.recvWallMs) :
    between target a b = lerp a.pos b.pos (fraction target a.recvWallMs b.recvWallMs) := by
  have hcast : ∀ x y : UInt64, x ≤ y → (((y - x).toNat : Int) : ℝ) = (y.toNat : ℝ) - x.toNat := by
    intro x y hxy
    rw [UInt64.toNat_sub_of_le _ _ hxy, Int.cast_natCast,
      Nat.cast_sub (UInt64.le_iff_toNat_le.mp hxy)]
  have hab : a.recvWallMs ≤ b.recvWallMs := UInt64.le_trans h.1 h.2
  rw [between, if_neg (Ne.symm hne)]
  dsimp only
  congr 1
  change (((target - a.recvWallMs).toNat : Int) : ℝ) /
    (((b.recvWallMs - a.recvWallMs).toNat : Int) : ℝ) = _
  rw [hcast _ _ h.1, hcast _ _ hab, fraction]

/-- A bracketed time is a part between 0 and 1 of the way. -/
theorem fraction_mem (h : Brackets target a b) :
    0 ≤ fraction target a.recvWallMs b.recvWallMs ∧
      fraction target a.recvWallMs b.recvWallMs ≤ 1 := by
  have h1 : (a.recvWallMs.toNat : ℝ) ≤ target.toNat := Nat.cast_le.mpr (UInt64.le_iff_toNat_le.mp h.1)
  have h2 : (target.toNat : ℝ) ≤ b.recvWallMs.toNat := Nat.cast_le.mpr (UInt64.le_iff_toNat_le.mp h.2)
  exact ⟨div_nonneg (by linarith) (by linarith), div_le_one_of_le₀ (by linarith) (by linarith)⟩

/-- A part of the way between two numbers is within their bounds. -/
theorem mem_bounds {x y t lo hi : ℝ} (ht : 0 ≤ t ∧ t ≤ 1) (hx : lo ≤ x ∧ x ≤ hi)
    (hy : lo ≤ y ∧ y ≤ hi) : lo ≤ x + (y - x) * t ∧ x + (y - x) * t ≤ hi := by
  have hsplit : x + (y - x) * t = (1 - t) * x + t * y := by ring
  have hpos : 0 ≤ 1 - t := by linarith
  rw [hsplit]
  constructor
  · calc lo = (1 - t) * lo + t * lo := by ring
      _ ≤ (1 - t) * x + t * y :=
        add_le_add (mul_le_mul_of_nonneg_left hx.1 hpos) (mul_le_mul_of_nonneg_left hy.1 ht.1)
  · calc (1 - t) * x + t * y ≤ (1 - t) * hi + t * hi :=
        add_le_add (mul_le_mul_of_nonneg_left hx.2 hpos) (mul_le_mul_of_nonneg_left hy.2 ht.1)
      _ = hi := by ring

/-- A point lies in the rectangle with two corners. -/
def Within (lo hi p : Vec2 ℝ) : Prop := (lo.x ≤ p.x ∧ p.x ≤ hi.x) ∧ lo.y ≤ p.y ∧ p.y ≤ hi.y

/-- Between two samples the position is within the bounds of theirs. -/
theorem within_between (h : Brackets target a b) {lo hi : Vec2 ℝ} (ha : Within lo hi a.pos)
    (hb : Within lo hi b.pos) : Within lo hi (between target a b) := by
  by_cases hne : a.recvWallMs = b.recvWallMs
  · rw [between, if_pos hne.symm]
    exact hb
  · rw [between_of_ne h hne]
    exact ⟨mem_bounds (fraction_mem h) ha.1 hb.1, mem_bounds (fraction_mem h) ha.2 hb.2⟩

/-- At the stamp of the earlier of two samples the position is its own. -/
theorem between_left (h : Brackets target a b) (hne : a.recvWallMs ≠ b.recvWallMs)
    (ha : a.recvWallMs = target) : between target a b = a.pos := by
  rw [between_of_ne h hne, fraction, ha, sub_self, zero_div, lerp, mul_zero, mul_zero, add_zero,
    add_zero]

/-- At the stamp of the later of two samples the position is its own. -/
theorem between_right (h : Brackets target a b) (hb : b.recvWallMs = target) :
    between target a b = b.pos := by
  by_cases hne : a.recvWallMs = b.recvWallMs
  · rw [between, if_pos hne.symm]
  · have hlt : (a.recvWallMs.toNat : ℝ) ≠ b.recvWallMs.toNat :=
      fun he ↦ hne (UInt64.toNat_inj.mp (Nat.cast_injective he))
    rw [between_of_ne h hne, fraction, ← hb, div_self (sub_ne_zero.mpr hlt.symm), lerp, mul_one,
      mul_one, add_sub_cancel, add_sub_cancel]

end InterpSample

/-! ### Positions in a history -/

namespace InterpSample

variable {target : UInt64} {dq : List (InterpSample ℝ)} {front back : InterpSample ℝ}

/-- The test of the code is that of the sorted search. -/
theorem firstPair_brackets {F : Type} (target : UInt64) (dq : List (InterpSample F)) :
    firstPair (Brackets target) dq =
      firstPair (Support.Brackets (fun s : InterpSample F ↦ s.recvWallMs.toNat) target.toNat) dq :=
  firstPair_congr (fun _ _ ↦ Iff.rfl) dq

/-- Before the oldest stamp the position is the oldest. -/
theorem positionAt_before (hl : Stamped dq) (hf : dq.head? = some front)
    (hb : dq.getLast? = some back) (h : target < front.recvWallMs) :
    positionAt target dq front back = front.pos := by
  rw [positionAt, firstPair_brackets,
    firstPair_eq_none hl hf hb (Or.inl (UInt64.lt_iff_toNat_lt.mp h))]
  exact if_pos h

/-- After the newest stamp the position is the newest. -/
theorem positionAt_after (hl : Stamped dq) (hf : dq.head? = some front)
    (hb : dq.getLast? = some back) (h : back.recvWallMs < target) :
    positionAt target dq front back = back.pos := by
  have hle : front.recvWallMs ≤ back.recvWallMs :=
    UInt64.le_iff_toNat_le.mpr (le_of_head hl hf (List.mem_of_getLast? hb))
  rw [positionAt, firstPair_brackets,
    firstPair_eq_none hl hf hb (Or.inr (UInt64.lt_iff_toNat_lt.mp h))]
  exact if_neg (UInt64.not_lt.mpr (UInt64.le_of_lt (UInt64.lt_of_le_of_lt hle h)))

/-- Inside the stamps of two samples or more, two of them bracket the time. -/
theorem exists_bracket (hf : dq.head? = some front) (hb : dq.getLast? = some back)
    (hlo : front.recvWallMs ≤ target) (hhi : target ≤ back.recvWallMs) :
    dq = [front] ∨ ∃ a b, firstPair (Brackets target) dq = some (a, b) := by
  obtain ⟨rest, rfl⟩ := List.head?_eq_some_iff.mp hf
  cases rest with
  | nil => exact Or.inl rfl
  | cons b rest =>
    have hq : ∃ q, firstPair (Brackets target) (front :: b :: rest) = some q := by
      rw [firstPair_brackets]
      exact exists_firstPair (UInt64.le_iff_toNat_le.mp hlo) hb (UInt64.le_iff_toNat_le.mp hhi)
    obtain ⟨⟨x, y⟩, hq⟩ := hq
    exact Or.inr ⟨x, y, hq⟩

/-- Inside the stamps the position is that of the only sample, or between two consecutive
samples that bracket the time. -/
theorem positionAt_inside (hf : dq.head? = some front) (hb : dq.getLast? = some back)
    (hlo : front.recvWallMs ≤ target) (hhi : target ≤ back.recvWallMs) :
    dq = [front] ∧ positionAt target dq front back = front.pos ∨
      ∃ before a b after, dq = before ++ a :: b :: after ∧ Brackets target a b ∧
        positionAt target dq front back = between target a b := by
  rcases exists_bracket hf hb hlo hhi with rfl | ⟨a, b, hq⟩
  · obtain rfl : front = back := by simpa using hb
    refine Or.inl ⟨rfl, ?_⟩
    change (if target < front.recvWallMs then front.pos else front.pos) = front.pos
    exact ite_self _
  · obtain ⟨hab, before, after, heq⟩ := firstPair_eq_some hq
    exact Or.inr ⟨before, a, b, after, heq, hab, by rw [positionAt, hq]⟩

/-- The position is within the bounds of the positions in the history. -/
theorem within_positionAt (hf : dq.head? = some front) (hb : dq.getLast? = some back)
    {lo hi : Vec2 ℝ} (h : ∀ s ∈ dq, Within lo hi s.pos) :
    Within lo hi (positionAt target dq front back) := by
  unfold positionAt
  split
  · next a b hq =>
    obtain ⟨hab, before, after, rfl⟩ := firstPair_eq_some hq
    exact within_between hab (h a (by simp)) (h b (by simp))
  · split
    · exact h front (List.mem_of_head? hf)
    · exact h back (List.mem_of_getLast? hb)

/-- At a stamp that occurs once the position is that of its sample. -/
theorem positionAt_stamp (hl : Stamped dq) (hf : dq.head? = some front)
    (hb : dq.getLast? = some back) {s : InterpSample ℝ} (hs : s ∈ dq)
    (hst : s.recvWallMs = target) (hone : dq.countP (fun x ↦ x.recvWallMs = target) = 1) :
    positionAt target dq front back = s.pos := by
  subst hst
  have honly : ∀ x ∈ dq, x.recvWallMs = s.recvWallMs → x = s := by
    intro x hx hxs
    rw [List.countP_eq_length_filter] at hone
    obtain ⟨y, hy⟩ := List.length_eq_one_iff.mp hone
    have hmem : ∀ z ∈ dq, z.recvWallMs = s.recvWallMs → z = y := by
      intro z hz hzs
      rw [← List.mem_singleton, ← hy]
      exact List.mem_filter.mpr ⟨hz, decide_eq_true hzs⟩
    rw [hmem x hx hxs, hmem s hs rfl]
  have hlo : front.recvWallMs ≤ s.recvWallMs := UInt64.le_iff_toNat_le.mpr (le_of_head hl hf hs)
  have hhi : s.recvWallMs ≤ back.recvWallMs := UInt64.le_iff_toNat_le.mpr (le_of_getLast hl hb hs)
  rcases positionAt_inside hf hb hlo hhi with ⟨rfl, hpos⟩ | ⟨before, a, b, after, rfl, hab, hpos⟩
  · rw [hpos, List.mem_singleton.mp hs]
  · rw [hpos]
    by_cases ha : a.recvWallMs = s.recvWallMs
    · have hne : a.recvWallMs ≠ b.recvWallMs := by
        intro he
        have hb : b.recvWallMs = s.recvWallMs := he.symm.trans ha
        simp [List.countP_append, ha, hb] at hone
        omega
      rw [between_left hab hne ha, honly a (by simp) ha]
    · -- `a` is before the stamp, so `s` is `b` or comes after it.
      obtain ⟨_, htail, hcross⟩ := List.pairwise_append.mp hl
      have hbs : b.recvWallMs = s.recvWallMs := by
        refine UInt64.le_antisymm ?_ hab.2
        rcases List.mem_append.mp hs with hs | hs
        · exact absurd (UInt64.le_antisymm hab.1
            (UInt64.le_iff_toNat_le.mpr (hcross s hs a (by simp)))) ha
        · rcases List.mem_cons.mp hs with rfl | hs
          · exact absurd rfl ha
          · exact UInt64.le_iff_toNat_le.mpr (le_of_head (List.pairwise_cons.mp htail).2 rfl hs)
      rw [between_right hab hbs, honly b (by simp) hbs]

/-- A history extended by samples after the time, which may have lost its oldest samples, has
the same position at the time if it still has the only sample at the time. -/
theorem positionAt_extend_stamp {dq' : List (InterpSample ℝ)} {front' back' : InterpSample ℝ}
    (hf : dq.head? = some front) (hb : dq.getLast? = some back)
    (hf' : dq'.head? = some front') (hb' : dq'.getLast? = some back')
    (later : List (InterpSample ℝ)) (hsub : dq'.Sublist (dq ++ later))
    (hl : Stamped (dq ++ later)) (hlater : ∀ s ∈ later, target < s.recvWallMs)
    (hone : dq.countP (fun s ↦ s.recvWallMs = target) = 1) {s : InterpSample ℝ} (hs : s ∈ dq')
    (hst : s.recvWallMs = target) :
    positionAt target dq' front' back' = positionAt target dq front back := by
  have hnone : later.countP (fun s ↦ s.recvWallMs = target) = 0 := by
    refine List.countP_eq_zero.mpr fun x hx hxt ↦ ?_
    have hlt := hlater x hx
    rw [of_decide_eq_true hxt] at hlt
    exact UInt64.lt_irrefl _ hlt
  have hsdq : s ∈ dq := by
    refine (List.mem_append.mp (hsub.subset hs)).resolve_right fun hx ↦ ?_
    have hlt := hlater s hx
    rw [hst] at hlt
    exact UInt64.lt_irrefl _ hlt
  have hone' : dq'.countP (fun s ↦ s.recvWallMs = target) = 1 := by
    have hle := hsub.countP_le (p := fun s : InterpSample ℝ ↦ decide (s.recvWallMs = target))
    have hpos : 0 < dq'.countP (fun s ↦ s.recvWallMs = target) :=
      List.countP_pos_iff.mpr ⟨s, hs, decide_eq_true hst⟩
    rw [List.countP_append, hone, hnone] at hle
    omega
  rw [positionAt_stamp (hl.sublist hsub) hf' hb' hs hst hone',
    positionAt_stamp (List.pairwise_append.mp hl).1 hf hb hsdq hst hone]

/-- A history extended by samples after the time, which may have lost its oldest samples, has
the same position at the time if it still has a sample before the time. -/
theorem positionAt_extend_drop {front' back' : InterpSample ℝ}
    (hf : dq.head? = some front) (hb : dq.getLast? = some back)
    (later : List (InterpSample ℝ)) (k : Nat) (hl : Stamped (dq ++ later))
    (hlater : ∀ s ∈ later, target < s.recvWallMs) (hhi : target ≤ back.recvWallMs)
    {s : InterpSample ℝ} (hs : s ∈ (dq ++ later).drop k) (hst : s.recvWallMs < target) :
    positionAt target ((dq ++ later).drop k) front' back' = positionAt target dq front back := by
  have hsdq : s ∈ dq := by
    refine (List.mem_append.mp (List.mem_of_mem_drop hs)).resolve_right fun hx ↦ ?_
    exact UInt64.lt_asymm hst (hlater s hx)
  have hfront : front.recvWallMs ≤ s.recvWallMs :=
    UInt64.le_iff_toNat_le.mpr (le_of_head (List.pairwise_append.mp hl).1 hf hsdq)
  have hlo : front.recvWallMs < target := UInt64.lt_of_le_of_lt hfront hst
  rcases exists_bracket hf hb (UInt64.le_of_lt hlo) hhi with rfl | ⟨a, b, hq⟩
  · obtain rfl : front = back := by simpa using hb
    exact absurd hlo (UInt64.not_lt.mpr hhi)
  · have hdrop : firstPair (Brackets target) ((dq ++ later).drop k) = some (a, b) := by
      rw [firstPair_brackets, firstPair_drop hl k hs (UInt64.lt_iff_toNat_lt.mp hst),
        ← firstPair_brackets]
      exact firstPair_append hq later
    rw [positionAt, positionAt, hq, hdrop]

/-- A history extended by samples after the time that has lost no sample has the same position
at the time. -/
theorem positionAt_extend_append {front' back' : InterpSample ℝ}
    (hf : dq.head? = some front) (hb : dq.getLast? = some back)
    (later : List (InterpSample ℝ)) (hf' : (dq ++ later).head? = some front')
    (hb' : (dq ++ later).getLast? = some back') (hl : Stamped (dq ++ later))
    (hlater : ∀ s ∈ later, target < s.recvWallMs) (hhi : target ≤ back.recvWallMs) :
    positionAt target (dq ++ later) front' back' = positionAt target dq front back := by
  have hsame : front' = front := by
    obtain ⟨rest, rfl⟩ := List.head?_eq_some_iff.mp hf
    exact (Option.some.inj hf').symm
  subst hsame
  have hldq : Stamped dq := (List.pairwise_append.mp hl).1
  by_cases hlo : target < front'.recvWallMs
  · rw [positionAt_before hl hf' hb' hlo, positionAt_before hldq hf hb hlo]
  · rcases exists_bracket hf hb (UInt64.not_lt.mp hlo) hhi with rfl | ⟨a, b, hq⟩
    · -- The only sample is stamped at the time.
      obtain rfl : front' = back := by simpa using hb
      have hst : front'.recvWallMs = target := UInt64.le_antisymm (UInt64.not_lt.mp hlo) hhi
      exact positionAt_extend_stamp hf hb hf' hb' later (List.Sublist.refl _) hl hlater
        (by simp [hst]) List.mem_cons_self hst
    · rw [positionAt, positionAt, hq, firstPair_append hq later]

end InterpSample

namespace Interpolator

open InterpSample

/-- Age of a sample that is not from the future. -/
theorem age_le_iff {now stamp : UInt64} (h : stamp ≤ now) :
    now - stamp ≤ entityStaleMs ↔ now.toNat - stamp.toNat ≤ 2000 := by
  rw [UInt64.le_iff_toNat_le, UInt64.toNat_sub_of_le _ _ h]
  rfl

/-- Samples between a time and the present do not change the position at that time. -/
theorem renderPosition_extend (calls further : List (UInt16 × InterpSample ℝ)) (id : UInt16)
    (now : UInt64) (hnow : interpDelayMs ≤ now)
    (hnewest : ∀ s ∈ samplesOf id calls, s.recvWallMs ≤ now) {front back : InterpSample ℝ}
    (hf : (retained (samplesOf id calls)).head? = some front)
    (hb : (retained (samplesOf id calls)).getLast? = some back)
    (hage : now - back.recvWallMs ≤ entityStaleMs)
    (hl : Stamped (samplesOf id (calls ++ further)))
    (hlater : ∀ s ∈ samplesOf id further,
      now - interpDelayMs < s.recvWallMs ∧ s.recvWallMs ≤ now)
    (hhi : now - interpDelayMs ≤ back.recvWallMs)
    (hkept : retained (samplesOf id (calls ++ further)) =
        retained (samplesOf id calls) ++ samplesOf id further ∨
      (∃ s ∈ retained (samplesOf id (calls ++ further)), s.recvWallMs < now - interpDelayMs) ∨
      (retained (samplesOf id calls)).countP (fun x ↦ x.recvWallMs = now - interpDelayMs) = 1 ∧
        ∃ s ∈ retained (samplesOf id (calls ++ further)), s.recvWallMs = now - interpDelayMs) :
    (ingestAll (calls ++ further)).renderPosition id now =
      some (positionAt (now - interpDelayMs) (retained (samplesOf id calls)) front back) := by
  have happ : samplesOf id (calls ++ further) = samplesOf id calls ++ samplesOf id further := by
    rw [samplesOf, List.filter_append, List.map_append, samplesOf, samplesOf]
  rw [happ] at hl hkept
  rw [renderPosition_ingestAll _ id now hnow, happ]
  rw [← retained_append] at hkept ⊢
  have hsub := (List.drop_sublist ((samplesOf id calls).length - snapshotHistorySize)
    (samplesOf id calls)).append_right (samplesOf id further)
  have hl₁ : Stamped (retained (samplesOf id calls) ++ samplesOf id further) := hl.sublist hsub
  have hpast : ∀ s ∈ retained (samplesOf id calls) ++ samplesOf id further, s.recvWallMs ≤ now := by
    intro s hs
    rcases List.mem_append.mp hs with hs | hs
    · exact hnewest s (List.mem_of_mem_drop hs)
    · exact (hlater s hs).2
  have hbmem := List.mem_of_getLast? hb
  generalize retained (samplesOf id calls) = dq at *
  generalize samplesOf id further = later at *
  unfold retained at hkept ⊢
  generalize (dq ++ later).length - snapshotHistorySize = k at *
  have hne : (dq ++ later).drop k ≠ [] := by
    rcases hkept with he | ⟨s, hs, _⟩ | ⟨_, s, hs, _⟩
    · rw [he]
      exact List.append_ne_nil_of_left_ne_nil (List.ne_nil_of_mem hbmem) _
    · exact List.ne_nil_of_mem hs
    · exact List.ne_nil_of_mem hs
  obtain ⟨front', hf'⟩ := Option.isSome_iff_exists.mp (List.isSome_head?.mpr hne)
  obtain ⟨back', hb'⟩ := Option.isSome_iff_exists.mp (List.getLast?_isSome.mpr hne)
  refine ⟨front', back', hf', hb', ?_, ?_⟩
  · -- The newest sample is no older than before.
    have hlast : (dq ++ later).getLast? = some back' := by
      rw [List.getLast?_drop] at hb'
      split at hb'
      · cases hb'
      · exact hb'
    have hle := le_of_getLast hl₁ hlast (List.mem_append_left later hbmem)
    have hb'mem := List.mem_of_getLast? hlast
    rw [age_le_iff (hpast back (List.mem_append_left later hbmem))] at hage
    rw [age_le_iff (hpast back' hb'mem)]
    omega
  · have hlater' : ∀ s ∈ later, now - interpDelayMs < s.recvWallMs := fun s hs ↦ (hlater s hs).1
    rcases hkept with he | ⟨s, hs, hst⟩ | ⟨hone, s, hs, hst⟩
    · rw [he] at hf' hb' ⊢
      exact positionAt_extend_append hf hb later hf' hb' hl₁ hlater' hhi
    · exact positionAt_extend_drop hf hb later k hl₁ hlater' hhi hs hst
    · exact positionAt_extend_stamp hf hb hf' hb' later (List.drop_sublist _ _) hl₁ hlater' hone hs
        hst

/-- In exact arithmetic an entity is drawn exactly if its newest sample is at most 2000 ms old,
on the line through its retained samples, within their bounds, and independently of later
samples. -/
theorem renderPosition_exact (calls : List (UInt16 × InterpSample ℝ)) (id : UInt16) (now : UInt64)
    (hl : Stamped (samplesOf id calls)) (hnow : interpDelayMs ≤ now)
    (hnewest : ∀ s ∈ samplesOf id calls, s.recvWallMs ≤ now) :
    let i := ingestAll calls
    let dq := retained (samplesOf id calls)
    let target := now - interpDelayMs
    (dq <:+ samplesOf id calls ∧ dq.length ≤ snapshotHistorySize ∧ i.bufferDepth id = dq.length) ∧
    ((i.renderPosition id now).isSome ↔
      ∃ back, dq.getLast? = some back ∧ now.toNat - back.recvWallMs.toNat ≤ 2000) ∧
    ∀ p, i.renderPosition id now = some p →
      ∃ front back, dq.head? = some front ∧ dq.getLast? = some back ∧
        (target < front.recvWallMs → p = front.pos) ∧
        (back.recvWallMs < target → p = back.pos) ∧
        (front.recvWallMs ≤ target → target ≤ back.recvWallMs →
          dq = [front] ∧ p = front.pos ∨
          ∃ before a b after, dq = before ++ a :: b :: after ∧ Brackets target a b ∧
            (a.recvWallMs = b.recvWallMs → p = b.pos) ∧
            (a.recvWallMs ≠ b.recvWallMs →
              p = lerp a.pos b.pos (fraction target a.recvWallMs b.recvWallMs))) ∧
        (∀ s ∈ dq, s.recvWallMs = target → dq.countP (fun x ↦ x.recvWallMs = target) = 1 →
          p = s.pos) ∧
        (∀ lo hi, (∀ s ∈ dq, Within lo hi s.pos) → Within lo hi p) ∧
        ∀ further, Stamped (samplesOf id (calls ++ further)) →
          (∀ s ∈ samplesOf id further, target < s.recvWallMs ∧ s.recvWallMs ≤ now) →
          target ≤ back.recvWallMs →
          let dq' := retained (samplesOf id (calls ++ further))
          (dq' = dq ++ samplesOf id further ∨ (∃ s ∈ dq', s.recvWallMs < target) ∨
            dq.countP (fun x ↦ x.recvWallMs = target) = 1 ∧ ∃ s ∈ dq', s.recvWallMs = target) →
          (ingestAll (calls ++ further)).renderPosition id now = some p := by
  intro i dq target
  have hsuffix : dq <:+ samplesOf id calls := List.drop_suffix _ _
  have hstamped : Stamped dq := hl.sublist hsuffix.sublist
  have hpast : ∀ s ∈ dq, s.recvWallMs ≤ now := fun s hs ↦ hnewest s (hsuffix.subset hs)
  refine ⟨⟨hsuffix, ?_, ?_⟩, ?_, fun p hp ↦ ?_⟩
  · change (retained (samplesOf id calls)).length ≤ _
    rw [retained, List.length_drop]
    omega
  · change bufferDepth id (ingestAll calls) = (retained (samplesOf id calls)).length
    rw [bufferDepth, find?_ingestAll]
    by_cases hnil : samplesOf id calls = []
    · rw [if_pos hnil, hnil]
      rfl
    · rw [if_neg hnil]
  · rw [Option.isSome_iff_exists]
    simp only [i, renderPosition_ingestAll calls id now hnow]
    constructor
    · rintro ⟨p, front, back, _, hb, hage, _⟩
      exact ⟨back, hb, (age_le_iff (hpast back (List.mem_of_getLast? hb))).mp hage⟩
    · rintro ⟨back, hb, hage⟩
      have hmem : back ∈ dq := List.mem_of_getLast? hb
      obtain ⟨front, hf⟩ := Option.isSome_iff_exists.mp
        (List.isSome_head?.mpr (List.ne_nil_of_mem hmem))
      exact ⟨_, front, back, hf, hb, (age_le_iff (hpast back hmem)).mpr hage, rfl⟩
  · obtain ⟨front, back, hf, hb, hage, rfl⟩ := (renderPosition_ingestAll calls id now hnow p).mp hp
    refine ⟨front, back, hf, hb, positionAt_before hstamped hf hb, positionAt_after hstamped hf hb,
      fun hlo hhi ↦ ?_, fun s hs hst hone ↦ positionAt_stamp hstamped hf hb hs hst hone,
      fun lo hi hin ↦ within_positionAt hf hb hin, fun further hl' hlater hhi hkept ↦ ?_⟩
    · rcases positionAt_inside hf hb hlo hhi with ⟨hone, hpos⟩ | ⟨before, a, b, after, heq, hab, hpos⟩
      · exact Or.inl ⟨hone, hpos⟩
      · refine Or.inr ⟨before, a, b, after, heq, hab, fun he ↦ ?_, fun hne ↦ ?_⟩
        · exact hpos.trans (if_pos he.symm)
        · exact hpos.trans (between_of_ne hab hne)
    · exact renderPosition_extend calls further id now hnow hnewest hf hb hage hl' hlater hhi hkept

/-- An entity with samples stamped 0 and 100, between which it has moved to the right, is drawn
between them at 150. -/
theorem renderPosition_exact_midway :
    ∃ p, (ingestAll [(2, ⟨⟨0, 0⟩, ⟨0, 0⟩, 0⟩), (2, ⟨⟨10, 0⟩, ⟨0, 0⟩, 100⟩)] :
        Interpolator ℝ).renderPosition 2 150 = some p ∧ Within ⟨0, 0⟩ ⟨10, 0⟩ p := by
  let a : InterpSample ℝ := ⟨⟨0, 0⟩, ⟨0, 0⟩, 0⟩
  let b : InterpSample ℝ := ⟨⟨10, 0⟩, ⟨0, 0⟩, 100⟩
  have hs : samplesOf 2 [(2, a), (2, b)] = [a, b] := rfl
  have h := renderPosition_exact [(2, a), (2, b)] 2 150
    (by rw [hs]; exact List.pairwise_pair.mpr (by decide)) (by decide)
    (by simp [hs, a, b])
  have hr : retained [a, b] = [a, b] := rfl
  rw [hs, hr] at h
  obtain ⟨_, hdrawn, hpos⟩ := h
  obtain ⟨p, hp⟩ := Option.isSome_iff_exists.mp (hdrawn.mpr ⟨b, rfl, by decide⟩)
  obtain ⟨_, _, _, _, _, _, _, _, hwithin, _⟩ := hpos p hp
  exact ⟨p, hp, hwithin ⟨0, 0⟩ ⟨10, 0⟩ (by norm_num [Within, a, b])⟩

end Interpolator
end LightningLink.Cl
