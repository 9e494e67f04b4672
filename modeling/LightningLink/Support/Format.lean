import Mathlib.Data.Nat.ModEq
import Mathlib.Tactic.Ring
import Mathlib.Data.List.Basic

/-!
# Big-endian words and prefix formats

Library `Support`. A `Format` is a writer and a parser that are inverse to each other in
front of any further bytes. Its laws make the parsed value unique and reject every strict
prefix of a written value. Formats of records are built from those of their fields.
-/

namespace Support

/-! ### Big-endian words -/

/-- The `w` low-order bytes of a number, most significant first. -/
def toBE : Nat → Nat → List UInt8
  | 0, _ => []
  | w + 1, n => UInt8.ofNat (n / 256 ^ w) :: toBE w n

/-- The number written by a byte list, most significant byte first. -/
def fromBE : List UInt8 → Nat
  | [] => 0
  | b :: bs => b.toNat * 256 ^ bs.length + fromBE bs

/-- A word of width `w` has `w` bytes. -/
@[simp] theorem length_toBE (w n : Nat) : (toBE w n).length = w := by
  induction w with
  | zero => rfl
  | succ w ih => rw [toBE, List.length_cons, ih]

/-- A byte list of length `w` writes a number below `256 ^ w`. -/
theorem fromBE_lt (bs : List UInt8) : fromBE bs < 256 ^ bs.length := by
  induction bs with
  | nil => exact Nat.one_pos
  | cons b bs ih =>
    have hb : b.toNat + 1 ≤ 256 := b.toNat_lt
    calc fromBE (b :: bs) < b.toNat * 256 ^ bs.length + 256 ^ bs.length := by
          rw [fromBE]; omega
      _ = (b.toNat + 1) * 256 ^ bs.length := by ring
      _ ≤ 256 * 256 ^ bs.length := Nat.mul_le_mul_right _ hb
      _ = 256 ^ (b :: bs).length := by rw [List.length_cons]; ring

/-- Reading back a written word gives the number modulo the word size. -/
theorem fromBE_toBE (w n : Nat) : fromBE (toBE w n) = n % 256 ^ w := by
  induction w with
  | zero => rw [Nat.pow_zero, Nat.mod_one]; rfl
  | succ w ih =>
    have hm : n % 256 ^ (w + 1) = n % 256 ^ w + 256 ^ w * (n / 256 ^ w % 256) := by
      rw [Nat.pow_succ, Nat.mod_mul]
    rw [toBE, fromBE, ih, length_toBE, UInt8.toNat_ofNat', hm, Nat.mul_comm, Nat.add_comm]

private theorem toBE_congr (w m n : Nat) (h : m ≡ n [MOD 256 ^ w]) : toBE w m = toBE w n := by
  induction w with
  | zero => rfl
  | succ w ih =>
    rw [toBE, toBE]
    congr 1
    · apply UInt8.toNat_inj.mp
      rw [UInt8.toNat_ofNat', UInt8.toNat_ofNat']
      change m / 256 ^ w % 256 = n / 256 ^ w % 256
      rw [← Nat.mod_mul_right_div_self, ← Nat.mod_mul_right_div_self, ← Nat.pow_succ, h]
    · apply ih
      rw [Nat.pow_succ] at h
      exact h.of_mul_right 256

/-- Writing back a read word gives the bytes that were read. -/
theorem toBE_fromBE (bs : List UInt8) : toBE bs.length (fromBE bs) = bs := by
  induction bs with
  | nil => rfl
  | cons b bs ih =>
    have hpos : 0 < 256 ^ bs.length := Nat.pow_pos (by decide)
    rw [List.length_cons, toBE, fromBE]
    congr 1
    · rw [Nat.mul_comm, Nat.mul_add_div hpos, Nat.div_eq_of_lt (fromBE_lt bs), Nat.add_zero]
      exact UInt8.ofNat_toNat
    · rw [toBE_congr _ _ (fromBE bs) ((Nat.modEq_iff_dvd' (by omega)).mpr ?_ |>.symm), ih]
      exact ⟨b.toNat, by rw [Nat.add_sub_cancel, Nat.mul_comm]⟩

/-! ### Prefix formats -/

/-- A writer with a parser inverse to it in front of any further bytes. -/
structure Format (α : Type) where
  write : α → List UInt8
  parse : List UInt8 → Option (α × List UInt8)
  parse_write : ∀ a rest, parse (write a ++ rest) = some (a, rest)
  write_of_parse : ∀ {bs a rest}, parse bs = some (a, rest) → bs = write a ++ rest

namespace Format

variable {α β : Type}

/-- A parse succeeds exactly on a written value followed by the returned rest. -/
theorem parse_eq_some_iff (f : Format α) (bs : List UInt8) (a : α) (rest : List UInt8) :
    f.parse bs = some (a, rest) ↔ bs = f.write a ++ rest := by
  constructor
  · exact f.write_of_parse
  · rintro rfl
    exact f.parse_write a rest

/-- Big-endian words of width `w`, for a type in bijection with the numbers below `256 ^ w`. -/
def word (w : Nat) (num : α → Nat) (ofNum : Nat → α) (num_lt : ∀ a, num a < 256 ^ w)
    (ofNum_num : ∀ a, ofNum (num a) = a) (num_ofNum : ∀ n, n < 256 ^ w → num (ofNum n) = n) :
    Format α where
  write a := toBE w (num a)
  parse bs := if w ≤ bs.length then some (ofNum (fromBE (bs.take w)), bs.drop w) else none
  parse_write a rest := by
    have hl := length_toBE w (num a)
    rw [if_pos (by simp), List.take_left' hl, List.drop_left' hl, fromBE_toBE,
      Nat.mod_eq_of_lt (num_lt a), ofNum_num]
  write_of_parse := by
    intro bs a rest h
    split at h
    · next hw =>
      obtain ⟨rfl, rfl⟩ := Prod.mk.inj (Option.some.inj h)
      have hl : (bs.take w).length = w := List.length_take_of_le hw
      have hn := fromBE_lt (bs.take w)
      have hb := toBE_fromBE (bs.take w)
      rw [hl] at hn hb
      rw [num_ofNum _ hn, hb, List.take_append_drop]
    · cases h

/-- One value after another. -/
def seq (f : Format α) (g : Format β) : Format (α × β) where
  write p := f.write p.1 ++ g.write p.2
  parse bs := (f.parse bs).bind fun p ↦ (g.parse p.2).map fun q ↦ ((p.1, q.1), q.2)
  parse_write p rest := by
    rw [List.append_assoc, f.parse_write, Option.bind_some, g.parse_write]
    rfl
  write_of_parse := by
    intro bs p rest h
    obtain ⟨⟨a, s⟩, ha, h⟩ := Option.bind_eq_some_iff.mp h
    obtain ⟨⟨b, t⟩, hb, h⟩ := Option.map_eq_some_iff.mp h
    obtain ⟨rfl, rfl⟩ := Prod.mk.inj h
    dsimp only at hb ⊢
    rw [f.write_of_parse ha, g.write_of_parse hb, List.append_assoc]

/-- The same bytes for a type in bijection. -/
def imap (f : Format α) (up : α → β) (down : β → α) (up_down : ∀ b, up (down b) = b)
    (down_up : ∀ a, down (up a) = a) : Format β where
  write b := f.write (down b)
  parse bs := (f.parse bs).map fun p ↦ (up p.1, p.2)
  parse_write b rest := by
    rw [f.parse_write, Option.map_some, up_down]
  write_of_parse := by
    intro bs b rest h
    obtain ⟨⟨a, s⟩, ha, h⟩ := Option.map_eq_some_iff.mp h
    obtain ⟨rfl, rfl⟩ := Prod.mk.inj h
    rw [down_up, f.write_of_parse ha]

/-- A fixed first byte. -/
def tag (t : UInt8) (f : Format α) : Format α where
  write a := t :: f.write a
  parse
    | [] => none
    | b :: bs => if b = t then f.parse bs else none
  parse_write a rest := by
    rw [List.cons_append]
    exact (if_pos rfl).trans (f.parse_write a rest)
  write_of_parse := by
    intro bs a rest h
    cases bs with
    | nil => cases h
    | cons b bs =>
      dsimp only at h
      split at h
      · next hb => rw [hb, f.write_of_parse h, List.cons_append]
      · cases h

/-- A tagged value needs its first byte. -/
theorem parse_tag_cons (t b : UInt8) (f : Format α) (bs : List UInt8) :
    (tag t f).parse (b :: bs) = if b = t then f.parse bs else none := rfl

/-- Parse `n` values one after another. -/
def parseN (f : Format α) : Nat → List UInt8 → Option (List α × List UInt8)
  | 0, bs => some ([], bs)
  | n + 1, bs => (f.parse bs).bind fun p ↦ (f.parseN n p.2).map fun q ↦ (p.1 :: q.1, q.2)

/-- The bytes of several values one after another. -/
def writeAll (f : Format α) (xs : List α) : List UInt8 := xs.flatMap f.write

/-- Parsing as many values as were written gives them back. -/
theorem parseN_writeAll (f : Format α) (xs : List α) (rest : List UInt8) :
    f.parseN xs.length (f.writeAll xs ++ rest) = some (xs, rest) := by
  induction xs with
  | nil => rfl
  | cons x xs ih =>
    rw [writeAll, List.flatMap_cons, List.append_assoc, List.length_cons, parseN,
      f.parse_write, Option.bind_some]
    unfold writeAll at ih
    rw [ih]
    rfl

/-- Parsed values are the written ones, as many as asked for. -/
theorem writeAll_of_parseN (f : Format α) {n : Nat} {bs : List UInt8} {xs : List α}
    {rest : List UInt8} (h : f.parseN n bs = some (xs, rest)) :
    xs.length = n ∧ bs = f.writeAll xs ++ rest := by
  induction n generalizing bs xs with
  | zero =>
    obtain ⟨rfl, rfl⟩ := Prod.mk.inj (Option.some.inj h)
    exact ⟨rfl, rfl⟩
  | succ n ih =>
    obtain ⟨⟨a, s⟩, ha, h⟩ := Option.bind_eq_some_iff.mp h
    obtain ⟨⟨as, t⟩, hs, h⟩ := Option.map_eq_some_iff.mp h
    obtain ⟨rfl, rfl⟩ := Prod.mk.inj h
    obtain ⟨hl, rfl⟩ := ih hs
    refine ⟨by rw [List.length_cons, hl], ?_⟩
    rw [f.write_of_parse ha]
    unfold writeAll
    rw [List.flatMap_cons, List.append_assoc]

/-- At most `bound` values, preceded by their number. A larger number does not parse. -/
def counted (count : Format UInt16) (bound : Nat) (bound_lt : bound < 65536) (f : Format α) :
    Format {xs : List α // xs.length ≤ bound} where
  write xs := count.write (UInt16.ofNat xs.val.length) ++ f.writeAll xs.val
  parse bs := (count.parse bs).bind fun p ↦
    if h : p.1.toNat ≤ bound then
      (f.parseN p.1.toNat p.2).pbind fun q hq ↦
        some (⟨q.1, by rw [(f.writeAll_of_parseN hq).1]; exact h⟩, q.2)
    else none
  parse_write xs rest := by
    have hn : (UInt16.ofNat xs.val.length).toNat = xs.val.length := by
      rw [UInt16.toNat_ofNat']
      exact Nat.mod_eq_of_lt (Nat.lt_of_le_of_lt xs.property bound_lt)
    rw [List.append_assoc, count.parse_write, Option.bind_some]
    simp only [hn, xs.property, ↓reduceDIte]
    rw [Option.pbind_eq_some_iff]
    exact ⟨(xs.val, rest), f.parseN_writeAll xs.val rest, rfl⟩
  write_of_parse := by
    intro bs xs rest h
    obtain ⟨⟨n, s⟩, hn, h⟩ := Option.bind_eq_some_iff.mp h
    dsimp only at h
    split at h
    · obtain ⟨⟨ys, t⟩, hq, h⟩ := Option.pbind_eq_some_iff.mp h
      obtain ⟨rfl, rfl⟩ := Prod.mk.inj (Option.some.inj h)
      obtain ⟨hl, rfl⟩ := f.writeAll_of_parseN hq
      have he : UInt16.ofNat ys.length = n := by rw [hl, UInt16.ofNat_toNat]
      dsimp only
      rw [count.write_of_parse hn, he, List.append_assoc]
    · cases h

/-- The list parsed by a counted format, without its bound. -/
theorem counted_parse_val (count : Format UInt16) (bound : Nat) (bound_lt : bound < 65536)
    (f : Format α) (bs : List UInt8) :
    ((counted count bound bound_lt f).parse bs).map (fun p ↦ (p.1.val, p.2)) =
      (count.parse bs).bind fun p ↦
        if p.1.toNat ≤ bound then f.parseN p.1.toNat p.2 else none := by
  unfold counted
  dsimp only
  cases count.parse bs with
  | none => rfl
  | some p =>
    rw [Option.bind_some, Option.bind_some]
    split
    · obtain hq | ⟨q, hq⟩ := Option.eq_none_or_eq_some (f.parseN p.1.toNat p.2)
      · refine Eq.trans ?_ hq.symm
        rw [Option.map_eq_none_iff, Option.pbind_eq_none_iff]
        exact Or.inl hq
      · refine Eq.trans ?_ hq.symm
        rw [Option.map_eq_some_iff]
        exact ⟨_, Option.pbind_eq_some_iff.mpr ⟨q, hq, rfl⟩, rfl⟩
    · rfl

end Format
end Support
