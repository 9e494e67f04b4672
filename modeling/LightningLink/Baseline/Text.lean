import LightningLink.Support.Lines
import Mathlib.Tactic.Ring

/-!
# Text streams

Library `Baseline`. Models the parts of `std::ostringstream` and `std::istringstream` that the
text protocol uses: decimal output and formatted extraction, with the stream state that a
failed or exhausted extraction leaves behind. A `std::string` is the list of its characters.
-/

namespace LightningLink.Baseline

open Support

/-- `std::isspace` in the default locale. -/
def isSpace (c : Char) : Bool := c = ' ' ∨ '\t' ≤ c ∧ c ≤ '\r'

/-! ### Output -/

/-- An unsigned number in decimal. -/
def writeNat (n : Nat) : List Char := Nat.toDigits 10 n

/-- A signed number in decimal. -/
def writeInt (i : Int) : List Char := if i < 0 then '-' :: writeNat i.natAbs else writeNat i.toNat

/-- Output and extraction of a floating type. A written value has no white space. -/
class FloatText (F : Type) where
  write : F → List Char
  /-- Value, whether the extraction fails, and what is left. -/
  scan : List Char → F × Bool × List Char
  isSpace_write : ∀ x, ∀ c ∈ write x, isSpace c = false

/-! ### Input -/

/-- Unread characters, `eofbit` and `failbit`. -/
structure Istringstream where
  rest : List Char
  eof : Bool
  fail : Bool
  deriving DecidableEq, Repr

namespace Istringstream

/-- Stream over a string. -/
def ofString (cs : List Char) : Istringstream := ⟨cs, false, false⟩

/-- The sentry of a formatted extraction: skip white space, and fail without anything left. -/
def sentry (s : Istringstream) : Bool × Istringstream :=
  if s.eof || s.fail then (false, { s with fail := true })
  else
    let rest := s.rest.dropWhile isSpace
    if rest.isEmpty then (false, ⟨[], true, true⟩) else (true, { s with rest := rest })

/-- `>>` into a variable whose characters `take` reads: its value, whether it fails, and what
is left. A failing sentry leaves the variable alone. -/
def extract {α : Type} (take : List Char → α × Bool × List Char) (s : Istringstream) :
    Option α × Istringstream :=
  let r := s.sentry
  if r.1 then
    let t := take r.2.rest
    (some t.1, ⟨t.2.2, t.2.2.isEmpty, t.2.1⟩)
  else (none, r.2)

/-- `>>` into a string. -/
def getWord (s : Istringstream) : Option (List Char) × Istringstream :=
  s.extract fun cs ↦ (cs.takeWhile fun c ↦ !isSpace c, false, cs.dropWhile fun c ↦ !isSpace c)

/-- An optional sign, all digits that follow, and the value they have; without digits the
extraction fails with value 0. -/
def takeNumber (value : Bool → Nat → Int × Bool) (cs : List Char) : Int × Bool × List Char :=
  let neg := cs.head? = some '-'
  let body := if neg ∨ cs.head? = some '+' then cs.tail else cs
  let digits := body.takeWhile Char.isDigit
  let v := if digits.isEmpty then (0, true) else value neg (Nat.ofDigitChars 10 digits 0)
  (v.1, v.2, body.dropWhile Char.isDigit)

/-- `>>` into an unsigned number of `w` bits. A minus sign negates modulo `2 ^ w`; a number
out of range fails with the largest value. -/
def getUnsigned (w : Nat) (s : Istringstream) : Option Int × Istringstream :=
  s.extract <| takeNumber fun neg n ↦
    if 2 ^ w ≤ n then (2 ^ w - 1, true)
    else (if neg then (2 ^ w - n) % 2 ^ w else n, false)

/-- `>>` into a signed number of `w + 1` bits. A number out of range fails with the nearest
value. -/
def getSigned (w : Nat) (s : Istringstream) : Option Int × Istringstream :=
  s.extract <| takeNumber fun neg n ↦
    if neg then if 2 ^ w < n then (-2 ^ w, true) else (-n, false)
    else if 2 ^ w ≤ n then (2 ^ w - 1, true) else (n, false)

/-- `>>` into a floating number. -/
def getFloat {F : Type} [FloatText F] (s : Istringstream) : Option F × Istringstream :=
  s.extract FloatText.scan

/-! ### Reading what was written -/

/-- What follows a token: nothing, or a space. -/
def Ends (cs : List Char) : Prop := cs = [] ∨ ∃ rest, cs = ' ' :: rest

/-- A digit is no white space. -/
theorem isSpace_of_isDigit {c : Char} (h : c.isDigit = true) : isSpace c = false := by
  have hdigit : 48 ≤ c.val ∧ c.val ≤ 57 := by simpa [Char.isDigit] using h
  have hn : 48 ≤ c.toNat := hdigit.1
  unfold isSpace
  simp only [decide_eq_false_iff_not, not_or, not_and]
  refine ⟨?_, fun _ hle ↦ ?_⟩
  · rintro rfl
    exact absurd hn (by decide)
  · have : c.toNat ≤ 13 := hle
    omega

/-- A space before a token is skipped. -/
theorem extract_space {α : Type} (take : List Char → α × Bool × List Char) {c : Char}
    {cs : List Char} (hc : isSpace c = false) :
    (⟨' ' :: c :: cs, false, false⟩ : Istringstream).extract take =
      (⟨c :: cs, false, false⟩ : Istringstream).extract take := by
  simp [extract, sentry, hc, show isSpace ' ' = true by decide]

/-- A token at the start of the stream is taken. -/
theorem extract_cons {α : Type} (take : List Char → α × Bool × List Char) {c : Char}
    {cs : List Char} (hc : isSpace c = false) :
    (⟨c :: cs, false, false⟩ : Istringstream).extract take =
      (some (take (c :: cs)).1, ⟨(take (c :: cs)).2.2, (take (c :: cs)).2.2.isEmpty,
        (take (c :: cs)).2.1⟩) := by
  simp [extract, sentry, hc]

/-- A word in front of a space is extracted. -/
theorem getWord_append {word : List Char} (hne : word ≠ [])
    (hword : ∀ c ∈ word, isSpace c = false) (rest : List Char) :
    (ofString (word ++ ' ' :: rest)).getWord = (some word, ⟨' ' :: rest, false, false⟩) := by
  obtain ⟨c, cs, rfl⟩ := List.exists_cons_of_ne_nil hne
  have hspace : isSpace ' ' = true := by decide
  have hpos : ∀ d ∈ c :: cs, (!isSpace d) = true := fun d hd ↦ by rw [hword d hd]; rfl
  rw [ofString, getWord, List.cons_append, extract_cons _ (hword c List.mem_cons_self),
    ← List.cons_append, List.takeWhile_append_of_pos hpos, List.dropWhile_append_of_pos hpos]
  simp [hspace]

private theorem span_digits {ds rest : List Char} (hds : ∀ c ∈ ds, c.isDigit = true)
    (hrest : Ends rest) :
    (ds ++ rest).takeWhile Char.isDigit = ds ∧ (ds ++ rest).dropWhile Char.isDigit = rest := by
  induction ds with
  | nil =>
    obtain rfl | ⟨rest, rfl⟩ := hrest
    · exact ⟨rfl, rfl⟩
    · exact ⟨rfl, rfl⟩
  | cons d ds ih =>
    obtain ⟨hd, hds⟩ := List.forall_mem_cons.mp hds
    obtain ⟨htake, hdrop⟩ := ih hds
    simp [hd, htake, hdrop]

private theorem isDigit_of_mem_writeNat {n : Nat} {c : Char} (h : c ∈ writeNat n) :
    c.isDigit = true := Nat.isDigit_of_mem_toDigits (by decide) (by decide) h

/-- A written unsigned number has a first digit. -/
theorem writeNat_eq_cons (n : Nat) : ∃ c cs, writeNat n = c :: cs ∧ c.isDigit = true := by
  cases h : writeNat n with
  | nil => exact absurd h Nat.toDigits_ne_nil
  | cons c cs => exact ⟨c, cs, rfl, isDigit_of_mem_writeNat (h ▸ List.mem_cons_self)⟩

/-- A written unsigned number is taken without a sign. -/
theorem takeNumber_writeNat (value : Bool → Nat → Int × Bool) (n : Nat) {rest : List Char}
    (hrest : Ends rest) :
    takeNumber value (writeNat n ++ rest) = ((value false n).1, (value false n).2, rest) := by
  obtain ⟨htake, hdrop⟩ := span_digits (fun _ ↦ isDigit_of_mem_writeNat (n := n)) hrest
  obtain ⟨c, cs, hcs, hc⟩ := writeNat_eq_cons n
  have hne : ∀ d : Char, d.isDigit = false → (writeNat n ++ rest).head? ≠ some d := by
    intro d hd
    rw [hcs, List.cons_append, List.head?_cons]
    intro he
    rw [Option.some.inj he, hd] at hc
    cases hc
  have hempty : (writeNat n).isEmpty = false := by simp [hcs]
  unfold takeNumber
  simp only [hne '-' (by decide), hne '+' (by decide), or_self, if_false, htake, hdrop, hempty,
    Bool.false_eq_true, decide_false]
  rw [writeNat, Nat.ofDigitChars_ten_toDigits]

/-- A written negative number is taken with its sign. -/
theorem takeNumber_minus (value : Bool → Nat → Int × Bool) (n : Nat) {rest : List Char}
    (hrest : Ends rest) :
    takeNumber value ('-' :: (writeNat n ++ rest)) = ((value true n).1, (value true n).2, rest) := by
  obtain ⟨htake, hdrop⟩ := span_digits (fun _ ↦ isDigit_of_mem_writeNat (n := n)) hrest
  have hempty : (writeNat n).isEmpty = false := by
    obtain ⟨c, cs, hcs, _⟩ := writeNat_eq_cons n
    simp [hcs]
  unfold takeNumber
  simp only [List.head?_cons, true_or, if_true, List.tail_cons, htake, hdrop, hempty,
    Bool.false_eq_true, if_false, decide_true]
  rw [writeNat, Nat.ofDigitChars_ten_toDigits]

/-- A written unsigned number in range is read back. -/
theorem getUnsigned_writeNat {w n : Nat} (hn : n < 2 ^ w) {rest : List Char} (hrest : Ends rest) :
    getUnsigned w ⟨' ' :: (writeNat n ++ rest), false, false⟩ =
      (some (n : Int), ⟨rest, rest.isEmpty, false⟩) := by
  obtain ⟨c, cs, hcs, hc⟩ := writeNat_eq_cons n
  have hspace := isSpace_of_isDigit hc
  unfold getUnsigned
  rw [hcs, List.cons_append, extract_space _ hspace, extract_cons _ hspace, ← List.cons_append,
    ← hcs, takeNumber_writeNat _ n hrest]
  simp [Nat.not_le.mpr hn]

/-- A written signed number in range is read back. -/
theorem getSigned_writeInt {w : Nat} {i : Int} (hlo : -2 ^ w ≤ i) (hhi : i < 2 ^ w)
    {rest : List Char} (hrest : Ends rest) :
    getSigned w ⟨' ' :: (writeInt i ++ rest), false, false⟩ =
      (some i, ⟨rest, rest.isEmpty, false⟩) := by
  unfold getSigned writeInt
  by_cases hi : i < 0
  · rw [if_pos hi, List.cons_append, extract_space _ (by decide), extract_cons _ (by decide),
      takeNumber_minus _ _ hrest]
    have hle : ¬ 2 ^ w < i.natAbs := by
      have : ((2 ^ w : Nat) : Int) = 2 ^ w := by norm_cast
      omega
    simp only [if_true, if_neg hle]
    have habs : -(i.natAbs : Int) = i := by omega
    rw [habs]
  · obtain ⟨c, cs, hcs, hc⟩ := writeNat_eq_cons i.toNat
    have hspace := isSpace_of_isDigit hc
    rw [if_neg hi, hcs, List.cons_append, extract_space _ hspace, extract_cons _ hspace,
      ← List.cons_append, ← hcs, takeNumber_writeNat _ _ hrest]
    have hlt : ¬ 2 ^ w ≤ i.toNat := by
      have : ((2 ^ w : Nat) : Int) = 2 ^ w := by norm_cast
      omega
    simp only [Bool.false_eq_true, if_false, if_neg hlt]
    have hnat : (i.toNat : Int) = i := by omega
    rw [hnat]

end Istringstream

/-- An id that is read as a number is the id. -/
theorem uint16_ofInt_toNat (id : UInt16) : UInt16.ofInt (id.toNat : Int) = id := by
  apply UInt16.toNat_inj.mp
  have := id.toNat_lt
  simp only [UInt16.ofInt, UInt16.toNat_ofNat']
  omega

/-- So is a sequence number. -/
theorem uint32_ofInt_toNat (seq : UInt32) : UInt32.ofInt (seq.toNat : Int) = seq := by
  apply UInt32.toNat_inj.mp
  have := seq.toNat_lt
  simp only [UInt32.ofInt, UInt32.toNat_ofNat']
  omega

end LightningLink.Baseline
