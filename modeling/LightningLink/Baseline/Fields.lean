import LightningLink.Baseline.Text
import LightningLink.Support.Tokens

/-!
# Fields of a line

Library `Baseline`. A stream that has not failed holds the tokens of what is left of it, and
extractions take them in order. A token that is a number in range is taken whole.
-/

namespace LightningLink.Baseline

open Support

/-- Value of an optional sign and decimal digits. -/
def decimal (token : List Char) : Option Int :=
  let neg := token.head? = some '-'
  let digits := if neg ∨ token.head? = some '+' then token.tail else token
  if digits ≠ [] ∧ digits.all Char.isDigit then
    let n : Int := Nat.ofDigitChars 10 digits 0
    some (if neg then -n else n)
  else none

namespace Istringstream

/-- A stream that has not failed, with the tokens left in it. -/
structure Holds (iss : Istringstream) (ts : List (List Char)) : Prop where
  fail : iss.fail = false
  eof : iss.eof = true → iss.rest = []
  tokens : tokens isSpace iss.rest = ts

/-- A stream over a line holds its tokens. -/
theorem holds_ofString (line : List Char) : (ofString line).Holds (Support.tokens isSpace line) :=
  ⟨rfl, Bool.noConfusion, rfl⟩

/-- What is left after a token has been taken. -/
theorem holds_rest {rest : List Char} {ts : List (List Char)}
    (h : Support.tokens isSpace rest = ts) : Holds ⟨rest, rest.isEmpty, false⟩ ts :=
  ⟨rfl, List.isEmpty_iff.mp, h⟩

/-- An extraction starts at the next token. -/
theorem Holds.extract {iss : Istringstream} {t : List Char} {ts : List (List Char)}
    (h : iss.Holds (t :: ts)) :
    (t ≠ [] ∧ ∀ c ∈ t, isSpace c = false) ∧ ∃ rest, Ended isSpace rest ∧
      Support.tokens isSpace rest = ts ∧
      ∀ {α : Type} (take : List Char → α × Bool × List Char), iss.extract take =
        (some (take (t ++ rest)).1, ⟨(take (t ++ rest)).2.2, (take (t ++ rest)).2.2.isEmpty,
          (take (t ++ rest)).2.1⟩) := by
  obtain ⟨htoken, rest, hdrop, hended, hrest⟩ := dropWhile_of_tokens h.tokens
  refine ⟨htoken, rest, hended, hrest, fun take ↦ ?_⟩
  have heof : iss.eof = false := by
    cases heof : iss.eof with
    | false => rfl
    | true =>
      have htokens := h.tokens
      rw [h.eof heof] at htokens
      cases htokens
  have hne : (t ++ rest).isEmpty = false := by
    rw [List.isEmpty_eq_false_iff]
    exact List.append_ne_nil_of_left_ne_nil htoken.1 rest
  unfold Istringstream.extract sentry
  simp only [heof, h.fail, Bool.or_self, Bool.false_eq_true, if_false, hdrop, hne, if_true]

/-- Without tokens an extraction fails and leaves the variable alone. -/
theorem Holds.extract_nil {iss : Istringstream} (h : iss.Holds []) {α : Type}
    (take : List Char → α × Bool × List Char) : (iss.extract take).1 = none := by
  have hdrop : iss.rest.dropWhile isSpace = [] := by
    have htokens := h.tokens
    rw [tokens_eq] at htokens
    split at htokens
    · assumption
    · cases htokens
  unfold Istringstream.extract sentry
  rw [h.fail, hdrop]
  cases iss.eof <;> rfl

/-- The first word of a stream is its next token. -/
theorem Holds.getWord {iss : Istringstream} {t : List Char} {ts : List (List Char)}
    (h : iss.Holds (t :: ts)) : iss.getWord.1 = some t ∧ iss.getWord.2.Holds ts := by
  obtain ⟨⟨_, hword⟩, rest, hended, hrest, hextract⟩ := h.extract
  have hpos : ∀ c ∈ t, (!isSpace c) = true := fun c hc ↦ by rw [hword c hc]; rfl
  have htake : rest.takeWhile (fun c ↦ !isSpace c) = [] := by
    cases rest with
    | nil => rfl
    | cons c rest => exact List.takeWhile_cons_of_neg (by simp [hended c rfl])
  have hdrop : rest.dropWhile (fun c ↦ !isSpace c) = rest := by
    cases rest with
    | nil => rfl
    | cons c rest => exact List.dropWhile_cons_of_neg (by simp [hended c rfl])
  unfold Istringstream.getWord
  rw [hextract]
  dsimp only
  rw [List.takeWhile_append_of_pos hpos, List.dropWhile_append_of_pos hpos, htake, hdrop,
    List.append_nil]
  exact ⟨rfl, holds_rest hrest⟩

/-- The command of a line is its first token. -/
theorem getWord_ofString (line : List Char) :
    (ofString line).getWord.1 = (Support.tokens isSpace line).head? := by
  have h := holds_ofString line
  cases htokens : Support.tokens isSpace line with
  | nil =>
    rw [htokens] at h
    exact h.extract_nil _
  | cons t ts =>
    rw [htokens] at h
    exact h.getWord.1

private theorem not_isDigit_of_isSpace {c : Char} (h : isSpace c = true) : c.isDigit = false := by
  cases hdigit : c.isDigit with
  | false => rfl
  | true =>
    rw [isSpace_of_isDigit hdigit] at h
    cases h

private theorem span_digits_ended {digits rest : List Char} (hdigits : digits.all Char.isDigit)
    (hended : Ended isSpace rest) :
    (digits ++ rest).takeWhile Char.isDigit = digits ∧
      (digits ++ rest).dropWhile Char.isDigit = rest := by
  have hpos : ∀ c ∈ digits, c.isDigit = true := List.all_eq_true.mp hdigits
  rw [List.takeWhile_append_of_pos hpos, List.dropWhile_append_of_pos hpos]
  cases rest with
  | nil => exact ⟨List.append_nil _, rfl⟩
  | cons c rest =>
    have hc := not_isDigit_of_isSpace (hended c rfl)
    rw [List.takeWhile_cons_of_neg (by simp [hc]), List.dropWhile_cons_of_neg (by simp [hc])]
    exact ⟨List.append_nil _, rfl⟩

/-- A decimal token is taken whole, and its value depends on the sign and the digits. -/
theorem takeNumber_decimal {t rest : List Char} {i : Int} (h : decimal t = some i)
    (hended : Ended isSpace rest) : ∃ (neg : Bool) (n : Nat), i = (if neg then -(n : Int) else n) ∧
      ∀ value, takeNumber value (t ++ rest) = ((value neg n).1, (value neg n).2, rest) := by
  cases t with
  | nil => cases h
  | cons c cs =>
    unfold decimal at h
    dsimp only at h
    have hbody : (if (c :: cs).head? = some '-' ∨ (c :: cs).head? = some '+'
          then (c :: cs ++ rest).tail else c :: cs ++ rest) =
        (if (c :: cs).head? = some '-' ∨ (c :: cs).head? = some '+' then (c :: cs).tail
          else c :: cs) ++ rest := by
      split <;> rfl
    generalize (if (c :: cs).head? = some '-' ∨ (c :: cs).head? = some '+' then (c :: cs).tail
      else c :: cs) = digits at h hbody
    split at h
    · next hdigits =>
      obtain ⟨htake, hdrop⟩ := span_digits_ended hdigits.2 hended
      have hempty : digits.isEmpty = false := List.isEmpty_eq_false_iff.mpr hdigits.1
      refine ⟨decide ((c :: cs).head? = some '-'), Nat.ofDigitChars 10 digits 0, ?_, fun value ↦ ?_⟩
      · rw [← Option.some.inj h]
        simp only [decide_eq_true_eq]
      · unfold takeNumber
        dsimp only
        rw [show (c :: cs ++ rest).head? = (c :: cs).head? from rfl, hbody, htake, hdrop, hempty]
        rfl
    · cases h

/-- An unsigned number in range is extracted. -/
theorem Holds.getUnsigned {iss : Istringstream} {t : List Char} {ts : List (List Char)} {i : Int}
    {w : Nat} (h : iss.Holds (t :: ts)) (ht : decimal t = some i) (hlo : 0 ≤ i) (hhi : i < 2 ^ w) :
    (iss.getUnsigned w).1 = some i ∧ (iss.getUnsigned w).2.Holds ts := by
  obtain ⟨_, rest, hended, hrest, hextract⟩ := h.extract
  obtain ⟨neg, n, rfl, htake⟩ := takeNumber_decimal ht hended
  have hpow : ((2 ^ w : Nat) : Int) = 2 ^ w := by norm_cast
  have hn : ¬ 2 ^ w ≤ n := by
    cases neg <;> simp only [if_true, if_false, Bool.false_eq_true] at hlo hhi <;> omega
  unfold Istringstream.getUnsigned
  rw [hextract, htake]
  simp only [if_neg hn]
  refine ⟨?_, holds_rest hrest⟩
  cases neg with
  | false => rfl
  | true =>
    have hzero : n = 0 := by
      simp only [if_true] at hlo
      omega
    subst hzero
    simp

/-- A signed number in range is extracted. -/
theorem Holds.getSigned {iss : Istringstream} {t : List Char} {ts : List (List Char)} {i : Int}
    {w : Nat} (h : iss.Holds (t :: ts)) (ht : decimal t = some i) (hlo : -2 ^ w ≤ i)
    (hhi : i < 2 ^ w) : (iss.getSigned w).1 = some i ∧ (iss.getSigned w).2.Holds ts := by
  obtain ⟨_, rest, hended, hrest, hextract⟩ := h.extract
  obtain ⟨neg, n, rfl, htake⟩ := takeNumber_decimal ht hended
  have hpow : ((2 ^ w : Nat) : Int) = 2 ^ w := by norm_cast
  unfold Istringstream.getSigned
  rw [hextract, htake]
  cases neg with
  | false =>
    have hn : ¬ 2 ^ w ≤ n := by
      simp only [Bool.false_eq_true, if_false] at hhi
      omega
    simp only [Bool.false_eq_true, if_false, if_neg hn]
    exact ⟨trivial, holds_rest hrest⟩
  | true =>
    have hn : ¬ 2 ^ w < n := by
      simp only [if_true] at hlo
      omega
    simp only [if_true, if_neg hn]
    exact ⟨trivial, holds_rest hrest⟩

end Istringstream
end LightningLink.Baseline
