import LightningLink.Common.Serialization

/-!
# The codec refines the wire formats

Library `Common`. Every packet has a format in the sense of `Support.Format`; the bounded
encoders write it whenever the buffer has room for it, and the decoders read exactly its
prefixes. Floats are their bit patterns here.
-/

namespace LightningLink.Proto

open Support BufferWriter BufferReader

/-! ### Memories -/

namespace Memory

/-- Observing bytes yields as many as asked for. -/
@[simp] theorem length_bytes (data : Memory) (n : Nat) : (data.bytes n).length = n := by
  simp [bytes]

/-- Observed bytes depend on the memory below the bound only. -/
theorem bytes_congr {data other : Memory} {n : Nat} (h : ∀ i, i < n → data i = other i) :
    data.bytes n = other.bytes n :=
  List.map_congr_left fun i hi ↦ h i (List.mem_range.mp hi)

/-- Bytes up to a sum of sizes split into two windows. -/
theorem bytes_add (data : Memory) (m n : Nat) :
    data.bytes (m + n) = data.bytes m ++ (List.range n).map fun i ↦ data (m + i) := by
  simp [bytes, List.range_add, Function.comp_def]

/-- A memory holding a list shows its bytes. -/
theorem bytes_ofList (bs : List UInt8) : (ofList bs).bytes bs.length = bs := by
  apply List.ext_getElem
  · simp
  · intro i hi hj
    simp [bytes, ofList, hj]

/-- A copy leaves the memory outside its window alone. -/
theorem write_outside (data : Memory) (pos i : Nat) (bs : List UInt8)
    (h : i < pos ∨ pos + bs.length ≤ i) : data.write pos bs i = data i :=
  if_neg (by omega)

/-- A copy at the end of the observed bytes appends to them. -/
theorem bytes_write (data : Memory) (pos : Nat) (bs : List UInt8) :
    (data.write pos bs).bytes (pos + bs.length) = data.bytes pos ++ bs := by
  rw [bytes_add, bytes_congr fun i hi ↦ data.write_outside pos i bs (Or.inl hi)]
  congr 1
  apply List.ext_getElem
  · simp
  · intro i hi hj
    simp [write, hj]

end Memory

/-! ### The writer -/

/-- Effect of writing `bs` to `w`: all of it when there is room, else a failed writer
whose memory changed at most between the old position and the bound. -/
structure Wrote (w w' : BufferWriter) (bs : List UInt8) : Prop where
  cap : w'.cap = w.cap
  ok : w'.ok = true ↔ w.ok = true ∧ w.pos + bs.length ≤ w.cap
  pos : w'.ok = true → w'.pos = w.pos + bs.length
  bytes : w'.ok = true → w'.data.bytes w'.pos = w.data.bytes w.pos ++ bs
  grows : w.pos ≤ w'.pos ∧ w'.pos ≤ w.pos + bs.length
  room : w'.pos ≤ w'.cap
  frame : ∀ i, i < w.pos ∨ min w.cap (w.pos + bs.length) ≤ i → w'.data i = w.data i

namespace Wrote

variable {w v u : BufferWriter} {bs cs : List UInt8}

/-- Writing nothing. -/
theorem refl (h : w.pos ≤ w.cap) : Wrote w w [] where
  cap := rfl
  ok := by simp [h]
  pos _ := rfl
  bytes _ := by simp
  grows := by simp
  room := h
  frame _ _ := rfl

/-- One guarded copy. -/
theorem putBytes (w : BufferWriter) (bs : List UInt8) (h : w.pos ≤ w.cap) :
    Wrote w (w.putBytes bs).2 bs := by
  unfold BufferWriter.putBytes
  split
  · next hf =>
    simp only [Bool.or_eq_true, Bool.not_eq_true', decide_eq_true_eq] at hf
    refine ⟨rfl, ?_, by simp, by simp, by simp, h, fun _ _ ↦ rfl⟩
    simp only [Bool.false_eq_true, false_iff, not_and, not_le]
    intro hok
    rcases hf with hf | hf
    · rw [hf] at hok; cases hok
    · exact hf
  · next hf =>
    simp only [Bool.or_eq_true, Bool.not_eq_true', decide_eq_true_eq, not_or, not_lt,
      Bool.not_eq_false] at hf
    refine ⟨rfl, by simp [hf.1, hf.2], by simp, ?_, by simp, hf.2, ?_⟩
    · intro _
      exact w.data.bytes_write w.pos bs
    · intro i hi
      apply w.data.write_outside
      omega

/-- Two writes in sequence write the concatenation. -/
theorem trans (h : Wrote w v bs) (g : Wrote v u cs) : Wrote w u (bs ++ cs) where
  cap := g.cap.trans h.cap
  ok := by
    rw [g.ok, h.ok, h.cap, List.length_append]
    constructor
    · rintro ⟨⟨hw, hb⟩, hc⟩
      have := h.pos (h.ok.mpr ⟨hw, hb⟩)
      exact ⟨hw, by omega⟩
    · rintro ⟨hw, hb⟩
      have := h.pos (h.ok.mpr ⟨hw, by omega⟩)
      exact ⟨⟨hw, by omega⟩, by omega⟩
  pos hu := by
    rw [g.pos hu, h.pos (g.ok.mp hu).1, List.length_append, Nat.add_assoc]
  bytes hu := by
    rw [g.bytes hu, h.bytes (g.ok.mp hu).1, List.append_assoc]
  grows := by
    have := h.grows
    have := g.grows
    rw [List.length_append]
    omega
  room := g.room
  frame i hi := by
    have := h.grows
    have := h.room
    have hc := h.cap
    rw [List.length_append] at hi
    rw [g.frame i (by omega), h.frame i (by omega)]

/-- A loop of writes writes the concatenation of what its iterations write. -/
theorem foldl {α : Type} (f : BufferWriter → α → BufferWriter) (bytes : α → List UInt8)
    (step : ∀ w a, w.pos ≤ w.cap → Wrote w (f w a) (bytes a)) (xs : List α)
    (w : BufferWriter) (h : w.pos ≤ w.cap) : Wrote w (xs.foldl f w) (xs.flatMap bytes) := by
  induction xs generalizing w with
  | nil => exact refl h
  | cons x xs ih =>
    rw [List.foldl_cons, List.flatMap_cons]
    exact (step w x h).trans (ih _ (step w x h).room)

end Wrote

/-- Outcome of an encoder that writes `bs`: its size where there is room and 0 elsewhere,
with no write at or past the smaller of the capacity and the size. -/
structure Encodes (out : Memory) (cap : Nat) (r : Memory × Nat) (bs : List UInt8) : Prop where
  size : r.2 = if bs.length ≤ cap then bs.length else 0
  bytes : bs.length ≤ cap → r.1.bytes r.2 = bs
  frame : ∀ i, min cap bs.length ≤ i → r.1 i = out i

/-- An encoder ends with the outcome of its writes. -/
theorem Wrote.finish {out : Memory} {cap : Nat} {w : BufferWriter} {bs : List UInt8}
    (h : Wrote (BufferWriter.new out cap) w bs) : Encodes out cap w.finish bs := by
  have hok : w.ok = true ↔ bs.length ≤ cap := by
    rw [h.ok]
    simp [BufferWriter.new]
  have hsize : w.finish.2 = if bs.length ≤ cap then bs.length else 0 := by
    unfold BufferWriter.finish
    split
    · next hw =>
      rw [if_pos (hok.mp hw), h.pos hw]
      exact Nat.zero_add _
    · next hw => rw [if_neg (mt hok.mpr hw)]
  refine ⟨hsize, ?_, ?_⟩
  · intro hb
    have hw := h.bytes (hok.mpr hb)
    rw [h.pos (hok.mpr hb)] at hw
    rw [hsize, if_pos hb]
    simpa [BufferWriter.new, Memory.bytes, BufferWriter.finish] using hw
  · intro i hi
    exact h.frame i (Or.inr (by simpa [BufferWriter.new] using hi))

/-! ### The reader -/

/-- Bytes a reader has not consumed. -/
def BufferReader.rest (r : BufferReader) : List UInt8 :=
  (List.range (r.size - r.pos)).map fun i ↦ r.data (r.pos + i)

/-- The reader after consuming `n` bytes. -/
def BufferReader.advance (r : BufferReader) (n : Nat) : BufferReader := { r with pos := r.pos + n }

namespace BufferReader

@[simp] theorem length_rest (r : BufferReader) : r.rest.length = r.size - r.pos := by
  simp [rest]

/-- Consuming bytes drops them from the rest. -/
theorem rest_advance (r : BufferReader) (n : Nat) (h : n ≤ r.size - r.pos) :
    (r.advance n).rest = r.rest.drop n := by
  have hs : r.size - r.pos = n + (r.size - (r.pos + n)) := by omega
  rw [rest, rest, hs, List.range_add, List.map_append, List.drop_left' (by simp), List.map_map]
  simp [advance, Function.comp_def, Nat.add_assoc]

/-- Consuming a front part leaves the other part. -/
theorem rest_advance_append {r : BufferReader} {xs ys : List UInt8} (h : r.rest = xs ++ ys) :
    (r.advance xs.length).rest = ys := by
  have hl := congrArg List.length h
  rw [length_rest, List.length_append] at hl
  rw [rest_advance r _ (by omega), h, List.drop_left]

end BufferReader

/-- A reading step follows a parser: where the parser succeeds on the unread bytes the
step returns its value and consumes what the parser consumed, elsewhere it fails. -/
def Follows {α : Type} (m : Read α) (p : List UInt8 → Option (α × List UInt8)) : Prop :=
  ∀ r : BufferReader, r.ok = true → r.pos ≤ r.size →
    (∀ a rest, p r.rest = some (a, rest) →
      ∃ used, r.rest = used ++ rest ∧ m r = (some a, r.advance used.length)) ∧
    (p r.rest = none → (m r).1 = none)

namespace Follows

variable {α β : Type}

/-- A value that needs no bytes. -/
theorem pure (a : α) : Follows (Pure.pure a) fun bs ↦ some (a, bs) := by
  intro r _ _
  refine ⟨?_, fun h ↦ by cases h⟩
  intro b rest h
  obtain ⟨rfl, rfl⟩ := Prod.mk.inj (Option.some.inj h)
  exact ⟨[], rfl, rfl⟩

/-- A check on a value that was read. -/
theorem require (c : Bool) :
    Follows (BufferReader.require c) fun bs ↦ if c then some ((), bs) else none := by
  intro r _ _
  cases c
  · refine ⟨?_, fun _ ↦ rfl⟩
    intro a rest h
    cases h
  · refine ⟨?_, fun h ↦ by cases h⟩
    intro a rest h
    obtain ⟨_, rfl⟩ := Prod.mk.inj (Option.some.inj h)
    exact ⟨[], rfl, rfl⟩

/-- Steps in sequence follow the parsers in sequence. -/
theorem bind {m : Read α} {p : List UInt8 → Option (α × List UInt8)} {k : α → Read β}
    {q : α → List UInt8 → Option (β × List UInt8)} (hm : Follows m p)
    (hk : ∀ a, Follows (k a) (q a)) :
    Follows (m >>= k) fun bs ↦ (p bs).bind fun x ↦ q x.1 x.2 := by
  intro r hok hpos
  obtain ⟨hs, hn⟩ := hm r hok hpos
  dsimp only
  cases hp : p r.rest with
  | none =>
    refine ⟨by simp, fun _ ↦ ?_⟩
    exact Read.bind_of_none m k (hn hp)
  | some x =>
    obtain ⟨a, mid⟩ := x
    obtain ⟨used, hu, hmr⟩ := hs a mid hp
    have hbind := Read.bind_of_some m k hmr
    have hl := congrArg List.length hu
    rw [BufferReader.length_rest, List.length_append] at hl
    have hrest := BufferReader.rest_advance_append hu
    obtain ⟨hs', hn'⟩ := hk a (r.advance used.length) hok
      (by change r.pos + used.length ≤ r.size; omega)
    rw [hrest] at hs' hn'
    rw [hbind, Option.bind_some]
    refine ⟨?_, hn'⟩
    intro b rest hq
    obtain ⟨more, hmore, hkr⟩ := hs' b rest hq
    refine ⟨used ++ more, by rw [hu, hmore, List.append_assoc], ?_⟩
    rw [hkr, List.length_append]
    simp [BufferReader.advance, Nat.add_assoc]

/-- The same step followed by a function on its value. -/
theorem map {m : Read α} {p : List UInt8 → Option (α × List UInt8)} (hm : Follows m p)
    (g : α → β) : Follows (do return g (← m)) fun bs ↦ (p bs).map fun x ↦ (g x.1, x.2) := by
  have h := hm.bind (k := fun a ↦ Pure.pure (g a)) fun a ↦ pure (g a)
  simpa only [Option.map_eq_bind, Function.comp_def] using h

/-- A step that follows a parser follows an equal one. -/
theorem of_eq {m : Read α} {p q : List UInt8 → Option (α × List UInt8)} (hm : Follows m p)
    (h : ∀ bs, p bs = q bs) : Follows m q := by
  rwa [← funext h]

/-- A decoder whose steps follow a parser returns the parser's value on the whole buffer. -/
theorem run {m : Read α} {p : List UInt8 → Option (α × List UInt8)} (hm : Follows m p)
    (data : Memory) (size : Nat) :
    (m (BufferReader.new data size)).1 = (p (data.bytes size)).map Prod.fst := by
  have hr : (BufferReader.new data size).rest = data.bytes size := by
    simp [BufferReader.rest, BufferReader.new, Memory.bytes]
  obtain ⟨hs, hn⟩ := hm (BufferReader.new data size) rfl (Nat.zero_le _)
  rw [hr] at hs hn
  cases hp : p (data.bytes size) with
  | none => exact hn hp
  | some x =>
    obtain ⟨used, _, hm⟩ := hs x.1 x.2 hp
    rw [hm]
    rfl

end Follows

end LightningLink.Proto
