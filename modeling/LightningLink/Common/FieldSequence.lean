import LightningLink.Common.Codec
import Mathlib.Data.List.GetD

/-!
# Sequences of fields

Library `Common`. What an arbitrary sequence of `put_*` or `get_*` calls does. The calls before
the first one that does not fit succeed. All later ones fail, also those of narrower fields,
because the flag of the buffer is sticky.
-/

namespace LightningLink.Proto

open Support

/-! ### Fields -/

/-- The kinds of fields that have a `put_*` and a `get_*` function. -/
inductive Kind
  | u8
  | u16
  | u32
  | i8
  | f32
  deriving DecidableEq, Repr

namespace Kind

/-- Values of a kind. -/
def Val : Kind → Type
  | u8 => UInt8
  | u16 => UInt16
  | u32 => UInt32
  | i8 => Int8
  | f32 => F32

/-- Bytes that a field takes. -/
def width : Kind → Nat
  | u8 => 1
  | u16 => 2
  | u32 => 4
  | i8 => 1
  | f32 => 4

/-- Big-endian format of a kind. -/
def format : (k : Kind) → Format k.Val
  | u8 => Proto.u8
  | u16 => Proto.u16
  | u32 => Proto.u32
  | i8 => Proto.i8
  | f32 => Proto.f32

/-- Every value of a kind is written in its width. -/
theorem length_write (k : Kind) (v : k.Val) : (k.format.write v).length = k.width := by
  cases k <;> exact length_toBE _ _

private theorem isSome_parse_word {α : Type} {w : Nat} {num : α → Nat} {ofNum : Nat → α} {h1 h2 h3}
    {bs : List UInt8} (h : w ≤ bs.length) :
    ((Format.word w num ofNum h1 h2 h3).parse bs).isSome = true := by
  simp [Format.word, h]

/-- Enough bytes are parsed. -/
theorem isSome_parse (k : Kind) {bs : List UInt8} (h : k.width ≤ bs.length) :
    (k.format.parse bs).isSome = true := by
  cases k with
  | u8 =>
    show (Proto.u8.parse bs).isSome = true
    exact isSome_parse_word h
  | u16 =>
    show (Proto.u16.parse bs).isSome = true
    exact isSome_parse_word h
  | u32 =>
    show (Proto.u32.parse bs).isSome = true
    exact isSome_parse_word h
  | i8 =>
    have hu : (Proto.u8.parse bs).isSome = true := isSome_parse_word h
    exact Option.isSome_map.trans hu
  | f32 =>
    have hu : (Proto.u32.parse bs).isSome = true := isSome_parse_word h
    exact Option.isSome_map.trans hu

end Kind

/-- A value with its kind. -/
abbrev Field : Type := (k : Kind) × k.Val

/-- Bytes of a field on the wire. -/
def Field.bytes (f : Field) : List UInt8 := f.1.format.write f.2

/-- Sum of the widths. -/
def widths (ks : List Kind) : Nat := (ks.map Kind.width).sum

@[simp] theorem widths_nil : widths [] = 0 := rfl

@[simp] theorem widths_cons (k : Kind) (ks : List Kind) :
    widths (k :: ks) = k.width + widths ks := by
  simp [widths]

/-- The bytes of fields are as many as their widths. -/
theorem length_flatMap_bytes (fs : List Field) :
    (fs.flatMap Field.bytes).length = widths (fs.map Sigma.fst) := by
  induction fs with
  | nil => rfl
  | cons f fs ih => simp [ih, Field.bytes, Kind.length_write]

/-- Fields of the same kinds with the same bytes are the same. -/
theorem flatMap_bytes_inj {fs gs : List Field} (hk : fs.map Sigma.fst = gs.map Sigma.fst)
    (h : fs.flatMap Field.bytes = gs.flatMap Field.bytes) : fs = gs := by
  induction fs generalizing gs with
  | nil => exact (List.map_eq_nil_iff.mp hk.symm).symm
  | cons f fs ih =>
    cases gs with
    | nil => cases hk
    | cons g gs =>
      cases f with
      | mk k v =>
        cases g with
        | mk k' v' =>
          simp only [List.map_cons, List.cons.injEq] at hk
          cases hk.1
          simp only [List.flatMap_cons, Field.bytes] at h
          have hparse := congrArg k.format.parse h
          rw [k.format.parse_write, k.format.parse_write] at hparse
          simp only [Option.some.injEq, Prod.mk.injEq] at hparse
          rw [hparse.1, ih hk.2 hparse.2]

/-! ### The part that fits -/

/-- Kinds before the first one that does not fit. -/
def fitting : Nat → List Kind → List Kind
  | _, [] => []
  | room, k :: ks => if k.width ≤ room then k :: fitting (room - k.width) ks else []

/-- The longest first part whose widths are within the room. -/
structure Longest (room : Nat) (ks done : List Kind) : Prop where
  front : done <+: ks
  fits : widths done ≤ room
  longest : ∀ first, first <+: ks → widths first ≤ room → first <+: done

theorem longest_fitting (room : Nat) (ks : List Kind) : Longest room ks (fitting room ks) := by
  induction ks generalizing room with
  | nil =>
    constructor
    · exact List.prefix_rfl
    · exact Nat.zero_le room
    · intro first hfirst _
      exact hfirst
  | cons k ks ih =>
    rw [fitting]
    by_cases hk : k.width ≤ room
    · rw [if_pos hk]
      have h := ih (room - k.width)
      constructor
      · exact List.cons_prefix_cons.mpr ⟨rfl, h.front⟩
      · have := h.fits
        rw [widths_cons]
        omega
      · intro first hfirst hw
        cases first with
        | nil => exact List.nil_prefix
        | cons k' first =>
          rw [List.cons_prefix_cons] at hfirst
          rw [widths_cons, hfirst.1] at hw
          rw [hfirst.1]
          exact List.cons_prefix_cons.mpr ⟨rfl, h.longest first hfirst.2 (by omega)⟩
    · rw [if_neg hk]
      constructor
      · exact List.nil_prefix
      · exact Nat.zero_le room
      · intro first hfirst hw
        cases first with
        | nil => exact List.prefix_rfl
        | cons k' first =>
          rw [List.cons_prefix_cons] at hfirst
          rw [widths_cons, hfirst.1] at hw
          omega

/-- Everything fits exactly where the widths are within the room. -/
theorem fitting_eq_iff (room : Nat) (ks : List Kind) : fitting room ks = ks ↔ widths ks ≤ room := by
  constructor
  · intro h
    have := (longest_fitting room ks).fits
    rwa [h] at this
  · intro h
    have hl := longest_fitting room ks
    exact hl.front.eq_of_length_le (hl.longest ks List.prefix_rfl h).length_le

/-! ### Writing -/

namespace Memory

/-- A copy right behind another one continues it. -/
theorem write_write (data : Memory) (pos : Nat) (bs cs : List UInt8) :
    (data.write pos bs).write (pos + bs.length) cs = data.write pos (bs ++ cs) := by
  funext i
  unfold write
  rw [List.length_append]
  by_cases hi : pos ≤ i ∧ i < pos + (bs.length + cs.length)
  · rw [if_pos hi]
    by_cases hb : i < pos + bs.length
    · rw [if_neg (by omega), if_pos (by omega), List.getD_append _ _ _ _ (by omega)]
    · rw [if_pos (by omega), List.getD_append_right _ _ _ _ (by omega)]
      congr 1
      omega
  · rw [if_neg hi, if_neg (by omega), if_neg (by omega)]

/-- Copying nothing changes nothing. -/
@[simp] theorem write_nil (data : Memory) (pos : Nat) : data.write pos [] = data := by
  funext i
  unfold write
  rw [if_neg (by rw [List.length_nil]; omega)]

end Memory

namespace BufferWriter

/-- The `put_*` function of a kind. -/
def put (w : BufferWriter) : Field → Bool × BufferWriter
  | ⟨.u8, v⟩ => w.putU8 v
  | ⟨.u16, v⟩ => w.putU16 v
  | ⟨.u32, v⟩ => w.putU32 v
  | ⟨.i8, v⟩ => w.putI8 v
  | ⟨.f32, v⟩ => w.putF32 (F := F32) v

/-- One call after another, with their results. -/
def putAll (w : BufferWriter) : List Field → List Bool × BufferWriter
  | [] => ([], w)
  | f :: fs =>
    let r := w.put f
    let rest := r.2.putAll fs
    (r.1 :: rest.1, rest.2)

/-- Every `put_*` function copies the bytes of its format. -/
theorem put_eq (w : BufferWriter) (f : Field) : w.put f = w.putBytes f.bytes := by
  cases f with
  | mk k v =>
    cases k with
    | u8 => exact congrArg w.putBytes (u8_write v).symm
    | i8 => exact congrArg w.putBytes (u8_write v.toUInt8).symm
    | u16 => rfl
    | u32 => rfl
    | f32 => rfl

theorem put_of_le (w : BufferWriter) (f : Field) (hok : w.ok = true)
    (h : w.pos + f.1.width ≤ w.cap) :
    w.put f = (true, { w with
      data := w.data.write w.pos f.bytes
      pos := w.pos + f.1.width }) := by
  have hlen : f.bytes.length = f.1.width := f.1.length_write f.2
  rw [put_eq, putBytes, if_neg (by simp [hok, hlen, h]), hlen]

theorem put_of_lt (w : BufferWriter) (f : Field) (h : w.cap < w.pos + f.1.width) :
    w.put f = (false, { w with ok := false }) := by
  have hlen : f.bytes.length = f.1.width := f.1.length_write f.2
  rw [put_eq, putBytes, if_pos (by simp [hlen, h])]

/-- After a failure every call fails and writes nothing. -/
theorem putAll_of_failed (w : BufferWriter) (fs : List Field) (h : w.ok = false) :
    w.putAll fs = (List.replicate fs.length false, w) := by
  induction fs with
  | nil => rfl
  | cons f fs ih =>
    have hput : w.put f = (false, w) := by
      rw [put_eq, putBytes, if_pos (by simp [h]), ← h]
    rw [putAll, hput]
    simp [ih, List.replicate_succ]

/-- A sequence of calls on a writer that has not failed. -/
theorem putAll_spec (w : BufferWriter) (fs : List Field) (hok : w.ok = true)
    (hpos : w.pos ≤ w.cap) :
    let done := fitting (w.cap - w.pos) (fs.map Sigma.fst)
    w.putAll fs =
      (List.replicate done.length true ++ List.replicate (fs.length - done.length) false,
        { w with
          data := w.data.write w.pos ((fs.take done.length).flatMap Field.bytes)
          pos := w.pos + widths done
          ok := widths (fs.map Sigma.fst) ≤ w.cap - w.pos }) := by
  induction fs generalizing w with
  | nil =>
    have hw : w = { w with ok := true } := by rw [← hok]
    simpa [putAll, fitting] using hw
  | cons f fs ih =>
    intro done
    by_cases hf : w.pos + f.1.width ≤ w.cap
    · have hdone : done = f.1 :: fitting (w.cap - (w.pos + f.1.width)) (fs.map Sigma.fst) := by
        show fitting _ (f.1 :: fs.map Sigma.fst) = _
        rw [fitting, if_pos (by omega), Nat.sub_sub]
      have hrest := ih { w with
        data := w.data.write w.pos f.bytes
        pos := w.pos + f.1.width } hok hf
      have hlen : f.bytes.length = f.1.width := f.1.length_write f.2
      rw [putAll, put_of_le w f hok hf]
      simp only [hrest, hdone]
      rw [← hlen, Memory.write_write, hlen]
      have hwidths : widths (fs.map Sigma.fst) ≤ w.cap - (w.pos + f.1.width) ↔
          f.1.width + widths (fs.map Sigma.fst) ≤ w.cap - w.pos := by omega
      simp [List.replicate_succ, Nat.add_assoc, hwidths]
    · have hdone : done = [] := by
        show fitting _ (f.1 :: fs.map Sigma.fst) = _
        rw [fitting, if_neg (by omega)]
      rw [putAll, put_of_lt w f (by omega)]
      simp only [hdone]
      rw [putAll_of_failed _ _ rfl]
      have hwidths : ¬f.1.width + widths (fs.map Sigma.fst) ≤ w.cap - w.pos := by omega
      simp [List.replicate_succ, hwidths]

/-- A sequence of calls on a writer at the start of a buffer. -/
theorem putAll_new (data : Memory) (cap : Nat) (fs : List Field) :
    let done := fitting cap (fs.map Sigma.fst)
    (new data cap).putAll fs =
      (List.replicate done.length true ++ List.replicate (fs.length - done.length) false,
        ⟨data.write 0 ((fs.take done.length).flatMap Field.bytes), cap, widths done,
          widths (fs.map Sigma.fst) ≤ cap⟩) := by
  intro done
  rw [putAll_spec (new data cap) fs rfl (Nat.zero_le cap)]
  simp [new, done]

/-- The fields that fit have the width of their kinds. -/
theorem length_bytes_fitting (cap : Nat) (fs : List Field) :
    ((fs.take (fitting cap (fs.map Sigma.fst)).length).flatMap Field.bytes).length =
      widths (fitting cap (fs.map Sigma.fst)) := by
  rw [length_flatMap_bytes, List.map_take,
    ← List.prefix_iff_eq_take.mp (longest_fitting cap (fs.map Sigma.fst)).front]

/-- The bytes written, and the memory behind them. -/
theorem bytes_putAll_new (data : Memory) (cap : Nat) (fs : List Field) :
    let done := fitting cap (fs.map Sigma.fst)
    let w := ((new data cap).putAll fs).2
    w.data.bytes w.pos = (fs.take done.length).flatMap Field.bytes ∧
      ∀ i, w.pos ≤ i → w.data i = data i := by
  intro done w
  have hlen := length_bytes_fitting cap fs
  simp only [w, putAll_new]
  constructor
  · have hwrite := data.bytes_write 0 ((fs.take done.length).flatMap Field.bytes)
    rw [hlen, Nat.zero_add] at hwrite
    exact hwrite
  · intro i hi
    apply data.write_outside
    right
    rw [hlen, Nat.zero_add]
    exact hi

end BufferWriter

/-! ### Reading -/

namespace BufferReader

/-- `remaining()`; `common/serialization.hpp:46`. -/
def remaining (r : BufferReader) : Nat := r.size - r.pos

/-- The `get_*` function of a kind. -/
def get : (k : Kind) → Read k.Val
  | .u8 => getU8
  | .u16 => getU16
  | .u32 => getU32
  | .i8 => getI8
  | .f32 => getF32 (F := F32)

/-- One call after another, with the values that they read. -/
def getAll (r : BufferReader) : List Kind → List (Option Field) × BufferReader
  | [] => ([], r)
  | k :: ks =>
    let v := get k r
    let rest := v.2.getAll ks
    (v.1.map (Sigma.mk k) :: rest.1, rest.2)

/-- Every `get_*` function follows the format of its kind. -/
theorem follows_get (k : Kind) : Follows (get k) k.format.parse := by
  cases k with
  | u8 => exact follows_getU8
  | u16 => exact follows_getU16
  | u32 => exact follows_getU32
  | i8 => exact follows_getI8
  | f32 => exact follows_getF32

/-- A field that fits is read. -/
theorem get_of_le (k : Kind) (r : BufferReader) (hok : r.ok = true)
    (h : r.pos + k.width ≤ r.size) :
    ∃ v, get k r = (some v, r.advance k.width) ∧
      r.rest = Field.bytes ⟨k, v⟩ ++ (r.advance k.width).rest := by
  have hlen : k.width ≤ r.rest.length := by
    rw [length_rest]
    omega
  obtain ⟨⟨v, rest⟩, hp⟩ := Option.isSome_iff_exists.mp (k.isSome_parse hlen)
  obtain ⟨used, hused, hget⟩ := (follows_get k r hok (by omega)).1 v rest hp
  have hbytes := k.format.write_of_parse hp
  have hu : used = k.format.write v := List.append_cancel_right (hused.symm.trans hbytes)
  rw [hu, k.length_write] at hget
  refine ⟨v, hget, ?_⟩
  have hrest := rest_advance_append (hbytes.trans rfl)
  rw [k.length_write] at hrest
  rw [hrest]
  exact hbytes

private theorem getBytes_of_not (n : Nat) (r : BufferReader)
    (h : r.ok = false ∨ r.size < r.pos + n) : getBytes n r = (none, { r with ok := false }) := by
  unfold getBytes
  rw [if_pos (by simpa using h)]

private theorem map_of_none {α β : Type} {m : Read α} {r r' : BufferReader} (g : α → β)
    (h : m r = (none, r')) : (do return g (← m) : Read β) r = (none, r') := by
  simp only [bind, h]

/-- A field that does not fit is not read, and after a failure none is. -/
theorem get_of_not (k : Kind) (r : BufferReader) (h : r.ok = false ∨ r.size < r.pos + k.width) :
    get k r = (none, { r with ok := false }) := by
  cases k with
  | u8 => exact map_of_none _ (getBytes_of_not 1 r h)
  | u16 => exact map_of_none _ (getBytes_of_not 2 r h)
  | u32 => exact map_of_none _ (getBytes_of_not 4 r h)
  | i8 => exact map_of_none _ (map_of_none _ (getBytes_of_not 1 r h))
  | f32 => exact map_of_none _ (map_of_none _ (getBytes_of_not 4 r h))

theorem getAll_of_failed (r : BufferReader) (ks : List Kind) (h : r.ok = false) :
    r.getAll ks = (List.replicate ks.length none, r) := by
  have hr : { r with ok := false } = r := by rw [← h]
  induction ks with
  | nil => rfl
  | cons k ks ih =>
    rw [getAll, get_of_not k r (Or.inl h), hr]
    simp [ih, List.replicate_succ]

/-- A sequence of calls on a reader that has not failed. -/
theorem getAll_spec (r : BufferReader) (ks : List Kind) (hok : r.ok = true)
    (hpos : r.pos ≤ r.size) :
    let done := fitting (r.size - r.pos) ks
    ∃ fs : List Field, fs.map Sigma.fst = done ∧
      r.rest = fs.flatMap Field.bytes ++ (r.advance (widths done)).rest ∧
      r.getAll ks = (fs.map some ++ List.replicate (ks.length - done.length) none,
        { r with
          pos := r.pos + widths done
          ok := widths ks ≤ r.size - r.pos }) := by
  induction ks generalizing r with
  | nil =>
    intro done
    have hr : r = { r with ok := true } := by rw [← hok]
    refine ⟨[], rfl, rfl, ?_⟩
    simpa [getAll, done, fitting] using hr
  | cons k ks ih =>
    intro done
    by_cases hk : r.pos + k.width ≤ r.size
    · have hdone : done = k :: fitting (r.size - (r.pos + k.width)) ks := by
        show fitting _ (k :: ks) = _
        rw [fitting, if_pos (by omega), Nat.sub_sub]
      obtain ⟨v, hget, hrest⟩ := get_of_le k r hok hk
      obtain ⟨fs, hkinds, hbytes, hall⟩ := ih (r.advance k.width) hok hk
      refine ⟨⟨k, v⟩ :: fs, ?_, ?_, ?_⟩
      · rw [List.map_cons, hkinds, hdone]
        rfl
      · rw [hrest, hbytes, hdone]
        simp [advance, Nat.add_assoc]
      · rw [getAll, hget, hdone]
        simp only [hall]
        have hwidths : widths ks ≤ r.size - (r.pos + k.width) ↔
            k.width + widths ks ≤ r.size - r.pos := by omega
        simp [advance, Nat.add_assoc, hwidths]
    · have hdone : done = [] := by
        show fitting _ (k :: ks) = _
        rw [fitting, if_neg (by omega)]
      refine ⟨[], by rw [hdone]; rfl, by rw [hdone]; rfl, ?_⟩
      rw [getAll, get_of_not k r (Or.inr (by omega)), hdone]
      simp only
      rw [getAll_of_failed _ _ rfl]
      have hwidths : ¬k.width + widths ks ≤ r.size - r.pos := by omega
      simp [List.replicate_succ, hwidths]

/-- A sequence of calls on a reader at the start of a buffer. -/
theorem getAll_new (data : Memory) (size : Nat) (ks : List Kind) :
    let done := fitting size ks
    ∃ fs : List Field, fs.map Sigma.fst = done ∧
      fs.flatMap Field.bytes = data.bytes (widths done) ∧
      (new data size).getAll ks = (fs.map some ++ List.replicate (ks.length - done.length) none,
        ⟨data, size, widths done, widths ks ≤ size⟩) := by
  intro done
  obtain ⟨fs, hkinds, hbytes, hall⟩ := getAll_spec (new data size) ks rfl (Nat.zero_le size)
  refine ⟨fs, hkinds, ?_, ?_⟩
  · have hrest : (new data size).rest = data.bytes size := by
      simp [rest, new, Memory.bytes]
    have hfits := (longest_fitting size ks).fits
    have hsplit := data.bytes_add (widths done) (size - widths done)
    rw [Nat.add_sub_cancel' hfits, ← hrest, hbytes] at hsplit
    apply List.append_inj_left hsplit
    rw [length_flatMap_bytes, hkinds, Memory.length_bytes]
    rfl
  · rw [hall]
    simp [new, done]

/-- What is read depends on the bytes below the size only. -/
theorem getAll_congr (data other : Memory) (size : Nat) (ks : List Kind)
    (h : ∀ i, i < size → other i = data i) :
    ((new other size).getAll ks).1 = ((new data size).getAll ks).1 := by
  obtain ⟨fs, hkinds, hbytes, hall⟩ := getAll_new data size ks
  obtain ⟨gs, hkinds', hbytes', hall'⟩ := getAll_new other size ks
  have hfits := (longest_fitting size ks).fits
  have hsame : other.bytes (widths (fitting size ks)) = data.bytes (widths (fitting size ks)) := by
    apply Memory.bytes_congr
    intro i hi
    exact h i (by omega)
  have heq : gs = fs := by
    apply flatMap_bytes_inj
    · rw [hkinds, hkinds']
    · rw [hbytes, hbytes', hsame]
  rw [hall, hall', heq]

end BufferReader

/-! ### Both -/

/-- What an `ok` writer has written is read back. -/
theorem getAll_putAll (data : Memory) (cap : Nat) (fs : List Field)
    (hfit : widths (fs.map Sigma.fst) ≤ cap) :
    let w := ((BufferWriter.new data cap).putAll fs).2
    let r := (BufferReader.new w.data w.pos).getAll (fs.map Sigma.fst)
    r.1 = fs.map some ∧ r.2.ok = true ∧ r.2.remaining = 0 := by
  intro w r
  have hdone := (fitting_eq_iff cap (fs.map Sigma.fst)).mpr hfit
  have hpos : w.pos = widths (fs.map Sigma.fst) := by
    simp only [w, BufferWriter.putAll_new, hdone]
  have hbytes : w.data.bytes w.pos = fs.flatMap Field.bytes := by
    have hwritten := (BufferWriter.bytes_putAll_new data cap fs).1
    rwa [hdone, List.length_map, List.take_length] at hwritten
  obtain ⟨gs, hkinds, hgs, hall⟩ := BufferReader.getAll_new w.data w.pos (fs.map Sigma.fst)
  have hread : fitting w.pos (fs.map Sigma.fst) = fs.map Sigma.fst := by
    rw [fitting_eq_iff, hpos]
  rw [hread] at hkinds hgs hall
  rw [← hpos, hbytes] at hgs
  simp only [r, hall]
  rw [flatMap_bytes_inj hkinds hgs]
  simp [BufferReader.remaining, hpos]

/-- One law for every sequence of fields. The calls that precede the first field that does not
fit succeed, and no other. What an `ok` writer has written is read back. -/
theorem fields_law :
    (∀ (data : Memory) (cap : Nat) (fs : List Field),
      let done := fitting cap (fs.map Sigma.fst)
      let r := (BufferWriter.new data cap).putAll fs
      Longest cap (fs.map Sigma.fst) done ∧
      r.1 = List.replicate done.length true ++ List.replicate (fs.length - done.length) false ∧
      (r.2.ok = true ↔ widths (fs.map Sigma.fst) ≤ cap) ∧
      (r.2.pos = widths done ∧ r.2.pos ≤ cap) ∧
      r.2.data.bytes r.2.pos = (fs.take done.length).flatMap Field.bytes ∧
      ∀ i, r.2.pos ≤ i → r.2.data i = data i) ∧
    (∀ (data : Memory) (size : Nat) (ks : List Kind),
      let done := fitting size ks
      let r := (BufferReader.new data size).getAll ks
      Longest size ks done ∧
      (∃ fs : List Field, fs.map Sigma.fst = done ∧
        fs.flatMap Field.bytes = data.bytes (widths done) ∧
        r.1 = fs.map some ++ List.replicate (ks.length - done.length) none) ∧
      (r.2.ok = true ↔ widths ks ≤ size) ∧
      (r.2.pos = widths done ∧ r.2.pos ≤ size) ∧
      ∀ other : Memory, (∀ i, i < size → other i = data i) →
        ((BufferReader.new other size).getAll ks).1 = r.1) ∧
    ∀ (data : Memory) (cap : Nat) (fs : List Field),
      let w := ((BufferWriter.new data cap).putAll fs).2
      let r := (BufferReader.new w.data w.pos).getAll (fs.map Sigma.fst)
      w.ok = true → r.1 = fs.map some ∧ r.2.ok = true ∧ r.2.remaining = 0 := by
  refine ⟨fun data cap fs ↦ ?_, fun data size ks ↦ ?_, fun data cap fs ↦ ?_⟩
  · intro done r
    have hlongest := longest_fitting cap (fs.map Sigma.fst)
    have hr : r = _ := BufferWriter.putAll_new data cap fs
    have hbytes := BufferWriter.bytes_putAll_new data cap fs
    refine ⟨hlongest, ?_, ?_, ⟨?_, ?_⟩, hbytes⟩
    · rw [hr]
    · rw [hr]
      exact decide_eq_true_iff
    · rw [hr]
    · rw [hr]
      exact hlongest.fits
  · intro done r
    obtain ⟨gs, hkinds, hbytes, hall⟩ := BufferReader.getAll_new data size ks
    have hlongest := longest_fitting size ks
    have hr : r = _ := hall
    rw [hr]
    refine ⟨hlongest, ⟨gs, hkinds, hbytes, rfl⟩, by simp, ⟨rfl, hlongest.fits⟩, ?_⟩
    intro other hother
    rw [BufferReader.getAll_congr data other size ks hother, hall]
  · intro w r hok
    apply getAll_putAll data cap fs
    simp only [w, BufferWriter.putAll_new] at hok
    exact of_decide_eq_true hok

end LightningLink.Proto
