import LightningLink.Support.Lines

/-!
# Pipes with short writes

Library `Support`. A pipe carries symbols in order. A write may accept any first part of its
data, and a reader gets what was accepted in chunks of any size. When all data are lines, the
reader cuts lines that were written unless a line is accepted whole after another of which
only a part was accepted.
-/

namespace Support

/-- Data passed to a write, and how many symbols of it are accepted. -/
structure Write (α : Type) where
  data : List α
  accepted : Nat
  deriving DecidableEq

namespace Write

variable {α : Type}

/-- Symbols accepted. -/
def bytes (w : Write α) : List α := w.data.take w.accepted

/-- All data are accepted. -/
def Whole (w : Write α) : Prop := w.data.length ≤ w.accepted

/-- Some of the data are accepted and some are not. -/
def Short (w : Write α) : Prop := 0 < w.accepted ∧ w.accepted < w.data.length

instance (w : Write α) : Decidable w.Whole := inferInstanceAs (Decidable (_ ≤ _))

instance (w : Write α) : Decidable w.Short := inferInstanceAs (Decidable (_ ∧ _))

end Write

/-- No data are accepted whole after others of which a part was accepted. -/
def Untorn {α : Type} (ws : List (Write α)) : Prop := ws.Pairwise fun w w' ↦ w.Short → ¬w'.Whole

instance {α : Type} (ws : List (Write α)) : Decidable (Untorn ws) :=
  inferInstanceAs (Decidable (ws.Pairwise _))

/-- Data that end with the delimiter and have it nowhere else. -/
def Terminated {α : Type} (d : α) (data : List α) : Prop := ∃ l, data = l ++ [d] ∧ d ∉ l

section

variable {α : Type} {d : α} {w : Write α}

/-- A part of a line has no delimiter. -/
theorem Terminated.notMem_bytes (h : Terminated d w.data) (hw : ¬w.Whole) : d ∉ w.bytes := by
  obtain ⟨l, hdata, hl⟩ := h
  have hle : w.accepted ≤ l.length := by
    rw [Write.Whole, hdata, List.length_append, List.length_singleton] at hw
    omega
  rw [Write.bytes, hdata, List.take_append_of_le_length hle]
  exact fun hmem ↦ hl (List.mem_of_mem_take hmem)

/-- After a short write nothing that is written ends a line. -/
theorem notMem_bytes_of_short {ws : List (Write α)} (hws : ∀ w ∈ ws, Terminated d w.data)
    (h : ∀ w ∈ ws, ¬w.Whole) : d ∉ ws.flatMap Write.bytes := by
  rw [List.mem_flatMap, not_exists]
  rintro w ⟨hw, hd⟩
  exact (hws w hw).notMem_bytes (h w hw) hd

variable [DecidableEq α]

/-- The lines of an untorn stream are lines that were written, in order. -/
theorem lines_sublist {ws : List (Write α)} (hws : ∀ w ∈ ws, Terminated d w.data)
    (h : Untorn ws) :
    ((splitLines d (ws.flatMap Write.bytes)).1.map (· ++ [d])).Sublist (ws.map Write.data) := by
  induction ws with
  | nil => exact List.Sublist.refl _
  | cons w ws ih =>
    obtain ⟨hw, hrest⟩ := List.forall_mem_cons.mp hws
    obtain ⟨hshort, htail⟩ := List.pairwise_cons.mp h
    rw [List.flatMap_cons, List.map_cons]
    by_cases hwhole : w.Whole
    · obtain ⟨l, hdata, hl⟩ := hw
      have hbytes : w.bytes = l ++ [d] := by
        rw [Write.bytes, List.take_of_length_le hwhole, hdata]
      rw [hbytes, List.append_assoc, List.singleton_append, splitLines_line_append hl,
        List.map_cons, hdata]
      exact (ih hrest htail).cons_cons _
    · by_cases hnone : w.accepted = 0
      · have hbytes : w.bytes = [] := by
          rw [Write.bytes, hnone, List.take_zero]
        rw [hbytes, List.nil_append]
        exact (ih hrest htail).cons _
      · have hpart : w.Short := ⟨Nat.pos_of_ne_zero hnone, Nat.not_le.mp hwhole⟩
        -- No line ends any more.
        have hd : d ∉ w.bytes ++ ws.flatMap Write.bytes := by
          rw [List.mem_append, not_or]
          exact ⟨hw.notMem_bytes hwhole,
            notMem_bytes_of_short hrest fun w' hw' ↦ hshort w' hw' hpart⟩
        rw [splitLines_of_notMem hd]
        exact List.nil_sublist _

end

/-- All writes so far, and what is accepted but not yet read. -/
structure Pipe (α : Type) where
  writes : List (Write α)
  inFlight : List α

namespace Pipe

variable {α : Type} {d : α}

/-- Nothing has been written. -/
def empty : Pipe α := ⟨[], []⟩

/-- One write. -/
def write (p : Pipe α) (w : Write α) : Pipe α := ⟨p.writes ++ [w], p.inFlight ++ w.bytes⟩

/-- Several writes, with the number of symbols accepted of each. -/
def writeAll (accepted : Nat → Nat) (datas : List (List α)) (p : Pipe α) : Pipe α :=
  datas.zipIdx.foldl (fun p data ↦ p.write ⟨data.1, accepted data.2⟩) p

/-- Symbols that a read of at most `n` takes. -/
def front (p : Pipe α) (n : Nat) : List α := p.inFlight.take n

/-- What such a read leaves. -/
def drop (p : Pipe α) (n : Nat) : Pipe α := { p with inFlight := p.inFlight.drop n }

/-- A property of the data of all writes. -/
theorem forall_writes_writeAll {P : List α → Prop} {p : Pipe α}
    (h : ∀ w ∈ p.writes, P w.data) (accepted : Nat → Nat) {datas : List (List α)}
    (hdatas : ∀ data ∈ datas, P data) : ∀ w ∈ (p.writeAll accepted datas).writes, P w.data := by
  unfold writeAll
  have hidx : ∀ data ∈ datas.zipIdx, P data.1 :=
    fun data hmem ↦ hdatas _ (List.fst_mem_of_mem_zipIdx hmem)
  generalize datas.zipIdx = idx at *
  induction idx generalizing p with
  | nil => exact h
  | cons data idx ih =>
    obtain ⟨hdata, hidx⟩ := List.forall_mem_cons.mp hidx
    rw [List.foldl_cons]
    refine ih ?_ hidx
    rw [write, List.forall_mem_append]
    exact ⟨h, List.forall_mem_singleton.mpr hdata⟩

/-- The data of all writes after several more. -/
theorem map_data_writeAll (p : Pipe α) (accepted : Nat → Nat) (datas : List (List α)) :
    (p.writeAll accepted datas).writes.map Write.data = p.writes.map Write.data ++ datas := by
  have hidx (idx : List (List α × Nat)) (p : Pipe α) :
      (idx.foldl (fun p data ↦ p.write ⟨data.1, accepted data.2⟩) p).writes.map Write.data =
        p.writes.map Write.data ++ idx.map Prod.fst := by
    induction idx generalizing p with
    | nil => exact (List.append_nil _).symm
    | cons data idx ih =>
      rw [List.foldl_cons, ih, write, List.map_append, List.append_assoc]
      rfl
  rw [writeAll, hidx, List.zipIdx_map_fst]

/-- A reader has cut lines off a pipe and keeps some symbols after them. -/
def Framed (d : α) (p : Pipe α) (lines : List (List α)) (rest : List α) : Prop :=
  joinLines d lines ++ rest ++ p.inFlight = p.writes.flatMap Write.bytes ∧ ∀ l ∈ lines, d ∉ l

namespace Framed

variable {p : Pipe α} {lines : List (List α)} {rest : List α}

/-- Nothing has been written or read. -/
theorem empty : Framed d Pipe.empty [] [] := ⟨rfl, fun _ hl ↦ absurd hl List.not_mem_nil⟩

/-- A write does not concern the reader. -/
theorem write (h : Framed d p lines rest) (w : Write α) : Framed d (p.write w) lines rest := by
  refine ⟨?_, h.2⟩
  unfold Pipe.write
  dsimp only
  rw [← List.append_assoc, h.1, List.flatMap_append, List.flatMap_singleton]

/-- Nor do several. -/
theorem writeAll (h : Framed d p lines rest) (accepted : Nat → Nat) (datas : List (List α)) :
    Framed d (p.writeAll accepted datas) lines rest := by
  unfold Pipe.writeAll
  induction datas.zipIdx generalizing p with
  | nil => exact h
  | cons data idx ih => exact ih (h.write _)

/-- The reader takes symbols. -/
theorem read (h : Framed d p lines rest) (n : Nat) :
    Framed d (p.drop n) lines (rest ++ p.front n) := by
  refine ⟨?_, h.2⟩
  change _ = p.writes.flatMap Write.bytes
  rw [← h.1, front, drop, List.append_assoc, List.append_assoc, List.append_assoc,
    List.take_append_drop]

variable [DecidableEq α]

/-- The reader cuts off all lines that it has. -/
theorem split (h : Framed d p lines rest) :
    Framed d p (lines ++ (splitLines d rest).1) (splitLines d rest).2 := by
  constructor
  · rw [← h.1, joinLines_append]
    conv_rhs => rw [← joinLines_append_rest (d := d) rest]
    simp only [List.append_assoc]
  · rw [List.forall_mem_append]
    exact ⟨h.2, notMem_of_mem_lines rest⟩

/-- The reader cuts off the first line, if it has one. -/
theorem cut (h : Framed d p lines rest) {l rest' : List α} (hcut : cutLine d rest = some (l, rest')) :
    Framed d p (lines ++ [l]) rest' := by
  obtain ⟨hrest, hl⟩ := eq_of_cutLine hcut
  constructor
  · rw [← h.1, hrest, joinLines_append]
    simp [joinLines]
  · rw [List.forall_mem_append]
    exact ⟨h.2, List.forall_mem_singleton.mpr hl⟩

/-- The lines cut off an untorn pipe of lines are lines that were written, in order. -/
theorem sublist (h : Framed d p lines rest) (hw : ∀ w ∈ p.writes, Terminated d w.data)
    (hu : Untorn p.writes) : (lines.map (· ++ [d])).Sublist (p.writes.map Write.data) := by
  have hs := lines_sublist hw hu
  rw [← h.1, List.append_assoc, splitLines_joinLines_append h.2, List.map_append] at hs
  exact (List.sublist_append_left _ _).trans hs

end Framed
end Pipe
end Support
