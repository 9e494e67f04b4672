import LightningLink.Support.Lines
import Mathlib.Data.List.TakeWhile

/-!
# CSV logs

Library `Common`. Models `common/logging.cpp` over a `FILE` whose buffer the C library may write
out at any time. Calls are atomic under the mutex, so a sequence of calls stands for any
interleaving of the threads. Of a line `fputs` writes what stands before its first NUL, which
is all of a line without one. The source looks at no result of `fputs`, `fputc`, `fflush` and
`fclose`; they are assumed to succeed. Whatever has been written out is then the first part of
the lines that were written while the log was open, and after `flush` or `close` it is all of
them.
-/

namespace LightningLink

open Support

/-- What `fputs` writes of the `c_str()` of a string: nothing from the first NUL on. -/
def cStr (text : List Char) : List Char := text.takeWhile (· != '\x00')

/-- A string without NUL is written as it is. -/
theorem cStr_of_notMem {text : List Char} (h : '\x00' ∉ text) : cStr text = text :=
  List.takeWhile_eq_self_iff.mpr fun _ hc ↦ bne_iff_ne.mpr fun heq ↦ h (heq ▸ hc)

/-- `common/logging.hpp:12–32`. The buffer of `fp_` while it is open, and the file last opened. -/
structure CsvLog where
  buffer : Option (List Char)
  file : List Char

namespace CsvLog

/-- A log that has never been opened. -/
def init : CsvLog := ⟨none, []⟩

/-- `common/logging.cpp:16–31`. `ok` says whether `fopen` succeeds; it truncates the file. -/
def openFile (ok : Bool) (header : List Char) (l : CsvLog) : CsvLog × Bool :=
  match l.buffer with
  | some _ => (l, true)
  | none => if ok then (⟨some (cStr header ++ ['\n']), []⟩, true) else (l, false)

/-- `common/logging.cpp:33–38`. -/
def writeLine (line : List Char) (l : CsvLog) : CsvLog :=
  { l with buffer := l.buffer.map fun b ↦ b ++ cStr line ++ ['\n'] }

/-- `common/logging.cpp:40–43`. -/
def flush (l : CsvLog) : CsvLog :=
  match l.buffer with
  | some b => ⟨some [], l.file ++ b⟩
  | none => l

/-- `common/logging.cpp:45–51`. -/
def close (l : CsvLog) : CsvLog :=
  match l.buffer with
  | some b => ⟨none, l.file ++ b⟩
  | none => l

/-- The C library writes out a first part of the buffer. -/
def spill (n : Nat) (l : CsvLog) : CsvLog :=
  match l.buffer with
  | some b => ⟨some (b.drop n), l.file ++ b.take n⟩
  | none => l

/-- A call, or a transfer by the C library. -/
inductive Call
  | openFile (ok : Bool) (header : List Char)
  | writeLine (line : List Char)
  | flush
  | close
  | spill (n : Nat)

/-- State after a call. -/
def call (l : CsvLog) : Call → CsvLog
  | .openFile ok header => (l.openFile ok header).1
  | .writeLine line => l.writeLine line
  | .flush => l.flush
  | .close => l.close
  | .spill n => l.spill n

/-- State after a sequence of calls. -/
def run (l : CsvLog) (calls : List Call) : CsvLog := calls.foldl call l

end CsvLog

/-- What a log is for: the lines since it was last opened. -/
structure Journal where
  isOpen : Bool
  lines : List (List Char)

namespace Journal

/-- No lines. -/
def init : Journal := ⟨false, []⟩

/-- The lines as they are written, each up to its first NUL. -/
def text (j : Journal) : List Char := joinLines '\n' (j.lines.map cStr)

/-- Effect of a call. -/
def call (j : Journal) : CsvLog.Call → Journal
  | .openFile ok header => if !j.isOpen && ok then ⟨true, [header]⟩ else j
  | .writeLine line => if j.isOpen then { j with lines := j.lines ++ [line] } else j
  | .close => { j with isOpen := false }
  | _ => j

/-- State after a sequence of calls. -/
def run (j : Journal) (calls : List CsvLog.Call) : Journal := calls.foldl call j

end Journal

namespace CsvLog

/-- The file and the buffer hold the lines. -/
structure Refines (l : CsvLog) (j : Journal) : Prop where
  isOpen : l.buffer.isSome = j.isOpen
  text : l.file ++ l.buffer.getD [] = j.text

/-- Every call keeps the lines. -/
theorem Refines.call {l : CsvLog} {j : Journal} (h : Refines l j) (c : Call) :
    Refines (l.call c) (j.call c) := by
  obtain ⟨hopen, htext⟩ := h
  obtain ⟨buffer, file⟩ := l
  obtain ⟨isOpen, lines⟩ := j
  obtain rfl : buffer.isSome = isOpen := hopen
  cases buffer with
  | none =>
    cases c with
    | openFile ok header =>
      cases ok with
      | false => exact ⟨rfl, htext⟩
      | true =>
        refine ⟨rfl, ?_⟩
        simp [CsvLog.call, CsvLog.openFile, Journal.call, Journal.text, joinLines]
    | _ => exact ⟨rfl, htext⟩
  | some b =>
    cases c with
    | openFile ok header => exact ⟨rfl, htext⟩
    | writeLine line =>
      refine ⟨rfl, ?_⟩
      change file ++ b = joinLines '\n' (lines.map cStr) at htext
      change file ++ (b ++ cStr line ++ ['\n']) = joinLines '\n' ((lines ++ [line]).map cStr)
      rw [List.map_append, joinLines_append, ← htext, List.map_singleton, joinLines,
        List.flatMap_singleton, List.append_assoc, List.append_assoc]
    | flush => exact ⟨rfl, (List.append_nil _).trans htext⟩
    | close => exact ⟨rfl, (List.append_nil _).trans htext⟩
    | spill n =>
      refine ⟨rfl, ?_⟩
      change file ++ b.take n ++ b.drop n = _
      rw [List.append_assoc, List.take_append_drop]
      exact htext

/-- Every sequence of calls keeps the lines. -/
theorem Refines.run {l : CsvLog} {j : Journal} (h : Refines l j) (calls : List Call) :
    Refines (l.run calls) (j.run calls) := by
  induction calls generalizing l j with
  | nil => exact h
  | cons c calls ih => exact ih (h.call c)

/-- A line written to an open log, and written out. -/
theorem flush_writeLine {l : CsvLog} {text : List Char} (h : l.flush = ⟨some [], text⟩)
    (line : List Char) : (l.writeLine line).flush = ⟨some [], text ++ cStr line ++ ['\n']⟩ := by
  obtain ⟨buffer, file⟩ := l
  cases buffer with
  | none => cases h
  | some b =>
    obtain ⟨_, rfl⟩ := CsvLog.mk.inj h
    change (⟨some [], file ++ (b ++ cStr line ++ ['\n'])⟩ : CsvLog) = _
    rw [← List.append_assoc, ← List.append_assoc]

/-- What has been written out of an open log is a first part. -/
theorem file_prefix {l : CsvLog} {text : List Char} (h : l.flush = ⟨some [], text⟩) :
    l.file <+: text := by
  obtain ⟨buffer, file⟩ := l
  cases buffer with
  | none => cases h
  | some b =>
    obtain ⟨_, rfl⟩ := CsvLog.mk.inj h
    exact List.prefix_append _ _

/-- A log that has never been opened. -/
theorem refines_init : Refines init Journal.init := ⟨rfl, rfl⟩

/-- Whatever calls are made, by whichever threads, and whatever the C library has written out so
far, the file is a first part of the lines since the log was last opened, in their order and
each up to its first NUL, and after `flush` or `close` it is all of them. -/
theorem file_run (calls : List Call) :
    let l := init.run calls
    let j := Journal.init.run calls
    l.file <+: j.text ∧ l.flush.file = j.text ∧ l.close.file = j.text := by
  intro l j
  obtain ⟨_, htext⟩ := refines_init.run calls
  change l.file ++ l.buffer.getD [] = j.text at htext
  unfold flush close
  cases hb : l.buffer with
  | none =>
    rw [hb, Option.getD_none, List.append_nil] at htext
    exact ⟨htext ▸ List.prefix_rfl, htext, htext⟩
  | some b =>
    rw [hb, Option.getD_some] at htext
    exact ⟨htext ▸ List.prefix_append _ _, htext, htext⟩

end CsvLog
end LightningLink
