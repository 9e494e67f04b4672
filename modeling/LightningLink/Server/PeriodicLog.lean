import LightningLink.Baseline.Text
import LightningLink.Common.CsvLog
import LightningLink.Server.Accounting
import LightningLink.Support.Throttle

/-!
# Periodic log of the server

Library `Server`. Models `Server::do_periodic_log` (`server/server.cpp:147–161`) between the
steps of the server. The file has a line for the header and one for every second, each with the
exact counts of its moment, and can be read back.
-/

namespace LightningLink.Srv

open Support Proto Baseline

/-! ### Rows -/

/-- Numbers separated by commas. -/
def csvRow : List Nat → List Char
  | [] => []
  | [n] => writeNat n
  | n :: m :: ns => writeNat n ++ ',' :: csvRow (m :: ns)

/-- Numbers of a row. -/
def readRow (line : List Char) : List Nat :=
  let cut := splitLines ',' line
  (cut.1 ++ [cut.2]).map fun field ↦ Nat.ofDigitChars 10 field 0

/-- A written number has digits only. -/
theorem notMem_writeNat {c : Char} (hc : c.isDigit = false) (n : Nat) : c ∉ writeNat n := by
  intro h
  rw [Nat.isDigit_of_mem_toDigits (by decide) (by decide) h] at hc
  cases hc

/-- A row is read back. -/
theorem readRow_csvRow {ns : List Nat} (h : ns ≠ []) : readRow (csvRow ns) = ns := by
  have hnumber (n : Nat) : Nat.ofDigitChars 10 (writeNat n) 0 = n :=
    Nat.ofDigitChars_ten_toDigits
  unfold readRow
  induction ns with
  | nil => exact absurd rfl h
  | cons n ns ih =>
    cases ns with
    | nil =>
      rw [csvRow, splitLines_of_notMem (notMem_writeNat rfl n)]
      exact congrArg (fun x ↦ [x]) (hnumber n)
    | cons m ns =>
      rw [csvRow, splitLines_line_append (notMem_writeNat rfl n)]
      exact congrArg₂ List.cons (hnumber n) (ih (List.cons_ne_nil m ns))

/-- A row has digits and commas only. -/
theorem notMem_csvRow {c : Char} (hc : c.isDigit = false) (hcomma : c ≠ ',') (ns : List Nat) :
    c ∉ csvRow ns := by
  induction ns with
  | nil => exact List.not_mem_nil
  | cons n ns ih =>
    cases ns with
    | nil => exact notMem_writeNat hc n
    | cons m ns =>
      rw [csvRow, List.mem_append, List.mem_cons, not_or, not_or]
      exact ⟨notMem_writeNat hc n, hcomma, ih⟩

/-! ### The log -/

/-- `server/server.cpp:35–37`. -/
def logHeader : List Char :=
  ("wall_time_ms,server_tick,connected_players,bytes_sent_total," ++
    "snapshots_sent_total,input_packets_received_total").toList

/-- `LOG_FLUSH_SEC * 1000.0`. -/
def logFlushMs : UInt64 := 1000

/-- The server with `last_log_ms_` and `log_`. -/
structure LoggingServer (F : Type) where
  server : Server F
  lastLogMs : UInt64
  log : CsvLog

/-- The columns of a row after the time. -/
def Server.columns {F : Type} (s : Server F) : List Nat :=
  [s.world.tick.toNat, s.sessions.size, s.broadcaster.bytesSent.toNat,
    s.broadcaster.snapshotsSent.toNat, s.inputsReceivedTotal.toNat]

namespace LoggingServer

variable {F : Type}

/-- The server at the start of its loop, with its log open. -/
def start : LoggingServer F := ⟨Server.init, 0, (CsvLog.init.openFile true logHeader).1⟩

/-- `server/server.cpp:147–161`. -/
def doPeriodicLog (nowMs : UInt64) (s : LoggingServer F) : LoggingServer F :=
  if s.lastLogMs = 0 ∨ logFlushMs ≤ nowMs - s.lastLogMs then
    let row := csvRow (nowMs.toNat :: s.server.columns)
    { s with lastLogMs := nowMs, log := (s.log.writeLine row).flush }
  else s

variable [FloatArith F] [FloatBits F]

/-- A step of the server, or `do_periodic_log` at a clock reading. -/
def next (s : LoggingServer F) : Polled (Event F) → LoggingServer F
  | .step ev => { s with server := s.server.step ev }
  | .poll nowMs => s.doPeriodicLog nowMs

/-- State after a finite run. -/
def run (s : LoggingServer F) (evs : List (Polled (Event F))) : LoggingServer F := evs.foldl next s

/-- Lines of samples, after the header. -/
def linesOf (samples : List (UInt64 × List Nat)) : List (List Char) :=
  logHeader :: samples.map fun x ↦ csvRow (x.1.toNat :: x.2)

omit [FloatArith F] [FloatBits F] in
/-- One more sample is one more line. -/
theorem joinLines_concat (samples : List (UInt64 × List Nat)) (x : UInt64 × List Nat) :
    joinLines '\n' (linesOf (samples ++ [x])) =
      joinLines '\n' (linesOf samples) ++ csvRow (x.1.toNat :: x.2) ++ ['\n'] := by
  rw [linesOf, List.map_append, ← List.cons_append, joinLines_append, List.append_assoc]
  exact congrArg _ (List.append_nil _)

/-- The log is open, and holds samples once it is written out. -/
def Holds (s : LoggingServer F) (t : Throttle (Server F) (List Nat)) : Prop :=
  t.state = s.server ∧ t.last = s.lastLogMs ∧
    s.log.flush = ⟨some [], joinLines '\n' (linesOf t.samples)⟩

/-- The log follows the samples of the server. -/
theorem holds_run (evs : List (Polled (Event F))) :
    (start.run evs : LoggingServer F).Holds
      (Throttle.run Server.step logFlushMs Server.columns Server.init evs) := by
  induction evs using List.reverseRecOn with
  | nil => exact ⟨rfl, rfl, rfl⟩
  | append_singleton evs ev ih =>
    rw [Throttle.run_concat, run, List.foldl_append]
    obtain ⟨hstate, hlast, hlog⟩ := ih
    cases ev with
    | step ev => exact ⟨congrArg (Server.step · ev) hstate, hlast, hlog⟩
    | poll nowMs =>
      change (doPeriodicLog nowMs (start.run evs)).Holds
        ((Throttle.run Server.step logFlushMs Server.columns Server.init evs).poll logFlushMs
          Server.columns nowMs)
      unfold doPeriodicLog Throttle.poll
      rw [hlast, hstate]
      split
      · refine ⟨rfl, rfl, ?_⟩
        change CsvLog.flush (CsvLog.flush _) = _
        rw [CsvLog.flush_writeLine hlog, joinLines_concat,
          cStr_of_notMem (notMem_csvRow rfl (by decide) _)]
        exact congrArg (CsvLog.mk _) (List.append_nil _)
      · exact ⟨hstate, hlast, hlog⟩

end LoggingServer

/-! ### What the file says -/

/-- The columns of a row for the totals of a run, with the widths of the counters. -/
def Totals.columns (t : Totals) (players : Nat) : List Nat :=
  [t.ticks % 2 ^ 32, players, t.bytes % 2 ^ 64, t.broadcasts % 2 ^ 64, t.inputs.length % 2 ^ 64]

/-- The counters are written as they are. -/
theorem Server.Counted.columns_eq {F : Type} [FloatArith F] [FloatBits F] {s : Server F}
    {t : Totals} (h : s.Counted t) : s.columns = t.columns s.sessions.size := by
  unfold Server.columns Totals.columns
  rw [h.ticks, h.snapshotsSent, h.bytesSent, h.inputs, UInt32.toNat_ofNat', UInt64.toNat_ofNat',
    UInt64.toNat_ofNat', UInt64.toNat_ofNat']

section

variable [FloatArith F32]

/-- A row of the file: the time, and the exact counts of the run up to then. -/
def RowAt (x : UInt64 × List Nat) (past : List (Polled (Event F32))) : Prop :=
  let done := Throttle.steps past
  x.2 = (totals done).columns (Server.init.run done : Server F32).sessions.size

/-- Cutting the file at its newlines and its rows at their commas yields the header and one row
for every sample. The samples are of first parts of the run, in order, each with the exact
counts at its time. Two readings that follow each other are a second apart unless the clock has
gone back or the first of them is 0, and at every reading a row is there, of it or of one before,
that is less than a second old in unsigned arithmetic. -/
theorem LoggingServer.log_run (evs : List (Polled (Event F32))) :
    let s : LoggingServer F32 := start.run evs
    ∃ samples pasts, s.log.file <+: s.log.flush.file ∧
      splitLines '\n' s.log.flush.file = (linesOf samples, []) ∧
      ((linesOf samples).tail.map readRow = samples.map fun x ↦ x.1.toNat :: x.2) ∧
      List.Forall₂ RowAt samples pasts ∧
      Throttle.Samples Server.step logFlushMs Server.columns Server.init evs
        ⟨s.server, s.lastLogMs, samples⟩ pasts := by
  intro s
  let columns : Server F32 → List Nat := Server.columns
  let t := Throttle.run Server.step logFlushMs columns Server.init evs
  obtain ⟨hstate, hlast, hlog⟩ := holds_run (F := F32) evs
  have hperiod : 0 < logFlushMs := by decide
  obtain ⟨pasts, hsamples⟩ : ∃ pasts, Throttle.Samples Server.step logFlushMs columns Server.init
      evs t pasts := Throttle.exists_samples hperiod evs
  have hfile : s.log.flush.file = joinLines '\n' (linesOf t.samples) := congrArg CsvLog.file hlog
  refine ⟨t.samples, pasts, hfile ▸ CsvLog.file_prefix hlog, ?_, ?_, ?_, ?_⟩
  · rw [hfile, ← List.append_nil (joinLines _ _), splitLines_joinLines_append]
    · rw [show splitLines '\n' [] = ([], []) from rfl, List.append_nil]
    · intro line hline
      rcases List.mem_cons.mp hline with rfl | hline
      · decide
      · obtain ⟨x, _, rfl⟩ := List.mem_map.mp hline
        exact notMem_csvRow rfl (by decide) _
  · rw [linesOf, List.tail_cons, List.map_map]
    exact List.map_congr_left fun x _ ↦ readRow_csvRow (List.cons_ne_nil _ _)
  · refine hsamples.taken.imp fun x past htaken ↦ ?_
    have hcounted := Server.counted_reached (Throttle.steps past)
    rw [ValidServer.server_reached] at hcounted
    exact htaken.2.trans hcounted.columns_eq
  · have ht : t = ⟨s.server, s.lastLogMs, t.samples⟩ := by
      rw [← hstate, ← hlast]
    exact ht ▸ hsamples

end
end LightningLink.Srv
