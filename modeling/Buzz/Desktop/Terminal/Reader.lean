import Buzz.Desktop.Terminal.Units
import Mathlib.Data.List.Infix
import Mathlib.Data.List.TakeDrop

/-!
# The feeder

`Feeder` of `buzz-terminal/src/reader.rs` around the `Processor` of `vte`. The byte parser of `vte`
is a parameter; of the processor it is assumed that a byte is buffered if and only if a synchronized
update is open at that byte, and that the buffer is parsed when the update ends.

## Main definitions

* `Vte`, `Processor`: the parser below the fences.
* `Feeder.advanceSlice`, `Feeder.drain`, `Feeder.enqueue`.
* `Feeder.run`: a sequence of calls.

## Main results

* `Feeder.drainLoop_induct`: induction over the slices of a drain.
* `Feeder.drain_bytes`, `Feeder.drain_spent`: a drain passes on what it takes from the tail, and
  leaves a tail only when the budget is spent.
-/

namespace Buzz.Desktop.Terminal

open Buzz.Library

variable {π : Type}

/-! ### The processor -/

/-- What one byte does to the parser. -/
structure Parsed (π σ : Type) where
  state : σ
  calls : List (Callback π)
  beginsUpdate : Bool

/-- The byte parser. -/
structure Vte (π : Type) where
  State : Type
  new : State
  advance : State → UInt8 → Parsed π State

/-- `ESC [ ? 2026 l`, the end of a synchronized update. -/
def ESU : List UInt8 := [ESC, 0x5b, 0x3f, 0x32, 0x30, 0x32, 0x36, 0x6c]

def Vte.parseAll (V : Vte π) : V.State → List UInt8 → V.State × List (Callback π)
  | s, [] => (s, [])
  | s, b :: bytes =>
    let parsed := V.advance s b
    let rest := V.parseAll parsed.state bytes
    (rest.1, parsed.calls ++ rest.2)

/-- `Processor`: the parser, and what a synchronized update has buffered while it is open. -/
structure Processor (V : Vte π) where
  state : V.State
  update : Option (List UInt8)

variable {V : Vte π} {H : Handler π}

namespace Processor

/-- `Processor::new()`. -/
def new : Processor V := ⟨V.new, none⟩

/-- `sync_bytes_count`. -/
def syncBytesCount (p : Processor V) : ℕ := (p.update.getD []).length

/-- Parse what an update has buffered and end it. -/
def release (p : Processor V) (c : Counting H) (buffer : List UInt8) :
    Processor V × Counting H :=
  let parsed := V.parseAll p.state buffer
  (⟨parsed.1, none⟩, c.dispatchAll parsed.2)

def advanceByte (pc : Processor V × Counting H) (b : UInt8) : Processor V × Counting H :=
  match pc.1.update with
  | none =>
    let parsed := V.advance pc.1.state b
    (⟨parsed.state, if parsed.beginsUpdate then some [] else none⟩, pc.2.dispatchAll parsed.calls)
  | some buffer =>
    if ESU.isSuffixOf (buffer ++ [b]) then pc.1.release pc.2 (buffer ++ [b])
    else (⟨pc.1.state, some (buffer ++ [b])⟩, pc.2)

/-- `Processor::advance`. -/
def advance (p : Processor V) (c : Counting H) (bytes : List UInt8) : Processor V × Counting H :=
  bytes.foldl advanceByte (p, c)

/-- `stop_sync`. -/
def stopSync (p : Processor V) (c : Counting H) : Processor V × Counting H :=
  match p.update with
  | none => (p, c)
  | some buffer => p.release c buffer

end Processor

/-! ### The update buffer -/

namespace Processor

variable {p : Processor V} {c : Counting H}

theorem syncBytesCount_advanceByte_le (b : UInt8) :
    (advanceByte (p, c) b).1.syncBytesCount ≤ p.syncBytesCount + 1 := by
  obtain ⟨state, _ | buffer⟩ := p
  · simp only [advanceByte, syncBytesCount]
    split_ifs <;> exact Nat.zero_le _
  · simp only [advanceByte, syncBytesCount]
    split_ifs
    · exact Nat.zero_le _
    · exact List.length_append.le

/-- A slice adds no more to the update buffer than its bytes. -/
theorem syncBytesCount_advance_le (bytes : List UInt8) :
    (p.advance c bytes).1.syncBytesCount ≤ p.syncBytesCount + bytes.length := by
  induction bytes generalizing p c with
  | nil => exact le_rfl
  | cons b bytes ih =>
    have hbyte := syncBytesCount_advanceByte_le (p := p) (c := c) b
    calc (p.advance c (b :: bytes)).1.syncBytesCount
        ≤ (advanceByte (p, c) b).1.syncBytesCount + bytes.length := ih
      _ ≤ p.syncBytesCount + (bytes.length + 1) := by omega

theorem syncBytesCount_stopSync : (p.stopSync c).1.syncBytesCount = 0 := by
  obtain ⟨state, _ | buffer⟩ := p <;> rfl

end Processor

/-! ### The feeder -/

structure Feeder (V : Vte π) where
  parser : Processor V
  fences : Fences
  stats : FenceStats
  sinceReset : ℕ
  pending : List UInt8
  /-- How much of `pending` has been parsed. -/
  pendingAt : ℕ
  size : Size
  midEscape : Bool

/-- A call of `advance_slice`: the feeder and the handler that it finds, and the slice. -/
structure Slice (V : Vte π) (H : Handler π) where
  feeder : Feeder V
  handler : H.State
  bytes : List UInt8

/-- What `drain` leaves and returns, with the calls of `advance_slice` that it made. -/
structure Drained (V : Vte π) (H : Handler π) where
  feeder : Feeder V
  handler : H.State
  spent : ℕ
  slices : List (Slice V H)

namespace Feeder

variable {f : Feeder V} {h : H.State} {bytes : List UInt8} {spent n : ℕ}

def new (fences : Fences) (size : Size) : Feeder V :=
  ⟨.new, fences, .zero, 0, [], 0, size, false⟩

/-- The bytes not yet parsed. -/
def tail (f : Feeder V) : List UInt8 := f.pending.drop f.pendingAt

/-- `pending_bytes`. -/
def pendingBytes (f : Feeder V) : ℕ := f.pending.length - f.pendingAt

def charge (f : Feeder V) (bytes : ℕ) : Feeder V :=
  { f with
    sinceReset := f.sinceReset + bytes
    stats.chargedBytes := f.stats.chargedBytes + bytes }

def noteRelease (f : Feeder V) (bytes : ℕ) : Feeder V :=
  { f with stats.maxRelease := max f.stats.maxRelease bytes }

/-- What a wrapper has counted is added to the counters, and the parser it ran is kept. -/
def complete (f : Feeder V) (pc : Processor V × Counting H) : Feeder V :=
  { f with
    parser := pc.1
    stats.completedUnits := satAdd u64Max f.stats.completedUnits pc.2.units
    stats.completedWork := satAdd u64Max f.stats.completedWork pc.2.work }

/-- The charge of a slice, by route: the update buffer shrank, it grew, or neither. -/
def chargeRoute (f : Feeder V) (syncBefore syncAfter len : ℕ) : Feeder V :=
  if syncAfter < syncBefore then
    let released := syncBefore + len - syncAfter
    (f.noteRelease released).charge released
  else if syncBefore < syncAfter then f.charge 0
  else f.charge len

/-- F1: whether the update is aborted. -/
def breaches (f : Feeder V) : Bool :=
  f.fences.syncAbort && decide (SYNC_CAP ≤ f.parser.syncBytesCount)

/-- F1: what the abort releases is charged. -/
def abortSync (f : Feeder V) (stopped : Processor V × Counting H) : Feeder V :=
  let released := f.parser.syncBytesCount
  let f := f.complete stopped
  (({ f with stats.syncAborts := f.stats.syncAborts + 1 } : Feeder V).noteRelease released).charge
    released

/-- F2: rebuild the parser once the budget is spent. -/
def rebuild (f : Feeder V) : Feeder V :=
  if f.fences.oscBudget && decide (OSC_BUDGET ≤ f.sinceReset) then
    { f with parser := .new, stats.oscResets := f.stats.oscResets + 1, sinceReset := 0 }
  else f

/-- What the parser makes of a slice, under a fresh counter. -/
def advanced (f : Feeder V) (h : H.State) (bytes : List UInt8) : Processor V × Counting H :=
  f.parser.advance (Counting.new h f.size) bytes

/-- The feeder after a slice, before the fences. -/
def routed (f : Feeder V) (h : H.State) (bytes : List UInt8) : Feeder V :=
  (f.complete (f.advanced h bytes)).chargeRoute f.parser.syncBytesCount
    (f.advanced h bytes).1.syncBytesCount bytes.length

/-- What the abort of F1 leaves and dispatches. -/
def stopped (f : Feeder V) (h : H.State) (bytes : List UInt8) : Processor V × Counting H :=
  (f.routed h bytes).parser.stopSync (Counting.new (f.advanced h bytes).2.inner f.size)

/-- `advance_slice`, with the handler that is left and the work it cost. -/
def advanceSlice (f : Feeder V) (h : H.State) (bytes : List UInt8) : Feeder V × H.State × ℕ :=
  if (f.routed h bytes).breaches then
    (((f.routed h bytes).abortSync (f.stopped h bytes)).rebuild, (f.stopped h bytes).2.inner,
      satAdd u64Max (f.advanced h bytes).2.work (f.stopped h bytes).2.work)
  else ((f.routed h bytes).rebuild, (f.advanced h bytes).2.inner, (f.advanced h bytes).2.work)

/-- How far the next `ESC` is, as `drain` looks for it. -/
def nextEscape (f : Feeder V) : ℕ :=
  if f.midEscape then 0 else (f.tail.take MAX_SLICE).findIdx (· == ESC)

/-- The slice that `drain` takes from the tail. -/
def nextSlice (f : Feeder V) (spent : ℕ) : List UInt8 :=
  f.tail.take (sliceBytesRemaining f.size spent f.nextEscape)

/-- The next slice, taken from the tail. -/
def take (f : Feeder V) (h : H.State) (spent : ℕ) : Slice V H :=
  ⟨{ f with pendingAt := f.pendingAt + (f.nextSlice spent).length }, h, f.nextSlice spent⟩

/-- The body of the loop of `drain`, for a slice taken from the tail. -/
def parse (s : Slice V H) : Feeder V × H.State × ℕ :=
  let (f, h, cost) := s.feeder.advanceSlice s.handler s.bytes
  ({ f with midEscape := (s.feeder.midEscape || s.bytes.contains ESC) && cost == 0 }, h, cost)

/-- The loop of `drain`, of at most as many slices as the first argument says. -/
def drainLoop : ℕ → Feeder V → H.State → ℕ → Drained V H
  | 0, f, h, spent => ⟨f, h, spent, []⟩
  | fuel + 1, f, h, spent =>
    if f.pendingAt < f.pending.length then
      let slice := f.take h spent
      let (f', h', cost) := parse slice
      let spent' := satAdd u64Max spent cost
      let rest := if WORK_BUDGET ≤ spent' then ⟨f', h', spent', []⟩
        else drainLoop fuel f' h' spent'
      { rest with slices := slice :: rest.slices }
    else ⟨f, h, spent, []⟩

/-- A tail that is parsed to its end is cleared. -/
def compact (f : Feeder V) : Feeder V :=
  if f.pendingAt = f.pending.length then { f with pending := [], pendingAt := 0 } else f

def notePending (f : Feeder V) : Feeder V :=
  { f with
    stats.maxPending := max f.stats.maxPending f.pendingBytes
    stats.tailBreaches :=
      if TAIL_CAP ≤ f.pendingBytes then f.stats.tailBreaches + 1 else f.stats.tailBreaches }

def drain (f : Feeder V) (h : H.State) : Drained V H :=
  let drained := drainLoop f.pending.length f h 0
  { drained with feeder := drained.feeder.compact.notePending }

def enqueue (f : Feeder V) (bytes : List UInt8) : Feeder V :=
  if 0 < f.pendingAt then { f with pending := f.pending.drop f.pendingAt ++ bytes, pendingAt := 0 }
  else { f with pending := f.pending ++ bytes }

/-! ### The tail -/

theorem tail_enqueue : (f.enqueue bytes).tail = f.tail ++ bytes := by
  rw [enqueue, tail, tail]
  split_ifs with hat
  · rfl
  · rw [Nat.eq_zero_of_not_pos hat, List.drop_zero, List.drop_zero]

theorem tail_ne_nil_iff : f.tail ≠ [] ↔ f.pendingAt < f.pending.length := by
  rw [tail, Ne, List.drop_eq_nil_iff, Nat.not_le]

theorem tail_compact : f.compact.tail = f.tail := by
  rw [compact]
  split_ifs with hend
  · rw [tail, tail, hend, List.drop_length, List.drop_nil]
  · rfl

/-- A slice is the front of the tail, and the rest of the tail is left. -/
theorem nextSlice_append_tail : f.nextSlice spent ++ (f.take h spent).feeder.tail = f.tail := by
  have hinitial : f.nextSlice spent <+: f.tail := List.take_prefix _ _
  rw [take, tail, ← List.drop_drop]
  exact List.prefix_iff_eq_append.mp hinitial

theorem nextSlice_ne_nil (h : f.tail ≠ []) : f.nextSlice spent ≠ [] := by
  rw [nextSlice, Ne, List.take_eq_nil_iff, not_or]
  exact ⟨sliceBytesRemaining_pos.ne', h⟩

theorem parser_routed : (f.routed h bytes).parser = (f.advanced h bytes).1 := by
  simp only [routed, chargeRoute]
  split_ifs <;> rfl

/-- Fences and charges leave the tail alone. -/
theorem tail_parse (s : Slice V H) : (parse s).1.tail = s.feeder.tail := by
  simp only [parse, advanceSlice, routed, chargeRoute, rebuild, abortSync, complete, charge,
    noteRelease]
  split_ifs <;> rfl

/-- The tail that a slice leaves is shorter. -/
theorem length_tail_parse_lt (ht : f.tail ≠ []) :
    (parse (f.take h spent)).1.tail.length < f.tail.length := by
  have happend : f.nextSlice spent ++ (f.take h spent).feeder.tail = f.tail := nextSlice_append_tail
  have hsplit := congrArg List.length happend
  have hslice : 0 < (f.nextSlice spent).length := List.length_pos_iff.mpr (nextSlice_ne_nil ht)
  rw [List.length_append] at hsplit
  rw [tail_parse]
  omega

/-- What holds of a drain, by induction over its slices: of one that finds no tail, of one whose
slice spends the budget, and of one with a slice before it. -/
theorem drainLoop_induct {P : Feeder V → H.State → ℕ → Drained V H → Prop}
    (stop : ∀ f h spent, f.tail = [] → P f h spent ⟨f, h, spent, []⟩)
    (crossed : ∀ f h spent, f.tail ≠ [] →
      WORK_BUDGET ≤ satAdd u64Max spent (parse (f.take h spent)).2.2 →
      P f h spent ⟨(parse (f.take h spent)).1, (parse (f.take h spent)).2.1,
        satAdd u64Max spent (parse (f.take h spent)).2.2, [f.take h spent]⟩)
    (more : ∀ f h spent rest, f.tail ≠ [] →
      satAdd u64Max spent (parse (f.take h spent)).2.2 < WORK_BUDGET →
      P (parse (f.take h spent)).1 (parse (f.take h spent)).2.1
        (satAdd u64Max spent (parse (f.take h spent)).2.2) rest →
      P f h spent { rest with slices := f.take h spent :: rest.slices })
    (fuel : ℕ) (f : Feeder V) (h : H.State) (spent : ℕ) (hfuel : f.tail.length ≤ fuel) :
    P f h spent (drainLoop fuel f h spent) := by
  induction fuel generalizing f h spent with
  | zero => exact stop f h spent (List.length_eq_zero_iff.mp (Nat.le_zero.mp hfuel))
  | succ fuel ih =>
    by_cases ht : f.tail = []
    · have hat : ¬ f.pendingAt < f.pending.length := fun hlt => tail_ne_nil_iff.mpr hlt ht
      rw [drainLoop, if_neg hat]
      exact stop f h spent ht
    · rw [drainLoop, if_pos (tail_ne_nil_iff.mp ht)]
      dsimp only
      split_ifs with hbudget
      · exact crossed f h spent ht hbudget
      · refine more f h spent _ ht (Nat.not_le.mp hbudget) (ih _ _ _ ?_)
        exact Nat.le_of_lt_succ ((length_tail_parse_lt ht).trans_le hfuel)

theorem length_tail_le_pending : f.tail.length ≤ f.pending.length := by
  rw [tail, List.length_drop]
  exact Nat.sub_le _ _

theorem tail_drain :
    (f.drain h).feeder.tail = (drainLoop f.pending.length f h 0).feeder.tail :=
  tail_compact

/-- Nothing is lost or reordered: the slices of a drain and the tail that it leaves are the tail
that it found. -/
theorem drain_bytes :
    (f.drain h).slices.flatMap (·.bytes) ++ (f.drain h).feeder.tail = f.tail := by
  rw [tail_drain]
  refine drainLoop_induct (P := fun f _ _ d => d.slices.flatMap (·.bytes) ++ d.feeder.tail = f.tail)
    (fun f h spent _ => rfl) (fun f h spent _ _ => ?_) (fun f h spent rest _ _ ih => ?_)
    _ f h 0 length_tail_le_pending
  · rw [List.flatMap_singleton, tail_parse]
    exact nextSlice_append_tail
  · rw [List.flatMap_cons, List.append_assoc, ih, tail_parse]
    exact nextSlice_append_tail

/-- A drain that leaves a tail has spent the budget. -/
theorem drain_spent (ht : (f.drain h).feeder.tail ≠ []) : WORK_BUDGET ≤ (f.drain h).spent := by
  rw [tail_drain] at ht
  exact drainLoop_induct (P := fun _ _ _ d => d.feeder.tail ≠ [] → WORK_BUDGET ≤ d.spent)
    (fun _ _ _ hnil ht => absurd hnil ht) (fun _ _ _ _ hbudget _ => hbudget)
    (fun _ _ _ _ _ _ ih => ih) _ f h 0 length_tail_le_pending ht

/-- A drain that finds a tail parses a byte. -/
theorem drain_shrinks (ht : f.tail ≠ []) : (f.drain h).feeder.tail.length < f.tail.length := by
  rw [tail_drain]
  refine drainLoop_induct
    (P := fun f _ _ d => d.feeder.tail.length ≤ f.tail.length ∧
      (f.tail ≠ [] → d.feeder.tail.length < f.tail.length))
    (fun f h spent hnil => ⟨le_rfl, fun ht => absurd hnil ht⟩) (fun f h spent ht _ => ?_)
    (fun f h spent rest ht _ ih => ?_) _ f h 0 length_tail_le_pending |>.2 ht
  · exact ⟨(length_tail_parse_lt ht).le, fun _ => length_tail_parse_lt ht⟩
  · have hlt := ih.1.trans_lt (length_tail_parse_lt ht)
    exact ⟨hlt.le, fun _ => hlt⟩

end Feeder

/-! ### Calls -/

/-- `feed`, which accepts bytes and drains, or `drain`. -/
inductive Call
  | feed (bytes : List UInt8)
  | drain

/-- What a call adds to the stream. -/
def Call.bytes : Call → List UInt8
  | .feed bytes => bytes
  | .drain => []

/-- The feeder that the `drain` of a call finds. -/
def Feeder.receive (f : Feeder V) : Call → Feeder V
  | .feed bytes => f.enqueue bytes
  | .drain => f

/-- A sequence of calls: the feeder in the end, and each `drain`, with the feeder that it found. -/
def Feeder.run (f : Feeder V) (h : H.State) : List Call → Feeder V × List (Feeder V × Drained V H)
  | [] => (f, [])
  | call :: calls =>
    let found := f.receive call
    let drained := found.drain h
    let rest := drained.feeder.run drained.handler calls
    (rest.1, (found, drained) :: rest.2)

/-- The slices that the drains of a run passed on. -/
def slicesOf (drains : List (Feeder V × Drained V H)) : List (Slice V H) :=
  drains.flatMap (·.2.slices)

theorem Feeder.tail_receive (f : Feeder V) (call : Call) :
    (f.receive call).tail = f.tail ++ call.bytes := by
  cases call with
  | feed bytes => exact tail_enqueue
  | drain => exact (List.append_nil _).symm

/-! ### The grid -/

theorem Feeder.size_parse (s : Slice V H) : (Feeder.parse s).1.size = s.feeder.size := by
  simp only [parse, advanceSlice, routed, chargeRoute, rebuild, abortSync, complete, charge,
    noteRelease]
  split_ifs <;> rfl

theorem Feeder.size_drain {f : Feeder V} {h : H.State} : (f.drain h).feeder.size = f.size := by
  have hcompact : ∀ f : Feeder V, f.compact.size = f.size := by
    intro f
    rw [compact]
    split_ifs <;> rfl
  refine (hcompact _).trans ?_
  exact drainLoop_induct (P := fun f _ _ d => d.feeder.size = f.size) (fun _ _ _ _ => rfl)
    (fun f h spent _ _ => size_parse (f.take h spent))
    (fun f h spent rest _ _ ih => ih.trans (size_parse (f.take h spent))) _ f h 0
    length_tail_le_pending

theorem Feeder.size_receive {f : Feeder V} (call : Call) : (f.receive call).size = f.size := by
  cases call with
  | feed bytes =>
    rw [receive, enqueue]
    split_ifs <;> rfl
  | drain => rfl

/-- What holds of every drain of a sequence on one grid. -/
theorem Feeder.mem_run (size : Size) {P : Feeder V × Drained V H → Prop}
    (hdrain : ∀ (f : Feeder V) h, f.size = size → P (f, f.drain h)) {f : Feeder V} {h : H.State}
    {calls : List Call} (hsize : f.size = size) : ∀ d ∈ (f.run h calls).2, P d := by
  induction calls generalizing f h with
  | nil => exact fun d hd => nomatch hd
  | cons call calls ih =>
    have hfound : (f.receive call).size = size := (size_receive call).trans hsize
    intro d hd
    rcases List.mem_cons.mp hd with rfl | hd
    · exact hdrain _ _ hfound
    · exact ih (size_drain.trans hfound) d hd

/-! ### A small parser -/

/-- Where the small parser is in a sequence, with the parameters of a CSI read so far. -/
inductive Sketch
  | ground
  | escape
  | csi (params : List UInt8)
  deriving DecidableEq

def Sketch.advance : Sketch → UInt8 → Parsed UInt8 Sketch
  | .ground, b => if b = ESC then ⟨.escape, [], false⟩ else ⟨.ground, [.plain b], false⟩
  | .escape, b =>
    if b = ESC then ⟨.escape, [], false⟩
    else if b = 0x5b then ⟨.csi [], [], false⟩
    else if b = 0x63 then ⟨.ground, [.resetState], false⟩
    else ⟨.ground, [.plain b], false⟩
  | .csi params, b =>
    if b = ESC then ⟨.escape, [], false⟩
    else if 0x40 ≤ b then ⟨.ground, [.plain b], params = [0x3f, 0x32, 0x30, 0x32, 0x36] ∧ b = 0x68⟩
    else ⟨.csi (params ++ [b]), [], false⟩

/-- A parser of text, `ESC c` and CSI sequences, whose calls are plain but for RIS. -/
abbrev Vte.sketch : Vte UInt8 := ⟨Sketch, .ground, Sketch.advance⟩

/-- A handler that does nothing. -/
def Handler.idle : Handler UInt8 := ⟨Unit, fun s _ => s, fun _ => 0⟩

/-- `ESC [ ? 2026 h`, the begin of a synchronized update. -/
def BSU : List UInt8 := [ESC, 0x5b, 0x3f, 0x32, 0x30, 0x32, 0x36, 0x68]

end Buzz.Desktop.Terminal
