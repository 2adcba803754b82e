import Mathlib.Algebra.GroupWithZero.Nat
import Buzz.Desktop.Terminal.Reader

/-!
# What F2 charges

The fence F2 charges the bytes that the parser could see. It tells them from the length of the update
buffer before and after a slice, and so it charges nothing for a slice that leaves the buffer longer.
The bytes of such a slice that are not left in the buffer are missed.

## Main definitions

* `Slice.Straddles`: some bytes of the slice are missed.

## Main results

* `accounts_run`: what is charged, buffered and missed is what the parser was given.
* `charges_iff`: no input is lost, and the charge is exact if and only if no slice straddles.
-/

namespace Buzz.Desktop.Terminal

open Buzz.Library

variable {π : Type} {V : Vte π} {H : Handler π}

/-! ### A slice -/

namespace Slice

/-- The length of the update buffer before the slice, and after it. -/
def syncBefore (s : Slice V H) : ℕ := s.feeder.parser.syncBytesCount

def syncAfter (s : Slice V H) : ℕ := (s.feeder.advanced s.handler s.bytes).1.syncBytesCount

/-- The slice leaves the update buffer longer, and not by all its bytes. -/
def Straddles (s : Slice V H) : Prop :=
  s.syncBefore < s.syncAfter ∧ s.syncAfter < s.syncBefore + s.bytes.length

instance (s : Slice V H) : Decidable s.Straddles := inferInstanceAs (Decidable (_ ∧ _))

/-- The bytes that the parser could see and F2 did not charge. -/
def missed (s : Slice V H) : ℕ :=
  if s.Straddles then s.syncBefore + s.bytes.length - s.syncAfter else 0

theorem missed_eq_zero_iff {s : Slice V H} : s.missed = 0 ↔ ¬ s.Straddles := by
  rw [missed]
  split_ifs with h
  · have hlt := h.2
    simp only [h, not_true_eq_false, iff_false]
    omega
  · simp only [h, not_false_eq_true]

end Slice

namespace Feeder

variable {f : Feeder V} {h : H.State} {before after len : ℕ}

/-- The charge of a slice, with what is missed, is what is no longer held. -/
theorem chargedBytes_chargeRoute (hlen : after ≤ before + len) :
    (f.chargeRoute before after len).stats.chargedBytes + after +
        (if before < after ∧ after < before + len then before + len - after else 0) =
      f.stats.chargedBytes + before + len := by
  simp only [chargeRoute, noteRelease, charge]
  split_ifs <;> dsimp only <;> omega

theorem oscResets_le_rebuild : f.stats.oscResets ≤ f.rebuild.stats.oscResets := by
  rw [rebuild]
  split_ifs
  · exact Nat.le_succ _
  · exact le_rfl

theorem rebuild_of_oscResets (hkept : f.rebuild.stats.oscResets = f.stats.oscResets) :
    f.rebuild = f := by
  rw [rebuild] at hkept ⊢
  split_ifs at hkept ⊢
  · exact absurd hkept (Nat.succ_ne_self _)
  · rfl

/-- An abort charges what it releases. -/
theorem chargedBytes_abortSync {c : Counting H} :
    (f.abortSync (f.parser.stopSync c)).stats.chargedBytes +
        (f.abortSync (f.parser.stopSync c)).parser.syncBytesCount =
      f.stats.chargedBytes + f.parser.syncBytesCount := by
  have hclosed : (f.abortSync (f.parser.stopSync c)).parser.syncBytesCount = 0 :=
    Processor.syncBytesCount_stopSync
  rw [hclosed]
  rfl

end Feeder

variable {s : Slice V H}

theorem charged_routed (s : Slice V H) :
    (s.feeder.routed s.handler s.bytes).stats.chargedBytes +
        (s.feeder.routed s.handler s.bytes).parser.syncBytesCount + s.missed =
      s.feeder.stats.chargedBytes + s.feeder.parser.syncBytesCount + s.bytes.length := by
  rw [Feeder.parser_routed]
  exact Feeder.chargedBytes_chargeRoute
    (f := s.feeder.complete (s.feeder.advanced s.handler s.bytes))
    (Processor.syncBytesCount_advance_le s.bytes)

/-- The feeder as F2 finds it: it has accounted for the slice. -/
theorem exists_rebuild (s : Slice V H) : ∃ f : Feeder V,
    (Feeder.parse s).1.parser = f.rebuild.parser ∧ (Feeder.parse s).1.stats = f.rebuild.stats ∧
    f.stats.oscResets = s.feeder.stats.oscResets ∧
    f.stats.chargedBytes + f.parser.syncBytesCount + s.missed =
      s.feeder.stats.chargedBytes + s.feeder.parser.syncBytesCount + s.bytes.length := by
  have hresets : (s.feeder.routed s.handler s.bytes).stats.oscResets =
      s.feeder.stats.oscResets := by
    simp only [Feeder.routed, Feeder.chargeRoute]
    split_ifs <;> rfl
  by_cases hbreach : (s.feeder.routed s.handler s.bytes).breaches
  · refine ⟨(s.feeder.routed s.handler s.bytes).abortSync
      (s.feeder.stopped s.handler s.bytes), ?_, ?_, hresets, ?_⟩
    · rw [Feeder.parse, Feeder.advanceSlice, if_pos hbreach]
    · rw [Feeder.parse, Feeder.advanceSlice, if_pos hbreach]
    · rw [Feeder.stopped, Feeder.chargedBytes_abortSync]
      exact charged_routed s
  · refine ⟨s.feeder.routed s.handler s.bytes, ?_, ?_, hresets, charged_routed s⟩
    · rw [Feeder.parse, Feeder.advanceSlice, if_neg hbreach]
    · rw [Feeder.parse, Feeder.advanceSlice, if_neg hbreach]

theorem oscResets_le_parse : s.feeder.stats.oscResets ≤ (Feeder.parse s).1.stats.oscResets := by
  obtain ⟨f, -, hstats, hresets, -⟩ := exists_rebuild s
  rw [hstats, ← hresets]
  exact Feeder.oscResets_le_rebuild

/-- Without a reset, what a slice charges, leaves in the buffer and misses is its bytes. -/
theorem charged_parse (hkept : (Feeder.parse s).1.stats.oscResets = s.feeder.stats.oscResets) :
    (Feeder.parse s).1.stats.chargedBytes + (Feeder.parse s).1.parser.syncBytesCount + s.missed =
      s.feeder.stats.chargedBytes + s.feeder.parser.syncBytesCount + s.bytes.length := by
  obtain ⟨f, hparser, hstats, hresets, hcharged⟩ := exists_rebuild s
  have hsame : f.rebuild = f := Feeder.rebuild_of_oscResets (by rw [← hstats, hkept, hresets])
  rw [hparser, hstats, hsame]
  exact hcharged

/-! ### A drain -/

/-- The bytes of some slices. -/
def sliceBytes (slices : List (Slice V H)) : ℕ := (slices.map (·.bytes.length)).sum

def missedBytes (slices : List (Slice V H)) : ℕ := (slices.map Slice.missed).sum

/-- What is accounted for from one feeder to another, where some slices were parsed. -/
structure Accounts (f f' : Feeder V) (slices : List (Slice V H)) : Prop where
  resets : f.stats.oscResets ≤ f'.stats.oscResets
  charged : f'.stats.oscResets = f.stats.oscResets →
    f'.stats.chargedBytes + f'.parser.syncBytesCount + missedBytes slices =
      f.stats.chargedBytes + f.parser.syncBytesCount + sliceBytes slices

variable {f f' f'' : Feeder V} {h : H.State} {slices slices' : List (Slice V H)}

theorem Accounts.nil (f : Feeder V) : Accounts f f ([] : List (Slice V H)) := ⟨le_rfl, fun _ => rfl⟩

theorem Accounts.trans (h₁ : Accounts f f' slices) (h₂ : Accounts f' f'' slices') :
    Accounts f f'' (slices ++ slices') := by
  refine ⟨h₁.resets.trans h₂.resets, fun hkept => ?_⟩
  have hfirst := h₁.resets
  have hsecond := h₂.resets
  have hcharged := h₁.charged (by omega)
  have hcharged' := h₂.charged (by omega)
  simp only [missedBytes, sliceBytes, List.map_append, List.sum_append] at hcharged hcharged' ⊢
  omega

theorem accounts_take (spent : ℕ) :
    Accounts f (Feeder.parse (f.take h spent)).1 [f.take h spent] := by
  refine ⟨oscResets_le_parse (s := f.take h spent), fun hkept => ?_⟩
  have hcharged := charged_parse (s := f.take h spent) hkept
  rwa [missedBytes, sliceBytes, List.map_singleton, List.map_singleton, List.sum_singleton,
    List.sum_singleton]

theorem accounts_drain : Accounts f (f.drain h).feeder (f.drain h).slices := by
  have hloop := Feeder.drainLoop_induct (P := fun f _ _ d => Accounts f d.feeder d.slices)
    (fun f h spent _ => .nil f) (fun f h spent _ _ => accounts_take spent)
    (fun f h spent rest _ _ ih => (accounts_take spent).trans ih) _ f h 0
    Feeder.length_tail_le_pending
  have hend : (f.drain h).feeder.parser =
      (Feeder.drainLoop f.pending.length f h 0).feeder.parser ∧
      (f.drain h).feeder.stats.oscResets =
        (Feeder.drainLoop f.pending.length f h 0).feeder.stats.oscResets ∧
      (f.drain h).feeder.stats.chargedBytes =
        (Feeder.drainLoop f.pending.length f h 0).feeder.stats.chargedBytes := by
    simp only [Feeder.drain, Feeder.compact, Feeder.notePending]
    split_ifs <;> exact ⟨rfl, rfl, rfl⟩
  obtain ⟨hparser, hresets, hcharged⟩ := hend
  refine ⟨hresets ▸ hloop.resets, fun hkept => ?_⟩
  rw [hparser, hcharged]
  exact hloop.charged (hresets ▸ hkept)

theorem accounts_receive (call : Call) : Accounts f (f.receive call) ([] : List (Slice V H)) := by
  have hreceive : (f.receive call).stats = f.stats ∧ (f.receive call).parser = f.parser := by
    cases call with
    | feed bytes =>
      rw [Feeder.receive, Feeder.enqueue]
      split_ifs <;> exact ⟨rfl, rfl⟩
    | drain => exact ⟨rfl, rfl⟩
  exact ⟨hreceive.1 ▸ le_rfl, fun _ => by rw [hreceive.1, hreceive.2]; rfl⟩

/-! ### A run -/

theorem accounts_run (f : Feeder V) (h : H.State) (calls : List Call) :
    Accounts f (f.run h calls).1 (slicesOf (f.run h calls).2) := by
  induction calls generalizing f h with
  | nil => exact .nil f
  | cons call calls ih =>
    have hcall : Accounts f (f.receive call) ([] : List (Slice V H)) := accounts_receive call
    exact (hcall.trans accounts_drain).trans (ih _ _)

theorem run_bytes (f : Feeder V) (h : H.State) (calls : List Call) :
    (slicesOf (f.run h calls).2).flatMap (·.bytes) ++ (f.run h calls).1.tail =
      f.tail ++ calls.flatMap Call.bytes := by
  induction calls generalizing f h with
  | nil => exact (List.append_nil _).symm
  | cons call calls ih =>
    have hdrain : ((f.receive call).drain h).slices.flatMap (·.bytes) ++
        ((f.receive call).drain h).feeder.tail = f.tail ++ call.bytes :=
      Feeder.drain_bytes.trans (f.tail_receive call)
    calc _ = ((f.receive call).drain h).slices.flatMap (·.bytes) ++ _ := by
          rw [Feeder.run, slicesOf, List.flatMap_cons, List.flatMap_append, List.append_assoc]
          rfl
      _ = ((f.receive call).drain h).slices.flatMap (·.bytes) ++ _ := congrArg _ (ih _ _)
      _ = f.tail ++ (call :: calls).flatMap Call.bytes := by
          rw [← List.append_assoc, hdrain, List.flatMap_cons, List.append_assoc]

theorem missedBytes_eq_zero_iff :
    missedBytes slices = 0 ↔ ∀ s ∈ slices, ¬ s.Straddles := by
  simp only [missedBytes, List.sum_eq_zero_iff_forall_eq_nat, List.forall_mem_map,
    Slice.missed_eq_zero_iff]

theorem length_sliceBytes : (slices.flatMap (·.bytes)).length = sliceBytes slices := by
  rw [List.length_flatMap, sliceBytes]

/-- In every sequence of calls, the slices and the tail are the bytes fed, a drain that finds a tail
parses a byte and leaves none before the budget is spent, and, while F2 has not reset, the bytes
charged are those given to the parser less those buffered, if and only if no slice straddles. -/
theorem charges_iff (fences : Fences) (size : Size) (h : H.State) (calls : List Call) :
    let run := (Feeder.new fences size : Feeder V).run h calls
    let advanced := (slicesOf run.2).flatMap (·.bytes)
    advanced ++ run.1.tail = calls.flatMap Call.bytes ∧
    (∀ d ∈ run.2, d.1.tail ≠ [] → d.2.feeder.tail.length < d.1.tail.length ∧
      (d.2.feeder.tail ≠ [] → WORK_BUDGET ≤ d.2.spent)) ∧
    (run.1.stats.oscResets = 0 →
      (run.1.stats.chargedBytes = advanced.length - run.1.parser.syncBytesCount ↔
        ∀ s ∈ slicesOf run.2, ¬ s.Straddles)) := by
  refine ⟨run_bytes _ h calls, Feeder.mem_run size
    (fun f h _ ht => ⟨Feeder.drain_shrinks ht, Feeder.drain_spent⟩) rfl, fun hreset => ?_⟩
  have hcharged := (accounts_run (Feeder.new fences size : Feeder V) h calls).charged hreset
  have hnew : (Feeder.new fences size : Feeder V).stats.chargedBytes +
      (Feeder.new fences size : Feeder V).parser.syncBytesCount = 0 := rfl
  rw [hnew, Nat.zero_add] at hcharged
  rw [length_sliceBytes, ← missedBytes_eq_zero_iff]
  omega

/-- An update that begins inside a slice: nothing is charged for the bytes before it. -/
theorem undercharged :
    let run := Feeder.run (H := Handler.idle) (Feeder.new ⟨true, true⟩ ⟨80, 24, 0⟩ :
      Feeder Vte.sketch) () [.feed (BSU ++ [0x78, 0x79, 0x7a])]
    run.1.stats.oscResets = 0 ∧ run.1.stats.chargedBytes ≠
      ((slicesOf run.2).flatMap (·.bytes)).length - run.1.parser.syncBytesCount := by
  decide

end Buzz.Desktop.Terminal
