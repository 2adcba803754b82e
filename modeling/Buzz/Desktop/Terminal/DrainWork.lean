import Buzz.Desktop.Terminal.Reader
import Mathlib.Tactic.Ring

/-!
# The work of one drain

A drain is to spend at most a budget and one atom. A slice is as long as its bytes can be paid for:
a byte outside an escape sequence with a row, a byte of an escape sequence with half an atom, since
a sequence has two bytes at least. This is right when what a byte dispatches is within the price of
its place, and then by a potential: the parser inside a sequence is worth what the sequence may
still dispatch.

## Main definitions

* `Vte.Documented`: what is assumed of the byte parser.
* `Slice.Paid`: no byte of the slice, and no abort, dispatches more than its place is priced at.
* `Size.Paid`: the grid is such that rounding does not matter.

## Main results

* `work_parse_le`: a slice crosses the budget by one atom at most.
* `drain_work_le`: so does a drain.
-/

namespace Buzz.Desktop.Terminal

open Buzz.Library

variable {π : Type} {V : Vte π} {H : Handler π} {size : Size} {inSequence : V.State → Bool}

/-- Escape sequences begin with `ESC`, which dispatches nothing, and the end of an update is a whole
sequence. -/
structure Vte.Documented (V : Vte π) (inSequence : V.State → Bool) : Prop where
  escape : ∀ s, (V.advance s ESC).calls = []
  plain : ∀ s b, inSequence s = false → b ≠ ESC → inSequence (V.advance s b).state = false
  esu : ∀ s, inSequence (V.parseAll s ESU).1 = false

/-- The price of the worst atom, or of a callback where that is nothing. -/
def atomPrice (size : Size) : ℕ := max (maxAtomWork size) 1

theorem plainPrice_le_atomPrice : plainPrice size ≤ atomPrice size :=
  max_le_max columns_le_maxAtomWork le_rfl

namespace Processor

variable {p : Processor V} {c : Counting H} {b : UInt8} {bytes : List UInt8}

/-- Whether a byte may end what has been begun: an escape sequence or an update. -/
def ends (inSequence : V.State → Bool) (p : Processor V) (b : UInt8) : Bool :=
  match p.update with
  | none => inSequence p.state && !inSequence (V.advance p.state b).state
  | some _ => true

/-- What a byte dispatches is within the price of its place. -/
def Paid (inSequence : V.State → Bool) (pc : Processor V × Counting H) (b : UInt8) : Prop :=
  (advanceByte (pc.1, (Counting.new pc.2.inner pc.2.size : Counting H)) b).2.work ≤
    if pc.1.ends inSequence b then atomPrice pc.2.size else plainPrice pc.2.size

instance (pc : Processor V × Counting H) (b : UInt8) : Decidable (Paid inSequence pc b) :=
  inferInstanceAs (Decidable (_ ≤ _))

/-- Whether a sequence has been begun that may still dispatch. -/
def opened (inSequence : V.State → Bool) (p : Processor V) : ℕ :=
  match p.update with
  | none => if inSequence p.state then 1 else 0
  | some buffer => if ESC ∈ buffer then 1 else 0

theorem opened_le_one : p.opened inSequence ≤ 1 := by
  rw [opened]
  split <;> split_ifs <;> decide

theorem parseAll_append (s : V.State) (xs ys : List UInt8) :
    (V.parseAll s (xs ++ ys)).1 = (V.parseAll (V.parseAll s xs).1 ys).1 := by
  induction xs generalizing s with
  | nil => rfl
  | cons x xs ih => exact ih _

theorem above_advanceByte (p : Processor V) (c : Counting H) (b : UInt8) :
    (advanceByte (p, c) b).1 = (advanceByte (p, (Counting.new c.inner c.size : Counting H)) b).1 ∧
    Counting.Above c.work (advanceByte (p, c) b).2
      (advanceByte (p, (Counting.new c.inner c.size : Counting H)) b).2 := by
  obtain ⟨state, _ | buffer⟩ := p
  · exact ⟨rfl, (Counting.above_new c).dispatchAll _⟩
  · simp only [advanceByte]
    split_ifs
    · exact ⟨rfl, (Counting.above_new c).dispatchAll _⟩
    · exact ⟨rfl, Counting.above_new c⟩

theorem size_advanceByte : (advanceByte (p, c) b).2.size = c.size :=
  (above_advanceByte p c b).2.size.trans (by
    obtain ⟨state, _ | buffer⟩ := p
    · exact Counting.size_dispatchAll _
    · simp only [advanceByte]
      split_ifs
      · exact Counting.size_dispatchAll _
      · rfl)

/-- The work of one byte, under a fresh counter. -/
def byteWork (pc : Processor V × Counting H) (b : UInt8) : ℕ :=
  (advanceByte (pc.1, (Counting.new pc.2.inner pc.2.size : Counting H)) b).2.work

theorem work_advanceByte_le (pc : Processor V × Counting H) (b : UInt8) :
    (advanceByte pc b).2.work ≤ pc.2.work + byteWork pc b :=
  (above_advanceByte pc.1 pc.2 b).2.work

/-- The end of an update is not its `ESC`, which it has buffered before. -/
theorem esc_mem_of_suffix {buffer : List UInt8} (h : ESU.isSuffixOf (buffer ++ [b])) :
    b ≠ ESC ∧ ESC ∈ buffer := by
  obtain ⟨front, hfront⟩ := List.isSuffixOf_iff_suffix.mp h
  have hsplit : (front ++ ESU.dropLast) ++ [0x6c] = buffer ++ [b] := by
    rw [← hfront, List.append_assoc]
    rfl
  obtain ⟨hbuffer, hb⟩ := List.append_inj' hsplit rfl
  have hlast : (0x6c : UInt8) = b := (List.cons.inj hb).1
  refine ⟨by rw [← hlast]; decide, ?_⟩
  rw [← hbuffer]
  exact List.mem_append_right front (by decide)

/-- A byte of an open update that does not end it dispatches nothing. -/
theorem byteWork_of_buffered {pc : Processor V × Counting H} {buffer : List UInt8}
    (hupdate : pc.1.update = some buffer) (h : ¬ ESU.isSuffixOf (buffer ++ [b])) :
    byteWork pc b = 0 ∧ advanceByte pc b = (⟨pc.1.state, some (buffer ++ [b])⟩, pc.2) := by
  simp only [byteWork, advanceByte, hupdate, if_neg h]
  exact ⟨rfl, trivial⟩

theorem opened_of_parsed (state : V.State) (begins : Bool) :
    (⟨state, if begins then some [] else none⟩ : Processor V).opened inSequence =
      if begins then 0 else if inSequence state then 1 else 0 := by
  cases begins <;> rfl

variable {pc : Processor V × Counting H}

/-- What a byte does to what is begun: `ESC` dispatches nothing, a byte that ends a sequence or an
update closes it, and any other byte is paid for as plain. -/
theorem byteWork_cases (hV : V.Documented inSequence) (hpaid : Paid inSequence pc b) :
    (b = ESC ∧ byteWork pc b = 0) ∨
    (b ≠ ESC ∧ byteWork pc b ≤ plainPrice pc.2.size ∧
      (advanceByte pc b).1.opened inSequence ≤ pc.1.opened inSequence) ∨
    (b ≠ ESC ∧ byteWork pc b ≤ atomPrice pc.2.size ∧ pc.1.opened inSequence = 1 ∧
      (advanceByte pc b).1.opened inSequence = 0) := by
  obtain ⟨⟨state, _ | buffer⟩, c⟩ := pc
  · by_cases hb : b = ESC
    · subst hb
      refine .inl ⟨rfl, ?_⟩
      simp only [byteWork, advanceByte, hV.escape]
      rfl
    · by_cases hends : (⟨state, none⟩ : Processor V).ends inSequence b
      · rw [Paid, if_pos hends] at hpaid
        obtain ⟨hin, hout⟩ := Bool.and_eq_true_iff.mp hends
        have hafter : inSequence (V.advance state b).state = false := by
          simpa only [Bool.not_eq_true'] using hout
        refine .inr (.inr ⟨hb, hpaid, if_pos hin, ?_⟩)
        rw [advanceByte, opened_of_parsed, hafter]
        simp only [Bool.false_eq_true, if_false, ite_self]
      · rw [Paid, if_neg hends] at hpaid
        refine .inr (.inl ⟨hb, hpaid, ?_⟩)
        rw [advanceByte, opened_of_parsed]
        by_cases hin : inSequence state
        · simp only [opened, hin, if_true]
          split_ifs <;> decide
        · have hstays := hV.plain state b (Bool.eq_false_iff.mpr hin) hb
          simp only [hstays, Bool.false_eq_true, if_false, ite_self, Nat.zero_le]
  · by_cases hsuffix : ESU.isSuffixOf (buffer ++ [b])
    · obtain ⟨hb, hmem⟩ := esc_mem_of_suffix hsuffix
      obtain ⟨front, hfront⟩ := List.isSuffixOf_iff_suffix.mp hsuffix
      refine .inr (.inr ⟨hb, hpaid, if_pos hmem, ?_⟩)
      have hclosed : inSequence (V.parseAll state (buffer ++ [b])).1 = false := by
        rw [← hfront, parseAll_append]
        exact hV.esu _
      simp only [advanceByte, if_pos hsuffix, release, opened, hclosed, Bool.false_eq_true,
        if_false]
    · obtain ⟨hwork, hstep⟩ : byteWork (⟨state, some buffer⟩, c) b = 0 ∧
          advanceByte (⟨state, some buffer⟩, c) b = (⟨state, some (buffer ++ [b])⟩, c) :=
        byteWork_of_buffered rfl hsuffix
      by_cases hb : b = ESC
      · exact .inl ⟨hb, hwork⟩
      · refine .inr (.inl ⟨hb, hwork ▸ Nat.zero_le _, ?_⟩)
        rw [hstep]
        simp only [opened, List.mem_append, List.mem_singleton, Ne.symm hb, or_false, le_refl]

/-! ### The potential -/

/-- Any byte costs one atom at most. -/
theorem work_le_atom (hV : V.Documented inSequence) (hpaid : Paid inSequence pc b)
    (hsize : pc.2.size = size) : (advanceByte pc b).2.work ≤ pc.2.work + atomPrice size := by
  subst hsize
  have hwork := work_advanceByte_le pc b
  have hprice : plainPrice pc.2.size ≤ atomPrice pc.2.size := plainPrice_le_atomPrice
  rcases byteWork_cases hV hpaid with ⟨-, h⟩ | ⟨-, h, -⟩ | ⟨-, h, -⟩ <;> omega

/-- A byte costs half an atom, where what is begun is worth the other half. -/
theorem work_le_half (hV : V.Documented inSequence) (hpaid : Paid inSequence pc b)
    (hsize : pc.2.size = size) (hhalf : 2 * plainPrice size ≤ atomPrice size) :
    2 * (advanceByte pc b).2.work +
        atomPrice size * (advanceByte pc b).1.opened inSequence ≤
      2 * pc.2.work + atomPrice size * pc.1.opened inSequence + atomPrice size := by
  subst hsize
  have hwork := work_advanceByte_le pc b
  have hone : atomPrice pc.2.size * (advanceByte pc b).1.opened inSequence ≤ atomPrice pc.2.size :=
    (Nat.mul_le_mul_left _ opened_le_one).trans (Nat.mul_one _).le
  rcases byteWork_cases hV hpaid with ⟨-, h⟩ | ⟨-, h, hopened⟩ | ⟨-, h, hbefore, hafter⟩
  · omega
  · have hkept := Nat.mul_le_mul_left (atomPrice pc.2.size) hopened
    omega
  · rw [hbefore, hafter]
    omega

/-- Outside an escape sequence a byte costs a row, where what is begun is worth the rest of an
atom. -/
theorem work_le_plain (hV : V.Documented inSequence) (hpaid : Paid inSequence pc b)
    (hsize : pc.2.size = size) (hb : b ≠ ESC) :
    (advanceByte pc b).2.work +
        (atomPrice size - plainPrice size) * (advanceByte pc b).1.opened inSequence ≤
      pc.2.work + (atomPrice size - plainPrice size) * pc.1.opened inSequence +
        plainPrice size := by
  subst hsize
  have hwork := work_advanceByte_le pc b
  have hprice : plainPrice pc.2.size ≤ atomPrice pc.2.size := plainPrice_le_atomPrice
  rcases byteWork_cases hV hpaid with ⟨hesc, -⟩ | ⟨-, h, hopened⟩ | ⟨-, h, hbefore, hafter⟩
  · exact absurd hesc hb
  · have hkept := Nat.mul_le_mul_left (atomPrice pc.2.size - plainPrice pc.2.size) hopened
    omega
  · rw [hbefore, hafter]
    omega

/-! ### A slice of bytes -/

/-- Every byte of a slice is paid for. -/
def AllPaid (inSequence : V.State → Bool) (p : Processor V) (c : Counting H)
    (bytes : List UInt8) : Prop :=
  Along advanceByte (Paid inSequence) (p, c) bytes

instance (p : Processor V) (c : Counting H) : Decidable (AllPaid inSequence p c bytes) :=
  inferInstanceAs (Decidable (Along _ _ _ _))

theorem AllPaid.sized (h : AllPaid inSequence p c bytes) :
    Along advanceByte (fun pc b => Paid inSequence pc b ∧ pc.2.size = c.size) (p, c) bytes :=
  Along.and_invariant h (I := fun pc => pc.2.size = c.size) rfl
    fun _ _ hsize => size_advanceByte.trans hsize

theorem work_advance_le_atoms (hV : V.Documented inSequence) (h : AllPaid inSequence p c bytes) :
    (p.advance c bytes).2.work ≤ c.work + bytes.length * atomPrice c.size := by
  have hrun := foldl_amortized (fun pc : Processor V × Counting H => pc.2.work)
    (fun _ => 0) (atomPrice c.size)
    (h.sized.imp_mem fun pc b _ hb => work_le_atom hV hb.1 hb.2)
  exact hrun

theorem work_advance_le_half (hV : V.Documented inSequence) (h : AllPaid inSequence p c bytes)
    (hhalf : 2 * plainPrice c.size ≤ atomPrice c.size) :
    2 * (p.advance c bytes).2.work ≤ 2 * c.work + atomPrice c.size * (bytes.length + 1) := by
  have hrun := foldl_amortized (fun pc : Processor V × Counting H => 2 * pc.2.work)
    (fun pc => atomPrice c.size * pc.1.opened inSequence) (atomPrice c.size)
    (h.sized.imp_mem fun pc b _ hb => work_le_half hV hb.1 hb.2 hhalf)
  have hone : atomPrice c.size * p.opened inSequence ≤ atomPrice c.size :=
    (Nat.mul_le_mul_left _ opened_le_one).trans (Nat.mul_one _).le
  have hlength : bytes.length * atomPrice c.size = atomPrice c.size * bytes.length :=
    Nat.mul_comm _ _
  rw [Nat.mul_add, Nat.mul_one]
  simp only at hrun
  rw [advance]
  omega

theorem work_advance_le_plain (hV : V.Documented inSequence) (h : AllPaid inSequence p c bytes)
    (hplain : ESC ∉ bytes) :
    (p.advance c bytes).2.work ≤
      c.work + (atomPrice c.size - plainPrice c.size) + bytes.length * plainPrice c.size := by
  have hrun := foldl_amortized (fun pc : Processor V × Counting H => pc.2.work)
    (fun pc => (atomPrice c.size - plainPrice c.size) * pc.1.opened inSequence)
    (plainPrice c.size)
    (h.sized.imp_mem fun pc b hmem hb =>
      work_le_plain hV hb.1 hb.2 fun hesc => hplain (hesc ▸ hmem))
  have hone : (atomPrice c.size - plainPrice c.size) * p.opened inSequence ≤
      atomPrice c.size - plainPrice c.size :=
    (Nat.mul_le_mul_left _ opened_le_one).trans (Nat.mul_one _).le
  simp only at hrun
  rw [advance]
  omega

/-- A slice is buffered whole, or it leaves no more in the buffer than its length. -/
theorem buffered_or_short (p : Processor V) (c : Counting H) (bytes : List UInt8) :
    (p.advance c bytes).2 = c ∨ (p.advance c bytes).1.syncBytesCount ≤ bytes.length := by
  induction bytes generalizing p c with
  | nil => exact .inl rfl
  | cons b bytes ih =>
    have hclosed (hsync : (advanceByte (p, c) b).1.syncBytesCount = 0) :
        (p.advance c (b :: bytes)).1.syncBytesCount ≤ bytes.length + 1 := by
      have hrest := syncBytesCount_advance_le (p := (advanceByte (p, c) b).1)
        (c := (advanceByte (p, c) b).2) bytes
      exact hrest.trans (by omega)
    obtain ⟨state, _ | buffer⟩ := p
    · refine .inr (hclosed ?_)
      simp only [advanceByte, syncBytesCount]
      split_ifs <;> rfl
    · by_cases hsuffix : ESU.isSuffixOf (buffer ++ [b])
      · refine .inr (hclosed ?_)
        simp only [advanceByte, if_pos hsuffix]
        rfl
      · have hcons : (⟨state, some buffer⟩ : Processor V).advance c (b :: bytes) =
            (⟨state, some (buffer ++ [b])⟩ : Processor V).advance c bytes := by
          simp only [advance, List.foldl_cons, advanceByte, if_neg hsuffix]
        rw [hcons]
        exact (ih _ c).imp_right fun h => h.trans (Nat.le_succ _)

end Processor

/-! ### A slice -/

/-- Rounding does not matter: a row is within half an atom, and the atom is even or wide. -/
def Size.Paid (size : Size) : Prop :=
  plainPrice size ≤ densest size ∧
    (2 ∣ maxAtomWork size ∨ maxAtomWork size ≤ 1 ∨ 253 < maxAtomWork size)

/-- No byte of the slice, and no abort of an update, dispatches more than its place is priced at. -/
structure Slice.Paid (inSequence : V.State → Bool) (s : Slice V H) : Prop where
  bytes : Processor.AllPaid inSequence s.feeder.parser
    (Counting.new s.handler s.feeder.size : Counting H) s.bytes
  abort : (s.feeder.routed s.handler s.bytes).breaches →
    (s.feeder.stopped s.handler s.bytes).2.work ≤ atomPrice s.feeder.size

instance : Decidable size.Paid := inferInstanceAs (Decidable (_ ∧ _))

theorem Slice.paid_iff {s : Slice V H} : s.Paid inSequence ↔
    Processor.AllPaid inSequence s.feeder.parser
      (Counting.new s.handler s.feeder.size : Counting H) s.bytes ∧
    ((s.feeder.routed s.handler s.bytes).breaches →
      (s.feeder.stopped s.handler s.bytes).2.work ≤ atomPrice s.feeder.size) :=
  ⟨fun h => ⟨h.bytes, h.abort⟩, fun h => ⟨h.1, h.2⟩⟩

instance (s : Slice V H) : Decidable (s.Paid inSequence) := decidable_of_iff' _ Slice.paid_iff

namespace Feeder

variable {f : Feeder V} {h : H.State} {bytes : List UInt8} {spent : ℕ}

/-- A slice metered against the worst atom crosses the budget by one atom at most. -/
theorem escape_slice_le {A d N R W : ℕ} (hd : d = max (A / 2) 1)
    (hround : 2 ∣ A ∨ A ≤ 1 ∨ 253 < A) (hN : N ≤ MAX_SLICE) (hmetered : N * d ≤ R)
    (hatoms : W ≤ N * max A 1) (hhalf : 2 ≤ A → 2 * W ≤ max A 1 * (N + 1)) : W ≤ R + A := by
  rcases Nat.lt_or_ge A 2 with hsmall | hwide
  · have hone : max A 1 = 1 := max_eq_right (Nat.le_of_lt_succ hsmall)
    have hdense : d = 1 := hd.trans (max_eq_right (by omega))
    rw [hone, Nat.mul_one] at hatoms
    rw [hdense, Nat.mul_one] at hmetered
    omega
  · have hatom : max A 1 = A := max_eq_left (by omega)
    have hdense : d = A / 2 := hd.trans (max_eq_left (by omega))
    have hcost := hhalf hwide
    have hsplit : A * (N + 1) = 2 * (N * d) + 2 * d + A % 2 * (N + 1) := by
      conv_lhs => rw [← Nat.div_add_mod A 2, ← hdense]
      ring
    rw [hatom, hsplit] at hcost
    have hslice : MAX_SLICE = 256 := rfl
    rcases Nat.mod_two_eq_zero_or_one A with heven | hodd
    · rw [heven, Nat.zero_mul] at hcost
      omega
    · rw [hodd, Nat.one_mul] at hcost
      omega

/-- A slice of plain bytes has no `ESC`. -/
theorem esc_notMem_nextSlice (hplain : 0 < f.nextEscape) : ESC ∉ f.nextSlice spent := by
  have hmid : f.midEscape = false := by
    rw [nextEscape] at hplain
    split_ifs at hplain with hmid
    · exact absurd hplain (Nat.lt_irrefl 0)
    · exact Bool.eq_false_iff.mpr hmid
  have hfind : f.nextEscape = (f.tail.take MAX_SLICE).findIdx (· == ESC) := by
    rw [nextEscape, hmid]
    rfl
  have htake : f.nextSlice spent =
      (f.tail.take MAX_SLICE).take (sliceBytesRemaining f.size spent f.nextEscape) := by
    rw [List.take_take, min_eq_left sliceBytesRemaining_le_maxSlice, nextSlice]
  intro hmem
  obtain ⟨i, hi, hget⟩ := List.mem_take_iff_getElem.mp (htake ▸ hmem)
  have hbefore : i < (f.tail.take MAX_SLICE).findIdx (· == ESC) :=
    hfind ▸ (lt_min_iff.mp hi).1.trans_le (sliceBytesRemaining_le_nextEscape hplain)
  exact absurd (beq_iff_eq.mpr hget) (Bool.eq_false_iff.mp (List.not_of_lt_findIdx hbefore))

/-- An update is aborted only by a slice that was buffered whole. -/
theorem work_of_breaches (hbreach : (f.routed h bytes).breaches) (hshort : bytes.length ≤ MAX_SLICE) :
    (f.advanced h bytes).2.work = 0 := by
  have hcap := of_decide_eq_true (Bool.and_eq_true_iff.mp hbreach).2
  rw [parser_routed] at hcap
  rcases Processor.buffered_or_short f.parser (Counting.new h f.size : Counting H) bytes with
    hsame | hlen
  · rw [advanced, hsame]
    rfl
  · exact absurd (hcap.trans (hlen.trans hshort)) (by decide)

theorem length_nextSlice_le :
    (f.nextSlice spent).length ≤ sliceBytesRemaining f.size spent f.nextEscape :=
  List.length_take_le _ _

theorem cost_of_breaches {s : Slice V H}
    (hbreach : (s.feeder.routed s.handler s.bytes).breaches) :
    (parse s).2.2 = satAdd u64Max (s.feeder.advanced s.handler s.bytes).2.work
      (s.feeder.stopped s.handler s.bytes).2.work := by
  rw [parse, advanceSlice, if_pos hbreach]

theorem cost_of_not_breaches {s : Slice V H}
    (hbreach : ¬ (s.feeder.routed s.handler s.bytes).breaches) :
    (parse s).2.2 = (s.feeder.advanced s.handler s.bytes).2.work := by
  rw [parse, advanceSlice, if_neg hbreach]

/-- The bytes of a slice cross the budget by one atom at most. -/
theorem work_advanced_le (hV : V.Documented inSequence) (hgrid : f.size.Paid)
    (hspent : spent < WORK_BUDGET)
    (hpaid : Processor.AllPaid inSequence f.parser (Counting.new h f.size : Counting H)
      (f.nextSlice spent)) :
    spent + (f.advanced h (f.nextSlice spent)).2.work ≤ WORK_BUDGET + maxAtomWork f.size := by
  have hlen : (f.nextSlice spent).length ≤ sliceBytesRemaining f.size spent f.nextEscape :=
    length_nextSlice_le
  have hatom : atomPrice f.size ≤ maxAtomWork f.size + 1 := max_le (Nat.le_succ _) (Nat.succ_pos _)
  have hatoms : (f.advanced h (f.nextSlice spent)).2.work ≤
      0 + (f.nextSlice spent).length * atomPrice f.size :=
    Processor.work_advance_le_atoms hV hpaid
  rw [Nat.zero_add] at hatoms
  rcases Nat.lt_or_ge 1 (f.nextSlice spent).length with hwide | hbyte
  · rcases Nat.eq_zero_or_pos f.nextEscape with hescape | hplain
    · have hhalf (hatom2 : 2 ≤ maxAtomWork f.size) :
          2 * (f.advanced h (f.nextSlice spent)).2.work ≤
            atomPrice f.size * ((f.nextSlice spent).length + 1) := by
        have hrow : 2 * plainPrice f.size ≤ atomPrice f.size := by
          have hdensest : densest f.size = maxAtomWork f.size / 2 := max_eq_left (by omega)
          have hprice : atomPrice f.size = maxAtomWork f.size := max_eq_left (by omega)
          have hdense := hgrid.1
          omega
        exact (Processor.work_advance_le_half hV hpaid hrow).trans (Nat.zero_add _).le
      have hshort := hlen.trans sliceBytesRemaining_le_maxSlice
      rw [hescape] at hlen
      have hmetered := (Nat.mul_le_mul_right (densest f.size) hlen).trans
        (sliceBytesRemaining_escape (hwide.trans_le hlen))
      have hover := escape_slice_le rfl hgrid.2 hshort hmetered hatoms hhalf
      omega
    · have hmetered := (Nat.mul_le_mul_right (plainPrice f.size) hlen).trans
        (sliceBytesRemaining_plain hplain (hwide.trans_le hlen))
      have hwork : (f.advanced h (f.nextSlice spent)).2.work ≤
          0 + (atomPrice f.size - plainPrice f.size) +
            (f.nextSlice spent).length * plainPrice f.size :=
        Processor.work_advance_le_plain hV hpaid (esc_notMem_nextSlice hplain)
      have hprice : 0 < plainPrice f.size := plainPrice_pos
      omega
  · have hone := hatoms.trans (Nat.mul_le_mul_right _ hbyte)
    rw [Nat.one_mul] at hone
    omega

/-- A slice crosses the budget by one atom at most. -/
theorem work_parse_le (hV : V.Documented inSequence) (hgrid : f.size.Paid)
    (hspent : spent < WORK_BUDGET) (hpaid : (f.take h spent).Paid inSequence) :
    spent + (parse (f.take h spent)).2.2 ≤ WORK_BUDGET + maxAtomWork f.size := by
  let s := f.take h spent
  by_cases hbreach : (s.feeder.routed s.handler s.bytes).breaches
  · have hshort : s.bytes.length ≤ MAX_SLICE :=
      length_nextSlice_le.trans sliceBytesRemaining_le_maxSlice
    have hquiet := work_of_breaches hbreach hshort
    have habort : (s.feeder.stopped s.handler s.bytes).2.work ≤ atomPrice f.size :=
      hpaid.abort hbreach
    have hcost := (cost_of_breaches hbreach).trans_le satAdd_le_add
    rw [hquiet, Nat.zero_add] at hcost
    have hatom : atomPrice f.size ≤ maxAtomWork f.size + 1 :=
      max_le (Nat.le_succ _) (Nat.succ_pos _)
    exact (Nat.add_le_add_left (hcost.trans habort) spent).trans (by omega)
  · rw [cost_of_not_breaches hbreach]
    exact work_advanced_le hV hgrid hspent hpaid.bytes

/-- A drain whose slices are paid for spends the budget and one atom at most. -/
theorem spent_drain_le (hV : V.Documented inSequence) (hgrid : f.size.Paid)
    (hpaid : ∀ s ∈ (f.drain h).slices, s.Paid inSequence) :
    (f.drain h).spent ≤ maxDrainWork f.size := by
  refine drainLoop_induct
    (P := fun f _ spent d => f.size.Paid → spent < WORK_BUDGET →
      (∀ s ∈ d.slices, s.Paid inSequence) → d.spent ≤ maxDrainWork f.size)
    (fun f h spent _ _ hspent _ => ?_) (fun f h spent _ _ hgrid hspent hpaid => ?_)
    (fun f h spent rest _ hleft ih hgrid hspent hpaid => ?_) _ f h 0 length_tail_le_pending hgrid
    (by decide) hpaid
  · exact le_min (hspent.le.trans (Nat.le_add_right _ _)) (hspent.le.trans (by decide))
  · have hslice := work_parse_le hV hgrid hspent (hpaid _ (List.mem_singleton_self _))
    exact min_le_min_right _ hslice
  · have hsize := size_parse (f.take h spent)
    exact hsize ▸ ih (hsize ▸ hgrid) hleft fun s hs => hpaid s (List.mem_cons_of_mem _ hs)

end Feeder

/-- Whether the small parser is inside a sequence. -/
def Sketch.inside : Vte.sketch.State → Bool
  | Sketch.ground => false
  | _ => true

theorem sketch_documented : Vte.sketch.Documented Sketch.inside where
  escape := fun s => by cases s <;> rfl
  plain := fun s b hground hb => by
    cases s with
    | ground => exact congrArg (fun p : Parsed UInt8 Sketch => Sketch.inside p.state) (if_neg hb)
    | escape | csi => cases hground
  esu := fun s => by cases s <;> rfl

/-- In every sequence of calls, a drain whose slices are all paid for spends at most what
`max_drain_work` says. -/
theorem drain_work_le (hV : V.Documented inSequence) (hgrid : size.Paid) (fences : Fences)
    (h : H.State) (calls : List Call) :
    ∀ d ∈ ((Feeder.new fences size : Feeder V).run h calls).2,
      (∀ s ∈ d.2.slices, s.Paid inSequence) → d.2.spent ≤ maxDrainWork size :=
  Feeder.mem_run size (fun _ _ hsize hpaid =>
    hsize ▸ Feeder.spent_drain_le hV (hsize ▸ hgrid) hpaid) rfl

/-- Text and RIS, on the default grid: the drain stops at the atom that crosses the budget. -/
theorem drain_work_le_reset :
    ∃ d ∈ (Feeder.run (H := Handler.idle) (Feeder.new ⟨true, true⟩ ⟨80, 24, 10000⟩ :
        Feeder Vte.sketch) () [.feed [0x78, ESC, 0x63, 0x79]]).2,
      WORK_BUDGET < d.2.spent ∧ d.2.spent ≤ maxDrainWork ⟨80, 24, 10000⟩ :=
  ⟨_, List.mem_singleton_self _, by decide,
    drain_work_le sketch_documented (by decide) ⟨true, true⟩ (H := Handler.idle) ()
      [.feed [0x78, ESC, 0x63, 0x79]] _ (List.mem_singleton_self _) (by decide)⟩

/-- An update of two RIS is released at once. -/
theorem released_update :
    let run := Feeder.run (H := Handler.idle) (Feeder.new ⟨true, true⟩ ⟨80, 24, 10000⟩ :
      Feeder Vte.sketch) () [.feed (BSU ++ [ESC, 0x63, ESC, 0x63] ++ ESU)]
    ∃ d ∈ run.2, maxDrainWork ⟨80, 24, 10000⟩ < d.2.spent := by
  refine ⟨_, List.mem_singleton_self _, ?_⟩
  decide

end Buzz.Desktop.Terminal
