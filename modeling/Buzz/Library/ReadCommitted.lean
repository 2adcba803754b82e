import Mathlib.Data.Int.Notation
import Mathlib.Data.Nat.Notation
import Mathlib.Logic.Function.Basic
import Mathlib.Logic.Relation

/-!
# Read-committed transactions under an advisory lock

Transactions are lists of statements. A statement sees the committed state at its time, with what
its own transaction has written before, and it sees when the transaction began. What it writes is a
change of the state, which a commit makes to the committed state then. One advisory lock is taken
shared or exclusive, and held to the end of the transaction. A transaction may be aborted at any
time, and writes nothing then.

## Main definitions

* `Statement`, `Tx`, `System`.
* `Step`, `Run`: the interleavings.
* `Tx.Next`: what a step does to one transaction.
* `Preserves`, `Stable`: a property of the state that a statement keeps, or that all of them keep.
* `alone`: a transaction that runs alone.

## Main results

* `Run.exclusive_orders`, `Run.orders_exclusive`: a transaction has ended before another one has a
  lock that conflicts with its own.
* `Run.running`: what is known of a running transaction from its program.
* `Run.executes`: a transaction that commits has run all its statements.
* `Run.stable`, `Run.commits`: a stable property of the committed state, and one that a committed
  transaction has established.
* `run_alone`: a transaction that runs alone commits.
-/

namespace Buzz.Library.ReadCommitted

open Relation (ReflTransGen)

/-- How a lock is held. -/
inductive Mode
  | shared
  | exclusive
  deriving DecidableEq

/-- A statement takes the lock, or is one of `ι`. -/
inductive Statement (ι : Type*)
  | lock (mode : Mode)
  | exec (i : ι)

/-- A transaction. While it runs it has its start, the statements that are left, its locks, and the
changes that it is about to commit. -/
inductive Tx (ι σ : Type*)
  | unborn
  | running (start : ℤ) (rest : List (Statement ι)) (held : List Mode) (write : σ → σ)
  | committed
  | aborted

/-- The committed state, the clock and the transactions. -/
structure System (ι σ : Type*) where
  state : σ
  now : ℤ
  txs : ℕ → Tx ι σ

variable {ι ε σ : Type*}

namespace Tx

def held : Tx ι σ → List Mode
  | running _ _ held _ => held
  | unborn | committed | aborted => []

def ended : Tx ι σ → Bool
  | committed | aborted => true
  | unborn | running .. => false

end Tx

namespace System

/-- No transaction has begun. -/
def initial (state : σ) (now : ℤ) : System ι σ := ⟨state, now, fun _ => .unborn⟩

def set (s : System ι σ) (n : ℕ) (tx : Tx ι σ) : System ι σ :=
  { s with txs := Function.update s.txs n tx }

/-- The lock is free for a transaction. -/
def Grants (s : System ι σ) (n : ℕ) : Mode → Prop
  | .shared => ∀ m, m ≠ n → .exclusive ∉ (s.txs m).held
  | .exclusive => ∀ m, m ≠ n → (s.txs m).held = []

@[simp] theorem set_txs_self (s : System ι σ) (n : ℕ) (tx : Tx ι σ) : (s.set n tx).txs n = tx :=
  Function.update_self _ _ _

theorem set_txs_of_ne (s : System ι σ) {m n : ℕ} (tx : Tx ι σ) (h : m ≠ n) :
    (s.set n tx).txs m = s.txs m := Function.update_of_ne h _ _

theorem set_set (s : System ι σ) (n : ℕ) (tx tx' : Tx ι σ) (state' : σ) :
    { s.set n tx with state := state' }.set n tx' = { s with state := state' }.set n tx' := by
  simp [set]

theorem held_set (s : System ι σ) {m n : ℕ} (tx : Tx ι σ) (hm : m ≠ n) :
    ((s.set n tx).txs m).held = (s.txs m).held := by
  rw [set_txs_of_ne _ _ hm]

end System

/-- What a step does. -/
inductive Label (ι : Type*)
  | tick
  | begin (n : ℕ) (program : List (Statement ι))
  | lock (n : ℕ) (mode : Mode)
  | exec (n : ℕ) (i : ι)
  | commit (n : ℕ)
  | abort (n : ℕ)

variable (effect : ι → ℤ → σ → Except ε (σ → σ)) (Program : List (Statement ι) → Prop)

/-- One step of the clock or of a transaction. `effect` is what a statement writes, from the start
of its transaction and the state that it sees. -/
inductive Step (s : System ι σ) : Label ι → System ι σ → Prop
  | tick (now : ℤ) (hnow : s.now ≤ now) : Step s .tick { s with now := now }
  | begin (n : ℕ) (program : List (Statement ι)) (htx : s.txs n = .unborn)
      (hprogram : Program program) :
      Step s (.begin n program) (s.set n (.running s.now program [] id))
  | lock (n : ℕ) (mode : Mode) (start : ℤ) (rest : List (Statement ι)) (held : List Mode)
      (write : σ → σ) (htx : s.txs n = .running start (.lock mode :: rest) held write)
      (hgrants : s.Grants n mode) :
      Step s (.lock n mode) (s.set n (.running start rest (mode :: held) write))
  | exec (n : ℕ) (i : ι) (start : ℤ) (rest : List (Statement ι)) (held : List Mode)
      (write change : σ → σ) (htx : s.txs n = .running start (.exec i :: rest) held write)
      (heffect : effect i start (write s.state) = .ok change) :
      Step s (.exec n i) (s.set n (.running start rest held (change ∘ write)))
  | commit (n : ℕ) (start : ℤ) (held : List Mode) (write : σ → σ)
      (htx : s.txs n = .running start [] held write) :
      Step s (.commit n) ({ s with state := write s.state }.set n .committed)
  | abort (n : ℕ) (start : ℤ) (rest : List (Statement ι)) (held : List Mode) (write : σ → σ)
      (htx : s.txs n = .running start rest held write) : Step s (.abort n) (s.set n .aborted)

/-- The interleavings of transactions with the given programs. -/
def Run : System ι σ → System ι σ → Prop :=
  ReflTransGen fun s s' => ∃ label, Step effect Program s label s'

/-- What a step does to one transaction, with the committed state before and after. -/
inductive Tx.Next (now : ℤ) (state : σ) : σ → Tx ι σ → Tx ι σ → Prop
  | same (state' : σ) (tx : Tx ι σ) : Next now state state' tx tx
  | begin (program : List (Statement ι)) (hprogram : Program program) :
      Next now state state .unborn (.running now program [] id)
  | lock (mode : Mode) (start : ℤ) (rest : List (Statement ι)) (held : List Mode) (write : σ → σ) :
      Next now state state (.running start (.lock mode :: rest) held write)
        (.running start rest (mode :: held) write)
  | exec (i : ι) (start : ℤ) (rest : List (Statement ι)) (held : List Mode) (write change : σ → σ)
      (heffect : effect i start (write state) = .ok change) :
      Next now state state (.running start (.exec i :: rest) held write)
        (.running start rest held (change ∘ write))
  | commit (start : ℤ) (held : List Mode) (write : σ → σ) :
      Next now state (write state) (.running start [] held write) .committed
  | abort (start : ℤ) (rest : List (Statement ι)) (held : List Mode) (write : σ → σ) :
      Next now state state (.running start rest held write) .aborted

variable {effect Program} {s s' : System ι σ} {label : Label ι}

theorem next_set {m : ℕ} {state' : σ} {tx : Tx ι σ}
    (h : Tx.Next effect Program s.now s.state state' (s.txs m) tx) (n : ℕ) :
    Tx.Next effect Program s.now s.state state' (s.txs n) ((s.set m tx).txs n) := by
  by_cases hn : n = m
  · rw [hn, System.set_txs_self]
    exact h
  · rw [System.set_txs_of_ne _ _ hn]
    exact .same _ _

theorem Step.next (h : Step effect Program s label s') (n : ℕ) :
    Tx.Next effect Program s.now s.state s'.state (s.txs n) (s'.txs n) := by
  cases h with
  | tick => exact .same _ _
  | begin m program htx hprogram => exact next_set (htx ▸ .begin program hprogram) n
  | lock m mode start rest held write htx =>
    exact next_set (htx ▸ .lock mode start rest held write) n
  | exec m i start rest held write change htx heffect =>
    exact next_set (htx ▸ .exec i start rest held write change heffect) n
  | commit m start held write htx => exact next_set (s := s) (htx ▸ .commit start held write) n
  | abort m start rest held write htx =>
    exact next_set (htx ▸ .abort start rest held write) n

theorem Step.now_le (h : Step effect Program s label s') : s.now ≤ s'.now := by
  cases h with
  | tick now hnow => exact hnow
  | begin | lock | exec | commit | abort => exact Int.le_refl _

/-- A property that every step keeps holds along a run. -/
theorem Run.invariant {P : System ι σ → Prop}
    (hstep : ∀ {s s' label}, P s → Step effect Program s label s' → P s') (hs : P s)
    (h : Run effect Program s s') : P s' := by
  induction h with
  | refl => exact hs
  | tail _ hlast ih =>
    obtain ⟨label, hlast⟩ := hlast
    exact hstep ih hlast

/-! ### The lock -/

/-- A transaction that has ended takes no step. -/
theorem Tx.Next.ended {now : ℤ} {state state' : σ} {tx tx' : Tx ι σ}
    (h : Tx.Next effect Program now state state' tx tx') (hended : tx.ended = true) : tx' = tx := by
  cases h with
  | same => rfl
  | begin | lock | exec | commit | abort => cases hended

theorem Run.ended (h : Run effect Program s s') {n : ℕ} (hended : (s.txs n).ended = true) :
    s'.txs n = s.txs n := by
  refine h.invariant (P := fun s' => s'.txs n = s.txs n) (fun hsame hstep => ?_) rfl
  exact ((hstep.next n).ended (hsame ▸ hended)).trans hsame

/-- A lock is held to the end. -/
theorem Tx.Next.held {now : ℤ} {state state' : σ} {tx tx' : Tx ι σ} {mode : Mode}
    (h : Tx.Next effect Program now state state' tx tx')
    (hheld : mode ∈ tx.held ∨ tx.ended = true) : mode ∈ tx'.held ∨ tx'.ended = true := by
  cases h with
  | same => exact hheld
  | begin => exact hheld
  | lock => exact hheld.imp_left (List.mem_cons_of_mem _)
  | exec => exact hheld
  | commit | abort => exact .inr rfl

theorem Run.held (h : Run effect Program s s') {n : ℕ} {mode : Mode}
    (hheld : mode ∈ (s.txs n).held) : mode ∈ (s'.txs n).held ∨ (s'.txs n).ended = true :=
  h.invariant (P := fun s => mode ∈ (s.txs n).held ∨ (s.txs n).ended = true)
    (fun hbefore hstep => (hstep.next n).held hbefore) (.inl hheld)

/-- Who holds the lock exclusive is the only one that holds it. -/
def Exclusive (s : System ι σ) : Prop :=
  ∀ m n, .exclusive ∈ (s.txs n).held → (s.txs m).held ≠ [] → m = n

theorem exclusive_initial (state : σ) (now : ℤ) :
    Exclusive (.initial state now : System ι σ) := fun _ _ hheld => by cases hheld

/-- Where no transaction has a lock that it did not have. -/
theorem Exclusive.of_subset (h : Exclusive s)
    (hheld : ∀ m, (s'.txs m).held ⊆ (s.txs m).held) : Exclusive s' := by
  intro m n hexclusive hm
  refine h m n (hheld n hexclusive) fun hnil => hm ?_
  exact List.eq_nil_of_subset_nil (hnil ▸ hheld m)

theorem held_subset_set {n : ℕ} {tx : Tx ι σ} (htx : tx.held ⊆ (s.txs n).held) (m : ℕ) :
    ((s.set n tx).txs m).held ⊆ (s.txs m).held := by
  by_cases hm : m = n
  · rw [hm, System.set_txs_self]
    exact htx
  · rw [System.set_txs_of_ne _ _ hm]
    exact List.Subset.refl _

theorem Exclusive.step (h : Exclusive s) (hstep : Step effect Program s label s') :
    Exclusive s' := by
  cases hstep with
  | tick now hnow => exact h
  | begin n program htx => exact h.of_subset (held_subset_set (List.nil_subset _))
  | exec n i start rest held write change htx =>
    exact h.of_subset (held_subset_set (htx ▸ List.Subset.refl _))
  | commit n start held write htx => exact h.of_subset (held_subset_set (List.nil_subset _))
  | abort n start rest held write htx => exact h.of_subset (held_subset_set (List.nil_subset _))
  | lock n mode start rest held write htx hgrants =>
    intro m n' hexclusive hm
    by_cases hn' : n' = n
    · -- the lock of the step, or one before it
      by_contra hne
      rw [hn'] at hne
      rw [System.set_txs_of_ne _ _ hne] at hm
      rw [hn', System.set_txs_self] at hexclusive
      obtain rfl | hbefore := List.mem_cons.mp hexclusive
      · exact hm (hgrants m hne)
      · exact hne (h m n (by rw [htx]; exact hbefore) hm)
    · rw [System.set_txs_of_ne _ _ hn'] at hexclusive
      by_cases hmn : m = n
      · exfalso
        cases mode with
        | shared => exact hgrants n' hn' hexclusive
        | exclusive =>
          rw [hgrants n' hn'] at hexclusive
          cases hexclusive
      · rw [System.set_txs_of_ne _ _ hmn] at hm
        exact h m n' hexclusive hm

theorem Run.exclusive (h : Run effect Program s s') (hs : Exclusive s) : Exclusive s' :=
  h.invariant (fun hbefore hstep => hbefore.step hstep) hs

/-- Where another transaction has the lock, one that had it exclusive has ended. -/
theorem Run.exclusive_orders (h : Run effect Program s s') (hs : Exclusive s) {m n : ℕ}
    (hne : m ≠ n) (hn : .exclusive ∈ (s.txs n).held) {mode : Mode} (hm : mode ∈ (s'.txs m).held) :
    (s'.txs n).ended = true := by
  rcases h.held hn with hn' | hended
  · exact absurd (h.exclusive hs m n hn' (List.ne_nil_of_mem hm)) hne
  · exact hended

/-- Where another transaction has the lock exclusive, one that had it has ended. -/
theorem Run.orders_exclusive (h : Run effect Program s s') (hs : Exclusive s) {m n : ℕ}
    (hne : m ≠ n) {mode : Mode} (hm : mode ∈ (s.txs m).held)
    (hn : .exclusive ∈ (s'.txs n).held) : (s'.txs m).ended = true := by
  rcases h.held hm with hm' | hended
  · exact absurd (h.exclusive hs m n hn (List.ne_nil_of_mem hm')) hne
  · exact hended

/-! ### Programs -/

/-- What the statement writes keeps `P`. -/
def Preserves (effect : ι → ℤ → σ → Except ε (σ → σ)) (P : σ → Prop) (i : ι) : Prop :=
  ∀ start state change, effect i start state = .ok change → ∀ state', P state' → P (change state')

/-- A running transaction has begun, has run the first statements of a program, has the locks that
they took, and what it has written keeps what they keep. -/
def Tx.Follows (effect : ι → ℤ → σ → Except ε (σ → σ)) (Program : List (Statement ι) → Prop)
    (now : ℤ) : Tx ι σ → Prop
  | .running start rest held write => start ≤ now ∧ ∃ done, Program (done ++ rest) ∧
      (∀ mode, mode ∈ held ↔ .lock mode ∈ done) ∧
      ∀ P : σ → Prop, (∀ i, .exec i ∈ done → Preserves effect P i) → ∀ state, P state →
        P (write state)
  | .unborn | .committed | .aborted => True

theorem Tx.Next.follows {now now' : ℤ} {state state' : σ} {tx tx' : Tx ι σ}
    (h : Tx.Next effect Program now state state' tx tx') (hnow : now ≤ now')
    (hfollows : tx.Follows effect Program now) : tx'.Follows effect Program now' := by
  cases h with
  | same =>
    cases tx with
    | unborn | committed | aborted => trivial
    | running start rest held write => exact ⟨Int.le_trans hfollows.1 hnow, hfollows.2⟩
  | begin program hprogram =>
    exact ⟨hnow, [], hprogram, fun _ => ⟨nofun, nofun⟩, fun _ _ _ hstate => hstate⟩
  | lock mode start rest held write =>
    obtain ⟨hstart, done, hprogram, hheld, hwrite⟩ := hfollows
    refine ⟨Int.le_trans hstart hnow, done ++ [.lock mode], by simpa using hprogram,
      fun mode' => ?_, fun P hP => hwrite P fun i hi => hP i (List.mem_append_left _ hi)⟩
    simp [hheld mode', or_comm]
  | exec i start rest held write change heffect =>
    obtain ⟨hstart, done, hprogram, hheld, hwrite⟩ := hfollows
    refine ⟨Int.le_trans hstart hnow, done ++ [.exec i], by simpa using hprogram, fun mode => ?_,
      fun P hP state' hstate => ?_⟩
    · simp [hheld mode]
    · have hbefore := hwrite P (fun j hj => hP j (List.mem_append_left _ hj)) state' hstate
      exact hP i (by simp) _ _ _ heffect _ hbefore
  | commit | abort => trivial

theorem Run.follows {state : σ} {now : ℤ} (h : Run effect Program (.initial state now) s) (n : ℕ) :
    (s.txs n).Follows effect Program s.now := by
  have hinitial (n : ℕ) : ((System.initial state now).txs n : Tx ι σ).Follows effect Program now :=
    trivial
  refine h.invariant (P := fun s => ∀ n, (s.txs n).Follows effect Program s.now)
    (fun hbefore hstep n => ?_) hinitial n
  exact (hstep.next n).follows hstep.now_le (hbefore n)

/-- What a running transaction has begun with, run, and written. -/
theorem Run.running {state : σ} {now : ℤ} (h : Run effect Program (.initial state now) s) {n : ℕ}
    {start : ℤ} {rest : List (Statement ι)} {held : List Mode} {write : σ → σ}
    (htx : s.txs n = .running start rest held write) :
    start ≤ s.now ∧ ∃ done, Program (done ++ rest) ∧ (∀ mode, mode ∈ held ↔ .lock mode ∈ done) ∧
      ∀ P : σ → Prop, (∀ i, .exec i ∈ done → Preserves effect P i) → ∀ state, P state →
        P (write state) := by
  have hfollows := h.follows n
  rw [htx] at hfollows
  exact hfollows

/-- Between the two states, the transaction has run the statement `i`. -/
def Executes (effect : ι → ℤ → σ → Except ε (σ → σ)) (Program : List (Statement ι) → Prop)
    (s s' : System ι σ) (n : ℕ) (start : ℤ) (i : ι) : Prop :=
  ∃ s₁ s₂ rest held write change, Run effect Program s s₁ ∧
    s₁.txs n = .running start (.exec i :: rest) held write ∧
    effect i start (write s₁.state) = .ok change ∧ Step effect Program s₁ (.exec n i) s₂ ∧
    s₂.txs n = .running start rest held (change ∘ write) ∧ Run effect Program s₂ s'

/-- A step that runs the next statement of a transaction is a step of it. -/
theorem Step.label_eq (h : Step effect Program s label s') {n : ℕ} {start start' : ℤ} {i : ι}
    {rest : List (Statement ι)} {held held' : List Mode} {write write' : σ → σ}
    (htx : s.txs n = .running start (.exec i :: rest) held write)
    (htx' : s'.txs n = .running start' rest held' write') : label = .exec n i := by
  -- no other step runs it
  have hsame : s'.txs n ≠ s.txs n := by
    rw [htx, htx']
    intro heq
    exact List.cons_ne_self _ _ (Tx.running.inj heq).2.1.symm
  have hown {m : ℕ} {tx : Tx ι σ} (hs' : s'.txs = (s.set m tx).txs) : m = n := by
    by_contra hne
    exact hsame (by rw [hs', System.set_txs_of_ne _ _ (Ne.symm hne)])
  cases h with
  | tick => exact absurd rfl hsame
  | begin m program htxm =>
    obtain rfl := hown rfl
    rw [htxm] at htx
    cases htx
  | lock m mode start₁ rest₁ held₁ write₁ htxm =>
    obtain rfl := hown rfl
    rw [htxm] at htx
    cases htx
  | exec m j start₁ rest₁ held₁ write₁ change htxm =>
    obtain rfl := hown rfl
    rw [htxm] at htx
    cases htx
    rfl
  | commit m start₁ held₁ write₁ htxm =>
    obtain rfl := hown rfl
    rw [htxm] at htx
    cases htx
  | abort m =>
    obtain rfl := hown rfl
    rw [System.set_txs_self] at htx'
    cases htx'

/-- A transaction that commits has run the statements that were left. -/
theorem Run.executes (h : Run effect Program s s') {n : ℕ} {start : ℤ}
    {rest : List (Statement ι)} {held : List Mode} {write : σ → σ} {i : ι}
    (htx : s.txs n = .running start rest held write) (hi : .exec i ∈ rest)
    (hcommitted : s'.txs n = .committed) : Executes effect Program s s' n start i := by
  induction h using ReflTransGen.head_induction_on generalizing rest held write with
  | refl =>
    rw [htx] at hcommitted
    cases hcommitted
  | @head s s₁ hstep hrest ih =>
    have hlater {rest' held' write'} (htx' : s₁.txs n = .running start rest' held' write')
        (hi' : .exec i ∈ rest') : Executes effect Program s s' n start i := by
      obtain ⟨s₂, s₃, rest₂, held₂, write₂, change, hrun, htail⟩ := ih htx' hi'
      exact ⟨s₂, s₃, rest₂, held₂, write₂, change, .head hstep hrun, htail⟩
    obtain ⟨label, hlabel⟩ := hstep
    have hnext := hlabel.next n
    rw [htx] at hnext
    generalize htx₁ : s₁.txs n = tx₁, s₁.state = state₁ at hnext
    cases hnext with
    | same => exact hlater htx₁ hi
    | lock mode start rest' => exact hlater htx₁ ((List.mem_cons.mp hi).resolve_left nofun)
    | exec j start rest' held write change heffect =>
      obtain heq | hi' := List.mem_cons.mp hi
      · obtain rfl := Statement.exec.inj heq
        obtain rfl := hlabel.label_eq htx htx₁
        exact ⟨s, s₁, rest', held, write, change, .refl, htx, heffect, hlabel, htx₁, hrest⟩
      · exact hlater htx₁ hi'
    | commit => cases hi
    | abort =>
      have hended : (s₁.txs n).ended = true := by rw [htx₁]; rfl
      have hsame := Run.ended (s := s₁) hrest hended
      rw [hcommitted, htx₁] at hsame
      cases hsame

/-! ### What transactions write -/

/-- A property of the state that every statement keeps. -/
def Stable (effect : ι → ℤ → σ → Except ε (σ → σ)) (P : σ → Prop) : Prop :=
  ∀ i, Preserves effect P i

/-- The transaction has established `P`: what it writes has it, or the state it has written to. -/
def Tx.Establishes (P : σ → Prop) (state : σ) : Tx ι σ → Prop
  | .unborn => False
  | .running _ _ _ write => ∀ state, P (write state)
  | .committed => P state
  | .aborted => True

section

variable {P : σ → Prop}

/-- What is committed in a step keeps a stable property. -/
theorem Step.state (h : Step effect Program s label s')
    (hfollows : ∀ n, (s.txs n).Follows effect Program s.now) (hstable : Stable effect P)
    (hs : P s.state) : P s'.state := by
  cases h with
  | commit n start held write htx =>
    have hwrite := hfollows n
    rw [htx] at hwrite
    obtain ⟨-, done, -, -, hwrite⟩ := hwrite
    exact hwrite P (fun i _ => hstable i) _ hs
  | tick | begin | lock | exec | abort => exact hs

variable (hstable : Stable effect P)

include hstable

/-- A stable property of the committed state stays. -/
theorem Run.stable {state : σ} {now : ℤ} (hinitial : Run effect Program (.initial state now) s)
    (h : Run effect Program s s') (hs : P s.state) : P s'.state := by
  induction h with
  | refl => exact hs
  | tail hrun hlast ih =>
    obtain ⟨label, hlast⟩ := hlast
    exact hlast.state (fun n => Run.follows (hinitial.trans hrun) n) hstable ih

theorem Tx.Next.establishes {now : ℤ} {state state' : σ} {tx tx' : Tx ι σ}
    (h : Tx.Next effect Program now state state' tx tx') (hstate : P state → P state')
    (hestablishes : tx.Establishes P state) : tx'.Establishes P state' := by
  cases h with
  | same =>
    cases tx with
    | committed => exact hstate hestablishes
    | unborn | running | aborted => exact hestablishes
  | begin => exact hestablishes.elim
  | lock => exact hestablishes
  | exec i start rest held write change heffect =>
    exact fun state' => hstable i _ _ _ heffect _ (hestablishes state')
  | commit => exact hestablishes state
  | abort => trivial

/-- A stable property that a transaction has established holds when it has committed. -/
theorem Run.commits {state : σ} {now : ℤ} (hinitial : Run effect Program (.initial state now) s)
    (h : Run effect Program s s') {n : ℕ} (hestablishes : (s.txs n).Establishes P s.state)
    (hcommitted : s'.txs n = .committed) : P s'.state := by
  have hafter : (s'.txs n).Establishes P s'.state := by
    clear hcommitted
    induction h with
    | refl => exact hestablishes
    | tail hrun hlast ih =>
      obtain ⟨label, hlast⟩ := hlast
      exact (hlast.next n).establishes hstable
        (hlast.state (fun n => Run.follows (hinitial.trans hrun) n) hstable) ih
  rw [hcommitted] at hafter
  exact hafter

end

/-! ### Transactions alone -/

/-- What a transaction does that runs alone. -/
def alone (effect : ι → ℤ → σ → Except ε (σ → σ)) (start : ℤ) :
    List (Statement ι) → σ → Except ε σ
  | [], state => .ok state
  | .lock _ :: rest, state => alone effect start rest state
  | .exec i :: rest, state =>
    match effect i start state with
    | .error e => .error e
    | .ok change => alone effect start rest (change state)

/-- The rest of a transaction, while no other one has the lock. -/
theorem run_rest {n : ℕ} {start : ℤ} {rest : List (Statement ι)} {held : List Mode}
    {write : σ → σ} {state' : σ} (htx : s.txs n = .running start rest held write)
    (hfree : ∀ m, m ≠ n → (s.txs m).held = [])
    (halone : alone effect start rest (write s.state) = .ok state') :
    Run effect Program s ({ s with state := state' }.set n .committed) := by
  induction rest generalizing s held write with
  | nil =>
    obtain rfl := Except.ok.inj halone
    exact .single ⟨_, .commit n start held write htx⟩
  | cons st rest ih =>
    -- the step to a state in which the rest is run
    have hrest {held' : List Mode} {write' : σ → σ} {label : Label ι}
        (hstep : Step effect Program s label (s.set n (.running start rest held' write')))
        (halone' : alone effect start rest (write' s.state) = .ok state') :
        Run effect Program s ({ s with state := state' }.set n .committed) := by
      have htail := ih (System.set_txs_self s n (.running start rest held' write'))
        (fun m hm => (s.held_set _ hm).trans (hfree m hm)) halone'
      rw [System.set_set] at htail
      exact .head ⟨label, hstep⟩ htail
    cases st with
    | lock mode =>
      refine hrest (.lock n mode start rest held write htx ?_) halone
      cases mode with
      | shared => exact fun m hm => by simp [hfree m hm]
      | exclusive => exact hfree
    | exec i =>
      rw [alone] at halone
      cases heffect : effect i start (write s.state) with
      | error e => simp [heffect] at halone
      | ok change =>
        rw [heffect] at halone
        exact hrest (.exec n i start rest held write change htx heffect) halone

/-- A transaction that runs alone commits. -/
theorem run_alone {n : ℕ} {program : List (Statement ι)} {state' : σ} (htx : s.txs n = .unborn)
    (hprogram : Program program) (hfree : ∀ m, m ≠ n → (s.txs m).held = [])
    (halone : alone effect s.now program s.state = .ok state') :
    Run effect Program s ({ s with state := state' }.set n .committed) := by
  have hrest : Run effect Program (s.set n (.running s.now program [] id)) _ :=
    run_rest (System.set_txs_self s n _) (fun m hm => (s.held_set _ hm).trans (hfree m hm)) halone
  rw [System.set_set] at hrest
  exact .head ⟨_, .begin n program htx hprogram⟩ hrest

end Buzz.Library.ReadCommitted
