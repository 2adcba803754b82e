import Mathlib.Data.Int.Notation
import Mathlib.Logic.Function.Basic
import Mathlib.Logic.Relation
import Buzz.Library.Interaction

/-!
# Transactions under locks

A transaction is a program that asks a database: for a lock, which it holds to its end, for what it
sees, which is what is committed then with its own writes, or for a write. It sees when it began.
Processes run operations as transactions, one after the other, and act on a world outside of the
database. A transaction may be lost, and a process may stop, at any time. A transaction is reasoned
about by what others may commit against its locks.

## Main definitions

* `Transaction`, `Process`, `System`.
* `Step`, `Reachable`: the interleavings, with their events, the most recent first.
* `Follows`: the systems that follow one.
* `Guarded`: rows that change under their locks only.
* `alone`, `sequence`: transactions that no other one meets, one after the other.
* `Relies`: what others may commit against locks, as far as every commit is guaranteed.
* `Safe`: whatever others commit, the transaction ends as stated.
* `Finishes`, `Committed`: what it commits then is guaranteed, and is a commit of its operation.
* `Does`: the part of a transaction that is left goes on with guaranteed writes.

## Main results

* `safe_bind`, `Safe.mono`, `Safe.relies`: the rules of composition.
* `does_bind`, `does_lock`, `does_read`, `does_write`, `Does.finishes`: the same, with the writes so
  far guaranteed.
* `Reachable.commits`: where all operations are safe, every commit is a commit of its operation.
* `Reachable.maintains`, `Reachable.keeps`: what every commit keeps, is kept along a run.
* `Sequential.commits`: what runs alone is committed.
-/

namespace Buzz.Library.Transactions

open Relation (ReflTransGen)

/-- How a lock is held. -/
inductive Mode
  | shared
  | exclusive
  deriving DecidableEq

/-- What a transaction asks. A lock may be asked for without waiting. -/
inductive Query (κ σ : Type)
  | lock (k : κ) (mode : Mode)
  | tryLock (k : κ)
  | read
  | write (f : σ → σ)

section

variable {κ σ ε α β : Type}

def Reply : Query κ σ → Type
  | .lock .. | .write _ => PUnit
  | .tryLock _ => Bool
  | .read => σ

/-- A transaction that has a result commits, and one that has an error is rolled back. -/
abbrev Transaction (κ σ ε α : Type) := Interaction (@Reply κ σ) ε α

def lock (k : κ) (mode : Mode) : Transaction κ σ ε PUnit :=
  .call (.lock k mode) fun _ => .done (.ok ⟨⟩)

def tryLock (k : κ) : Transaction κ σ ε Bool := .call (.tryLock k) fun b => .done (.ok b)

def read : Transaction κ σ ε σ := .call .read fun v => .done (.ok v)

def write (f : σ → σ) : Transaction κ σ ε PUnit := .call (.write f) fun _ => .done (.ok ⟨⟩)

/-- A transaction that goes on only under a condition. -/
def require (c : Bool) (e : ε) : Transaction κ σ ε PUnit :=
  if c then pure ⟨⟩ else Interaction.fail e

def okOr (e : ε) : Option α → Transaction κ σ ε α
  | some a => pure a
  | none => Interaction.fail e

/-- The locks of a transaction. -/
abbrev Held (κ : Type) := List (κ × Mode)

/-- No lock of one is a lock of the other, unless both are shared. -/
def Compatible (held held' : Held κ) : Prop :=
  ∀ k mode mode', (k, mode) ∈ held → (k, mode') ∈ held' → mode = .shared ∧ mode' = .shared

theorem Compatible.symm {held held' : Held κ} (h : Compatible held held') :
    Compatible held' held := fun k mode mode' hm hm' => (h k mode' mode hm' hm).symm

theorem Compatible.exclusive {held held' : Held κ} (h : Compatible held held') {k : κ}
    (hk : (k, .exclusive) ∈ held) (mode : Mode) : (k, mode) ∉ held' := fun hk' =>
  Mode.noConfusion (h k .exclusive mode hk hk').1

/-! ### What others may commit -/

/-- `G held` is what a transaction may commit that has the locks `held`. -/
def Rely (G : Held κ → σ → σ → Prop) (held : Held κ) (state state' : σ) : Prop :=
  ∃ held', Compatible held held' ∧ G held' state state'

def Relies (G : Held κ → σ → σ → Prop) (held : Held κ) : σ → σ → Prop :=
  ReflTransGen (Rely G held)

variable {G : Held κ → σ → σ → Prop} {held : Held κ} {w : σ → σ} {state state' : σ}

/-- What each commit of others keeps. -/
theorem Relies.invariant {P : σ → Prop} (h : Relies G held state state')
    (hstep : ∀ held' s s', Compatible held held' → G held' s s' → P s → P s')
    (hstate : P state) : P state' := by
  induction h with
  | refl => exact hstate
  | tail _ hlast ih =>
    obtain ⟨held', hcompatible, hG⟩ := hlast
    exact hstep held' _ _ hcompatible hG ih

theorem Relies.trans {state'' : σ} (h : Relies G held state state')
    (h' : Relies G held state' state'') : Relies G held state state'' := ReflTransGen.trans h h'

/-- What is guaranteed also guarantees less. -/
theorem Relies.mono {G' : Held κ → σ → σ → Prop} (h : Relies G held state state')
    (hG : ∀ held s s', G held s s' → G' held s s') : Relies G' held state state' := by
  refine ReflTransGen.mono (r := Rely G held) ?_ _ _ h
  rintro s s' ⟨held', hcompatible, hs⟩
  exact ⟨held', hcompatible, hG held' s s' hs⟩

/-- With fewer locks, others may commit more. -/
theorem Relies.of_subset {held' : Held κ} (h : Relies G held' state state')
    (hsubset : held ⊆ held') : Relies G held state state' := by
  refine ReflTransGen.mono (r := Rely G held') ?_ _ _ h
  rintro s s' ⟨held₁, hcompatible, hG⟩
  exact ⟨held₁, fun k mode mode' hk => hcompatible k mode mode' (hsubset hk), hG⟩

theorem Relies.unlocked (h : Relies G held state state') : Relies G [] state state' :=
  h.of_subset (List.nil_subset _)

/-! ### Rows under locks -/

section

variable {ρ ν : Type*} {lockOf : ρ → κ} {row : σ → ρ → ν}

/-- A row changes only under its lock. -/
def Guarded (lockOf : ρ → κ) (row : σ → ρ → ν) (held : Held κ) (state state' : σ) : Prop :=
  ∀ k, row state' k = row state k ∨ (lockOf k, .exclusive) ∈ held

theorem Guarded.refl (held : Held κ) (state : σ) : Guarded lockOf row held state state :=
  fun _ => .inl rfl

theorem Guarded.trans {state'' : σ} (h : Guarded lockOf row held state state')
    (h' : Guarded lockOf row held state' state'') : Guarded lockOf row held state state'' := by
  intro k
  rcases h' k with heq | hlock
  · rw [heq]
    exact h k
  · exact .inr hlock

theorem Guarded.mono {held' : Held κ} (hsubset : held ⊆ held')
    (h : Guarded lockOf row held state state') : Guarded lockOf row held' state state' :=
  fun k => (h k).imp_right fun hlock => hsubset hlock

/-- A row stays as long as its lock is held. -/
theorem Relies.row_eq (h : Relies G held state state')
    (hG : ∀ held s s', G held s s' → Guarded lockOf row held s s') {k : ρ} {mode : Mode}
    (hk : (lockOf k, mode) ∈ held) : row state' k = row state k := by
  refine h.invariant (P := fun s => row s k = row state k) (fun held' s s' hcompatible hs heq => ?_)
    rfl
  rcases hG held' s s' hs k with hsame | hlock
  · exact hsame.trans heq
  · exact absurd hk (hcompatible.symm.exclusive hlock mode)

end

/-! ### Transactions against others -/

/-- What is stated of the end of a transaction: of its result, its locks, its writes, and what is
committed then. -/
abbrev Ending (κ σ α : Type) := α → Held κ → (σ → σ) → σ → Prop

/-- Whatever others commit, the transaction ends as `K` states, which is told its result, its locks,
what it is about to commit, and the committed state; or it has an error. -/
def Safe (G : Held κ → σ → σ → Prop) : Transaction κ σ ε α →
    (α → Held κ → (σ → σ) → σ → Prop) → Held κ → (σ → σ) → σ → Prop
  | .done (.ok a), K, held, w, state => K a held w state
  | .done (.error _), _, _, _, _ => True
  | .cut, _, _, _, _ => True
  | .call (.lock k mode) next, K, held, w, state => ∀ state', Relies G held state state' →
      Safe G (next ⟨⟩) K ((k, mode) :: held) w state'
  | .call (.tryLock k) next, K, held, w, state => ∀ state', Relies G held state state' →
      Safe G (next true) K ((k, .exclusive) :: held) w state' ∧ Safe G (next false) K held w state'
  | .call .read next, K, held, w, state => ∀ state', Relies G held state state' →
      Safe G (next (w state')) K held w state'
  | .call (.write f) next, K, held, w, state => Safe G (next ⟨⟩) K held (f ∘ w) state

variable {K K' : Ending κ σ α} {p : Transaction κ σ ε α}

@[simp] theorem safe_bind {f : α → Transaction κ σ ε β} {K : Ending κ σ β} :
    Safe G (p >>= f) K held w state ↔
      Safe G p (fun a held w state => Safe G (f a) K held w state) held w state := by
  induction p generalizing held w state with
  | done result => cases result <;> rfl
  | cut => rfl
  | call c next ih =>
    cases c with
    | lock k mode => exact forall_congr' fun s => forall_congr' fun _ => ih ⟨⟩
    | tryLock k =>
      exact forall_congr' fun s => forall_congr' fun _ => and_congr (ih true) (ih false)
    | read => exact forall_congr' fun s => forall_congr' fun _ => ih (w s)
    | write f => exact ih ⟨⟩

theorem Safe.mono (h : Safe G p K held w state)
    (hK : ∀ a held w state, K a held w state → K' a held w state) :
    Safe G p K' held w state := by
  induction p generalizing held w state with
  | done result =>
    cases result with
    | ok a => exact hK _ _ _ _ h
    | error e => trivial
  | cut => trivial
  | call c next ih =>
    cases c with
    | lock k mode => exact fun s hs => ih _ (h s hs)
    | tryLock k => exact fun s hs => ⟨ih _ (h s hs).1, ih _ (h s hs).2⟩
    | read => exact fun s hs => ih _ (h s hs)
    | write f => exact ih _ h

/-- What others commit before the next query is no more than they may commit. -/
theorem Safe.relies (h : Safe G p K held w state) (hrelies : Relies G held state state')
    (hK : ∀ a held w s s', K a held w s → Relies G held s s' → K a held w s') :
    Safe G p K held w state' := by
  induction p generalizing held w state state' with
  | done result =>
    cases result with
    | ok a => exact hK _ _ _ _ _ h hrelies
    | error e => trivial
  | cut => trivial
  | call c next ih =>
    cases c with
    | lock k mode => exact fun s hs => h s (hrelies.trans hs)
    | tryLock k => exact fun s hs => h s (hrelies.trans hs)
    | read => exact fun s hs => h s (hrelies.trans hs)
    | write f => exact ih ⟨⟩ h hrelies

/-- What is committed is guaranteed, and satisfies `Q`. -/
def Finishes (G : Held κ → σ → σ → Prop) (Q : α → σ → σ → Prop) (a : α) (held : Held κ)
    (w : σ → σ) (state : σ) : Prop :=
  ∀ state', Relies G held state state' → Q a state' (w state') ∧ G held state' (w state')

theorem Finishes.relies {Q : α → σ → σ → Prop} {a : α} (h : Finishes G Q a held w state)
    (hrelies : Relies G held state state') : Finishes G Q a held w state' :=
  fun s hs => h s (hrelies.trans hs)

/-! ### What is written so far -/

/-- What may be committed may be committed in parts, and with more locks. -/
structure Composable (G : Held κ → σ → σ → Prop) : Prop where
  refl : ∀ held state, G held state state
  trans : ∀ {held state state' state''}, G held state state' → G held state' state'' →
    G held state state''
  mono : ∀ {held held' state state'}, held ⊆ held' → G held state state' → G held' state state'

/-- What is to be committed satisfies `R`, whatever others commit. -/
def Always (G : Held κ → σ → σ → Prop) (R : σ → σ → Prop) (held : Held κ) (w : σ → σ)
    (state : σ) : Prop := ∀ state', Relies G held state state' → R state' (w state')

theorem Always.relies {R : σ → σ → Prop} (h : Always G R held w state)
    (hrelies : Relies G held state state') : Always G R held w state' :=
  fun s hs => h s (hrelies.trans hs)

theorem Always.imp {R R' : σ → σ → Prop} (h : Always G R held w state)
    (hR : ∀ s, Relies G held state s → R s (w s) → R' s (w s)) : Always G R' held w state :=
  fun s hs => hR s hs (h s hs)

theorem Always.of_subset {R : σ → σ → Prop} {held' : Held κ} (h : Always G R held w state)
    (hsubset : held ⊆ held') : Always G R held' w state := fun s hs => h s (hs.of_subset hsubset)

/-- The transaction goes on with its locks to where it ends as `K` states, and what it is to commit
stays guaranteed. -/
def Does (G : Held κ → σ → σ → Prop) (p : Transaction κ σ ε α)
    (K : α → Held κ → (σ → σ) → σ → Prop) (held : Held κ) (w : σ → σ) (state : σ) : Prop :=
  Always G (G held) held w state → Safe G p (fun a held' w' state' => held ⊆ held' ∧
    Relies G held state state' ∧ Always G (G held') held' w' state' ∧ K a held' w' state')
    held w state

theorem Does.mono (h : Does G p K held w state)
    (hK : ∀ a held' w' state', held ⊆ held' → Relies G held state state' →
      K a held' w' state' → K' a held' w' state') : Does G p K' held w state :=
  fun hready => (h hready).mono fun a held' w' state' hend =>
    ⟨hend.1, hend.2.1, hend.2.2.1, hK a held' w' state' hend.1 hend.2.1 hend.2.2.2⟩

theorem does_bind {f : α → Transaction κ σ ε β} {K : Ending κ σ β}
    (h : Does G p (fun a held' w' state' => Does G (f a) K held' w' state') held w state) :
    Does G (p >>= f) K held w state := fun hready => by
  refine safe_bind.mpr ((h hready).mono fun a held' w' state' hend => ?_)
  obtain ⟨hsubset, hrelies, hready', hrest⟩ := hend
  refine (hrest hready').mono fun b held'' w'' state'' hend => ?_
  obtain ⟨hsubset', hrelies', hready'', hK⟩ := hend
  exact ⟨List.Subset.trans hsubset hsubset', hrelies.trans (hrelies'.of_subset hsubset),
    hready'', hK⟩

theorem does_pure {a : α} (h : K a held w state) :
    Does G (pure a : Transaction κ σ ε α) K held w state :=
  fun hready => ⟨List.Subset.refl _, .refl, hready, h⟩

theorem does_fail {e : ε} : Does G (Interaction.fail e : Transaction κ σ ε α) K held w state :=
  fun _ => trivial

theorem does_require {c : Bool} {e : ε} {K : Ending κ σ PUnit}
    (h : c = true → K ⟨⟩ held w state) :
    Does G (require c e : Transaction κ σ ε PUnit) K held w state := by
  cases c with
  | true => exact does_pure (h rfl)
  | false => exact does_fail

theorem does_okOr {e : ε} {o : Option α} (h : ∀ a, o = some a → K a held w state) :
    Does G (okOr e o : Transaction κ σ ε α) K held w state := by
  cases o with
  | some a => exact does_pure (h a rfl)
  | none => exact does_fail

theorem does_read {K : Ending κ σ σ}
    (h : ∀ state', Relies G held state state' → K (w state') held w state') :
    Does G (read : Transaction κ σ ε σ) K held w state :=
  fun hready state' hrelies =>
    ⟨List.Subset.refl _, hrelies, hready.relies hrelies, h state' hrelies⟩

section

variable (hG : Composable G)

include hG

theorem does_lock {k : κ} {mode : Mode} {K : Ending κ σ PUnit}
    (h : ∀ state', Relies G held state state' → K ⟨⟩ ((k, mode) :: held) w state') :
    Does G (lock k mode : Transaction κ σ ε PUnit) K held w state := by
  intro hready state' hrelies
  have hsubset : held ⊆ (k, mode) :: held := List.subset_cons_self _ _
  exact ⟨hsubset, hrelies, ((hready.relies hrelies).of_subset hsubset).imp fun _ _ hw =>
    hG.mono hsubset hw, h state' hrelies⟩

theorem does_tryLock {k : κ} {K : Ending κ σ Bool}
    (htrue : ∀ state', Relies G held state state' → K true ((k, .exclusive) :: held) w state')
    (hfalse : ∀ state', Relies G held state state' → K false held w state') :
    Does G (tryLock k : Transaction κ σ ε Bool) K held w state := by
  intro hready state' hrelies
  have hsubset : held ⊆ (k, .exclusive) :: held := List.subset_cons_self _ _
  exact ⟨⟨hsubset, hrelies, ((hready.relies hrelies).of_subset hsubset).imp fun _ _ hw =>
    hG.mono hsubset hw, htrue state' hrelies⟩, List.Subset.refl _, hrelies,
    hready.relies hrelies, hfalse state' hrelies⟩

theorem does_write {f : σ → σ} {K : Ending κ σ PUnit}
    (hf : ∀ state', Relies G held state state' → G held (w state') (f (w state')))
    (h : K ⟨⟩ held (f ∘ w) state) :
    Does G (write f : Transaction κ σ ε PUnit) K held w state :=
  fun hready => ⟨List.Subset.refl _, .refl,
    fun s hs => hG.trans (hready s hs) (hf s hs), h⟩

/-- A transaction that ends as stated, from its beginning. -/
theorem Does.finishes {Q : α → σ → σ → Prop}
    (h : Does G p (fun a => Always G (Q a)) [] id state) :
    Safe G p (Finishes G Q) [] id state :=
  (h fun s _ => hG.refl [] s).mono fun _ _ _ _ hend s hs => ⟨hend.2.2.2 s hs, hend.2.2.1 s hs⟩

end

end

-- from here on a transaction is reasoned about by the rules, never by running it
attribute [irreducible] Does

/-! ### Systems -/

/-- What a process asks: to run an operation, or to act on the world. -/
inductive Call (ι χ : Type)
  | transact (op : ι)
  | act (x : χ)

section

variable {κ σ ε ι χ ω : Type} {R : ι → Type} {B : χ → Type}

def Answer (ε : Type) (R : ι → Type) (B : χ → Type) : Call ι χ → Type
  | .transact op => Except ε (R op)
  | .act x => B x

abbrev Process (ε : Type) (R : ι → Type) (B : χ → Type) := Interaction (Answer ε R B) ε PUnit

/-- A process, with what it has seen. While it runs an operation it has the start of the
transaction, its locks, what it is about to commit, and what is left of it. -/
inductive Session (κ σ ε : Type) (R : ι → Type) (B : χ → Type)
  | idle (seen : History (Answer ε R B)) (process : Process ε R B)
  | busy (seen : History (Answer ε R B)) (op : ι) (start : ℤ) (begun : σ) (held : Held κ)
      (w : σ → σ) (tx : Transaction κ σ ε (R op)) (next : Except ε (R op) → Process ε R B)

namespace Session

def held : Session κ σ ε R B → Held κ
  | idle .. => []
  | busy _ _ _ _ held _ _ _ => held

end Session

/-- What is committed, the world, the clock and the sessions. -/
structure System (κ σ ε ω : Type) (R : ι → Type) (B : χ → Type) where
  db : σ
  world : ω
  now : ℤ
  sessions : ℕ → Session κ σ ε R B

namespace System

def initial (db : σ) (world : ω) (now : ℤ) (processes : ℕ → Process ε R B) :
    System κ σ ε ω R B := ⟨db, world, now, fun n => .idle [] (processes n)⟩

def set (s : System κ σ ε ω R B) (n : ℕ) (session : Session κ σ ε R B) : System κ σ ε ω R B :=
  { s with sessions := Function.update s.sessions n session }

/-- No other transaction has a lock that conflicts. -/
def Grants (s : System κ σ ε ω R B) (n : ℕ) (k : κ) (mode : Mode) : Prop :=
  ∀ m, m ≠ n → Compatible [(k, mode)] (s.sessions m).held

@[simp] theorem set_sessions_self (s : System κ σ ε ω R B) (n : ℕ)
    (session : Session κ σ ε R B) : (s.set n session).sessions n = session :=
  Function.update_self _ _ _

theorem set_sessions_of_ne (s : System κ σ ε ω R B) {m n : ℕ} (session : Session κ σ ε R B)
    (h : m ≠ n) : (s.set n session).sessions m = s.sessions m := Function.update_of_ne h _ _

theorem set_set (s : System κ σ ε ω R B) (n : ℕ) (session session' : Session κ σ ε R B) :
    (s.set n session).set n session' = s.set n session' := by
  simp [set]

theorem set_self (s : System κ σ ε ω R B) (n : ℕ) : s.set n (s.sessions n) = s := by
  simp [set]

end System

/-- What happens in a step. A commit is seen as such by its process, or as an error. -/
inductive Happening (σ ε : Type) (R : ι → Type) (B : χ → Type)
  | tick
  | drift
  | begin (n : ℕ) (op : ι)
  | proceed (n : ℕ)
  | commit (n : ℕ) (op : ι) (result : R op) (start : ℤ) (begun before after : σ)
  | fail (n : ℕ) (op : ι) (e : ε)
  | act (n : ℕ) (x : χ) (b : B x)
  | stop (n : ℕ)

variable (program : (op : ι) → ℤ → Transaction κ σ ε (R op))
  (acts : ω → (x : χ) → B x → ω → Prop) (drifts : ω → ω → Prop)

/-- One step. -/
inductive Step (s : System κ σ ε ω R B) : Happening σ ε R B → System κ σ ε ω R B → Prop
  | tick (now : ℤ) (hnow : s.now ≤ now) : Step s .tick { s with now := now }
  | drift (world : ω) (hdrifts : drifts s.world world) : Step s .drift { s with world := world }
  | begin (n : ℕ) (seen : History (Answer ε R B)) (op : ι)
      (next : Except ε (R op) → Process ε R B)
      (hn : s.sessions n = .idle seen (.call (.transact op) next)) :
      Step s (.begin n op) (s.set n (.busy seen op s.now s.db [] id (program op s.now) next))
  | lock (n : ℕ) (seen : History (Answer ε R B)) (op : ι) (start : ℤ) (begun : σ) (held : Held κ)
      (w : σ → σ) (k : κ) (mode : Mode) (tx : PUnit → Transaction κ σ ε (R op))
      (next : Except ε (R op) → Process ε R B)
      (hn : s.sessions n = .busy seen op start begun held w (.call (.lock k mode) tx) next)
      (hgrants : s.Grants n k mode) :
      Step s (.proceed n) (s.set n (.busy seen op start begun ((k, mode) :: held) w (tx ⟨⟩) next))
  | tryLock (n : ℕ) (seen : History (Answer ε R B)) (op : ι) (start : ℤ) (begun : σ)
      (held : Held κ) (w : σ → σ) (k : κ) (tx : Bool → Transaction κ σ ε (R op))
      (next : Except ε (R op) → Process ε R B)
      (hn : s.sessions n = .busy seen op start begun held w (.call (.tryLock k) tx) next)
      (hgrants : s.Grants n k .exclusive) :
      Step s (.proceed n)
        (s.set n (.busy seen op start begun ((k, .exclusive) :: held) w (tx true) next))
  | skipLocked (n : ℕ) (seen : History (Answer ε R B)) (op : ι) (start : ℤ) (begun : σ)
      (held : Held κ) (w : σ → σ) (k : κ) (tx : Bool → Transaction κ σ ε (R op))
      (next : Except ε (R op) → Process ε R B)
      (hn : s.sessions n = .busy seen op start begun held w (.call (.tryLock k) tx) next)
      (hgrants : ¬ s.Grants n k .exclusive) :
      Step s (.proceed n) (s.set n (.busy seen op start begun held w (tx false) next))
  | read (n : ℕ) (seen : History (Answer ε R B)) (op : ι) (start : ℤ) (begun : σ)
      (held : Held κ) (w : σ → σ) (tx : σ → Transaction κ σ ε (R op))
      (next : Except ε (R op) → Process ε R B)
      (hn : s.sessions n = .busy seen op start begun held w (.call .read tx) next) :
      Step s (.proceed n) (s.set n (.busy seen op start begun held w (tx (w s.db)) next))
  | write (n : ℕ) (seen : History (Answer ε R B)) (op : ι) (start : ℤ) (begun : σ)
      (held : Held κ) (w : σ → σ) (f : σ → σ) (tx : PUnit → Transaction κ σ ε (R op))
      (next : Except ε (R op) → Process ε R B)
      (hn : s.sessions n = .busy seen op start begun held w (.call (.write f) tx) next) :
      Step s (.proceed n) (s.set n (.busy seen op start begun held (f ∘ w) (tx ⟨⟩) next))
  | commit (n : ℕ) (seen : History (Answer ε R B)) (op : ι) (start : ℤ) (begun : σ)
      (held : Held κ) (w : σ → σ) (result : R op) (next : Except ε (R op) → Process ε R B)
      (hn : s.sessions n = .busy seen op start begun held w (.done (.ok result)) next)
      (answer : Except ε (R op)) (hanswer : answer = .ok result ∨ ∃ e, answer = .error e) :
      Step s (.commit n op result start begun s.db (w s.db))
        ({ s with db := w s.db }.set n (.idle (⟨.transact op, answer⟩ :: seen) (next answer)))
  | fail (n : ℕ) (seen : History (Answer ε R B)) (op : ι) (start : ℤ) (begun : σ)
      (held : Held κ) (w : σ → σ) (tx : Transaction κ σ ε (R op))
      (next : Except ε (R op) → Process ε R B)
      (hn : s.sessions n = .busy seen op start begun held w tx next) (e : ε) :
      Step s (.fail n op e)
        (s.set n (.idle (⟨.transact op, .error e⟩ :: seen) (next (.error e))))
  | act (n : ℕ) (seen : History (Answer ε R B)) (x : χ) (next : B x → Process ε R B)
      (hn : s.sessions n = .idle seen (.call (.act x) next)) (b : B x) (world : ω)
      (hacts : acts s.world x b world) :
      Step s (.act n x b)
        ({ s with world := world }.set n (.idle (⟨.act x, b⟩ :: seen) (next b)))
  | stop (n : ℕ) : Step s (.stop n) (s.set n (.idle [] .cut))

/-- The states of a system and what has happened, the most recent first. -/
inductive Reachable (s₀ : System κ σ ε ω R B) :
    List (Happening σ ε R B) → System κ σ ε ω R B → Prop
  | start : Reachable s₀ [] s₀
  | step {h : List (Happening σ ε R B)} {s s' : System κ σ ε ω R B} {e : Happening σ ε R B}
      (hreachable : Reachable s₀ h s) (hstep : Step program acts drifts s e s') :
      Reachable s₀ (e :: h) s'

/-- The systems that follow one. -/
def Follows : System κ σ ε ω R B → System κ σ ε ω R B → Prop :=
  ReflTransGen fun s s' => ∃ e, Step program acts drifts s e s'

variable {program acts drifts} in
theorem Reachable.follows {s₀ s s' : System κ σ ε ω R B} {h : List (Happening σ ε R B)}
    (hr : Reachable program acts drifts s₀ h s) (hfollows : Follows program acts drifts s s') :
    ∃ h', Reachable program acts drifts s₀ h' s' := by
  induction hfollows with
  | refl => exact ⟨h, hr⟩
  | tail _ hstep ih =>
    obtain ⟨h', hr'⟩ := ih
    obtain ⟨e, hstep⟩ := hstep
    exact ⟨e :: h', .step hr' hstep⟩

/-! ### Transactions that run alone -/

/-- A transaction that no other one meets, with its result and what it is to commit. -/
def alone {α : Type} : Transaction κ σ ε α → (σ → σ) → σ → Option (α × (σ → σ))
  | .done (.ok a), w, _ => some (a, w)
  | .done (.error _), _, _ => none
  | .cut, _, _ => none
  | .call (.lock _ _) next, w, db => alone (next ⟨⟩) w db
  | .call (.tryLock _) next, w, db => alone (next true) w db
  | .call .read next, w, db => alone (next (w db)) w db
  | .call (.write f) next, w, db => alone (next ⟨⟩) (f ∘ w) db

section

variable {program acts drifts} {s : System κ σ ε ω R B} {n : ℕ}

theorem System.grants_alone (halone : ∀ m, m ≠ n → (s.sessions m).held = []) (k : κ)
    (mode : Mode) : s.Grants n k mode := fun m hm _ _ _ _ hheld => by
  rw [halone m hm] at hheld
  cases hheld

theorem System.held_set_alone (halone : ∀ m, m ≠ n → (s.sessions m).held = [])
    (session : Session κ σ ε R B) (m : ℕ) (hm : m ≠ n) :
    ((s.set n session).sessions m).held = [] := by
  rw [System.set_sessions_of_ne _ _ hm]
  exact halone m hm

/-- One step of a transaction, and then the rest of it. -/
theorem follows_step {session : Session κ σ ε R B} {P : Session κ σ ε R B → Prop}
    (hstep : Step program acts drifts s (.proceed n) (s.set n session))
    (hrest : ∃ end_, P end_ ∧
      Follows program acts drifts (s.set n session) ((s.set n session).set n end_)) :
    ∃ end_, P end_ ∧ Follows program acts drifts s (s.set n end_) := by
  obtain ⟨end_, hend, hrest⟩ := hrest
  rw [System.set_set] at hrest
  exact ⟨end_, hend, .head ⟨_, hstep⟩ hrest⟩

/-- A transaction that runs alone comes to its end. -/
theorem follows_alone {op : ι} {next : Except ε (R op) → Process ε R B}
    {seen : History (Answer ε R B)} {start : ℤ} {begun : σ} {result : R op} {w' : σ → σ}
    (tx : Transaction κ σ ε (R op)) (held : Held κ) (w : σ → σ)
    (halone : ∀ m, m ≠ n → (s.sessions m).held = [])
    (hn : s.sessions n = .busy seen op start begun held w tx next)
    (hrun : alone tx w s.db = some (result, w')) :
    ∃ session, (∃ held', session = .busy seen op start begun held' w' (.done (.ok result)) next) ∧
      Follows program acts drifts s (s.set n session) := by
  induction tx generalizing s held w with
  | done result' =>
    cases result' with
    | error e => cases hrun
    | ok a =>
      obtain ⟨rfl, rfl⟩ := Prod.mk.inj (Option.some.inj hrun)
      refine ⟨_, ⟨held, rfl⟩, ?_⟩
      rw [← hn, System.set_self]
      exact .refl
  | cut => cases hrun
  | call c tx ih =>
    cases c with
    | lock k mode =>
      exact follows_step (.lock n seen op start begun held w k mode tx next hn
        (System.grants_alone halone k mode))
        (ih ⟨⟩ _ _ (System.held_set_alone halone _) (System.set_sessions_self _ _ _) hrun)
    | tryLock k =>
      exact follows_step (.tryLock n seen op start begun held w k tx next hn
        (System.grants_alone halone k .exclusive))
        (ih true _ _ (System.held_set_alone halone _) (System.set_sessions_self _ _ _) hrun)
    | read =>
      exact follows_step (.read n seen op start begun held w tx next hn)
        (ih (w s.db) _ _ (System.held_set_alone halone _) (System.set_sessions_self _ _ _) hrun)
    | write f =>
      exact follows_step (.write n seen op start begun held w f tx next hn)
        (ih ⟨⟩ _ _ (System.held_set_alone halone _) (System.set_sessions_self _ _ _) hrun)

/-- An operation that runs alone is begun, and committed. -/
theorem commits_alone {op : ι} {next : Except ε (R op) → Process ε R B}
    {seen : History (Answer ε R B)} {result : R op} {w : σ → σ}
    (halone : ∀ m, m ≠ n → (s.sessions m).held = [])
    (hn : s.sessions n = .idle seen (.call (.transact op) next))
    (hrun : alone (program op s.now) id s.db = some (result, w)) :
    ∃ s₁, Follows program acts drifts s s₁ ∧ s₁.db = s.db ∧
      Step program acts drifts s₁ (.commit n op result s.now s.db s.db (w s.db))
        ({ s with db := w s.db }.set n (.idle (⟨.transact op, .ok result⟩ :: seen)
          (next (.ok result)))) := by
  obtain ⟨_, ⟨held', rfl⟩, hfollows⟩ := follows_alone (program op s.now) [] id
    (System.held_set_alone halone _) (System.set_sessions_self _ _ _) hrun
  rw [System.set_set] at hfollows
  refine ⟨_, .head ⟨_, .begin n seen op next hn⟩ hfollows, rfl, ?_⟩
  have hset : ({ s.set n (.busy seen op s.now s.db held' w (.done (.ok result)) next) with
      db := w s.db } : System κ σ ε ω R B).set n (.idle (⟨.transact op, .ok result⟩ :: seen)
        (next (.ok result))) = { s with db := w s.db }.set n (.idle (⟨.transact op, .ok result⟩ ::
          seen) (next (.ok result))) := System.set_set { s with db := w s.db } n _ _
  rw [← hset]
  exact .commit n seen op s.now s.db held' w result next (System.set_sessions_self s n _)
    (.ok result) (.inl rfl)

end

/-- A process that runs operations one after the other. -/
def sequence : List ι → Process ε R B
  | [] => .done (.ok ⟨⟩)
  | op :: rest => .call (.transact op) fun _ => sequence rest

/-- Only process 0 does anything, and it is about to run operations. -/
structure Sequential (s : System κ σ ε ω R B) (ops : List ι) : Prop where
  next : ∃ seen, s.sessions 0 = .idle seen (sequence ops)
  others : ∀ m, m ≠ 0 → (s.sessions m).held = []

theorem sequential_initial (db : σ) (world : ω) (now : ℤ) (ops : List ι) :
    Sequential (System.initial db world now fun n => if n = 0 then sequence ops else .cut :
      System κ σ ε ω R B) ops :=
  ⟨⟨[], rfl⟩, fun _ _ => rfl⟩

/-- A step that commits an operation. -/
def Commitment (op : ι) (result : R op) (start : ℤ) (s s' : System κ σ ε ω R B) : Prop :=
  ∃ n begun, Step program acts drifts s (.commit n op result start begun s.db s'.db) s'

/-- An operation that runs alone from `db`, and is not refused, is committed. -/
theorem Sequential.commits {s : System κ σ ε ω R B} {op : ι} {ops : List ι} {result : R op}
    {start : ℤ} {db db' : σ} (hs : Sequential s (op :: ops)) (hnow : s.now = start)
    (hdb : s.db = db)
    (hrun : (alone (program op start) id db).map (fun r => (r.1, r.2 db)) = some (result, db')) :
    ∃ s₁ s₂ : System κ σ ε ω R B, Follows program acts drifts s s₁ ∧ s₁.db = db ∧
      Commitment program acts drifts op result start s₁ s₂ ∧ s₂.db = db' ∧ s₂.now = start ∧
        Sequential s₂ ops := by
  subst hnow hdb
  obtain ⟨⟨result', w⟩, hw, hafter⟩ := Option.map_eq_some_iff.mp hrun
  obtain ⟨rfl, rfl⟩ := Prod.mk.inj hafter
  obtain ⟨seen, hseen⟩ := hs.next
  obtain ⟨s₁, hfollows, hdb, hstep⟩ := commits_alone hs.others hseen hw
  refine ⟨s₁, { s with db := w s.db }.set 0 (.idle (⟨.transact op, .ok result'⟩ :: seen)
    (sequence ops)), hfollows, hdb, ⟨0, s.db, ?_⟩, rfl, rfl,
    ⟨⟨.transact op, .ok result'⟩ :: seen, ?_⟩, System.held_set_alone hs.others _⟩
  · rw [hdb]
    exact hstep
  · exact System.set_sessions_self _ _ _

variable {program acts drifts} in
theorem Commitment.follows {op : ι} {result : R op} {start : ℤ} {s s' : System κ σ ε ω R B}
    (hc : Commitment program acts drifts op result start s s') :
    Follows program acts drifts s s' := by
  obtain ⟨n, begun, hstep⟩ := hc
  exact .single ⟨_, hstep⟩

/-! ### Every commit is as stated -/

variable {program acts drifts} {G : Held κ → σ → σ → Prop}
  {Q : (op : ι) → ℤ → σ → R op → σ → σ → Prop}

/-- What is left of a transaction is safe. -/
def Session.Safe (G : Held κ → σ → σ → Prop) (Q : (op : ι) → ℤ → σ → R op → σ → σ → Prop) (db : σ) :
    Session κ σ ε R B → Prop
  | .idle .. => True
  | .busy _ op start begun held w tx _ =>
    Transactions.Safe G tx (Finishes G (Q op start begun)) held w db

theorem Session.Safe.relies {session : Session κ σ ε R B} {db db' : σ} (h : session.Safe G Q db)
    (hrelies : Relies G session.held db db') : session.Safe G Q db' := by
  cases session with
  | idle => trivial
  | busy seen op start begun held w tx next =>
    exact Transactions.Safe.relies h hrelies fun _ _ _ _ _ hK hs => hK.relies hs

/-- Every session is safe, and no two have locks that conflict. -/
structure System.Safe (G : Held κ → σ → σ → Prop) (Q : (op : ι) → ℤ → σ → R op → σ → σ → Prop)
    (s : System κ σ ε ω R B) : Prop where
  safe : ∀ n, (s.sessions n).Safe G Q s.db
  compatible : ∀ m n, m ≠ n → Compatible (s.sessions m).held (s.sessions n).held

theorem System.safe_initial (db : σ) (world : ω) (now : ℤ) (processes : ℕ → Process ε R B) :
    (System.initial db world now processes : System κ σ ε ω R B).Safe G Q :=
  ⟨fun _ => trivial, fun _ _ _ _ _ _ hk => absurd hk List.not_mem_nil⟩

/-- One session goes on, and the committed state stays. -/
theorem System.Safe.set {s : System κ σ ε ω R B} (h : s.Safe G Q) {n : ℕ}
    {session : Session κ σ ε R B} (hsafe : session.Safe G Q s.db)
    (hheld : ∀ m, m ≠ n → Compatible session.held (s.sessions m).held) :
    (s.set n session).Safe G Q := by
  refine ⟨fun m => ?_, fun m m' hne => ?_⟩
  · by_cases hm : m = n
    · rw [hm, set_sessions_self]
      exact hsafe
    · rw [set_sessions_of_ne _ _ hm]
      exact h.safe m
  · by_cases hm : m = n
    · have hm' : m' ≠ n := fun heq => hne (hm.trans heq.symm)
      rw [hm, set_sessions_self, set_sessions_of_ne _ _ hm']
      exact hheld m' hm'
    · rw [set_sessions_of_ne _ _ hm]
      by_cases hm' : m' = n
      · rw [hm', set_sessions_self]
        exact (hheld m hm).symm
      · rw [set_sessions_of_ne _ _ hm']
        exact h.compatible m m' hne

/-- One session goes on with the locks that it has. -/
theorem System.Safe.proceed {s : System κ σ ε ω R B} (h : s.Safe G Q) {n : ℕ}
    {session : Session κ σ ε R B} (hsafe : session.Safe G Q s.db)
    (hheld : session.held = (s.sessions n).held) : (s.set n session).Safe G Q :=
  h.set hsafe fun m hm => hheld ▸ h.compatible n m hm.symm

/-- One session goes on with a lock that it is granted. -/
theorem System.Safe.grant {s : System κ σ ε ω R B} (h : s.Safe G Q) {n : ℕ} {k : κ} {mode : Mode}
    {session : Session κ σ ε R B} (hsafe : session.Safe G Q s.db) (hgrants : s.Grants n k mode)
    (hheld : session.held = (k, mode) :: (s.sessions n).held) : (s.set n session).Safe G Q := by
  refine h.set hsafe fun m hm k' mode' mode'' hk' hk'' => ?_
  rw [hheld] at hk'
  rcases List.mem_cons.mp hk' with heq | hk'
  · exact hgrants m hm k' mode' mode'' (List.mem_singleton.mpr heq) hk''
  · exact h.compatible n m hm.symm k' mode' mode'' hk' hk''

/-- One session ends its transaction, and the others rely on what it commits. -/
theorem System.Safe.commit {s : System κ σ ε ω R B} (h : s.Safe G Q) {n : ℕ} {db : σ}
    (hG : G (s.sessions n).held s.db db) (seen : History (Answer ε R B))
    (process : Process ε R B) : ({ s with db := db }.set n (.idle seen process)).Safe G Q := by
  refine ⟨fun m => ?_, fun m m' hne => ?_⟩
  · by_cases hm : m = n
    · rw [hm, set_sessions_self]
      trivial
    · rw [set_sessions_of_ne _ _ hm]
      exact (h.safe m).relies (.single ⟨_, h.compatible m n hm, hG⟩)
  · have hnil (l : ℕ) (hl : l = n) : (({ s with db := db }.set n (.idle seen process) :
        System κ σ ε ω R B).sessions l).held = [] := by
      rw [hl, set_sessions_self]
      rfl
    by_cases hm : m = n
    · rw [hnil m hm]
      exact fun _ _ _ hk => absurd hk List.not_mem_nil
    · by_cases hm' : m' = n
      · rw [hnil m' hm']
        exact fun _ _ _ _ hk => absurd hk List.not_mem_nil
      · rw [set_sessions_of_ne _ _ hm, set_sessions_of_ne _ _ hm']
        exact h.compatible m m' hne

/-- A commit of an operation, which is guaranteed. -/
def Committed (G : Held κ → σ → σ → Prop) (Q : (op : ι) → ℤ → σ → R op → σ → σ → Prop) (op : ι)
    (start : ℤ) (begun : σ) (result : R op) (before after : σ) : Prop :=
  Q op start begun result before after ∧ ∃ held, G held before after

/-- What a step of a safe system is: the system stays safe, and what is committed is as stated. -/
theorem System.Safe.step {s s' : System κ σ ε ω R B} {e : Happening σ ε R B} (h : s.Safe G Q)
    (hprogram : ∀ op start, Transactions.Safe G (program op start)
      (Finishes G (Q op start s.db)) [] id s.db)
    (hstep : Step program acts drifts s e s') :
    s'.Safe G Q ∧ ∀ n op result start begun before after,
      e = .commit n op result start begun before after →
        Committed G Q op start begun result before after := by
  cases hstep with
  | tick => exact ⟨⟨h.safe, h.compatible⟩, fun _ _ _ _ _ _ _ he => nomatch he⟩
  | drift => exact ⟨⟨h.safe, h.compatible⟩, fun _ _ _ _ _ _ _ he => nomatch he⟩
  | begin n seen op next hn =>
    refine ⟨h.proceed (hprogram op s.now) ?_, fun _ _ _ _ _ _ _ he => nomatch he⟩
    rw [hn]
    rfl
  | lock n seen op start begun held w k mode tx next hn hgrants =>
    have hsafe := h.safe n
    rw [hn] at hsafe
    refine ⟨h.grant (hsafe s.db .refl) hgrants ?_, fun _ _ _ _ _ _ _ he => nomatch he⟩
    rw [hn]
    rfl
  | tryLock n seen op start begun held w k tx next hn hgrants =>
    have hsafe := h.safe n
    rw [hn] at hsafe
    refine ⟨h.grant (hsafe s.db .refl).1 hgrants ?_, fun _ _ _ _ _ _ _ he => nomatch he⟩
    rw [hn]
    rfl
  | skipLocked n seen op start begun held w k tx next hn =>
    have hsafe := h.safe n
    rw [hn] at hsafe
    refine ⟨h.proceed (hsafe s.db .refl).2 ?_, fun _ _ _ _ _ _ _ he => nomatch he⟩
    rw [hn]
    rfl
  | read n seen op start begun held w tx next hn =>
    have hsafe := h.safe n
    rw [hn] at hsafe
    refine ⟨h.proceed (hsafe s.db .refl) ?_, fun _ _ _ _ _ _ _ he => nomatch he⟩
    rw [hn]
    rfl
  | write n seen op start begun held w f tx next hn =>
    have hsafe := h.safe n
    rw [hn] at hsafe
    refine ⟨h.proceed hsafe ?_, fun _ _ _ _ _ _ _ he => nomatch he⟩
    rw [hn]
    rfl
  | commit n seen op start begun held w result next hn answer =>
    have hsafe := h.safe n
    rw [hn] at hsafe
    obtain ⟨hQ, hG⟩ := hsafe s.db .refl
    refine ⟨h.commit ?_ _ _, fun _ _ _ _ _ _ _ he => ?_⟩
    · rw [hn]
      exact hG
    · cases he
      exact ⟨hQ, held, hG⟩
  | fail n =>
    exact ⟨h.set trivial fun _ _ _ _ _ hk => absurd hk List.not_mem_nil,
      fun _ _ _ _ _ _ _ he => nomatch he⟩
  | act n seen x next hn b world hacts =>
    refine ⟨?_, fun _ _ _ _ _ _ _ he => nomatch he⟩
    have hworld : ({ s with world := world } : System κ σ ε ω R B).Safe G Q :=
      ⟨h.safe, h.compatible⟩
    exact hworld.set trivial fun _ _ _ _ _ hk => absurd hk List.not_mem_nil
  | stop n =>
    exact ⟨h.set trivial fun _ _ _ _ _ hk => absurd hk List.not_mem_nil,
      fun _ _ _ _ _ _ _ he => nomatch he⟩

section

variable {I : σ → Prop} (hG : ∀ held state state', G held state state' → I state → I state')
  (hprogram : ∀ op start state, I state → Transactions.Safe G (program op start)
    (Finishes G (Q op start state)) [] id state)

include hG hprogram

/-- An invariant that is guaranteed of every commit holds, and the system is safe. -/
theorem Reachable.safe {db : σ} {world : ω} {now : ℤ} {processes : ℕ → Process ε R B}
    {h : List (Happening σ ε R B)} {s : System κ σ ε ω R B} (hdb : I db)
    (hr : Reachable program acts drifts (.initial db world now processes) h s) :
    I s.db ∧ s.Safe G Q := by
  induction hr with
  | start => exact ⟨hdb, System.safe_initial db world now processes⟩
  | @step h s s' e _ hstep ih =>
    obtain ⟨hI, hsafe⟩ := ih
    obtain ⟨hsafe', hcommit⟩ := hsafe.step (fun op start => hprogram op start s.db hI) hstep
    refine ⟨?_, hsafe'⟩
    cases hstep with
    | commit =>
      obtain ⟨-, held, hguaranteed⟩ := hcommit _ _ _ _ _ _ _ rfl
      exact hG held _ _ hguaranteed hI
    | tick | drift | begin | lock | tryLock | skipLocked | read | write | fail | act | stop =>
      exact hI

/-- Every commit is a commit of its operation. -/
theorem Reachable.commits {db : σ} {world : ω} {now : ℤ} {processes : ℕ → Process ε R B}
    {h : List (Happening σ ε R B)} {s s' : System κ σ ε ω R B} {n : ℕ} {op : ι} {result : R op}
    {start : ℤ} {begun before after : σ} (hdb : I db)
    (hr : Reachable program acts drifts (.initial db world now processes) h s)
    (hstep : Step program acts drifts s (.commit n op result start begun before after) s') :
    Committed G Q op start begun result before after := by
  obtain ⟨hI, hsafe⟩ := hr.safe hG hprogram hdb
  exact (hsafe.step (fun op start => hprogram op start s.db hI) hstep).2 _ _ _ _ _ _ _ rfl

/-- What every commit keeps, is kept along a run. -/
theorem Reachable.maintains {P : σ → Prop}
    (hP : ∀ op start begun result d d', Committed G Q op start begun result d d' → P d → P d')
    {db : σ} {world : ω} {now : ℤ} {processes : ℕ → Process ε R B} {h : List (Happening σ ε R B)}
    {s s' : System κ σ ε ω R B} (hdb : I db)
    (hr : Reachable program acts drifts (.initial db world now processes) h s)
    (hfollows : Follows program acts drifts s s') (hs : P s.db) : P s'.db := by
  induction hfollows with
  | refl => exact hs
  | @tail s₁ s₂ hfollows hstep ih =>
    obtain ⟨h', hr'⟩ := hr.follows hfollows
    obtain ⟨e, hstep⟩ := hstep
    cases hstep with
    | commit n seen op start begun held w result next hn answer hanswer =>
      exact hP op start begun result _ _ (hr'.commits hG hprogram hdb
        (.commit n seen op start begun held w result next hn answer hanswer)) ih
    | tick | drift | begin | lock | tryLock | skipLocked | read | write | fail | act | stop =>
      exact ih

/-- What every guaranteed commit keeps, is kept along a run. -/
theorem Reachable.keeps {P : σ → Prop} (hP : ∀ held d d', G held d d' → P d → P d') {db : σ}
    {world : ω} {now : ℤ} {processes : ℕ → Process ε R B} {h : List (Happening σ ε R B)}
    {s s' : System κ σ ε ω R B} (hdb : I db)
    (hr : Reachable program acts drifts (.initial db world now processes) h s)
    (hfollows : Follows program acts drifts s s') (hs : P s.db) : P s'.db := by
  refine hr.maintains hG hprogram (fun op start begun result d d' hc => ?_) hdb hfollows hs
  obtain ⟨-, held, hguaranteed⟩ := hc
  exact hP held d d' hguaranteed

end

end

end Buzz.Library.Transactions
