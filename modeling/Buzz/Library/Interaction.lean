import Mathlib.Tactic.Common

/-!
# Programs that call an environment

A program is a tree of calls: what it does next depends on the answer. It ends with a result or an
error, or is cut short. A history has its most recent event first. Programs are reasoned about by
what they guarantee of each call, given the history, as long as the answers are what is assumed.

## Main definitions

* `Interaction`, with its monad, and `Interaction.attempt`.
* `Interaction.Ran`: the history of a run, and the program that is left.
* `Interaction.Sat`: calls are guaranteed, and so is the result.
* `Later`: a history that has grown by calls of a kind.

## Main results

* `Interaction.Sat.bind`, `Interaction.Sat.forM`: the rules of composition.
* `Interaction.Sat.ran`, `Interaction.Sat.invariant`: a guarantee holds in every run, and so does
  what the guaranteed calls keep.
-/

namespace Buzz.Library

/-- A program that calls an environment. -/
inductive Interaction {C : Type} (A : C → Type) (ε α : Type)
  | done (result : Except ε α)
  | cut
  | call (c : C) (next : A c → Interaction A ε α)

/-- A call and its answer. -/
abbrev Event {C : Type} (A : C → Type) := (c : C) × A c

/-- Events, the most recent first. -/
abbrev History {C : Type} (A : C → Type) := List (Event A)

namespace Interaction

variable {C : Type} {A : C → Type} {ε α β : Type}

def bind : Interaction A ε α → (α → Interaction A ε β) → Interaction A ε β
  | done (.ok a), f => f a
  | done (.error e), _ => done (.error e)
  | cut, _ => cut
  | call c next, f => call c fun a => (next a).bind f

instance : Monad (Interaction A ε) where
  pure a := done (.ok a)
  bind := bind

def fail (e : ε) : Interaction A ε α := done (.error e)

/-- The error of a program as a result. -/
def attempt : Interaction A ε α → Interaction A ε (Except ε α)
  | done result => done (.ok result)
  | cut => cut
  | call c next => call c fun a => (next a).attempt

/-- The history of a run, and the program that is left. -/
inductive Ran (p : Interaction A ε α) : History A → Interaction A ε α → Prop
  | start : Ran p [] p
  | step {h : History A} {c : C} {next : A c → Interaction A ε α} (hran : Ran p h (call c next))
      (a : A c) : Ran p (⟨c, a⟩ :: h) (next a)

/-- Every answer of a history is as assumed. -/
def Assumed (E : History A → (c : C) → A c → Prop) : History A → Prop
  | [] => True
  | ⟨c, a⟩ :: h => Assumed E h ∧ E h c a

theorem Assumed.imp {E E' : History A → (c : C) → A c → Prop} {h : History A} (ha : Assumed E h)
    (hE : ∀ h c a, E h c a → E' h c a) : Assumed E' h := by
  induction h with
  | nil => trivial
  | cons e h ih => exact ⟨ih ha.1, hE h e.1 e.2 ha.2⟩

theorem Assumed.of_append {E : History A → (c : C) → A c → Prop} {es h : History A}
    (ha : Assumed E (es ++ h)) : Assumed E h := by
  induction es with
  | nil => exact ha
  | cons e es ih => exact ih ha.1

/-- The calls of a program, after a history, are as guaranteed, and so is its result, as long as the
answers are as assumed. -/
def Sat (E : History A → (c : C) → A c → Prop) (G : History A → C → Prop) :
    Interaction A ε α → (History A → Except ε α → Prop) → History A → Prop
  | done result, Q, h => Q h result
  | cut, _, _ => True
  | call c next, Q, h => G h c ∧ ∀ a, E h c a → Sat E G (next a) Q (⟨c, a⟩ :: h)

variable {E E' : History A → (c : C) → A c → Prop} {G G' : History A → C → Prop}
  {Q Q' : History A → Except ε α → Prop} {p : Interaction A ε α} {h : History A}

theorem sat_bind {f : α → Interaction A ε β} {Q : History A → Except ε β → Prop} :
    Sat E G (p >>= f) Q h ↔ Sat E G p (fun h result =>
      match result with
      | .ok a => Sat E G (f a) Q h
      | .error e => Q h (.error e)) h := by
  induction p generalizing h with
  | done result => cases result <;> rfl
  | cut => rfl
  | call c next ih => exact and_congr Iff.rfl (forall_congr' fun a => forall_congr' fun _ => ih a)

theorem sat_attempt {Q : History A → Except ε (Except ε α) → Prop} :
    Sat E G p.attempt Q h ↔ Sat E G p (fun h result => Q h (.ok result)) h := by
  induction p generalizing h with
  | done result => rfl
  | cut => rfl
  | call c next ih => exact and_congr Iff.rfl (forall_congr' fun a => forall_congr' fun _ => ih a)

/-- To assume more, to guarantee less and to conclude less. -/
theorem Sat.imp (hsat : Sat E G p Q h) (hE : ∀ h c a, E' h c a → E h c a)
    (hG : ∀ h c, G h c → G' h c) (hQ : ∀ h result, Q h result → Q' h result) :
    Sat E' G' p Q' h := by
  induction p generalizing h with
  | done result => exact hQ h result hsat
  | cut => trivial
  | call c next ih => exact ⟨hG h c hsat.1, fun a ha => ih a (hsat.2 a (hE h c a ha))⟩

theorem Sat.mono (hsat : Sat E G p Q h) (hQ : ∀ h result, Q h result → Q' h result) :
    Sat E G p Q' h :=
  hsat.imp (fun _ _ _ ha => ha) (fun _ _ hc => hc) hQ

/-- What is concluded of a result and of an error. -/
def Post (P : History A → α → Prop) (R : History A → ε → Prop) (h : History A) :
    Except ε α → Prop
  | .ok a => P h a
  | .error e => R h e

theorem Sat.bind {f : α → Interaction A ε β} {Q : History A → Except ε β → Prop}
    {P : History A → α → Prop} {R : History A → ε → Prop} (hp : Sat E G p (Post P R) h)
    (hf : ∀ h a, P h a → Sat E G (f a) Q h) (hR : ∀ h e, R h e → Q h (.error e)) :
    Sat E G (p >>= f) Q h := by
  refine sat_bind.mpr (hp.mono fun h result hresult => ?_)
  cases result with
  | ok a => exact hf h a hresult
  | error e => exact hR h e hresult

/-- A property of the history that each program of a list keeps. -/
theorem Sat.forM {ι : Type} {l : List ι} {f : ι → Interaction A ε PUnit} {I : History A → Prop}
    {R : History A → ε → Prop}
    (hf : ∀ i ∈ l, ∀ h, I h → Sat E G (f i) (Post (fun h _ => I h) R) h) (hI : I h) :
    Sat E G (l.forM f) (Post (fun h _ => I h) R) h := by
  induction l generalizing h with
  | nil => exact hI
  | cons i l ih =>
    exact (hf i List.mem_cons_self h hI).bind
      (fun h _ hI => ih (fun j hj => hf j (List.mem_cons_of_mem i hj)) hI) fun _ _ he => he

/-- A guarantee holds in every run whose answers are as assumed. -/
theorem Sat.ran {q : Interaction A ε α} (hsat : Sat E G p Q []) (hran : Ran p h q)
    (hE : Assumed E h) : Sat E G q Q h := by
  induction hran with
  | start => exact hsat
  | step _ a ih => exact (ih hE.1).2 a hE.2

/-- What no call of a program breaks, as far as it is guaranteed, holds throughout its runs. -/
theorem Sat.invariant {q : Interaction A ε α} {I : History A → Prop} (hsat : Sat E G p Q [])
    (hran : Ran p h q) (hE : Assumed E h) (hI : I [])
    (hkept : ∀ h c a, G h c → E h c a → I h → I (⟨c, a⟩ :: h)) : I h := by
  induction hran with
  | start => exact hI
  | step hran a ih => exact hkept _ _ a (hsat.ran hran hE.1).1 hE.2 (ih hE.1)

end Interaction

/-- A history that has grown by calls of a kind. -/
def Later {C : Type} {A : C → Type} (P : C → Prop) (h h' : History A) : Prop :=
  ∃ es : History A, (∀ e ∈ es, P e.1) ∧ h' = es ++ h

namespace Later

variable {C : Type} {A : C → Type} {P P' : C → Prop} {h h' h'' : History A}

theorem refl : Later P h h := ⟨[], fun _ he => absurd he List.not_mem_nil, rfl⟩

theorem trans (hl : Later P h h') (hl' : Later P h' h'') : Later P h h'' := by
  obtain ⟨es, hes, rfl⟩ := hl
  obtain ⟨es', hes', rfl⟩ := hl'
  exact ⟨es' ++ es, fun e he => (List.mem_append.mp he).elim (hes' e) (hes e),
    (List.append_assoc _ _ _).symm⟩

theorem step (hl : Later P h h') {c : C} {a : A c} (hc : P c) : Later P h (⟨c, a⟩ :: h') := by
  obtain ⟨es, hes, rfl⟩ := hl
  exact ⟨⟨c, a⟩ :: es, fun e he => (List.mem_cons.mp he).elim (fun heq => heq ▸ hc) (hes e), rfl⟩

theorem imp (hl : Later P h h') (hP : ∀ c, P c → P' c) : Later P' h h' := by
  obtain ⟨es, hes, rfl⟩ := hl
  exact ⟨es, fun e he => hP e.1 (hes e he), rfl⟩

theorem mem (hl : Later P h h') {e : Event A} (he : e ∈ h) : e ∈ h' := by
  obtain ⟨es, -, rfl⟩ := hl
  exact List.mem_append_right es he

theorem mem_or (hl : Later P h h') {e : Event A} (he : e ∈ h') : P e.1 ∨ e ∈ h := by
  obtain ⟨es, hes, rfl⟩ := hl
  exact (List.mem_append.mp he).imp_left (hes e)

end Later

end Buzz.Library
