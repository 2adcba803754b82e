import Mathlib.Tactic.Common

/-!
# Outcomes of stateful calls that can fail

A call that changes a state and may fail, `EStateM`, keeps the changes it made before it failed. Its
outcome from a given state is described by two postconditions, one for results and one for errors,
each with the state that is left. A *check* leaves the state as it is.

## Main definitions

* `Ensures`: the postconditions of a call.
* `Checks`: a call that only reads the state, and what it establishes when it passes.
* `Yields`: a call that succeeds, with its result.
* `require`, `okOr`, `orThrow`: a guard, and the reading of an option and of a result.
* `ensure`, `okOrError`: the same for results without state.

## Main results

* `Ensures.bind`, `Checks.bind`: what a sequence of calls ensures.
* `checks_require`, `checks_okOr`, `checks_orThrow`.
-/

namespace Buzz.Library

variable {ε ε' σ α β : Type}

/-- A sequence of calls without state succeeds when both do. -/
theorem bind_eq_ok {x : Except ε α} {f : α → Except ε β} {b : β} :
    (x >>= f) = .ok b ↔ ∃ a, x = .ok a ∧ f a = .ok b := by
  cases x with
  | error e => simp [bind, Except.bind]
  | ok a => simp [bind, Except.bind]

/-- A guard without state. -/
def ensure (p : Prop) [Decidable p] (e : ε) : Except ε Unit := if p then .ok () else .error e

theorem ensure_eq_ok {p : Prop} [Decidable p] {e : ε} {u : Unit} : ensure p e = .ok u ↔ p := by
  rw [ensure]
  split_ifs with h <;> simp [h]

/-- The value of an option, or the error `e`, without state. -/
def okOrError (e : ε) : Option α → Except ε α
  | some a => .ok a
  | none => .error e

theorem okOrError_eq_ok {e : ε} {o : Option α} {a : α} : okOrError e o = .ok a ↔ o = some a := by
  cases o <;> simp [okOrError]

theorem ok_of_toOption {x : Except ε α} {a : α} (h : x.toOption = some a) : x = .ok a := by
  cases x with
  | error e => cases h
  | ok b => exact congrArg Except.ok (Option.some.inj h)

/-- An error that neither of two calls raises is not raised by their sequence. -/
theorem bind_ne_error {x : Except ε α} {f : α → Except ε β} {e : ε} (hx : x ≠ .error e)
    (hf : ∀ a, f a ≠ .error e) : (x >>= f) ≠ .error e := by
  cases x with
  | error e' => exact fun h => hx (congrArg Except.error (Except.error.inj h))
  | ok a => exact hf a

/-- A call that has a result returns it. -/
theorem eq_ok_of_toOption {x : Except ε α} (h : x.toOption.isSome = true) (a : α) :
    x = .ok (x.toOption.getD a) := by
  cases x with
  | error e => cases h
  | ok b => rfl

/-- What every call of a fold keeps, the fold keeps. -/
theorem foldlM_eq_ok {R : β → β → Prop} (hrefl : ∀ b, R b b)
    (htrans : ∀ b₁ b₂ b₃, R b₁ b₂ → R b₂ b₃ → R b₁ b₃) {f : β → α → Except ε β} {l : List α}
    (hstep : ∀ b a b', a ∈ l → f b a = .ok b' → R b b') {b b' : β}
    (h : l.foldlM f b = .ok b') : R b b' := by
  induction l generalizing b with
  | nil =>
    obtain rfl := Except.ok.inj h
    exact hrefl b
  | cons a l ih =>
    rw [List.foldlM_cons] at h
    obtain ⟨b₁, hb₁, hrest⟩ := bind_eq_ok.mp h
    exact htrans b b₁ b' (hstep b a b₁ List.mem_cons_self hb₁)
      (ih (fun b a b' ha => hstep b a b' (List.mem_cons_of_mem _ ha)) hrest)

/-- A loop of checks passes when every check does. -/
theorem forM_eq_ok_iff {f : α → Except ε Unit} {l : List α} :
    l.forM f = .ok () ↔ ∀ a ∈ l, f a = .ok () := by
  induction l with
  | nil => exact iff_of_true rfl nofun
  | cons a l ih =>
    rw [List.forM_eq_forM, List.forM_cons, bind_eq_ok, List.forall_mem_cons, ← ih]
    exact ⟨fun ⟨_, ha, hl⟩ => ⟨ha, hl⟩, fun ⟨ha, hl⟩ => ⟨(), ha, hl⟩⟩

/-- A traversal succeeds when every call does. -/
theorem mapM_eq_ok {f : α → Except ε β} {l : List α} {l' : List β} (h : l.mapM f = .ok l') :
    List.Forall₂ (fun a b => f a = .ok b) l l' := by
  induction l generalizing l' with
  | nil =>
    obtain rfl := Except.ok.inj h
    exact .nil
  | cons a l ih =>
    rw [List.mapM_cons] at h
    obtain ⟨b, hb, hrest⟩ := bind_eq_ok.mp h
    obtain ⟨bs, hbs, hpure⟩ := bind_eq_ok.mp hrest
    obtain rfl := Except.ok.inj hpure
    exact .cons hb (ih hbs)

theorem mapM_zip_mem {f : α → Except ε β} {l : List α} {l' : List β} (h : l.mapM f = .ok l')
    {a : α} (ha : a ∈ l) {b : β} (hb : f a = .ok b) : (a, b) ∈ l.zip l' := by
  have hall := mapM_eq_ok h
  clear h
  induction hall with
  | nil => cases ha
  | cons hhead _ ih =>
    rw [List.zip_cons_cons]
    obtain rfl | ha := List.mem_cons.mp ha
    · obtain rfl := Except.ok.inj (hhead.symm.trans hb)
      exact List.mem_cons_self
    · exact List.mem_cons_of_mem _ (ih ha)

theorem exists_of_mem_mapM {f : α → Except ε β} {l : List α} {l' : List β}
    (h : l.mapM f = .ok l') {b : β} (hb : b ∈ l') : ∃ a ∈ l, f a = .ok b := by
  have hall := mapM_eq_ok h
  clear h
  induction hall with
  | nil => cases hb
  | cons hhead _ ih =>
    obtain rfl | hb := List.mem_cons.mp hb
    · exact ⟨_, List.mem_cons_self, hhead⟩
    · obtain ⟨a, ha, hfa⟩ := ih hb
      exact ⟨a, List.mem_cons_of_mem _ ha, hfa⟩

/-- A result of `x` from `s` satisfies `Q` and an error satisfies `E`, with the state left. -/
def Ensures (x : EStateM ε σ α) (s : σ) (Q : α → σ → Prop) (E : ε → σ → Prop) : Prop :=
  match x s with
  | .ok a s' => Q a s'
  | .error e s' => E e s'

namespace Ensures

variable {x : EStateM ε σ α} {f : α → EStateM ε σ β} {s : σ}

theorem mono {Q Q' : α → σ → Prop} {E E' : ε → σ → Prop} (h : Ensures x s Q E)
    (hQ : ∀ a s', Q a s' → Q' a s') (hE : ∀ e s', E e s' → E' e s') : Ensures x s Q' E' := by
  unfold Ensures at h ⊢
  cases hx : x s with
  | ok a s' =>
    rw [hx] at h
    exact hQ a s' h
  | error e s' =>
    rw [hx] at h
    exact hE e s' h

theorem pure {a : α} {Q : α → σ → Prop} {E : ε → σ → Prop} (h : Q a s) :
    Ensures (pure a) s Q E := h

theorem throw {e : ε} {Q : α → σ → Prop} {E : ε → σ → Prop} (h : E e s) :
    Ensures (throw e) s Q E := h

theorem bind {Q : β → σ → Prop} {E : ε → σ → Prop}
    (h : Ensures x s (fun a s' => Ensures (f a) s' Q E) E) : Ensures (x >>= f) s Q E := by
  change match EStateM.bind x f s with | .ok a s' => Q a s' | .error e s' => E e s'
  unfold Ensures at h
  unfold EStateM.bind
  cases hx : x s with
  | ok a s' =>
    rw [hx] at h
    exact h
  | error e s' =>
    rw [hx] at h
    exact h

theorem map {g : α → β} {Q : β → σ → Prop} {E : ε → σ → Prop}
    (h : Ensures x s (fun a s' => Q (g a) s') E) : Ensures (g <$> x) s Q E := by
  change match EStateM.map g x s with | .ok a s' => Q a s' | .error e s' => E e s'
  unfold Ensures at h
  unfold EStateM.map
  cases hx : x s with
  | ok a s' =>
    rw [hx] at h
    exact h
  | error e s' =>
    rw [hx] at h
    exact h

theorem get_bind {k : σ → EStateM ε σ β} {Q : β → σ → Prop} {E : ε → σ → Prop}
    (h : Ensures (k s) s Q E) : Ensures (get >>= k) s Q E := h

theorem modify_bind {g : σ → σ} {k : PUnit → EStateM ε σ β} {Q : β → σ → Prop} {E : ε → σ → Prop}
    (h : Ensures (k ⟨⟩) (g s) Q E) : Ensures (modify g >>= k) s Q E := h

theorem modify {g : σ → σ} {Q : PUnit → σ → Prop} {E : ε → σ → Prop} (h : Q ⟨⟩ (g s)) :
    Ensures (modify g) s Q E := h

end Ensures

/-! ### Checks -/

/-- The call only reads the state; when it passes, `P` holds of the state and the result. -/
def Checks (x : EStateM ε σ α) (P : σ → α → Prop) : Prop :=
  ∀ s, Ensures x s (fun a s' => s' = s ∧ P s a) fun _ s' => s' = s

/-- Fail with `e` unless `p` holds. -/
def require (p : Prop) [Decidable p] (e : ε) : EStateM ε σ PUnit :=
  if p then pure ⟨⟩ else throw e

/-- The value of an option, or the error `e`: `ok_or`. -/
def okOr (e : ε) : Option α → EStateM ε σ α
  | some a => pure a
  | none => throw e

/-- The value of a result, its error mapped: `map_err`. -/
def orThrow (f : ε' → ε) : Except ε' α → EStateM ε σ α
  | .ok a => pure a
  | .error e => throw (f e)

theorem checks_require (p : Prop) [Decidable p] (e : ε) :
    Checks (require (σ := σ) p e) fun _ _ => p := by
  intro s
  rw [require]
  split_ifs with h
  · exact Ensures.pure ⟨rfl, h⟩
  · exact Ensures.throw rfl

theorem checks_okOr (e : ε) (o : Option α) : Checks (okOr (σ := σ) e o) fun _ a => o = some a := by
  intro s
  cases o with
  | none => exact Ensures.throw rfl
  | some a => exact Ensures.pure ⟨rfl, rfl⟩

theorem checks_orThrow (f : ε' → ε) (r : Except ε' α) :
    Checks (orThrow (σ := σ) f r) fun _ a => r = .ok a := by
  intro s
  cases r with
  | error e => exact Ensures.throw rfl
  | ok a => exact Ensures.pure ⟨rfl, rfl⟩

namespace Checks

variable {x : EStateM ε σ α} {f : α → EStateM ε σ β} {s : σ} {P : σ → α → Prop}

/-- The outcome of a check: an error or a result, and the state as it was. -/
theorem ensures (h : Checks x P) {Q : α → σ → Prop} {E : ε → σ → Prop} (hE : ∀ e, E e s)
    (hQ : ∀ a, P s a → Q a s) : Ensures x s Q E := by
  refine (h s).mono ?_ ?_
  · rintro a s' ⟨rfl, ha⟩
    exact hQ a ha
  · rintro e s' rfl
    exact hE e

/-- After a check that passed, the rest runs from the same state. -/
theorem bind (h : Checks x P) {Q : β → σ → Prop} {E : ε → σ → Prop} (hE : ∀ e, E e s)
    (hf : ∀ a, P s a → Ensures (f a) s Q E) : Ensures (x >>= f) s Q E :=
  Ensures.bind (h.ensures hE hf)

end Checks

/-! ### Success -/

/-- The call succeeds with the result `a` and leaves `s'`. -/
def Yields (x : EStateM ε σ α) (s : σ) (a : α) (s' : σ) : Prop := x s = .ok a s'

namespace Yields

variable {x : EStateM ε σ α} {f : α → EStateM ε σ β} {s s₁ s₂ : σ} {a : α} {b : β}

theorem bind (hx : Yields x s a s₁) (hf : Yields (f a) s₁ b s₂) : Yields (x >>= f) s b s₂ := by
  change EStateM.bind x f s = .ok b s₂
  rw [EStateM.bind, hx]
  exact hf

theorem map (g : α → β) (hx : Yields x s a s₁) : Yields (g <$> x) s (g a) s₁ := by
  change EStateM.map g x s = .ok (g a) s₁
  rw [EStateM.map, hx]

theorem get_bind {k : σ → EStateM ε σ β} (h : Yields (k s) s b s₁) : Yields (get >>= k) s b s₁ := h

theorem modify_bind {g : σ → σ} {k : PUnit → EStateM ε σ β} (h : Yields (k ⟨⟩) (g s) b s₁) :
    Yields (modify g >>= k) s b s₁ := h

theorem pure : Yields (pure a : EStateM ε σ α) s a s := rfl

theorem require {p : Prop} [Decidable p] {e : ε} (hp : p) : Yields (require p e) s ⟨⟩ s := by
  rw [Yields, Library.require, if_pos hp]
  rfl

theorem okOr {e : ε} {o : Option α} (h : o = some a) : Yields (okOr e o) s a s := by
  rw [Yields, h]
  rfl

theorem orThrow {g : ε' → ε} {r : Except ε' α} (h : r = .ok a) : Yields (orThrow g r) s a s := by
  rw [Yields, h]
  rfl

end Yields

end Buzz.Library
