import Buzz.Desktop.Terminal.Damage

/-!
# Credit and viewport ordering

`FramePublisher` of `terminal_transport.rs`: one frame on the wire, at most one newer complete
snapshot retained, and a resized viewport gated until the renderer confirms it. Subscription ids are
numbers, and so are sequence numbers, which the code does not let pass `u64::MAX`.

## Main definitions

* `FramePublisher` and its operations.

## Main results

* `FramePublisher.offer_ok`, `Subscription.flush_cases`: what an offer and a release of credit can
  do.
-/

namespace Buzz.Desktop.Terminal

abbrev SubscriptionId := ℕ

/-- A frame carrying the identity and sequence that its acknowledgement must repeat. -/
structure Publication where
  subscriptionId : SubscriptionId
  sequence : ℕ
  frame : Frame
  deriving DecidableEq, Repr

inductive OfferError
  | pendingFrameMustBeSnapshot
  deriving DecidableEq, Repr

structure Subscription where
  id : SubscriptionId
  nextSequence : ℕ
  inFlight : Option ℕ
  pending : Option Frame
  viewportReady : Bool
  deriving DecidableEq, Repr

structure FramePublisher where
  applied : Viewport
  subscription : Option Subscription
  deriving DecidableEq, Repr

namespace Subscription

/-- Credit or readiness is held. -/
def held (sub : Subscription) : Bool := sub.inFlight.isSome || !sub.viewportReady

def publish (sub : Subscription) (frame : Frame) : Publication × Subscription :=
  (⟨sub.id, sub.nextSequence, frame⟩,
    { sub with nextSequence := sub.nextSequence + 1, inFlight := some sub.nextSequence })

def flush (sub : Subscription) : Option Publication × Subscription :=
  if sub.held then (none, sub)
  else match sub.pending with
    | none => (none, sub)
    | some frame =>
      let (publication, sub) := { sub with pending := none }.publish frame
      (some publication, sub)

end Subscription

namespace FramePublisher

def new (applied : Viewport) : FramePublisher := ⟨applied, none⟩

def requireCurrentSnapshot (p : FramePublisher) (frame : Frame) : Except OfferError Unit :=
  if frame.viewport = p.applied ∧ frame.full then .ok () else .error .pendingFrameMustBeSnapshot

def attach (p : FramePublisher) (id : SubscriptionId) (snapshot : Frame) :
    Except OfferError (Publication × FramePublisher) := do
  p.requireCurrentSnapshot snapshot
  let (publication, sub) :=
    { id, nextSequence := 1, inFlight := none, pending := none, viewportReady := true :
      Subscription }.publish snapshot
  return (publication, { p with subscription := some sub })

def requiresSnapshot (p : FramePublisher) : Bool := p.subscription.any Subscription.held

def offer (p : FramePublisher) (frame : Frame) :
    Except OfferError (Option Publication × FramePublisher) :=
  if frame.viewport ≠ p.applied then .ok (none, p)
  else match p.subscription with
    | none => .ok (none, p)
    | some sub =>
      if sub.held then
        if !frame.full then .error .pendingFrameMustBeSnapshot
        else .ok (none, { p with subscription := some { sub with pending := some frame } })
      else
        let (publication, sub) := sub.publish frame
        .ok (some publication, { p with subscription := some sub })

def resizeApplied (p : FramePublisher) (viewport : Viewport) : FramePublisher :=
  if viewport = p.applied then p
  else
    { applied := viewport
      subscription := p.subscription.map fun sub =>
        { sub with viewportReady := false, pending := none } }

def acknowledge (p : FramePublisher) (id : SubscriptionId) (sequence : ℕ) :
    Option Publication × FramePublisher :=
  match p.subscription with
  | none => (none, p)
  | some sub =>
    if sub.id ≠ id ∨ sub.inFlight ≠ some sequence then (none, p)
    else
      let (publication, sub) := { sub with inFlight := none }.flush
      (publication, { p with subscription := some sub })

def viewportReady (p : FramePublisher) (id : SubscriptionId) (viewport : Viewport) :
    Option Publication × FramePublisher :=
  match p.subscription with
  | none => (none, p)
  | some sub =>
    if sub.id ≠ id ∨ viewport ≠ p.applied then (none, p)
    else
      let (publication, sub) := { sub with viewportReady := true }.flush
      (publication, { p with subscription := some sub })

def fault (p : FramePublisher) (id : SubscriptionId) : Bool × FramePublisher :=
  if p.subscription.any (·.id = id) then (true, { p with subscription := none }) else (false, p)

def close (p : FramePublisher) : FramePublisher := { p with subscription := none }

end FramePublisher

/-! ### What the operations do -/

variable {sub sub' : Subscription} {p p' : FramePublisher} {f : Frame} {out : Option Publication}
  {publication : Publication} {id : SubscriptionId} {sequence : ℕ} {viewport : Viewport}

theorem Subscription.held_eq_false_iff :
    sub.held = false ↔ sub.inFlight = none ∧ sub.viewportReady = true := by
  rw [held, Bool.or_eq_false_iff, Option.isSome_eq_false_iff, Option.isNone_iff_eq_none,
    Bool.not_eq_false']

/-- Releasing credit publishes what is pending, when nothing holds it back. -/
theorem Subscription.flush_cases (sub : Subscription) :
    (sub.flush = (none, sub) ∧ (sub.held = true ∨ sub.pending = none)) ∨
    ∃ f, sub.held = false ∧ sub.pending = some f ∧
      sub.flush = (some (sub.publish f).1, { (sub.publish f).2 with pending := none }) := by
  rw [flush]
  split_ifs with hheld
  · exact .inl ⟨rfl, .inl hheld⟩
  · cases hpending : sub.pending with
    | none => exact .inl ⟨rfl, .inr rfl⟩
    | some f => exact .inr ⟨f, Bool.eq_false_iff.mpr hheld, rfl, rfl⟩

namespace FramePublisher

theorem attach_ok (h : p.attach id f = .ok (publication, p')) :
    f.viewport = p.applied ∧ f.full = true ∧ publication = ⟨id, 1, f⟩ ∧
      p' = { p with subscription := some ⟨id, 2, some 1, none, true⟩ } := by
  rw [attach, requireCurrentSnapshot] at h
  split_ifs at h with hcurrent
  · obtain ⟨rfl, rfl⟩ := Prod.mk.inj (Except.ok.inj h)
    exact ⟨hcurrent.1, hcurrent.2, rfl, rfl⟩
  · cases h

theorem offer_of_subscription (hviewport : f.viewport = p.applied)
    (hsub : p.subscription = some sub) :
    p.offer f =
      if sub.held then
        if !f.full then .error .pendingFrameMustBeSnapshot
        else .ok (none, { p with subscription := some { sub with pending := some f } })
      else .ok (some (sub.publish f).1, { p with subscription := some (sub.publish f).2 }) := by
  simp only [offer, hviewport, hsub, ne_eq, not_true_eq_false, if_false]

/-- A frame that is offered is inert, set aside in place of the pending one, or published. -/
theorem offer_ok (h : p.offer f = .ok (out, p')) :
    (out = none ∧ p' = p ∧ (f.viewport = p.applied → p.subscription = none)) ∨
    ∃ sub, p.subscription = some sub ∧ f.viewport = p.applied ∧
      ((sub.held = true ∧ f.full = true ∧ out = none ∧
          p' = { p with subscription := some { sub with pending := some f } }) ∨
        (sub.held = false ∧ out = some (sub.publish f).1 ∧
          p' = { p with subscription := some (sub.publish f).2 })) := by
  by_cases hviewport : f.viewport = p.applied
  · cases hsub : p.subscription with
    | none =>
      simp only [offer, hviewport, hsub, ne_eq, not_true_eq_false, if_false] at h
      obtain ⟨rfl, rfl⟩ := Prod.mk.inj (Except.ok.inj h)
      exact .inl ⟨rfl, rfl, fun _ => rfl⟩
    | some sub =>
      rw [offer_of_subscription hviewport hsub] at h
      refine .inr ⟨sub, rfl, hviewport, ?_⟩
      split_ifs at h with hheld hfull
      · obtain ⟨rfl, rfl⟩ := Prod.mk.inj (Except.ok.inj h)
        exact .inl ⟨hheld, by simpa using hfull, rfl, rfl⟩
      · obtain ⟨rfl, rfl⟩ := Prod.mk.inj (Except.ok.inj h)
        exact .inr ⟨Bool.eq_false_iff.mpr hheld, rfl, rfl⟩
  · rw [offer, if_pos hviewport] at h
    obtain ⟨rfl, rfl⟩ := Prod.mk.inj (Except.ok.inj h)
    exact .inl ⟨rfl, rfl, fun heq => absurd heq hviewport⟩

/-- An offer is refused only while it is held back, and only when it is incremental. -/
theorem offer_error {e : OfferError} (h : p.offer f = .error e) :
    f.full = false ∧ f.viewport = p.applied ∧ ∃ sub, p.subscription = some sub ∧ sub.held = true := by
  by_cases hviewport : f.viewport = p.applied
  · cases hsub : p.subscription with
    | none => simp only [offer, hviewport, hsub, ne_eq, not_true_eq_false, if_false, reduceCtorEq] at h
    | some sub =>
      rw [offer_of_subscription hviewport hsub] at h
      split_ifs at h with hheld hfull
      exact ⟨by simpa using hfull, hviewport, sub, rfl, hheld⟩
  · rw [offer, if_pos hviewport] at h
    cases h

theorem acknowledge_cases (p : FramePublisher) (id : SubscriptionId) (sequence : ℕ) :
    p.acknowledge id sequence = (none, p) ∨
    ∃ sub, p.subscription = some sub ∧ sub.id = id ∧ sub.inFlight = some sequence ∧
      p.acknowledge id sequence = (({ sub with inFlight := none } : Subscription).flush.1,
        { p with subscription := some ({ sub with inFlight := none } : Subscription).flush.2 }) := by
  rw [acknowledge]
  cases hsub : p.subscription with
  | none => exact .inl rfl
  | some sub =>
    dsimp only
    split_ifs with hother
    · exact .inl rfl
    · rw [not_or, not_not, not_not] at hother
      exact .inr ⟨sub, rfl, hother.1, hother.2, rfl⟩

theorem viewportReady_cases (p : FramePublisher) (id : SubscriptionId) (viewport : Viewport) :
    p.viewportReady id viewport = (none, p) ∨
    ∃ sub, p.subscription = some sub ∧ sub.id = id ∧ viewport = p.applied ∧
      p.viewportReady id viewport = (({ sub with viewportReady := true } : Subscription).flush.1,
        { p with
          subscription := some ({ sub with viewportReady := true } : Subscription).flush.2 }) := by
  rw [viewportReady]
  cases hsub : p.subscription with
  | none => exact .inl rfl
  | some sub =>
    dsimp only
    split_ifs with hother
    · exact .inl rfl
    · rw [not_or, not_not, not_not] at hother
      exact .inr ⟨sub, rfl, hother.1, hother.2, rfl⟩

theorem applied_offer (h : p.offer f = .ok (out, p')) : p'.applied = p.applied := by
  rcases offer_ok h with ⟨-, rfl, -⟩ | ⟨sub, -, -, ⟨-, -, -, rfl⟩ | ⟨-, -, rfl⟩⟩ <;> rfl

theorem applied_acknowledge (p : FramePublisher) (id : SubscriptionId) (sequence : ℕ) :
    (p.acknowledge id sequence).2.applied = p.applied := by
  rcases p.acknowledge_cases id sequence with h | ⟨sub, -, -, -, h⟩ <;> rw [h]

theorem applied_viewportReady (p : FramePublisher) (id : SubscriptionId) (viewport : Viewport) :
    (p.viewportReady id viewport).2.applied = p.applied := by
  rcases p.viewportReady_cases id viewport with h | ⟨sub, -, -, -, h⟩ <;> rw [h]

theorem applied_resizeApplied (p : FramePublisher) (viewport : Viewport) :
    (p.resizeApplied viewport).applied = viewport := by
  rw [resizeApplied]
  split_ifs with h
  · exact h.symm
  · rfl

end FramePublisher

end Buzz.Desktop.Terminal
