import Buzz.Desktop.Terminal.Publisher
import Mathlib.Data.List.Nodup

/-!
# One credit, and no viewport crossed

Every sequence of operations on a `FramePublisher`. A history has its most recent operation first.

## Main definitions

* `FramePublisher.perform`, `FramePublisher.after`, `publications`.
* `Acknowledged`, `Confirmed`, `Latest`: what a history has of a publication, a viewport and a frame.
* `History`: the invariant.

## Main results

* `Performed`, `FramePublisher.performed`: what an operation can do.
* `one_credit`: the publications of every history, and what is pending after it.
-/

namespace Buzz.Desktop.Terminal

inductive Op
  | attach (id : SubscriptionId) (snapshot : Frame)
  | offer (frame : Frame)
  | resizeApplied (viewport : Viewport)
  | acknowledge (id : SubscriptionId) (sequence : ℕ)
  | viewportReady (id : SubscriptionId) (viewport : Viewport)
  | fault (id : SubscriptionId)
  | close
  deriving DecidableEq

/-- The publication that an operation returns. -/
def published : Except OfferError (Option Publication) → Option Publication
  | .ok publication => publication
  | .error _ => none

namespace FramePublisher

def perform (p : FramePublisher) : Op → Except OfferError (Option Publication) × FramePublisher
  | .attach id snapshot =>
    match p.attach id snapshot with
    | .ok (publication, p') => (.ok (some publication), p')
    | .error e => (.error e, p)
  | .offer frame =>
    match p.offer frame with
    | .ok (publication, p') => (.ok publication, p')
    | .error e => (.error e, p)
  | .resizeApplied viewport => (.ok none, p.resizeApplied viewport)
  | .acknowledge id sequence =>
    (.ok (p.acknowledge id sequence).1, (p.acknowledge id sequence).2)
  | .viewportReady id viewport =>
    (.ok (p.viewportReady id viewport).1, (p.viewportReady id viewport).2)
  | .fault id => (.ok none, (p.fault id).2)
  | .close => (.ok none, p.close)

/-- The publisher after a history, the most recent operation first. -/
def after (v : Viewport) : List Op → FramePublisher
  | [] => new v
  | op :: ops => ((after v ops).perform op).2

end FramePublisher

/-- What a history published, the most recent first. -/
def publications (v : Viewport) : List Op → List Publication
  | [] => []
  | op :: ops =>
    (published ((FramePublisher.after v ops).perform op).1).toList ++ publications v ops

/-- The sequence numbers published to a subscription, the most recent first. -/
def sequences (v : Viewport) (ops : List Op) (id : SubscriptionId) : List ℕ :=
  ((publications v ops).filter (·.subscriptionId = id)).map (·.sequence)

def attachIds (ops : List Op) : List SubscriptionId :=
  ops.filterMap fun
    | .attach id _ => some id
    | _ => none

/-! ### What an operation can do -/

/-- What an operation publishes and what it leaves. -/
inductive Performed (p : FramePublisher) : Op → Option Publication → FramePublisher → Prop
  /-- The subscription is left as it is. -/
  | inert {op : Op} (h : ∀ f, op = .offer f → f.viewport = p.applied → ∀ sub,
      p.subscription = some sub → f.full = false) : Performed p op none p
  | detached {op : Op} (h : ∀ f, op ≠ .offer f) : Performed p op none { p with subscription := none }
  | resized {viewport : Viewport} (h : viewport ≠ p.applied) :
      Performed p (.resizeApplied viewport) none
        { applied := viewport
          subscription := p.subscription.map fun sub =>
            { sub with viewportReady := false, pending := none } }
  | attached {id : SubscriptionId} {f : Frame} (h : f.viewport = p.applied) :
      Performed p (.attach id f) (some ⟨id, 1, f⟩)
        { p with subscription := some ⟨id, 2, some 1, none, true⟩ }
  | setAside {sub : Subscription} {f : Frame} (hsub : p.subscription = some sub)
      (hviewport : f.viewport = p.applied) (hheld : sub.held = true) (hfull : f.full = true) :
      Performed p (.offer f) none { p with subscription := some { sub with pending := some f } }
  | offered {sub : Subscription} {f : Frame} (hsub : p.subscription = some sub)
      (hviewport : f.viewport = p.applied) (hheld : sub.held = false) :
      Performed p (.offer f) (some (sub.publish f).1)
        { p with subscription := some (sub.publish f).2 }
  | acknowledged {sub : Subscription} {n : ℕ} (hsub : p.subscription = some sub)
      (hflight : sub.inFlight = some n) :
      Performed p (.acknowledge sub.id n) ({ sub with inFlight := none } : Subscription).flush.1
        { p with subscription := some ({ sub with inFlight := none } : Subscription).flush.2 }
  | confirmed {sub : Subscription} (hsub : p.subscription = some sub) :
      Performed p (.viewportReady sub.id p.applied)
        ({ sub with viewportReady := true } : Subscription).flush.1
        { p with subscription := some ({ sub with viewportReady := true } : Subscription).flush.2 }

namespace FramePublisher

theorem performed (p : FramePublisher) (op : Op) :
    Performed p op (published (p.perform op).1) (p.perform op).2 := by
  cases op with
  | attach id f =>
    simp only [perform]
    cases hattach : p.attach id f with
    | ok x =>
      obtain ⟨publication, p'⟩ := x
      obtain ⟨hviewport, -, rfl, rfl⟩ := attach_ok hattach
      exact .attached hviewport
    | error e => exact .inert fun f hf => by cases hf
  | offer f =>
    simp only [perform]
    cases hoffer : p.offer f with
    | ok x =>
      obtain ⟨out, p'⟩ := x
      rcases offer_ok hoffer with ⟨rfl, rfl, hnone⟩ | ⟨sub, hsub, hviewport, hcase⟩
      · refine .inert fun g hg hviewport sub hsub => ?_
        obtain rfl := Op.offer.inj hg
        rw [hnone hviewport] at hsub
        cases hsub
      · rcases hcase with ⟨hheld, hfull, rfl, rfl⟩ | ⟨hfree, rfl, rfl⟩
        · exact .setAside hsub hviewport hheld hfull
        · exact .offered hsub hviewport hfree
    | error e =>
      refine .inert fun g hg _ _ _ => ?_
      obtain rfl := Op.offer.inj hg
      exact (offer_error hoffer).1
  | resizeApplied viewport =>
    simp only [perform, resizeApplied]
    split_ifs with hsame
    · exact .inert fun f hf => by cases hf
    · exact .resized hsame
  | acknowledge id sequence =>
    simp only [perform]
    rcases p.acknowledge_cases id sequence with h | ⟨sub, hsub, rfl, hflight, h⟩
    · rw [h]
      exact .inert fun f hf => by cases hf
    · rw [h]
      exact .acknowledged hsub hflight
  | viewportReady id viewport =>
    simp only [perform]
    rcases p.viewportReady_cases id viewport with h | ⟨sub, hsub, rfl, rfl, h⟩
    · rw [h]
      exact .inert fun f hf => by cases hf
    · rw [h]
      exact .confirmed hsub
  | fault id =>
    simp only [perform, fault]
    split_ifs
    · exact .detached fun f hf => by cases hf
    · exact .inert fun f hf => by cases hf
  | close => exact .detached fun f hf => by cases hf

end FramePublisher

/-! ### What a history has -/

variable {v viewport : Viewport} {op : Op} {ops : List Op} {id : SubscriptionId} {n : ℕ} {f : Frame}
  {sub : Subscription} {publication : Publication}

/-- The subscription acknowledged the publication after it was published. -/
inductive Acknowledged (v : Viewport) (id : SubscriptionId) (n : ℕ) : List Op → Prop
  | acknowledge {ops : List Op} (h : n ∈ sequences v ops id) :
      Acknowledged v id n (.acknowledge id n :: ops)
  | later {op : Op} {ops : List Op} (h : Acknowledged v id n ops) : Acknowledged v id n (op :: ops)

/-- The subscription attached with the viewport or confirmed it, and it has been applied since. -/
inductive Confirmed (v : Viewport) (id : SubscriptionId) (viewport : Viewport) : List Op → Prop
  | attach {f : Frame} {ops : List Op} (h : f.viewport = viewport)
      (happlied : (FramePublisher.after v (.attach id f :: ops)).applied = viewport) :
      Confirmed v id viewport (.attach id f :: ops)
  | viewportReady {ops : List Op}
      (happlied : (FramePublisher.after v (.viewportReady id viewport :: ops)).applied = viewport) :
      Confirmed v id viewport (.viewportReady id viewport :: ops)
  | later {op : Op} {ops : List Op} (h : Confirmed v id viewport ops)
      (happlied : (FramePublisher.after v (op :: ops)).applied = viewport) :
      Confirmed v id viewport (op :: ops)

/-- The frame is the latest complete frame of the viewport that was offered. -/
inductive Latest (f : Frame) (viewport : Viewport) : List Op → Prop
  | offer {ops : List Op} : Latest f viewport (.offer f :: ops)
  | later {op : Op} {ops : List Op} (h : Latest f viewport ops)
      (hother : ∀ g, op = .offer g → g.full = true → g.viewport ≠ viewport) :
      Latest f viewport (op :: ops)

/-- What a history that ends with a publication has of it. -/
structure Due (v : Viewport) (ops : List Op) (publication : Publication) : Prop where
  acknowledged : ∀ n, 0 < n → publication.sequence = n + 1 →
    Acknowledged v publication.subscriptionId n ops
  viewport : publication.frame.viewport = (FramePublisher.after v ops).applied
  confirmed : Confirmed v publication.subscriptionId publication.frame.viewport ops

/-! ### The invariant -/

/-- A subscription against a history in which it was published `n` frames. -/
structure Account (v : Viewport) (ops : List Op) (n : ℕ) (sub : Subscription) : Prop where
  next : sub.nextSequence = n + 1
  inFlight : ∀ k, sub.inFlight = some k → k = n
  acknowledged : sub.inFlight = none → 0 < n → Acknowledged v sub.id n ops
  ready : sub.viewportReady = true →
    Confirmed v sub.id (FramePublisher.after v ops).applied ops
  pending : ∀ f, sub.pending = some f →
    f.full = true ∧ f.viewport = (FramePublisher.after v ops).applied ∧ Latest f f.viewport ops
  id_mem : sub.id ∈ attachIds ops

structure History (v : Viewport) (ops : List Op) : Prop where
  account : ∀ sub, (FramePublisher.after v ops).subscription = some sub →
    Account v ops (sequences v ops sub.id).length sub
  flushed : ∀ sub, (FramePublisher.after v ops).subscription = some sub → sub.held = false →
    sub.pending = none
  ids : ∀ id, sequences v ops id ≠ [] → id ∈ attachIds ops
  counted : ∀ id, (sequences v ops id).reverse = List.range' 1 (sequences v ops id).length

theorem sequences_silent (h : published ((FramePublisher.after v ops).perform op).1 = none)
    (id : SubscriptionId) : sequences v (op :: ops) id = sequences v ops id := by
  rw [sequences, publications, h]
  rfl

theorem sequences_published
    (h : published ((FramePublisher.after v ops).perform op).1 = some publication)
    (id : SubscriptionId) :
    sequences v (op :: ops) id =
      if publication.subscriptionId = id then publication.sequence :: sequences v ops id
      else sequences v ops id := by
  rw [sequences, publications, h, Option.toList_some, List.singleton_append, List.filter_cons]
  split_ifs with hid hother hother
  · rfl
  · exact absurd (of_decide_eq_true hid) hother
  · exact absurd (decide_eq_true hother) hid
  · rfl

theorem mem_attachIds_cons (h : id ∈ attachIds ops) : id ∈ attachIds (op :: ops) := by
  rw [attachIds, List.filterMap_cons]
  split
  · exact h
  · exact List.mem_cons_of_mem _ h

namespace Account

/-- An operation that leaves the viewport, and what is pending the latest, does not touch the
account. -/
theorem later (h : Account v ops n sub)
    (happlied : (FramePublisher.after v (op :: ops)).applied = (FramePublisher.after v ops).applied)
    (hother : ∀ g, op = .offer g → g.full = true →
      g.viewport = (FramePublisher.after v ops).applied → sub.pending = none) :
    Account v (op :: ops) n sub where
  next := h.next
  inFlight := h.inFlight
  acknowledged hfree hn := .later (h.acknowledged hfree hn)
  ready hready := happlied ▸ .later (h.ready hready) happlied
  pending f hf := by
    obtain ⟨hfull, hviewport, hlatest⟩ := h.pending f hf
    refine ⟨hfull, hviewport.trans happlied.symm,
      .later hlatest fun g hg hgfull hgviewport => ?_⟩
    rw [hother g hg hgfull (hgviewport.trans hviewport)] at hf
    cases hf
  id_mem := mem_attachIds_cons h.id_mem

/-- A publication spends the credit. -/
theorem publish (h : Account v ops n sub) (f : Frame) :
    Account v ops (n + 1) { (sub.publish f).2 with pending := none } where
  next := congrArg (· + 1) h.next
  inFlight _ hk := (Option.some.inj hk).symm.trans h.next
  acknowledged hfree := nomatch hfree
  ready := h.ready
  pending _ hf := nomatch hf
  id_mem := h.id_mem

/-- What is published when nothing is held back was due. -/
theorem due (h : Account v ops n sub) (hfree : sub.held = false)
    (hviewport : f.viewport = (FramePublisher.after v ops).applied) :
    Due v ops (sub.publish f).1 where
  acknowledged _ hk hsequence := by
    obtain rfl := Nat.succ.inj (hsequence.symm.trans h.next)
    exact h.acknowledged (Subscription.held_eq_false_iff.mp hfree).1 hk
  viewport := hviewport
  confirmed := hviewport ▸ h.ready (Subscription.held_eq_false_iff.mp hfree).2

end Account

/-- What an operation publishes, and the account that it leaves. -/
structure Accounted (v : Viewport) (op : Op) (ops : List Op) (out : Option Publication)
    (p : FramePublisher) : Prop where
  due : ∀ publication, out = some publication → Due v (op :: ops) publication
  sequence : ∀ publication, out = some publication →
    publication.sequence = (sequences v ops publication.subscriptionId).length + 1
  id_mem : ∀ publication, out = some publication →
    publication.subscriptionId ∈ attachIds (op :: ops)
  account : ∀ sub, p.subscription = some sub →
    Account v (op :: ops) (sequences v (op :: ops) sub.id).length sub
  flushed : ∀ sub, p.subscription = some sub → sub.held = false → sub.pending = none

namespace Accounted

variable {p : FramePublisher} {s : Subscription}

/-- An operation that publishes nothing. -/
theorem of_silent (hout : published ((FramePublisher.after v ops).perform op).1 = none)
    (hp : p.subscription = some s)
    (haccount : Account v (op :: ops) (sequences v ops s.id).length s)
    (hflushed : s.held = false → s.pending = none) : Accounted v op ops none p where
  due _ h := nomatch h
  sequence _ h := nomatch h
  id_mem _ h := nomatch h
  account s' hsub' := by
    obtain rfl := Option.some.inj (hp.symm.trans hsub')
    exact (sequences_silent hout s.id).symm ▸ haccount
  flushed s' hsub' := Option.some.inj (hp.symm.trans hsub') ▸ hflushed

/-- An operation that leaves no subscription. -/
theorem of_none (hp : p.subscription = none) : Accounted v op ops none p where
  due _ h := nomatch h
  sequence _ h := nomatch h
  id_mem _ h := nomatch h
  account _ h := nomatch hp.symm.trans h
  flushed _ h := nomatch hp.symm.trans h

theorem of_publish
    (hout : published ((FramePublisher.after v ops).perform op).1 = some (s.publish f).1)
    (haccount : Account v (op :: ops) (sequences v ops s.id).length s)
    (hfree : s.held = false)
    (hviewport : f.viewport = (FramePublisher.after v (op :: ops)).applied)
    (hp : p.subscription = some { (s.publish f).2 with pending := none }) :
    Accounted v op ops (some (s.publish f).1) p where
  due publication h := Option.some.inj h ▸ haccount.due hfree hviewport
  sequence publication h := Option.some.inj h ▸ haccount.next
  id_mem publication h := Option.some.inj h ▸ haccount.id_mem
  account s' hsub' := by
    obtain rfl := Option.some.inj (hp.symm.trans hsub')
    have hlength : (sequences v (op :: ops) s.id).length = (sequences v ops s.id).length + 1 := by
      rw [sequences_published hout, if_pos (show (s.publish f).1.subscriptionId = s.id from rfl)]
      rfl
    exact hlength.symm ▸ haccount.publish f
  flushed s' hsub' _ := by
    obtain rfl := Option.some.inj (hp.symm.trans hsub')
    rfl

/-- A release publishes what is pending, when nothing holds it back. -/
theorem of_flush (hout : published ((FramePublisher.after v ops).perform op).1 = s.flush.1)
    (haccount : Account v (op :: ops) (sequences v ops s.id).length s)
    (hp : p.subscription = some s.flush.2) : Accounted v op ops s.flush.1 p := by
  rcases s.flush_cases with ⟨hflush, hwhy⟩ | ⟨f, hfree, hf, hflush⟩
  · rw [hflush] at hout hp ⊢
    exact of_silent hout hp haccount
      fun hfree => hwhy.resolve_left fun hheld => absurd (hheld.symm.trans hfree) (by decide)
  · rw [hflush] at hout hp ⊢
    exact of_publish hout haccount hfree (haccount.pending f hf).2.1 hp

end Accounted

/-- The numbers that a subscription has seen. -/
theorem History.mem_sequences (h : History v ops) (hn : 0 < n)
    (hle : n ≤ (sequences v ops id).length) : n ∈ sequences v ops id := by
  rw [← List.mem_reverse, h.counted id, List.mem_range'_1]
  omega

theorem History.accounted (h : History v ops) (hnodup : (attachIds (op :: ops)).Nodup) :
    Accounted v op ops (published ((FramePublisher.after v ops).perform op).1)
      (FramePublisher.after v (op :: ops)) := by
  have hperformed := (FramePublisher.after v ops).performed op
  generalize hout : published ((FramePublisher.after v ops).perform op).1 = out at hperformed ⊢
  generalize hafter : FramePublisher.after v (op :: ops) = p
  rw [show ((FramePublisher.after v ops).perform op).2 = p from hafter] at hperformed
  cases hperformed with
  | inert hinert =>
    cases hsub : (FramePublisher.after v ops).subscription with
    | none => exact .of_none hsub
    | some sub =>
      refine .of_silent hout hsub ((h.account sub hsub).later (congrArg _ hafter)
        fun g hg hfull hviewport => ?_) (h.flushed sub hsub)
      exact absurd (hfull.symm.trans (hinert g hg hviewport sub hsub)) (by decide)
  | detached _ => exact .of_none rfl
  | resized hother =>
    cases hsub : (FramePublisher.after v ops).subscription with
    | none => exact .of_none rfl
    | some sub =>
      have haccount := h.account sub hsub
      exact .of_silent (s := { sub with viewportReady := false, pending := none }) hout rfl
        ⟨haccount.next, haccount.inFlight, fun hfree hn => .later (haccount.acknowledged hfree hn),
          fun hready => (nomatch hready), fun _ hf => (nomatch hf),
          mem_attachIds_cons haccount.id_mem⟩
        fun _ => rfl
  | @attached id f hviewport =>
    have happlied : f.viewport = (FramePublisher.after v (.attach id f :: ops)).applied :=
      hviewport.trans (congrArg FramePublisher.applied hafter).symm
    have hnew : sequences v ops id = [] := by
      by_contra hsome
      exact (List.nodup_cons.mp hnodup).1 (h.ids id hsome)
    have hmem : id ∈ attachIds (.attach id f :: ops) := List.mem_cons_self
    have haccount : Account v (.attach id f :: ops) (sequences v ops id).length
        ⟨id, 1, none, none, true⟩ :=
      ⟨by rw [hnew]; rfl, fun _ hk => (nomatch hk), fun _ hn => by rw [hnew] at hn; exact (nomatch hn),
        fun _ => .attach happlied rfl, fun _ hf => (nomatch hf), hmem⟩
    exact .of_publish (s := ⟨id, 1, none, none, true⟩) hout haccount rfl happlied rfl
  | @setAside sub f hsub hviewport hheld hfull =>
    have haccount := h.account sub hsub
    have happlied : (FramePublisher.after v (.offer f :: ops)).applied =
        (FramePublisher.after v ops).applied := by rw [hafter]
    refine .of_silent (s := { sub with pending := some f }) hout rfl ⟨haccount.next,
      haccount.inFlight, fun hfree hn => .later (haccount.acknowledged hfree hn), fun hready => ?_,
      fun g hg => ?_, mem_attachIds_cons haccount.id_mem⟩ fun hfree => ?_
    · exact happlied ▸ .later (haccount.ready hready) happlied
    · obtain rfl := Option.some.inj hg
      exact ⟨hfull, hviewport.trans happlied.symm, .offer⟩
    · exact absurd (hheld.symm.trans hfree) (by decide)
  | @offered sub f hsub hviewport hfree =>
    have happlied : (FramePublisher.after v (.offer f :: ops)).applied =
        (FramePublisher.after v ops).applied := by rw [hafter]
    have hpending := h.flushed sub hsub hfree
    refine .of_publish hout ((h.account sub hsub).later happlied fun _ _ _ _ => hpending) hfree
      (hviewport.trans happlied.symm) ?_
    rw [← hpending]
    rfl
  | @acknowledged sub k hsub hflight =>
    have haccount := h.account sub hsub
    have happlied := congrArg FramePublisher.applied hafter
    obtain rfl := haccount.inFlight k hflight
    have hlater := haccount.later happlied fun _ hg => (nomatch hg)
    exact .of_flush hout ⟨hlater.next, fun _ hk => (nomatch hk),
      fun _ hn => .acknowledge (h.mem_sequences hn (Nat.le_refl _)), hlater.ready, hlater.pending,
      hlater.id_mem⟩ rfl
  | @confirmed sub hsub =>
    have happlied := congrArg FramePublisher.applied hafter
    have hlater := (h.account sub hsub).later happlied fun _ hg => (nomatch hg)
    exact .of_flush hout ⟨hlater.next, hlater.inFlight, hlater.acknowledged,
      fun _ => by rw [happlied]; exact .viewportReady happlied, hlater.pending, hlater.id_mem⟩ rfl

/-- The invariant holds of every history whose subscriptions are distinct. -/
theorem history (v : Viewport) {ops : List Op} (hnodup : (attachIds ops).Nodup) :
    History v ops := by
  induction ops with
  | nil => exact ⟨fun _ h => (nomatch h), fun _ h => (nomatch h), fun _ h => absurd rfl h, fun _ => rfl⟩
  | cons op ops ih =>
    have htail : (attachIds ops).Nodup := by
      cases op with
      | attach id f => exact (List.nodup_cons.mp hnodup).2
      | _ => exact hnodup
    have h := ih htail
    have haccounted := h.accounted hnodup
    refine ⟨haccounted.account, haccounted.flushed, fun id hid => ?_, fun id => ?_⟩
    · cases hout : published ((FramePublisher.after v ops).perform op).1 with
      | none => exact mem_attachIds_cons (h.ids id (sequences_silent hout id ▸ hid))
      | some publication =>
        rw [sequences_published hout] at hid
        split_ifs at hid with hsame
        · exact hsame ▸ haccounted.id_mem publication hout
        · exact mem_attachIds_cons (h.ids id hid)
    · cases hout : published ((FramePublisher.after v ops).perform op).1 with
      | none => rw [sequences_silent hout, h.counted]
      | some publication =>
        rw [sequences_published hout]
        split_ifs with hsame
        · rw [List.reverse_cons, h.counted, List.length_cons, List.range'_1_concat, Nat.add_comm 1,
            haccounted.sequence publication hout, hsame]
        · exact h.counted id

/-! ### One step of any publisher -/

namespace FramePublisher

variable {p : FramePublisher}

/-- An incremental frame of the applied viewport is refused or published. -/
theorem perform_incremental (hsub : p.subscription = some sub) (hfull : f.full = false)
    (hviewport : f.viewport = p.applied) :
    p.perform (.offer f) = (.error .pendingFrameMustBeSnapshot, p) ∨
      p.perform (.offer f) =
        (.ok (some (sub.publish f).1), { p with subscription := some (sub.publish f).2 }) := by
  rw [perform, offer_of_subscription hviewport hsub, hfull]
  cases sub.held with
  | true => exact .inl rfl
  | false => exact .inr rfl

/-- A message that names another subscription is inert. -/
theorem perform_other (hother : ∀ sub, p.subscription = some sub → sub.id ≠ id) (n : ℕ)
    (viewport : Viewport) :
    p.perform (.acknowledge id n) = (.ok none, p) ∧
      p.perform (.viewportReady id viewport) = (.ok none, p) ∧
      p.perform (.fault id) = (.ok none, p) := by
  refine ⟨?_, ?_, ?_⟩
  · rcases p.acknowledge_cases id n with h | ⟨sub, hsub, hid, -⟩
    · rw [perform, h]
    · exact absurd hid (hother sub hsub)
  · rcases p.viewportReady_cases id viewport with h | ⟨sub, hsub, hid, -⟩
    · rw [perform, h]
    · exact absurd hid (hother sub hsub)
  · have hnone : p.subscription.any (·.id = id) = false := by
      cases hsub : p.subscription with
      | none => rfl
      | some sub => exact decide_eq_false (hother sub hsub)
    rw [perform, fault, hnone]
    rfl

end FramePublisher

theorem nodup_attachIds_of_suffix {before : List Op} (h : (attachIds ops).Nodup)
    (hsuffix : before <:+ ops) : (attachIds before).Nodup :=
  h.sublist (hsuffix.sublist.filterMap _)

/-- For every sequence of operations with distinct subscription ids: the numbers of each
subscription are consecutive; each publication was due, the one before it acknowledged and its
viewport applied and confirmed; what is pending is the latest complete frame of the applied
viewport, and an incremental one is refused or published; and other subscriptions are inert. -/
theorem one_credit (v : Viewport) (ops : List Op) (hids : (attachIds ops).Nodup) :
    let p := FramePublisher.after v ops
    (∀ id, (sequences v ops id).reverse = List.range' 1 (sequences v ops id).length) ∧
    (∀ op before publication, op :: before <:+ ops →
      published ((FramePublisher.after v before).perform op).1 = some publication →
      Due v (op :: before) publication) ∧
    (∀ sub, p.subscription = some sub →
      (∀ f, sub.pending = some f →
        f.full = true ∧ f.viewport = p.applied ∧ Latest f p.applied ops) ∧
      ∀ f, f.full = false → f.viewport = p.applied →
        p.perform (.offer f) = (.error .pendingFrameMustBeSnapshot, p) ∨
          p.perform (.offer f) =
            (.ok (some (sub.publish f).1), { p with subscription := some (sub.publish f).2 })) ∧
    ∀ id, (∀ sub, p.subscription = some sub → sub.id ≠ id) → ∀ n viewport,
      p.perform (.acknowledge id n) = (.ok none, p) ∧
        p.perform (.viewportReady id viewport) = (.ok none, p) ∧
        p.perform (.fault id) = (.ok none, p) := by
  have h := history v hids
  refine ⟨h.counted, fun op before publication hsuffix hout => ?_, fun sub hsub => ⟨fun f hf => ?_,
    fun f hfull hviewport => FramePublisher.perform_incremental hsub hfull hviewport⟩,
    fun id hother n viewport => FramePublisher.perform_other hother n viewport⟩
  · have hnodup := nodup_attachIds_of_suffix hids hsuffix
    have hbefore := nodup_attachIds_of_suffix hnodup (List.suffix_cons op before)
    exact ((history v hbefore).accounted hnodup).due publication hout
  · obtain ⟨hfull, hviewport, hlatest⟩ := (h.account sub hsub).pending f hf
    exact ⟨hfull, hviewport, hviewport ▸ hlatest⟩

/-- A frame set aside by a resize is published when the viewport is confirmed. -/
theorem one_credit_resized :
    let v : Viewport := ⟨0, 80, 24⟩
    let v' : Viewport := ⟨1, 100, 30⟩
    let frame (v : Viewport) : Frame := ⟨[], ⟨0, 0, true⟩, true, true, v⟩
    Due v [.viewportReady 0 v', .offer (frame v'), .resizeApplied v', .acknowledge 0 1,
      .attach 0 (frame v)] ⟨0, 2, frame v'⟩ :=
  (one_credit ⟨0, 80, 24⟩ _ (by decide)).2.1 _ _ _ (List.suffix_refl _) rfl

end Buzz.Desktop.Terminal
