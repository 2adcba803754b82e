import Buzz.Desktop.Terminal.Session
import Mathlib.Data.List.Perm.Basic

/-!
# Between the publisher and the renderer

One frame of a subscription is under way at a time, so that what a renderer will hold is what it
holds, with the frame under way and then the pending one applied. The operations of the publisher
change it by the frame they are given, and delivery does not change it.

## Main definitions

* `Line.Good`: the credit of the attached subscription accounts for what is under way.

## Main results

* `Line.Good.offer`, `Line.Good.attach`: what the renderer will hold after an offer and after an
  attachment.
* `Line.Good.acknowledge`, `Line.Good.viewportReady`, `Line.Good.deliver`: it does not change.
-/

namespace Buzz.Desktop.Terminal

/-- The credit of a subscription, against what is under way to its renderer. -/
structure Line.Credited (l : Line) (sub : Subscription) : Prop where
  inFlight : ∀ p ∈ l.transit, p.subscriptionId = sub.id →
    sub.inFlight = some p.sequence ∧ (sub.id, p.sequence) ∉ l.applied
  one : (l.transit.filter (·.subscriptionId = sub.id)).length ≤ 1
  applied_lt : ∀ n, (sub.id, n) ∈ l.applied → n < sub.nextSequence
  inFlight_lt : ∀ n, sub.inFlight = some n → n < sub.nextSequence
  flushed : sub.held = false → sub.pending = none
  id_lt : sub.id < l.nextId

structure Line.Good (l : Line) : Prop where
  credited : ∀ sub, l.publisher.subscription = some sub → l.Credited sub
  transit_lt : ∀ p ∈ l.transit, p.subscriptionId < l.nextId
  applied_lt : ∀ x ∈ l.applied, x.1 < l.nextId
  sized : ∀ id, (l.screens id).Sized

namespace Line

variable {l l' : Line} {sub sub' : Subscription} {f : Frame} {out : Option Publication}
  {p : FramePublisher} {publication : Publication} {pre post : List Publication}
  {id : SubscriptionId}

theorem sized_foldl {s : Screen} (h : s.Sized) (ps : List Publication) :
    (ps.foldl (fun s p => s.apply p.frame) s).Sized := by
  induction ps generalizing s with
  | nil => exact h
  | cons p ps ih => exact ih (h.apply p.frame)

theorem Good.sized_shown (h : l.Good) (id : SubscriptionId) : (l.shown id).Sized :=
  sized_foldl (h.sized id) _

theorem Good.sized_target (h : l.Good) (sub : Subscription) : (l.target sub).Sized := by
  rw [target]
  cases sub.pending with
  | none => exact h.sized_shown sub.id
  | some f => exact (h.sized_shown sub.id).apply f

theorem Credited.filter_of_free (h : l.Credited sub) (hfree : sub.inFlight = none) :
    l.transit.filter (·.subscriptionId = sub.id) = [] := by
  rw [List.filter_eq_nil_iff]
  intro p hp hid
  have hflight := (h.inFlight p hp (of_decide_eq_true hid)).1
  rw [hfree] at hflight
  cases hflight

/-- What a renderer holds when nothing is in flight. -/
theorem Credited.shown_of_free (h : l.Credited sub) (hfree : sub.inFlight = none) :
    l.shown sub.id = l.screens sub.id := by
  rw [shown, h.filter_of_free hfree]
  rfl

theorem mem_of_filter {ps qs : List Publication}
    (h : ps.filter (·.subscriptionId = id) = qs) (hp : publication ∈ ps)
    (hid : publication.subscriptionId = id) : publication ∈ qs :=
  h ▸ List.mem_filter.mpr ⟨hp, decide_eq_true hid⟩

/-- What is under way to the renderer of a subscription, after one more publication. -/
theorem filter_insert (publication : Publication)
    (hnone : (pre ++ post).filter (·.subscriptionId = publication.subscriptionId) = []) :
    (pre ++ [publication] ++ post).filter (·.subscriptionId = publication.subscriptionId) =
      [publication] := by
  rw [List.filter_append, List.append_eq_nil_iff] at hnone
  rw [List.filter_append, List.filter_append, hnone.1, hnone.2]
  simp only [List.nil_append, List.append_nil, List.filter_cons, decide_true, if_true,
    List.filter_nil]

/-- The line after a publication. -/
def published (l : Line) (pre post : List Publication) (sub : Subscription) (f : Frame) : Line :=
  { l with
    publisher := { l.publisher with
      subscription := some { (sub.publish f).2 with pending := none } }
    transit := pre ++ [(sub.publish f).1] ++ post }

/-- To publish when nothing is under way keeps the account, and the renderer will hold the frame. -/
theorem good_published (f : Frame) (hgood : l.Good) (htransit : l.transit = pre ++ post)
    (hnone : l.transit.filter (·.subscriptionId = sub.id) = [])
    (happlied : ∀ n, (sub.id, n) ∈ l.applied → n < sub.nextSequence) (hid : sub.id < l.nextId) :
    (l.published pre post sub f).Good ∧
      (l.published pre post sub f).shown sub.id = (l.shown sub.id).apply f := by
  have hfilter : (l.published pre post sub f).transit.filter (·.subscriptionId = sub.id) =
      [(sub.publish f).1] := filter_insert (sub.publish f).1 (htransit ▸ hnone)
  have hmem {p : Publication} (hp : p ∈ (l.published pre post sub f).transit)
      (hpid : p.subscriptionId = sub.id) : p = (sub.publish f).1 :=
    List.mem_singleton.mp (mem_of_filter hfilter hp hpid)
  refine ⟨⟨fun sub' hsub' => ?_, fun p hp => ?_, hgood.applied_lt, hgood.sized⟩, ?_⟩
  · obtain rfl := Option.some.inj hsub'
    refine ⟨fun p hp hpid => ?_, Nat.le_of_eq (congrArg List.length hfilter),
      fun n hn => Nat.lt_succ_of_lt (happlied n hn),
      fun n hn => Option.some.inj hn ▸ Nat.lt_succ_self _, fun _ => rfl, hid⟩
    obtain rfl := hmem hp hpid
    exact ⟨rfl, fun hin => Nat.lt_irrefl _ (happlied _ hin)⟩
  · by_cases hpid : p.subscriptionId = sub.id
    · exact hpid ▸ hid
    · refine hgood.transit_lt p (htransit ▸ ?_)
      rcases List.mem_append.mp hp with hp | hp
      · rcases List.mem_append.mp hp with hp | hp
        · exact List.mem_append_left post hp
        · exact absurd (congrArg (·.subscriptionId) (List.mem_singleton.mp hp)) hpid
      · exact List.mem_append_right pre hp
  · rw [shown, hfilter, shown, hnone]
    rfl

/-- What an offer does to what the renderer will hold: nothing, where the frame is inert, or else
the frame is applied, in place of a pending one where it is complete. -/
theorem Good.offer (hgood : l.Good) (htransit : l.transit = pre ++ post)
    (hoffer : l.publisher.offer f = .ok (out, p)) :
    let l' : Line := { l with publisher := p, transit := pre ++ out.toList ++ post }
    l'.Good ∧ ∀ sub', p.subscription = some sub' →
      (f.viewport ≠ l.publisher.applied ∧ p = l.publisher ∧ l'.target sub' = l.target sub') ∨
      f.viewport = l.publisher.applied ∧ ∃ sub, l.publisher.subscription = some sub ∧
        ∃ s, s.Sized ∧ l'.target sub' = s.apply f ∧ (f.full = false → s = l.target sub) := by
  rcases FramePublisher.offer_ok hoffer with ⟨rfl, rfl, hinert⟩ | ⟨sub, hsub, hviewport, hcase⟩
  · have hsame : ({ l with transit := pre ++ (none : Option Publication).toList ++ post } : Line) =
        l := by
      rw [Option.toList_none, List.append_nil, ← htransit]
    refine ⟨hsame ▸ hgood, fun sub' hsub' => .inl ⟨fun hviewport => ?_, rfl, by rw [hsame]⟩⟩
    rw [hinert hviewport] at hsub'
    cases hsub'
  · have hcredited := hgood.credited sub hsub
    rcases hcase with ⟨hheld, hfull, rfl, rfl⟩ | ⟨hfree, rfl, rfl⟩
    · refine ⟨⟨fun sub' hsub' => ?_, ?_, hgood.applied_lt, hgood.sized⟩, fun sub' hsub' => ?_⟩
      · obtain rfl := Option.some.inj hsub'
        have hkept : pre ++ (none : Option Publication).toList ++ post = l.transit := by
          rw [Option.toList_none, List.append_nil, ← htransit]
        refine ⟨fun p hp hid => ?_, ?_, hcredited.applied_lt, hcredited.inFlight_lt,
          fun hnot => ?_, hcredited.id_lt⟩
        · exact hcredited.inFlight p (hkept ▸ hp) hid
        · rw [hkept]
          exact hcredited.one
        · exact absurd (hheld.symm.trans hnot) (by decide)
      · rw [Option.toList_none, List.append_nil, ← htransit]
        exact hgood.transit_lt
      · obtain rfl := Option.some.inj hsub'
        refine .inr ⟨hviewport, sub, hsub, l.shown sub.id, hgood.sized_shown sub.id, ?_, fun hpart => ?_⟩
        · rw [target, shown, shown, Option.toList_none, List.append_nil, ← htransit]
          rfl
        · exact absurd (hfull.symm.trans hpart) (by decide)
    · have hflight := (Subscription.held_eq_false_iff.mp hfree).1
      have hpending := hcredited.flushed hfree
      have hpublished := good_published (f := f) hgood htransit
        (hcredited.filter_of_free hflight) hcredited.applied_lt hcredited.id_lt
      have hline : l.published pre post sub f =
          { l with
            publisher := { l.publisher with subscription := some (sub.publish f).2 }
            transit := pre ++ (some (sub.publish f).1).toList ++ post } := by
        have hsame : ({ (sub.publish f).2 with pending := none } : Subscription) =
            (sub.publish f).2 := by
          rw [← hpending]
          rfl
        rw [published, hsame]
        rfl
      rw [hline] at hpublished
      refine ⟨hpublished.1, fun sub' hsub' => .inr ⟨hviewport, sub, hsub, l.target sub,
        hgood.sized_target sub, ?_, fun _ => rfl⟩⟩
      obtain rfl := Option.some.inj hsub'
      have hafter : (sub.publish f).2.pending = none := hpending
      have hbefore : l.target sub = l.shown sub.id := by rw [target, hpending]; rfl
      rw [target, hafter, hbefore]
      exact hpublished.2

/-- An attachment hands its snapshot to a renderer of its own. -/
theorem Good.attach (hgood : l.Good) (htransit : l.transit = pre ++ post)
    (hattach : l.publisher.attach l.nextId f = .ok (publication, p)) :
    let l' : Line :=
      { l with publisher := p, transit := pre ++ [publication] ++ post, nextId := l.nextId + 1 }
    l'.Good ∧ ∀ sub, p.subscription = some sub →
      l'.target sub = (l.screens l.nextId).apply f := by
  obtain ⟨-, -, rfl, rfl⟩ := FramePublisher.attach_ok hattach
  have hnone : (pre ++ post).filter (·.subscriptionId = l.nextId) = [] := by
    rw [← htransit, List.filter_eq_nil_iff]
    intro p hp hid
    exact Nat.lt_irrefl _ (of_decide_eq_true hid ▸ hgood.transit_lt p hp)
  have hfilter : (pre ++ [(⟨l.nextId, 1, f⟩ : Publication)] ++ post).filter
      (·.subscriptionId = l.nextId) = [⟨l.nextId, 1, f⟩] :=
    filter_insert ⟨l.nextId, 1, f⟩ hnone
  have hunapplied (n : ℕ) : (l.nextId, n) ∉ l.applied :=
    fun hn => Nat.lt_irrefl _ (hgood.applied_lt _ hn)
  refine ⟨⟨fun sub hsub => ?_, fun p hp => ?_, fun x hx => ?_, hgood.sized⟩, fun sub hsub => ?_⟩
  · obtain rfl := Option.some.inj hsub
    refine ⟨fun p hp hid => ?_, Nat.le_of_eq (congrArg List.length hfilter),
      fun n hn => absurd hn (hunapplied n),
      fun n hn => Option.some.inj hn ▸ Nat.lt_succ_self 1, fun _ => rfl, Nat.lt_succ_self _⟩
    obtain rfl := List.mem_singleton.mp (mem_of_filter hfilter hp hid)
    exact ⟨rfl, hunapplied 1⟩
  · rcases List.mem_append.mp hp with hp | hp
    · rcases List.mem_append.mp hp with hp | hp
      · exact Nat.lt_succ_of_lt (hgood.transit_lt p (htransit ▸ List.mem_append_left post hp))
      · rw [List.mem_singleton.mp hp]
        exact Nat.lt_succ_self l.nextId
    · exact Nat.lt_succ_of_lt (hgood.transit_lt p (htransit ▸ List.mem_append_right pre hp))
  · exact Nat.lt_succ_of_lt (hgood.applied_lt x hx)
  · obtain rfl := Option.some.inj hsub
    rw [target, shown]
    dsimp only
    rw [hfilter]
    rfl

/-- To release credit or readiness publishes what is pending, which the renderer was to hold
already. -/
theorem Good.flush (sub sub₀ : Subscription) (hgood : l.Good) (htransit : l.transit = pre ++ post)
    (hid : sub₀.id = sub.id) (hnext : sub₀.nextSequence = sub.nextSequence)
    (hpending : sub₀.pending = sub.pending) (hcredited : l.Credited sub)
    (hkept : sub₀.inFlight = sub.inFlight ∨
      sub₀.inFlight = none ∧ l.transit.filter (·.subscriptionId = sub.id) = []) :
    let l' : Line := { l with
      publisher := { l.publisher with subscription := some sub₀.flush.2 }
      transit := pre ++ sub₀.flush.1.toList ++ post }
    l'.Good ∧ l'.target sub₀.flush.2 = l.target sub := by
  have hnone (hflight : sub₀.inFlight = none) :
      l.transit.filter (·.subscriptionId = sub₀.id) = [] := by
    rw [hid]
    rcases hkept with hkept | ⟨-, hkept⟩
    · exact hcredited.filter_of_free (hkept ▸ hflight)
    · exact hkept
  rcases sub₀.flush_cases with ⟨hflush, hwhy⟩ | ⟨f, hfree, hf, hflush⟩
  · rw [hflush]
    have hsame : pre ++ (none : Option Publication).toList ++ post = l.transit := by
      rw [Option.toList_none, List.append_nil, ← htransit]
    refine ⟨⟨fun sub' hsub' => ?_, hsame ▸ hgood.transit_lt, hgood.applied_lt, hgood.sized⟩, ?_⟩
    · obtain rfl := Option.some.inj hsub'
      refine ⟨fun p hp hpid => ?_, ?_, fun n hn => ?_, fun n hn => ?_, fun hnot => ?_,
        hid ▸ hcredited.id_lt⟩
      · rw [hsame] at hp
        rcases hkept with hkept | ⟨-, hkept⟩
        · rw [hkept, hid]
          exact hcredited.inFlight p hp (hpid.trans hid)
        · exact absurd (mem_of_filter hkept hp (hpid.trans hid)) List.not_mem_nil
      · rw [hsame, hid]
        exact hcredited.one
      · exact hnext ▸ hcredited.applied_lt n (hid ▸ hn)
      · rcases hkept with hkept | ⟨hkept, -⟩
        · exact hnext ▸ hcredited.inFlight_lt n (hkept ▸ hn)
        · rw [hkept] at hn
          cases hn
      · exact hwhy.resolve_left fun hheld => absurd (hheld.symm.trans hnot) (by decide)
    · rw [target, target, shown, shown, hpending, hid, hsame]
  · have hpublished := good_published f hgood htransit
      (hnone (Subscription.held_eq_false_iff.mp hfree).1)
      (fun n hn => hnext ▸ hcredited.applied_lt n (hid ▸ hn)) (hid ▸ hcredited.id_lt)
    rw [hflush]
    refine ⟨hpublished.1, Eq.trans hpublished.2 ?_⟩
    rw [target, ← hpending, hf, hid]
    rfl

/-- What an operation leaves: the attached subscription has the renderer hold the same. -/
def Kept (l l' : Line) : Prop :=
  ∀ sub', l'.publisher.subscription = some sub' →
    ∃ sub, l.publisher.subscription = some sub ∧ l'.target sub' = l.target sub

theorem Kept.of_eq (h : l.publisher = l'.publisher) (ht : ∀ sub, l'.target sub = l.target sub) :
    Kept l l' :=
  fun sub' hsub' => ⟨sub', h ▸ hsub', ht sub'⟩

/-- An acknowledgement of a publication that the renderer has applied. -/
theorem Good.acknowledge {sequence : ℕ} (hgood : l.Good) (htransit : l.transit = pre ++ post)
    (happlied : (id, sequence) ∈ l.applied) :
    let l' : Line := { l with
      publisher := (l.publisher.acknowledge id sequence).2
      transit := pre ++ (l.publisher.acknowledge id sequence).1.toList ++ post }
    l'.Good ∧ Kept l l' := by
  rcases l.publisher.acknowledge_cases id sequence with hack | ⟨sub, hsub, hid, hflight, hack⟩
  · rw [hack, Option.toList_none, List.append_nil, ← htransit]
    exact ⟨hgood, .of_eq rfl fun _ => rfl⟩
  · have hcredited := hgood.credited sub hsub
    have hnone : l.transit.filter (·.subscriptionId = sub.id) = [] := by
      rw [List.filter_eq_nil_iff]
      intro p hp hpid
      obtain ⟨hseq, hun⟩ := hcredited.inFlight p hp (of_decide_eq_true hpid)
      rw [← Option.some.inj (hflight.symm.trans hseq), hid] at hun
      exact hun happlied
    rw [hack]
    obtain ⟨hgood', htarget⟩ := hgood.flush sub { sub with inFlight := none } htransit rfl rfl
      rfl hcredited (.inr ⟨rfl, hnone⟩)
    exact ⟨hgood', fun sub' hsub' => ⟨sub, hsub, Option.some.inj hsub' ▸ htarget⟩⟩

theorem Good.viewportReady {viewport : Viewport} (hgood : l.Good)
    (htransit : l.transit = pre ++ post) :
    let l' : Line := { l with
      publisher := (l.publisher.viewportReady id viewport).2
      transit := pre ++ (l.publisher.viewportReady id viewport).1.toList ++ post }
    l'.Good ∧ Kept l l' := by
  rcases l.publisher.viewportReady_cases id viewport with hready | ⟨sub, hsub, -, -, hready⟩
  · rw [hready, Option.toList_none, List.append_nil, ← htransit]
    exact ⟨hgood, .of_eq rfl fun _ => rfl⟩
  · rw [hready]
    obtain ⟨hgood', htarget⟩ := hgood.flush sub { sub with viewportReady := true } htransit rfl
      rfl rfl (hgood.credited sub hsub) (.inl rfl)
    exact ⟨hgood', fun sub' hsub' => ⟨sub, hsub, Option.some.inj hsub' ▸ htarget⟩⟩

/-- To apply a new viewport closes the gate and drops what is pending. -/
theorem Good.resizeApplied {viewport : Viewport} (hgood : l.Good) :
    ({ l with publisher := l.publisher.resizeApplied viewport } : Line).Good := by
  refine ⟨fun sub' hsub' => ?_, hgood.transit_lt, hgood.applied_lt, hgood.sized⟩
  simp only [FramePublisher.resizeApplied] at hsub'
  split_ifs at hsub' with hsame
  · have hcredited := hgood.credited sub' hsub'
    exact ⟨hcredited.inFlight, hcredited.one, hcredited.applied_lt, hcredited.inFlight_lt,
      hcredited.flushed, hcredited.id_lt⟩
  · obtain ⟨sub, hsub, rfl⟩ := Option.map_eq_some_iff.mp hsub'
    have hcredited := hgood.credited sub hsub
    exact ⟨hcredited.inFlight, hcredited.one, hcredited.applied_lt, hcredited.inFlight_lt,
      fun _ => rfl, hcredited.id_lt⟩

/-- The order of what is under way does not matter, there being one publication a subscription. -/
theorem Good.reorder {transit : List Publication} (hgood : l.Good)
    (hperm : transit.Perm l.transit) :
    ({ l with transit := transit } : Line).Good ∧ Kept l { l with transit := transit } := by
  refine ⟨⟨fun sub hsub => ?_, fun p hp => hgood.transit_lt p (hperm.mem_iff.mp hp),
    hgood.applied_lt, hgood.sized⟩, fun sub hsub => ⟨sub, hsub, ?_⟩⟩
  · have hcredited := hgood.credited sub hsub
    exact ⟨fun p hp => hcredited.inFlight p (hperm.mem_iff.mp hp),
      (hperm.filter _).length_eq ▸ hcredited.one, hcredited.applied_lt, hcredited.inFlight_lt,
      hcredited.flushed, hcredited.id_lt⟩
  · have hone := (hgood.credited sub hsub).one
    have hfilter : transit.filter (·.subscriptionId = sub.id) =
        l.transit.filter (·.subscriptionId = sub.id) := by
      have hsame := hperm.filter (fun p : Publication => decide (p.subscriptionId = sub.id))
      rcases Nat.le_one_iff_eq_zero_or_eq_one.mp hone with hnone | hone
      · rw [List.length_eq_zero_iff.mp hnone] at hsame ⊢
        exact hsame.eq_nil
      · obtain ⟨p, hp⟩ := List.length_eq_one_iff.mp hone
        rw [hp] at hsame ⊢
        exact List.perm_singleton.mp hsame
    rw [target, target, shown, shown]
    exact congrArg (fun ps => sub.pending.toList.foldl Screen.apply
      (List.foldl (fun s p => s.apply p.frame) (l.screens sub.id) ps)) hfilter

/-- A renderer that applies the next publication is to hold what it was to hold. -/
theorem Good.deliver {rest : List Publication} (hgood : l.Good)
    (htransit : l.transit = publication :: rest) :
    let l' : Line := { l with
      transit := rest
      screens := Function.update l.screens publication.subscriptionId
        ((l.screens publication.subscriptionId).apply publication.frame)
      applied := (publication.subscriptionId, publication.sequence) :: l.applied }
    l'.Good ∧ Kept l l' := by
  have hmem : publication ∈ l.transit := htransit ▸ List.mem_cons_self
  have hrest {p : Publication} (hp : p ∈ rest) : p ∈ l.transit :=
    htransit ▸ List.mem_cons_of_mem publication hp
  have hfilter (sub : Subscription) : l.transit.filter (·.subscriptionId = sub.id) =
      if publication.subscriptionId = sub.id then
        publication :: rest.filter (·.subscriptionId = sub.id)
      else rest.filter (·.subscriptionId = sub.id) := by
    rw [htransit, List.filter_cons]
    simp only [decide_eq_true_eq]
  refine ⟨⟨fun sub hsub => ?_, fun p hp => hgood.transit_lt p (hrest hp), fun x hx => ?_,
    fun id => ?_⟩, fun sub hsub => ⟨sub, hsub, ?_⟩⟩
  · have hcredited := hgood.credited sub hsub
    have hone := hcredited.one
    rw [hfilter] at hone
    refine ⟨fun p hp hpid => ?_, ?_, fun n hn => ?_, hcredited.inFlight_lt, hcredited.flushed,
      hcredited.id_lt⟩
    · obtain ⟨hseq, hun⟩ := hcredited.inFlight p (hrest hp) hpid
      refine ⟨hseq, fun hin => ?_⟩
      rcases List.mem_cons.mp hin with heq | hin
      · rw [if_pos (congrArg Prod.fst heq).symm, List.length_cons] at hone
        have hpos : 0 < (rest.filter (·.subscriptionId = sub.id)).length :=
          List.length_pos_of_mem (List.mem_filter.mpr ⟨hp, decide_eq_true hpid⟩)
        omega
      · exact hun hin
    · split_ifs at hone
      · exact Nat.le_of_succ_le hone
      · exact hone
    · rcases List.mem_cons.mp hn with heq | hn
      · obtain ⟨hseq, -⟩ := hcredited.inFlight publication hmem (congrArg Prod.fst heq).symm
        have hn : n = publication.sequence := congrArg Prod.snd heq
        exact hn ▸ hcredited.inFlight_lt _ hseq
      · exact hcredited.applied_lt n hn
  · rcases List.mem_cons.mp hx with rfl | hx
    · exact hgood.transit_lt publication hmem
    · exact hgood.applied_lt x hx
  · by_cases hid : id = publication.subscriptionId
    · subst hid
      dsimp only
      rw [Function.update_self]
      exact (hgood.sized _).apply _
    · dsimp only
      rw [Function.update_of_ne hid]
      exact hgood.sized id
  · have hshown : (rest.filter (·.subscriptionId = sub.id)).foldl (fun s p => s.apply p.frame)
        (Function.update l.screens publication.subscriptionId
          ((l.screens publication.subscriptionId).apply publication.frame) sub.id) =
        l.shown sub.id := by
      rw [shown, hfilter]
      split_ifs with hid
      · rw [← hid, Function.update_self, List.foldl_cons]
      · rw [Function.update_of_ne (Ne.symm hid)]
    rw [target, target]
    exact congrArg (sub.pending.toList.foldl Screen.apply) hshown

end Line

end Buzz.Desktop.Terminal
