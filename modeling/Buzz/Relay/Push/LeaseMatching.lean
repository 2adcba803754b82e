import Mathlib.Data.List.MinMax
import Mathlib.Data.List.ReduceOption
import Buzz.Relay.Push.LeasePlaintext
import Buzz.Relay.Push.Matcher

/-!
# Matching an event against the leases

`match_job` of `crates/buzz-relay/src/push_runtime.rs`: for each lease it asks whether the author
may read the event, reads the stored subscriptions again, and wakes the author in the highest class
of those that match.

The filter type of the `nostr` crate has a reader of its own, which is a parameter here. The clock
is read once for a job.

## Main definitions

* `matchJob`: the wakes of an event, with the matching that `Matcher.matchJob` leaves open.
* `Subscription.wakes`: a subscription matches, is not ignored and not suppressed.

## Main results

* `ofJson_toJson`: what is stored is read again.
* `leaseClass_eq_ok`: when a lease is to be woken, and in which class.
* `matchJob_eq_matcher`: the matching is an instance of the abstract one.
* `accepted_lease_confined`: the privacy of leases.
-/

namespace Buzz.Relay.Push.PushLease

open Buzz.Library
open Buzz.Core (Filter PublicKey SingleLetterTag StoredEvent Tag Uuid filtersMatch)
open Buzz.Db.Push (BatchedMatch MatchLease WakeRequest)

/-! ### Who may read -/

def kindGiftWrap : ℕ := 1059

def kindDmVisibility : ℕ := 30622

def kindAgentTurnMetric : ℕ := 44200

/-- The letter of `p` tags. -/
def letterP : SingleLetterTag := ⟨⟨15, by decide⟩, false⟩

/-- Some `p` tag has this value. -/
def hasPTag (event : Core.Event) (value : String) : Bool :=
  (event.tags.filter fun t => t.kind == "p").any fun t => t.content == some value

/-- `reader_authorized_for_event`: events of these kinds are for those they name. -/
def readerAuthorizedForEvent (event : Core.Event) (readerPubkeyHex : String) : Bool :=
  if event.kind.toNat ≠ kindDmVisibility ∧ event.kind.toNat ≠ kindAgentTurnMetric then true
  else hasPTag event readerPubkeyHex

/-- A lease may match gift wraps to its own author only, and by them only. -/
def pushFilterAuthorizedForEvent (filter : Filter) (event : Core.Event) (leaseAuthorHex : String) :
    Bool :=
  if event.kind.toNat ≠ kindGiftWrap then true
  else (filter.genericTags.lookup letterP).any fun values =>
    !values.isEmpty && values.all (fun value => value == leaseAuthorHex) &&
      hasPTag event leaseAuthorHex

/-! ### Subscriptions -/

inductive MatchError
  /-- The stored subscriptions are not read. -/
  | subscriptions
  /-- The filter of a subscription is not read. -/
  | filter
  deriving DecidableEq

def classRank (class' : List Char) : ℕ :=
  if class' = "silent".toList then 0
  else if class' = "default".toList then 1
  else if class' = "time_sensitive".toList then 2
  else if class' = "urgent".toList then 3
  else 0

variable (parseFilter : Members → Option Filter)

namespace Subscription

/-- The filter matches, and may match. -/
def matches' (authorHex : String) (event : StoredEvent) (s : Subscription) : Bool :=
  (parseFilter s.filter).any fun filter =>
    pushFilterAuthorizedForEvent filter event.event authorHex && filtersMatch [filter] event

/-- One of the filters to be ignored is read and matches. -/
def ignored (event : StoredEvent) (s : Subscription) : Bool :=
  s.ignore.any fun raw => (parseFilter raw).any fun filter => filtersMatch [filter] event

/-- The event has more `p` tags than the subscription takes. -/
def suppressed (event : StoredEvent) (s : Subscription) : Bool :=
  s.suppress.any fun m =>
    decide (m.pTagsMax.toNat < (event.event.tags.filter fun t => t.kind == "p").length)

def wakes (authorHex : String) (event : StoredEvent) (s : Subscription) : Bool :=
  s.matches' parseFilter authorHex event && !s.ignored parseFilter event && !s.suppressed event

end Subscription

/-- The class so far, or that of a further subscription if it is higher. -/
def higherClass (old : Option (List Char)) (class' : List Char) : Option (List Char) :=
  if old.all fun c => decide (classRank c < classRank class') then some class' else old

/-- One round of the loop over the subscriptions of a lease. -/
def matchSubscription (authorHex : String) (event : StoredEvent) (old : Option (List Char))
    (sub : Subscription) : Except MatchError (Option (List Char)) := do
  let filter ← okOrError .filter (parseFilter sub.filter)
  if !pushFilterAuthorizedForEvent filter event.event authorHex || !filtersMatch [filter] event then
    return old
  else if sub.ignored parseFilter event || sub.suppressed event then return old
  else return higherClass old sub.class'

/-! ### `match_job` -/

/-- What a batch shares: the leases and the memberships of their authors. -/
structure MatchContext where
  leases : List MatchLease
  memberships : List (Uuid × PublicKey)

def authorHex (lease : MatchLease) : String := String.ofList (hexDigits 64 lease.author.toNat)

/-- The class in which a lease is to be woken. -/
def leaseClass (memberships : List (Uuid × PublicKey)) (event : StoredEvent) (lease : MatchLease) :
    Except MatchError (Option (List Char)) := do
  if !readerAuthorizedForEvent event.event (authorHex lease) then return none
  else if event.channelId.any fun channel => !memberships.contains (channel, lease.author) then
    return none
  else
    let subscriptions ← okOrError .subscriptions
      (readList Subscription.ofJson lease.subscriptions)
    subscriptions.foldlM (matchSubscription parseFilter (authorHex lease) event) none

/-- The end of the time in which the wake is worth something. -/
def expiresAt (event : StoredEvent) (lease : MatchLease) : ℤ :=
  min lease.expiresAt ((event.event.createdAt : ℤ).bmod (2 ^ 64) + Matcher.eventUsefulSecs)

def leaseWake (now : ℤ) (memberships : List (Uuid × PublicKey)) (event : StoredEvent)
    (lease : MatchLease) : Except MatchError (Option WakeRequest) := do
  match ← leaseClass parseFilter memberships event lease with
  | none => return none
  | some class' =>
    if expiresAt event lease ≤ now then return none
    else return some ⟨lease.author, lease.installationId, lease.generation, event.event.id, class',
      expiresAt event lease⟩

def matchJob (now : ℤ) (context : MatchContext) (event : StoredEvent) :
    Except MatchError (List WakeRequest) := do
  return (← context.leases.mapM (leaseWake parseFilter now context.memberships event)).reduceOption

/-! ### What is stored -/

/-- The value that is stored for the subscriptions of a lease. -/
def storedSubscriptions (subs : List Subscription) : Json := .arr (subs.map Subscription.toJson)

theorem ofJson_toJson_suppress (m : Suppress) : Suppress.ofJson m.toJson = some m := by
  change ((Json.int m.pTagsMax.toNat).asU64.bind fun n => some (Suppress.mk n)) = some m
  rw [Json.asU64_eq_some_iff.mpr rfl]
  rfl

theorem readOptional_suppress (suppress : Option Suppress) :
    readOptional Suppress.ofJson (some (writeOptional Suppress.toJson suppress)) =
      some suppress := by
  cases suppress with
  | none => rfl
  | some m => exact congrArg (Option.map some) (ofJson_toJson_suppress m)

/-- A subscription is read again from what is stored. -/
theorem ofJson_toJson (s : Subscription) : Subscription.ofJson s.toJson = some s := by
  change Subscription.ofFields (.obj s.filter) (.str s.class') (some (.arr (s.ignore.map .obj)))
    (some _) = some s
  have hignore : readDefault [] (readList Json.asObject) (some (.arr (s.ignore.map .obj))) =
      some s.ignore :=
    mapM_map_of_inverse (f := Json.asObject) (g := Json.obj) (fun _ => rfl) s.ignore
  rw [Subscription.ofFields, hignore, readOptional_suppress]
  rfl

theorem readList_storedSubscriptions (subs : List Subscription) :
    readList Subscription.ofJson (storedSubscriptions subs) = some subs :=
  mapM_map_of_inverse ofJson_toJson subs

/-! ### When a lease is to be woken -/

variable {parseFilter} {memberships : List (Uuid × PublicKey)} {event : StoredEvent}
  {lease : MatchLease} {author : String} {subs : List Subscription}

theorem matchSubscription_eq_ok {old new : Option (List Char)} {s : Subscription}
    (h : matchSubscription parseFilter author event old s = .ok new) :
    new = if s.wakes parseFilter author event = true then higherClass old s.class' else old := by
  rw [matchSubscription] at h
  obtain ⟨filter, hfilter, h⟩ := bind_eq_ok.mp h
  rw [Subscription.wakes, Subscription.matches', okOrError_eq_ok.mp hfilter, Option.any_some]
  split_ifs at h with hmatch hkept
  · obtain rfl := Except.ok.inj h
    rw [Bool.or_eq_true, Bool.not_eq_true', Bool.not_eq_true'] at hmatch
    rw [if_neg]
    rcases hmatch with hmatch | hmatch <;> simp [hmatch]
  · obtain rfl := Except.ok.inj h
    rw [Bool.or_eq_true] at hkept
    rw [if_neg]
    rcases hkept with hkept | hkept <;> simp [hkept]
  · obtain rfl := Except.ok.inj h
    simp only [Bool.or_eq_true, Bool.not_eq_true', not_or, Bool.not_eq_false,
      Bool.not_eq_true] at hmatch hkept
    rw [if_pos (by simp [hmatch, hkept])]

/-- The loop over the subscriptions takes the highest class of those that wake. -/
theorem foldlM_matchSubscription {old new : Option (List Char)}
    (h : subs.foldlM (matchSubscription parseFilter author event) old = .ok new) :
    new = ((subs.filter (·.wakes parseFilter author event)).map Subscription.class').foldl
      higherClass old := by
  induction subs generalizing old with
  | nil => exact (Except.ok.inj h).symm
  | cons s subs ih =>
    rw [List.foldlM_cons] at h
    obtain ⟨next, hnext, hrest⟩ := bind_eq_ok.mp h
    rw [ih hrest, matchSubscription_eq_ok hnext, List.filter_cons]
    split_ifs <;> rfl

theorem higherClass_eq_argAux :
    higherClass = List.argAux fun b c => classRank c < classRank b := by
  funext old class'
  cases old with
  | none => rfl
  | some c => simp [higherClass, List.argAux]

/-- **A lease that is to be woken.** Its author may read the event and is a member of its channel,
and the class is the highest of the subscriptions that wake. -/
theorem leaseClass_eq_ok (hsubs : lease.subscriptions = storedSubscriptions subs) {c : List Char}
    (h : leaseClass parseFilter memberships event lease = .ok (some c)) :
    readerAuthorizedForEvent event.event (authorHex lease) = true ∧
      (∀ channel, event.channelId = some channel → (channel, lease.author) ∈ memberships) ∧
      c ∈ ((subs.filter (·.wakes parseFilter (authorHex lease) event)).map
        Subscription.class').argmax classRank := by
  rw [leaseClass] at h
  split_ifs at h with hreader hmember
  · cases h
  · cases h
  obtain ⟨read, hread, h⟩ := bind_eq_ok.mp h
  rw [hsubs, readList_storedSubscriptions] at hread
  obtain rfl := Option.some_inj.mp (okOrError_eq_ok.mp hread)
  refine ⟨by simpa using hreader, fun channel hchannel => ?_, ?_⟩
  · rw [hchannel] at hmember
    simpa using hmember
  · rw [List.argmax, ← higherClass_eq_argAux]
    exact (foldlM_matchSubscription h).symm

theorem hasPTag_iff {event : Core.Event} {value : String} :
    hasPTag event value = true ↔ ∃ t ∈ event.tags, t.kind = "p" ∧ t.content = some value := by
  simp only [hasPTag, List.any_eq_true, List.mem_filter, beq_iff_eq, and_assoc]

/-- A subscription that a gift wrap wakes is of one of those that the gift wrap names. -/
theorem hasPTag_of_wakes {s : Subscription} (h : s.wakes parseFilter author event = true)
    (hkind : event.event.kind.toNat = kindGiftWrap) : hasPTag event.event author = true := by
  rw [Subscription.wakes, Bool.and_eq_true, Bool.and_eq_true, Subscription.matches',
    Option.any_eq_true] at h
  obtain ⟨⟨⟨filter, -, hmatch⟩, -⟩, -⟩ := h
  have hallowed := (Bool.and_eq_true _ _ ▸ hmatch).1
  rw [pushFilterAuthorizedForEvent, if_neg (not_not.mpr hkind), Option.any_eq_true] at hallowed
  obtain ⟨values, -, hvalues⟩ := hallowed
  exact (Bool.and_eq_true _ _ ▸ hvalues).2

variable {now : ℤ}

theorem leaseWake_eq_ok {w : WakeRequest}
    (h : leaseWake parseFilter now memberships event lease = .ok (some w)) :
    leaseClass parseFilter memberships event lease = .ok (some w.class') ∧
      w.author = lease.author := by
  obtain ⟨found, hfound, h⟩ := bind_eq_ok.mp h
  cases found with
  | none => cases h
  | some c =>
    dsimp only at h
    split_ifs at h
    · cases h
    · obtain rfl := Option.some_inj.mp (Except.ok.inj h)
      exact ⟨hfound, rfl⟩

/-- A wake is one of a lease. -/
theorem exists_of_mem_matchJob {context : MatchContext} {wakes : List WakeRequest}
    (h : matchJob parseFilter now context event = .ok wakes) {w : WakeRequest} (hw : w ∈ wakes) :
    ∃ lease ∈ context.leases,
      leaseWake parseFilter now context.memberships event lease = .ok (some w) := by
  obtain ⟨found, hfound, hwakes⟩ := bind_eq_ok.mp h
  obtain rfl := Except.ok.inj hwakes
  exact exists_of_mem_mapM hfound (List.reduceOption_mem_iff.mp hw)

/-- A job that is matched without an error has the wakes of the abstract matching. -/
theorem matchJob_eq_matcher {context : MatchContext} {wakes : List WakeRequest}
    (h : matchJob parseFilter now context event = .ok wakes) {job : BatchedMatch}
    (hid : job.eventId = event.event.id)
    (hcreated : job.createdAt = (event.event.createdAt : ℤ).bmod (2 ^ 64) * 1000000) :
    Matcher.matchJob
      (fun _ lease => (leaseClass parseFilter context.memberships event lease).toOption.join)
      (now * 1000000) context.leases job = wakes := by
  obtain ⟨found, hfound, hwakes⟩ := bind_eq_ok.mp h
  obtain rfl := Except.ok.inj hwakes
  have hall := mapM_eq_ok hfound
  have hnow : now * 1000000 / 1000000 = now := by omega
  have hseconds : job.createdAt / 1000000 = (event.event.createdAt : ℤ).bmod (2 ^ 64) := by
    rw [hcreated]
    exact Int.mul_ediv_cancel _ (by norm_num)
  have hexpires (lease : MatchLease) : Matcher.wakeExpiresAt job lease = expiresAt event lease :=
    congrArg (fun created => min lease.expiresAt (created + Matcher.eventUsefulSecs)) hseconds
  rw [Matcher.matchJob, List.reduceOption]
  generalize context.leases = leases at hall
  clear hfound h hwakes
  induction hall with
  | nil => rfl
  | @cons lease o leases found hwake _ ih =>
    rw [List.filterMap_cons, List.filterMap_cons, ih, hnow, hexpires, hid]
    obtain ⟨c, hc, ho⟩ := bind_eq_ok.mp hwake
    rw [hc]
    cases c with
    | none =>
      obtain rfl := Except.ok.inj ho
      rfl
    | some c =>
      dsimp only at ho
      dsimp only [Except.toOption, Option.join_some]
      split_ifs at ho with hlate
      · obtain rfl := Except.ok.inj ho
        rw [if_pos hlate]
        rfl
      · obtain rfl := Except.ok.inj ho
        rw [if_neg hlate]
        rfl

/-- **Leases are confined to their author.** In a text that is accepted no object repeats a name,
and its members are those of an active lease or of an inactive one. The filters of an active lease
are confined. An event that is matched against the lease alone wakes its author only if the author
may see it, and in the highest class of the subscriptions that wake. -/
theorem accepted_lease_confined (parseFilter : Members → Option Filter) {input : List Char}
    {maxPlaintextLen : ℕ} {limits : LeaseLimits} {body : LeasePlaintext}
    (hparse : parsePlaintext input maxPlaintextLen = .ok body)
    (hvalid : validatePlaintext body limits = .ok ()) :
    (∃ ms, Json.parse input = some (.obj ms) ∧
      (∀ inner, Json.Within (.obj inner) (.obj ms) → (inner.map Prod.fst).Nodup) ∧
      (∀ name, name ∈ ms.map Prod.fst ↔
        name ∈ (requiredMembers body.active).map String.toList) ∧
      LeasePlaintext.ofMembers ms = some body ∧
      ∀ subs, body.subscriptions = some subs → ∀ s ∈ subs,
        Json.Within (.obj s.filter) (.obj ms)) ∧
    (body.active = true → ∃ subs, body.subscriptions = some subs ∧ subs ≠ [] ∧
      subs.length ≤ limits.maxSubscriptions ∧ (∀ s ∈ subs, s.Accepted limits) ∧
      ∀ (lease : MatchLease) (memberships : List (Uuid × PublicKey)) (event : StoredEvent) (now : ℤ)
        (wakes : List WakeRequest), lease.subscriptions = storedSubscriptions subs →
        matchJob parseFilter now ⟨[lease], memberships⟩ event = .ok wakes → ∀ w ∈ wakes,
        w.author = lease.author ∧
        (event.event.kind.toNat = kindGiftWrap → ∃ t ∈ event.event.tags,
          t.kind = "p" ∧ t.content = some (authorHex lease)) ∧
        (∀ channel, event.channelId = some channel → (channel, lease.author) ∈ memberships) ∧
        (∃ s ∈ subs, s.wakes parseFilter (authorHex lease) event = true ∧ s.class' = w.class') ∧
        ∀ s ∈ subs, s.wakes parseFilter (authorHex lease) event = true →
          classRank s.class' ≤ classRank w.class') := by
  obtain ⟨ms, hms, hdistinct, hnames, hread⟩ := parsePlaintext_eq_ok hparse
  refine ⟨⟨ms, hms, hdistinct, hnames, hread, fun subs hsubs => filters_within hread hsubs⟩,
    fun hactive => ?_⟩
  obtain ⟨subs, hsubs, hne, hcount, haccepted⟩ := validatePlaintext_eq_ok hvalid hactive
  refine ⟨subs, hsubs, hne, hcount, haccepted,
    fun lease memberships event now wakes hstored hjob w hw => ?_⟩
  obtain ⟨lease', hlease', hwake⟩ := exists_of_mem_matchJob hjob hw
  obtain rfl := List.mem_singleton.mp hlease'
  obtain ⟨hclass, hauthor⟩ := leaseWake_eq_ok hwake
  obtain ⟨-, hmember, hhighest⟩ := leaseClass_eq_ok hstored hclass
  obtain ⟨s, hs, hsclass⟩ := List.mem_map.mp (List.argmax_mem hhighest)
  obtain ⟨hs, hswakes⟩ := List.mem_filter.mp hs
  refine ⟨hauthor, fun hkind => hasPTag_iff.mp (hasPTag_of_wakes hswakes hkind), hmember,
    ⟨s, hs, hswakes, hsclass⟩, fun s' hs' hwakes' => ?_⟩
  exact List.le_of_mem_argmax
    (List.mem_map_of_mem (List.mem_filter.mpr ⟨hs', hwakes'⟩)) hhighest

/-! ### A phone -/

/-- The first of all keys. -/
def phoneAuthor : List Char := hexDigits 64 0

/-- Gift wraps to the author. -/
def phoneSubscription : Subscription :=
  ⟨[("kinds".toList, .arr [.int 1059]), ("#p".toList, .arr [.str phoneAuthor])],
    "default".toList, [], none⟩

def phoneBody : LeasePlaintext :=
  ⟨1, "o".toList, 1, true, some "p".toList, some "t".toList, some "e".toList,
    some [phoneSubscription]⟩

def phoneText : List Char :=
  (Json.obj [("v".toList, .int 1), ("origin".toList, .str "o".toList),
    ("generation".toList, .int 1), ("active".toList, .bool true),
    ("app_profile".toList, .str "p".toList), ("transport".toList, .str "t".toList),
    ("endpoint".toList, .str "e".toList), ("subscriptions".toList, .arr
      [.obj [("filter".toList, .obj phoneSubscription.filter),
        ("class".toList, .str "default".toList)]])]).render

def phoneLimits : LeaseLimits where
  expectedOrigin := "o".toList
  authorHex := phoneAuthor
  appProfiles := [⟨"p".toList, "t".toList⟩]
  supportedClasses := ["default".toList]
  pushKinds := [1059]
  urgentKinds := []
  maxSubscriptions := 1
  maxKinds := 1
  maxAuthors := 1
  maxH := 1
  maxTagValues := 1
  maxIgnore := 1
  maxEndpointLen := 1
  maxStringLen := 1

def phoneLease : MatchLease := ⟨0, "phone".toList, 1, storedSubscriptions [phoneSubscription], 10⟩

/-- A reader of filters that have kinds and `#p` tags. -/
def readFilter (ms : Members) : Option Filter := do
  let kinds ← (member "kinds" ms).bind (readList Json.asU64)
  let values ← (member "#p" ms).bind (readList Json.asStr)
  return ⟨none, none, some (kinds.map fun k => BitVec.ofNat 16 k.toNat), none, none,
    (∅ : HashMap SingleLetterTag (List String)).insert letterP (values.map String.ofList)⟩

def giftWrap : StoredEvent := ⟨⟨7, 3, 0, 1059, [⟨"p", [String.ofList phoneAuthor]⟩]⟩, none⟩

theorem parsePlaintext_phoneText :
    parsePlaintext phoneText (utf8 phoneText).length = .ok phoneBody := by
  rw [parsePlaintext, ensure, if_pos le_rfl, phoneText, Json.parse_render]
  · rfl
  · simp [phoneSubscription, Json.Integral, Json.IntegralMembers, Json.IntegralElems]

/-- The gift wrap wakes the phone that it names. -/
theorem accepted_lease_confined_phone :
    ∃ wakes, matchJob readFilter 0 ⟨[phoneLease], []⟩ giftWrap = .ok wakes ∧ wakes.length = 1 ∧
      ∀ w ∈ wakes, w.author = phoneLease.author ∧ ∃ t ∈ giftWrap.event.tags,
        t.kind = "p" ∧ t.content = some (authorHex phoneLease) := by
  have hwoken : (matchJob readFilter 0 ⟨[phoneLease], []⟩ giftWrap).toOption.map List.length =
      some 1 := by decide +kernel
  obtain ⟨wakes, hwakes, hlength⟩ := Option.map_eq_some_iff.mp hwoken
  have hjob := ok_of_toOption hwakes
  have hvalid : validatePlaintext phoneBody phoneLimits = .ok () :=
    ok_of_toOption (by decide +kernel)
  obtain ⟨subs, hsubs, -, -, -, hconfined⟩ :=
    (accepted_lease_confined readFilter parsePlaintext_phoneText hvalid).2 rfl
  obtain rfl := Option.some_inj.mp hsubs
  refine ⟨wakes, hjob, hlength, fun w hw => ?_⟩
  obtain ⟨hauthor, hnamed, -⟩ := hconfined phoneLease [] giftWrap 0 wakes rfl hjob w hw
  exact ⟨hauthor, hnamed rfl⟩

end Buzz.Relay.Push.PushLease
