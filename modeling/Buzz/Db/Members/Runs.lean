import Buzz.Db.Members.Operations

/-!
# Runs of the membership store

Any number of relays, workflows and tools run operations of the store, one transaction after the
other. Statements of their transactions interleave in any order, and any of them may stop or lose
its transaction at any time.

## Main definitions

* `RunOp`: the operations of a run, as they are called; where it is strict, none bootstraps an
  owner.

## Main results

* `owned_communities_stay`: a community that is owned stays so.
* `sole_owner_passes_on`: who owns a community alone is followed but by whom he has transferred it
  to, and no second one.
* `founded_communities_have_one_owner`: a community that is created has one owner from then on.
* `owners_stay_within_limit`: nobody comes to own more communities than the limit.
* `roles_change_by_operation`: a role changes as its operation may change it.
-/

namespace Buzz.Db.Members

open Buzz.Core (Uuid)
open Buzz.Library Buzz.Library.Transactions

/-! ### Runs -/

/-- An operation as it is called; where it is strict, it bootstraps no owner. -/
abbrev RunOp (strict : Prop) := { op : Op // op.Called ∧ (strict → ¬ op.Bootstraps) }

namespace RunOp

def Result (strict : Prop) (op : RunOp strict) : Type := op.1.Result

def program (strict : Prop) (limit : ℕ) (op : RunOp strict) (start : ℤ) : Tx (Result strict op) :=
  op.1.program limit start

end RunOp

section

variable {strict : Prop} {χ ω : Type} {B : χ → Type} {acts : ω → (x : χ) → B x → ω → Prop}
  {drifts : ω → ω → Prop} {limit : ℕ} {db : Tables}
  {h : List (Happening Tables Failure (RunOp.Result strict) B)}
  {s s₁ : System LockKey Tables Failure ω (RunOp.Result strict) B}

/-- A run of the store from sound tables. -/
def Running (strict : Prop) (limit : ℕ) (acts : ω → (x : χ) → B x → ω → Prop)
    (drifts : ω → ω → Prop) (db : Tables)
    (h : List (Happening Tables Failure (RunOp.Result strict) B))
    (s : System LockKey Tables Failure ω (RunOp.Result strict) B) : Prop :=
  db.Sound ∧ ∃ world now processes,
    Reachable (RunOp.program strict limit) acts drifts (.initial db world now processes) h s

theorem safe_runOp (op : RunOp strict) (start : ℤ) (t : Tables) (_ : t.Sound) :
    Transactions.Safe (Commits strict limit) (RunOp.program strict limit op start)
      (Finishes (Commits strict limit) op.1.Commit) [] id t :=
  safe_program op.2.1 op.2.2

theorem Running.follows (hr : Running strict limit acts drifts db h s)
    (hfollows : Follows (RunOp.program strict limit) acts drifts s s₁) :
    ∃ h', Running strict limit acts drifts db h' s₁ := by
  obtain ⟨hdb, world, now, processes, hreachable⟩ := hr
  obtain ⟨h', hreachable'⟩ := hreachable.follows hfollows
  exact ⟨h', hdb, world, now, processes, hreachable'⟩

theorem Running.sound (hr : Running strict limit acts drifts db h s) : s.db.Sound := by
  obtain ⟨hdb, world, now, processes, hreachable⟩ := hr
  exact (hreachable.safe (Q := fun op _ _ result => op.1.Commit result)
    (fun _ _ _ hcommits => hcommits.sound) safe_runOp hdb).1

/-- A commit of an operation is as stated. -/
theorem Running.commit (hr : Running strict limit acts drifts db h s) {op : RunOp strict}
    {result : op.1.Result} {start : ℤ}
    (hc : Commitment (RunOp.program strict limit) acts drifts op result start s s₁) :
    op.1.Commit result s.db s₁.db := by
  obtain ⟨hdb, world, now, processes, hreachable⟩ := hr
  obtain ⟨n, begun, hstep⟩ := hc
  exact (hreachable.commits (Q := fun op _ _ result => op.1.Commit result)
    (fun _ _ _ hcommits => hcommits.sound) safe_runOp hdb hstep).1

/-- What every commit keeps, from any time of a run to any later one. -/
theorem Running.maintains (hr : Running strict limit acts drifts db h s) {P : Tables → Prop}
    (hP : ∀ (op : RunOp strict) (result : op.1.Result) held d d', d.Sound →
      op.1.Commit result d d' → Commits strict limit held d d' → P d → P d')
    (hfollows : Follows (RunOp.program strict limit) acts drifts s s₁) (hs : P s.db) :
    P s₁.db := by
  have hsound := hr.sound
  obtain ⟨hdb, world, now, processes, hreachable⟩ := hr
  refine (hreachable.maintains (P := fun d => d.Sound ∧ P d)
    (Q := fun op _ _ result => op.1.Commit result) (fun _ _ _ hcommits => hcommits.sound)
    safe_runOp (fun op _ _ result d d' hc hd => ?_) hdb hfollows ⟨hsound, hs⟩).2
  obtain ⟨hcommit, held, hcommits⟩ := hc
  exact ⟨hcommits.sound hd.1, hP op result held d d' hd.1 hcommit hcommits hd.2⟩

end

/-! ### Operations of one process -/

/-- What an operation that runs alone comes to, where it is not refused. -/
def Op.after (limit : ℕ) (start : ℤ) (op : Op) (t : Tables) : Option (op.Result × Tables) :=
  (alone (op.program limit start) id t).map fun r => (r.1, r.2 t)

def noTables : Tables := ⟨∅, ∅⟩

/-- A community with its owner. -/
def foundedTables : Tables :=
  ⟨AList.insert 1 (newCommunity "a.example") ∅, AList.insert (1, "a") ⟨.owner, none, 0, 0⟩ ∅⟩

def createOp : RunOp True :=
  ⟨.createCommunityWithOwner 1 "a.example" "A", trivial, fun _ h => h⟩

def transferOp : RunOp True := ⟨.transferOwnership 1 "b" "a", trivial, fun _ h => h⟩

/-- The tables after the transfer of the community. -/
def transferredTables : Tables := ((transferOp.1.after 1 0 foundedTables).map (·.2)).getD noTables

/-- A system in which nothing is done on the world. -/
abbrev StoreOnly := System LockKey Tables Failure Unit (RunOp.Result True) fun _ : Empty => Unit

namespace StoreOnly

/-- The start of a process that runs operations. -/
def start (ops : List (RunOp True)) : StoreOnly :=
  .initial noTables ⟨⟩ 0 fun n => if n = 0 then sequence ops else .cut

def Runs (h : List (Happening Tables Failure (RunOp.Result True) fun _ : Empty => Unit))
    (s : StoreOnly) : Prop :=
  Running True 1 (fun _ _ _ _ => False) (fun _ _ => False) noTables h s

def Leads (s s' : StoreOnly) : Prop :=
  Follows (RunOp.program True 1) (fun _ _ _ _ => False) (fun _ _ => False) s s'

def Commits (op : RunOp True) (result : op.1.Result) (s s' : StoreOnly) : Prop :=
  Commitment (RunOp.program True 1) (fun _ _ _ _ => False) (fun _ _ => False) op result 0 s s'

/-- The next operation of such a process is committed. -/
theorem commits {s : StoreOnly} {op : RunOp True} {ops : List (RunOp True)} {t t' : Tables}
    {result : op.1.Result} (hs : Sequential s (op :: ops)) (hnow : s.now = 0) (hdb : s.db = t)
    (hrun : op.1.after 1 0 t = some (result, t')) :
    ∃ s₁ s₂ : StoreOnly, Leads s s₁ ∧ s₁.db = t ∧ Commits op result s₁ s₂ ∧ s₂.db = t' ∧
      s₂.now = 0 ∧ Sequential s₂ ops :=
  hs.commits _ _ _ hnow hdb hrun

/-- A community is created first. -/
theorem founds (ops : List (RunOp True)) :
    ∃ (h h' : List (Happening Tables Failure (RunOp.Result True) fun _ : Empty => Unit))
      (s s' : StoreOnly), Runs h s ∧ s.db = noTables ∧
        Commits createOp (.created 1 "a.example" : CreateCommunityResult) s s' ∧ Runs h' s' ∧
          s'.db = foundedTables ∧ s'.now = 0 ∧ Sequential s' ops := by
  have hs : Sequential (start (createOp :: ops)) (createOp :: ops) := sequential_initial _ _ _ _
  have hrun : createOp.1.after 1 0 noTables =
    some ((.created 1 "a.example" : CreateCommunityResult), foundedTables) := rfl
  obtain ⟨s₁, s₂, hleads, hdb₁, hcommit, hdb₂, hnow₂, hs₂⟩ := commits hs rfl rfl hrun
  have hr : Runs [] (start (createOp :: ops)) := ⟨fun k h => (by cases h), ⟨⟩, 0, _, .start⟩
  obtain ⟨h₁, hr₁⟩ := hr.follows hleads
  obtain ⟨h₂, hr₂⟩ := hr₁.follows (Commitment.follows hcommit)
  exact ⟨h₁, h₂, s₁, s₂, hr₁, hdb₁, hcommit, hr₂, hdb₂, hnow₂, hs₂⟩

/-- A community is created, and transferred. -/
theorem transfers : ∃ (h h' : List (Happening Tables Failure (RunOp.Result True)
    fun _ : Empty => Unit)) (s s₁ s₂ : StoreOnly), Runs h s ∧ s.db = foundedTables ∧
      s.db.SoleOwner 1 "a" ∧ Leads s s₁ ∧ Runs h' s₁ ∧ s₁.db = foundedTables ∧
        Commits transferOp (.transferred (some "a") : TransferResult) s₁ s₂ ∧
          s₂.db = transferredTables := by
  obtain ⟨_, h, s₀, s, hr₀, hdb₀, hfounds, hr, hdb, hnow, hs⟩ := founds [transferOp]
  have hrun : transferOp.1.after 1 0 foundedTables =
    some ((.transferred (some "a") : TransferResult), transferredTables) := rfl
  obtain ⟨s₁, s₂, hleads, hdb₁, hcommit, hdb₂, -⟩ := commits hs hnow hdb hrun
  obtain ⟨h₁, hr₁⟩ := hr.follows hleads
  have hsole : s.db.SoleOwner 1 "a" := (hr₀.commit hfounds).founds hr₀.sound
    (by rw [hdb₀]; rfl) (by rw [hdb]; rfl)
  exact ⟨h, h₁, s, s₁, s₂, hr, hdb, hsole, hleads, hr₁, hdb₁, hcommit, hdb₂⟩

end StoreOnly

/-! ### What every run keeps -/

section

variable {strict : Prop} {χ ω : Type} {B : χ → Type} {acts : ω → (x : χ) → B x → ω → Prop}
  {drifts : ω → ω → Prop} {limit : ℕ} {db : Tables}
  {h : List (Happening Tables Failure (RunOp.Result strict) B)}
  {s s₁ : System LockKey Tables Failure ω (RunOp.Result strict) B}

/-- From any time of a run to any later one: a community that has an owner has one. -/
theorem owned_communities_stay (hr : Running strict limit acts drifts db h s)
    (hfollows : Follows (RunOp.program strict limit) acts drifts s s₁) (c : Uuid)
    (hc : s.db.Owned c) : s₁.db.Owned c :=
  hr.maintains (P := fun d => d.Owned c) (fun _ _ _ _ _ _ _ hcommits hd => hcommits.owned c hd)
    hfollows hc

theorem owned_communities_stay_transferred : ∃ s₂ : StoreOnly,
    s₂.db.role (1, "a") = some .member ∧ s₂.db.Owned 1 := by
  obtain ⟨_, _, s, s₁, s₂, hr, hdb, -, hleads, -, -, hcommit, hdb₂⟩ := StoreOnly.transfers
  refine ⟨s₂, by rw [hdb₂]; rfl, owned_communities_stay hr
    (Relation.ReflTransGen.trans hleads (Commitment.follows hcommit)) 1 ⟨"a", ?_⟩⟩
  rw [hdb]
  rfl

/-- Every commit changes the role of a member only as its operation may, and changes nothing of
another community. -/
theorem roles_change_by_operation (hr : Running strict limit acts drifts db h s)
    {op : RunOp strict} {result : op.1.Result} {start : ℤ}
    (hc : Commitment (RunOp.program strict limit) acts drifts op result start s s₁) :
    (∀ k, s₁.db.role k = s.db.role k ∨ op.1.Changes k (s.db.role k) (s₁.db.role k)) ∧
      s.db.Within op.1.community s₁.db :=
  ⟨(hr.commit hc).changes, (hr.commit hc).within⟩

theorem roles_change_by_operation_transferred : ∃ s₁ s₂ : StoreOnly,
    s₂.db.role (1, "b") ≠ s₁.db.role (1, "b") ∧
      transferOp.1.Changes (1, "b") (s₁.db.role (1, "b")) (s₂.db.role (1, "b")) := by
  obtain ⟨_, _, _, s₁, s₂, -, -, -, -, hr₁, hdb₁, hcommit, hdb₂⟩ := StoreOnly.transfers
  have hne : s₂.db.role (1, "b") ≠ s₁.db.role (1, "b") := by
    rw [hdb₁, hdb₂]
    decide
  exact ⟨s₁, s₂, hne, ((roles_change_by_operation hr₁ hcommit).1 (1, "b")).resolve_left hne⟩

end

/-! ### As long as no owner is bootstrapped -/

section

variable {χ ω : Type} {B : χ → Type} {acts : ω → (x : χ) → B x → ω → Prop} {drifts : ω → ω → Prop}
  {limit : ℕ} {db : Tables} {h : List (Happening Tables Failure (RunOp.Result True) B)}
  {s s₁ s₂ : System LockKey Tables Failure ω (RunOp.Result True) B}

theorem Running.soleOwner (hr : Running True limit acts drifts db h s)
    (hfollows : Follows (RunOp.program True limit) acts drifts s s₁) {c : Uuid} {pubkey : String}
    (hsole : s.db.SoleOwner c pubkey) : ∃ pubkey', s₁.db.SoleOwner c pubkey' := by
  refine hr.maintains (P := fun d => ∃ pubkey', d.SoleOwner c pubkey')
    (fun op result held d d' hd hc _ hsole => ?_) hfollows ⟨pubkey, hsole⟩
  obtain ⟨pubkey', hsole⟩ := hsole
  rcases hc.soleOwner op.2.1 (op.2.2 trivial) hd hsole with hsame | ⟨owner, -, -, -, hnew⟩
  · exact ⟨pubkey', hsame⟩
  · exact ⟨_, hnew⟩

/-- A community with one owner keeps having exactly one, from any time of a run to any later one,
and he is another one only by a transfer which names the former as the owner that it expects. -/
theorem sole_owner_passes_on (hr : Running True limit acts drifts db h s)
    (hfollows : Follows (RunOp.program True limit) acts drifts s s₁) (c : Uuid) (pubkey : String)
    (hsole : s.db.SoleOwner c pubkey) :
    (∃ pubkey', s₁.db.SoleOwner c pubkey') ∧
      ∀ (op : RunOp True) (result : op.1.Result) (start : ℤ)
        (s₂ : System LockKey Tables Failure ω (RunOp.Result True) B) (pubkey₁ pubkey₂ : String),
        Commitment (RunOp.program True limit) acts drifts op result start s₁ s₂ →
          s₁.db.SoleOwner c pubkey₁ → s₂.db.SoleOwner c pubkey₂ → pubkey₂ ≠ pubkey₁ →
            ∃ owner expected, op.1 = .transferOwnership c owner expected ∧
              toAsciiLowercase expected = pubkey₁ ∧ toAsciiLowercase owner = pubkey₂ := by
  refine ⟨hr.soleOwner hfollows hsole, fun op result start s₂ pubkey₁ pubkey₂ hc h₁ h₂ hne => ?_⟩
  obtain ⟨h', hr₁⟩ := hr.follows hfollows
  rcases (hr₁.commit hc).soleOwner op.2.1 (op.2.2 trivial) hr₁.sound h₁ with
    hsame | ⟨owner, expected, hop, hexpected, hnew⟩
  · exact absurd ((hsame _).mp h₂.role) hne
  · exact ⟨owner, expected, hop, hexpected, (h₂ _).mp hnew.role⟩

theorem sole_owner_passes_on_transferred : ∃ s₁ s₂ : StoreOnly,
    s₁.db.role (1, "a") = some .owner ∧ (∃ pubkey, s₂.db.SoleOwner 1 pubkey) ∧
      s₂.db.role (1, "b") = some .owner := by
  obtain ⟨_, _, s, s₁, s₂, hr, -, hsole, hleads, -, hdb₁, hcommit, hdb₂⟩ := StoreOnly.transfers
  refine ⟨s₁, s₂, by rw [hdb₁]; rfl, (sole_owner_passes_on hr
    (Relation.ReflTransGen.trans hleads (Commitment.follows hcommit)) 1 "a" hsole).1, ?_⟩
  rw [hdb₂]
  rfl

/-- A community that an operation creates has its owner alone, and from then on exactly one owner at
any time. -/
theorem founded_communities_have_one_owner (hr : Running True limit acts drifts db h s)
    {op : RunOp True} {result : op.1.Result} {start : ℤ}
    (hc : Commitment (RunOp.program True limit) acts drifts op result start s s₁)
    (hfollows : Follows (RunOp.program True limit) acts drifts s₁ s₂) (c : Uuid)
    (host owner : String) (hop : op.1 = .createCommunityWithOwner c host owner)
    (hnew : s.db.communities.lookup c = none)
    (hcreated : (s₁.db.communities.lookup c).isSome = true) :
    s₁.db.SoleOwner c (toAsciiLowercase owner) ∧ ∃ pubkey, s₂.db.SoleOwner c pubkey := by
  have hcommit := hr.commit hc
  obtain ⟨h₁, hr₁⟩ := hr.follows hc.follows
  obtain ⟨op, hallowed⟩ := op
  obtain rfl : op = .createCommunityWithOwner c host owner := hop
  have hsole := hcommit.founds hr.sound hnew hcreated
  exact ⟨hsole, hr₁.soleOwner hfollows hsole⟩

theorem founded_communities_have_one_owner_created : ∃ s₁ : StoreOnly,
    s₁.db = foundedTables ∧ s₁.db.SoleOwner 1 (toAsciiLowercase "A") := by
  obtain ⟨h, _, s, s₁, hr, hdb, hcommit, -, hdb₁, -⟩ := StoreOnly.founds []
  exact ⟨s₁, hdb₁, (founded_communities_have_one_owner hr hcommit .refl 1 "a.example" "A" rfl
    (by rw [hdb]; rfl) (by rw [hdb₁]; rfl)).1⟩

/-- Nobody comes to own more communities than the limit, whatever transfers and creations are under
way. -/
theorem owners_stay_within_limit (hr : Running True limit acts drifts db h s)
    (hfollows : Follows (RunOp.program True limit) acts drifts s s₁) (pubkey : String) :
    s₁.db.ownedBy pubkey ≤ max limit (s.db.ownedBy pubkey) := by
  refine hr.maintains (P := fun d => d.ownedBy pubkey ≤ max limit (s.db.ownedBy pubkey))
    (fun _ _ _ d d' _ _ hcommits hd => ?_) hfollows (le_max_right _ _)
  rcases hcommits.counted trivial pubkey with hle | ⟨hle, -⟩
  · exact hle.trans hd
  · exact hle.trans (le_max_left _ _)

theorem owners_stay_within_limit_created : ∃ s₁ : StoreOnly,
    s₁.db.ownedBy "a" = 1 ∧ s₁.db.ownedBy "a" ≤ max 1 (noTables.ownedBy "a") := by
  obtain ⟨h, _, s, s₁, hr, hdb, hcommit, -, hdb₁, -⟩ := StoreOnly.founds []
  refine ⟨s₁, by rw [hdb₁]; rfl, ?_⟩
  rw [← hdb]
  exact owners_stay_within_limit hr (Commitment.follows hcommit) "a"

end

end Buzz.Db.Members
