import Mathlib.Data.List.Chain
import Mathlib.Logic.Relation
import Buzz.Library.Sorting
import Buzz.Audit.Hash

/-!
# The audit service

`AuditService` of `crates/buzz-audit/src/service.rs` over the table `audit_log`. An append holds the
advisory lock of its community, reads the head of the community's chain, and inserts the next row;
appends to different communities interleave between the two. A call that fails at any point leaves
the table as it was: a database error, a row that is there already, or a number past `i64::MAX`.

Rows are returned as they are stored. An action is stored as its text, so a row may hold one that
cannot be read back.

## Main definitions

* `AuditRow`, `AuditError`, `rowToAuditEntry`.
* `chainRows`, `verifyChain`.
* `NewAuditEntry`, `nextEntry`: what an append writes.
* `World`, `Step`: interleaved appends.

## Main results

* `verifyChain_eq_ok_true_iff`: what verification checks.
* `verifyChain_eq_error`: an altered row is reported when the rows before it verify.
-/

namespace Buzz.Audit

open Buzz.Core Buzz.Library

/-! ### Rows -/

/-- A row of `audit_log`. -/
structure AuditRow where
  communityId : Uuid
  seq : Int64
  hash : List UInt8
  prevHash : Option (List UInt8)
  action : List Char
  actorPubkey : Option (List UInt8)
  objectId : Option (List Char)
  detail : Value
  createdAt : DateTime

/-- Errors of verification. -/
inductive AuditError
  | chainViolation (seq : Int64)
  | hashMismatch (seq : Int64)
  | unknownAction
  deriving DecidableEq

/-- The row that an entry is inserted as. -/
def AuditEntry.toRow (e : AuditEntry) : AuditRow where
  communityId := e.communityId
  seq := e.seq
  hash := e.hash
  prevHash := e.prevHash
  action := e.action.asStr
  actorPubkey := e.actorPubkey
  objectId := e.objectId
  detail := e.detail
  createdAt := e.createdAt

/-- The entry of a row. -/
def rowToAuditEntry (row : AuditRow) : Except AuditError AuditEntry :=
  match AuditAction.fromStr row.action with
  | none => .error .unknownAction
  | some action =>
    .ok
      { communityId := row.communityId
        seq := row.seq
        hash := row.hash
        prevHash := row.prevHash
        action
        actorPubkey := row.actorPubkey
        objectId := row.objectId
        detail := row.detail
        createdAt := row.createdAt }

theorem rowToAuditEntry_toRow (e : AuditEntry) : rowToAuditEntry e.toRow = .ok e := by
  rw [rowToAuditEntry, AuditEntry.toRow, AuditAction.fromStr_asStr]

/-- A row that can be read is that of its entry. -/
theorem toRow_of_rowToAuditEntry {row : AuditRow} {e : AuditEntry}
    (h : rowToAuditEntry row = .ok e) : e.toRow = row := by
  rw [rowToAuditEntry] at h
  split at h
  · cases h
  · next action haction =>
    have htext : action.asStr = row.action := by
      simpa using List.find?_some haction
    cases h
    rw [AuditEntry.toRow, htext]

/-! ### Verification -/

variable (sha256 : List UInt8 → List UInt8)

/-- The rows of one community with numbers in a range, in the order of their numbers. -/
def chainRows (table : List AuditRow) (community : Uuid) (fromSeq toSeq : Int64) : List AuditRow :=
  sortByKey (fun row => row.seq.toInt) (table.filter fun row =>
    row.communityId = community ∧ fromSeq.toInt ≤ row.seq.toInt ∧ row.seq.toInt ≤ toSeq.toInt)

/-- The loop of `verify_chain`, with the hash of the row before. -/
def verifyRows : Option (List UInt8) → List AuditRow → Except AuditError Bool
  | _, [] => .ok true
  | expectedPrev, row :: rows =>
    match rowToAuditEntry row with
    | .error error => .error error
    | .ok entry =>
      if expectedPrev.isSome ∧ entry.prevHash ≠ expectedPrev then
        .error (.chainViolation entry.seq)
      else if computeHash sha256 entry ≠ entry.hash then
        .error (.hashMismatch entry.seq)
      else verifyRows (some entry.hash) rows

/-- Verify the hash chain for one community over a range. -/
def verifyChain (table : List AuditRow) (community : Uuid) (fromSeq toSeq : Int64) :
    Except AuditError Bool :=
  match chainRows table community fromSeq toSeq with
  | [] => .ok false
  | rows => verifyRows sha256 none rows

/-- Each entry links to the one before it. -/
def Links (older newer : AuditEntry) : Prop := newer.prevHash = some older.hash

/-- The stored hash is that of the fields. -/
def Hashed (e : AuditEntry) : Prop := computeHash sha256 e = e.hash

variable {sha256}

/-- What the loop checks of one row. -/
theorem verifyRows_cons_eq_ok_true_iff {expectedPrev : Option (List UInt8)} {row : AuditRow}
    {rows : List AuditRow} :
    verifyRows sha256 expectedPrev (row :: rows) = .ok true ↔
      ∃ e : AuditEntry, row = e.toRow ∧ (expectedPrev.isSome = true → e.prevHash = expectedPrev) ∧
        Hashed sha256 e ∧ verifyRows sha256 (some e.hash) rows = .ok true := by
  rw [verifyRows]
  constructor
  · intro h
    split at h
    · cases h
    · next e he =>
      split_ifs at h with hlink hhash
      refine ⟨e, (toRow_of_rowToAuditEntry he).symm, ?_, not_not.mp hhash, h⟩
      intro hsome
      by_contra hne
      exact hlink ⟨hsome, hne⟩
  · rintro ⟨e, rfl, hlink, hhash, hrows⟩
    rw [rowToAuditEntry_toRow]
    have hnot : ¬ (expectedPrev.isSome = true ∧ e.prevHash ≠ expectedPrev) :=
      fun hboth => hboth.2 (hlink hboth.1)
    have hequal : computeHash sha256 e = e.hash := hhash
    simp only [if_neg hnot, ne_eq, hequal, not_true_eq_false, if_false, hrows]

/-- The loop accepts hashed entries that link to each other, the first to the expected hash if there
is one. -/
theorem verifyRows_eq_ok_true_iff {expectedPrev : Option (List UInt8)} {rows : List AuditRow} :
    verifyRows sha256 expectedPrev rows = .ok true ↔
      ∃ es : List AuditEntry, rows = es.map AuditEntry.toRow ∧ (∀ e ∈ es, Hashed sha256 e) ∧
        es.IsChain Links ∧
        ∀ e, es.head? = some e → expectedPrev.isSome = true → e.prevHash = expectedPrev := by
  induction rows generalizing expectedPrev with
  | nil =>
    refine ⟨fun _ => ⟨[], rfl, ?_, .nil, ?_⟩, fun _ => rfl⟩
    · exact fun e he => absurd he List.not_mem_nil
    · exact fun e he => nomatch he
  | cons row rows ih =>
    rw [verifyRows_cons_eq_ok_true_iff]
    constructor
    · rintro ⟨e, rfl, hlink, hhash, hrows⟩
      obtain ⟨es, rfl, hhashed, hchain, hfirst⟩ := ih.mp hrows
      refine ⟨e :: es, rfl, ?_, ?_, ?_⟩
      · exact List.forall_mem_cons.mpr ⟨hhash, hhashed⟩
      · cases es with
        | nil => exact .singleton e
        | cons e' es => exact .cons_cons (hfirst e' rfl rfl) hchain
      · intro e' he' hsome
        cases he'
        exact hlink hsome
    · rintro ⟨es, hrows, hhashed, hchain, hfirst⟩
      cases es with
      | nil => cases hrows
      | cons e es =>
        obtain ⟨rfl, rfl⟩ := List.cons.inj hrows
        obtain ⟨hhash, hhashed⟩ := List.forall_mem_cons.mp hhashed
        refine ⟨e, rfl, hfirst e rfl, hhash, ih.mpr ⟨es, rfl, hhashed, hchain.tail, ?_⟩⟩
        intro e' he' _
        cases es with
        | nil => cases he'
        | cons e'' es =>
          cases he'
          exact (List.isChain_cons_cons.mp hchain).1

/-- Verification accepts a range that holds rows, all of them hashed and each linked to the one
before it. The first row of the range may link to anything. -/
theorem verifyChain_eq_ok_true_iff {table : List AuditRow} {community : Uuid}
    {fromSeq toSeq : Int64} :
    verifyChain sha256 table community fromSeq toSeq = .ok true ↔
      ∃ es : List AuditEntry, es ≠ [] ∧
        chainRows table community fromSeq toSeq = es.map AuditEntry.toRow ∧
        (∀ e ∈ es, Hashed sha256 e) ∧ es.IsChain Links := by
  rw [verifyChain]
  cases hrows : chainRows table community fromSeq toSeq with
  | nil =>
    refine ⟨fun h => (by cases h), ?_⟩
    rintro ⟨es, hne, hes, -⟩
    exact absurd (List.map_eq_nil_iff.mp hes.symm) hne
  | cons row rows =>
    show verifyRows sha256 none (row :: rows) = .ok true ↔ _
    rw [verifyRows_eq_ok_true_iff]
    constructor
    · rintro ⟨es, hes, hhashed, hchain, -⟩
      refine ⟨es, ?_, hes, hhashed, hchain⟩
      rintro rfl
      cases hes
    · rintro ⟨es, -, hes, hhashed, hchain⟩
      exact ⟨es, hes, hhashed, hchain, fun e _ hsome => by cases hsome⟩

/-- Rows that verify are read through to what follows them. -/
theorem verifyRows_append {expectedPrev : Option (List UInt8)} {es : List AuditEntry}
    {rows : List AuditRow} (hhashed : ∀ e ∈ es, Hashed sha256 e) (hchain : es.IsChain Links)
    (hfirst : ∀ e, es.head? = some e → expectedPrev.isSome = true → e.prevHash = expectedPrev) :
    verifyRows sha256 expectedPrev (es.map AuditEntry.toRow ++ rows) =
      verifyRows sha256 ((es.getLast?.map AuditEntry.hash).or expectedPrev) rows := by
  induction es generalizing expectedPrev with
  | nil => rfl
  | cons e es ih =>
    obtain ⟨hhash, hhashed⟩ := List.forall_mem_cons.mp hhashed
    have hnot : ¬ (expectedPrev.isSome = true ∧ e.prevHash ≠ expectedPrev) :=
      fun hboth => hboth.2 (hfirst e rfl hboth.1)
    have hequal : computeHash sha256 e = e.hash := hhash
    have hnext : ∀ e', es.head? = some e' → (some e.hash).isSome = true →
        e'.prevHash = some e.hash := by
      intro e' he' _
      cases es with
      | nil => cases he'
      | cons e'' es =>
        cases he'
        exact (List.isChain_cons_cons.mp hchain).1
    rw [List.map_cons, List.cons_append, verifyRows, rowToAuditEntry_toRow]
    simp only [if_neg hnot, ne_eq, hequal, not_true_eq_false, if_false]
    rw [ih hhashed hchain.tail hnext]
    cases es with
    | nil => rfl
    | cons e' es =>
      rw [List.getLast?_cons_cons, List.getLast?_cons, Option.map_some]
      rfl

/-- A row put in the place of `a` whose hash is not that of its fields is reported when the rows
before it verify: by the link to the row before it, or by its hash. -/
theorem verifyChain_eq_error {table : List AuditRow} {community : Uuid} {fromSeq toSeq : Int64}
    {es : List AuditEntry} {a b : AuditEntry} {rows : List AuditRow}
    (hrows : chainRows table community fromSeq toSeq =
      es.map AuditEntry.toRow ++ b.toRow :: rows)
    (hhashed : ∀ e ∈ es, Hashed sha256 e) (hchain : (es ++ [a]).IsChain Links)
    (hb : ¬ Hashed sha256 b) :
    verifyChain sha256 table community fromSeq toSeq =
      .error (if es ≠ [] ∧ b.prevHash ≠ a.prevHash then .chainViolation b.seq
        else .hashMismatch b.seq) := by
  have hread : verifyChain sha256 table community fromSeq toSeq =
      verifyRows sha256 none (es.map AuditEntry.toRow ++ b.toRow :: rows) := by
    rw [verifyChain, hrows]
    cases es <;> rfl
  have hlast : ((es.getLast?.map AuditEntry.hash).or none).isSome = true ∧
      b.prevHash ≠ (es.getLast?.map AuditEntry.hash).or none ↔
        es ≠ [] ∧ b.prevHash ≠ a.prevHash := by
    rcases es.eq_nil_or_concat with rfl | ⟨es, e, rfl⟩
    · simp
    · have hlink : a.prevHash = some e.hash := by
        rw [List.concat_eq_append, List.append_assoc] at hchain
        have hpair : Links e a := List.isChain_pair.mp hchain.right_of_append
        exact hpair
      simp [hlink]
  rw [hread, verifyRows_append hhashed hchain.left_of_append (fun e _ hsome => by cases hsome),
    verifyRows, rowToAuditEntry_toRow]
  have hne : computeHash sha256 b ≠ b.hash := hb
  simp only [hlast, if_pos hne]
  split_ifs <;> rfl

/-! ### Appends -/

/-- Input for appending a new audit entry. -/
structure NewAuditEntry where
  communityId : Uuid
  action : AuditAction
  actorPubkey : Option (List UInt8)
  objectId : Option (List Char)
  detail : Value

/-- The head of a community's chain: the row with the greatest number. -/
def chainHead (table : List AuditRow) (community : Uuid) : Option AuditRow :=
  (sortByKey (fun row => row.seq.toInt)
    (table.filter fun row => row.communityId = community)).getLast?

variable (sha256) in
/-- The entry after a head. `none` when its number overflows. -/
def nextEntry (head : Option AuditRow) (entry : NewAuditEntry) (now : DateTime) :
    Option AuditEntry :=
  let prevSeq : Int64 := match head with
    | some row => row.seq
    | none => 0
  if prevSeq = Int64.maxValue then none
  else
    let auditEntry : AuditEntry :=
      { communityId := entry.communityId
        seq := prevSeq + 1
        hash := []
        prevHash := head.map AuditRow.hash
        action := entry.action
        actorPubkey := entry.actorPubkey
        objectId := entry.objectId
        detail := entry.detail
        createdAt := now.truncMicros }
    some { auditEntry with hash := computeHash sha256 auditEntry }

/-- `INSERT` under the primary key and the unique index on hashes. -/
def insertRow (table : List AuditRow) (row : AuditRow) : Option (List AuditRow) :=
  if table.any fun r => r.communityId = row.communityId ∧ (r.seq = row.seq ∨ r.hash = row.hash) then
    none
  else some (table ++ [row])

/-- The table, and for every community the append that holds its lock, with the head it read. -/
structure World where
  table : List AuditRow
  pending : Uuid → Option (NewAuditEntry × Option AuditRow)

/-- Give the lock of a community to an append, or take it back. -/
def World.setPending (w : World) (community : Uuid)
    (append : Option (NewAuditEntry × Option AuditRow)) : World :=
  { w with pending := Function.update w.pending community append }

theorem pending_setPending_self (w : World) (community : Uuid)
    (append : Option (NewAuditEntry × Option AuditRow)) :
    (w.setPending community append).pending community = append :=
  Function.update_self ..

theorem pending_setPending_of_ne (w : World) {community community' : Uuid}
    (append : Option (NewAuditEntry × Option AuditRow)) (h : community' ≠ community) :
    (w.setPending community append).pending community' = w.pending community' :=
  Function.update_of_ne h ..

variable (sha256) in
/-- A step of `log`: an append takes the lock of its community and reads the head; it inserts the
next row and gives the lock back; or it fails. -/
inductive Step : World → World → Prop
  | start {w} (entry : NewAuditEntry) (hlock : w.pending entry.communityId = none) :
      Step w (w.setPending entry.communityId (some (entry, chainHead w.table entry.communityId)))
  | finish {w community entry head e table} (now : DateTime)
      (hpending : w.pending community = some (entry, head))
      (hnext : nextEntry sha256 head entry now = some e)
      (hinsert : insertRow w.table e.toRow = some table) :
      Step w { w.setPending community none with table }
  | fail {w} (community : Uuid) : Step w (w.setPending community none)

/-- An empty table, and no append under way. -/
def World.initial : World := ⟨[], fun _ => none⟩

end Buzz.Audit
