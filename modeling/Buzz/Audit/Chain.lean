import Buzz.Audit.Service

/-!
# Audit chains

Appends of any number of callers to any number of communities interleave. Every community's rows
are numbered from one without gaps, each linked to the one before it, and verification accepts every
stretch of them.

Verification reads the links between the rows it finds, so it accepts what is left of a chain after
rows were removed at either end. What it does notice is everything between: rows that verify and end
with a hash that was written hash the same bytes as a stretch of the chain that was written.

## Main definitions

* `ChainOf`: the chain of one community.
* `Sound`: the invariant of interleaved appends.
* `PrimaryKey`: what any table satisfies, tampered with or not.

## Main results

* `ChainOf.append`: an append extends the chain.
* `ChainOf.verifyChain`: every stretch of a chain verifies.
* `stretch_of_verified`: rows that verify are a stretch of the chain, up to what is hashed.
* `computeHash_binds_iff`: which alterations of a row keep its hash.
* `audit_chains_verify`: the chains of every run.
-/

namespace Buzz.Audit

open Buzz.Core Buzz.Library Relation

variable {sha256 : List UInt8 → List UInt8} {community : Uuid} {es : List AuditEntry}

/-! ### Chains -/

variable (sha256 community es) in
/-- The entries of one community, oldest first. -/
structure ChainOf : Prop where
  community : ∀ e ∈ es, e.communityId = community
  seq : ∀ (i : ℕ) (e : AuditEntry), es[i]? = some e → e.seq.toInt = i + 1
  first : ∀ e, es.head? = some e → e.prevHash = none
  links : es.IsChain Links
  hashed : ∀ e ∈ es, Hashed sha256 e

theorem chainOf_nil : ChainOf sha256 community [] := by
  refine ⟨?_, ?_, ?_, .nil, ?_⟩
  · exact fun e he => absurd he List.not_mem_nil
  · exact fun i e he => nomatch he
  · exact fun e he => nomatch he
  · exact fun e he => absurd he List.not_mem_nil

theorem ChainOf.pairwise (h : ChainOf sha256 community es) :
    es.Pairwise fun a b => a.seq.toInt < b.seq.toInt := by
  rw [List.pairwise_iff_getElem]
  intro i j hi hj hij
  have hseqi := h.seq i es[i] (List.getElem?_eq_getElem hi)
  have hseqj := h.seq j es[j] (List.getElem?_eq_getElem hj)
  omega

/-- Neighbours of a chain are linked. -/
theorem ChainOf.link (h : ChainOf sha256 community es) {i : ℕ} {a b : AuditEntry}
    (ha : es[i]? = some a) (hb : es[i + 1]? = some b) : Links a b := by
  obtain ⟨hlt, rfl⟩ := List.getElem?_eq_some_iff.mp hb
  obtain ⟨-, rfl⟩ := List.getElem?_eq_some_iff.mp ha
  exact h.links.getElem i hlt

theorem sortByKey_eq_self {rows : List AuditRow}
    (h : rows.Pairwise fun a b => a.seq.toInt < b.seq.toInt) :
    sortByKey (fun row => row.seq.toInt) rows = rows :=
  List.Pairwise.insertionSort_eq (h.imp fun hab => hab.le)

/-- The rows of a chain are in the order of their numbers. -/
theorem ChainOf.sorted (h : ChainOf sha256 community es) :
    (es.map AuditEntry.toRow).Pairwise fun a b => a.seq.toInt < b.seq.toInt :=
  List.pairwise_map.mpr h.pairwise

/-- What a query finds in a table that holds the chain. -/
theorem ChainOf.chainRows (h : ChainOf sha256 community es) {table : List AuditRow}
    (htable : (table.filter fun row => row.communityId = community) = es.map AuditEntry.toRow)
    (fromSeq toSeq : Int64) :
    chainRows table community fromSeq toSeq = (es.filter fun e =>
      fromSeq.toInt ≤ e.seq.toInt ∧ e.seq.toInt ≤ toSeq.toInt).map AuditEntry.toRow := by
  have hfilter : (table.filter fun row => row.communityId = community ∧
      fromSeq.toInt ≤ row.seq.toInt ∧ row.seq.toInt ≤ toSeq.toInt) =
      (es.filter fun e => fromSeq.toInt ≤ e.seq.toInt ∧ e.seq.toInt ≤ toSeq.toInt).map
        AuditEntry.toRow := by
    have hsplit : (table.filter fun row => row.communityId = community ∧
        fromSeq.toInt ≤ row.seq.toInt ∧ row.seq.toInt ≤ toSeq.toInt) =
        (table.filter fun row => row.communityId = community).filter fun row =>
          fromSeq.toInt ≤ row.seq.toInt ∧ row.seq.toInt ≤ toSeq.toInt := by
      rw [List.filter_filter]
      refine List.filter_congr fun row _ => ?_
      simp [Bool.and_comm]
    rw [hsplit, htable, List.filter_map]
    rfl
  have hsorted : ((es.filter fun e => fromSeq.toInt ≤ e.seq.toInt ∧ e.seq.toInt ≤ toSeq.toInt).map
      AuditEntry.toRow).Pairwise fun a b => a.seq.toInt < b.seq.toInt :=
    List.pairwise_map.mpr (h.pairwise.filter _)
  rw [Audit.chainRows, hfilter]
  exact sortByKey_eq_self hsorted

theorem ChainOf.chainHead (h : ChainOf sha256 community es) {table : List AuditRow}
    (htable : (table.filter fun row => row.communityId = community) = es.map AuditEntry.toRow) :
    chainHead table community = es.getLast?.map AuditEntry.toRow := by
  rw [Audit.chainHead, htable, sortByKey_eq_self h.sorted, List.getLast?_map]

/-- The entries up to a number are the first ones. -/
theorem prefix_filter_le (h : es.Pairwise fun a b => a.seq.toInt < b.seq.toInt) (hi : ℤ) :
    es.filter (fun e => e.seq.toInt ≤ hi) <+: es := by
  induction es with
  | nil => exact List.prefix_rfl
  | cons e es ih =>
    obtain ⟨hlt, hrest⟩ := List.pairwise_cons.mp h
    by_cases hle : e.seq.toInt ≤ hi
    · rw [List.filter_cons_of_pos (by simpa using hle)]
      exact List.cons_prefix_cons.mpr ⟨rfl, ih hrest⟩
    · have hnone : ((e :: es).filter fun e => e.seq.toInt ≤ hi) = [] := by
        refine List.filter_eq_nil_iff.mpr fun e' he' => ?_
        rcases List.mem_cons.mp he' with rfl | he'
        · simpa using hle
        · have := hlt e' he'
          simp only [decide_eq_true_eq]
          omega
      rw [hnone]
      exact List.nil_prefix

/-- The entries from a number on are the last ones. -/
theorem suffix_filter_ge (h : es.Pairwise fun a b => a.seq.toInt < b.seq.toInt) (lo : ℤ) :
    es.filter (fun e => lo ≤ e.seq.toInt) <:+ es := by
  induction es with
  | nil => exact List.suffix_rfl
  | cons e es ih =>
    obtain ⟨hlt, hrest⟩ := List.pairwise_cons.mp h
    by_cases hle : lo ≤ e.seq.toInt
    · have hall : ((e :: es).filter fun e => lo ≤ e.seq.toInt) = e :: es := by
        refine List.filter_eq_self.mpr fun e' he' => ?_
        rcases List.mem_cons.mp he' with rfl | he'
        · simpa using hle
        · have := hlt e' he'
          simp only [decide_eq_true_eq]
          omega
      exact hall.symm ▸ List.suffix_rfl
    · rw [List.filter_cons_of_neg (by simpa using hle)]
      exact (ih hrest).trans (List.suffix_cons e es)

/-- The entries of a range lie next to each other. -/
theorem infix_filter_between (h : es.Pairwise fun a b => a.seq.toInt < b.seq.toInt) (lo hi : ℤ) :
    es.filter (fun e => lo ≤ e.seq.toInt ∧ e.seq.toInt ≤ hi) <:+: es := by
  have hsplit : (es.filter fun e => lo ≤ e.seq.toInt ∧ e.seq.toInt ≤ hi) =
      (es.filter fun e => e.seq.toInt ≤ hi).filter fun e => lo ≤ e.seq.toInt := by
    rw [List.filter_filter]
    refine List.filter_congr fun e _ => ?_
    rw [Bool.decide_and]
  rw [hsplit]
  exact (suffix_filter_ge (h.filter _) lo).isInfix.trans (prefix_filter_le h hi).isInfix

/-- Every stretch of a chain verifies. -/
theorem ChainOf.verifyChain (h : ChainOf sha256 community es) {table : List AuditRow}
    (htable : (table.filter fun row => row.communityId = community) = es.map AuditEntry.toRow)
    {fromSeq toSeq : Int64} {e : AuditEntry} (he : e ∈ es)
    (hfrom : fromSeq.toInt ≤ e.seq.toInt) (hto : e.seq.toInt ≤ toSeq.toInt) :
    verifyChain sha256 table community fromSeq toSeq = .ok true := by
  refine verifyChain_eq_ok_true_iff.mpr ⟨_, ?_, h.chainRows htable fromSeq toSeq, ?_, ?_⟩
  · exact List.ne_nil_of_mem (List.mem_filter.mpr ⟨he, by simp [hfrom, hto]⟩)
  · exact fun e' he' => h.hashed e' (List.mem_of_mem_filter he')
  · exact h.links.infix (infix_filter_between h.pairwise _ _)

/-! ### Appends -/

theorem toInt_add_one {n : Int64} (h : n ≠ Int64.maxValue) : (n + 1).toInt = n.toInt + 1 := by
  have hle : n.toInt ≤ Int64.maxValue.toInt := n.toInt_le
  have hne : n.toInt ≠ Int64.maxValue.toInt := fun heq => h (Int64.toInt_inj.mp heq)
  have hge : Int64.minValue.toInt ≤ n.toInt := n.minValue_le_toInt
  have hmax : Int64.maxValue.toInt = 9223372036854775807 := by decide
  have hmin : Int64.minValue.toInt = -9223372036854775808 := by decide
  rw [Int64.toInt_add]
  exact Int.bmod_eq_of_le (by simp; omega) (by simp; omega)

/-- What an append writes after a head. -/
theorem nextEntry_spec {head : Option AuditRow} {entry : NewAuditEntry} {now : DateTime}
    {e : AuditEntry} (h : nextEntry sha256 head entry now = some e) :
    e.communityId = entry.communityId ∧ e.prevHash = head.map AuditRow.hash ∧ Hashed sha256 e ∧
      e.seq.toInt = (head.map fun row => row.seq.toInt).getD 0 + 1 := by
  simp only [nextEntry] at h
  cases head with
  | none =>
    split_ifs at h with hmax
    cases h
    exact ⟨rfl, rfl, rfl, toInt_add_one hmax⟩
  | some row =>
    split_ifs at h with hmax
    cases h
    exact ⟨rfl, rfl, rfl, toInt_add_one hmax⟩

/-- The number of the last entry is the length of the chain. -/
theorem ChainOf.seq_getLast? (h : ChainOf sha256 community es) :
    ((es.getLast?.map AuditEntry.toRow).map fun row => row.seq.toInt).getD 0 = es.length := by
  rcases es.eq_nil_or_concat with rfl | ⟨es, e, rfl⟩
  · rfl
  · rw [List.concat_eq_append] at h ⊢
    have hseq := h.seq es.length e (by simp)
    simp [AuditEntry.toRow, hseq]

/-- An append extends the chain. -/
theorem ChainOf.append (h : ChainOf sha256 community es) {head : Option AuditRow}
    {entry : NewAuditEntry} {now : DateTime} {e : AuditEntry}
    (hhead : head = es.getLast?.map AuditEntry.toRow) (hcommunity : entry.communityId = community)
    (hnext : nextEntry sha256 head entry now = some e) : ChainOf sha256 community (es ++ [e]) := by
  obtain ⟨hid, hprev, hhash, hseq⟩ := nextEntry_spec hnext
  subst hhead
  refine ⟨?_, ?_, ?_, ?_, ?_⟩
  · intro e' he'
    rcases List.mem_append.mp he' with he' | he'
    · exact h.community e' he'
    · rw [List.mem_singleton.mp he', hid, hcommunity]
  · intro i e' he'
    rw [List.getElem?_append] at he'
    split_ifs at he' with hi
    · exact h.seq i e' he'
    · obtain ⟨hlast, rfl⟩ : i = es.length ∧ e' = e := by
        rw [List.getElem?_singleton] at he'
        split_ifs at he' with hzero
        exact ⟨by omega, (Option.some.inj he').symm⟩
      rw [hseq, h.seq_getLast?, hlast]
  · intro e' he'
    cases es with
    | nil =>
      cases he'
      exact hprev
    | cons e'' es => exact h.first e' he'
  · refine List.isChain_append.mpr ⟨h.links, .singleton e, ?_⟩
    intro a ha b hb
    cases hb
    rw [Links, hprev, Option.mem_def.mp ha]
    rfl
  · intro e' he'
    rcases List.mem_append.mp he' with he' | he'
    · exact h.hashed e' he'
    · rw [List.mem_singleton.mp he']
      exact hhash

theorem filter_insertRow {table table' : List AuditRow} {row : AuditRow}
    (h : insertRow table row = some table') (community : Uuid) :
    (table'.filter fun r => r.communityId = community) =
      (table.filter fun r => r.communityId = community) ++
        if row.communityId = community then [row] else [] := by
  rw [insertRow] at h
  split_ifs at h with hany
  rw [← Option.some.inj h, List.filter_append, List.filter_singleton]
  split_ifs <;> simp_all

variable (sha256) in
/-- The invariant of interleaved appends: every community's rows are a chain, and an append under
way has read its end. -/
structure Sound (w : World) : Prop where
  chain : ∀ community, ∃ es, ChainOf sha256 community es ∧
    (w.table.filter fun row => row.communityId = community) = es.map AuditEntry.toRow
  pending : ∀ community entry head, w.pending community = some (entry, head) →
    entry.communityId = community ∧ head = chainHead w.table community

theorem sound_initial : Sound sha256 World.initial :=
  ⟨fun _ => ⟨[], chainOf_nil, rfl⟩, fun _ _ _ h => nomatch h⟩

theorem Sound.setPending {w : World} (h : Sound sha256 w) {community : Uuid}
    {append : Option (NewAuditEntry × Option AuditRow)}
    (happend : ∀ entry head, append = some (entry, head) →
      entry.communityId = community ∧ head = chainHead w.table community) :
    Sound sha256 (w.setPending community append) := by
  refine ⟨h.chain, ?_⟩
  intro community' entry head hpending
  by_cases hsame : community' = community
  · subst hsame
    rw [pending_setPending_self] at hpending
    exact happend entry head hpending
  · rw [pending_setPending_of_ne w append hsame] at hpending
    exact h.pending community' entry head hpending

/-- The insert of one community leaves the others as they are. -/
theorem chainHead_insertRow {table table' : List AuditRow} {row : AuditRow} {community : Uuid}
    (h : insertRow table row = some table') (hne : row.communityId ≠ community) :
    chainHead table' community = chainHead table community := by
  rw [chainHead, chainHead, filter_insertRow h, if_neg hne, List.append_nil]

/-- A step keeps the invariant. -/
theorem Sound.step {w w' : World} (h : Sound sha256 w) (hstep : Step sha256 w w') :
    Sound sha256 w' := by
  cases hstep with
  | start entry hlock =>
    refine h.setPending fun entry' head hentry => ?_
    cases hentry
    exact ⟨rfl, rfl⟩
  | fail community => exact h.setPending fun _ _ hnone => nomatch hnone
  | @finish community entry head e table now hpending hnext hinsert =>
    obtain ⟨hentry, hhead⟩ := h.pending community entry head hpending
    have hid : e.toRow.communityId = community := (nextEntry_spec hnext).1.trans hentry
    refine ⟨fun community' => ?_, fun community' entry' head' hpending' => ?_⟩
    · obtain ⟨es, hes, htable⟩ := h.chain community'
      by_cases hsame : community = community'
      · subst hsame
        refine ⟨es ++ [e], hes.append (hhead.trans (hes.chainHead htable)) hentry hnext, ?_⟩
        rw [filter_insertRow hinsert, if_pos hid, htable, List.map_append, List.map_singleton]
      · refine ⟨es, hes, ?_⟩
        rw [filter_insertRow hinsert, if_neg (fun heq => hsame (hid.symm.trans heq)),
          List.append_nil, htable]
    · change (w.setPending community none).pending community' = _ at hpending'
      have hne : community' ≠ community := by
        rintro rfl
        rw [pending_setPending_self] at hpending'
        cases hpending'
      rw [pending_setPending_of_ne w none hne] at hpending'
      obtain ⟨hentry', hhead'⟩ := h.pending community' entry' head' hpending'
      refine ⟨hentry', hhead'.trans (chainHead_insertRow hinsert ?_).symm⟩
      rw [hid]
      exact hne.symm

/-- Every run keeps the invariant. -/
theorem Sound.run {w : World} (hrun : ReflTransGen (Step sha256) World.initial w) :
    Sound sha256 w := by
  induction hrun with
  | refl => exact sound_initial
  | tail _ hstep ih => exact ih.step hstep

/-! ### Tampering -/

/-- What any table satisfies, tampered with or not: the primary key of `audit_log`. -/
def PrimaryKey (table : List AuditRow) : Prop :=
  table.Pairwise fun r s => ¬ (r.communityId = s.communityId ∧ r.seq = s.seq)

variable (sha256) in
/-- No row of a table collides with a written entry. -/
def CollisionFree (es : List AuditEntry) (table : List AuditRow) : Prop :=
  ∀ e ∈ es, ∀ e' : AuditEntry, e'.toRow ∈ table →
    computeHash sha256 e = computeHash sha256 e' → preimage e = preimage e'

/-- The rows found in a table have increasing numbers in the range asked for. -/
theorem chainRows_spec {table : List AuditRow} (hkey : PrimaryKey table)
    (community : Uuid) (fromSeq toSeq : Int64) :
    (chainRows table community fromSeq toSeq).Pairwise (fun r s => r.seq.toInt < s.seq.toInt) ∧
      ∀ row ∈ chainRows table community fromSeq toSeq,
        row ∈ table ∧ fromSeq.toInt ≤ row.seq.toInt := by
  have hmem : ∀ row ∈ chainRows table community fromSeq toSeq,
      row ∈ table ∧ row.communityId = community ∧ fromSeq.toInt ≤ row.seq.toInt := by
    intro row hrow
    have hfilter := (sortByKey_perm _ _).mem_iff.mp hrow
    simp only [List.mem_filter, decide_eq_true_eq] at hfilter
    exact ⟨hfilter.1, hfilter.2.1, hfilter.2.2.1⟩
  refine ⟨?_, fun row hrow => ⟨(hmem row hrow).1, (hmem row hrow).2.2⟩⟩
  have hdistinct : (chainRows table community fromSeq toSeq).Pairwise fun r s =>
      ¬ (r.communityId = s.communityId ∧ r.seq = s.seq) := by
    refine List.Pairwise.perm (hkey.filter _) (sortByKey_perm _ _).symm ?_
    exact fun hrs hsr => hrs ⟨hsr.1.symm, hsr.2.symm⟩
  refine ((sortByKey_pairwise _ _).and hdistinct).imp_of_mem ?_
  intro r s hr hs hboth
  refine lt_of_le_of_ne hboth.1 fun hseq => hboth.2 ⟨?_, Int64.toInt_inj.mp hseq⟩
  rw [(hmem r hr).2.1, (hmem s hs).2.1]

/-- Entries that hash the same bytes agree on the hash before, when it has a fixed length. -/
theorem prevHash_eq_of_preimage_eq {a b : AuditEntry} (h : preimage a = preimage b)
    (hlength : (a.prevHash.getD genesisHash).length = (b.prevHash.getD genesisHash).length) :
    a.prevHash.getD genesisHash = b.prevHash.getD genesisHash := by
  have hopen : openFields a = openFields b := (head_eq_of_preimage_eq h).2.2.2.2
  rw [openFields, openFields, ← List.append_assoc, ← List.append_assoc, ← List.append_assoc,
    ← List.append_assoc] at hopen
  exact (List.append_inj' hopen hlength).2

/-- Entries that verify and end with a hash that was written hash the same bytes as a stretch of the
chain. -/
theorem stretch_of_verified (hlength : ∀ message, (sha256 message).length = 32)
    (h : ChainOf sha256 community es) {es' : List AuditEntry}
    (hhashed : ∀ e ∈ es', Hashed sha256 e) (hchain : es'.IsChain Links)
    (hsorted : es'.Pairwise fun a b => a.seq.toInt < b.seq.toInt)
    (hpos : ∀ e ∈ es', 1 ≤ e.seq.toInt)
    (hfree : ∀ e ∈ es, ∀ e' ∈ es',
      computeHash sha256 e = computeHash sha256 e' → preimage e = preimage e')
    {i : ℕ} {e last : AuditEntry} (he : es[i]? = some e) (hlast : es'.getLast? = some last)
    (hhash : e.hash = last.hash) :
    es'.map preimage <:+ (es.take (i + 1)).map preimage := by
  -- From the last entry backwards: equal hashes, so equal bytes, so equal hashes before.
  induction es' using List.reverseRecOn generalizing i e last with
  | nil => cases hlast
  | append_singleton es' e' ih =>
    obtain rfl : e' = last := by simpa using hlast
    have hmem : e ∈ es := List.mem_of_getElem? he
    have hmem' : e' ∈ es' ++ [e'] := List.mem_append_right _ (List.mem_singleton_self e')
    have hbytes : preimage e = preimage e' := by
      refine hfree e hmem e' hmem' ?_
      rw [h.hashed e hmem, hhashed e' hmem', hhash]
    have htake : (es.take (i + 1)).map preimage = (es.take i).map preimage ++ [preimage e'] := by
      rw [List.take_add_one, he, List.map_append, Option.toList_some, List.map_singleton, hbytes]
    rw [htake, List.map_append, List.map_singleton]
    refine List.suffix_append_self_iff.mpr ?_
    rcases es'.eq_nil_or_concat with rfl | ⟨older, p, rfl⟩
    · exact List.nil_suffix
    · rw [List.concat_eq_append] at *
      have hp : p ∈ older ++ [p] ++ [e'] := by simp
      have hpast : Links p e' := by
        rw [List.append_assoc] at hchain
        exact List.isChain_pair.mp hchain.right_of_append
      have hseq : p.seq.toInt < e'.seq.toInt :=
        (List.pairwise_append.mp hsorted).2.2 p (by simp) e' (by simp)
      cases i with
      | zero =>
        -- The entry is the first one, and nothing before it has a number in the range.
        have hone : e.seq.toInt = 1 := by simpa using h.seq 0 e he
        rw [← (head_eq_of_preimage_eq hbytes).2.1] at hseq
        have := hpos p hp
        omega
      | succ k =>
        obtain ⟨q, hq⟩ : ∃ q, es[k]? = some q := by
          obtain ⟨hlt, -⟩ := List.getElem?_eq_some_iff.mp he
          exact ⟨es[k], List.getElem?_eq_getElem (by omega)⟩
        have hlink : Links q e := h.link hq he
        refine ih (fun x hx => hhashed x (List.mem_append_left _ hx)) hchain.left_of_append
          (List.pairwise_append.mp hsorted).1 (fun x hx => hpos x (List.mem_append_left _ hx))
          (fun x hx y hy => hfree x hx y (List.mem_append_left _ hy)) hq List.getLast?_concat ?_
        have hprev := prevHash_eq_of_preimage_eq hbytes (by
          rw [hlink, hpast, Option.getD_some, Option.getD_some,
            ← h.hashed q (List.mem_of_getElem? hq), ← hhashed p hp, computeHash, computeHash,
            hlength, hlength])
        rwa [hlink, hpast] at hprev

/-- What is found in a table that was tampered with, when it verifies and ends with a hash that was
written. -/
theorem ChainOf.stretch (hlength : ∀ message, (sha256 message).length = 32)
    (h : ChainOf sha256 community es) {table : List AuditRow} (hkey : PrimaryKey table)
    (hfree : CollisionFree sha256 es table) {toSeq : Int64}
    (hlast : ∀ last, (Audit.chainRows table community 1 toSeq).getLast? = some last →
      ∃ e ∈ es, e.hash = last.hash)
    (hok : Audit.verifyChain sha256 table community 1 toSeq = .ok true) :
    ∃ es' : List AuditEntry, Audit.chainRows table community 1 toSeq = es'.map AuditEntry.toRow ∧
      es'.map preimage <:+: es.map preimage := by
  obtain ⟨es', hne, hrows, hhashed, hchain⟩ := verifyChain_eq_ok_true_iff.mp hok
  obtain ⟨hsorted, hmem⟩ := chainRows_spec hkey community 1 toSeq
  rw [hrows] at hsorted hmem hlast
  refine ⟨es', hrows, ?_⟩
  have hrow : ∀ e' ∈ es', e'.toRow ∈ table ∧ 1 ≤ e'.seq.toInt :=
    fun e' he' => hmem e'.toRow (List.mem_map_of_mem he')
  obtain ⟨last, hlast'⟩ := Option.isSome_iff_exists.mp (List.getLast?_isSome.mpr hne)
  obtain ⟨e, he, hhash⟩ := hlast last.toRow (by rw [List.getLast?_map, hlast']; rfl)
  obtain ⟨i, hi⟩ := List.mem_iff_getElem?.mp he
  rw [List.pairwise_map] at hsorted
  have hsuffix := stretch_of_verified hlength h hhashed hchain hsorted
    (fun e' he' => (hrow e' he').2) (fun x hx y hy => hfree x hx y (hrow y hy).1) hi hlast' hhash
  exact hsuffix.isInfix.trans ((List.take_prefix (i + 1) es).map preimage).isInfix

/-! ### A chain of two entries -/

/-- An entry of one community at one moment. -/
def sampleEntry (seq : Int64) (objectId : List Char) (detail : Value)
    (prevHash : Option (List UInt8)) (hash : List UInt8) : AuditEntry where
  communityId := 1
  seq
  hash
  prevHash
  action := .eventCreated
  actorPubkey := none
  objectId := some objectId
  detail
  createdAt :=
    { year := 2026, month := 1, day := 2, hour := 3, minute := 4, second := 5, nanosecond := 0
      month_le := by decide, day_le := by decide, hour_lt := by decide, minute_lt := by decide
      second_le := by decide, nanosecond_lt := by decide }

/-- A whole number as a detail. -/
def intDetail (n : ℤ) : Value := ⟨.int n, trivial⟩

/-- The hash of `firstEntry`. -/
def firstHash : List UInt8 :=
  [36, 236, 42, 140, 179, 120, 57, 76, 143, 141, 175, 200, 244, 200, 95, 149, 70, 61, 60, 71, 187,
    28, 204, 81, 122, 195, 239, 77, 11, 218, 212, 48]

/-- The hash of `secondEntry`. -/
def secondHash : List UInt8 :=
  [9, 84, 29, 216, 136, 246, 36, 88, 227, 33, 80, 79, 50, 78, 236, 158, 203, 49, 219, 33, 170, 14,
    19, 224, 49, 74, 25, 181, 32, 43, 32, 142]

/-- The hash of `editedEntry`. -/
def editedHash : List UInt8 :=
  [243, 243, 176, 190, 169, 195, 206, 42, 108, 195, 1, 231, 178, 214, 241, 134, 226, 5, 212, 113,
    240, 76, 26, 16, 119, 208, 250, 227, 128, 51, 111, 245]

/-- The first entry of a chain. -/
def firstEntry : AuditEntry := sampleEntry 1 "a1".toList (intDetail 2) none firstHash

/-- The first entry with a digit moved from its object to its detail. -/
def shiftedEntry : AuditEntry := sampleEntry 1 "a".toList (intDetail 12) none firstHash

/-- The second entry of a chain. -/
def secondEntry : AuditEntry :=
  sampleEntry 2 "b".toList ⟨.null, trivial⟩ (some firstHash) secondHash

/-- The second entry with another object and the hash of its fields. -/
def editedEntry : AuditEntry :=
  sampleEntry 2 "c".toList ⟨.null, trivial⟩ (some firstHash) editedHash

/-- SHA-256 at the three entries. -/
def sampleSha256 (message : List UInt8) : List UInt8 :=
  if message = preimage firstEntry then firstHash
  else if message = preimage secondEntry then secondHash
  else if message = preimage editedEntry then editedHash
  else genesisHash

theorem length_sampleSha256 (message : List UInt8) : (sampleSha256 message).length = 32 := by
  rw [sampleSha256]
  split_ifs <;> rfl

theorem hashed_firstEntry : Hashed sampleSha256 firstEntry := by
  rw [Hashed, computeHash, sampleSha256, if_pos rfl]
  rfl

theorem hashed_secondEntry : Hashed sampleSha256 secondEntry := by
  have hne : preimage secondEntry ≠ preimage firstEntry :=
    fun h => absurd (head_eq_of_preimage_eq h).2.1 (by decide)
  rw [Hashed, computeHash, sampleSha256, if_neg hne, if_pos rfl]
  rfl

theorem sameFraming_secondEntry_editedEntry : SameFraming secondEntry editedEntry :=
  ⟨rfl, rfl, rfl, by simp [secondEntry, editedEntry, sampleEntry]⟩

theorem not_sameFields_secondEntry_editedEntry : ¬ SameFields secondEntry editedEntry :=
  fun h => absurd h.objectId (by decide)

theorem hashed_editedEntry : Hashed sampleSha256 editedEntry := by
  have hne : preimage editedEntry ≠ preimage firstEntry :=
    fun h => absurd (head_eq_of_preimage_eq h).2.1 (by decide)
  have hne' : preimage editedEntry ≠ preimage secondEntry := fun h =>
    not_sameFields_secondEntry_editedEntry (sameFraming_secondEntry_editedEntry.sameFields h.symm)
  rw [Hashed, computeHash, sampleSha256, if_neg hne, if_neg hne', if_pos rfl]
  rfl

/-- The input that an entry is written for. -/
def AuditEntry.input (e : AuditEntry) : NewAuditEntry :=
  ⟨e.communityId, e.action, e.actorPubkey, e.objectId, e.detail⟩

theorem nextEntry_firstEntry :
    nextEntry sampleSha256 none firstEntry.input firstEntry.createdAt = some firstEntry := by
  have hnext : nextEntry sampleSha256 none firstEntry.input firstEntry.createdAt =
      some { firstEntry with hash := computeHash sampleSha256 firstEntry } := rfl
  rw [hnext, hashed_firstEntry]

theorem nextEntry_secondEntry :
    nextEntry sampleSha256 (some firstEntry.toRow) secondEntry.input secondEntry.createdAt =
      some secondEntry := by
  have hnext : nextEntry sampleSha256 (some firstEntry.toRow) secondEntry.input
      secondEntry.createdAt =
        some { secondEntry with hash := computeHash sampleSha256 secondEntry } := rfl
  rw [hnext, hashed_secondEntry]

/-- The two entries are written by a run. -/
theorem run_sample : ∃ w, ReflTransGen (Step sampleSha256) World.initial w ∧
    w.table = [firstEntry.toRow, secondEntry.toRow] := by
  refine ⟨_, .tail (.tail (.tail (.tail .refl
    (.start firstEntry.input rfl))
    (.finish firstEntry.createdAt (pending_setPending_self ..) nextEntry_firstEntry rfl))
    (.start secondEntry.input rfl))
    (.finish secondEntry.createdAt (pending_setPending_self ..) nextEntry_secondEntry rfl), rfl⟩

/-! ### Main results -/

/-- Two entries with one hash agree on every hashed field exactly when they are framed alike: equal
lengths of the fields without a fixed end, and optional fields present alike. A row whose fields
were altered within that framing is reported, when the rows before it verify. -/
theorem computeHash_binds_iff {a b : AuditEntry}
    (hfree : sha256 (preimage a) = sha256 (preimage b) → preimage a = preimage b) :
    (computeHash sha256 a = computeHash sha256 b → (SameFields a b ↔ SameFraming a b)) ∧
      ∀ (table : List AuditRow) (community : Uuid) (fromSeq toSeq : Int64) (es : List AuditEntry)
        (rows : List AuditRow), Hashed sha256 a → (∀ e ∈ es, Hashed sha256 e) →
        (es ++ [a]).IsChain Links → b.hash = a.hash →
        chainRows table community fromSeq toSeq = es.map AuditEntry.toRow ++ b.toRow :: rows →
        SameFraming a b → ¬ SameFields a b →
        verifyChain sha256 table community fromSeq toSeq =
          .error (if es ≠ [] ∧ b.prevHash ≠ a.prevHash then .chainViolation b.seq
            else .hashMismatch b.seq) := by
  refine ⟨fun hhash => sameFields_iff_sameFraming (hfree hhash), ?_⟩
  intro table community fromSeq toSeq es rows ha hhashed hchain hkept hrows hframing hne
  refine verifyChain_eq_error hrows hhashed hchain fun hb => hne (hframing.sameFields (hfree ?_))
  calc computeHash sha256 a = a.hash := ha
    _ = b.hash := hkept.symm
    _ = computeHash sha256 b := hb.symm

/-- The second entry of a chain, edited under its old hash. -/
theorem computeHash_binds_secondEntry :
    verifyChain sampleSha256
      [firstEntry.toRow, { editedEntry with hash := secondHash }.toRow] 1 1 2 =
        .error (.hashMismatch 2) := by
  have hne : ¬ (sampleSha256 (preimage secondEntry) = sampleSha256 (preimage editedEntry)) := by
    intro h
    have hboth : secondHash = editedHash :=
      hashed_secondEntry.symm.trans (h.trans hashed_editedEntry)
    exact absurd hboth (by decide)
  have hrows : chainRows [firstEntry.toRow, { editedEntry with hash := secondHash }.toRow] 1 1 2 =
      [firstEntry].map AuditEntry.toRow ++
        { editedEntry with hash := secondHash }.toRow :: [] := rfl
  have hbinds := (computeHash_binds_iff (a := secondEntry)
    (b := { editedEntry with hash := secondHash }) (fun h => absurd h hne)).2
  refine hbinds _ 1 1 2 [firstEntry] [] hashed_secondEntry ?_ ?_ rfl hrows
    ⟨rfl, rfl, rfl, by simp [secondEntry, editedEntry, sampleEntry]⟩
    (fun h => not_sameFields_secondEntry_editedEntry ⟨h.1, h.2, h.3, h.4, h.5, h.6, h.7, h.8⟩)
  · exact fun e he => List.mem_singleton.mp he ▸ hashed_firstEntry
  · exact List.isChain_pair.mpr rfl

/-- A digit moved from the object of an entry to its detail: the bytes are the same, and the altered
row verifies under the old hash. -/
theorem computeHash_misses_shift :
    preimage firstEntry = preimage shiftedEntry ∧ ¬ SameFields firstEntry shiftedEntry ∧
      verifyChain sampleSha256 [firstEntry.toRow] 1 1 1 = .ok true ∧
      verifyChain sampleSha256 [shiftedEntry.toRow] 1 1 1 = .ok true := by
  have hbytes : preimage firstEntry = preimage shiftedEntry := rfl
  have hshifted : Hashed sampleSha256 shiftedEntry :=
    (congrArg sampleSha256 hbytes).symm.trans hashed_firstEntry
  refine ⟨hbytes, fun h => absurd h.objectId (by decide), ?_, ?_⟩
  · refine verifyChain_eq_ok_true_iff.mpr ⟨[firstEntry], by simp, rfl, ?_, .singleton _⟩
    exact fun e he => List.mem_singleton.mp he ▸ hashed_firstEntry
  · refine verifyChain_eq_ok_true_iff.mpr ⟨[shiftedEntry], by simp, rfl, ?_, .singleton _⟩
    exact fun e he => List.mem_singleton.mp he ▸ hshifted

/-- In every run of interleaved appends, every community's rows are numbered from one, each linked
to the one before it, and every range that holds one of them verifies. Whatever is done to the
table, rows from the first number on that verify and end with a hash that was written hash the same
bytes as a stretch of the chain: nothing was removed, reordered or edited between its ends. -/
theorem audit_chains_verify (hlength : ∀ message, (sha256 message).length = 32) {w : World}
    (hrun : ReflTransGen (Step sha256) World.initial w) (community : Uuid) :
    ∃ es : List AuditEntry,
      (w.table.filter fun row => row.communityId = community) = es.map AuditEntry.toRow ∧
      (∀ (i : ℕ) (e : AuditEntry), es[i]? = some e → e.seq.toInt = i + 1) ∧
      (∀ e, es.head? = some e → e.prevHash = none) ∧ es.IsChain Links ∧
      (∀ (fromSeq toSeq : Int64),
        (∃ e ∈ es, fromSeq.toInt ≤ e.seq.toInt ∧ e.seq.toInt ≤ toSeq.toInt) →
          verifyChain sha256 w.table community fromSeq toSeq = .ok true) ∧
      ∀ (table : List AuditRow) (toSeq : Int64), PrimaryKey table → CollisionFree sha256 es table →
        (∀ last, (chainRows table community 1 toSeq).getLast? = some last →
          ∃ e ∈ es, e.hash = last.hash) →
        verifyChain sha256 table community 1 toSeq = .ok true →
        ∃ es' : List AuditEntry, chainRows table community 1 toSeq = es'.map AuditEntry.toRow ∧
          es'.map preimage <:+: es.map preimage := by
  obtain ⟨es, hes, htable⟩ := (Sound.run hrun).chain community
  refine ⟨es, htable, hes.seq, hes.first, hes.links, ?_, ?_⟩
  · rintro fromSeq toSeq ⟨e, he, hfrom, hto⟩
    exact hes.verifyChain htable he hfrom hto
  · intro table toSeq hkey hfree hlast hok
    exact hes.stretch hlength hkey hfree hlast hok

/-- The chain of two entries, whole. -/
theorem audit_chains_verify_sample : ∃ w, ReflTransGen (Step sampleSha256) World.initial w ∧
    w.table = [firstEntry.toRow, secondEntry.toRow] ∧
    verifyChain sampleSha256 w.table 1 1 2 = .ok true := by
  obtain ⟨w, hrun, htable⟩ := run_sample
  obtain ⟨es, hes, -, -, -, hverify, -⟩ := audit_chains_verify length_sampleSha256 hrun 1
  refine ⟨w, hrun, htable, hverify 1 2 ⟨firstEntry, ?_, by decide, by decide⟩⟩
  have hrow : firstEntry.toRow ∈ es.map AuditEntry.toRow := by
    rw [← hes, htable]
    exact List.mem_filter.mpr ⟨List.mem_cons_self, rfl⟩
  obtain ⟨e, he, heq⟩ := List.mem_map.mp hrow
  have hread := rowToAuditEntry_toRow e
  rw [heq, rowToAuditEntry_toRow] at hread
  exact Except.ok.inj hread ▸ he

/-- Of the chain of two entries the last may be deleted, the first may be deleted, or the last
edited with its own hash: the whole range still verifies. -/
theorem tampered_ends_verify :
    (∃ w, ReflTransGen (Step sampleSha256) World.initial w ∧
      w.table = [firstEntry.toRow, secondEntry.toRow]) ∧
    verifyChain sampleSha256 [firstEntry.toRow] 1 1 2 = .ok true ∧
    verifyChain sampleSha256 [secondEntry.toRow] 1 1 2 = .ok true ∧
    verifyChain sampleSha256 [firstEntry.toRow, editedEntry.toRow] 1 1 2 = .ok true := by
  refine ⟨run_sample, ?_, ?_, ?_⟩
  · refine verifyChain_eq_ok_true_iff.mpr ⟨[firstEntry], by simp, rfl, ?_, .singleton _⟩
    exact fun e he => List.mem_singleton.mp he ▸ hashed_firstEntry
  · refine verifyChain_eq_ok_true_iff.mpr ⟨[secondEntry], by simp, rfl, ?_, .singleton _⟩
    exact fun e he => List.mem_singleton.mp he ▸ hashed_secondEntry
  · refine verifyChain_eq_ok_true_iff.mpr
      ⟨[firstEntry, editedEntry], by simp, rfl, ?_, List.isChain_pair.mpr rfl⟩
    rintro e he
    rcases List.mem_pair.mp he with rfl | rfl
    · exact hashed_firstEntry
    · exact hashed_editedEntry

end Buzz.Audit
