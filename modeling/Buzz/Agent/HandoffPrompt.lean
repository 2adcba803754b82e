import Buzz.Agent.Handoff
import Buzz.Library.Numerals

/-!
# What a handoff prompt shows of the history

The loop of `build_handoff_prompt` goes through the history from the newest item on. An item that
does not fit is skipped, and an older one may still be kept; only if nothing is kept yet, it is
clamped, and counted as omitted. The line with the number of omitted items is not paid for.

## Main definitions

* `snippetBytes`, `omittedLine`, `fixedBytes`: what is measured of a prompt.
* `kept`: the items that the loop keeps once there are some.
* `RecentExcerpt`: the newest items, in order, within the budget.
* `Spares`: nothing is skipped, or the line is paid for and nothing older than it fits.

## Main results

* `foldl_add_of_fits`, `foldl_add_of_clamped`: the loop, if the newest item fits and if not.
* `recent_excerpt_iff`: when a prompt shows the newest items within its budget.
-/

namespace Buzz.Agent

open Library

/-! ### Measures -/

/-- The bytes of the snippets of items. -/
def snippetBytes (items : List HistoryItem) : ℕ :=
  (items.map fun item => len (historySnippet item)).sum

/-- The line with the number of omitted items. -/
def omittedLine (omitted : ℕ) : List Char :=
  if 0 < omitted then
    "(… ".toList ++ Nat.toDigits 10 omitted ++ " older items omitted)\n".toList
  else []

/-- The bytes of a prompt without anything of the history. -/
def fixedBytes (s : Session) (tools : List (List Char)) : ℕ :=
  len (handoffHead s tools) + len handoffHistoryHeader + len handoffTail

/-- A prompt is no longer than its budget, or than its frame, and shows the newest items, in order:
all, or as many as fit, or what fits of the newest one. It says how many are left out. -/
def RecentExcerpt (s : Session) (tools : List (List Char)) (budget : ℕ) (prompt : List Char) :
    Prop :=
  len prompt ≤ max budget (fixedBytes s tools) ∧
    ∃ older recent shown, s.history = older ++ recent ∧
      prompt = handoffHead s tools ++ handoffHistoryHeader ++ omittedLine older.length ++ shown ++
        handoffTail ∧
      (shown = recent.flatMap historySnippet ∨
        ∃ newest, recent = [newest] ∧
          budget - fixedBytes s tools < len (historySnippet newest) ∧
          shown = clampBytes (historySnippet newest) (budget - fixedBytes s tools)) ∧
      ∀ before next, older = before ++ [next] →
        budget - fixedBytes s tools < len shown + len (historySnippet next)

/-- All items fit into the room, or the newest ones fit with the line that says how many are
omitted, and none of the others fits besides them. -/
def Spares (room : ℕ) (history : List HistoryItem) : Prop :=
  snippetBytes history ≤ room ∨
    ∃ older recent, history = older ++ recent ∧ older ≠ [] ∧ recent ≠ [] ∧
      (∀ item ∈ older, room < snippetBytes recent + len (historySnippet item)) ∧
      snippetBytes recent + len (omittedLine older.length) ≤ room

theorem len_append (text text' : List Char) : len (text ++ text') = len text + len text' := by
  rw [len, utf8_append, List.length_append]
  rfl

theorem len_cons (c : Char) (text : List Char) : len (c :: text) = c.utf8Size + len text := by
  rw [len, utf8, List.flatMap_cons, List.length_append, String.length_utf8EncodeChar]
  rfl

theorem len_historySnippet_pos (item : HistoryItem) : 0 < len (historySnippet item) := by
  have hne : historySnippet item ≠ [] := by
    cases item <;> exact List.append_ne_nil_of_right_ne_nil _ (List.cons_ne_nil _ _)
  exact (List.length_pos_iff.mpr hne).trans_le (length_le_length_utf8 _)

theorem len_flatMap_historySnippet (items : List HistoryItem) :
    len (items.flatMap historySnippet) = snippetBytes items := by
  induction items with
  | nil => rfl
  | cons item items ih =>
    rw [List.flatMap_cons, len_append, ih]
    rfl

@[simp] theorem snippetBytes_cons (item : HistoryItem) (items : List HistoryItem) :
    snippetBytes (item :: items) = len (historySnippet item) + snippetBytes items := rfl

theorem snippetBytes_append (items items' : List HistoryItem) :
    snippetBytes (items ++ items') = snippetBytes items + snippetBytes items' := by
  simp [snippetBytes]

theorem snippetBytes_reverse (items : List HistoryItem) :
    snippetBytes items.reverse = snippetBytes items := by
  simp [snippetBytes]

/-- The text of a snippet is clamped by a few bytes more than it has to be. -/
theorem le_len_takeBytes {text : List Char} {n : ℕ} (h : n < len text) :
    n ≤ len (takeBytes n text) + 3 := by
  induction text generalizing n with
  | nil => exact absurd h (Nat.not_lt_zero n)
  | cons c text ih =>
    have hsize : c.utf8Size ≤ 4 := c.utf8Size_le_four
    rw [len_cons] at h
    rw [takeBytes]
    split_ifs with hfits
    · have hrest := @ih (n - c.utf8Size) (by omega)
      rw [len_cons]
      omega
    · omega

theorem le_len_clampBytes {text : List Char} {n : ℕ} (h : n < len text) :
    n ≤ len (clampBytes text n) + 3 := by
  have hellipsis : len "…".toList = 3 := by decide
  rw [clampBytes, if_neg (by omega)]
  split_ifs with hsmall
  · exact le_len_takeBytes h
  · have htake := @le_len_takeBytes text (n - 3) (by omega)
    rw [hellipsis, len_append, hellipsis]
    omega

theorem lt_len_omittedLine {omitted : ℕ} (h : 0 < omitted) : 3 < len (omittedLine omitted) := by
  rw [omittedLine, if_pos h, len_append, len_append]
  have hend : 3 < len " older items omitted)\n".toList := by decide
  omega

/-- The number and what comes after the line are read off it. -/
theorem omittedLine_append_inj {m n : ℕ} (hm : 0 < m) (hn : 0 < n) {text text' : List Char}
    (h : omittedLine m ++ text = omittedLine n ++ text') : m = n ∧ text = text' := by
  have hdigit {k : ℕ} {c : Char} (hc : c ∈ Nat.toDigits 10 k) : c ≠ ' ' := by
    rintro rfl
    exact absurd (Nat.isDigit_of_mem_toDigits (by omega) (by omega) hc) (by decide)
  have hspace : " older items omitted)\n".toList = ' ' :: "older items omitted)\n".toList := rfl
  rw [omittedLine, omittedLine, if_pos hm, if_pos hn, hspace] at h
  simp only [List.append_assoc, List.cons_append] at h
  obtain ⟨hdigits, -, hrest⟩ := append_cons_inj_of_not (· ≠ ' ') (fun _ => hdigit)
    (fun _ => hdigit) (by simp) (by simp) (List.append_cancel_left h)
  exact ⟨toDigits_injective hdigits, List.append_cancel_left hrest⟩

/-! ### The loop -/

/-- The items that are kept, from the newest on: those that fit in the room that is left. -/
def kept : ℕ → List HistoryItem → List HistoryItem
  | _, [] => []
  | room, item :: items =>
    if len (historySnippet item) ≤ room then
      item :: kept (room - len (historySnippet item)) items
    else kept room items

theorem length_kept_le (room : ℕ) (items : List HistoryItem) :
    (kept room items).length ≤ items.length := by
  induction items generalizing room with
  | nil => exact le_rfl
  | cons item items ih =>
    rw [kept]
    split_ifs
    · exact Nat.succ_le_succ (ih _)
    · exact (ih room).trans (Nat.le_succ _)

/-- Items that fit are kept, and then those that fit besides them. -/
theorem kept_append {room : ℕ} {items : List HistoryItem} (h : snippetBytes items ≤ room)
    (others : List HistoryItem) :
    kept room (items ++ others) = items ++ kept (room - snippetBytes items) others := by
  induction items generalizing room with
  | nil => rfl
  | cons item items ih =>
    rw [snippetBytes_cons] at h
    rw [List.cons_append, kept, if_pos (by omega), ih (by omega), snippetBytes_cons, Nat.sub_sub,
      List.cons_append]

theorem kept_eq_nil_iff {room : ℕ} {items : List HistoryItem} :
    kept room items = [] ↔ ∀ item ∈ items, room < len (historySnippet item) := by
  induction items with
  | nil => simp [kept]
  | cons item items ih =>
    rw [kept, List.forall_mem_cons]
    split_ifs with hfits
    · simp [not_lt.mpr hfits]
    · rw [ih, and_iff_right (by omega)]

/-- The newest items fit, and the next one does not. -/
theorem exists_append {room : ℕ} (items : List HistoryItem) :
    ∃ fitting others, items = fitting ++ others ∧ snippetBytes fitting ≤ room ∧
      ∀ next ∈ others.head?, room < snippetBytes fitting + len (historySnippet next) := by
  induction items generalizing room with
  | nil => exact ⟨[], [], rfl, Nat.zero_le room, nofun⟩
  | cons item items ih =>
    by_cases hfits : len (historySnippet item) ≤ room
    · obtain ⟨fitting, others, rfl, hle, hnext⟩ := @ih (room - len (historySnippet item))
      refine ⟨item :: fitting, others, rfl, ?_, fun next hmem => ?_⟩
      · rw [snippetBytes_cons]
        omega
      · have hlt := hnext next hmem
        rw [snippetBytes_cons]
        omega
    · refine ⟨[], item :: items, rfl, Nat.zero_le room, fun next hmem => ?_⟩
      obtain rfl := Option.some.inj hmem
      rw [snippetBytes, List.map_nil, List.sum_nil]
      omega

variable {room : ℕ} {acc : Snippets} {item : HistoryItem} {items : List HistoryItem}

theorem add_of_fits (h : acc.bytes + len (historySnippet item) ≤ room) :
    acc.add room item = ⟨historySnippet item :: acc.kept,
      acc.bytes + len (historySnippet item), acc.dropped⟩ :=
  if_neg (not_lt.mpr (satAdd_le_add.trans h))

theorem lt_satAdd (hroom : room < u64Max) {bytes bytes' : ℕ} (h : room < bytes + bytes') :
    room < satAdd u64Max bytes bytes' := lt_min h hroom

theorem add_of_skipped (hroom : room < u64Max)
    (h : room < acc.bytes + len (historySnippet item)) (hkept : acc.kept ≠ []) :
    acc.add room item = ⟨acc.kept, acc.bytes, acc.dropped + 1⟩ := by
  rw [Snippets.add, if_pos (lt_satAdd hroom h), List.isEmpty_eq_false_iff.mpr hkept,
    if_neg Bool.false_ne_true]

/-- The loop, once there is a snippet. -/
theorem foldl_add (hroom : room < u64Max) (hbytes : acc.bytes ≤ room) (hkept : acc.kept ≠ []) :
    items.foldl (Snippets.add room) acc =
      ⟨((kept (room - acc.bytes) items).map historySnippet).reverse ++ acc.kept,
        acc.bytes + snippetBytes (kept (room - acc.bytes) items),
        acc.dropped + (items.length - (kept (room - acc.bytes) items).length)⟩ := by
  induction items generalizing acc with
  | nil => simp [kept, snippetBytes]
  | cons item items ih =>
    rw [List.foldl_cons, kept]
    split_ifs with hfits
    · rw [add_of_fits (by omega), ih (by simp only; omega) (List.cons_ne_nil _ _)]
      simp only [Nat.sub_sub, List.map_cons, List.reverse_cons, List.append_assoc,
        List.singleton_append, snippetBytes_cons, List.length_cons, Nat.add_sub_add_right,
        Nat.add_assoc]
    · have hle := length_kept_le (room - acc.bytes) items
      rw [add_of_skipped hroom (by omega) hkept,
        @ih ⟨acc.kept, acc.bytes, acc.dropped + 1⟩ hbytes hkept]
      simp only [List.length_cons, Snippets.mk.injEq, true_and]
      omega

/-- The loop, if the newest item fits. -/
theorem foldl_add_of_fits (hroom : room < u64Max) (hfits : len (historySnippet item) ≤ room) :
    (item :: items).foldl (Snippets.add room) ⟨[], 0, 0⟩ =
      ⟨((kept room (item :: items)).map historySnippet).reverse,
        snippetBytes (kept room (item :: items)),
        (item :: items).length - (kept room (item :: items)).length⟩ := by
  have hfirst : Snippets.add room ⟨[], 0, 0⟩ item =
      ⟨[historySnippet item], len (historySnippet item), 0⟩ := by
    rw [add_of_fits (by simpa using hfits)]
    simp
  rw [List.foldl_cons, hfirst, foldl_add hroom hfits (List.cons_ne_nil _ _), kept, if_pos hfits]
  simp

/-- The loop, if the newest item does not fit: nothing else does. -/
theorem foldl_add_of_clamped (hroom : room < u64Max)
    (hlarge : room < len (historySnippet item)) :
    (item :: items).foldl (Snippets.add room) ⟨[], 0, 0⟩ =
      ⟨[clampBytes (historySnippet item) room], room, items.length + 1⟩ := by
  have hfirst : Snippets.add room ⟨[], 0, 0⟩ item =
      ⟨[clampBytes (historySnippet item) room], room, 1⟩ :=
    (if_pos (lt_satAdd hroom (by simpa using hlarge))).trans (if_pos rfl)
  have hnone : kept 0 items = [] :=
    kept_eq_nil_iff.mpr fun item _ => len_historySnippet_pos item
  rw [List.foldl_cons, hfirst, foldl_add hroom le_rfl (List.cons_ne_nil _ _), Nat.sub_self, hnone]
  simp [snippetBytes, Nat.add_comm]

/-! ### The prompt -/

variable (cfg : Config) (s : Session) (tools : List (List Char)) (budget : ℕ)

/-- What the loop makes of the history of a session. -/
def shownSnippets : Snippets :=
  s.history.reverse.foldl (Snippets.add (budget - fixedBytes s tools)) ⟨[], 0, 0⟩

theorem buildHandoffPrompt_eq :
    buildHandoffPrompt cfg s tools (some budget) =
      handoffHead s tools ++ handoffHistoryHeader ++
        omittedLine (shownSnippets s tools budget).dropped ++
        (shownSnippets s tools budget).kept.flatten ++ handoffTail := rfl

theorem len_prompt (line shown : List Char) :
    len (handoffHead s tools ++ handoffHistoryHeader ++ line ++ shown ++ handoffTail) =
      fixedBytes s tools + len line + len shown := by
  simp only [len_append, fixedBytes]
  omega

theorem lt_u64Max (hbudget : budget ≤ u64Max) : budget - fixedBytes s tools < u64Max := by
  have hheader : 0 < len handoffHistoryHeader := by decide
  have hmax : 0 < u64Max := by decide
  rw [fixedBytes]
  omega

variable {cfg s tools budget}

/-- What is shown after the newest items that fit: those of the older ones that fit besides them. -/
theorem shownSnippets_eq (hroom : budget - fixedBytes s tools < u64Max)
    {older recent : List HistoryItem} (hhistory : s.history = older ++ recent)
    (hrecent : recent ≠ []) (hfits : snippetBytes recent ≤ budget - fixedBytes s tools) :
    let others := kept (budget - fixedBytes s tools - snippetBytes recent) older.reverse
    (shownSnippets s tools budget).kept.flatten =
        (others.reverse ++ recent).flatMap historySnippet ∧
      (shownSnippets s tools budget).dropped = older.length - others.length := by
  intro others
  obtain ⟨newest, rest, hreverse⟩ :=
    List.exists_cons_of_ne_nil (List.reverse_ne_nil_iff.mpr hrecent)
  have hbytes : snippetBytes (newest :: rest) = snippetBytes recent := by
    rw [← hreverse, snippetBytes_reverse]
  have hitems : s.history.reverse = newest :: (rest ++ older.reverse) := by
    rw [hhistory, List.reverse_append, hreverse, List.cons_append]
  have hkept : kept (budget - fixedBytes s tools) (newest :: (rest ++ older.reverse)) =
      recent.reverse ++ others := by
    rw [← List.cons_append, kept_append (hbytes.le.trans hfits), hbytes, hreverse]
  have hnewest : len (historySnippet newest) ≤ budget - fixedBytes s tools := by
    rw [snippetBytes_cons] at hbytes
    omega
  rw [shownSnippets, hitems, foldl_add_of_fits hroom hnewest, hkept, ← hitems]
  refine ⟨?_, ?_⟩
  · rw [← List.map_reverse, ← List.flatMap_def, List.reverse_append, List.reverse_reverse]
  · simp only [List.length_reverse, hhistory, List.length_append]
    omega

/-- If everything fits, or the line is paid for and nothing else fits, the newest items are
shown. -/
theorem recentExcerpt_of_spares (hbudget : budget ≤ u64Max)
    (h : Spares (budget - fixedBytes s tools) s.history) :
    RecentExcerpt s tools budget (buildHandoffPrompt cfg s tools (some budget)) := by
  have hroom := lt_u64Max s tools budget hbudget
  rw [buildHandoffPrompt_eq, RecentExcerpt, len_prompt]
  rcases h with hall | ⟨older, recent, hhistory, holder, hrecent, hlarge, hpaid⟩
  · have hkept : (shownSnippets s tools budget).kept.flatten = s.history.flatMap historySnippet ∧
        (shownSnippets s tools budget).dropped = 0 := by
      rcases eq_or_ne s.history [] with hnil | hne
      · rw [shownSnippets, hnil]
        exact ⟨rfl, rfl⟩
      · exact shownSnippets_eq hroom (List.nil_append s.history).symm hne hall
    have hline : len (omittedLine 0) = 0 := by decide
    rw [hkept.1, hkept.2, len_flatMap_historySnippet, hline]
    refine ⟨by omega, [], s.history, _, rfl, rfl, .inl rfl, fun before next hnil => ?_⟩
    exact absurd hnil.symm (List.append_ne_nil_of_right_ne_nil _ (List.cons_ne_nil _ _))
  · have hnone : kept (budget - fixedBytes s tools - snippetBytes recent) older.reverse = [] := by
      refine kept_eq_nil_iff.mpr fun item hitem => ?_
      have hlt := hlarge item (List.mem_reverse.mp hitem)
      omega
    have hkept := shownSnippets_eq hroom hhistory hrecent (by omega)
    simp only [hnone, List.reverse_nil, List.nil_append, List.length_nil, Nat.sub_zero] at hkept
    rw [hkept.1, hkept.2, len_flatMap_historySnippet]
    refine ⟨by omega, older, recent, _, hhistory, rfl, .inl rfl, fun before next hnext => ?_⟩
    rw [len_flatMap_historySnippet]
    exact hlarge next (by rw [hnext]; simp)

/-- A clamped snippet leaves no room for the line. -/
theorem not_recentExcerpt_of_clamped (hbudget : budget ≤ u64Max) {older : List HistoryItem}
    {newest : HistoryItem} (hhistory : s.history = older ++ [newest])
    (hlarge : budget - fixedBytes s tools < len (historySnippet newest)) :
    ¬ RecentExcerpt s tools budget (buildHandoffPrompt cfg s tools (some budget)) := by
  have hroom := lt_u64Max s tools budget hbudget
  rintro ⟨hlength, -⟩
  have hclamp := le_len_clampBytes hlarge
  have hline := lt_len_omittedLine (Nat.succ_pos older.reverse.length)
  rw [buildHandoffPrompt_eq, len_prompt, shownSnippets, hhistory, List.reverse_append,
    List.reverse_singleton, List.singleton_append, foldl_add_of_clamped hroom hlarge,
    List.flatten_singleton] at hlength
  simp only [Nat.succ_eq_add_one] at hline hlength
  omega

theorem len_le_snippetBytes {items : List HistoryItem} {item : HistoryItem} (h : item ∈ items) :
    len (historySnippet item) ≤ snippetBytes items := by
  obtain ⟨before, after, rfl⟩ := List.append_of_mem h
  rw [snippetBytes_append, snippetBytes_cons]
  omega

theorem mem_of_append_eq {α : Type*} {l l' before : List α} {a : α} (h : l' ≠ [])
    (heq : l ++ l' = before ++ [a]) : a ∈ l' := by
  have hlast := congrArg List.getLast? heq
  rw [List.getLast?_append_of_ne_nil l h, List.getLast?_concat] at hlast
  exact List.mem_of_getLast? hlast

/-- If the newest items are shown, nothing is kept besides those that fit up to the first that does
not, and the line is paid for. -/
theorem kept_eq_nil_of_recentExcerpt (hbudget : budget ≤ u64Max)
    {before recent : List HistoryItem} {next : HistoryItem}
    (hhistory : s.history = before ++ [next] ++ recent) (hrecent : recent ≠ [])
    (hfits : snippetBytes recent ≤ budget - fixedBytes s tools)
    (hlarge : budget - fixedBytes s tools < snippetBytes recent + len (historySnippet next))
    (h : RecentExcerpt s tools budget (buildHandoffPrompt cfg s tools (some budget))) :
    kept (budget - fixedBytes s tools - snippetBytes recent) (before ++ [next]).reverse = [] ∧
      snippetBytes recent + len (omittedLine (before ++ [next]).length) ≤
        budget - fixedBytes s tools := by
  have hroom := lt_u64Max s tools budget hbudget
  obtain ⟨hkept, hdropped⟩ := shownSnippets_eq hroom hhistory hrecent hfits
  generalize hothers : kept (budget - fixedBytes s tools - snippetBytes recent)
    (before ++ [next]).reverse = others at hkept hdropped ⊢
  obtain ⟨hlength, older', recent', shown, hhistory', htext, hshown, -⟩ := h
  rw [buildHandoffPrompt_eq] at hlength htext
  rw [len_prompt, hkept, hdropped, len_flatMap_historySnippet, snippetBytes_append,
    snippetBytes_reverse] at hlength
  have hpos : 0 < (before ++ [next]).length - others.length := by
    have hskipped : others = kept (budget - fixedBytes s tools - snippetBytes recent)
        before.reverse := by
      rw [← hothers, List.reverse_append, List.reverse_singleton, List.singleton_append, kept,
        if_neg (by omega)]
    have hle : others.length ≤ before.reverse.length := hskipped ▸ length_kept_le _ _
    rw [List.length_reverse] at hle
    rw [List.length_append, List.length_singleton]
    omega
  have hline := lt_len_omittedLine hpos
  have hpaid : len (omittedLine ((before ++ [next]).length - others.length)) +
      (snippetBytes others + snippetBytes recent) ≤ budget - fixedBytes s tools := by
    omega
  have hsection : omittedLine ((before ++ [next]).length - others.length) ++
      (others.reverse ++ recent).flatMap historySnippet = omittedLine older'.length ++ shown := by
    rw [hkept, hdropped] at htext
    have hcancel := List.append_cancel_right htext
    rw [List.append_assoc, List.append_assoc _ (omittedLine older'.length)] at hcancel
    exact List.append_cancel_left hcancel
  rcases hshown with rfl | ⟨newest, rfl, hclamped, -⟩
  · rcases Nat.eq_zero_or_pos older'.length with hzero | hpos'
    · -- all of the history would be shown
      obtain rfl := List.length_eq_zero_iff.mp hzero
      have hlen := congrArg len hsection
      have hall : snippetBytes recent' =
          snippetBytes (before ++ [next]) + snippetBytes recent := by
        rw [← snippetBytes_append, ← hhistory, hhistory', List.nil_append]
      have hmem := len_le_snippetBytes (List.mem_append_right before (List.mem_singleton_self next))
      rw [len_append, len_append, len_flatMap_historySnippet, len_flatMap_historySnippet,
        snippetBytes_append, snippetBytes_reverse] at hlen
      omega
    · obtain ⟨hcount, htexts⟩ := omittedLine_append_inj hpos hpos' hsection
      have hlen := congrArg len htexts
      rw [len_flatMap_historySnippet, len_flatMap_historySnippet, snippetBytes_append,
        snippetBytes_reverse] at hlen
      have hnil : others = [] := by
        rw [← List.length_eq_zero_iff]
        rcases List.append_eq_append_iff.mp (hhistory.symm.trans hhistory') with
          ⟨more, holder, -⟩ | ⟨more, holder, hrecent'⟩
        · have hlonger := congrArg List.length holder
          rw [List.length_append] at hlonger
          omega
        · rcases eq_or_ne more [] with rfl | hmore
          · rw [List.append_nil] at holder
            rw [holder] at hcount hpos
            omega
          · -- the suffix would have the item that does not fit
            have hmem : next ∈ more := mem_of_append_eq hmore holder.symm
            have hle := len_le_snippetBytes hmem
            rw [hrecent', snippetBytes_append] at hlen
            omega
      refine ⟨hnil, ?_⟩
      simp only [hnil, List.length_nil, Nat.sub_zero] at hpaid
      omega
  · -- the newest item fits
    have hle := len_le_snippetBytes (mem_of_append_eq hrecent (hhistory.symm.trans hhistory'))
    omega

theorem spares_of_recentExcerpt (hbudget : budget ≤ u64Max)
    (h : RecentExcerpt s tools budget (buildHandoffPrompt cfg s tools (some budget))) :
    Spares (budget - fixedBytes s tools) s.history := by
  obtain ⟨fitting, others, hreverse, hfits, hnext⟩ :=
    @exists_append (budget - fixedBytes s tools) s.history.reverse
  have hhistory : s.history = others.reverse ++ fitting.reverse := by
    rw [← List.reverse_append, ← hreverse, List.reverse_reverse]
  cases others with
  | nil =>
    refine .inl ?_
    rw [hhistory, List.reverse_nil, List.nil_append, snippetBytes_reverse]
    exact hfits
  | cons next others =>
    have hlarge := hnext next rfl
    rw [List.reverse_cons] at hhistory
    rcases eq_or_ne fitting [] with rfl | hfitting
    · rw [List.reverse_nil, List.append_nil] at hhistory
      rw [snippetBytes, List.map_nil, List.sum_nil, Nat.zero_add] at hlarge
      exact absurd h (not_recentExcerpt_of_clamped hbudget hhistory hlarge)
    · rw [← snippetBytes_reverse] at hfits hlarge
      have hrecent : fitting.reverse ≠ [] := List.reverse_ne_nil_iff.mpr hfitting
      obtain ⟨hnone, hpaid⟩ :=
        kept_eq_nil_of_recentExcerpt hbudget hhistory hrecent hfits hlarge h
      refine .inr ⟨others.reverse ++ [next], fitting.reverse, hhistory, by simp, hrecent,
        fun item hitem => ?_, hpaid⟩
      have hlt := kept_eq_nil_iff.mp hnone item (List.mem_reverse.mpr hitem)
      omega

/-- **A recent excerpt.** The prompt for a budget shows the newest items, in order, within that
budget, if and only if everything fits, or the line that says how many are omitted is paid for and
nothing is kept that is older than an item that does not fit. -/
theorem recent_excerpt_iff (cfg : Config) (s : Session) (tools : List (List Char)) (budget : ℕ)
    (hbudget : budget ≤ u64Max) :
    RecentExcerpt s tools budget (buildHandoffPrompt cfg s tools (some budget)) ↔
      Spares (budget - fixedBytes s tools) s.history :=
  ⟨spares_of_recentExcerpt hbudget, recentExcerpt_of_spares hbudget⟩

/-- Of three items, the second is long. -/
def gapSession : Session :=
  { Session.new with
    history := [.user "old".toList, .user (List.replicate 100 'x'), .user "new".toList] }

def gapConfig : Config where
  provider := .anthropic
  maxRounds := 0
  maxTokenRecoveries := 3
  toolTimeoutSecs := 660
  maxHistoryBytes := 16 * 1024 * 1024
  maxContextTokens := 200000
  maxHandoffs := 10
  stopMaxRejections := 3
  requireReply := false

theorem fixedBytes_gapSession : fixedBytes gapSession [] = 335 := by
  have htail : len handoffTail = 208 := (len_toList _).trans (by decide +kernel)
  have hheader : len handoffHistoryHeader = 34 := (len_toList _).trans (by decide +kernel)
  have hhead : len (handoffHead gapSession []) = 93 := by decide +kernel
  rw [fixedBytes, htail, hheader, hhead]

theorem recent_excerpt_fitting :
    RecentExcerpt gapSession [] 465 (buildHandoffPrompt gapConfig gapSession [] (some 465)) := by
  refine (recent_excerpt_iff gapConfig gapSession [] 465 (by decide)).mpr (.inl ?_)
  rw [fixedBytes_gapSession]
  decide

/-- The long item is skipped, and the one before it is shown. -/
theorem shown_past_gap :
    ¬ RecentExcerpt gapSession [] 395
      (buildHandoffPrompt gapConfig gapSession [] (some 395)) := by
  intro h
  have hspares := spares_of_recentExcerpt (by decide) h
  rw [fixedBytes_gapSession] at hspares
  rcases hspares with hall | ⟨older, recent, hhistory, holder, hrecent, hlarge, hpaid⟩
  · exact absurd hall (by decide)
  · obtain ⟨item, older, rfl⟩ := List.exists_cons_of_ne_nil holder
    obtain ⟨rfl, hrest⟩ := List.cons.inj hhistory
    have hold := hlarge _ List.mem_cons_self
    cases older with
    | nil =>
      obtain rfl := hrest
      exact absurd hpaid (by decide)
    | cons item' older =>
      obtain ⟨rfl, hlast⟩ := List.cons.inj hrest
      cases older with
      | nil =>
        obtain rfl := hlast
        exact absurd hold (by decide)
      | cons item'' older =>
        obtain ⟨-, hnil⟩ := List.cons.inj hlast
        exact hrecent (List.append_eq_nil_iff.mp hnil.symm).2

end Buzz.Agent
