import Buzz.Desktop.Terminal.Damage

/-!
# The columns of clusters

A span has one column for the run of its clusters: the others are counted from it by the rule of the
wire, `wire_publication` of `src/terminal_runtime.rs`. Spacers are skipped while a row is grouped,
and a run is not ended by them.

## Main definitions

* `Span.countsAreConsistent`, `wireSpan`: the spans that are sent, with their clusters.
* `cluster`, `shown`: what is to be shown of a row.
* `InStep`: every cell that joins a run stands right after the one before it.

## Main results

* `flatMap_styled_spans`: where the rule of the wire puts the clusters of a row.
* `countsAreConsistent_spans`: the assertion of `spans` does not fail.
* `true_columns_iff`: a row is shown at its columns if and only if it is in step.
* `inStep_of_paired`: a row whose spacers follow their wide characters is in step.
-/

namespace Buzz.Desktop.Terminal

/-! ### The rule of the wire -/

structure WireCluster where
  column : ℕ
  text : List Char
  width : ℕ
  deriving DecidableEq, Repr

structure WireSpan where
  style : Style
  clusters : List WireCluster
  deriving DecidableEq, Repr

/-- The decoding invariant of a span. -/
def Span.countsAreConsistent (span : Span) : Bool :=
  span.clusterCount == 1 || span.clusterCount == span.text.length

/-- The clusters of a span. -/
def Span.clusters (span : Span) : List WireCluster :=
  if span.clusterCount = 1 then [⟨span.column, span.text, span.width⟩]
  else span.text.zipIdx.map fun p => ⟨span.column + p.2 * span.width, [p.1], span.width⟩

/-- A span of `wire_publication`. -/
def wireSpan (span : Span) : Except String WireSpan :=
  if !span.countsAreConsistent then .error "terminal engine emitted an inconsistent cluster count"
  else .ok ⟨span.style, span.clusters⟩

/-- The clusters of a span, each with its style. -/
def WireSpan.styled (span : WireSpan) : List (Style × WireCluster) :=
  span.clusters.map fun cluster => (span.style, cluster)

/-! ### What is to be shown -/

def widthOf (cell : Cell) : ℕ := if cell.flags.wideChar then 2 else 1

/-- The cells that are no spacers, each with its column. -/
def shown (cells : List Cell) : List (Cell × ℕ) :=
  cells.zipIdx.filter fun p => !p.1.flags.wideCharSpacer

/-- A cell as a cluster at a column, with its style. -/
def cluster (cell : Cell) (column : ℕ) : Style × WireCluster :=
  (styleOf cell, ⟨column, cell.c :: cell.zerowidth.getD [], widthOf cell⟩)

/-- A cell may be of one run with the cell that is shown before it. -/
structure Joins (before cell : Cell) : Prop where
  before_alone : before.zerowidth = none
  alone : cell.zerowidth = none
  style : styleOf before = styleOf cell
  width : widthOf before = widthOf cell

instance (before cell : Cell) : Decidable (Joins before cell) :=
  decidable_of_iff (before.zerowidth = none ∧ cell.zerowidth = none ∧
      styleOf before = styleOf cell ∧ widthOf before = widthOf cell)
    ⟨fun h => ⟨h.1, h.2.1, h.2.2.1, h.2.2.2⟩, fun h => ⟨h.1, h.2, h.3, h.4⟩⟩

/-- After a run of some cells that ends with a cell at a column, every cell that joins a run stands
right after the one before it. -/
def InStepFrom : ℕ → Cell → ℕ → List (Cell × ℕ) → Prop
  | _, _, _, [] => True
  | count, before, column, (cell, own) :: rest =>
    if Joins before cell ∧ count < u16Max then
      own = column + widthOf before ∧ InStepFrom (count + 1) cell own rest
    else InStepFrom 1 cell own rest

/-- Every cell that joins a run stands right after the one that is shown before it. -/
def InStep : List (Cell × ℕ) → Prop
  | [] => True
  | (cell, own) :: rest => InStepFrom 1 cell own rest

/-! ### Where clusters are put -/

/-- Where the rule of the wire puts cells, after a run that ends at a column. -/
def placedFrom : ℕ → Cell → ℕ → List (Cell × ℕ) → List (Style × WireCluster)
  | _, _, _, [] => []
  | count, before, column, (cell, own) :: rest =>
    if Joins before cell ∧ count < u16Max then
      cluster cell (column + widthOf before) ::
        placedFrom (count + 1) cell (column + widthOf before) rest
    else cluster cell own :: placedFrom 1 cell own rest

/-- Where the rule of the wire puts cells. -/
def placed : List (Cell × ℕ) → List (Style × WireCluster)
  | [] => []
  | (cell, own) :: rest => cluster cell own :: placedFrom 1 cell own rest

theorem placedFrom_eq_iff {cells : List (Cell × ℕ)} {count column : ℕ} {before : Cell} :
    placedFrom count before column cells = cells.map (fun p => cluster p.1 p.2) ↔
      InStepFrom count before column cells := by
  induction cells generalizing count before column with
  | nil => simp [placedFrom, InStepFrom]
  | cons p rest ih =>
    obtain ⟨cell, own⟩ := p
    rw [placedFrom, InStepFrom, List.map_cons]
    split_ifs with hjoins
    · rw [List.cons.injEq]
      constructor
      · rintro ⟨hhead, htail⟩
        have hown : column + widthOf before = own := congrArg (fun c => c.2.column) hhead
        rw [hown] at htail
        exact ⟨hown.symm, ih.mp htail⟩
      · rintro ⟨rfl, htail⟩
        exact ⟨rfl, ih.mpr htail⟩
    · rw [List.cons.injEq, and_iff_right rfl]
      exact ih

theorem placed_eq_iff {cells : List (Cell × ℕ)} :
    placed cells = cells.map (fun p => cluster p.1 p.2) ↔ InStep cells := by
  cases cells with
  | nil => simp [placed, InStep]
  | cons p rest =>
    rw [placed, InStep, List.map_cons, List.cons.injEq, and_iff_right rfl]
    exact placedFrom_eq_iff

/-! ### The loop -/

/-- A span of one cell. -/
def Span.of (cell : Cell) (column : ℕ) : Span :=
  ⟨column, cell.c :: cell.zerowidth.getD [], widthOf cell, 1, styleOf cell⟩

/-- A span with one more cell. -/
def Span.push (span : Span) (cell : Cell) : Span :=
  { span with text := span.text ++ [cell.c], clusterCount := span.clusterCount + 1 }

/-- The last span of a row ends with a cell, which is put at a column. -/
structure Span.Ends (last : Span) (count : ℕ) (before : Cell) (column : ℕ) : Prop where
  style : last.style = styleOf before
  width : last.width = widthOf before
  clusterCount : last.clusterCount = count + 1
  length : before.zerowidth = none → last.text.length = count + 1
  alone : before.zerowidth ≠ none → count = 0
  column : last.column + count * last.width = column

def Span.styled (span : Span) : List (Style × WireCluster) :=
  span.clusters.map fun cluster => (span.style, cluster)

theorem Span.ends_of (cell : Cell) (column : ℕ) : (Span.of cell column).Ends 0 cell column where
  style := rfl
  width := rfl
  clusterCount := rfl
  length h := by simp [Span.of, h]
  alone _ := rfl
  column := by simp [Span.of]

theorem Span.styled_of (cell : Cell) (column : ℕ) :
    (Span.of cell column).styled = [cluster cell column] := rfl

/-- A span with one character for each cluster. -/
theorem Span.clusters_eq {span : Span} (h : span.clusterCount = span.text.length) :
    span.clusters =
      span.text.zipIdx.map fun p => ⟨span.column + p.2 * span.width, [p.1], span.width⟩ := by
  rw [Span.clusters]
  split_ifs with hone
  · obtain ⟨c, hc⟩ := List.length_eq_one_iff.mp (h.symm.trans hone)
    simp [hc]
  · rfl

variable {last : Span} {count column own : ℕ} {before cell : Cell}

theorem Span.Ends.push (h : last.Ends count before column) (hjoins : Joins before cell) :
    (last.push cell).Ends (count + 1) cell (column + widthOf before) where
  style := h.style.trans hjoins.style
  width := h.width.trans hjoins.width
  clusterCount := congrArg (· + 1) h.clusterCount
  length _ := by simp [Span.push, h.length hjoins.before_alone]
  alone hne := absurd hjoins.alone hne
  column := by
    have hcolumn := h.column
    rw [h.width] at hcolumn
    simp only [Span.push, h.width]
    rw [← hcolumn, Nat.add_one_mul, Nat.add_assoc]

theorem Span.Ends.styled_push (h : last.Ends count before column) (hjoins : Joins before cell) :
    (last.push cell).styled = last.styled ++ [cluster cell (column + widthOf before)] := by
  have hlength := h.length hjoins.before_alone
  have hcolumn : last.column + (count + 1) * widthOf cell = column + widthOf cell := by
    rw [← hjoins.width, ← h.width]
    exact (h.push hjoins).column.trans (by rw [h.width])
  have hpush : (last.push cell).clusterCount = (last.push cell).text.length := by
    simp [Span.push, h.clusterCount, hlength]
  rw [Span.styled, Span.styled, Span.clusters_eq hpush,
    Span.clusters_eq (h.clusterCount.trans hlength.symm)]
  simp [Span.push, List.zipIdx_append, hlength, hcolumn, cluster, hjoins.alone, h.style, h.width,
    hjoins.style, hjoins.width]

/-- What the loop does with a cell after spans. -/
theorem pushCell_concat (closed : List Span) (h : last.Ends count before column)
    (hspacer : cell.flags.wideCharSpacer = false) :
    pushCell (closed ++ [last], before.zerowidth.isNone) (cell, own) =
      (if Joins before cell ∧ count + 1 < u16Max then closed ++ [last.push cell]
        else closed ++ [last] ++ [Span.of cell own], cell.zerowidth.isNone) := by
  have hjoins : (before.zerowidth.isNone && cell.zerowidth.isNone && last.style = styleOf cell &&
      last.width = widthOf cell && last.clusterCount < u16Max) = true ↔
      Joins before cell ∧ count + 1 < u16Max := by
    simp only [Bool.and_eq_true, Option.isNone_iff_eq_none, decide_eq_true_eq, h.style, h.width,
      h.clusterCount]
    exact ⟨fun h => ⟨⟨h.1.1.1.1, h.1.1.1.2, h.1.1.2, h.1.2⟩, h.2⟩,
      fun h => ⟨⟨⟨⟨h.1.before_alone, h.1.alone⟩, h.1.style⟩, h.1.width⟩, h.2⟩⟩
  simp only [pushCell, hspacer, Bool.false_eq_true, if_false, List.getLast?_concat]
  by_cases hcond : Joins before cell ∧ count + 1 < u16Max
  · have hcond' := hjoins.mpr hcond
    rw [if_pos hcond]
    rw [widthOf] at hcond'
    rw [if_pos hcond', List.dropLast_concat, Span.push, hcond.1.alone]
    rfl
  · have hcond' := fun h => hcond (hjoins.mp h)
    rw [if_neg hcond]
    rw [widthOf] at hcond'
    rw [if_neg hcond']
    rfl

theorem pushCell_nil (cell : Cell) (own : ℕ) (hspacer : cell.flags.wideCharSpacer = false) :
    pushCell ([], false) (cell, own) = ([Span.of cell own], cell.zerowidth.isNone) := by
  simp only [pushCell, hspacer, Bool.false_eq_true, if_false, List.getLast?_nil]
  rfl

/-- The loop puts the cells where the rule of the wire says, after spans. -/
theorem flatMap_foldl_pushCell (cells : List (Cell × ℕ))
    (hspacers : ∀ p ∈ cells, p.1.flags.wideCharSpacer = false) (closed : List Span)
    (h : last.Ends count before column) :
    (cells.foldl pushCell (closed ++ [last], before.zerowidth.isNone)).1.flatMap Span.styled =
      (closed ++ [last]).flatMap Span.styled ++ placedFrom (count + 1) before column cells := by
  induction cells generalizing closed last count before column with
  | nil => simp [placedFrom]
  | cons p rest ih =>
    obtain ⟨cell, own⟩ := p
    rw [List.forall_mem_cons] at hspacers
    rw [List.foldl_cons, pushCell_concat closed h hspacers.1, placedFrom]
    split_ifs with hcond
    · rw [ih hspacers.2 closed (h.push hcond.1)]
      simp [h.styled_push hcond.1]
    · rw [ih hspacers.2 (closed ++ [last]) (Span.ends_of cell own)]
      simp [Span.styled_of]

/-- Spacers are skipped. -/
theorem foldl_pushCell_shown (cells : List (Cell × ℕ)) (acc : List Span × Bool) :
    cells.foldl pushCell acc =
      (cells.filter fun p => !p.1.flags.wideCharSpacer).foldl pushCell acc := by
  induction cells generalizing acc with
  | nil => rfl
  | cons p rest ih =>
    cases hspacer : p.1.flags.wideCharSpacer with
    | true =>
      have hskip : pushCell acc p = acc := by
        obtain ⟨cell, own⟩ := p
        simp only [pushCell]
        rw [if_pos hspacer]
      rw [List.foldl_cons, hskip, List.filter_cons_of_neg (by simp [hspacer]), ih]
    | false =>
      rw [List.filter_cons_of_pos (by simp [hspacer]), List.foldl_cons, List.foldl_cons, ih]

theorem forall_mem_shown (cells : List Cell) :
    ∀ p ∈ shown cells, p.1.flags.wideCharSpacer = false := by
  intro p hp
  simpa using (List.mem_filter.mp hp).2

/-- Where the rule of the wire puts the clusters of a row. -/
theorem flatMap_styled_spans (cells : List Cell) :
    (spans cells).flatMap Span.styled = placed (shown cells) := by
  have hspacers := forall_mem_shown cells
  rw [spans, foldl_pushCell_shown, ← shown]
  cases hcells : shown cells with
  | nil => rfl
  | cons p rest =>
    obtain ⟨cell, own⟩ := p
    rw [hcells, List.forall_mem_cons] at hspacers
    rw [List.foldl_cons, pushCell_nil cell own hspacers.1, placed]
    have hfoldl := flatMap_foldl_pushCell rest hspacers.2 [] (Span.ends_of cell own)
    rw [List.nil_append] at hfoldl
    rw [hfoldl]
    rfl

/-! ### Counts -/

theorem Span.Ends.countsAreConsistent (h : last.Ends count before column) :
    last.countsAreConsistent = true := by
  rw [Span.countsAreConsistent, Bool.or_eq_true, beq_iff_eq, beq_iff_eq, h.clusterCount]
  by_cases hmarks : before.zerowidth = none
  · exact .inr (h.length hmarks).symm
  · exact .inl (by rw [h.alone hmarks])

theorem forall_countsAreConsistent (cells : List (Cell × ℕ))
    (hspacers : ∀ p ∈ cells, p.1.flags.wideCharSpacer = false) {closed : List Span}
    (hclosed : ∀ span ∈ closed, span.countsAreConsistent = true)
    (h : last.Ends count before column) :
    ∀ span ∈ (cells.foldl pushCell (closed ++ [last], before.zerowidth.isNone)).1,
      span.countsAreConsistent = true := by
  induction cells generalizing closed last count before column with
  | nil =>
    exact List.forall_mem_append.mpr
      ⟨hclosed, List.forall_mem_singleton.mpr h.countsAreConsistent⟩
  | cons p rest ih =>
    obtain ⟨cell, own⟩ := p
    rw [List.forall_mem_cons] at hspacers
    rw [List.foldl_cons, pushCell_concat closed h hspacers.1]
    split_ifs with hcond
    · exact ih hspacers.2 hclosed (h.push hcond.1)
    · exact ih hspacers.2 (List.forall_mem_append.mpr
        ⟨hclosed, List.forall_mem_singleton.mpr h.countsAreConsistent⟩) (Span.ends_of cell own)

/-- The assertion of `spans` does not fail. -/
theorem countsAreConsistent_spans (cells : List Cell) :
    ∀ span ∈ spans cells, span.countsAreConsistent = true := by
  rw [spans, foldl_pushCell_shown, ← shown]
  cases hcells : shown cells with
  | nil => exact nofun
  | cons p rest =>
    obtain ⟨cell, own⟩ := p
    have hspacers := hcells ▸ forall_mem_shown cells
    rw [List.forall_mem_cons] at hspacers
    rw [List.foldl_cons, pushCell_nil cell own hspacers.1]
    exact @forall_countsAreConsistent _ _ _ _ rest hspacers.2 [] nofun (Span.ends_of cell own)

theorem mapM_wireSpan {row : List Span} (h : ∀ span ∈ row, span.countsAreConsistent = true) :
    row.mapM wireSpan = .ok (row.map fun span => ⟨span.style, span.clusters⟩) := by
  induction row with
  | nil => rfl
  | cons span row ih =>
    rw [List.forall_mem_cons] at h
    have hspan : wireSpan span = .ok ⟨span.style, span.clusters⟩ := by
      rw [wireSpan, h.1, Bool.not_true, if_neg Bool.false_ne_true]
    rw [List.mapM_cons, hspan, ih h.2]
    rfl

/-! ### True columns -/

/-- The assertion of `spans` holds, and what is sent of a row are its cells at their columns. -/
def TrueColumns (cells : List Cell) : Prop :=
  (∀ span ∈ spans cells, span.countsAreConsistent = true) ∧
    ∃ wire, (spans cells).mapM wireSpan = .ok wire ∧
      wire.flatMap WireSpan.styled = (shown cells).map fun p => cluster p.1 p.2

theorem trueColumns_iff_placed {cells : List Cell} :
    TrueColumns cells ↔ placed (shown cells) = (shown cells).map fun p => cluster p.1 p.2 := by
  have hconsistent := countsAreConsistent_spans cells
  have hstyled : ((spans cells).map fun span => WireSpan.mk span.style span.clusters).flatMap
      WireSpan.styled = placed (shown cells) := by
    rw [← flatMap_styled_spans, List.flatMap_map]
    rfl
  rw [TrueColumns, and_iff_right hconsistent, mapM_wireSpan hconsistent]
  constructor
  · rintro ⟨wire, hwire, hcells⟩
    obtain rfl := Except.ok.inj hwire
    rw [← hstyled, hcells]
  · intro h
    exact ⟨_, rfl, hstyled.trans h⟩

/-- **True columns.** A row is shown at its columns if and only if every cell that joins the run of
the cell shown before it stands right after that cell. -/
theorem true_columns_iff (cells : List Cell) : TrueColumns cells ↔ InStep (shown cells) :=
  trueColumns_iff_placed.trans placed_eq_iff

/-- A cell of the default colours. -/
def plainCell (c : Char) (wideCharSpacer : Bool) : Cell :=
  ⟨c, .named 256, .named 257, ⟨false, false, wideCharSpacer, false, 0⟩, none⟩

/-- Where the first half of a wide character has been erased, its spacer is left, and the character
after it is shown in the column of the spacer. -/
theorem shown_on_orphan :
    ¬ TrueColumns [plainCell ' ' false, plainCell ' ' true, plainCell 'a' false] := by
  rw [trueColumns_iff_placed]
  decide

/-! ### Rows whose wide characters are whole -/

/-- The spacers of a row are those that follow its wide characters. -/
inductive Paired : List Cell → Prop
  | nil : Paired []
  | narrow {cell : Cell} {rest : List Cell} (hspacer : cell.flags.wideCharSpacer = false)
      (hwide : cell.flags.wideChar = false) (hrest : Paired rest) : Paired (cell :: rest)
  | wide {cell spacer : Cell} {rest : List Cell} (hspacer : cell.flags.wideCharSpacer = false)
      (hwide : cell.flags.wideChar = true) (hspacer' : spacer.flags.wideCharSpacer = true)
      (hrest : Paired rest) : Paired (cell :: spacer :: rest)

theorem inStepFrom_of_paired {cells : List Cell} (h : Paired cells) (count own : ℕ)
    (hown : count < u16Max → own = column + widthOf before) :
    InStepFrom count before column
      ((cells.zipIdx own).filter fun p => !p.1.flags.wideCharSpacer) := by
  induction h generalizing count before column own with
  | nil => trivial
  | @narrow cell rest hspacer hwide hrest ih =>
    have hwidth : widthOf cell = 1 := by rw [widthOf, hwide, if_neg Bool.false_ne_true]
    rw [List.zipIdx_cons, List.filter_cons_of_pos (by simp [hspacer]), InStepFrom]
    split_ifs with hcond
    · exact ⟨hown hcond.2, ih _ _ fun _ => by rw [hwidth]⟩
    · exact ih _ _ fun _ => by rw [hwidth]
  | @wide cell spacer rest hspacer hwide hspacer' hrest ih =>
    have hwidth : widthOf cell = 2 := by rw [widthOf, hwide, if_pos rfl]
    rw [List.zipIdx_cons, List.zipIdx_cons, List.filter_cons_of_pos (by simp [hspacer]),
      List.filter_cons_of_neg (by simp [hspacer']), InStepFrom]
    split_ifs with hcond
    · exact ⟨hown hcond.2, ih _ _ fun _ => by rw [hwidth]⟩
    · exact ih _ _ fun _ => by rw [hwidth]

/-- A row whose spacers follow its wide characters is in step. -/
theorem inStep_of_paired {cells : List Cell} (h : Paired cells) : InStep (shown cells) := by
  -- no cell joins a run that is full, so that the row may follow one
  have hfull (row : List (Cell × ℕ)) :
      InStepFrom u16Max (plainCell ' ' false) 0 row → InStep row := by
    cases row with
    | nil => exact fun _ => trivial
    | cons p rest =>
      rw [InStepFrom, if_neg fun hcond => Nat.lt_irrefl _ hcond.2]
      exact id
  exact hfull _ (inStepFrom_of_paired h u16Max 0 fun hlt => absurd hlt (Nat.lt_irrefl _))

end Buzz.Desktop.Terminal
