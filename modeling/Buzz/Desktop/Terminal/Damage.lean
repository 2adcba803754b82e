import Mathlib.Data.List.GetD
import Mathlib.Data.Int.Notation
import Mathlib.Data.Nat.Notation
import Mathlib.Tactic.Common

/-!
# Frames

`buzz-terminal/src/damage.rs`: rows copied out of the grid, and the encoder that suppresses those
whose hash it remembers. The grid of `alacritty_terminal` is its lines, its cursor and its display
offset; the hash of a row is a parameter.

## Main definitions

* `Cell`, `Grid`, `SharedTerminal`, `capture`, `captureAll`.
* `spans`, `RowHash`, `Encoder.encode`.
* `Screen`: what a renderer holds, with `Screen.apply`.

## Main results

* `Encoder.emitted_or_remembered`: what a frame has of the rows captured.
* `Screen.apply_eq_screen`: a renderer that applies a frame of the grid shows it, when the rows that
  the frame leaves out are shown.
-/

namespace Buzz.Desktop.Terminal

/-! ### Cells and spans -/

/-- Which grid a frame refers to. -/
structure Viewport where
  generation : ℕ
  columns : ℕ
  screenLines : ℕ
  deriving DecidableEq, Repr

inductive Color
  | named (named : ℕ)
  | indexed (index : ℕ)
  | spec (r g b : ℕ)
  deriving DecidableEq, Repr

/-- The flags of a cell: the four of `GEOMETRY_FLAGS`, and the bits of the others. -/
structure Flags where
  wrapline : Bool
  wideChar : Bool
  wideCharSpacer : Bool
  leadingWideCharSpacer : Bool
  appearance : ℕ
  deriving DecidableEq, Repr

structure Cell where
  c : Char
  fg : Color
  bg : Color
  flags : Flags
  zerowidth : Option (List Char)
  deriving DecidableEq, Repr

structure Style where
  fg : ℕ
  bg : ℕ
  flags : ℕ
  deriving DecidableEq, Repr

/-- A run of cells sharing one visual style and one cell width. -/
structure Span where
  column : ℕ
  text : List Char
  width : ℕ
  clusterCount : ℕ
  style : Style
  deriving DecidableEq, Repr

def packColor : Color → ℕ
  | .named named => 0x01000000 ||| named
  | .indexed index => 0x02000000 ||| index
  | .spec r g b => 0x03000000 ||| r <<< 16 ||| g <<< 8 ||| b

def styleOf (cell : Cell) : Style :=
  ⟨packColor cell.fg, packColor cell.bg, cell.flags.appearance⟩

def u16Max : ℕ := 65535

/-- The body of the loop of `spans`: the spans so far, and whether the last may be extended. -/
def pushCell (acc : List Span × Bool) (at_ : Cell × ℕ) : List Span × Bool :=
  let (cell, column) := at_
  if cell.flags.wideCharSpacer then acc
  else
    let style := styleOf cell
    let width := if cell.flags.wideChar then 2 else 1
    let text := cell.c :: cell.zerowidth.getD []
    let joinable := cell.zerowidth.isNone
    let fresh := (acc.1 ++ [⟨column, text, width, 1, style⟩], joinable)
    match acc.1.getLast? with
    | some last =>
      if acc.2 && joinable && last.style = style && last.width = width &&
          last.clusterCount < u16Max then
        (acc.1.dropLast ++
          [{ last with text := last.text ++ text, clusterCount := last.clusterCount + 1 }],
          joinable)
      else fresh
    | none => fresh

/-- `spans`, without the assertion at its end. -/
def spans (cells : List Cell) : List Span := (cells.zipIdx.foldl pushCell ([], false)).1

/-! ### The grid -/

/-- The cursor, carried separately from row content. -/
structure CursorFrame where
  line : ℕ
  column : ℕ
  visible : Bool
  deriving DecidableEq, Repr

/-- What a frame says of a row, and a renderer retains. -/
structure Row where
  wrapped : Bool
  spans : List Span
  deriving DecidableEq, Repr

structure Grid where
  columns : ℕ
  screenLines : ℕ
  displayOffset : ℕ
  line : ℤ → List Cell
  cursorLine : ℤ
  cursorColumn : ℕ
  showCursor : Bool

/-- `row_of`. -/
def rowOf (screenRow displayOffset : ℕ) : ℤ := screenRow - displayOffset

namespace Grid

variable (g : Grid)

/-- The cells of a screen row, as a capture copies them. -/
def cells (screenRow : ℕ) : List Cell :=
  (g.line (rowOf screenRow g.displayOffset)).take g.columns

/-- `cursor_frame`. -/
def cursorFrame : CursorFrame :=
  let line := g.cursorLine.toNat + g.displayOffset
  ⟨min line (g.screenLines - 1), g.cursorColumn, g.showCursor && decide (line < g.screenLines)⟩

end Grid

/-- The content of a row of cells. -/
def Row.of (cells : List Cell) : Row :=
  ⟨(cells.getLast?.map (·.flags.wrapline)).getD false, Terminal.spans cells⟩

/-- The damage that upstream has collected since its last reset. -/
structure Damage where
  everything : Bool
  lines : List ℕ

/-- `TermDamage`. -/
inductive TermDamage
  | full
  | partly (lines : List ℕ)

/-- A report has every row that changed since the last reset. -/
def Damage.Reported (d : Damage) : TermDamage → Prop
  | .full => True
  | .partly lines => d.everything = false ∧ ∀ i ∈ d.lines, i ∈ lines

/-- The terminal under its lock: the grid, its damage and the generation of its viewport. -/
structure SharedTerminal where
  grid : Grid
  damage : Damage
  generation : ℕ

def SharedTerminal.viewport (t : SharedTerminal) : Viewport :=
  ⟨t.generation, t.grid.columns, t.grid.screenLines⟩

/-- Raw rows copied out from under the lock. -/
structure RawFrame where
  rows : List (ℕ × List Cell)
  cursor : CursorFrame
  full : Bool
  viewport : Viewport

def SharedTerminal.rows (t : SharedTerminal) (lines : List ℕ) : List (ℕ × List Cell) :=
  lines.map fun line => (line, t.grid.cells line)

/-- Copy the damaged rows, and reset the damage. -/
def capture (t : SharedTerminal) (damage : TermDamage) : RawFrame × SharedTerminal :=
  let (lines, full) := match damage with
    | .full => (List.range t.grid.screenLines, true)
    | .partly lines => (lines.filter (· < t.grid.screenLines), false)
  (⟨t.rows lines, t.grid.cursorFrame, full, t.viewport⟩, { t with damage := ⟨false, []⟩ })

/-- Copy the entire visible viewport. -/
def captureAll (t : SharedTerminal) : RawFrame :=
  ⟨t.rows (List.range t.grid.screenLines), t.grid.cursorFrame, true, t.viewport⟩

/-! ### The encoder -/

/-- What `hash_cells` hashes of a cell. -/
structure HashedCell where
  c : Char
  fg : ℕ
  bg : ℕ
  flags : Flags
  zerowidth : Option (List Char)
  deriving DecidableEq, Repr

def Cell.hashed (cell : Cell) : HashedCell :=
  ⟨cell.c, packColor cell.fg, packColor cell.bg, cell.flags, cell.zerowidth⟩

/-- The hash of a row. No row hashes to the entry of a row that was never emitted. -/
structure RowHash where
  Digest : Type
  [decidableEq : DecidableEq Digest]
  zero : Digest
  digest : List HashedCell → Digest
  digest_ne_zero : ∀ row, digest row ≠ zero

attribute [instance] RowHash.decidableEq

/-- `hash_cells`. -/
def RowHash.hashCells (R : RowHash) (cells : List Cell) : R.Digest :=
  R.digest (cells.map Cell.hashed)

structure RowFrame where
  line : ℕ
  row : Row
  deriving DecidableEq, Repr

structure Frame where
  rows : List RowFrame
  cursor : CursorFrame
  cursorChanged : Bool
  full : Bool
  viewport : Viewport
  deriving DecidableEq, Repr

def Frame.isEmpty (f : Frame) : Bool := f.rows.isEmpty && !f.cursorChanged && !f.full

structure Encoder (R : RowHash) where
  hashes : List R.Digest
  cursor : Option CursorFrame

variable {R : RowHash}

namespace Encoder

def new : Encoder R := ⟨[], none⟩

/-- The entry of a line. -/
def remembered (hashes : List R.Digest) (line : ℕ) : R.Digest := hashes.getD line R.zero

/-- `hashes.resize(line + 1, 0)`, where it is shorter. -/
def resized (hashes : List R.Digest) (line : ℕ) : List R.Digest :=
  hashes ++ List.replicate (line + 1 - hashes.length) R.zero

/-- The loop of `encode`. -/
def encodeRows : List R.Digest → List (ℕ × List Cell) → List R.Digest × List RowFrame
  | hashes, [] => (hashes, [])
  | hashes, (line, cells) :: rest =>
    let hash := R.hashCells cells
    if remembered hashes line = hash then encodeRows (resized hashes line) rest
    else
      let encoded := encodeRows ((resized hashes line).set line hash) rest
      (encoded.1, ⟨line, .of cells⟩ :: encoded.2)

def encode (e : Encoder R) (raw : RawFrame) : Frame × Encoder R :=
  let encoded := encodeRows (if raw.full then [] else e.hashes) raw.rows
  (⟨encoded.2, raw.cursor, e.cursor ≠ some raw.cursor, raw.full, raw.viewport⟩,
    ⟨encoded.1, some raw.cursor⟩)

theorem remembered_resized (hashes : List R.Digest) (line i : ℕ) :
    remembered (resized hashes line) i = remembered hashes i := by
  rw [remembered, remembered, resized]
  rcases Nat.lt_or_ge i hashes.length with hi | hi
  · exact List.getD_append _ _ _ _ hi
  · rw [List.getD_append_right _ _ _ _ hi, List.getD_eq_default _ _ hi]
    rw [List.getD_eq_getElem?_getD]
    exact List.getElem?_getD_replicate_default_eq _ _ _

theorem remembered_set_ne {hashes : List R.Digest} {line i : ℕ} (h : line ≠ i) (d : R.Digest) :
    remembered (hashes.set line d) i = remembered hashes i := by
  simp only [remembered, List.getD_eq_getElem?_getD, List.getElem?_set_ne h]

/-- A row that is emitted is one that was captured. -/
theorem mem_encodeRows {hashes : List R.Digest} {rows : List (ℕ × List Cell)} {r : RowFrame}
    (hr : r ∈ (encodeRows hashes rows).2) : ∃ x ∈ rows, r = ⟨x.1, .of x.2⟩ := by
  induction rows generalizing hashes with
  | nil => exact absurd hr List.not_mem_nil
  | cons x rest ih =>
    rw [encodeRows] at hr
    split_ifs at hr
    · obtain ⟨y, hy, hry⟩ := ih hr
      exact ⟨y, List.mem_cons_of_mem x hy, hry⟩
    · rcases List.mem_cons.mp hr with rfl | hr
      · exact ⟨x, List.mem_cons_self, rfl⟩
      · obtain ⟨y, hy, hry⟩ := ih hr
        exact ⟨y, List.mem_cons_of_mem x hy, hry⟩

/-- A captured row is emitted, or its hash was remembered. -/
theorem emitted_or_remembered {hashes : List R.Digest} {rows : List (ℕ × List Cell)}
    {x : ℕ × List Cell} (hx : x ∈ rows) :
    (∃ r ∈ (encodeRows hashes rows).2, r.line = x.1) ∨
      remembered hashes x.1 = R.hashCells x.2 := by
  induction rows generalizing hashes with
  | nil => exact absurd hx List.not_mem_nil
  | cons y rest ih =>
    rw [encodeRows]
    split_ifs with hremembered
    · rcases List.mem_cons.mp hx with rfl | hx
      · exact .inr hremembered
      · rw [← remembered_resized hashes y.1 x.1]
        exact ih hx
    · rcases List.mem_cons.mp hx with rfl | hx
      · exact .inl ⟨_, List.mem_cons_self, rfl⟩
      · by_cases hline : y.1 = x.1
        · exact .inl ⟨_, List.mem_cons_self, hline⟩
        · rw [← remembered_resized hashes y.1 x.1, ← remembered_set_ne hline (R.hashCells y.2)]
          exact (ih hx).imp_left fun ⟨r, hr, hrx⟩ => ⟨r, List.mem_cons_of_mem _ hr, hrx⟩

/-- An encoder that remembers nothing emits every row. -/
theorem emitted_of_cleared {rows : List (ℕ × List Cell)} {x : ℕ × List Cell} (hx : x ∈ rows) :
    ∃ r ∈ (encodeRows ([] : List R.Digest) rows).2, r.line = x.1 :=
  (emitted_or_remembered hx).resolve_right fun h => R.digest_ne_zero _ h.symm

end Encoder

/-! ### What a renderer holds -/

/-- The retained grid of a renderer, `TerminalGrid`. -/
structure Screen where
  viewport : Viewport
  rows : List Row
  cursor : CursorFrame
  deriving DecidableEq, Repr

/-- What the grid shows. -/
def SharedTerminal.screen (t : SharedTerminal) : Screen :=
  ⟨t.viewport, (List.range t.grid.screenLines).map fun i => .of (t.grid.cells i), t.grid.cursorFrame⟩

namespace Screen

/-- A grid of blank rows. -/
def blank (viewport : Viewport) : Screen :=
  ⟨viewport, List.replicate viewport.screenLines ⟨false, []⟩, ⟨0, 0, false⟩⟩

/-- `resize`, where the viewport is another. -/
def resize (s : Screen) (viewport : Viewport) : Screen :=
  if viewport = s.viewport then s else blank viewport

/-- The rows and the cursor of a frame. -/
def paint (s : Screen) (f : Frame) : Screen :=
  { s with cursor := f.cursor, rows := f.rows.foldl (fun rows r => rows.set r.line r.row) s.rows }

/-- Resize to the viewport of a frame and apply the frame. -/
def apply (s : Screen) (f : Frame) : Screen := (s.resize f.viewport).paint f

/-- As many rows as the viewport has. -/
def Sized (s : Screen) : Prop := s.rows.length = s.viewport.screenLines

theorem length_foldl_set (rows : List Row) (frames : List RowFrame) :
    (frames.foldl (fun rows r => rows.set r.line r.row) rows).length = rows.length := by
  induction frames generalizing rows with
  | nil => rfl
  | cons r frames ih => exact (ih _).trans List.length_set

theorem sized_blank (viewport : Viewport) : (blank viewport).Sized := List.length_replicate

theorem Sized.apply {s : Screen} (h : s.Sized) (f : Frame) : (s.apply f).Sized := by
  have hresize : (s.resize f.viewport).Sized := by
    rw [resize]
    split_ifs
    · exact h
    · exact sized_blank _
  exact (length_foldl_set _ _).trans hresize

theorem viewport_apply (s : Screen) (f : Frame) : (s.apply f).viewport = f.viewport := by
  simp only [apply, paint, resize]
  split_ifs with h
  · exact h.symm
  · rfl

/-- A row after a frame is the one that a frame of given contents has of it, or the one before. -/
theorem getElem?_foldl_set (content : ℕ → Row) {rows : List Row} {frames : List RowFrame} {i : ℕ}
    (hframes : ∀ r ∈ frames, r.row = content r.line) (hi : i < rows.length)
    (hrow : (∃ r ∈ frames, r.line = i) ∨ rows[i]? = some (content i)) :
    (frames.foldl (fun rows r => rows.set r.line r.row) rows)[i]? = some (content i) := by
  induction frames generalizing rows with
  | nil => exact hrow.resolve_left fun ⟨r, hr, _⟩ => absurd hr List.not_mem_nil
  | cons r frames ih =>
    have hset : i < (rows.set r.line r.row).length := List.length_set.symm ▸ hi
    refine ih (fun x hx => hframes x (List.mem_cons_of_mem r hx)) hset ?_
    by_cases hline : r.line = i
    · refine .inr ?_
      dsimp only
      rw [hframes r List.mem_cons_self, hline]
      exact List.getElem?_set_self hi
    · rcases hrow with ⟨x, hx, hxi⟩ | hrow
      · refine .inl ⟨x, (List.mem_cons.mp hx).resolve_left ?_, hxi⟩
        rintro rfl
        exact hline hxi
      · exact .inr (by rwa [List.getElem?_set_ne hline])

end Screen

/-- A frame of a terminal: its rows are rows of the grid as it is. -/
structure Frame.Of (f : Frame) (t : SharedTerminal) : Prop where
  viewport : f.viewport = t.viewport
  cursor : f.cursor = t.grid.cursorFrame
  rows : ∀ r ∈ f.rows, r.row = .of (t.grid.cells r.line)

/-- A frame with every row of the screen. -/
def Frame.Covers (f : Frame) (t : SharedTerminal) : Prop :=
  ∀ i < t.grid.screenLines, ∃ r ∈ f.rows, r.line = i

namespace Screen

variable {s : Screen} {f : Frame} {t : SharedTerminal}

theorem getElem?_screen {i : ℕ} (hi : i < t.grid.screenLines) :
    t.screen.rows[i]? = some (.of (t.grid.cells i)) := by
  rw [SharedTerminal.screen, List.getElem?_map, List.getElem?_range hi, Option.map_some]

/-- A renderer that applies a frame of the terminal shows the grid, when it shows the rows that the
frame leaves out. -/
theorem apply_eq_screen (hf : f.Of t) (hviewport : s.viewport = t.viewport) (hsized : s.Sized)
    (hrows : ∀ i < t.grid.screenLines,
      (∃ r ∈ f.rows, r.line = i) ∨ s.rows[i]? = t.screen.rows[i]?) :
    s.apply f = t.screen := by
  have hlength : s.rows.length = t.grid.screenLines := hsized.trans (congrArg (·.screenLines)
    hviewport)
  have happly : s.apply f = s.paint f := by
    rw [apply, resize, if_pos (hf.viewport.trans hviewport.symm)]
  have hcontent : f.rows.foldl (fun rows r => rows.set r.line r.row) s.rows = t.screen.rows := by
    refine List.ext_getElem? fun i => ?_
    rcases Nat.lt_or_ge i t.grid.screenLines with hi | hi
    · rw [getElem?_screen hi]
      refine getElem?_foldl_set (fun i => .of (t.grid.cells i)) hf.rows
        (hlength ▸ hi) ((hrows i hi).imp_right fun h => ?_)
      rw [h, getElem?_screen hi]
    · rw [List.getElem?_eq_none, List.getElem?_eq_none]
      · rw [SharedTerminal.screen, List.length_map, List.length_range]
        exact hi
      · rw [length_foldl_set, hlength]
        exact hi
  rw [happly, paint, hcontent, hviewport, hf.cursor]
  rfl

/-- A frame with every row is shown whatever was held. -/
theorem apply_of_covers (hf : f.Of t) (hcovers : f.Covers t) (hsized : s.Sized) :
    s.apply f = t.screen := by
  by_cases hviewport : s.viewport = t.viewport
  · exact apply_eq_screen hf hviewport hsized fun i hi => .inl (hcovers i hi)
  · have hblank : s.apply f = (blank t.viewport).apply f := by
      have hother : ¬ t.viewport = s.viewport := fun h => hviewport h.symm
      rw [apply, apply, hf.viewport, resize, if_neg hother, resize, ite_self]
    rw [hblank]
    exact apply_eq_screen hf rfl (sized_blank _) fun i hi => .inl (hcovers i hi)

end Screen

end Buzz.Desktop.Terminal
