import Buzz.Desktop.Terminal.Delivery

/-!
# The renderer and the grid

What a renderer will hold differs from the grid only in rows that are damaged, or that the reader
has captured and not yet handed over, as long as two things do not happen: a render that leaves a
row out on account of a hash, where another encoder has since given the renderer another row; and
an attachment that hands over a snapshot taken before the reader's last capture.

## Main definitions

* `Owes`: the rows that a renderer does not hold rightly are owed to it.
* `World.Meets`: the condition on a section.
* `World.Sound`: the invariant.

## Main results

* `settled_screen`: in a run whose sections meet the condition, a settled renderer shows the grid.
* `suppressed_row`: a run of the code that settles on another row.
-/

namespace Buzz.Desktop.Terminal

variable {R : RowHash} {t : SharedTerminal} {s : Screen} {f : Frame}

/-! ### Frames of the terminal -/

theorem Encoder.encode_of (e : Encoder R) (t : SharedTerminal) (lines : List ℕ) (full : Bool) :
    (e.encode ⟨t.rows lines, t.grid.cursorFrame, full, t.viewport⟩).1.Of t where
  viewport := rfl
  cursor := rfl
  rows r hr := by
    obtain ⟨x, hx, rfl⟩ := Encoder.mem_encodeRows hr
    obtain ⟨i, -, rfl⟩ := List.mem_map.mp hx
    rfl

theorem Encoder.encode_covers (e : Encoder R) (t : SharedTerminal) :
    (e.encode (captureAll t)).1.Covers t :=
  fun i hi => Encoder.emitted_of_cleared (R := R) (x := (i, t.grid.cells i))
    (List.mem_map.mpr ⟨i, List.mem_range.mpr hi, rfl⟩)

/-- A frame of the terminal leaves alone a renderer that shows it. -/
theorem Screen.apply_screen (hf : f.Of t) : t.screen.apply f = t.screen :=
  Screen.apply_eq_screen hf rfl (List.length_map _ |>.trans List.length_range) fun _ _ => .inr rfl

/-- A frame with no row and the same cursor changes nothing. -/
theorem Screen.apply_of_no_rows (hviewport : f.viewport = s.viewport) (hrows : f.rows = [])
    (hcursor : f.cursor = s.cursor) : s.apply f = s := by
  rw [apply, resize, if_pos hviewport, paint, hrows, hcursor]
  rfl

/-! ### What is owed to a renderer -/

/-- The reader has nothing captured that it has not handed over. -/
def ReaderAt.Idle : ReaderAt → Prop
  | .captured _ | .refused => False
  | _ => True

/-- The rows that a renderer does not hold rightly are damaged. -/
def SharedTerminal.Owing (t : SharedTerminal) (s : Screen) : Prop :=
  t.damage.everything = true ∨
    ∀ i < t.grid.screenLines, i ∈ t.damage.lines ∨ s.rows[i]? = t.screen.rows[i]?

/-- The rows that a renderer does not hold rightly are damaged or, where the reader has captured the
grid as it is, in the frame that it has captured. -/
structure Owes (t : SharedTerminal) (reader : ReaderAt) (current : Bool) (s : Screen) : Prop where
  viewport : s.viewport = t.viewport
  captured : ∀ f, reader = .captured f → current = true → s.apply f = t.screen
  damaged : reader.Idle → t.Owing s ∧ (current = true → s = t.screen)

/-- A frame that the reader has captured is of the grid as it is, or everything is damaged. -/
structure Captures (t : SharedTerminal) (current : Bool) (f : Frame) : Prop where
  of : current = true → f.Of t ∧ (f.full = true → f.Covers t)
  everything : current = false → t.damage.everything = true

theorem Owes.of_screen {reader : ReaderAt} {current : Bool}
    (h : ∀ f, reader = .captured f → Captures t current f) : Owes t reader current t.screen where
  viewport := rfl
  captured f hf hcurrent := Screen.apply_screen ((h f hf).of hcurrent).1
  damaged _ := ⟨.inr fun _ _ => .inr rfl, fun _ => rfl⟩

theorem Owes.of_everything {reader : ReaderAt} (hviewport : s.viewport = t.viewport)
    (heverything : t.damage.everything = true) : Owes t reader false s where
  viewport := hviewport
  captured _ _ hcurrent := nomatch hcurrent
  damaged _ := ⟨.inl heverything, fun hcurrent => nomatch hcurrent⟩

/-! ### The condition -/

/-- What a section is to meet, in what the renderers will hold: the rows and the cursor that a render
leaves out are held already, and what an attachment leaves its renderer without is owed. -/
def World.Meets (w : World R) : Action → Prop
  | .render (.partly lines) =>
    ∀ sub, w.publisher.subscription = some sub → w.publisher.applied = w.terminal.viewport →
      let suppressed (i : ℕ) : Prop :=
        Encoder.remembered w.encoder.hashes i = R.hashCells (w.terminal.grid.cells i)
      (∀ i ∈ lines, i < w.terminal.grid.screenLines → suppressed i →
        (w.line.target sub).rows[i]? = w.terminal.screen.rows[i]?) ∧
      ((∀ i ∈ lines, i < w.terminal.grid.screenLines → suppressed i) →
        w.encoder.cursor = some w.terminal.screen.cursor →
        (w.line.target sub).cursor = w.terminal.screen.cursor)
  | .attach =>
    ∀ snapshot, w.command = .attaching snapshot → snapshot.viewport = w.publisher.applied →
      Owes w.terminal w.reader w.current ((w.screens w.nextId).apply snapshot)
  | _ => True

/-! ### The invariant -/

/-- The publisher applies the viewport that the grid has, unless a resize has yet to tell it. -/
def CommandAt.Agrees (applied viewport : Viewport) : CommandAt → Prop
  | .resized v => v = viewport
  | _ => applied = viewport

structure World.Sound (w : World R) : Prop where
  good : w.line.Good
  agrees : w.command.Agrees w.publisher.applied w.terminal.viewport
  captured : ∀ f, w.reader = .captured f → Captures w.terminal w.current f
  owes : ∀ sub, w.publisher.subscription = some sub →
    w.publisher.applied = w.terminal.viewport →
    Owes w.terminal w.reader w.current (w.line.target sub)

theorem CommandAt.agrees_after {applied viewport : Viewport} (out : Option Publication)
    (h : applied = viewport) : (CommandAt.after out).Agrees applied viewport := by
  cases out <;> exact h

theorem ReaderAt.after_ne (out : Option Publication) : ReaderAt.after out ≠ .captured f := by
  cases out <;> exact fun h => nomatch h

theorem ReaderAt.unsent_after (out : Option Publication) :
    (ReaderAt.after out).unsent = out.toList := by cases out <;> rfl

theorem CommandAt.unsent_after (out : Option Publication) :
    (CommandAt.after out).unsent = out.toList := by cases out <;> rfl

namespace World.Sound

variable {w : World R} {publication : Publication} {p : FramePublisher}
  {out : Option Publication}

/-- A section that hands nothing over. -/
theorem silent {e e' : Encoder R} {r : ReaderAt} {c : CommandAt} {b : Bool} (h : w.Sound)
    (hr : r.unsent = w.reader.unsent) (hc : c.unsent = w.command.unsent)
    (hagrees : c.Agrees w.publisher.applied t.viewport)
    (hcaptured : ∀ f, r = .captured f → Captures t b f)
    (howes : ∀ sub, w.publisher.subscription = some sub → w.publisher.applied = t.viewport →
      Owes t r b (w.line.target sub)) :
    World.Sound { w with
      terminal := t, encoder := e, snapshotEncoder := e', reader := r, command := c, current := b } := by
  have hline : World.line { w with
      terminal := t, encoder := e, snapshotEncoder := e', reader := r, command := c
      current := b } = w.line := by
    rw [line, line, hr, hc]
  exact ⟨hline ▸ h.good, hagrees, hcaptured, fun sub hsub happlied => hline ▸ howes sub hsub happlied⟩

theorem feed (h : w.Sound) (hat : w.reader = .reading ∨ w.reader = .fed)
    (hfed : w.terminal.Fed t) :
    World.Sound { w with terminal := t, reader := .fed, current := false } := by
  have hviewport : t.viewport = w.terminal.viewport := by
    rw [SharedTerminal.viewport, hfed.generation, hfed.columns, hfed.screenLines]
    rfl
  have hunsent : w.reader.unsent = [] := by rcases hat with hat | hat <;> rw [hat] <;> rfl
  have hidle : w.reader.Idle := by rcases hat with hat | hat <;> rw [hat] <;> trivial
  refine h.silent (hunsent ▸ rfl) rfl (hviewport ▸ h.agrees) (fun f hf => nomatch hf)
    fun sub hsub happlied => ?_
  obtain ⟨hsame, -, hdamaged⟩ := h.owes sub hsub (happlied.trans hviewport)
  refine ⟨hsame.trans hviewport.symm, fun f hf => (nomatch hf),
    fun _ => ⟨?_, fun hcurrent => (nomatch hcurrent)⟩⟩
  rcases (hdamaged hidle).1 with hall | hrows
  · exact .inl (hfed.everything hall)
  rcases hfed.changed with hall | hchanged
  · exact .inl hall
  refine .inr fun i hi => ?_
  rw [hfed.screenLines] at hi
  rcases hrows i hi with hline | hrow
  · exact .inl (hfed.kept i hline)
  · by_cases hcells : t.grid.cells i = w.terminal.grid.cells i
    · right
      rw [hrow, Screen.getElem?_screen hi, Screen.getElem?_screen (hfed.screenLines ▸ hi), hcells]
    · exact .inl (hchanged i hi hcells)

theorem check (h : w.Sound) (hat : w.reader = .fed) :
    World.Sound { w with reader := .checked w.publisher.requiresSnapshot } := by
  refine h.silent (hat ▸ rfl) rfl h.agrees (fun f hf => nomatch hf) fun sub hsub happlied => ?_
  obtain ⟨hsame, -, hdamaged⟩ := h.owes sub hsub happlied
  exact ⟨hsame, fun f hf => (nomatch hf), fun _ => hdamaged (hat ▸ trivial)⟩

/-- What a render leaves out is shown. -/
theorem apply_render {damage : TermDamage} {sub : Subscription} (h : w.Sound)
    (hat : w.reader = .checked false) (hmeets : w.Meets (.render damage))
    (hdamage : w.terminal.damage.Reported damage) (hsub : w.publisher.subscription = some sub)
    (happlied : w.publisher.applied = w.terminal.viewport) :
    let f := (w.encoder.encode (capture w.terminal damage).1).1
    (w.line.target sub).apply f = w.terminal.screen ∧
      (f.isEmpty = true → w.line.target sub = w.terminal.screen) := by
  cases damage with
  | full =>
    exact ⟨Screen.apply_of_covers (w.encoder.encode_of w.terminal _ true)
      (w.encoder.encode_covers w.terminal) (h.good.sized_target sub),
      fun hempty => absurd hempty (by simp [Frame.isEmpty, Encoder.encode, capture])⟩
  | partly lines =>
    intro f
    obtain ⟨hrows, hcursor⟩ := hmeets sub hsub happlied
    obtain ⟨hsame, -, hdamaged⟩ := h.owes sub hsub happlied
    have hof : f.Of w.terminal := w.encoder.encode_of w.terminal _ false
    have hcaptured {i : ℕ} (hline : i ∈ lines) (hi : i < w.terminal.grid.screenLines) :
        (∃ r ∈ f.rows, r.line = i) ∨ Encoder.remembered w.encoder.hashes i =
          R.hashCells (w.terminal.grid.cells i) :=
      Encoder.emitted_or_remembered (x := (i, w.terminal.grid.cells i)) (List.mem_map.mpr
        ⟨i, List.mem_filter.mpr ⟨hline, decide_eq_true hi⟩, rfl⟩)
    have hshown (i : ℕ) (hi : i < w.terminal.grid.screenLines) :
        (∃ r ∈ f.rows, r.line = i) ∨
          (w.line.target sub).rows[i]? = w.terminal.screen.rows[i]? := by
      rcases (hdamaged (hat ▸ trivial)).1 with hall | howed
      · exact absurd (hdamage.1.symm.trans hall) (by decide)
      rcases howed i hi with hline | hrow
      · exact (hcaptured (hdamage.2 i hline) hi).imp_right (hrows i (hdamage.2 i hline) hi)
      · exact .inr hrow
    have hscreen : (w.line.target sub).apply f = w.terminal.screen :=
      Screen.apply_eq_screen hof hsame (h.good.sized_target sub) hshown
    refine ⟨hscreen, fun hempty => ?_⟩
    rw [Frame.isEmpty, Bool.and_eq_true, Bool.and_eq_true] at hempty
    have hnone : f.rows = [] := List.isEmpty_iff.mp hempty.1.1
    have hremembered : w.encoder.cursor = some w.terminal.screen.cursor := by
      have hunchanged : decide (w.encoder.cursor ≠ some w.terminal.grid.cursorFrame) = false :=
        Bool.not_eq_true' _ |>.mp hempty.1.2
      exact not_not.mp (decide_eq_false_iff_not.mp hunchanged)
    rw [← hscreen]
    refine (Screen.apply_of_no_rows (hof.viewport.trans hsame.symm) hnone ?_).symm
    rw [hof.cursor, hcursor (fun i hline hi => ?_) hremembered]
    · rfl
    · refine (hcaptured hline hi).resolve_left fun ⟨r, hr, _⟩ => ?_
      rw [hnone] at hr
      exact List.not_mem_nil hr

/-- The reader takes a frame of the grid as it is. -/
theorem take {e e' : Encoder R} (h : w.Sound) {checked : Bool} (hat : w.reader = .checked checked)
    (hscreen : t.screen = w.terminal.screen) (hof : f.Of t) (hcovers : f.full = true → f.Covers t)
    (hsub : ∀ sub, w.publisher.subscription = some sub →
      w.publisher.applied = w.terminal.viewport → (w.line.target sub).apply f = w.terminal.screen ∧
        (f.isEmpty = true → w.line.target sub = w.terminal.screen)) :
    World.Sound { w with
      terminal := t, encoder := e, snapshotEncoder := e', reader := .take f, current := true } := by
  have hviewport : t.viewport = w.terminal.viewport := congrArg (·.viewport) hscreen
  have htaken : (ReaderAt.take f).unsent = [] := by
    rw [ReaderAt.take]
    split_ifs <;> rfl
  have hcaptured (g : Frame) (hg : ReaderAt.take f = .captured g) : f.isEmpty = false ∧ f = g := by
    rw [ReaderAt.take] at hg
    split_ifs at hg with hempty
    exact ⟨Bool.eq_false_iff.mpr hempty, ReaderAt.captured.inj hg⟩
  refine h.silent (htaken.trans (hat ▸ rfl)) rfl (hviewport ▸ h.agrees) (fun g hg => ?_)
    fun sub hsome happlied => ?_
  · obtain ⟨-, rfl⟩ := hcaptured g hg
    exact ⟨fun _ => ⟨hof, hcovers⟩, fun hcurrent => nomatch hcurrent⟩
  · obtain ⟨hsame, -, -⟩ := h.owes sub hsome (happlied.trans hviewport)
    obtain ⟨happly, hempty⟩ := hsub sub hsome (happlied.trans hviewport)
    refine ⟨hsame.trans hviewport.symm, fun g hg _ => ?_, fun hidle => ?_⟩
    · obtain ⟨-, rfl⟩ := hcaptured g hg
      exact happly.trans hscreen.symm
    · rw [ReaderAt.take] at hidle
      split_ifs at hidle with hnothing
      · rw [hempty hnothing, ← hscreen]
        exact ⟨.inr fun _ _ => .inr rfl, fun _ => rfl⟩
      · exact hidle.elim

theorem render {damage : TermDamage} (h : w.Sound) (hat : w.reader = .checked false)
    (hmeets : w.Meets (.render damage)) (hdamage : w.terminal.damage.Reported damage) :
    World.Sound { w with
      terminal := (capture w.terminal damage).2
      encoder := (w.encoder.encode (capture w.terminal damage).1).2
      reader := .take (w.encoder.encode (capture w.terminal damage).1).1
      current := true } := by
  have hof : (w.encoder.encode (capture w.terminal damage).1).1.Of w.terminal := by
    cases damage with
    | full => exact w.encoder.encode_of w.terminal _ true
    | partly lines => exact w.encoder.encode_of w.terminal _ false
  refine h.take hat rfl ⟨hof.viewport, hof.cursor, hof.rows⟩ (fun hfull => ?_)
    fun sub hsub happlied => h.apply_render hat hmeets hdamage hsub happlied
  cases damage with
  | full => exact w.encoder.encode_covers w.terminal
  | partly lines => cases hfull

theorem snapshot (h : w.Sound) (hat : w.reader = .checked true) :
    World.Sound { w with
      snapshotEncoder := (w.terminal.snapshot w.snapshotEncoder).2
      reader := .take (w.terminal.snapshot w.snapshotEncoder).1
      current := true } := by
  have hof : (w.terminal.snapshot w.snapshotEncoder).1.Of w.terminal :=
    w.snapshotEncoder.encode_of w.terminal _ true
  have hcovers := w.snapshotEncoder.encode_covers w.terminal
  refine h.take hat rfl hof (fun _ => hcovers) fun sub hsub happlied =>
    ⟨Screen.apply_of_covers hof hcovers (h.good.sized_target sub),
      fun hempty => absurd hempty (by simp [Frame.isEmpty, SharedTerminal.snapshot, Encoder.encode,
        captureAll])⟩

/-! ### Handing a frame over -/

/-- The reader hands a frame to the publisher. -/
theorem handed {e : Encoder R} {b : Bool} (h : w.Sound) (hunsent : w.reader.unsent = [])
    (hoffer : w.publisher.offer f = .ok (out, p)) (hframe : Captures w.terminal b f)
    (hpart : b = true → f.full = false → ∀ sub, w.publisher.subscription = some sub →
      w.publisher.applied = w.terminal.viewport →
      (w.line.target sub).apply f = w.terminal.screen) :
    World.Sound { w with
      snapshotEncoder := e, publisher := p, reader := .after out, current := b } := by
  have htransit : w.line.transit = w.wire ++ w.command.unsent := by
    simp only [line, hunsent, List.append_nil]
  have hsame := FramePublisher.applied_offer hoffer
  obtain ⟨hgood, htarget⟩ := h.good.offer htransit hoffer
  have hline : World.line { w with
      snapshotEncoder := e, publisher := p, reader := .after out, current := b } =
      { w.line with publisher := p, transit := w.wire ++ out.toList ++ w.command.unsent } := by
    simp only [line, ReaderAt.unsent_after]
  refine ⟨hline ▸ hgood, hsame.symm ▸ h.agrees, fun g hg => absurd hg (ReaderAt.after_ne out),
    fun sub' hsub' happlied => ?_⟩
  have hbefore : w.publisher.applied = w.terminal.viewport := hsame.symm.trans happlied
  rw [hline]
  rcases htarget sub' hsub' with ⟨hother, rfl, hkept⟩ | ⟨hviewport, sub, hsub, s, hsized, hshown, hs⟩
  · rw [hkept]
    cases b with
    | true => exact absurd ((hframe.of rfl).1.viewport.trans hbefore.symm) hother
    | false => exact .of_everything (h.owes sub' hsub' hbefore).viewport (hframe.everything rfl)
  · rw [hshown]
    cases b with
    | true =>
      have hscreen : s.apply f = w.terminal.screen := by
        cases hfull : f.full with
        | true =>
          exact Screen.apply_of_covers (hframe.of rfl).1 ((hframe.of rfl).2 hfull) hsized
        | false =>
          rw [hs hfull]
          exact hpart rfl hfull sub hsub hbefore
      rw [hscreen]
      exact .of_screen fun g hg => absurd hg (ReaderAt.after_ne out)
    | false =>
      exact .of_everything ((Screen.viewport_apply s f).trans (hviewport.trans hbefore))
        (hframe.everything rfl)

theorem offer (h : w.Sound) (hat : w.reader = .captured f)
    (hoffer : w.publisher.offer f = .ok (out, p)) :
    World.Sound { w with publisher := p, reader := .after out } :=
  h.handed (hat ▸ rfl) hoffer (h.captured f hat) fun hcurrent _ sub hsub happlied =>
    (h.owes sub hsub happlied).captured f hat hcurrent

theorem offerRefused (h : w.Sound) (hat : w.reader = .captured f) :
    World.Sound { w with reader := .refused } :=
  h.silent (hat ▸ rfl) rfl h.agrees (fun _ hf => nomatch hf) fun sub hsub happlied =>
    ⟨(h.owes sub hsub happlied).viewport, fun _ hf => (nomatch hf), fun hidle => hidle.elim⟩

theorem retry (h : w.Sound) (hat : w.reader = .refused)
    (hoffer : w.publisher.offer (w.terminal.snapshot w.snapshotEncoder).1 = .ok (out, p)) :
    World.Sound { w with
      snapshotEncoder := (w.terminal.snapshot w.snapshotEncoder).2
      publisher := p, reader := .after out, current := true } :=
  h.handed (hat ▸ rfl) hoffer
    ⟨fun _ => ⟨w.snapshotEncoder.encode_of w.terminal _ true,
      fun _ => w.snapshotEncoder.encode_covers w.terminal⟩, fun hcurrent => nomatch hcurrent⟩
    fun _ hfull => nomatch hfull

/-- A command has the publisher hand over what leaves the renderer with the grid, or with what is
owed to it. -/
theorem commanded (out : Option Publication) {n : SubscriptionId} (h : w.Sound)
    (hgood : Line.Good ⟨p, w.wire ++ w.reader.unsent ++ out.toList, w.screens, w.applied, n⟩)
    (happlied : p.applied = w.terminal.viewport)
    (howes : ∀ sub, p.subscription = some sub →
      Owes w.terminal w.reader w.current (Line.target
        ⟨p, w.wire ++ w.reader.unsent ++ out.toList, w.screens, w.applied, n⟩ sub)) :
    World.Sound { w with publisher := p, command := .after out, nextId := n } := by
  have hline : World.line { w with publisher := p, command := .after out, nextId := n } =
      ⟨p, w.wire ++ w.reader.unsent ++ out.toList, w.screens, w.applied, n⟩ := by
    simp only [line, CommandAt.unsent_after]
  exact ⟨hline ▸ hgood, CommandAt.agrees_after out happlied, h.captured,
    fun sub hsub _ => hline ▸ howes sub hsub⟩

theorem snapshot_of (e : Encoder R) (t : SharedTerminal) : (t.snapshot e).1.Of t :=
  e.encode_of t _ true

theorem snapshot_covers (e : Encoder R) (t : SharedTerminal) : (t.snapshot e).1.Covers t :=
  e.encode_covers t

/-- An attachment, at the viewport that the grid has. -/
theorem attached {command : CommandAt} (h : w.Sound) (hat : w.command = command)
    (hunsent : command.unsent = []) (hagrees : w.publisher.applied = w.terminal.viewport)
    (hattach : w.publisher.attach w.nextId f = .ok (publication, p))
    (howes : Owes w.terminal w.reader w.current ((w.screens w.nextId).apply f)) :
    World.Sound { w with
      publisher := p, command := .sending publication, nextId := w.nextId + 1 } := by
  have htransit : w.line.transit = w.wire ++ w.reader.unsent ++ [] := by
    simp only [line, hat, hunsent]
  obtain ⟨hgood, htarget⟩ := h.good.attach htransit hattach
  rw [List.append_nil] at hgood htarget
  refine h.commanded (some publication) hgood ?_ fun sub hsub => (htarget sub hsub) ▸ howes
  obtain ⟨-, -, -, rfl⟩ := FramePublisher.attach_ok hattach
  exact hagrees

theorem spawn (h : w.Sound) (hat : w.command = .spawning)
    (hattach : w.publisher.attach w.nextId (w.terminal.snapshot (Encoder.new : Encoder R)).1 =
      .ok (publication, p)) :
    World.Sound { w with
      publisher := p, command := .sending publication, nextId := w.nextId + 1 } := by
  have hagrees := h.agrees
  rw [hat] at hagrees
  have hsized : (w.screens w.nextId).Sized := h.good.sized w.nextId
  refine h.attached hat rfl hagrees hattach ?_
  rw [Screen.apply_of_covers (snapshot_of _ _) (snapshot_covers _ _) hsized]
  exact .of_screen h.captured

theorem attach {snapshot : Frame} (h : w.Sound) (hat : w.command = .attaching snapshot)
    (hmeets : w.Meets .attach)
    (hattach : w.publisher.attach w.nextId snapshot = .ok (publication, p)) :
    World.Sound { w with
      publisher := p, command := .sending publication, nextId := w.nextId + 1 } := by
  have hagrees := h.agrees
  rw [hat] at hagrees
  exact h.attached hat rfl hagrees hattach
    (hmeets snapshot hat (FramePublisher.attach_ok hattach).1)

/-- An offer of the grid as it is, at the viewport that the grid has. -/
theorem published {q : FramePublisher} {e : Encoder R} (h : w.Sound)
    (hunsent : w.command.unsent = [])
    (hgood : Line.Good
      ⟨q, w.wire ++ w.reader.unsent ++ w.command.unsent, w.screens, w.applied, w.nextId⟩)
    (hagrees : q.applied = w.terminal.viewport)
    (hoffer : q.offer (w.terminal.snapshot e).1 = .ok (out, p)) :
    World.Sound { w with publisher := p, command := .after out } := by
  rw [hunsent, List.append_nil] at hgood
  obtain ⟨hgood', htarget⟩ := hgood.offer (List.append_nil _).symm hoffer
  rw [List.append_nil] at hgood' htarget
  refine h.commanded _ hgood' ((FramePublisher.applied_offer hoffer).trans hagrees)
    fun sub' hsub' => ?_
  rcases htarget sub' hsub' with ⟨hother, -, -⟩ | ⟨-, -, -, s, hsized, hshown, -⟩
  · exact absurd hagrees.symm hother
  · rw [hshown, Screen.apply_of_covers (snapshot_of e _) (snapshot_covers e _) hsized]
    exact .of_screen h.captured

theorem resizeApplied {viewport : Viewport} (h : w.Sound) (hat : w.command = .resized viewport)
    (hoffer : (w.publisher.resizeApplied viewport).offer
      (w.terminal.snapshot (Encoder.new : Encoder R)).1 = .ok (out, p)) :
    World.Sound { w with publisher := p, command := .after out } := by
  have hagrees := h.agrees
  rw [hat] at hagrees
  exact h.published (hat ▸ rfl) h.good.resizeApplied
    ((FramePublisher.applied_resizeApplied _ _).trans hagrees) hoffer

theorem scrollPublish (h : w.Sound) (hat : w.command = .scrolled)
    (hoffer : w.publisher.offer (w.terminal.snapshot (Encoder.new : Encoder R)).1 =
      .ok (out, p)) :
    World.Sound { w with publisher := p, command := .after out } := by
  have hagrees := h.agrees
  rw [hat] at hagrees
  exact h.published (hat ▸ rfl) h.good hagrees hoffer

/-! ### The other commands -/

theorem attachSnapshot (h : w.Sound) (hat : w.command = .idle) :
    World.Sound { w with command := .attaching f } := by
  have hagrees := h.agrees
  rw [hat] at hagrees
  exact h.silent rfl (hat ▸ rfl) hagrees h.captured h.owes

theorem attachRejected {snapshot : Frame} (h : w.Sound) (hat : w.command = .attaching snapshot) :
    World.Sound { w with command := .idle, nextId := w.nextId + 1 } := by
  have hagrees := h.agrees
  rw [hat] at hagrees
  have hidle : World.Sound { w with command := .idle } :=
    h.silent rfl (hat ▸ rfl) hagrees h.captured h.owes
  refine ⟨⟨fun sub hsub => ?_, fun p hp => Nat.lt_succ_of_lt (hidle.good.transit_lt p hp),
    fun x hx => Nat.lt_succ_of_lt (hidle.good.applied_lt x hx), hidle.good.sized⟩, hidle.agrees,
    hidle.captured, hidle.owes⟩
  have hcredited := hidle.good.credited sub hsub
  exact ⟨hcredited.inFlight, hcredited.one, hcredited.applied_lt, hcredited.inFlight_lt,
    hcredited.flushed, Nat.lt_succ_of_lt hcredited.id_lt⟩

theorem resize {columns screenLines : ℕ} (h : w.Sound) (hat : w.command = .idle)
    (hresized : w.terminal.Resized columns screenLines t) :
    World.Sound { w with
      terminal := t, command := .resized t.viewport
      current := w.current && decide (t.viewport = w.terminal.viewport) } := by
  have hagrees := h.agrees
  rw [hat] at hagrees
  rw [SharedTerminal.Resized] at hresized
  split_ifs at hresized
  · subst hresized
    rw [decide_eq_true rfl, Bool.and_true]
    exact h.silent rfl (hat ▸ rfl) rfl h.captured h.owes
  · obtain ⟨-, -, hgeneration, heverything⟩ := hresized
    have hother : t.viewport ≠ w.terminal.viewport := fun heq =>
      Nat.succ_ne_self _ (hgeneration.symm.trans (congrArg Viewport.generation heq))
    rw [decide_eq_false hother, Bool.and_false]
    exact h.silent rfl (hat ▸ rfl) rfl
      (fun f _ => ⟨fun hcurrent => (nomatch hcurrent), fun _ => heverything⟩)
      fun sub _ happlied => absurd (happlied.symm.trans hagrees) hother

theorem scroll {displayOffset : ℕ} (h : w.Sound) (hat : w.command = .idle) :
    World.Sound { w with
      terminal := w.terminal.scrollTo displayOffset, command := .scrolled, current := false } := by
  have hagrees := h.agrees
  rw [hat] at hagrees
  exact h.silent rfl (hat ▸ rfl) hagrees
    (fun f _ => ⟨fun hcurrent => (nomatch hcurrent), fun _ => rfl⟩)
    fun sub hsub happlied => .of_everything (h.owes sub hsub happlied).viewport rfl

/-- A release of credit or readiness. -/
theorem released (h : w.Sound) (hat : w.command = .idle)
    (happlied : p.applied = w.publisher.applied)
    (hrelease : ∀ pre post, w.line.transit = pre ++ post →
      ({ w.line with publisher := p, transit := pre ++ out.toList ++ post } : Line).Good ∧
        Line.Kept w.line { w.line with publisher := p, transit := pre ++ out.toList ++ post }) :
    World.Sound { w with publisher := p, command := .after out } := by
  have hagrees := h.agrees
  rw [hat] at hagrees
  have htransit : w.line.transit = w.wire ++ w.reader.unsent ++ [] := by
    simp only [line, hat]
    rfl
  obtain ⟨hgood, hkept⟩ := hrelease _ _ htransit
  rw [List.append_nil] at hgood hkept
  refine h.commanded _ hgood (happlied.trans hagrees) fun sub' hsub' => ?_
  obtain ⟨sub, hsub, hsame⟩ := hkept sub' hsub'
  exact hsame ▸ h.owes sub hsub hagrees

/-- Publications on their way. -/
theorem moved {wire : List Publication} {screens : SubscriptionId → Screen}
    {applied : List (SubscriptionId × ℕ)} {r : ReaderAt} {c : CommandAt} (h : w.Sound)
    (hagrees : c.Agrees w.publisher.applied w.terminal.viewport)
    (hcaptured : ∀ f, r = .captured f → Captures w.terminal w.current f)
    (howes : ∀ s, Owes w.terminal w.reader w.current s → Owes w.terminal r w.current s)
    (hmove : Line.Good ⟨w.publisher, wire ++ r.unsent ++ c.unsent, screens, applied, w.nextId⟩ ∧
      Line.Kept w.line ⟨w.publisher, wire ++ r.unsent ++ c.unsent, screens, applied, w.nextId⟩) :
    World.Sound { w with
      wire := wire, screens := screens, applied := applied, reader := r, command := c } := by
  refine ⟨hmove.1, hagrees, hcaptured, fun sub' hsub' happlied => ?_⟩
  obtain ⟨sub, hsub, hsame⟩ := hmove.2 sub' hsub'
  exact howes _ (hsame ▸ h.owes sub hsub happlied)

theorem readerSend (h : w.Sound) (hat : w.reader = .sending publication) :
    World.Sound { w with wire := w.wire ++ [publication], reader := .reading } := by
  refine h.moved h.agrees (fun _ hf => nomatch hf) (fun s hs => ?_) ?_
  · exact ⟨hs.viewport, fun _ hf => (nomatch hf), fun _ => hs.damaged (hat ▸ trivial)⟩
  · refine h.good.reorder (List.Perm.of_eq ?_)
    simp only [line, hat, ReaderAt.unsent, List.append_nil]

theorem commandSend (h : w.Sound) (hat : w.command = .sending publication) :
    World.Sound { w with wire := w.wire ++ [publication], command := .idle } := by
  have hagrees := h.agrees
  rw [hat] at hagrees
  refine h.moved hagrees h.captured (fun s hs => hs) (h.good.reorder ?_)
  simp only [line, hat, CommandAt.unsent, List.append_nil, List.append_assoc]
  exact List.perm_append_comm.append_left w.wire

theorem deliver {rest : List Publication} (h : w.Sound) (hwire : w.wire = publication :: rest) :
    World.Sound { w with
      wire := rest
      screens := Function.update w.screens publication.subscriptionId
        ((w.screens publication.subscriptionId).apply publication.frame)
      applied := (publication.subscriptionId, publication.sequence) :: w.applied } := by
  refine h.moved h.agrees h.captured (fun s hs => hs) (h.good.deliver ?_)
  simp only [line, hwire, List.cons_append]

/-! ### Runs -/

/-- A section that meets the condition keeps the invariant. -/
theorem step {w' : World R} {action : Action} (h : w.Sound) (hmeets : w.Meets action)
    (hstep : Step w action w') : w'.Sound := by
  cases hstep with
  | feed hat hfed => exact h.feed hat hfed
  | check hat => exact h.check hat
  | render hat hdamage => exact h.render hat hmeets hdamage
  | snapshot hat => exact h.snapshot hat
  | offer hat hoffer => exact h.offer hat hoffer
  | offerRefused hat hoffer => exact h.offerRefused hat
  | retry hat hoffer => exact h.retry hat hoffer
  | readerSend hat => exact h.readerSend hat
  | spawn hat hattach => exact h.spawn hat hattach
  | attachSnapshot hat => exact h.attachSnapshot hat
  | attach hat hattach => exact h.attach hat hmeets hattach
  | attachRejected hat hattach => exact h.attachRejected hat
  | resize hat hresized => exact h.resize hat hresized
  | resizeApplied hat hoffer => exact h.resizeApplied hat hoffer
  | scroll hat hmoved => exact h.scroll hat
  | scrollPublish hat hoffer => exact h.scrollPublish hat hoffer
  | ack hat happlied =>
    exact h.released hat (FramePublisher.applied_acknowledge _ _ _)
      fun pre post htransit => h.good.acknowledge htransit happlied
  | viewportReady hat =>
    exact h.released hat (FramePublisher.applied_viewportReady _ _ _)
      fun pre post htransit => h.good.viewportReady htransit
  | commandSend hat => exact h.commandSend hat
  | deliver hwire => exact h.deliver hwire

theorem new (t : SharedTerminal) : (World.new t : World R).Sound where
  good := ⟨fun _ hsub => (nomatch hsub), fun _ hp => absurd hp List.not_mem_nil,
    fun _ hx => absurd hx List.not_mem_nil, fun _ => Screen.sized_blank _⟩
  agrees := rfl
  captured _ hf := nomatch hf
  owes _ hsub := nomatch hsub

/-- A settled renderer shows the grid. -/
theorem screen_of_settled {sub : Subscription} (h : w.Sound) (hsettled : w.Settled sub) :
    w.screens sub.id = w.terminal.screen := by
  have hshown := (h.owes sub hsettled.attached hsettled.applied).damaged
    (hsettled.reading ▸ trivial)
  rw [← hshown.2 hsettled.current, Line.target, hsettled.pending]
  exact ((h.good.credited sub hsettled.attached).shown_of_free hsettled.inFlight).symm

end World.Sound

/-- The states that sections reach, each allowed where it is taken. -/
inductive World.Reaches (allowed : World R → Action → Prop) (start : World R) : World R → Prop
  | refl : Reaches allowed start start
  | step {w w' : World R} (h : Reaches allowed start w) (action : Action)
      (hallowed : allowed w action) (hstep : Step w action w') : Reaches allowed start w'

theorem World.Reaches.sound {w : World R} (h : World.Reaches World.Meets (.new t) w) : w.Sound := by
  induction h with
  | refl => exact .new t
  | step _ _ hmeets hstep ih => exact ih.step hmeets hstep

/-- A hash without collisions: the row itself. -/
def RowHash.exact : RowHash where
  Digest := Option (List HashedCell)
  zero := none
  digest := some
  digest_ne_zero _ h := nomatch h

/-- A terminal of one cell. -/
def letter (c : Char) (damaged : List ℕ) : SharedTerminal where
  grid :=
    { columns := 1, screenLines := 1, displayOffset := 0
      line := fun _ => [⟨c, .named 0, .named 0, ⟨false, false, false, false, 0⟩, none⟩]
      cursorLine := 0, cursorColumn := 0, showCursor := true }
  damage := ⟨false, damaged⟩
  generation := 0

theorem letter_fed (c c' : Char) (damaged : List ℕ) (h : ∀ i ∈ damaged, i ∈ [0]) :
    (letter c damaged).Fed (letter c' [0]) where
  generation := rfl
  columns := rfl
  screenLines := rfl
  everything h := nomatch h
  kept := h
  changed := .inr fun _ hi _ => List.mem_singleton.mpr (Nat.lt_one_iff.mp hi)

/-- In a run whose sections all meet the condition, the renderer shows the grid whenever it is
settled: every row, and the cursor. -/
theorem settled_screen {w : World R} {sub : Subscription}
    (h : World.Reaches World.Meets (.new t) w) (hsettled : w.Settled sub) :
    w.screens sub.id = w.terminal.screen :=
  h.sound.screen_of_settled hsettled

theorem settled_screen_letter : ∃ (w : World RowHash.exact) (sub : Subscription),
    World.Reaches World.Meets (.new (letter ' ' [])) w ∧ w.Settled sub ∧
      w.screens sub.id = w.terminal.screen := by
  have h : World.Reaches World.Meets (.new (letter ' ' []) : World RowHash.exact) _ := .refl
  have h := h.step .spawn trivial (.spawn rfl rfl)
  have h := h.step .commandSend trivial (.commandSend rfl)
  have h := h.step .deliver trivial (.deliver rfl)
  have h := h.step (.ack 0 1) trivial (.ack rfl (by decide))
  have h := h.step .feed trivial (.feed (.inl rfl) (letter_fed ' ' 'A' [] (by decide)))
  have h := h.step .check trivial (.check rfl)
  have h := h.step (.render (.partly [0]))
    (fun _ _ _ => ⟨fun _ _ _ hsame => (Option.some_ne_none _ hsame.symm).elim,
      fun _ hcursor => (Option.some_ne_none _ hcursor.symm).elim⟩)
    (.render rfl ⟨rfl, fun _ h => h⟩)
  have h := h.step .offer trivial (.offer rfl rfl)
  have h := h.step .readerSend trivial (.readerSend rfl)
  have h := h.step .deliver trivial (.deliver rfl)
  have h := h.step (.ack 0 2) trivial (.ack rfl (by decide))
  refine ⟨_, ⟨0, 3, none, none, true⟩, h, ?settled, settled_screen h ?settled⟩
  exact ⟨rfl, rfl, rfl, rfl, rfl, rfl, rfl⟩

/-- The row is `A`, then `B` in a snapshot, then `A` again, which the reader's encoder remembers. -/
theorem suppressed_row : ∃ (w : World RowHash.exact) (sub : Subscription),
    World.Reaches (fun _ _ => True) (.new (letter ' ' [])) w ∧ w.Settled sub ∧
      w.screens sub.id ≠ w.terminal.screen := by
  have h : World.Reaches (fun _ _ => True) (.new (letter ' ' []) : World RowHash.exact) _ := .refl
  have h := h.step .spawn trivial (.spawn rfl rfl)
  have h := h.step .commandSend trivial (.commandSend rfl)
  have h := h.step .deliver trivial (.deliver rfl)
  have h := h.step (.ack 0 1) trivial (.ack rfl (by decide))
  have h := h.step .feed trivial (.feed (.inl rfl) (letter_fed ' ' 'A' [] (by decide)))
  have h := h.step .check trivial (.check rfl)
  have h := h.step (.render (.partly [0])) trivial (.render rfl ⟨rfl, fun _ h => h⟩)
  have h := h.step .offer trivial (.offer rfl rfl)
  have h := h.step .readerSend trivial (.readerSend rfl)
  -- The publication of `A` is in flight: `B` is a snapshot, which is set aside.
  have h := h.step .feed trivial (.feed (.inl rfl) (letter_fed 'A' 'B' [] (by decide)))
  have h := h.step .check trivial (.check rfl)
  have h := h.step .snapshot trivial (.snapshot rfl)
  have h := h.step .offer trivial (.offer rfl rfl)
  have h := h.step .deliver trivial (.deliver rfl)
  have h := h.step (.ack 0 2) trivial (.ack rfl (by decide))
  have h := h.step .commandSend trivial (.commandSend rfl)
  have h := h.step .deliver trivial (.deliver rfl)
  have h := h.step (.ack 0 3) trivial (.ack rfl (by decide))
  -- The reader renders `A` to an empty frame.
  have h := h.step .feed trivial (.feed (.inl rfl) (letter_fed 'B' 'A' [0] (by decide)))
  have h := h.step .check trivial (.check rfl)
  have h := h.step (.render (.partly [0])) trivial (.render rfl ⟨rfl, fun _ h => h⟩)
  exact ⟨_, _, h, ⟨rfl, rfl, rfl, rfl, rfl, rfl, rfl⟩, by decide⟩

/-- The reader hands the row to the renderer before, and the attachment the snapshot before. -/
example : ∃ (w : World RowHash.exact) (sub : Subscription),
    World.Reaches (fun _ _ => True) (.new (letter ' ' [])) w ∧ w.Settled sub ∧
      w.screens sub.id ≠ w.terminal.screen := by
  have h : World.Reaches (fun _ _ => True) (.new (letter ' ' []) : World RowHash.exact) _ := .refl
  have h := h.step .spawn trivial (.spawn rfl rfl)
  have h := h.step .commandSend trivial (.commandSend rfl)
  have h := h.step .deliver trivial (.deliver rfl)
  have h := h.step (.ack 0 1) trivial (.ack rfl (by decide))
  have h := h.step .attachSnapshot trivial (.attachSnapshot rfl)
  have h := h.step .feed trivial (.feed (.inl rfl) (letter_fed ' ' 'A' [] (by decide)))
  have h := h.step .check trivial (.check rfl)
  have h := h.step (.render (.partly [0])) trivial (.render rfl ⟨rfl, fun _ h => h⟩)
  have h := h.step .offer trivial (.offer rfl rfl)
  have h := h.step .readerSend trivial (.readerSend rfl)
  have h := h.step .attach trivial (.attach rfl rfl)
  have h := h.step .commandSend trivial (.commandSend rfl)
  have h := h.step .deliver trivial (.deliver rfl)
  have h := h.step .deliver trivial (.deliver rfl)
  have h := h.step (.ack 1 1) trivial (.ack rfl (by decide))
  exact ⟨_, _, h, ⟨rfl, rfl, rfl, rfl, rfl, rfl, rfl⟩, by decide⟩

end Buzz.Desktop.Terminal
