import Buzz.Desktop.Terminal.Publisher

/-!
# One terminal session

The reader thread of `terminal_runtime.rs`, the commands of the renderer and the renderer, as lock
sections in any interleaving. The commands are serialized by the mutex of the sessions; the reader
runs between any two of their sections. A scroll is the one of `terminal_scroll` or of
`terminal_input`. The channel is in order, and the renderer acknowledges what it has applied.

## Main definitions

* `World`, `Action`, `Step`: the session and its sections.
* `Line.target`: what the renderer will hold once it has applied what it was handed.
* `World.Settled`: nothing is in flight or pending, and the reader has caught up.
-/

namespace Buzz.Desktop.Terminal

/-- Where the reader thread is in its loop. -/
inductive ReaderAt
  | reading
  | fed
  | checked (needsSnapshot : Bool)
  | captured (frame : Frame)
  | refused
  | sending (publication : Publication)

/-- Which section the command has reached that holds the sessions. -/
inductive CommandAt
  | idle
  | spawning
  | attaching (snapshot : Frame)
  | resized (viewport : Viewport)
  | scrolled
  | sending (publication : Publication)

variable {R : RowHash}

structure World (R : RowHash) where
  terminal : SharedTerminal
  encoder : Encoder R
  snapshotEncoder : Encoder R
  reader : ReaderAt
  /-- Whether the grid and the viewport are as the reader captured them last. -/
  current : Bool
  publisher : FramePublisher
  command : CommandAt
  wire : List Publication
  screens : SubscriptionId → Screen
  applied : List (SubscriptionId × ℕ)
  nextId : SubscriptionId

def ReaderAt.after : Option Publication → ReaderAt
  | none => .reading
  | some publication => .sending publication

def CommandAt.after : Option Publication → CommandAt
  | none => .idle
  | some publication => .sending publication

/-- `snapshot`, under an encoder. -/
def SharedTerminal.snapshot (t : SharedTerminal) (e : Encoder R) : Frame × Encoder R :=
  e.encode (captureAll t)

/-- Output: the visible rows that change are damaged. -/
structure SharedTerminal.Fed (t t' : SharedTerminal) : Prop where
  generation : t'.generation = t.generation
  columns : t'.grid.columns = t.grid.columns
  screenLines : t'.grid.screenLines = t.grid.screenLines
  everything : t.damage.everything → t'.damage.everything
  kept : ∀ i ∈ t.damage.lines, i ∈ t'.damage.lines
  changed : t'.damage.everything ∨
    ∀ i < t.grid.screenLines, t'.grid.cells i ≠ t.grid.cells i → i ∈ t'.damage.lines

/-- `Terminal::resize`: a size that is in effect is inert. -/
def SharedTerminal.Resized (t : SharedTerminal) (columns screenLines : ℕ) (t' : SharedTerminal) :
    Prop :=
  if t.grid.columns = columns ∧ t.grid.screenLines = screenLines then t' = t
  else t'.grid.columns = columns ∧ t'.grid.screenLines = screenLines ∧
    t'.generation = t.generation + 1 ∧ t'.damage.everything

/-- `scroll_display`, where the viewport moves. -/
def SharedTerminal.scrollTo (t : SharedTerminal) (displayOffset : ℕ) : SharedTerminal :=
  { t with
    grid := { t.grid with displayOffset }
    damage := { t.damage with everything := true } }

/-- A session whose reader has been spawned. -/
def World.new (terminal : SharedTerminal) : World R where
  terminal := terminal
  encoder := .new
  snapshotEncoder := .new
  reader := .reading
  current := false
  publisher := .new terminal.viewport
  command := .spawning
  wire := []
  screens := fun _ => .blank terminal.viewport
  applied := []
  nextId := 0

inductive Action
  | feed
  | check
  | render (damage : TermDamage)
  | snapshot
  | offer
  | retry
  | readerSend
  | spawn
  | attachSnapshot
  | attach
  | resize (columns screenLines : ℕ)
  | resizeApplied
  | scroll (displayOffset : ℕ)
  | scrollPublish
  | ack (id : SubscriptionId) (sequence : ℕ)
  | viewportReady (id : SubscriptionId) (viewport : Viewport)
  | commandSend
  | deliver

/-- The reader has a frame, which it passes over when it is empty. -/
def ReaderAt.take (frame : Frame) : ReaderAt := if frame.isEmpty then .reading else .captured frame

/-- One lock section. -/
inductive Step (w : World R) : Action → World R → Prop
  /-- `feed`, or a `drain` of the tail. -/
  | feed {t : SharedTerminal} (hat : w.reader = .reading ∨ w.reader = .fed)
      (hfed : w.terminal.Fed t) :
      Step w .feed { w with terminal := t, reader := .fed, current := false }
  | check (hat : w.reader = .fed) :
      Step w .check { w with reader := .checked w.publisher.requiresSnapshot }
  | render {damage : TermDamage} (hat : w.reader = .checked false)
      (hdamage : w.terminal.damage.Reported damage) :
      Step w (.render damage) { w with
        terminal := (capture w.terminal damage).2
        encoder := (w.encoder.encode (capture w.terminal damage).1).2
        reader := .take (w.encoder.encode (capture w.terminal damage).1).1
        current := true }
  | snapshot (hat : w.reader = .checked true) :
      Step w .snapshot { w with
        snapshotEncoder := (w.terminal.snapshot w.snapshotEncoder).2
        reader := .take (w.terminal.snapshot w.snapshotEncoder).1
        current := true }
  | offer {frame : Frame} {out : Option Publication} {p : FramePublisher}
      (hat : w.reader = .captured frame) (hoffer : w.publisher.offer frame = .ok (out, p)) :
      Step w .offer { w with publisher := p, reader := .after out }
  | offerRefused {frame : Frame} {e : OfferError} (hat : w.reader = .captured frame)
      (hoffer : w.publisher.offer frame = .error e) :
      Step w .offer { w with reader := .refused }
  /-- `offer_capture` holds the publisher while it takes the snapshot. -/
  | retry {out : Option Publication} {p : FramePublisher} (hat : w.reader = .refused)
      (hoffer : w.publisher.offer (w.terminal.snapshot w.snapshotEncoder).1 = .ok (out, p)) :
      Step w .retry { w with
        snapshotEncoder := (w.terminal.snapshot w.snapshotEncoder).2
        publisher := p, reader := .after out, current := true }
  | readerSend {publication : Publication} (hat : w.reader = .sending publication) :
      Step w .readerSend { w with wire := w.wire ++ [publication], reader := .reading }
  /-- The first attachment takes its snapshot while it holds the publisher. -/
  | spawn {publication : Publication} {p : FramePublisher} (hat : w.command = .spawning)
      (hattach : w.publisher.attach w.nextId (w.terminal.snapshot (Encoder.new : Encoder R)).1 =
        .ok (publication, p)) :
      Step w .spawn { w with
        publisher := p, command := .sending publication, nextId := w.nextId + 1 }
  | attachSnapshot (hat : w.command = .idle) :
      Step w .attachSnapshot { w with
        command := .attaching (w.terminal.snapshot (Encoder.new : Encoder R)).1 }
  | attach {snapshot : Frame} {publication : Publication} {p : FramePublisher}
      (hat : w.command = .attaching snapshot)
      (hattach : w.publisher.attach w.nextId snapshot = .ok (publication, p)) :
      Step w .attach { w with
        publisher := p, command := .sending publication, nextId := w.nextId + 1 }
  | attachRejected {snapshot : Frame} {e : OfferError} (hat : w.command = .attaching snapshot)
      (hattach : w.publisher.attach w.nextId snapshot = .error e) :
      Step w .attach { w with command := .idle, nextId := w.nextId + 1 }
  | resize {columns screenLines : ℕ} {t : SharedTerminal} (hat : w.command = .idle)
      (hresized : w.terminal.Resized columns screenLines t) :
      Step w (.resize columns screenLines) { w with
        terminal := t, command := .resized t.viewport
        current := w.current && decide (t.viewport = w.terminal.viewport) }
  | resizeApplied {viewport : Viewport} {out : Option Publication} {p : FramePublisher}
      (hat : w.command = .resized viewport)
      (hoffer : (w.publisher.resizeApplied viewport).offer
        (w.terminal.snapshot (Encoder.new : Encoder R)).1 = .ok (out, p)) :
      Step w .resizeApplied { w with publisher := p, command := .after out }
  | scroll {displayOffset : ℕ} (hat : w.command = .idle)
      (hmoved : displayOffset ≠ w.terminal.grid.displayOffset) :
      Step w (.scroll displayOffset) { w with
        terminal := w.terminal.scrollTo displayOffset, command := .scrolled, current := false }
  | scrollPublish {out : Option Publication} {p : FramePublisher} (hat : w.command = .scrolled)
      (hoffer : w.publisher.offer (w.terminal.snapshot (Encoder.new : Encoder R)).1 =
        .ok (out, p)) :
      Step w .scrollPublish { w with publisher := p, command := .after out }
  | ack {id : SubscriptionId} {sequence : ℕ} (hat : w.command = .idle)
      (happlied : (id, sequence) ∈ w.applied) :
      Step w (.ack id sequence) { w with
        publisher := (w.publisher.acknowledge id sequence).2
        command := .after (w.publisher.acknowledge id sequence).1 }
  | viewportReady {id : SubscriptionId} {viewport : Viewport} (hat : w.command = .idle) :
      Step w (.viewportReady id viewport) { w with
        publisher := (w.publisher.viewportReady id viewport).2
        command := .after (w.publisher.viewportReady id viewport).1 }
  | commandSend {publication : Publication} (hat : w.command = .sending publication) :
      Step w .commandSend { w with wire := w.wire ++ [publication], command := .idle }
  /-- The renderer applies the next publication. -/
  | deliver {publication : Publication} {rest : List Publication}
      (hwire : w.wire = publication :: rest) :
      Step w .deliver { w with
        wire := rest
        screens := Function.update w.screens publication.subscriptionId
          ((w.screens publication.subscriptionId).apply publication.frame)
        applied := (publication.subscriptionId, publication.sequence) :: w.applied }

/-! ### What the renderer will hold -/

/-- The way from the publisher to the renderers: the publications not yet applied, what the renderers
hold and what they have applied. -/
structure Line where
  publisher : FramePublisher
  transit : List Publication
  screens : SubscriptionId → Screen
  applied : List (SubscriptionId × ℕ)
  nextId : SubscriptionId

namespace Line

variable (l : Line)

/-- What the renderer of a subscription holds once it has applied what was published. -/
def shown (id : SubscriptionId) : Screen :=
  (l.transit.filter (·.subscriptionId = id)).foldl (fun s p => s.apply p.frame) (l.screens id)

/-- What the renderer holds once it has applied what was published and what is pending. -/
def target (sub : Subscription) : Screen :=
  sub.pending.toList.foldl Screen.apply (l.shown sub.id)

end Line

def ReaderAt.unsent : ReaderAt → List Publication
  | .sending publication => [publication]
  | _ => []

def CommandAt.unsent : CommandAt → List Publication
  | .sending publication => [publication]
  | _ => []

namespace World

variable (w : World R)

def line : Line :=
  ⟨w.publisher, w.wire ++ w.reader.unsent ++ w.command.unsent, w.screens, w.applied, w.nextId⟩

/-- Nothing is in flight or pending, the viewport that the grid has is ready, and the reader has
completed an iteration since the last change of the grid or the viewport. -/
structure Settled (sub : Subscription) : Prop where
  attached : w.publisher.subscription = some sub
  inFlight : sub.inFlight = none
  pending : sub.pending = none
  ready : sub.viewportReady = true
  applied : w.publisher.applied = w.terminal.viewport
  reading : w.reader = .reading
  current : w.current = true

end World

end Buzz.Desktop.Terminal
