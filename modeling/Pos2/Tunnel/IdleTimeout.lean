import Pos2.Tunnel.Streams

/-! `TimeoutStream` gives up on a connection that has been idle for too long. One timer
serves the five operations of both directions: any of them arms it, and any that is
ready pushes it forward. -/

namespace Pos2.Tunnel

/-- Instants and durations, counted from some start. An `Instant` has room for any timeout in use. -/
abbrev Instant := Nat
abbrev Duration := Nat

inductive Poll (α : Type) where
  | ready (value : α)
  | pending

/-- `io::Error`; the errors of the stream inside are its own. -/
inductive IoError (ε : Type) where
  | timedOut
  | other (error : ε)

abbrev IoResult (ε α : Type) := Except (IoError ε) α

/-- tokio's timer: ready from its deadline on. -/
structure Sleep where
  deadline : Instant

def Sleep.sleep (now : Instant) (duration : Duration) : Sleep := ⟨now + duration⟩

def Sleep.poll (now : Instant) (sleep : Sleep) : Poll Unit :=
  if sleep.deadline ≤ now then .ready () else .pending

structure TimeoutWrapper where
  timeout : Option Sleep
  idleDuration : Duration

namespace TimeoutWrapper

def new (idleDuration : Duration) : TimeoutWrapper := ⟨none, idleDuration⟩

def reset (now : Instant) (wrapper : TimeoutWrapper) : TimeoutWrapper :=
  match wrapper.timeout with
  | some _ => { wrapper with timeout := some ⟨now + wrapper.idleDuration⟩ }
  | none => { wrapper with timeout := some (.sleep now wrapper.idleDuration) }

def arm (now : Instant) (wrapper : TimeoutWrapper) : TimeoutWrapper :=
  match wrapper.timeout with
  | some _ => wrapper
  | none => { wrapper with timeout := some (.sleep now wrapper.idleDuration) }

def poll {ε α : Type} (now : Instant) (wrapper : TimeoutWrapper) : Poll (IoResult ε α) :=
  match wrapper.timeout with
  | some timeout =>
    match timeout.poll now with
    | .ready () => .ready (.error .timedOut)
    | .pending => .pending
  | none => .pending

/-- What every operation does with the reply of the stream inside. -/
def watch {ε α : Type} (now : Instant) (wrapper : TimeoutWrapper) : Poll (IoResult ε α) → Poll (IoResult ε α) × TimeoutWrapper
  | .ready result => (.ready result, wrapper.reset now)
  | .pending => ((wrapper.arm now).poll now, wrapper.arm now)

end TimeoutWrapper

/-- What a read has put into its buffer, and how much may be in there. -/
structure ReadBuf where
  filled : Chunk
  capacity : Nat

/-- `AsyncRead` and `AsyncWrite` of a stream with such states. -/
structure AsyncStream (ε σ : Type) where
  pollRead : σ → ReadBuf → Poll (IoResult ε Unit) × ReadBuf × σ
  pollWrite : σ → Chunk → Poll (IoResult ε Nat) × σ
  pollFlush : σ → Poll (IoResult ε Unit) × σ
  pollShutdown : σ → Poll (IoResult ε Unit) × σ
  pollWriteVectored : σ → List Chunk → Poll (IoResult ε Nat) × σ
  isWriteVectored : σ → Bool

structure TimeoutStream (σ : Type) where
  inner : σ
  timeout : TimeoutWrapper

namespace TimeoutStream
variable {ε σ : Type}

def new (inner : σ) (idleDuration : Duration) : TimeoutStream σ := ⟨inner, .new idleDuration⟩

section
variable (stream : AsyncStream ε σ) (now : Instant) (self : TimeoutStream σ)

def pollRead (buf : ReadBuf) : Poll (IoResult ε Unit) × ReadBuf × TimeoutStream σ :=
  let (inner, buf, state) := stream.pollRead self.inner buf
  let (result, timeout) := self.timeout.watch now inner
  (result, buf, ⟨state, timeout⟩)

def pollWrite (buf : Chunk) : Poll (IoResult ε Nat) × TimeoutStream σ :=
  let (inner, state) := stream.pollWrite self.inner buf
  let (result, timeout) := self.timeout.watch now inner
  (result, ⟨state, timeout⟩)

def pollFlush : Poll (IoResult ε Unit) × TimeoutStream σ :=
  let (inner, state) := stream.pollFlush self.inner
  let (result, timeout) := self.timeout.watch now inner
  (result, ⟨state, timeout⟩)

def pollShutdown : Poll (IoResult ε Unit) × TimeoutStream σ :=
  let (inner, state) := stream.pollShutdown self.inner
  let (result, timeout) := self.timeout.watch now inner
  (result, ⟨state, timeout⟩)

def pollWriteVectored (bufs : List Chunk) : Poll (IoResult ε Nat) × TimeoutStream σ :=
  let (inner, state) := stream.pollWriteVectored self.inner bufs
  let (result, timeout) := self.timeout.watch now inner
  (result, ⟨state, timeout⟩)

def isWriteVectored : Bool := stream.isWriteVectored self.inner

end

/-- The stream with its timeout, when polled at one instant. -/
def timed (stream : AsyncStream ε σ) (now : Instant) : AsyncStream ε (TimeoutStream σ) where
  pollRead := pollRead stream now
  pollWrite := pollWrite stream now
  pollFlush := pollFlush stream now
  pollShutdown := pollShutdown stream now
  pollWriteVectored := pollWriteVectored stream now
  isWriteVectored := isWriteVectored stream

end TimeoutStream

/-! ### Sequences of polls -/

/-- A poll of a stream, of any kind. -/
inductive Polling where
  | read (buf : ReadBuf)
  | write (buf : Chunk)
  | flush
  | shutdown
  | writeVectored (bufs : List Chunk)

/-- All that the caller gets back. -/
inductive Polled (ε : Type) where
  | read (result : Poll (IoResult ε Unit)) (buf : ReadBuf)
  | wrote (result : Poll (IoResult ε Nat))
  | settled (result : Poll (IoResult ε Unit))

def Poll.isReady {α : Type} : Poll α → Bool
  | .ready _ => true
  | .pending => false

namespace Polled
variable {ε : Type}

def isReady : Polled ε → Bool
  | .read result _ => result.isReady
  | .wrote result => result.isReady
  | .settled result => result.isReady

/-- The same with `TimedOut` for its result. -/
def timedOut : Polled ε → Polled ε
  | .read _ buf => .read (.ready (.error .timedOut)) buf
  | .wrote _ => .wrote (.ready (.error .timedOut))
  | .settled _ => .settled (.ready (.error .timedOut))

private theorem ne_timedOut {polled : Polled ε} (pending : polled.isReady = false) : polled ≠ polled.timedOut := by
  intro same
  rw [same] at pending
  cases polled <;> cases pending

end Polled

variable {ε σ τ : Type}

def AsyncStream.poll (stream : AsyncStream ε σ) (state : σ) : Polling → Polled ε × σ
  | .read buf =>
    let (result, buf, state) := stream.pollRead state buf
    (.read result buf, state)
  | .write buf =>
    let (result, state) := stream.pollWrite state buf
    (.wrote result, state)
  | .flush =>
    let (result, state) := stream.pollFlush state
    (.settled result, state)
  | .shutdown =>
    let (result, state) := stream.pollShutdown state
    (.settled result, state)
  | .writeVectored bufs =>
    let (result, state) := stream.pollWriteVectored state bufs
    (.wrote result, state)

/-- Polls one after the other, each at its time. -/
def pollAll (stream : Instant → AsyncStream ε τ) : τ → List (Instant × Polling) → List (Instant × Polled ε) × τ
  | state, [] => ([], state)
  | state, (now, polling) :: rest =>
    let (polled, state) := (stream now).poll state polling
    let (others, state) := pollAll stream state rest
    ((now, polled) :: others, state)

/-! ### Idleness -/

section
variable (earlier : List (Instant × Polled ε)) (now : Instant) (idle : Duration)

/-- The latest poll that was ready. -/
def latestReady : Option Instant := (earlier.reverse.find? fun poll => poll.2.isReady).map (·.1)

def firstPending : Option Instant := (earlier.find? fun poll => !poll.2.isReady).map (·.1)

/-- Since when the connection is idle at a poll that is pending, maybe the first of all. -/
def idleSince : Instant := (latestReady earlier).getD ((firstPending earlier).getD now)

/-- What is to be answered after such polls where the stream inside answers so. -/
def judged (polled : Polled ε) : Polled ε :=
  if polled.isReady then polled else if idleSince earlier now + idle ≤ now then polled.timedOut else polled

/-- The timer after such polls. -/
def TimeoutWrapper.after : TimeoutWrapper :=
  ⟨((latestReady earlier).or (firstPending earlier)).map fun since => ⟨since + idle⟩, idle⟩

variable {earlier now idle}

private theorem latestReady_ready {polled : Polled ε} (ready : polled.isReady = true) :
    latestReady (earlier ++ [(now, polled)]) = some now := by
  simp [latestReady, ready]

private theorem latestReady_pending {polled : Polled ε} (pending : polled.isReady = false) :
    latestReady (earlier ++ [(now, polled)]) = latestReady earlier := by
  simp [latestReady, pending]

private theorem firstPending_pending {polled : Polled ε} (pending : polled.isReady = false) :
    firstPending (earlier ++ [(now, polled)]) = (firstPending earlier).or (some now) := by
  rw [firstPending, firstPending, List.find?_append]
  cases earlier.find? fun poll => !poll.2.isReady <;> simp [pending]

private theorem TimeoutWrapper.reset_after {polled : Polled ε} (ready : polled.isReady = true) :
    (after earlier idle).reset now = after (earlier ++ [(now, polled)]) idle := by
  rw [reset, after, after, latestReady_ready ready]
  cases (latestReady earlier).or (firstPending earlier) <;> rfl

private theorem TimeoutWrapper.arm_after {polled : Polled ε} (pending : polled.isReady = false) :
    (after earlier idle).arm now = after (earlier ++ [(now, polled)]) idle := by
  rw [arm, after, after, latestReady_pending pending, firstPending_pending pending]
  cases latestReady earlier with
  | some since => rfl
  | none => cases firstPending earlier <;> rfl

private theorem TimeoutWrapper.poll_after {α : Type} {polled : Polled ε} (pending : polled.isReady = false) :
    (after (earlier ++ [(now, polled)]) idle).poll now =
      if idleSince earlier now + idle ≤ now then Poll.ready (.error .timedOut : IoResult ε α) else .pending := by
  have armed : (after (earlier ++ [(now, polled)]) idle).timeout = some ⟨idleSince earlier now + idle⟩ := by
    rw [after, latestReady_pending pending, firstPending_pending pending, idleSince]
    cases latestReady earlier with
    | some since => rfl
    | none => cases firstPending earlier <;> rfl
  rw [poll, armed]
  by_cases due : idleSince earlier now + idle ≤ now
  · simp only [Sleep.poll, if_pos due]
  · simp only [Sleep.poll, if_neg due]

variable (earlier now idle)

/-- The same for a single result. -/
def Poll.judged {α : Type} : Poll (IoResult ε α) → Poll (IoResult ε α)
  | .ready result => .ready result
  | .pending => if idleSince earlier now + idle ≤ now then .ready (.error .timedOut) else .pending

variable {earlier now idle}

private theorem TimeoutWrapper.watch_after {α : Type} (result : Poll (IoResult ε α)) (polled : Polled ε)
    (same : polled.isReady = result.isReady) :
    (after earlier idle).watch now result = (result.judged earlier now idle, after (earlier ++ [(now, polled)]) idle) := by
  cases result with
  | ready result => rw [watch, reset_after same, Poll.judged]
  | pending => rw [watch, arm_after same, poll_after same, Poll.judged]

private theorem judged_eq (polled : Polled ε) : judged earlier now idle polled =
    match polled with
    | .read result buf => .read (result.judged earlier now idle) buf
    | .wrote result => .wrote (result.judged earlier now idle)
    | .settled result => .settled (result.judged earlier now idle) := by
  rcases polled with ⟨result, buf⟩ | result | result
  all_goals
    cases result with
    | ready result => rfl
    | pending =>
      simp only [judged, Poll.judged, Polled.isReady, Poll.isReady, Bool.false_eq_true, if_false]
      split <;> rfl

end

/-- One poll, of whatever kind. -/
theorem TimeoutStream.poll_judged (stream : AsyncStream ε σ) (earlier : List (Instant × Polled ε)) (now : Instant)
    (idle : Duration) (state : σ) (polling : Polling) :
    (timed stream now).poll ⟨state, .after earlier idle⟩ polling =
      (judged earlier now idle (stream.poll state polling).1,
        ⟨(stream.poll state polling).2, .after (earlier ++ [(now, (stream.poll state polling).1)]) idle⟩) := by
  cases polling with
  | read buf =>
    simp only [AsyncStream.poll, timed, pollRead, judged_eq]
    rw [TimeoutWrapper.watch_after _ (.read _ _) rfl]
  | write buf =>
    simp only [AsyncStream.poll, timed, pollWrite, judged_eq]
    rw [TimeoutWrapper.watch_after _ (.wrote _) rfl]
  | flush =>
    simp only [AsyncStream.poll, timed, pollFlush, judged_eq]
    rw [TimeoutWrapper.watch_after _ (.settled _) rfl]
  | shutdown =>
    simp only [AsyncStream.poll, timed, pollShutdown, judged_eq]
    rw [TimeoutWrapper.watch_after _ (.settled _) rfl]
  | writeVectored bufs =>
    simp only [AsyncStream.poll, timed, pollWriteVectored, judged_eq]
    rw [TimeoutWrapper.watch_after _ (.wrote _) rfl]

/-- Any sequence of polls. The stream inside goes the way it goes alone. -/
theorem TimeoutStream.pollAll_after (stream : AsyncStream ε σ) (idle : Duration) (polls : List (Instant × Polling))
    (earlier : List (Instant × Polled ε)) (state : σ) :
    (pollAll (timed stream) ⟨state, .after earlier idle⟩ polls).2 =
      ⟨(pollAll (fun _ => stream) state polls).2, .after (earlier ++ (pollAll (fun _ => stream) state polls).1) idle⟩ := by
  induction polls generalizing earlier state with
  | nil => simp [pollAll]
  | cons poll rest ih =>
    obtain ⟨now, polling⟩ := poll
    simp only [pollAll]
    rw [poll_judged, ih, List.append_assoc]
    rfl

/-- A poll is answered by the stream inside where that is ready, and otherwise with
`TimedOut` exactly when the connection has been idle for so long. -/
theorem times_out_on_idleness (stream : AsyncStream ε σ) (inner : σ) (idle : Duration)
    (before : List (Instant × Polling)) (now : Instant) (polling : Polling) :
    let earlier := pollAll (fun _ => stream) inner before
    let outcome := (stream.poll earlier.2 polling).1
    let reply := ((TimeoutStream.timed stream now).poll
      (pollAll (TimeoutStream.timed stream) (.new inner idle) before).2 polling).1
    (outcome.isReady = true → reply = outcome) ∧
      (outcome.isReady = false →
        (reply = outcome.timedOut ↔ idleSince earlier.1 now + idle ≤ now) ∧
        (reply ≠ outcome.timedOut → reply = outcome)) := by
  intro earlier outcome reply
  have started : TimeoutStream.new inner idle = ⟨inner, .after ([] : List (Instant × Polled ε)) idle⟩ := rfl
  have replied : reply = judged earlier.1 now idle outcome := by
    simp only [reply, started, TimeoutStream.pollAll_after, List.nil_append, TimeoutStream.poll_judged]
    rfl
  rw [replied, judged]
  refine ⟨fun ready => if_pos ready, fun pending => ?_⟩
  rw [pending, if_neg Bool.false_ne_true]
  by_cases due : idleSince earlier.1 now + idle ≤ now
  · rw [if_pos due]
    exact ⟨iff_of_true rfl due, fun apart => (apart rfl).elim⟩
  · rw [if_neg due]
    exact ⟨iff_of_false (Polled.ne_timedOut pending) due, fun _ => rfl⟩

end Pos2.Tunnel
