import Mathlib.Algebra.Order.Group.Nat
import Mathlib.Data.List.TakeWhile
import Mathlib.Logic.Relation
import Pos2.Wasi.Fields

/-! The bodies of `wasi3app/src/wasip3_http_wrapper/wasip3_http_ext`: `BodyWriter` copies
an `http_body::Body` into a stream and a future, `IncomingBody` is a body that reads the
other ends of such a pair. Each wait of the two is a state, each answer to it a step. -/

namespace Pos2.Wasi

/-- `http_body::Frame` -/
inductive Frame (ν υ : Type) where
  | data (bytes : Bytes)
  | trailers (map : HeaderMap ν υ)

/-- What goes through the future. -/
abbrev BodyResult := Except HttpErrorCode (Option Fields)

/-- `body_writer::Error` -/
inductive BodyWriterError where
  | httpBody (error : Text)
  | invalidTrailers (error : HeaderError)
  | resultReaderClosed (value : BodyResult)
  | streamReaderClosed (written : Nat) (unwritten : Bytes)

/-- Where `forward_http_body` is: what it waits for, or how it ended. Of the data that
`write_all` was given, `rest` was not taken yet. -/
inductive ForwardPhase where
  | frame
  | writeAll (data rest : Bytes)
  | writeError (error : Text)
  | writeTrailers (trailers : Option Fields)
  | returned (result : Except BodyWriterError Nat)
  | panicked
  | cancelled

/-- Both ends of the writer are dropped. -/
def ForwardPhase.gone : ForwardPhase → Bool
  | .returned _ | .panicked | .cancelled => true
  | _ => false

/-- What `result_writer.write` was called with. -/
def ForwardPhase.offers : ForwardPhase → Option BodyResult
  | .writeError error => some (.error (toInternalErrorCode error))
  | .writeTrailers trailers => some (.ok trailers)
  | _ => none

structure BodyWriter (ν υ : Type) where
  phase : ForwardPhase
  trailers : HeaderMap ν υ
  totalWritten : Nat

/-- The future's value where its writer is dropped without a write. -/
def bodyWriterDropped : BodyResult := .error (toInternalErrorCode "body writer dropped".toList)

namespace BodyWriter
variable {ν υ : Type}

def new : BodyWriter ν υ := ⟨.frame, HeaderMap.new, 0⟩

def goes (writer : BodyWriter ν υ) (phase : ForwardPhase) : BodyWriter ν υ := { writer with phase }

/-- `write_all` of `data` has returned. -/
def wroteAll (writer : BodyWriter ν υ) (data unwritten : Bytes) : BodyWriter ν υ :=
  if unwritten ≠ [] then
    writer.goes (.returned (.error (.streamReaderClosed (data.length - unwritten.length) unwritten)))
  else { writer with phase := .frame, totalWritten := (writer.totalWritten + data.length) % 2 ^ 64 }

/-- The write of the result has returned: it was read, or its reader is closed. -/
def wroteResult (writer : BodyWriter ν υ) (read : Bool) : BodyWriter ν υ :=
  match writer.phase with
  | .writeError error => writer.goes (.returned (.error (.httpBody error)))
  | .writeTrailers trailers =>
    writer.goes (.returned (if read then .ok writer.totalWritten else .error (.resultReaderClosed (.ok trailers))))
  | _ => writer

variable [DecidableEq ν]

/-- `process_http_body_frame`, up to where it waits. Trailers with the names of earlier
ones take their place. -/
def processHttpBodyFrame (writer : BodyWriter ν υ) : Frame ν υ → BodyWriter ν υ
  | .data bytes => writer.goes (.writeAll bytes bytes)
  | .trailers map => { writer with trailers := writer.trailers.extend map }

/-- `forward_http_body` behind its loop, up to where it waits. -/
def finish (types : HeaderTypes ν υ) (rules : FieldRules) (writer : BodyWriter ν υ) : BodyWriter ν υ :=
  if writer.trailers.isEmpty then writer.goes (.writeTrailers none)
  else
    match headerMapToFields types rules writer.trailers with
    | none => writer.goes .panicked
    | some (.error error) => writer.goes (.returned (.error (.invalidTrailers error)))
    | some (.ok fields) => writer.goes (.writeTrailers (some fields))

end BodyWriter

/-- A writer with its body and the ends that `BodyWriter::new` gave away: the frames that
the body has yielded and how it ended, the bytes that were read of the stream, and what was
read of the future. -/
structure Outgoing (ν υ : Type) where
  writer : BodyWriter ν υ
  pulled : List (Frame ν υ)
  ended : Option (Except Text Unit)
  taken : Bytes
  streamOpen : Bool
  resultOpen : Bool
  result : Option BodyResult

inductive OutgoingEvent (ν υ : Type) where
  | frame (frame : Frame ν υ)
  | fails (error : Text)
  | ends
  | take (chunk : Bytes)
  | wroteAll
  | readResult
  | resultClosed
  | readDefault
  | closeStream
  | closeResult
  | cancel

/-- The bytes that a step takes out of the stream. -/
def OutgoingEvent.bytes {ν υ : Type} : OutgoingEvent ν υ → Bytes
  | .take chunk => chunk
  | _ => []

namespace Outgoing
variable {ν υ : Type} [DecidableEq ν] (types : HeaderTypes ν υ) (rules : FieldRules)

def initial : Outgoing ν υ where
  writer := .new
  pulled := []
  ended := none
  taken := []
  streamOpen := true
  resultOpen := true
  result := none

/-- The body yields what it likes, and whoever holds the other ends reads or closes them
as they like. -/
inductive Step : OutgoingEvent ν υ → Outgoing ν υ → Outgoing ν υ → Prop where
  | frame {out} (frame : Frame ν υ) (waits : out.writer.phase = .frame) :
      Step (.frame frame) out
        { out with writer := out.writer.processHttpBodyFrame frame, pulled := out.pulled ++ [frame] }
  | fails {out} (error : Text) (waits : out.writer.phase = .frame) :
      Step (.fails error) out
        { out with writer := out.writer.goes (.writeError error), ended := some (.error error) }
  | ends {out} (waits : out.writer.phase = .frame) :
      Step .ends out { out with writer := out.writer.finish types rules, ended := some (.ok ()) }
  | take {out data chunk rest} (waits : out.writer.phase = .writeAll data (chunk ++ rest))
      (reads : out.streamOpen = true) :
      Step (.take chunk) out
        { out with writer := out.writer.goes (.writeAll data rest), taken := out.taken ++ chunk }
  | wroteAll {out data rest} (waits : out.writer.phase = .writeAll data rest)
      (returns : rest = [] ∨ out.streamOpen = false) :
      Step .wroteAll out { out with writer := out.writer.wroteAll data rest }
  | readResult {out value} (offers : out.writer.phase.offers = some value) (reads : out.resultOpen = true) :
      Step .readResult out { out with writer := out.writer.wroteResult true, result := some value }
  | resultClosed {out value} (offers : out.writer.phase.offers = some value) (closed : out.resultOpen = false) :
      Step .resultClosed out { out with writer := out.writer.wroteResult false }
  | readDefault {out} (gone : out.writer.phase.gone = true) (unwritten : out.result = none)
      (reads : out.resultOpen = true) :
      Step .readDefault out { out with result := some bodyWriterDropped }
  | closeStream {out} : Step .closeStream out { out with streamOpen := false }
  | closeResult {out} : Step .closeResult out { out with resultOpen := false }
  /-- The task is dropped where it waits. -/
  | cancel {out} (waits : out.writer.phase.gone = false) :
      Step .cancel out { out with writer := out.writer.goes .cancelled }

end Outgoing

/-! ### The reader -/

inductive Poll (α : Type) where
  | pending
  | ready (value : α)

/-- What a read of the stream ends with. Nobody cancels one. -/
inductive StreamResult where
  | complete (chunk : Bytes)
  | dropped

/-- What the two ends answer to a poll. -/
structure Ends where
  stream : Poll StreamResult
  trailers : Poll BodyResult

def READ_FRAME_SIZE : Nat := 16 * 1024

/-- The waits of the future in `Reading`. -/
inductive Awaiting where
  | stream
  | trailers
  deriving DecidableEq

inductive IncomingState where
  | ready
  | reading (awaiting : Awaiting)
  | done
  deriving DecidableEq

inductive StartedState (τ : Type) where
  | unstarted (message : τ)
  | started (state : IncomingState)
  | empty

/-- What `poll_frame` returns. -/
abbrev Polled (ν υ : Type) := Poll (Option (Except HttpErrorCode (Frame ν υ)))

section
variable {ν υ : Type} [DecidableEq ν] (types : HeaderTypes ν υ)

/-- The trailers, or the end of the loop with `Done`. -/
def IncomingState.pollTrailers (ends : Ends) : IncomingState × Polled ν υ :=
  match ends.trailers with
  | .pending => (.reading .trailers, .pending)
  | .ready (.ok (some fields)) =>
    (.done, .ready (some ((fieldsToHeaderMap types fields).map .trailers)))
  | .ready (.ok none) => (.done, .ready none)
  | .ready (.error error) => (.done, .ready (some (.error error)))

/-- The loop of `poll_frame`. A read that is not under way is begun. -/
def IncomingState.pollFrame (ends : Ends) : IncomingState → IncomingState × Polled ν υ
  | .ready | .reading .stream =>
    match ends.stream with
    | .pending => (.reading .stream, .pending)
    | .ready (.complete chunk) => (.ready, .ready (some (.ok (.data chunk))))
    | .ready .dropped => pollTrailers types ends
  | .reading .trailers => pollTrailers types ends
  | .done => (.done, .ready none)

end

structure IncomingBody (τ : Type) where
  state : StartedState τ

namespace IncomingBody
variable {τ : Type}

def new (message : τ) : IncomingBody τ := ⟨.unstarted message⟩

/-- `ensure_started` -/
def ensureStarted (body : IncomingBody τ) : IncomingBody τ × Except HttpErrorCode IncomingState :=
  match body.state with
  | .unstarted _ => (⟨.started .ready⟩, .ok .ready)
  | .started state => (body, .ok state)
  | .empty => (body, .error (toInternalErrorCode "cannot use IncomingBody after call to take_unstarted".toList))

variable {ν υ : Type} [DecidableEq ν] (types : HeaderTypes ν υ)

/-- `poll_frame` -/
def pollFrame (ends : Ends) (body : IncomingBody τ) : IncomingBody τ × Polled ν υ :=
  match body.ensureStarted with
  | (body, .error error) => (body, .ready (some (.error error)))
  | (_, .ok state) => (⟨.started (state.pollFrame types ends).1⟩, (state.pollFrame types ends).2)

end IncomingBody

/-! ### From a writer to a reader -/

/-- A writer whose ends someone reads for an `IncomingBody`: what is on its way, and what
the polls of the body have returned. -/
structure Relay (ν υ τ : Type) where
  out : Outgoing ν υ
  inTransit : Bytes
  incoming : IncomingBody τ
  given : List (Except HttpErrorCode (Frame ν υ))
  finished : Bool

inductive RelayEvent (ν υ : Type) where
  | out (event : OutgoingEvent ν υ)
  | poll (ends : Ends)

namespace Relay
variable {ν υ τ : Type}

def initial (message : τ) : Relay ν υ τ := ⟨.initial, [], .new message, [], false⟩

/-- A read gets bytes that are on their way; the stream ends behind them when its writer
is gone. What comes for the trailers is what was read of the future. -/
def Answers (relay : Relay ν υ τ) (ends : Ends) : Prop :=
  (match ends.stream with
    | .pending => True
    | .ready (.complete chunk) => chunk.length ≤ READ_FRAME_SIZE ∧ chunk <+: relay.inTransit
    | .ready .dropped => relay.inTransit = [] ∧ relay.out.writer.phase.gone = true) ∧
  match ends.trailers with
  | .pending => True
  | .ready result => relay.out.result = some result

/-- A poll has returned. -/
def receive (relay : Relay ν υ τ) (incoming : IncomingBody τ) : Polled ν υ → Relay ν υ τ
  | .pending => { relay with incoming }
  | .ready none => { relay with incoming, finished := true }
  | .ready (some (.ok (.data chunk))) =>
    { relay with incoming, given := relay.given ++ [.ok (.data chunk)], inTransit := relay.inTransit.drop chunk.length }
  | .ready (some item) => { relay with incoming, given := relay.given ++ [item] }

variable [DecidableEq ν] (types : HeaderTypes ν υ) (rules : FieldRules)

def poll (relay : Relay ν υ τ) (ends : Ends) : Relay ν υ τ :=
  relay.receive (relay.incoming.pollFrame types ends).1 (relay.incoming.pollFrame types ends).2

inductive Step : RelayEvent ν υ → Relay ν υ τ → Relay ν υ τ → Prop where
  | out {relay event out} (step : Outgoing.Step types rules event relay.out out) :
      Step (.out event) relay { relay with out, inTransit := relay.inTransit ++ event.bytes }
  | poll {relay ends} (answers : relay.Answers ends) : Step (.poll ends) relay (relay.poll types ends)

/-- When someone between the two does what. -/
abbrev Link (ν υ τ : Type) := OutgoingEvent ν υ → Relay ν υ τ → Prop

def anyLink : Link ν υ τ := fun _ _ => True

def waitsFor (relay : Relay ν υ τ) (awaiting : Awaiting) : Prop :=
  relay.incoming.state = .started (.reading awaiting)

/-- Nobody is between the two: an end is read where the body waits for it, and closed
only together with the body. -/
def direct : Link ν υ τ
  | .take _, relay => relay.waitsFor .stream ∧ relay.inTransit = []
  | .readResult, relay | .readDefault, relay => relay.waitsFor .trailers
  | .closeStream, _ | .closeResult, _ => False
  | _, _ => True

/-- What may happen under a link. -/
def Moves (link : Link ν υ τ) (before after : Relay ν υ τ) : Prop :=
  ∃ event, Step types rules event before after ∧
    match event with
    | .out event => link event before
    | .poll _ => True

def Reachable (link : Link ν υ τ) (message : τ) (relay : Relay ν υ τ) : Prop :=
  Relation.ReflTransGen (Moves types rules link) (initial message) relay

end Relay

end Pos2.Wasi
