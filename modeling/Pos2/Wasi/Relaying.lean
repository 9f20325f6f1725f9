import Pos2.Wasi.Bodies

/-! What the reader of a body knows of the body that was written, whoever passes it on
and whenever either side stops. -/

namespace Pos2.Wasi

/-! ### Messages -/

/-- How a body ends: whole, with its trailers, or not. -/
inductive Ending (ν υ : Type) where
  | whole (trailers : HeaderMap ν υ)
  | failed (error : HttpErrorCode)

/-- A body as far as it is known. -/
structure Message (ν υ : Type) where
  data : Bytes
  ending : Option (Ending ν υ)

/-- Of a message that was sent, one got knows the start, and that it is whole only where
it knows all of it. -/
structure Message.Covers {ν υ : Type} (sent got : Message ν υ) : Prop where
  starts : got.data <+: sent.data
  whole : ∀ trailers, got.ending = some (.whole trailers) → sent = got

namespace Frame
variable {ν υ : Type}

def bytes : Frame ν υ → Bytes
  | .data bytes => bytes
  | .trailers _ => []

def addTo [DecidableEq ν] (map : HeaderMap ν υ) : Frame ν υ → HeaderMap ν υ
  | .data _ => map
  | .trailers other => map.extend other

end Frame

section
variable {ν υ : Type}

def dataOf (frames : List (Frame ν υ)) : Bytes := frames.flatMap Frame.bytes

@[simp] theorem dataOf_append (front back : List (Frame ν υ)) :
    dataOf (front ++ back) = dataOf front ++ dataOf back := List.flatMap_append

@[simp] theorem dataOf_nil : dataOf ([] : List (Frame ν υ)) = [] := rfl

@[simp] theorem dataOf_data (bytes : Bytes) : dataOf [(Frame.data bytes : Frame ν υ)] = bytes := by
  simp [dataOf, Frame.bytes]

@[simp] theorem dataOf_trailers (map : HeaderMap ν υ) : dataOf [Frame.trailers map] = [] := rfl

variable [DecidableEq ν]

def trailersOf (frames : List (Frame ν υ)) : HeaderMap ν υ := frames.foldl Frame.addTo HeaderMap.new

@[simp] theorem trailersOf_snoc (frames : List (Frame ν υ)) (frame : Frame ν υ) :
    trailersOf (frames ++ [frame]) = frame.addTo (trailersOf frames) := by
  simp [trailersOf]

end

namespace BodyWriter
variable {ν υ : Type} (writer : BodyWriter ν υ)

@[simp] theorem goes_phase (phase : ForwardPhase) : (writer.goes phase).phase = phase := rfl

@[simp] theorem goes_trailers (phase : ForwardPhase) : (writer.goes phase).trailers = writer.trailers := rfl

@[simp] theorem goes_totalWritten (phase : ForwardPhase) : (writer.goes phase).totalWritten = writer.totalWritten := rfl

private theorem wroteAll_trailers (data unwritten : Bytes) :
    (writer.wroteAll data unwritten).trailers = writer.trailers := by
  rw [wroteAll]
  split <;> rfl

private theorem wroteResult_error {error : Text} (waits : writer.phase = .writeError error) (read : Bool) :
    writer.wroteResult read = writer.goes (.returned (.error (.httpBody error))) := by
  simp [wroteResult, waits]

theorem wroteResult_read {trailers : Option Fields} (waits : writer.phase = .writeTrailers trailers) :
    writer.wroteResult true = writer.goes (.returned (.ok writer.totalWritten)) := by
  simp [wroteResult, waits]

private theorem wroteResult_closed {trailers : Option Fields} (waits : writer.phase = .writeTrailers trailers) :
    writer.wroteResult false = writer.goes (.returned (.error (.resultReaderClosed (.ok trailers)))) := by
  simp [wroteResult, waits]

private theorem finish_trailers (types : HeaderTypes ν υ) (rules : FieldRules) :
    (writer.finish types rules).trailers = writer.trailers := by
  unfold finish
  split
  · rfl
  · split <;> rfl

/-- Behind its loop it ends at once only where the trailers are rejected. -/
theorem finish_gone {types : HeaderTypes ν υ} {rules : FieldRules}
    (gone : (writer.finish types rules).phase.gone = true) :
    ∃ error, (writer.finish types rules).phase = .returned (.error (.invalidTrailers error)) := by
  unfold finish at gone ⊢
  split
  next empty =>
    rw [if_pos empty] at gone
    cases gone
  next some_ =>
    rw [if_neg some_, headerMapToFields, headerMapToFieldEntries_eq, Option.map_some] at gone
    rw [headerMapToFields, headerMapToFieldEntries_eq, Option.map_some]
    cases made : Fields.fromList rules (writer.trailers.iter.map (asField types)) with
    | error error => exact ⟨error, rfl⟩
    | ok fields =>
      rw [made] at gone
      cases gone

end BodyWriter

theorem ForwardPhase.offers_eq {phase : ForwardPhase} {value : BodyResult} (offers : phase.offers = some value) :
    (∃ error, phase = .writeError error ∧ value = .error (toInternalErrorCode error)) ∨
      ∃ trailers, phase = .writeTrailers trailers ∧ value = .ok trailers := by
  cases phase <;> simp only [ForwardPhase.offers, reduceCtorEq, Option.some.injEq] at offers
  · exact .inl ⟨_, rfl, offers.symm⟩
  · exact .inr ⟨_, rfl, offers.symm⟩

/-! ### The writer -/

namespace Outgoing
variable {ν υ : Type} [DecidableEq ν] {types : HeaderTypes ν υ} {rules : FieldRules} {out later : Outgoing ν υ}

/-- What the body has said of itself. -/
def message (out : Outgoing ν υ) : Message ν υ where
  data := dataOf out.pulled
  ending := out.ended.map fun
    | .ok () => .whole (trailersOf out.pulled)
    | .error error => .failed (toInternalErrorCode error)

variable (types rules) in
/-- The trailers as they go through the future; none where there are none. -/
def TrailersAre (map : HeaderMap ν υ) : Option Fields → Prop
  | none => map.isEmpty = true
  | some fields => headerMapToFields types rules map = some (.ok fields)

/-- The body has ended so, and all of its data has been read. -/
def Complete (out : Outgoing ν υ) (ended : Except Text Unit) : Prop :=
  out.ended = some ended ∧ dataOf out.pulled = out.taken

variable (types rules) in
/-- What `forward_http_body` returned is so. -/
def Returned (out : Outgoing ν υ) : Except BodyWriterError Nat → Prop
  | .ok total => out.Complete (.ok ()) ∧ total = out.taken.length % 2 ^ 64 ∧
      ∃ trailers, out.result = some (.ok trailers)
  | .error (.httpBody error) => out.Complete (.error error) ∧
      (out.result = some (.error (toInternalErrorCode error)) ∨ out.resultOpen = false)
  | .error (.invalidTrailers error) => out.Complete (.ok ()) ∧
      headerMapToFields types rules (trailersOf out.pulled) = some (.error error)
  | .error (.resultReaderClosed value) => out.Complete (.ok ()) ∧ out.resultOpen = false ∧
      ∃ trailers, value = .ok trailers ∧ TrailersAre types rules (trailersOf out.pulled) trailers
  | .error (.streamReaderClosed written unwritten) => out.ended = none ∧ out.streamOpen = false ∧ unwritten ≠ [] ∧
      dataOf out.pulled = out.taken ++ unwritten ∧
      ∃ front data, out.pulled = front ++ [.data data] ∧ written + unwritten.length = data.length

variable (types rules) in
/-- What holds where `forward_http_body` is. -/
def At (out : Outgoing ν υ) : ForwardPhase → Prop
  | .frame => out.ended = none ∧ dataOf out.pulled = out.taken ∧
      out.writer.totalWritten = out.taken.length % 2 ^ 64
  | .writeAll data rest => out.ended = none ∧ dataOf out.pulled = out.taken ++ rest ∧
      (out.writer.totalWritten + data.length) % 2 ^ 64 = (dataOf out.pulled).length % 2 ^ 64 ∧
      rest.length ≤ data.length ∧ ∃ front, out.pulled = front ++ [.data data]
  | .writeError error => out.Complete (.error error)
  | .writeTrailers trailers => out.Complete (.ok ()) ∧ out.writer.totalWritten = out.taken.length % 2 ^ 64 ∧
      TrailersAre types rules (trailersOf out.pulled) trailers
  | .returned result => out.Returned types rules result
  | .panicked => False
  | .cancelled => out.taken <+: dataOf out.pulled

/-- The writer has stopped before its result was read. -/
def CutShort (out : Outgoing ν υ) : Prop :=
  out.writer.phase = .cancelled ∨
    (∃ written unwritten, out.writer.phase = .returned (.error (.streamReaderClosed written unwritten))) ∨
    ∃ error, out.writer.phase = .returned (.error (.invalidTrailers error))

variable (types rules) in
/-- The future's value tells how the body ended, or that the writer was stopped. -/
def Tells (out : Outgoing ν υ) : BodyResult → Prop
  | .ok trailers => out.Complete (.ok ()) ∧ TrailersAre types rules (trailersOf out.pulled) trailers
  | .error error => (∃ text, out.Complete (.error text) ∧ error = toInternalErrorCode text) ∨
      .error error = bodyWriterDropped ∧ out.CutShort

variable (types rules) in
structure Sound (out : Outgoing ν υ) : Prop where
  trailers : out.writer.trailers = trailersOf out.pulled
  phase : out.At types rules out.writer.phase
  unread : out.writer.phase.gone = false → out.result = none
  tells : ∀ value, out.result = some value → out.Tells types rules value

theorem initial_sound : (initial : Outgoing ν υ).Sound types rules where
  trailers := rfl
  phase := ⟨rfl, rfl, rfl⟩
  unread := fun _ => rfl
  tells := by
    intro value impossible
    cases impossible

/-- Nothing is taken out of the stream but the body's data. -/
theorem Sound.starts (sound : out.Sound types rules) : out.taken <+: dataOf out.pulled := by
  have phase := sound.phase
  cases same : out.writer.phase with
  | frame => rw [same] at phase; exact ⟨[], by rw [phase.2.1, List.append_nil]⟩
  | writeAll data rest => rw [same] at phase; exact ⟨rest, phase.2.1.symm⟩
  | writeError error => rw [same] at phase; exact ⟨[], by rw [phase.2, List.append_nil]⟩
  | writeTrailers trailers => rw [same] at phase; exact ⟨[], by rw [phase.1.2, List.append_nil]⟩
  | panicked => rw [same] at phase; exact phase.elim
  | cancelled => rw [same] at phase; exact phase
  | returned result =>
    rw [same] at phase
    have all {ended} (complete : out.Complete ended) : out.taken <+: dataOf out.pulled :=
      ⟨[], by rw [complete.2, List.append_nil]⟩
    cases result with
    | ok total => exact all phase.1
    | error error =>
      cases error with
      | httpBody => exact all phase.1
      | invalidTrailers => exact all phase.1
      | resultReaderClosed => exact all phase.1
      | streamReaderClosed written unwritten => exact ⟨unwritten, phase.2.2.2.1.symm⟩

/-- A step of a writer that is still there, where nothing is read of the future. -/
theorem Sound.moves (sound : out.Sound types rules) (still : out.writer.phase.gone = false)
    (same : later.result = out.result) (trailers : later.writer.trailers = trailersOf later.pulled)
    (phase : later.At types rules later.writer.phase) : later.Sound types rules where
  trailers := trailers
  phase := phase
  unread := fun _ => same.trans (sound.unread still)
  tells := by
    intro value read
    rw [same, sound.unread still] at read
    cases read

theorem Sound.frame (sound : out.Sound types rules) (frame : Frame ν υ) (waits : out.writer.phase = .frame) :
    ({ out with writer := out.writer.processHttpBodyFrame frame, pulled := out.pulled ++ [frame] } :
      Outgoing ν υ).Sound types rules := by
  have phase := sound.phase
  have still : out.writer.phase.gone = false := by rw [waits]; rfl
  rw [waits] at phase
  obtain ⟨open_, whole, total⟩ := phase
  cases frame with
  | data bytes =>
    refine sound.moves still rfl ?_ ?_
    · simp [BodyWriter.processHttpBodyFrame, sound.trailers, Frame.addTo]
    · refine ⟨open_, by simp [whole], ?_, le_refl _, out.pulled, rfl⟩
      simp [BodyWriter.processHttpBodyFrame, total, whole]
  | trailers map =>
    refine sound.moves still rfl ?_ ?_
    · simp [BodyWriter.processHttpBodyFrame, sound.trailers, Frame.addTo]
    · rw [BodyWriter.processHttpBodyFrame, waits]
      exact ⟨open_, by simp [whole], total⟩

theorem Sound.ends (sound : out.Sound types rules) (waits : out.writer.phase = .frame) :
    ({ out with writer := out.writer.finish types rules, ended := some (.ok ()) } : Outgoing ν υ).Sound types rules := by
  have phase := sound.phase
  have still : out.writer.phase.gone = false := by rw [waits]; rfl
  rw [waits] at phase
  obtain ⟨_, whole, total⟩ := phase
  refine sound.moves still rfl ((out.writer.finish_trailers types rules).trans sound.trailers) ?_
  simp only [BodyWriter.finish, sound.trailers]
  split
  next empty => exact ⟨⟨rfl, whole⟩, total, empty⟩
  next =>
    split
    next impossible => simp [headerMapToFields, headerMapToFieldEntries_eq] at impossible
    next error rejected => exact ⟨⟨rfl, whole⟩, rejected⟩
    next fields accepted => exact ⟨⟨rfl, whole⟩, total, accepted⟩

theorem Sound.wroteAll {data rest : Bytes} (sound : out.Sound types rules)
    (waits : out.writer.phase = .writeAll data rest) (returns : rest = [] ∨ out.streamOpen = false) :
    ({ out with writer := out.writer.wroteAll data rest } : Outgoing ν υ).Sound types rules := by
  have phase := sound.phase
  have still : out.writer.phase.gone = false := by rw [waits]; rfl
  rw [waits] at phase
  obtain ⟨open_, whole, total, shorter, front, same⟩ := phase
  refine sound.moves still rfl ((out.writer.wroteAll_trailers data rest).trans sound.trailers) ?_
  simp only [BodyWriter.wroteAll]
  split
  next left =>
    have closed := returns.resolve_left left
    exact ⟨open_, closed, left, whole, front, data, same, by omega⟩
  next nothing =>
    rw [not_not] at nothing
    rw [nothing, List.append_nil] at whole
    exact ⟨open_, whole, by simpa [whole] using total⟩

theorem Sound.readResult {value : BodyResult} (sound : out.Sound types rules)
    (offers : out.writer.phase.offers = some value) :
    ({ out with writer := out.writer.wroteResult true, result := some value } : Outgoing ν υ).Sound types rules := by
  have phase := sound.phase
  obtain ⟨error, waits, same⟩ | ⟨trailers, waits, same⟩ := ForwardPhase.offers_eq offers <;> subst same
  · rw [waits] at phase
    rw [out.writer.wroteResult_error waits]
    refine ⟨sound.trailers, ⟨phase, .inl rfl⟩, fun gone => (by cases gone), fun value read => ?_⟩
    cases read
    exact .inl ⟨error, phase, rfl⟩
  · rw [waits] at phase
    rw [out.writer.wroteResult_read waits]
    refine ⟨sound.trailers, ⟨phase.1, phase.2.1, trailers, rfl⟩, fun gone => (by cases gone), fun value read => ?_⟩
    cases read
    exact ⟨phase.1, phase.2.2⟩

theorem Sound.resultClosed {value : BodyResult} (sound : out.Sound types rules)
    (offers : out.writer.phase.offers = some value) (closed : out.resultOpen = false) :
    ({ out with writer := out.writer.wroteResult false } : Outgoing ν υ).Sound types rules := by
  have phase := sound.phase
  obtain ⟨error, waits, -⟩ | ⟨trailers, waits, -⟩ := ForwardPhase.offers_eq offers
  · rw [waits] at phase
    have still : out.writer.phase.gone = false := by rw [waits]; rfl
    rw [out.writer.wroteResult_error waits]
    exact sound.moves still rfl sound.trailers ⟨phase, .inr closed⟩
  · rw [waits] at phase
    have still : out.writer.phase.gone = false := by rw [waits]; rfl
    rw [out.writer.wroteResult_closed waits]
    exact sound.moves still rfl sound.trailers ⟨phase.1, closed, trailers, rfl, phase.2.2⟩

theorem Sound.readDefault (sound : out.Sound types rules) (gone : out.writer.phase.gone = true)
    (unwritten : out.result = none) (reads : out.resultOpen = true) :
    ({ out with result := some bodyWriterDropped } : Outgoing ν υ).Sound types rules := by
  have phase := sound.phase
  have cut : out.CutShort := by
    cases waits : out.writer.phase <;> rw [waits] at phase gone
    case cancelled => exact .inl waits
    case panicked => exact phase.elim
    case returned result =>
      cases result with
      | ok total =>
        obtain ⟨_, _, trailers, read⟩ := phase
        rw [unwritten] at read
        cases read
      | error error =>
        cases error with
        | httpBody error => simp_all [At, Returned]
        | invalidTrailers error => exact .inr (.inr ⟨error, waits⟩)
        | resultReaderClosed value => simp_all [At, Returned]
        | streamReaderClosed written unwritten => exact .inr (.inl ⟨written, unwritten, waits⟩)
    all_goals cases gone
  refine ⟨sound.trailers, ?_, fun still => ?_, fun value read => ?_⟩
  · obtain waits | ⟨written, unwritten, waits⟩ | ⟨error, waits⟩ := cut <;> simp only [waits] at phase ⊢ <;> exact phase
  · rw [gone] at still
    cases still
  · cases read
    exact .inr ⟨rfl, cut⟩

theorem Sound.fails (sound : out.Sound types rules) (error : Text) (waits : out.writer.phase = .frame) :
    ({ out with writer := out.writer.goes (.writeError error), ended := some (.error error) } :
      Outgoing ν υ).Sound types rules := by
  have phase := sound.phase
  have still : out.writer.phase.gone = false := by rw [waits]; rfl
  rw [waits] at phase
  exact sound.moves still rfl sound.trailers ⟨rfl, phase.2.1⟩

theorem Sound.take {data chunk rest : Bytes} (sound : out.Sound types rules)
    (waits : out.writer.phase = .writeAll data (chunk ++ rest)) :
    ({ out with writer := out.writer.goes (.writeAll data rest), taken := out.taken ++ chunk } :
      Outgoing ν υ).Sound types rules := by
  have phase := sound.phase
  have still : out.writer.phase.gone = false := by rw [waits]; rfl
  rw [waits] at phase
  obtain ⟨open_, whole, total, shorter, last⟩ := phase
  rw [List.length_append] at shorter
  refine sound.moves still rfl sound.trailers ⟨open_, ?_, total, ?_, last⟩
  · rw [List.append_assoc]
    exact whole
  · omega

theorem Sound.cancel (sound : out.Sound types rules) (still : out.writer.phase.gone = false) :
    ({ out with writer := out.writer.goes .cancelled } : Outgoing ν υ).Sound types rules :=
  sound.moves still rfl sound.trailers sound.starts

theorem Sound.closeStream (sound : out.Sound types rules) :
    ({ out with streamOpen := false } : Outgoing ν υ).Sound types rules := by
  refine ⟨sound.trailers, ?_, sound.unread, sound.tells⟩
  have phase := sound.phase
  simp only
  cases waits : out.writer.phase <;> rw [waits] at phase <;> try exact phase
  case returned result =>
    cases result with
    | ok total => exact phase
    | error error =>
      cases error with
      | streamReaderClosed written unwritten => exact ⟨phase.1, rfl, phase.2.2⟩
      | httpBody | invalidTrailers | resultReaderClosed => exact phase

theorem Sound.closeResult (sound : out.Sound types rules) :
    ({ out with resultOpen := false } : Outgoing ν υ).Sound types rules := by
  refine ⟨sound.trailers, ?_, sound.unread, sound.tells⟩
  have phase := sound.phase
  simp only
  cases waits : out.writer.phase <;> rw [waits] at phase <;> try exact phase
  case returned result =>
    cases result with
    | ok total => exact phase
    | error error =>
      cases error with
      | httpBody error => exact ⟨phase.1, .inr rfl⟩
      | resultReaderClosed value => exact ⟨phase.1, rfl, phase.2.2⟩
      | invalidTrailers | streamReaderClosed => exact phase

/-- Every step keeps it. -/
theorem Sound.step {event : OutgoingEvent ν υ} (sound : out.Sound types rules)
    (step : Step types rules event out later) : later.Sound types rules := by
  cases step with
  | frame frame waits => exact sound.frame frame waits
  | fails error waits => exact sound.fails error waits
  | ends waits => exact sound.ends waits
  | take waits reads => exact sound.take waits
  | wroteAll waits returns => exact sound.wroteAll waits returns
  | readResult offers reads => exact sound.readResult offers
  | resultClosed offers closed => exact sound.resultClosed offers closed
  | readDefault gone unwritten reads => exact sound.readDefault gone unwritten reads
  | closeStream => exact sound.closeStream
  | closeResult => exact sound.closeResult
  | cancel waits => exact sound.cancel waits

theorem Complete.whole (complete : out.Complete (.ok ())) :
    out.message = ⟨out.taken, some (.whole (trailersOf out.pulled))⟩ := by
  rw [message, complete.1, complete.2]
  rfl

theorem Complete.failed {error : Text} (complete : out.Complete (.error error)) :
    out.message = ⟨out.taken, some (.failed (toInternalErrorCode error))⟩ := by
  rw [message, complete.1, complete.2]
  rfl

theorem Step.bytes {event : OutgoingEvent ν υ} (step : Step types rules event out later) :
    later.taken = out.taken ++ event.bytes := by
  cases step <;> simp [OutgoingEvent.bytes]

/-- Where the writer is gone nothing more comes, and what was read stays read. -/
theorem Step.after {event : OutgoingEvent ν υ} (step : Step types rules event out later)
    (gone : out.writer.phase.gone = true) :
    event.bytes = [] ∧ later.writer.phase = out.writer.phase ∧
      ∀ value, out.result = some value → later.result = some value := by
  cases step with
  | frame _ waits | fails _ waits | ends waits | take waits | wroteAll waits =>
    rw [waits] at gone
    cases gone
  | readResult offers | resultClosed offers =>
    obtain ⟨error, waits, -⟩ | ⟨trailers, waits, -⟩ := ForwardPhase.offers_eq offers <;> rw [waits] at gone <;> cases gone
  | cancel still =>
    rw [still] at gone
    cases gone
  | readDefault _ unwritten =>
    refine ⟨rfl, rfl, fun value read => ?_⟩
    rw [unwritten] at read
    cases read
  | closeStream | closeResult => exact ⟨rfl, rfl, fun _ read => read⟩

end Outgoing

/-! ### The reader -/

section
variable {ν υ : Type}

def framesOf (items : List (Except HttpErrorCode (Frame ν υ))) : List (Frame ν υ) := items.filterMap Except.toOption

def errorsOf (items : List (Except HttpErrorCode (Frame ν υ))) : List HttpErrorCode :=
  items.filterMap fun
    | .ok _ => none
    | .error error => some error

/-- Data in chunks. -/
def chunked (chunks : List Bytes) : List (Except HttpErrorCode (Frame ν υ)) :=
  chunks.map fun chunk => .ok (.data chunk)

@[simp] theorem framesOf_append (front back : List (Except HttpErrorCode (Frame ν υ))) :
    framesOf (front ++ back) = framesOf front ++ framesOf back := List.filterMap_append

@[simp] theorem errorsOf_append (front back : List (Except HttpErrorCode (Frame ν υ))) :
    errorsOf (front ++ back) = errorsOf front ++ errorsOf back := List.filterMap_append

@[simp] theorem framesOf_chunked (chunks : List Bytes) :
    framesOf (chunked chunks : List (Except HttpErrorCode (Frame ν υ))) = chunks.map .data := by
  simp [framesOf, chunked, Except.toOption, List.filterMap_map, Function.comp_def]

@[simp] theorem errorsOf_chunked (chunks : List Bytes) :
    errorsOf (chunked chunks : List (Except HttpErrorCode (Frame ν υ))) = [] := by
  simp [errorsOf, chunked]

@[simp] theorem dataOf_chunks (chunks : List Bytes) :
    dataOf (chunks.map fun chunk => (Frame.data chunk : Frame ν υ)) = chunks.flatten := by
  simp [dataOf, List.flatMap_map, Frame.bytes, List.flatMap_id']

variable [DecidableEq ν]

@[simp] theorem trailersOf_chunks (chunks : List Bytes) :
    trailersOf (chunks.map fun chunk => (Frame.data chunk : Frame ν υ)) = HeaderMap.new := by
  rw [trailersOf]
  generalize HeaderMap.new = map
  induction chunks with
  | nil => rfl
  | cons chunk rest ih => exact ih

/-- The body that such items make, as far as they go. -/
def messageOf (items : List (Except HttpErrorCode (Frame ν υ))) (finished : Bool) : Message ν υ where
  data := dataOf (framesOf items)
  ending :=
    match errorsOf items with
    | error :: _ => some (.failed error)
    | [] => if finished then some (.whole (trailersOf (framesOf items))) else none

private theorem messageOf_chunked (chunks : List Bytes) (finished : Bool) :
    messageOf (chunked chunks : List (Except HttpErrorCode (Frame ν υ))) finished =
      ⟨chunks.flatten, if finished then some (.whole .new) else none⟩ := by
  simp [messageOf]

private theorem messageOf_trailers (chunks : List Bytes) (map : HeaderMap ν υ) (finished : Bool) :
    messageOf (chunked chunks ++ [.ok (.trailers map)]) finished =
      ⟨chunks.flatten, if finished then some (.whole map) else none⟩ := by
  have last : framesOf [.ok (.trailers map)] = [Frame.trailers map] := rfl
  have none_ : errorsOf [.ok (.trailers map)] = [] := rfl
  simp [messageOf, last, none_, Frame.addTo]

private theorem messageOf_error (chunks : List Bytes) (error : HttpErrorCode) (finished : Bool) :
    messageOf (chunked chunks ++ [.error error] : List (Except HttpErrorCode (Frame ν υ))) finished =
      ⟨chunks.flatten, some (.failed error)⟩ := by
  have nothing : framesOf [(.error error : Except HttpErrorCode (Frame ν υ))] = [] := rfl
  have last : errorsOf [(.error error : Except HttpErrorCode (Frame ν υ))] = [error] := rfl
  simp [messageOf, nothing, last]

end

namespace Relay
variable {ν υ τ : Type} [DecidableEq ν] {types : HeaderTypes ν υ} {rules : FieldRules}
  {relay later : Relay ν υ τ} {link : Link ν υ τ} {start : τ}

/-- What the reader knows of the body. -/
def message (relay : Relay ν υ τ) : Message ν υ := messageOf relay.given relay.finished

/-- Chunks of data were given, behind which others are on their way. -/
structure Reading (relay : Relay ν υ τ) (chunks : List Bytes) : Prop where
  given : relay.given = chunked chunks
  finished : relay.finished = false
  taken : relay.out.taken = chunks.flatten ++ relay.inTransit

variable (types) in
/-- What is given last, and whether the end came with it. -/
def lastOf : BodyResult → List (Except HttpErrorCode (Frame ν υ))
  | .ok none => []
  | .ok (some fields) => [(fieldsToHeaderMap types fields).map .trailers]
  | .error error => [.error error]

variable (types) in
/-- All data was given, and what was read of the future. -/
structure Read (relay : Relay ν υ τ) (chunks : List Bytes) (value : BodyResult) : Prop where
  given : relay.given = chunked chunks ++ lastOf types value
  taken : relay.out.taken = chunks.flatten
  gone : relay.out.writer.phase.gone = true
  result : relay.out.result = some value
  finished : value = .ok none → relay.finished = true

/-- The stream is read, now or at the next poll. -/
def reads : StartedState τ → Bool
  | .unstarted _ | .started .ready | .started (.reading .stream) => true
  | _ => false

variable (types) in
/-- What holds where the body is. -/
inductive At (relay : Relay ν υ τ) : StartedState τ → Prop where
  | data {state} (chunks : List Bytes) (streams : reads state = true) (reading : relay.Reading chunks) : At relay state
  | trailers {chunks} (reading : relay.Reading chunks) (empty : relay.inTransit = [])
      (gone : relay.out.writer.phase.gone = true) : At relay (.started (.reading .trailers))
  | done (chunks : List Bytes) (value : BodyResult) (read : relay.Read types chunks value) : At relay (.started .done)

variable (types rules) in
structure Sound (relay : Relay ν υ τ) : Prop where
  out : relay.out.Sound types rules
  incoming : relay.At types relay.incoming.state

theorem initial_sound (start : τ) : (initial start : Relay ν υ τ).Sound types rules where
  out := Outgoing.initial_sound
  incoming := .data [] rfl ⟨rfl, rfl, rfl⟩

theorem Reading.after {chunks : List Bytes} (reading : relay.Reading chunks) {event : OutgoingEvent ν υ}
    {out : Outgoing ν υ} (step : Outgoing.Step types rules event relay.out out) :
    Reading { relay with out, inTransit := relay.inTransit ++ event.bytes } chunks where
  given := reading.given
  finished := reading.finished
  taken := by
    rw [step.bytes, reading.taken, List.append_assoc]

theorem Sound.out_step (sound : relay.Sound types rules) {event : OutgoingEvent ν υ} {out : Outgoing ν υ}
    (step : Outgoing.Step types rules event relay.out out) :
    ({ relay with out, inTransit := relay.inTransit ++ event.bytes } : Relay ν υ τ).Sound types rules := by
  refine ⟨sound.out.step step, ?_⟩
  have incoming := sound.incoming
  simp only
  generalize relay.incoming.state = state at incoming
  cases incoming with
  | data chunks streams reading => exact .data chunks streams (reading.after step)
  | trailers reading empty gone =>
    obtain ⟨nothing, same, -⟩ := step.after gone
    exact .trailers (reading.after step) (by simp [empty, nothing]) (same ▸ gone)
  | done chunks value read =>
    obtain ⟨nothing, same, stays⟩ := step.after read.gone
    refine .done chunks value ⟨read.given, ?_, same ▸ read.gone, stays _ read.result, read.finished⟩
    rw [step.bytes, nothing, List.append_nil, read.taken]

/-- The stream has ended: what comes now is what was read of the future. -/
theorem Reading.trailers {chunks : List Bytes} (reading : relay.Reading chunks) (empty : relay.inTransit = [])
    (gone : relay.out.writer.phase.gone = true) {ends : Ends} (answers : relay.Answers ends) :
    (relay.receive (⟨.started (IncomingState.pollTrailers types ends).1⟩ : IncomingBody τ)
      (IncomingState.pollTrailers types ends).2).At types (.started (IncomingState.pollTrailers types ends).1) := by
  have told := answers.2
  cases trailers : ends.trailers with
  | pending =>
    simp only [IncomingState.pollTrailers, trailers]
    exact .trailers ⟨reading.given, reading.finished, reading.taken⟩ empty gone
  | ready value =>
    rw [trailers] at told
    have taken : relay.out.taken = chunks.flatten := by rw [reading.taken, empty, List.append_nil]
    cases value with
    | error error =>
      simp only [IncomingState.pollTrailers, trailers]
      refine .done chunks (.error error) ⟨?_, taken, gone, told, fun impossible => by cases impossible⟩
      simp [receive, reading.given, lastOf]
    | ok result =>
      cases result with
      | none =>
        simp only [IncomingState.pollTrailers, trailers]
        exact .done chunks (.ok none) ⟨by simp [receive, reading.given, lastOf], taken, gone, told, fun _ => rfl⟩
      | some fields =>
        simp only [IncomingState.pollTrailers, trailers]
        cases read : fieldsToHeaderMap types fields with
        | error error =>
          refine .done chunks (.ok (some fields)) ⟨?_, taken, gone, told, fun impossible => by cases impossible⟩
          simp [receive, reading.given, lastOf, read, Except.map]
        | ok map =>
          refine .done chunks (.ok (some fields)) ⟨?_, taken, gone, told, fun impossible => by cases impossible⟩
          simp [receive, reading.given, lastOf, read, Except.map]

theorem Reading.poll {chunks : List Bytes} (reading : relay.Reading chunks) {ends : Ends} (answers : relay.Answers ends)
    {state : IncomingState} (streams : reads (.started state : StartedState τ) = true) :
    (relay.receive (⟨.started (state.pollFrame types ends).1⟩ : IncomingBody τ) (state.pollFrame types ends).2).At types
      (.started (state.pollFrame types ends).1) := by
  have loop : state.pollFrame types ends = IncomingState.pollFrame types ends .ready := by
    cases state with
    | ready => rfl
    | done => cases streams
    | reading awaiting =>
      cases awaiting with
      | stream => rfl
      | trailers => cases streams
  rw [loop, IncomingState.pollFrame]
  have streamed := answers.1
  cases stream : ends.stream with
  | pending => exact .data chunks rfl ⟨reading.given, reading.finished, reading.taken⟩
  | ready result =>
    rw [stream] at streamed
    cases result with
    | dropped => exact reading.trailers streamed.1 streamed.2 answers
    | complete chunk =>
      obtain ⟨rest, same⟩ := streamed.2
      refine .data (chunks ++ [chunk]) rfl ⟨?_, reading.finished, ?_⟩
      · simp [receive, reading.given, chunked]
      · simp [receive, reading.taken, ← same]

omit [DecidableEq ν] in
theorem receive_out (relay : Relay ν υ τ) (incoming : IncomingBody τ) (polled : Polled ν υ) :
    (relay.receive incoming polled).out = relay.out ∧ (relay.receive incoming polled).incoming = incoming := by
  unfold receive
  split <;> exact ⟨rfl, rfl⟩

theorem Sound.poll (sound : relay.Sound types rules) {ends : Ends} (answers : relay.Answers ends) :
    (relay.poll types ends).Sound types rules := by
  obtain ⟨same, incoming⟩ := relay.receive_out (relay.incoming.pollFrame types ends).1
    (relay.incoming.pollFrame types ends).2
  refine ⟨same ▸ sound.out, ?_⟩
  rw [Relay.poll, incoming]
  have held := sound.incoming
  generalize state : relay.incoming.state = started at held
  cases held with
  | data chunks streams reading =>
    cases started with
    | unstarted =>
      simp only [IncomingBody.pollFrame, IncomingBody.ensureStarted, state]
      exact reading.poll answers rfl
    | empty => cases streams
    | started =>
      simp only [IncomingBody.pollFrame, IncomingBody.ensureStarted, state]
      exact reading.poll answers streams
  | trailers reading empty gone =>
    simp only [IncomingBody.pollFrame, IncomingBody.ensureStarted, state]
    exact reading.trailers empty gone answers
  | done chunks value read =>
    simp only [IncomingBody.pollFrame, IncomingBody.ensureStarted, state]
    exact .done chunks value ⟨read.given, read.taken, read.gone, read.result, fun _ => rfl⟩

theorem Sound.moves (sound : relay.Sound types rules) (moves : Moves types rules link relay later) :
    later.Sound types rules := by
  obtain ⟨event, step, -⟩ := moves
  cases step with
  | out step => exact sound.out_step step
  | poll answers => exact sound.poll answers

theorem Reachable.sound (reachable : relay.Reachable types rules link start) : relay.Sound types rules := by
  induction reachable with
  | refl => exact initial_sound start
  | tail _ moves ih => exact ih.moves moves

/-- Nothing was read wrongly, for all that a body was cut off. -/
structure Faithful (relay : Relay ν υ τ) : Prop where
  covers : relay.out.message.Covers relay.message
  failed : ∀ error, relay.message.ending = some (.failed error) →
    relay.message = relay.out.message ∨ .error error = bodyWriterDropped ∧ relay.out.CutShort

theorem Faithful.all (same : relay.message = relay.out.message) : relay.Faithful where
  covers := ⟨same.symm ▸ List.prefix_rfl, fun _ _ => same.symm⟩
  failed := fun _ _ => .inl same

/-- Of a message that goes on only the start is known. -/
theorem Faithful.partly {data : Bytes} (same : relay.message = ⟨data, none⟩) (starts : data <+: dataOf relay.out.pulled) :
    relay.Faithful where
  covers := by
    refine ⟨by rw [same]; exact starts, fun trailers whole => ?_⟩
    rw [same] at whole
    cases whole
  failed := by
    intro error failed
    rw [same] at failed
    cases failed

theorem Reading.message_eq {chunks : List Bytes} (reading : relay.Reading chunks) :
    relay.message = ⟨chunks.flatten, none⟩ := by
  rw [message, reading.given, reading.finished, messageOf_chunked]
  rfl

theorem Reading.faithful {chunks : List Bytes} (reading : relay.Reading chunks) (sound : relay.out.Sound types rules) :
    relay.Faithful := by
  refine .partly reading.message_eq (List.IsPrefix.trans ?_ sound.starts)
  rw [reading.taken]
  exact List.prefix_append _ _

private theorem Read.message_trailers {chunks : List Bytes} {fields : Fields} {map : HeaderMap ν υ}
    (read : relay.Read types chunks (.ok (some fields))) (same : fieldsToHeaderMap types fields = .ok map) :
    relay.message = ⟨chunks.flatten, if relay.finished then some (.whole map) else none⟩ := by
  have given := read.given
  rw [lastOf, same] at given
  rw [message, given]
  exact messageOf_trailers chunks map _

theorem Read.message_error {chunks : List Bytes} {error : HttpErrorCode}
    (read : relay.Read types chunks (.error error)) : relay.message = ⟨chunks.flatten, some (.failed error)⟩ := by
  rw [message, read.given, lastOf, messageOf_error]

/-- Where the end was reached, the message is known as it was sent. -/
theorem Read.whole {chunks : List Bytes} {trailers : Option Fields} (read : relay.Read types chunks (.ok trailers))
    (lawful : types.Lawful) (sound : relay.out.Sound types rules) (finished : relay.finished = true) :
    relay.message = relay.out.message := by
  obtain ⟨complete, same⟩ := sound.tells _ read.result
  rw [complete.whole, read.taken]
  cases trailers with
  | none =>
    rw [message, read.given, finished, lastOf, List.append_nil, messageOf_chunked, HeaderMap.eq_new same]
    rfl
  | some fields =>
    rw [read.message_trailers (headerMap_survives lawful same), finished]
    rfl

theorem Read.faithful {chunks : List Bytes} {value : BodyResult} (read : relay.Read types chunks value)
    (lawful : types.Lawful) (sound : relay.out.Sound types rules) : relay.Faithful := by
  have told := sound.tells value read.result
  have starts : chunks.flatten <+: dataOf relay.out.pulled := by
    rw [← read.taken]
    exact sound.starts
  cases value with
  | ok trailers =>
    cases finished : relay.finished with
    | true => exact .all (read.whole lawful sound finished)
    | false =>
      cases trailers with
      | none =>
        rw [read.finished rfl] at finished
        cases finished
      | some fields =>
        have same := read.message_trailers (headerMap_survives lawful told.2)
        rw [finished] at same
        exact .partly same starts
  | error error =>
    have same := read.message_error
    obtain ⟨text, complete, rfl⟩ | dropped := told
    · refine .all ?_
      rw [same, complete.failed, read.taken]
    · refine ⟨⟨same ▸ starts, fun trailers whole => ?_⟩, fun other failed => .inr ?_⟩
      · rw [same] at whole
        cases whole
      · rw [same] at failed
        cases failed
        exact dropped

theorem Sound.faithful (sound : relay.Sound types rules) (lawful : types.Lawful) : relay.Faithful := by
  have incoming := sound.incoming
  generalize relay.incoming.state = state at incoming
  cases incoming with
  | data chunks streams reading | trailers reading => exact reading.faithful sound.out
  | done chunks value read => exact read.faithful lawful sound.out

end Relay

end Pos2.Wasi
