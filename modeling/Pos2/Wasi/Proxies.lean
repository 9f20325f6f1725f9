import Mathlib.Logic.Function.Basic
import Pos2.Wasi.Relaying

/-! A body on its way through apps that each forward the body they read, and the two
ends where nobody is between them. -/

namespace Pos2.Wasi
variable {ν υ τ : Type}

theorem Message.Covers.trans {sent passed got : Message ν υ} (first : sent.Covers passed) (second : passed.Covers got) :
    sent.Covers got where
  starts := second.starts.trans first.starts
  whole := by
    intro trailers whole
    have same := second.whole trailers whole
    rw [← same] at whole
    exact (first.whole trailers whole).trans same

/-- Steps of the body itself. -/
def OutgoingEvent.ofBody : OutgoingEvent ν υ → Bool
  | .frame _ | .fails _ | .ends => true
  | _ => false

/-- What `forward_http_body` does with what the body yields; an error is shown. -/
def bodyEvent (display : HttpErrorCode → Text) : Option (Except HttpErrorCode (Frame ν υ)) → OutgoingEvent ν υ
  | some (.ok frame) => .frame frame
  | some (.error error) => .fails (display error)
  | none => .ends

variable [DecidableEq ν] {types : HeaderTypes ν υ} {rules : FieldRules} {display : HttpErrorCode → Text}

private theorem Outgoing.Step.passive {event : OutgoingEvent ν υ} {out later : Outgoing ν υ}
    (step : Step types rules event out later) (passive : event.ofBody = false) :
    later.pulled = out.pulled ∧ later.ended = out.ended := by
  cases step with
  | frame | fails | ends => cases passive
  | _ => exact ⟨rfl, rfl⟩

/-- Whoever reads may take all that there is. -/
theorem Outgoing.Step.all {out : Outgoing ν υ} {data rest : Bytes} (waits : out.writer.phase = .writeAll data rest)
    (reads : out.streamOpen = true) :
    Outgoing.Step types rules (.take rest) out
      { out with writer := out.writer.goes (.writeAll data []), taken := out.taken ++ rest } :=
  .take (by rw [List.append_nil]; exact waits) reads

namespace Relay

omit [DecidableEq ν] in
theorem Answers.nothing (relay : Relay ν υ τ) : relay.Answers ⟨.pending, .pending⟩ := ⟨trivial, trivial⟩

omit [DecidableEq ν] in
theorem Answers.next (relay : Relay ν υ τ) :
    relay.Answers ⟨.ready (.complete (relay.inTransit.take READ_FRAME_SIZE)), .pending⟩ :=
  ⟨⟨List.length_take_le _ _, List.take_prefix _ _⟩, trivial⟩

omit [DecidableEq ν] in
private theorem Answers.over {relay : Relay ν υ τ} {value : BodyResult} (empty : relay.inTransit = [])
    (gone : relay.out.writer.phase.gone = true) (result : relay.out.result = some value) :
    relay.Answers ⟨.ready .dropped, .ready value⟩ := ⟨⟨empty, gone⟩, result⟩

/-- What an outgoing event does to the pair. -/
def sends (relay : Relay ν υ τ) (event : OutgoingEvent ν υ) (out : Outgoing ν υ) : Relay ν υ τ :=
  { relay with out, inTransit := relay.inTransit ++ event.bytes }

private theorem poll_pending {relay : Relay ν υ τ} {ends : Ends}
    (polled : (relay.incoming.pollFrame types ends).2 = .pending) :
    (relay.poll types ends).given = relay.given ∧ (relay.poll types ends).finished = relay.finished := by
  rw [poll, polled]
  exact ⟨rfl, rfl⟩

private theorem poll_out (relay : Relay ν υ τ) (ends : Ends) : (relay.poll types ends).out = relay.out :=
  (relay.receive_out _ _).1

/-- What a poll returned was given. -/
theorem poll_ready {relay : Relay ν υ τ} {ends : Ends} {item : Option (Except HttpErrorCode (Frame ν υ))}
    (polled : (relay.incoming.pollFrame types ends).2 = .ready item) :
    (relay.poll types ends).given = relay.given ++ item.toList ∧
      (item = none → (relay.poll types ends).finished = true) := by
  rw [poll, polled]
  cases item with
  | none => exact ⟨by simp [receive], fun _ => rfl⟩
  | some item =>
    cases item with
    | error error => exact ⟨rfl, fun impossible => by cases impossible⟩
    | ok frame => cases frame <;> exact ⟨rfl, fun impossible => by cases impossible⟩

end Relay

/-- Names and values that are kept as they are. -/
def plainHeaders : HeaderTypes Text Bytes := ⟨.ok, id, .ok, id⟩

private theorem plainHeaders_lawful : plainHeaders.Lawful := ⟨fun _ => rfl, fun _ => rfl⟩

def sums : HeaderMap Text Bytes := HeaderMap.new.append "x-sum".toList [7]

/-- The writer of the first pair forwards some body, that of each other one the body
that is read of the pair before. -/
abbrev Hops (ν υ τ : Type) := Nat → Relay ν υ τ

namespace Hops

variable (types rules display) in
inductive Step (last : Nat) : Hops ν υ τ → Hops ν υ τ → Prop where
  | source {hops : Hops ν υ τ} {event out} (step : Outgoing.Step types rules event (hops 0).out out) :
      Step last hops (Function.update hops 0 ((hops 0).sends event out))
  | within {hops : Hops ν υ τ} {k event out} (passive : event.ofBody = false)
      (step : Outgoing.Step types rules event (hops k).out out) :
      Step last hops (Function.update hops k ((hops k).sends event out))
  | waits {hops : Hops ν υ τ} {k ends} (asks : k < last → (hops (k + 1)).out.writer.phase = .frame)
      (answers : (hops k).Answers ends)
      (polled : ((hops k).incoming.pollFrame types ends).2 = .pending) :
      Step last hops (Function.update hops k ((hops k).poll types ends))
  | passes {hops : Hops ν υ τ} {k ends item out} (inside : k < last) (answers : (hops k).Answers ends)
      (polled : ((hops k).incoming.pollFrame types ends).2 = .ready item)
      (step : Outgoing.Step types rules (bodyEvent display item) (hops (k + 1)).out out) :
      Step last hops (Function.update (Function.update hops k ((hops k).poll types ends)) (k + 1)
        ((hops (k + 1)).sends (bodyEvent display item) out))
  | reads {hops : Hops ν υ τ} {ends} (answers : (hops last).Answers ends) :
      Step last hops (Function.update hops last ((hops last).poll types ends))

variable (types rules display) in
def Reachable (last : Nat) (starts : Nat → τ) (hops : Hops ν υ τ) : Prop :=
  Relation.ReflTransGen (Step types rules display last) (fun k => .initial (starts k)) hops

variable (display) in
/-- The second pair's writer has what was read of the first. -/
structure Passed (up down : Relay ν υ τ) : Prop where
  frames : down.out.pulled = framesOf up.given
  going : down.out.ended = none → errorsOf up.given = []
  whole : down.out.ended = some (.ok ()) → errorsOf up.given = [] ∧ up.finished = true
  failed : ∀ text, down.out.ended = some (.error text) → ∃ error, errorsOf up.given = [error] ∧ text = display error

variable {up down : Relay ν υ τ}

theorem Passed.covers (passed : Passed display up down) : up.message.Covers down.out.message where
  starts := by
    rw [Outgoing.message, passed.frames]
    exact List.prefix_rfl
  whole := by
    intro trailers whole
    rw [Outgoing.message] at whole
    cases ended : down.out.ended with
    | none =>
      rw [ended] at whole
      cases whole
    | some ending =>
      cases ending with
      | error text =>
        rw [ended] at whole
        cases whole
      | ok =>
        obtain ⟨clean, finished⟩ := passed.whole ended
        rw [Relay.message, messageOf, Outgoing.message, clean, finished, ended, passed.frames]
        rfl

omit [DecidableEq ν] in
theorem Passed.upper (passed : Passed display up down) {later : Relay ν υ τ}
    (same : later.given = up.given ∧ later.finished = up.finished) : Passed display later down := by
  obtain ⟨given, finished⟩ := same
  refine ⟨?_, ?_, ?_, ?_⟩ <;> rw [given]
  · exact passed.frames
  · exact passed.going
  · rw [finished]
    exact passed.whole
  · exact passed.failed

omit [DecidableEq ν] in
theorem Passed.lower (passed : Passed display up down) {later : Relay ν υ τ}
    (same : later.out.pulled = down.out.pulled ∧ later.out.ended = down.out.ended) : Passed display up later := by
  obtain ⟨pulled, ended⟩ := same
  refine ⟨?_, ?_, ?_, ?_⟩
  · rw [pulled]
    exact passed.frames
  · rw [ended]
    exact passed.going
  · rw [ended]
    exact passed.whole
  · rw [ended]
    exact passed.failed

/-- An app has read an item and begun to forward it. -/
theorem Passed.passes (passed : Passed display up down) (sound : down.out.Sound types rules) {ends : Ends}
    {item : Option (Except HttpErrorCode (Frame ν υ))} {out : Outgoing ν υ}
    (polled : (up.incoming.pollFrame types ends).2 = .ready item)
    (step : Outgoing.Step types rules (bodyEvent display item) down.out out) :
    Passed display (up.poll types ends) (down.sends (bodyEvent display item) out) := by
  obtain ⟨given, finished⟩ := Relay.poll_ready polled
  have clean (waits : down.out.writer.phase = .frame) : down.out.ended = none ∧ errorsOf up.given = [] := by
    have phase := sound.phase
    rw [waits] at phase
    exact ⟨phase.1, passed.going phase.1⟩
  cases item with
  | none =>
    cases step with
    | ends waits =>
      refine ⟨?_, ?_, fun _ => ⟨?_, finished rfl⟩, ?_⟩ <;> rw [given]
      · simp [Relay.sends, passed.frames]
      · exact fun impossible => by cases impossible
      · simpa using (clean waits).2
      · exact fun text impossible => by cases impossible
  | some item =>
    cases item with
    | ok frame =>
      cases step with
      | frame _ waits =>
        obtain ⟨open_, none_⟩ := clean waits
        have alone : errorsOf [(.ok frame : Except HttpErrorCode (Frame ν υ))] = [] := rfl
        have one : framesOf [(.ok frame : Except HttpErrorCode (Frame ν υ))] = [frame] := rfl
        refine ⟨?_, fun _ => ?_, ?_, ?_⟩ <;> rw [given]
        · simp [Relay.sends, passed.frames, one]
        · simp [none_, alone]
        · intro impossible
          rw [Relay.sends, open_] at impossible
          cases impossible
        · intro text impossible
          rw [Relay.sends, open_] at impossible
          cases impossible
    | error error =>
      cases step with
      | fails _ waits =>
        have alone : errorsOf [(.error error : Except HttpErrorCode (Frame ν υ))] = [error] := rfl
        have nothing : framesOf [(.error error : Except HttpErrorCode (Frame ν υ))] = [] := rfl
        refine ⟨?_, ?_, ?_, ?_⟩ <;> rw [given]
        · simp [Relay.sends, passed.frames, nothing]
        · exact fun impossible => by cases impossible
        · exact fun impossible => by cases impossible
        · intro text same
          cases same
          exact ⟨error, by simp [(clean waits).2, alone], rfl⟩

variable (types rules display) in
structure Sound (last : Nat) (hops : Hops ν υ τ) : Prop where
  relays : ∀ k, (hops k).Sound types rules
  passed : ∀ k, k < last → Passed display (hops k) (hops (k + 1))

variable {hops later : Hops ν υ τ} {last : Nat}

theorem initial_sound (starts : Nat → τ) : Sound types rules display last (fun k => Relay.initial (starts k)) where
  relays := fun k => Relay.initial_sound (starts k)
  passed := fun k _ => ⟨rfl, fun _ => rfl, fun impossible => (by cases impossible), fun _ impossible => by cases impossible⟩

/-- One pair has changed: it was passed on as before, and so was what came to it. -/
theorem Sound.update (sound : Sound types rules display last hops) {k : Nat} {relay : Relay ν υ τ}
    (kept : relay.Sound types rules) (upper : k < last → Passed display relay (hops (k + 1)))
    (lower : ∀ before, k = before + 1 → before < last → Passed display (hops before) relay) :
    Sound types rules display last (Function.update hops k relay) where
  relays := by
    intro j
    by_cases same : j = k
    · subst same
      rw [Function.update_self]
      exact kept
    · rw [Function.update_of_ne same]
      exact sound.relays j
  passed := by
    intro j inside
    by_cases same : j = k
    · subst same
      rw [Function.update_self, Function.update_of_ne (by omega)]
      exact upper inside
    · rw [Function.update_of_ne same]
      by_cases next : j + 1 = k
      · rw [next, Function.update_self]
        exact lower j next.symm inside
      · rw [Function.update_of_ne next]
        exact sound.passed j inside

/-- What one pair's reader got, the next one's writer has. -/
theorem Sound.passes (sound : Sound types rules display last hops) {k : Nat} {up down : Relay ν υ τ}
    (upKept : up.Sound types rules) (downKept : down.Sound types rules) (passed : Passed display up down)
    (above : up.out = (hops k).out) (below : down.given = (hops (k + 1)).given ∧ down.finished = (hops (k + 1)).finished) :
    Sound types rules display last (Function.update (Function.update hops k up) (k + 1) down) where
  relays := by
    intro j
    by_cases second : j = k + 1
    · subst second
      rw [Function.update_self]
      exact downKept
    · rw [Function.update_of_ne second]
      by_cases first : j = k
      · subst first
        rw [Function.update_self]
        exact upKept
      · rw [Function.update_of_ne first]
        exact sound.relays j
  passed := by
    intro j inside
    by_cases second : j = k + 1
    · subst second
      rw [Function.update_self, Function.update_of_ne (by omega), Function.update_of_ne (by omega)]
      exact (sound.passed (k + 1) inside).upper below
    · rw [Function.update_of_ne second]
      by_cases first : j = k
      · subst first
        rw [Function.update_self, Function.update_self]
        exact passed
      · rw [Function.update_of_ne first, Function.update_of_ne (by omega)]
        by_cases before : j + 1 = k
        · rw [before, Function.update_self]
          have old := sound.passed j inside
          rw [before] at old
          exact old.lower (by rw [above]; exact ⟨rfl, rfl⟩)
        · rw [Function.update_of_ne before]
          exact sound.passed j inside

theorem Sound.step (sound : Sound types rules display last hops) (step : Step types rules display last hops later) :
    Sound types rules display last later := by
  cases step with
  | source step =>
    refine sound.update ((sound.relays 0).out_step step) (fun inside => ?_) (fun before impossible => by omega)
    exact (sound.passed 0 inside).upper ⟨rfl, rfl⟩
  | within passive step =>
    refine sound.update ((sound.relays _).out_step step) (fun inside => ?_) (fun before same inside => ?_)
    · exact (sound.passed _ inside).upper ⟨rfl, rfl⟩
    · subst same
      exact (sound.passed before inside).lower (step.passive passive)
  | waits asks answers polled =>
    refine sound.update ((sound.relays _).poll answers) (fun inside => ?_) (fun before same inside => ?_)
    · exact (sound.passed _ inside).upper (Relay.poll_pending polled)
    · subst same
      exact (sound.passed before inside).lower (by rw [Relay.poll_out]; exact ⟨rfl, rfl⟩)
  | passes inside answers polled step =>
    exact sound.passes ((sound.relays _).poll answers) ((sound.relays _).out_step step)
      ((sound.passed _ inside).passes (sound.relays _).out polled step) (Relay.poll_out _ _) ⟨rfl, rfl⟩
  | reads answers =>
    refine sound.update ((sound.relays _).poll answers) (fun inside => by omega) (fun before same inside => ?_)
    subst same
    exact (sound.passed before inside).lower (by rw [Relay.poll_out]; exact ⟨rfl, rfl⟩)

theorem Reachable.sound {starts : Nat → τ} (reachable : Reachable types rules display last starts hops) :
    Sound types rules display last hops := by
  induction reachable with
  | refl => exact initial_sound starts
  | tail _ step ih => exact ih.step step

/-- Up to each pair, what is read of it is the first body or the start of it. -/
theorem Sound.covers (sound : Sound types rules display last hops) (lawful : types.Lawful) {k : Nat} (inside : k ≤ last) :
    (hops 0).out.message.Covers (hops k).message := by
  induction k with
  | zero => exact ((sound.relays 0).faithful lawful).covers
  | succ k ih =>
    have before := ih (by omega)
    have passed := (sound.passed k (by omega)).covers
    exact (before.trans passed).trans ((sound.relays (k + 1)).faithful lawful).covers

variable (hops) in
/-- The first body has failed, or a writer up to there was stopped. -/
def Broken (k : Nat) : Prop :=
  (∃ text, (hops 0).out.ended = some (.error text)) ∨ ∃ j ≤ k, (hops j).out.CutShort

omit [DecidableEq ν] in
theorem Broken.mono {k j : Nat} (broken : Broken hops k) (before : k ≤ j) : Broken hops j := by
  obtain failed | ⟨at_, inside, cut⟩ := broken
  · exact .inl failed
  · exact .inr ⟨at_, by omega, cut⟩

private theorem failed_or_cut {relay : Relay ν υ τ} (faithful : relay.Faithful) {error : HttpErrorCode}
    (failed : relay.message.ending = some (.failed error)) :
    (∃ text, relay.out.ended = some (.error text)) ∨ relay.out.CutShort := by
  obtain same | ⟨_, cut⟩ := faithful.failed error failed
  · left
    rw [same, Outgoing.message] at failed
    cases ended : relay.out.ended with
    | none =>
      rw [ended] at failed
      cases failed
    | some ending =>
      cases ending with
      | error text => exact ⟨text, rfl⟩
      | ok =>
        rw [ended] at failed
        cases failed
  · exact .inr cut

/-- An error that is read goes back to where it began. -/
theorem Sound.broken (sound : Sound types rules display last hops) (lawful : types.Lawful) {k : Nat} (inside : k ≤ last)
    {error : HttpErrorCode} (failed : (hops k).message.ending = some (.failed error)) : Broken hops k := by
  induction k generalizing error with
  | zero =>
    obtain ended | cut := failed_or_cut ((sound.relays 0).faithful lawful) failed
    · exact .inl ended
    · exact .inr ⟨0, le_refl _, cut⟩
  | succ k ih =>
    obtain ⟨text, ended⟩ | cut := failed_or_cut ((sound.relays (k + 1)).faithful lawful) failed
    · obtain ⟨before, only, _⟩ := (sound.passed k (by omega)).failed text ended
      have failed : (hops k).message.ending = some (.failed before) := by
        rw [Relay.message, messageOf, only]
      exact (ih (by omega) failed).mono (by omega)
    · exact .inr ⟨k + 1, le_refl _, cut⟩

/-- However many apps a body goes through: who reads it last has the start of what the
first body gave, sees it end whole only with all of its data and its trailers, and sees
it fail only where the first body failed or a writer was stopped. -/
theorem bodies_forwarded (lawful : types.Lawful) {starts : Nat → τ}
    (reachable : Reachable types rules display last starts hops) :
    (hops 0).out.message.Covers (hops last).message ∧
      (∀ error, (hops last).message.ending = some (.failed error) → Broken hops last) ∧
      ∀ k result, (hops k).out.writer.phase = .returned result → (hops k).out.Returned types rules result := by
  have sound := reachable.sound
  refine ⟨sound.covers lawful (le_refl _), fun error failed => sound.broken lawful (le_refl _) failed, ?_⟩
  intro k result returned
  have phase := (sound.relays k).out.phase
  rw [returned] at phase
  exact phase

/-- Two apps, and a body of a byte and a trailer. -/
theorem bodies_forwarded_twice : ∃ hops : Hops Text Bytes Unit,
    (hops 1).finished = true ∧ (hops 0).out.pulled.length = 2 ∧
    (hops 0).out.message.Covers (hops 1).message ∧
      (∀ error, (hops 1).message.ending = some (.failed error) → Broken hops 1) ∧
      ∀ k result, (hops k).out.writer.phase = .returned result →
        (hops k).out.Returned plainHeaders (fun _ => none) result := by
  have begun : Reachable plainHeaders (fun _ => none) (fun _ => []) 1 (fun _ => ()) fun _ => Relay.initial () := .refl
  -- the first body, of which all is taken
  have data := begun.tail (.source (.frame (.data [7]) rfl))
  have taken := data.tail (.source (.all rfl rfl))
  have wrote := taken.tail (.source (.wroteAll rfl (.inl rfl)))
  have trailers := wrote.tail (.source (.frame (.trailers sums) rfl))
  have ended := trailers.tail (.source (.ends rfl))
  have told := ended.tail (.source (.readResult rfl rfl))
  -- the app reads it and forwards what it reads
  have data := told.tail (.passes (k := 0) (by omega) (.next _) rfl (.frame _ rfl))
  have taken := data.tail (.within (k := 1) rfl (.all rfl rfl))
  have wrote := taken.tail (.within (k := 1) rfl (.wroteAll rfl (.inl rfl)))
  have trailers := wrote.tail (.passes (k := 0) (by omega) (.over rfl rfl rfl) rfl (.frame _ rfl))
  have ended := trailers.tail (.passes (k := 0) (by omega) (.nothing _) rfl (.ends rfl))
  have told := ended.tail (.within (k := 1) rfl (.readResult rfl rfl))
  have data := told.tail (.reads (.next _))
  have trailers := data.tail (.reads (.over rfl rfl rfl))
  have finished := trailers.tail (.reads (.nothing _))
  exact ⟨_, rfl, rfl, bodies_forwarded plainHeaders_lawful finished⟩

end Hops

/-! ### Where nobody is between the ends -/

namespace Relay
variable {relay later : Relay ν υ τ} {start : τ}

theorem Sound.waits (sound : relay.Sound types rules) (waits : relay.waitsFor .trailers) :
    relay.out.writer.phase.gone = true := by
  have incoming := sound.incoming
  rw [waitsFor] at waits
  rw [waits] at incoming
  cases incoming with
  | data chunks streams => cases streams
  | trailers reading empty gone => exact gone

/-- The writer was dropped, or its trailers were rejected: nothing was written to the future. -/
def Aborted (out : Outgoing ν υ) : Prop :=
  out.writer.phase = .cancelled ∨ ∃ error, out.writer.phase = .returned (.error (.invalidTrailers error))

/-- The reader is there, and all that it can have read of the future is that it was dropped. -/
structure Held (relay : Relay ν υ τ) : Prop where
  stream : relay.out.streamOpen = true
  result : relay.out.resultOpen = true
  gone : relay.out.writer.phase.gone = true → Aborted relay.out
  told : ∀ value, relay.out.result = some value → value = bodyWriterDropped ∧ relay.out.writer.phase.gone = true

omit [DecidableEq ν] in
private theorem initial_held (start : τ) : (initial start : Relay ν υ τ).Held where
  stream := rfl
  result := rfl
  gone := by
    intro impossible
    cases impossible
  told := by
    intro value impossible
    cases impossible

omit [DecidableEq ν] in
/-- A step of a writer that was there. -/
theorem Held.goesOn {event : OutgoingEvent ν υ} {out : Outgoing ν υ} (held : relay.Held)
    (still : relay.out.writer.phase.gone = false) (stream : out.streamOpen = relay.out.streamOpen)
    (result : out.resultOpen = relay.out.resultOpen) (same : out.result = relay.out.result)
    (gone : out.writer.phase.gone = true → Aborted out) : (relay.sends event out).Held where
  stream := stream.trans held.stream
  result := result.trans held.result
  gone := gone
  told := by
    intro value read
    have before := (held.told value (same ▸ read)).2
    rw [still] at before
    cases before

theorem Held.out_step {event : OutgoingEvent ν υ} {out : Outgoing ν υ} (held : relay.Held)
    (sound : relay.Sound types rules) (step : Outgoing.Step types rules event relay.out out)
    (link : direct event relay) : (relay.sends event out).Held := by
  cases step with
  | frame frame waits =>
    refine held.goesOn (by rw [waits]; rfl) rfl rfl rfl (fun gone => ?_)
    cases frame with
    | data => cases gone
    | trailers =>
      rw [BodyWriter.processHttpBodyFrame, waits] at gone
      cases gone
  | fails error waits => exact held.goesOn (by rw [waits]; rfl) rfl rfl rfl (fun gone => by cases gone)
  | ends waits =>
    exact held.goesOn (by rw [waits]; rfl) rfl rfl rfl (fun gone => .inr (BodyWriter.finish_gone _ gone))
  | take waits => exact held.goesOn (by rw [waits]; rfl) rfl rfl rfl (fun gone => by cases gone)
  | wroteAll waits returns =>
    refine held.goesOn (by rw [waits]; rfl) rfl rfl rfl (fun gone => ?_)
    obtain nothing | closed := returns
    · simp [BodyWriter.wroteAll, nothing, ForwardPhase.gone] at gone
    · rw [held.stream] at closed
      cases closed
  | readResult offers =>
    -- the reader waits for the future only behind the end of the stream
    have gone := sound.waits link
    obtain ⟨error, waits, -⟩ | ⟨trailers, waits, -⟩ := ForwardPhase.offers_eq offers <;> rw [waits] at gone <;> cases gone
  | resultClosed _ closed =>
    rw [held.result] at closed
    cases closed
  | readDefault gone =>
    refine ⟨held.stream, held.result, held.gone, fun value read => ?_⟩
    cases read
    exact ⟨rfl, gone⟩
  | closeStream | closeResult => exact link.elim
  | cancel still => exact held.goesOn still rfl rfl rfl (fun _ => .inl rfl)

theorem Held.moves (held : relay.Held) (sound : relay.Sound types rules)
    (moves : Moves types rules direct relay later) : later.Held := by
  obtain ⟨event, step, link⟩ := moves
  cases step with
  | out step => exact held.out_step sound step link
  | poll answers =>
    have same : ∀ ends, (relay.poll types ends).out = relay.out := relay.poll_out
    exact ⟨by rw [same]; exact held.stream, by rw [same]; exact held.result, by rw [same]; exact held.gone,
      by rw [same]; exact held.told⟩

theorem Reachable.held (reachable : relay.Reachable types rules direct start) : relay.Held := by
  induction reachable with
  | refl => exact initial_held start
  | tail before moves ih => exact ih.moves (Reachable.sound before) moves

/-- The writer keeps its stream until its result is read, and the reader reads the result
only behind the stream's end: where nobody is between them no reader sees the end of a
body, or its error, unless the writer is dropped or its trailers are rejected. -/
theorem direct_never_ends (reachable : relay.Reachable types rules direct start) :
    relay.message.ending = none ∨
      Aborted relay.out ∧ ∃ error, bodyWriterDropped = .error error ∧ relay.message.ending = some (.failed error) := by
  have held := reachable.held
  have incoming := reachable.sound.incoming
  generalize relay.incoming.state = state at incoming
  cases incoming with
  | data chunks streams reading | trailers reading => exact .inl (by rw [reading.message_eq])
  | done chunks value read =>
    obtain ⟨dropped, gone⟩ := held.told value read.result
    subst dropped
    exact .inr ⟨held.gone gone, _, rfl, by rw [Read.message_error read]⟩

/-- A reader that waits, a byte, and the end that it does not see. -/
theorem direct_never_ends_waiting : ∃ relay : Relay Text Bytes Unit,
    relay.out.ended = some (.ok ()) ∧ relay.message.data = [7] ∧
    (relay.message.ending = none ∨
      Aborted relay.out ∧ ∃ error, bodyWriterDropped = .error error ∧ relay.message.ending = some (.failed error)) := by
  have begun : Reachable plainHeaders (fun _ => none) direct () (Relay.initial ()) := .refl
  have given := begun.tail ⟨_, .out (.frame (.data [7]) rfl), trivial⟩
  have waits := given.tail ⟨_, .poll (.nothing _), trivial⟩
  have taken := waits.tail ⟨_, .out (.all rfl rfl), rfl, rfl⟩
  have wrote := taken.tail ⟨_, .out (.wroteAll rfl (.inl rfl)), trivial⟩
  have ended := wrote.tail ⟨_, .out (.ends rfl), trivial⟩
  have read := ended.tail ⟨_, .poll (.next _), trivial⟩
  exact ⟨_, rfl, rfl, direct_never_ends read⟩

variable (types rules) in
/-- What may happen where someone is between the ends. -/
abbrev Goes : Relay ν υ τ → Relay ν υ τ → Prop := Relation.ReflTransGen (Moves types rules anyLink)

theorem Goes.poll {ends : Ends} (answers : relay.Answers ends) : Goes types rules relay (relay.poll types ends) :=
  .single ⟨.poll ends, .poll answers, trivial⟩

theorem Goes.sound (goes : Goes types rules relay later) (sound : relay.Sound types rules) : later.Sound types rules := by
  induction goes with
  | refl => exact sound
  | tail _ moves ih => exact ih.moves moves

/-- A poll of a body that reads its stream. -/
theorem poll_reads (streams : reads relay.incoming.state = true) (ends : Ends) :
    relay.poll types ends =
      relay.receive ⟨.started (IncomingState.pollFrame types ends .ready).1⟩ (IncomingState.pollFrame types ends .ready).2 := by
  cases state : relay.incoming.state with
  | unstarted => simp only [Relay.poll, IncomingBody.pollFrame, IncomingBody.ensureStarted, state]
  | empty =>
    rw [state] at streams
    cases streams
  | started started =>
    rw [state] at streams
    simp only [Relay.poll, IncomingBody.pollFrame, IncomingBody.ensureStarted, state]
    cases started with
    | ready => rfl
    | done => cases streams
    | reading awaiting =>
      cases awaiting with
      | stream => rfl
      | trailers => cases streams

private theorem poll_started {started : IncomingState} (state : relay.incoming.state = .started started) (ends : Ends) :
    relay.poll types ends = relay.receive ⟨.started (started.pollFrame types ends).1⟩ (started.pollFrame types ends).2 := by
  simp only [Relay.poll, IncomingBody.pollFrame, IncomingBody.ensureStarted, state]

private theorem pollTrailers_done {ends : Ends} {value : BodyResult} (told : ends.trailers = .ready value) :
    (IncomingState.pollTrailers types ends).1 = .done := by
  rw [IncomingState.pollTrailers, told]
  split <;> simp_all

/-- What is on its way can be read. -/
theorem Goes.drain {count : Nat} (within : relay.inTransit.length ≤ count) (streams : reads relay.incoming.state = true) :
    ∃ later, Goes types rules relay later ∧ later.out = relay.out ∧ later.inTransit = [] ∧
      reads later.incoming.state = true := by
  induction count generalizing relay with
  | zero => exact ⟨relay, .refl, rfl, List.length_eq_zero_iff.mp (by omega), streams⟩
  | succ count ih =>
    by_cases empty : relay.inTransit = []
    · exact ⟨relay, .refl, rfl, empty, streams⟩
    have some_ : 0 < relay.inTransit.length := List.length_pos_iff.mpr empty
    let ends : Ends := ⟨.ready (.complete (relay.inTransit.take READ_FRAME_SIZE)), .pending⟩
    have polled : relay.poll types ends = relay.receive _ _ := poll_reads streams ends
    have shorter : (relay.poll types ends).inTransit.length ≤ count := by
      rw [polled]
      simp only [ends, IncomingState.pollFrame, receive, List.length_drop, List.length_take, READ_FRAME_SIZE]
      omega
    obtain ⟨later, goes, out, rest, reads_⟩ := ih shorter (by rw [polled]; rfl)
    exact ⟨later, (Goes.poll (.next relay)).trans goes, out.trans (relay.poll_out ends), rest, reads_⟩

/-- Behind the last item comes the end. -/
theorem Goes.last (done : relay.incoming.state = .started .done) :
    ∃ later, Goes types rules relay later ∧ later.out = relay.out ∧ later.finished = true := by
  exact ⟨_, Goes.poll (.nothing relay), relay.poll_out _, by rw [poll_started done]; rfl⟩

theorem Goes.ends {value : BodyResult} (sound : relay.Sound types rules) (gone : relay.out.writer.phase.gone = true)
    (result : relay.out.result = some value) :
    ∃ later, Goes types rules relay later ∧ later.out = relay.out ∧ later.finished = true := by
  have incoming := sound.incoming
  generalize state : relay.incoming.state = started at incoming
  cases incoming with
  | data chunks streams =>
    rw [← state] at streams
    obtain ⟨drained, goes, out, empty, streams⟩ : ∃ drained, Goes types rules relay drained ∧ drained.out = relay.out ∧
        drained.inTransit = [] ∧ reads drained.incoming.state = true := Goes.drain (le_refl _) streams
    have answers : drained.Answers ⟨.ready .dropped, .ready value⟩ :=
      .over empty (by rw [out]; exact gone) (by rw [out]; exact result)
    have done : (drained.poll types ⟨.ready .dropped, .ready value⟩).incoming.state = .started .done := by
      have last : (IncomingState.pollTrailers types ⟨.ready .dropped, .ready value⟩).1 = .done := pollTrailers_done rfl
      rw [poll_reads streams, (drained.receive_out _ _).2]
      exact congrArg StartedState.started last
    obtain ⟨later, last, same, finished⟩ : ∃ later, Goes types rules _ later ∧ _ ∧ _ := Goes.last done
    exact ⟨later, (goes.trans (Goes.poll answers)).trans last, (same.trans (drained.poll_out _)).trans out, finished⟩
  | trailers reading empty =>
    have answers : relay.Answers ⟨.pending, .ready value⟩ := ⟨trivial, result⟩
    have done : (relay.poll types ⟨.pending, .ready value⟩).incoming.state = .started .done := by
      have last : (IncomingState.pollTrailers types ⟨.pending, .ready value⟩).1 = .done := pollTrailers_done rfl
      rw [poll_started state, (relay.receive_out _ _).2]
      exact congrArg StartedState.started last
    obtain ⟨later, last, same, finished⟩ : ∃ later, Goes types rules _ later ∧ _ ∧ _ := Goes.last done
    exact ⟨later, (Goes.poll answers).trans last, same.trans (relay.poll_out _), finished⟩
  | done chunks value read => exact Goes.last state

/-- A result that was read can be passed on, with all that came before it. -/
theorem Goes.whole {trailers : Option Fields} (lawful : types.Lawful) (sound : relay.Sound types rules)
    (gone : relay.out.writer.phase.gone = true) (result : relay.out.result = some (.ok trailers)) :
    ∃ later, Goes types rules relay later ∧ later.out = relay.out ∧ later.finished = true ∧
      later.message = relay.out.message := by
  obtain ⟨later, goes, out, finished⟩ := Goes.ends sound gone result
  refine ⟨later, goes, out, finished, ?_⟩
  have kept := goes.sound sound
  have incoming := kept.incoming
  generalize later.incoming.state = state at incoming
  cases incoming with
  | data chunks streams reading | trailers reading =>
    rw [reading.finished] at finished
    cases finished
  | done chunks value read =>
    have same := read.result
    rw [out, result] at same
    cases same
    rw [read.whole lawful kept.out finished, out]

/-- Where someone reads the future before the stream ends, the reader of a body that has
ended can always still get all of it. -/
theorem can_finish (lawful : types.Lawful) (reachable : relay.Reachable types rules anyLink start)
    (ended : relay.out.ended = some (.ok ())) (uncut : ¬ relay.out.CutShort) (reads : relay.out.resultOpen = true) :
    ∃ later, Goes types rules relay later ∧ later.finished = true ∧ later.message = relay.out.message := by
  have sound := reachable.sound
  have phase := sound.out.phase
  cases waits : relay.out.writer.phase with
  | frame | writeAll =>
    rw [waits, Outgoing.At, ended] at phase
    cases phase.1
  | writeError =>
    rw [waits] at phase
    have other := phase.1
    rw [ended] at other
    cases other
  | panicked => rw [waits] at phase; exact phase.elim
  | cancelled => exact absurd (.inl waits) uncut
  | writeTrailers trailers =>
    have offers : relay.out.writer.phase.offers = some (.ok trailers) := by rw [waits]; rfl
    have first : Moves types rules anyLink relay (relay.sends .readResult _) :=
      ⟨.out .readResult, .out (.readResult offers reads), trivial⟩
    have gone : (relay.out.writer.wroteResult true).phase.gone = true := by
      rw [relay.out.writer.wroteResult_read waits]
      rfl
    obtain ⟨later, goes, out, finished, same⟩ := Goes.whole lawful (sound.moves first) gone rfl
    exact ⟨later, .head first goes, finished, same⟩
  | returned result =>
    rw [waits] at phase
    cases result with
    | ok total =>
      obtain ⟨_, _, trailers, read⟩ := phase
      obtain ⟨later, goes, _, finished, same⟩ := Goes.whole lawful sound (by rw [waits]; rfl) read
      exact ⟨later, goes, finished, same⟩
    | error error =>
      cases error with
      | httpBody =>
        have other := phase.1.1
        rw [ended] at other
        cases other
      | invalidTrailers error => exact absurd (.inr (.inr ⟨error, waits⟩)) uncut
      | resultReaderClosed =>
        rw [phase.2.1] at reads
        cases reads
      | streamReaderClosed =>
        have other := phase.1
        rw [ended] at other
        cases other

theorem can_finish_ended : ∃ relay later : Relay Text Bytes Unit,
    relay.message.data = [] ∧ Goes plainHeaders (fun _ => none) relay later ∧ later.finished = true ∧
      later.message = relay.out.message := by
  have begun : Reachable plainHeaders (fun _ => none) anyLink () (Relay.initial ()) := .refl
  have given := begun.tail ⟨_, .out (.frame (.data [7]) rfl), trivial⟩
  have taken := given.tail ⟨_, .out (.all rfl rfl), trivial⟩
  have wrote := taken.tail ⟨_, .out (.wroteAll rfl (.inl rfl)), trivial⟩
  have ended := wrote.tail ⟨_, .out (.ends rfl), trivial⟩
  obtain ⟨later, finishes⟩ := can_finish plainHeaders_lawful ended rfl (by
    rintro (cancelled | ⟨_, _, closed⟩ | ⟨_, rejected⟩)
    · cases cancelled
    · cases closed
    · cases rejected) rfl
  exact ⟨_, later, rfl, finishes⟩

end Relay

end Pos2.Wasi
