import Pos2.Loader.Attempts

/-! Versions that may not be tried again: their trial has ended without a commit, and
no other version was written to the marker since. -/

namespace Pos2.Loader
open Calls

/-- The program of the app that runs on trial. -/
def onTrial : Child → Option Path
  | .running app => if app.trial then some app.program else none
  | _ => none

/-- What a run has to remember: the programs that are not to be tried again, the task
that has created the marker last, and whether the marker was cut off. -/
structure Bars where
  barred : List Path
  marking : Option Nat
  torn : Bool

/-- A program is barred from its trial on, until it commits itself, or until another
version is written to the marker once the trial is over. -/
def Bars.next (bars : Bars) (before : World) (event : Event) (after : World) : Bars :=
  let trial := onTrial after.machine.child
  match event with
  | .supervisor (.spawn _ true) =>
    match trial with
    | some program => { bars with barred := program :: bars.barred }
    | none => bars
  | .task i (.create path) =>
    if path = updateAttemptFile ∧ after.machine.fs path = some (.file []) then { bars with marking := some i, torn := true }
    else bars
  | .task _ (.writeAll path text) =>
    if path ≠ updateAttemptFile then bars
    else if after.machine.fs path = some (.file text) then
      { bars with
        barred := bars.barred.filter fun program => program = entrypointOf text ∨ trial = some program
        torn := false }
    else { bars with torn := true }
  | .task _ (.removeFile path) =>
    if path = updateAttemptFile ∧ after.machine.fs path = none then { bars with torn := false } else bars
  | .task _ (.rename source target) =>
    if source = entrypointAttemptingPath ∧ target = entrypointPath ∧ before.machine.fs source ≠ none ∧
        after.machine.fs source = none then
      { bars with barred := bars.barred.filter fun program => trial ≠ some program }
    else bars
  | .start i => if bars.marking = some i then { bars with marking := none } else bars
  | _ => bars

/-- A run that remembers which programs are barred. -/
inductive Recalls (formats : Formats) (allowed : Bars → World → Event → World → Prop) (start : World) :
    Bars → World → Prop where
  | start : Recalls formats allowed start ⟨[], none, false⟩ start
  | step {bars : Bars} {before after : World} {event : Event} (run : Recalls formats allowed start bars before)
      (permitted : allowed bars before event after) (step : Step formats before event after) :
      Recalls formats allowed start (bars.next before event after) after

/-- The marker keeps what it is there for: as long as a program is barred, the marker
that is read is whole and can be read; it is created and removed while no version
is pending and no other task is handing one over; an app on trial commits itself
before it creates one; and digests have no white space at their ends. -/
structure Marked (bars : Bars) (before : World) (event : Event) (after : World) : Prop where
  reads : ∀ i, event = .task i (.readToString updateAttemptFile) → bars.barred ≠ [] →
    bars.torn = false ∧ Succeeds before i (.readToString updateAttemptFile) after
  alone : ∀ i, event = .task i (.create updateAttemptFile) ∨ event = .task i (.removeFile updateAttemptFile) →
    before.machine.fs entrypointAttemptPath = none ∧
      ∀ j, bars.marking = some j → j = i ∨ ∃ result, before.tasks j = Program.done result
  commits : ∀ i program, event = .task i (.create updateAttemptFile) →
    onTrial before.machine.child = some program → program ∉ bars.barred
  trimmed : ∀ i text, event = .task i (.writeAll updateAttemptFile text) → trim text = text

/-! ### What a task may go on to hand over -/

/-- Programs that hand over only versions which may be handed over, or for which they
have looked at the marker, and that remove the marker only after a commit. -/
inductive Wary {α : Type} : (Text → Prop) → Prop → Loads α → Prop where
  | done {may : Text → Prop} {free : Prop} (result : Except String α) : Wary may free (Program.done result)
  | store {may : Text → Prop} {free : Prop} {request : Request} {next : Except String request.Value → Loads α}
      (stores : Stores request) (rest : ∀ reply, Wary may free (next reply)) :
      Wary may free (Program.call request next)
  | looks {may : Text → Prop} {free : Prop} {next : Except String Text → Loads α} (sha : Text)
      (missing : ∀ error, Wary (fun other => may other ∨ other = sha) free (next (.error error)))
      (named : ∀ text, trim text = sha → Wary may free (next (.ok text)))
      (unnamed : ∀ text, trim text ≠ sha → Wary (fun other => may other ∨ other = sha) free (next (.ok text))) :
      Wary may free (Program.call (Request.readToString updateAttemptFile) next)
  | commit {may : Text → Prop} {free : Prop} {next : Except String Unit → Loads α}
      (fails : ∀ error, Wary may free (next (.error error))) (committed : Wary may True (next (.ok ()))) :
      Wary may free (Program.call (Request.rename entrypointAttemptingPath entrypointPath) next)
  | unmark {may : Text → Prop} {free : Prop} {next : Except String Unit → Loads α} (allowed : free)
      (rest : ∀ reply, Wary may free (next reply)) :
      Wary may free (Program.call (Request.removeFile updateAttemptFile) next)
  | mark {may : Text → Prop} {free : Prop} {next : Except String Unit → Loads α} (sha : Text)
      (rest : Except String Unit → Loads α) (allowed : may sha)
      (fills : next (.ok ()) = Program.bind (fillMarker sha) rest)
      (ends : ∀ error, Wary may free (rest (.error error))) (fails : ∀ error, Wary may free (next (.error error))) :
      Wary may free (Program.call (Request.create updateAttemptFile) next)

section
variable {α β : Type} {may may' : Text → Prop} {free free' : Prop}

theorem Wary.mono {function : Loads α} (wary : Wary may free function) (more : ∀ sha, may sha → may' sha)
    (freer : free → free') : Wary may' free' function := by
  induction wary generalizing may' free' with
  | done result => exact .done result
  | store stores _ ih => exact .store stores fun reply => ih reply more freer
  | looks sha _ _ _ missing named unnamed =>
    have more' (other : Text) (allowed : _ ∨ other = sha) : may' other ∨ other = sha := allowed.imp_left (more other)
    exact .looks sha (fun error => missing error more' freer) (fun text same => named text same more freer)
      fun text other => unnamed text other more' freer
  | commit _ _ fails committed => exact .commit (fun error => fails error more freer) (committed more id)
  | unmark allowed _ ih => exact .unmark (freer allowed) fun reply => ih reply more freer
  | mark sha rest allowed fills _ _ ends fails =>
    exact .mark sha rest (more sha allowed) fills (fun error => ends error more freer) fun error => fails error more freer

theorem Wary.bind {first : Loads α} {rest : Except String α → Loads β} (wary : Wary may free first)
    (then_ : ∀ may free result, Wary may free (rest result)) : Wary may free (Program.bind first rest) := by
  induction wary with
  | done result => exact then_ _ _ result
  | store stores _ ih => exact .store stores ih
  | looks sha _ _ _ missing named unnamed => exact .looks sha missing named unnamed
  | commit _ _ fails committed => exact .commit fails committed
  | unmark allowed _ ih => exact .unmark allowed ih
  | mark sha last allowed fills _ _ ends fails =>
    have fills' := congrArg (Program.bind · rest) fills
    exact .mark sha (fun result => Program.bind (last result) rest) allowed (fills'.trans (Program.bind_assoc ..)) ends
      fails

theorem Wary.attempt {first : Loads α} (wary : Wary may free first) : Wary may free first.attempt :=
  wary.bind fun _ _ _ => .done _

theorem Wary.then {post : α → Prop} {first : Loads α} {rest : α → Loads β} (uses : first.Uses Stores post)
    (then_ : ∀ value, post value → Wary may free (rest value)) : Wary may free (first >>= rest) := by
  induction first with
  | done result =>
    cases result with
    | ok value => exact then_ value (uses value rfl)
    | error error => exact .done _
  | call request next ih => exact .store uses.1 fun reply => ih reply (uses.2 reply)

private theorem wasUpdateAttempted_wary {sha : Text} {rest : Bool → Loads β} (attempted : Wary may free (rest true))
    (new : Wary (fun other => may other ∨ other = sha) free (rest false)) :
    Wary may free (wasUpdateAttempted sha >>= rest) := by
  refine .looks sha (fun _ => new) ?_ ?_
  · intro text same
    change Wary may free (rest (decide (trim text = sha)))
    rwa [decide_eq_true same]
  · intro text other
    change Wary _ free (rest (decide (trim text = sha)))
    rwa [decide_eq_false other]

end

section
variable {formats : Formats} {self : Process} {may : Text → Prop} {free : Prop}

private theorem installUpdate_wary {reference : Reference} {sha : Text} (allowed : may sha) :
    Wary may free (installUpdate formats reference sha) := by
  apply Wary.then (downloadImage_stores reference)
  intro _ _
  apply Wary.then (extractImage_stores sha)
  rintro _ rfl
  have marks : Wary may free (writeMarker sha) :=
    .mark sha Program.done allowed (Program.bind_done _).symm (fun error => .done _) fun error => .done _
  exact (writeMarker_checkForUpdate sha) ▸ marks

private theorem checkForUpdate_wary (reference currentSha : Text) : Wary may free
    (checkForUpdate formats reference currentSha) := by
  apply Wary.then (Fallible.Uses.ofExcept _)
  intro reference _
  apply Wary.then (downloadManifest_stores reference)
  rintro ⟨reference, manifest, newSha⟩ _
  dsimp only
  split
  · exact .done _
  · exact wasUpdateAttempted_wary (.done _) (installUpdate_wary (.inr rfl))

private theorem markReady_wary : Wary may free (markReady formats self) := by
  apply Wary.then (Fallible.Uses.ofExcept _)
  intro currentSha _
  have rest {free : Prop} : Wary may free (do
      let _ ← (cleanupStorage formats [currentSha]).attempt
      let reference ← ask (.var "DOCKERLOADER_TARGET")
      checkForUpdate formats reference currentSha : Loads Unit) := by
    apply Wary.then (cleanupStorage_stores _).attempt
    intro _ _
    apply Wary.then (ask_reads rfl)
    intro reference _
    exact checkForUpdate_wary reference currentSha
  split
  · apply Wary.then (ask_reads rfl)
    intro found _
    cases found with
    | true => exact .commit (fun error => .done _) (.unmark trivial fun reply => rest)
    | false => exact rest
  · exact rest

private theorem updateRound_wary (reference : Text) : Wary may free (updateRound formats self reference) := by
  unfold updateRound
  split
  · exact .done _
  · exact (checkForUpdate_wary reference _).attempt.bind fun _ _ result => by cases result <;> exact .done _

theorem Starts.wary {task : Loads Unit} (starts : Starts formats self task) : Wary may free task := by
  cases starts with
  | markReady => exact markReady_wary
  | updateRound reference => exact updateRound_wary reference

end
end Pos2.Loader
