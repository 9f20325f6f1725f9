import Pos2.Loader.Rounds

/-! How an app hands a new version to the supervisor: the end of `check_for_update`,
from the marker to the exit, as a machine. -/

namespace Pos2.Loader
open Calls

def exitToRestart : Loads Unit := do
  let impossible ← ask (.exit restartExitCode)
  nomatch impossible

def renameLink : Loads Unit := do
  ask (.rename tmpSymlink entrypointAttemptPath)
  exitToRestart

def linkAttempt (sha : Text) : Loads Unit := do
  ask (.symlink (.absolute (entrypointOf sha)) tmpSymlink)
  renameLink

def replaceLink (sha : Text) : Loads Unit := do
  ask (.removeFile tmpSymlink)
  linkAttempt sha

def requestTrial (sha : Text) : Loads Unit := do
  if ← existsOk tmpSymlink then replaceLink sha else linkAttempt sha

def fillMarker (sha : Text) : Loads Unit := do
  ask (.writeAll updateAttemptFile sha)
  requestTrial sha

def writeMarker (sha : Text) : Loads Unit := do
  ask (.create updateAttemptFile)
  fillMarker sha

/-- Where the app is once the marker is created. -/
inductive Handing where
  | fills
  | looks
  | removes
  | links
  | renames
  | exits
  deriving DecidableEq

namespace Handing
variable {α : Type} (sha : Text) (rest : Except String Unit → Loads α)

def program : Handing → Loads Unit
  | .fills => fillMarker sha
  | .looks => requestTrial sha
  | .removes => replaceLink sha
  | .links => linkAttempt sha
  | .renames => renameLink
  | .exits => exitToRestart

def request : Handing → Request
  | .fills => .writeAll updateAttemptFile sha
  | .looks => .exists_ tmpSymlink
  | .removes => .removeFile tmpSymlink
  | .links => .symlink (.absolute (entrypointOf sha)) tmpSymlink
  | .renames => .rename tmpSymlink entrypointAttemptPath
  | .exits => .exit restartExitCode

/-- What follows where the call succeeds. -/
def succeed : (handing : Handing) → (handing.request sha).Value → Handing
  | .fills, _ => .looks
  | .looks, true => .removes
  | .looks, false => .links
  | .removes, _ => .links
  | .links, _ => .renames
  | .renames, _ => .exits

/-- A failing call ends it, but the existence check does not. -/
def fail (handing : Handing) (error : String) : Loads Unit :=
  match handing with
  | .looks => linkAttempt sha
  | _ => .fail error

def next (handing : Handing) : Except String (handing.request sha).Value → Loads Unit
  | .ok value => (handing.succeed sha value).program sha
  | .error error => handing.fail sha error

theorem program_call (handing : Handing) :
    handing.program sha = Program.call (handing.request sha) (handing.next sha) := by
  cases handing with
  | looks =>
    refine congrArg (Program.call _) (funext fun reply => ?_)
    match reply with
    | .ok true => rfl
    | .ok false => rfl
    | .error error => rfl
  | exits =>
    refine congrArg (Program.call _) (funext fun reply => ?_)
    match reply with
    | .ok value => cases value
    | .error error => rfl
  | _ => exact congrArg (Program.call _) (funext fun reply => by cases reply <;> rfl)

theorem program_bind (handing : Handing) :
    Program.bind (handing.program sha) rest =
      Program.call (handing.request sha) fun reply => Program.bind (handing.next sha reply) rest := by
  rw [program_call]
  rfl

/-- What a call that succeeds does to the disk. -/
inductive Does : Handing → Fs → Handing → Fs → Prop where
  | fills {fs : Fs} : Does .fills fs .looks (fs.append updateAttemptFile sha)
  | finds {fs : Fs} (there : fs.exists_ tmpSymlink = true) : Does .looks fs .removes fs
  | findsNone {fs : Fs} (gone : fs.exists_ tmpSymlink = false) : Does .looks fs .links fs
  | removes {before after : Fs} (removed : before.remove tmpSymlink after) : Does .removes before .links after
  | links {before after : Fs} (made : before.symlink (.absolute (entrypointOf sha)) tmpSymlink = some after) :
      Does .links before .renames after
  | renames {before after : Fs} (renamed : before.rename tmpSymlink entrypointAttemptPath after) :
      Does .renames before .exits after

theorem does (handing : Handing) {before after : Machine} {value : (handing.request sha).Value}
    (served : serves (handing.request sha) before (.ok value) after) :
    Does sha handing before.fs (handing.succeed sha value) after.fs ∧ after.child = before.child := by
  obtain ⟨fs, child⟩ := after
  cases handing with
  | looks =>
    obtain ⟨⟨looked, disk⟩, same⟩ := served
    cases disk
    cases value with
    | true => exact ⟨.finds looked.symm, same⟩
    | false => exact ⟨.findsNone looked.symm, same⟩
  | fills =>
    obtain ⟨disk, same⟩ := served
    cases disk
    exact ⟨.fills, same⟩
  | removes => exact ⟨.removes served.1.2, served.2⟩
  | links => exact ⟨.links served.1, served.2⟩
  | renames => exact ⟨.renames served.1, served.2⟩
  | exits => cases value

end Handing

/-- Programs that touch the marker only to hand a version over. -/
inductive Orderly {α : Type} : Loads α → Prop where
  | done (result : Except String α) : Orderly (Program.done result)
  | call {request : Request} {next : Except String request.Value → Loads α}
      (other : request ≠ .create updateAttemptFile) (unwritten : ∀ text, request ≠ .writeAll updateAttemptFile text)
      (rest : ∀ reply, Orderly (next reply)) : Orderly (Program.call request next)
  | mark {next : Except String Unit → Loads α} (sha : Text) (rest : Except String Unit → Loads α)
      (fills : next (.ok ()) = Program.bind (fillMarker sha) rest) (fails : ∀ error, Orderly (next (.error error))) :
      Orderly (Program.call (Request.create updateAttemptFile) next)

theorem Orderly.bind {α β : Type} {first : Loads α} {rest : Except String α → Loads β} (orderly : Orderly first)
    (then_ : ∀ result, Orderly (rest result)) : Orderly (Program.bind first rest) := by
  induction orderly with
  | done result => exact then_ result
  | call other unwritten _ ih => exact .call other unwritten ih
  | mark sha last fills _ ih =>
    have fills' := congrArg (Program.bind · rest) fills
    exact .mark sha (fun result => Program.bind (last result) rest) (fills'.trans (Program.bind_assoc ..)) ih

/-- Storing images has nothing to do with the marker. -/
theorem Stores.unmarked {request : Request} (stores : Stores request) :
    request ≠ .create updateAttemptFile ∧ ∀ text, request ≠ .writeAll updateAttemptFile text := by
  have apart {dir : Path} (name : Text) (flat : dir = blobsDir ∨ dir = imagesDir) : dir ++ [name] ≠ updateAttemptFile := by
    intro same
    have lengths := congrArg List.length same
    rw [List.length_append, storage_length (mem_storageDirs flat)] at lengths
    cases lengths
  cases stores with
  | read reads =>
    refine ⟨?_, ?_⟩
    · rintro rfl
      cases reads
    · rintro text rfl
      cases reads
  | create name flat => exact ⟨fun same => apart name flat (Request.create.inj same), fun _ => nofun⟩
  | writeAll name text flat =>
    exact ⟨nofun, fun _ same => apart name flat (Request.writeAll.inj same).1⟩
  | _ => exact ⟨nofun, fun _ => nofun⟩

theorem Orderly.next {α : Type} {request : Request} {next : Except String request.Value → Loads α}
    (orderly : Orderly (Program.call request next)) (other : request ≠ .create updateAttemptFile)
    (reply : Except String request.Value) : Orderly (next reply) := by
  cases orderly with
  | call _ _ rest => exact rest reply
  | mark => exact (other rfl).elim

theorem Orderly.fail {α : Type} (error : String) : Orderly (Fallible.fail error : Loads α) := .done _

theorem Orderly.then {α β : Type} {post : α → Prop} {first : Loads α} {rest : α → Loads β}
    (uses : first.Uses Stores post) (then_ : ∀ value, post value → Orderly (rest value)) :
    Orderly (first >>= rest) := by
  induction first with
  | done result =>
    cases result with
    | ok value => exact then_ value (uses value rfl)
    | error error => exact .done _
  | call request next ih =>
    have unmarked := Stores.unmarked uses.1
    exact .call unmarked.1 unmarked.2 fun reply => ih reply (uses.2 reply)

theorem Orderly.attempt {α : Type} {first : Loads α} (orderly : Orderly first) : Orderly first.attempt :=
  orderly.bind fun _ => .done _

private theorem writeMarker_orderly (sha : Text) : Orderly (writeMarker sha) :=
  .mark sha Program.done (Program.bind_done _).symm fun error => .fail error

section
variable {formats : Formats} {self : Process}

private theorem requestTrial_checkForUpdate (sha : Text) : (do
    if ← existsOk tmpSymlink then
      ask (.removeFile tmpSymlink)
    ask (.symlink (.absolute (entrypointOf sha)) tmpSymlink)
    ask (.rename tmpSymlink entrypointAttemptPath)
    let impossible ← ask (.exit restartExitCode)
    nomatch impossible : Loads Unit) = requestTrial sha := by
  refine congrArg (Program.call _) (funext fun reply => ?_)
  match reply with
  | .ok true => rfl
  | .ok false => rfl
  | .error error => rfl

theorem writeMarker_checkForUpdate (sha : Text) : (do
    writeFile updateAttemptFile sha
    if ← existsOk tmpSymlink then
      ask (.removeFile tmpSymlink)
    ask (.symlink (.absolute (entrypointOf sha)) tmpSymlink)
    ask (.rename tmpSymlink entrypointAttemptPath)
    let impossible ← ask (.exit restartExitCode)
    nomatch impossible : Loads Unit) = writeMarker sha := by
  rw [requestTrial_checkForUpdate]
  unfold writeMarker writeFile fillMarker
  rw [bind_assoc]

/-- What `check_for_update` does once it has found a version to install. -/
def installUpdate (formats : Formats) (reference : Reference) (sha : Text) : Loads Unit := do
  let _ ← downloadImage formats reference
  let extractedPath ← extractImage formats sha
  writeFile updateAttemptFile sha
  if ← existsOk tmpSymlink then
    ask (.removeFile tmpSymlink)
  ask (.symlink (.absolute (extractedPath ++ ["entrypoint".toList])) tmpSymlink)
  ask (.rename tmpSymlink entrypointAttemptPath)
  let impossible ← ask (.exit restartExitCode)
  nomatch impossible

private theorem installUpdate_orderly (reference : Reference) (sha : Text) : Orderly
    (installUpdate formats reference sha) := by
  apply Orderly.then (downloadImage_stores reference)
  intro _ _
  apply Orderly.then (extractImage_stores sha)
  rintro _ rfl
  exact (writeMarker_checkForUpdate sha) ▸ writeMarker_orderly sha

private theorem checkForUpdate_orderly (reference currentSha : Text) : Orderly
    (checkForUpdate formats reference currentSha) := by
  apply Orderly.then (Fallible.Uses.ofExcept _)
  intro reference _
  apply Orderly.then (downloadManifest_stores reference)
  rintro ⟨reference, manifest, newSha⟩ _
  dsimp only
  split
  · exact .done _
  · apply Orderly.then (wasUpdateAttempted_stores newSha)
    intro attempted _
    cases attempted with
    | true => exact .done _
    | false => exact installUpdate_orderly reference newSha

private theorem markReady_orderly : Orderly (markReady formats self) := by
  apply Orderly.then (Fallible.Uses.ofExcept _)
  intro currentSha _
  have rest : Orderly (do
      let _ ← (cleanupStorage formats [currentSha]).attempt
      let reference ← ask (.var "DOCKERLOADER_TARGET")
      checkForUpdate formats reference currentSha : Loads Unit) := by
    apply Orderly.then (cleanupStorage_stores _).attempt
    intro _ _
    apply Orderly.then (ask_reads rfl)
    intro reference _
    exact checkForUpdate_orderly reference currentSha
  split
  · apply Orderly.then (ask_reads rfl)
    intro found _
    cases found with
    | true =>
      refine .call nofun (fun _ => nofun) fun reply => ?_
      cases reply with
      | error error => exact .fail error
      | ok value => exact .call nofun (fun _ => nofun) fun reply => rest
    | false => exact rest
  · exact rest

private theorem updateRound_orderly (reference : Text) : Orderly (updateRound formats self reference) := by
  unfold updateRound
  split
  · exact .done _
  · exact Orderly.bind (checkForUpdate_orderly reference _).attempt fun result => by cases result <;> exact .done _

theorem Starts.orderly {task : Loads Unit} (starts : Starts formats self task) : Orderly task := by
  cases starts with
  | markReady => exact markReady_orderly
  | updateRound reference => exact updateRound_orderly reference

end
end Pos2.Loader
