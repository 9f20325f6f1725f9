import Mathlib.Data.List.DropRight
import Pos2.Loader.Images

/-! Updates, from `dockerloader/src/lib.rs` and `dockerloader/src/main.rs`: the
app downloads a new image and asks for a trial, the supervisor runs it, and the
app on trial commits itself. -/

namespace Pos2.Loader
open Calls

/-- `char::is_whitespace` -/
def isWhitespace (c : Char) : Bool :=
  (0x9 ≤ c.toNat ∧ c.toNat ≤ 0xd) ∨ (0x2000 ≤ c.toNat ∧ c.toNat ≤ 0x200a) ∨
    c.toNat ∈ [0x20, 0x85, 0xa0, 0x1680, 0x2028, 0x2029, 0x202f, 0x205f, 0x3000]

/-- `str::trim` -/
def trim (text : Text) : Text := (text.dropWhile isWhitespace).rdropWhile isWhitespace

def wasUpdateAttempted (sha : Text) : Loads Bool := do
  match ← (ask (.readToString updateAttemptFile)).attempt with
  | .ok attemptedSha => pure (trim attemptedSha = sha : Bool)
  | .error _ => pure false

/-- The part of a path behind `extracted`. -/
def shaOf : Path → Option Text
  | part :: next :: rest => if part = "extracted".toList then some next else shaOf (next :: rest)
  | _ => none

def getRunningImageSha (self : Process) : Except String Text :=
  match shaOf self.exe with
  | some sha => .ok sha
  | none => .error "could not find sha in executable path"

def tmpSymlink : Path := dockerloaderDir ++ ["entrypoint-attempt.tmp".toList]

section
variable (formats : Formats)

def checkForUpdate (reference currentSha : Text) : Loads Unit := do
  let reference ← .ofExcept (formats.parseReference reference)
  let (reference, _, newSha) ← downloadManifest formats reference
  if currentSha = newSha then
    return ()
  if ← wasUpdateAttempted newSha then
    return ()
  let _ ← downloadImage formats reference
  let extractedPath ← extractImage formats newSha
  let newEntrypoint := extractedPath ++ ["entrypoint".toList]
  writeFile updateAttemptFile newSha
  if ← existsOk tmpSymlink then
    ask (.removeFile tmpSymlink)
  ask (.symlink (.absolute newEntrypoint) tmpSymlink)
  ask (.rename tmpSymlink entrypointAttemptPath)
  let impossible ← ask (.exit restartExitCode)
  nomatch impossible

def markReady (self : Process) : Loads Unit := do
  let currentSha ← .ofExcept (getRunningImageSha self)
  if self.trial then
    if ← ask (.exists_ entrypointAttemptingPath) then
      ask (.rename entrypointAttemptingPath entrypointPath)
      let _ ← (ask (.removeFile updateAttemptFile)).attempt
  let _ ← (cleanupStorage formats [currentSha]).attempt
  let reference ← ask (.var "DOCKERLOADER_TARGET")
  checkForUpdate formats reference currentSha

/-- One round of `start_update_loop`. -/
def updateRound (self : Process) (reference : Text) : Loads Unit := do
  match getRunningImageSha self with
  | .error _ => pure ()
  | .ok current => do
    let _ ← (checkForUpdate formats reference current).attempt

/-- What the supervisor does when it has come to the end of a round. -/
inductive Verdict where
  | again
  | exit (code : Int)
  deriving DecidableEq

/-- `main` up to its loop. -/
def startSupervisor : Loads Verdict := do
  if !(← ask (.exists_ ["data".toList])) then
    return .exit 0
  if !(← ask (.exists_ entrypointPath)) then
    let reference ← ask (.var "DOCKERLOADER_TARGET")
    downloadEntrypointInitial formats reference
  return .again

end

/-- `main` once the child has exited. -/
def afterExit (status : Option Int) : Verdict :=
  if status.getD 1 = restartExitCode then .again else .exit (status.getD 1)

/-- A trial that has been spawned, up to its timeout and beyond. -/
def watchTrial : Loads Verdict := do
  match ← ask .waitTimeout with
  | some status => pure (afterExit status)
  | none =>
    if ← ask (.exists_ entrypointAttemptingPath) then
      let _ ← (ask .kill).attempt
      .fail "DOCKERLOADER_TRIAL timeout hit, aborting"
    else
      return afterExit (← ask .wait)

/-- One round of the loop of `main`. -/
def superviseRound : Loads Verdict := do
  let inTrialMode ← (do
    if ← ask (.exists_ entrypointAttemptPath) then
      ask (.rename entrypointAttemptPath entrypointAttemptingPath)
      pure true
    else pure false)
  if inTrialMode then
    ask (.spawn entrypointAttemptingPath true)
    watchTrial
  else
    ask (.spawn entrypointPath false)
    return afterExit (← ask .wait)

end Pos2.Loader
