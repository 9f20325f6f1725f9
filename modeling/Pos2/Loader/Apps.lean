import Pos2.Loader.Switches

/-! What a running app does to the disk. Only an app on trial may move the
attempting link, and that link names what the app runs from. -/

namespace Pos2.Loader
open Calls

/-- The calls of an app: storing images, the marker, and the links it hands to the
supervisor. Only on trial it may commit. -/
inductive Updates (self : Process) : Request → Prop where
  | store {request : Request} (stores : Stores request) : Updates self request
  | mark : Updates self (.create updateAttemptFile)
  | write (text : Text) : Updates self (.writeAll updateAttemptFile text)
  | unmark : Updates self (.removeFile updateAttemptFile)
  | link (sha : Text) : Updates self (.symlink (.absolute (entrypointOf sha)) tmpSymlink)
  | unlink : Updates self (.removeFile tmpSymlink)
  | attempt : Updates self (.rename tmpSymlink entrypointAttemptPath)
  | commit (trial : self.trial = true) : Updates self (.rename entrypointAttemptingPath entrypointPath)
  | exit (code : Int) : Updates self (.exit code)

section
variable {formats : Formats} {self : Process}

theorem Stores.updates {α : Type} {post : α → Prop} {function : Loads α} (uses : function.Uses Stores post) :
    function.Uses (Updates self) post :=
  uses.mono fun _ => .store

theorem wasUpdateAttempted_stores (sha : Text) : (wasUpdateAttempted sha).Uses Stores fun _ => True := by
  apply (ask_reads rfl).attempt.bind
  intro result _
  cases result with
  | ok attemptedSha => exact .pure trivial
  | error error => exact .pure trivial

private theorem writeMarker_updates (text : Text) :
    (writeFile updateAttemptFile text).Uses (Updates self) fun _ => True := by
  apply (ask_uses .mark).bind
  intro _ _
  exact ask_uses (.write text)

private theorem checkForUpdate_updates (reference currentSha : Text) :
    (checkForUpdate formats reference currentSha).Uses (Updates self) fun _ => True := by
  apply (Fallible.Uses.ofExcept _).bind
  intro reference _
  apply (Stores.updates (downloadManifest_stores reference)).bind
  rintro ⟨reference, manifest, newSha⟩ _
  dsimp only
  split
  · exact .pure trivial
  · apply (Stores.updates (wasUpdateAttempted_stores newSha)).bind
    intro attempted _
    cases attempted with
    | true => exact .pure trivial
    | false =>
      apply (Stores.updates (downloadImage_stores reference)).bind
      intro _ _
      apply (Stores.updates (extractImage_stores newSha)).bind
      rintro _ rfl
      apply (writeMarker_updates newSha).bind
      intro _ _
      apply (Stores.updates (existsOk_stores tmpSymlink)).bind
      intro found _
      have linking (stopped : Empty → Loads Unit) : (do
          ask (.symlink (.absolute (entrypointOf newSha)) tmpSymlink)
          ask (.rename tmpSymlink entrypointAttemptPath)
          let impossible ← ask (.exit restartExitCode)
          stopped impossible : Loads Unit).Uses (Updates self) fun _ => True := by
        apply (ask_uses (.link newSha)).bind
        intro _ _
        apply (ask_uses .attempt).bind
        intro _ _
        apply (ask_uses (.exit _)).bind
        intro impossible
        cases impossible
      cases found with
      | true =>
        apply (ask_uses .unlink).bind
        intro _ _
        exact linking _
      | false => exact linking _

theorem markReady_updates : (markReady formats self).Uses (Updates self) fun _ => True := by
  apply (Fallible.Uses.ofExcept _).bind
  intro currentSha _
  have rest : (do
      let _ ← (cleanupStorage formats [currentSha]).attempt
      let reference ← ask (.var "DOCKERLOADER_TARGET")
      checkForUpdate formats reference currentSha : Loads Unit).Uses (Updates self) fun _ => True := by
    apply (Stores.updates (cleanupStorage_stores _).attempt).bind
    intro _ _
    apply (Stores.updates (ask_reads rfl)).bind
    intro reference _
    exact checkForUpdate_updates reference currentSha
  by_cases trial : self.trial = true
  · rw [if_pos trial]
    apply (Stores.updates (ask_reads rfl)).bind
    intro found _
    cases found with
    | true =>
      apply (ask_uses (.commit trial)).bind
      intro _ _
      apply (ask_uses .unmark).attempt.bind
      intro _ _
      exact rest
    | false => exact rest
  · rw [if_neg trial]
    exact rest

theorem updateRound_updates (reference : Text) :
    (updateRound formats self reference).Uses (Updates self) fun _ => True := by
  unfold updateRound
  split
  · exact .pure trivial
  · apply (checkForUpdate_updates reference _).attempt.bind
    intro _ _
    exact .pure trivial

/-- The state of the machine, as far as rollback goes: the links are in order, and
the attempting link of a running trial names its process. -/
structure Valid (machine : Machine) : Prop where
  linked : Linked machine.fs
  program : ∀ self, machine.child = .running self → ∃ sha, self.program = entrypointOf sha
  trial : ∀ self, machine.child = .running self → self.trial = true → ∀ node,
    machine.fs entrypointAttemptingPath = some node → node = .link (.absolute self.program)

/-- What has been written arrives. -/
theorem Valid.lands {machine : Machine} {fs : Fs} (valid : Valid machine) (lands : machine.fs.Lands fs) :
    Valid { machine with fs } := by
  have untouched := valid.linked.lands lands
  refine ⟨valid.linked.untouched untouched, valid.program, ?_⟩
  intro self running trial node found
  exact valid.trial self running trial node ((untouched.links _ (by decide)).symm.trans found)

/-- The attempting link has become the entrypoint. -/
def Committed (self : Process) (before after : Fs) : Prop :=
  before entrypointAttemptingPath = some (.link (.absolute self.program)) ∧
    after entrypointAttemptingPath = none ∧ after entrypointPath = some (.link (.absolute self.program))

theorem Linked.updateAttempt_plain {fs : Fs} (linked : Linked fs) (target : Target) :
    fs updateAttemptFile ≠ some (.link target) := by
  intro link
  rcases linked.plain _ target (List.prefix_append _ _) link with switch | inside
  · exact updateAttempt_other switch
  · exact marker_not_below extracted_stored inside.below

/-- One call of a running app: what the links, the attempting link and the
entrypoint are afterwards. -/
structure AppStep (app : Process) (request : Request) (before after : Machine) : Prop where
  linked : Linked after.fs
  child : after.child = before.child
  attempting : after.fs entrypointAttemptingPath = before.fs entrypointAttemptingPath ∨
    after.fs entrypointAttemptingPath = none
  entrypoint : after.fs entrypointPath = before.fs entrypointPath ∨
    request = .rename entrypointAttemptingPath entrypointPath ∧ app.trial = true ∧ Committed app before.fs after.fs

theorem AppStep.apart {request : Request} {before after : Machine} (linked : Linked before.fs)
    (untouched : Untouched before.fs after.fs) (child : after.child = before.child) :
    AppStep self request before after :=
  ⟨linked.untouched untouched, child, .inl (untouched.links _ (by decide)), .inl (untouched.links _ (by decide))⟩

theorem Updates.step {request : Request} {before after : Machine} {reply : Except String request.Value}
    (updates : Updates self request) (valid : Valid before) (alive : before.child = .running self)
    (served : serves request before reply after) : AppStep self request before after := by
  have linked := valid.linked
  have nothing (failed : request.Fails before.fs after.fs) (other : ∀ path text, request ≠ .writeAll path text)
      (child : after.child = before.child) : AppStep self request before after := by
    apply AppStep.apart linked _ child
    rw [Request.fails_nothing failed other]
    exact .refl before.fs
  match updates, reply, served with
  | .store stores, _, served =>
    obtain ⟨untouched, child⟩ := stores.keeps linked served
    exact .apart linked untouched child
  | .write _, .error _, ⟨⟨_, _, disk⟩, child⟩ | .write _, .ok _, ⟨disk, child⟩ =>
    apply AppStep.apart linked _ child
    rw [disk]
    exact .append updateAttempt_other linked.updateAttempt_plain _
  | .mark, .error _, ⟨failed, child⟩ | .unmark, .error _, ⟨failed, child⟩ | .link _, .error _, ⟨failed, child⟩
  | .unlink, .error _, ⟨failed, child⟩ | .attempt, .error _, ⟨failed, child⟩
  | .commit _, .error _, ⟨failed, child⟩ => exact nothing failed (by simp) child
  | .exit _, .error _, ⟨impossible, _⟩ => exact impossible.elim
  | .mark, .ok _, ⟨disk, child⟩ =>
    exact .apart linked (.create updateAttempt_other linked.updateAttempt_plain disk) child
  | .unmark, .ok _, ⟨disk, child⟩ => exact .apart linked (.remove updateAttempt_other disk.2) child
  | .link sha, .ok _, ⟨disk, child⟩ =>
    obtain ⟨_, same, linked⟩ := linked.symlink (by decide) disk
    refine ⟨linked, child, .inl ?_, .inl ?_⟩
    · rw [same]
      exact Function.update_of_ne (by decide) _ _
    · rw [same]
      exact Function.update_of_ne (by decide) _ _
  | .unlink, .ok _, ⟨disk, child⟩ =>
    obtain ⟨others, linked⟩ := linked.remove disk.2
    exact ⟨linked, child, .inl (others _ (by decide)), .inl (others _ (by decide))⟩
  | .attempt, .ok _, ⟨disk, child⟩ =>
    obtain ⟨passed, linked⟩ := linked.rename (by decide) (by decide) (by decide) disk
    exact ⟨linked, child, .inl (passed.others _ (by decide) (by decide) rfl),
      .inl (passed.others _ (by decide) (by decide) rfl)⟩
  | .commit trial, .ok _, ⟨disk, child⟩ =>
    obtain ⟨passed, linked⟩ := linked.rename (by decide) (by decide) (by decide) disk
    obtain ⟨node, attempting⟩ := Option.ne_none_iff_exists'.mp passed.there
    have own := valid.trial self alive trial node attempting
    subst own
    exact ⟨linked, child, .inr passed.left, .inr ⟨rfl, trial, attempting, passed.left, passed.arrived.trans attempting⟩⟩

theorem AppStep.valid {request : Request} {before after : Machine} (step : AppStep self request before after)
    (valid : Valid before) : Valid after := by
  refine ⟨step.linked, ?_, ?_⟩
  · intro other running
    exact valid.program other (step.child ▸ running)
  · intro other running trial node found
    rcases step.attempting with same | gone
    · exact valid.trial other (step.child ▸ running) trial node (same ▸ found)
    · rw [gone] at found
      cases found

end
end Pos2.Loader
