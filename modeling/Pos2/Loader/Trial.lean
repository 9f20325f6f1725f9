import Pos2.Loader.Rounds

/-! The end of a trial: the supervisor looks at the attempting link when the time
is up, and the app on trial commits by renaming it. -/

namespace Pos2.Loader
open Calls

section
variable {self : Process} {request : Request} {before after : Machine} {reply : Except String request.Value}

theorem Updates.attempting (updates : Updates self request) (linked : Linked before.fs)
    (served : serves request before reply after) (other : request ≠ .rename entrypointAttemptingPath entrypointPath) :
    after.fs entrypointAttemptingPath = before.fs entrypointAttemptingPath := by
  have nothing (failed : request.Fails before.fs after.fs) (other : ∀ path text, request ≠ .writeAll path text) :
      after.fs entrypointAttemptingPath = before.fs entrypointAttemptingPath := by
    rw [Request.fails_nothing failed other]
  match updates, reply, served with
  | .store stores, _, served => exact (stores.keeps linked served).1.links _ (by decide)
  | .write _, .error _, ⟨⟨_, _, disk⟩, _⟩ | .write _, .ok _, ⟨disk, _⟩ =>
    rw [disk]
    exact (Untouched.append updateAttempt_other linked.updateAttempt_plain _).links _ (by decide)
  | .mark, .error _, ⟨failed, _⟩ | .unmark, .error _, ⟨failed, _⟩ | .link _, .error _, ⟨failed, _⟩
  | .unlink, .error _, ⟨failed, _⟩ | .attempt, .error _, ⟨failed, _⟩ => exact nothing failed (by simp)
  | .exit _, .error _, ⟨impossible, _⟩ => exact impossible.elim
  | .mark, .ok _, ⟨disk, _⟩ =>
    exact (Untouched.create updateAttempt_other linked.updateAttempt_plain disk).links _ (by decide)
  | .unmark, .ok _, ⟨disk, _⟩ => exact (Untouched.remove updateAttempt_other disk.2).links _ (by decide)
  | .link sha, .ok _, ⟨disk, _⟩ =>
    rw [(linked.symlink (by decide) disk).2.1]
    exact Function.update_of_ne (by decide) _ _
  | .unlink, .ok _, ⟨disk, _⟩ => exact (linked.remove disk.2).1 _ (by decide)
  | .attempt, .ok _, ⟨disk, _⟩ =>
    exact (linked.rename (by decide) (by decide) (by decide) disk).1.others _ (by decide) (by decide) rfl
  | .commit _, _, _ => exact (other rfl).elim

/-- The two links that decide a trial change by a commit only. -/
theorem Updates.decides (updates : Updates self request) (valid : Valid before) (alive : before.child = .running self)
    (served : serves request before reply after) :
    (after.fs entrypointAttemptingPath = before.fs entrypointAttemptingPath ∧
      after.fs entrypointPath = before.fs entrypointPath) ∨
    (request = .rename entrypointAttemptingPath entrypointPath ∧ self.trial = true ∧
      Committed self before.fs after.fs) := by
  have step := updates.step valid alive served
  have leaves (other : request ≠ .rename entrypointAttemptingPath entrypointPath) :
      after.fs entrypointAttemptingPath = before.fs entrypointAttemptingPath ∧
        after.fs entrypointPath = before.fs entrypointPath := by
    refine ⟨updates.attempting valid.linked served other, ?_⟩
    rcases step.entrypoint with same | ⟨same, _⟩
    · exact same
    · exact (other same).elim
  cases updates with
  | store stores =>
    obtain ⟨untouched, _⟩ := stores.keeps valid.linked served
    exact .inl ⟨untouched.links _ (by decide), untouched.links _ (by decide)⟩
  | commit trial =>
    cases reply with
    | error error =>
      refine .inl ⟨?_, ?_⟩ <;> rw [Request.fails_nothing served.1 (by simp)]
    | ok value =>
      obtain ⟨passed, _⟩ := valid.linked.rename (by decide) (by decide) (by decide) served.1
      obtain ⟨node, link⟩ := Option.ne_none_iff_exists'.mp passed.there
      have own := valid.trial self alive trial node link
      subst own
      exact .inr ⟨rfl, trial, link, passed.left, passed.arrived.trans link⟩
  | attempt =>
    have different : tmpSymlink ≠ entrypointAttemptingPath := by decide
    exact .inl (leaves fun same => different (Request.rename.inj same).1)
  | _ => exact .inl (leaves nofun)

end

section
variable {formats : Formats} {app : Process} {previous : Option Node} {world after : World} {event : Event}

/-- The trial has not been committed, or it has. -/
def Pending (app : Process) (previous : Option Node) (fs : Fs) : Prop :=
  fs entrypointAttemptingPath = some (.link (.absolute app.program)) ∧ fs entrypointPath = previous

def Done (app : Process) (fs : Fs) : Prop :=
  fs entrypointAttemptingPath = none ∧ fs entrypointPath = some (.link (.absolute app.program))

/-- A step of a trial that nobody cuts off. Once the time is up the existence check
sees whether the link is there, and after that nobody commits; the check and the
kill do not fail. -/
structure Decisive (before : World) (event : Event) (after : World) : Prop where
  round : event ≠ .round
  alive : event ≠ .restart
  sees : before.supervisor = checkTrial → before.machine.fs entrypointAttemptingPath ≠ none →
    before.machine.fs.exists_ entrypointAttemptingPath = true
  late : before.supervisor = abortTrial → ¬ Commits before event after
  checked : before.supervisor = checkTrial → ∀ error, after.supervisor ≠ .fail error
  killed : event = .supervisor .kill → after.machine.child = .none

/-- What a trial has come to while its supervisor goes on. -/
structure Trying (app : Process) (previous : Option Node) (world : World) : Prop where
  holds : world.Holds
  own : ∀ other, world.machine.child = .running other → other = app
  links : Pending app previous world.machine.fs ∨ Done app world.machine.fs
  stage : (∃ round : Round, round.hasChild = true ∧ world.supervisor = round.program ∧
      (round = .aborts → Pending app previous world.machine.fs) ∧ (round = .waits → Done app world.machine.fs)) ∨
    ∃ verdict, world.supervisor = Program.done verdict

private theorem Round.program_injective {first second : Round} (same : first.program = second.program) :
    first = second := by
  rw [first.program_call, second.program_call] at same
  have requests : first.request = second.request := by
    injection same
  revert requests
  cases first <;> cases second <;> simp [Round.request] <;> decide

theorem Round.unfinished (round : Round) (verdict : Except String Verdict) : round.program ≠ Program.done verdict := by
  rw [round.program_call]
  exact nofun

theorem Decisive.supervised {before after : World} {request : Request}
    (sees : before.machine.fs.exists_ entrypointAttemptingPath = true)
    (checked : before.supervisor = checkTrial → ∃ round : Round, after.supervisor = round.program)
    (killed : request = .kill → after.machine.child = .none) : Decisive before (.supervisor request) after where
  round := nofun
  alive := nofun
  sees := fun _ _ => sees
  late := by
    rintro _ ⟨_, _, _, impossible, _⟩
    cases impossible
  checked := by
    intro checking error failed
    obtain ⟨round, here⟩ := checked checking
    exact round.unfinished _ (here.symm.trans failed)
  killed := by
    intro same
    cases same
    exact killed rfl

private theorem Fs.exists_none {fs : Fs} {path : Path} (missing : fs path = none) : fs.exists_ path = false := by
  have plain : fs.follow path = some path := Fs.follow_plain (by simp [missing])
  rw [Fs.exists_, plain, Option.bind_some, missing]
  rfl

theorem Pending.there {fs : Fs} (pending : Pending app previous fs) : fs entrypointAttemptingPath ≠ none := by
  rw [pending.1]
  exact nofun

theorem Trying.watch {request : Request} (trying : Trying app previous world)
    (step : Step formats world (.supervisor request) after) (decisive : Decisive world (.supervisor request) after) :
    Trying app previous after := by
  have holds := trying.holds.step step
  have linked := trying.holds.valid.linked
  rcases trying.stage with ⟨round, busy, here, aborting, waiting⟩ | ⟨verdict, here⟩
  · obtain ⟨_, transition, _⟩ := step.transition linked here
    have sees (checking : round = .checks) (there : world.machine.fs entrypointAttemptingPath ≠ none) :
        world.machine.fs.exists_ entrypointAttemptingPath = true := by
      rw [checking] at here
      exact decisive.sees here there
    clear here decisive step
    obtain ⟨machine, supervisor, tasks⟩ := world
    obtain ⟨machine', supervisor', tasks'⟩ := after
    dsimp only at transition
    have own := trying.own
    have links := trying.links
    cases transition with
    | finds | findsNone | takes | spawnsTrial | spawns => cases busy
    | fails error => exact ⟨holds, own, links, .inr ⟨.error error, rfl⟩⟩
    | reaps => exact ⟨holds, fun _ => nofun, links, .inr ⟨_, rfl⟩⟩
    | timesOut => exact ⟨holds, own, links, .inl ⟨.checks, rfl, rfl, nofun, nofun⟩⟩
    | stands there =>
      refine ⟨holds, own, links, .inl ⟨.aborts, rfl, rfl, fun _ => links.resolve_right ?_, nofun⟩⟩
      intro done
      rw [Fs.exists_none done.1] at there
      cases there
    | gone gone =>
      refine ⟨holds, own, links, .inl ⟨.waits, rfl, rfl, nofun, fun _ => links.resolve_left ?_⟩⟩
      intro pending
      rw [sees rfl pending.there] at gone
      cases gone
    | kills => exact ⟨holds, fun _ => nofun, links, .inr ⟨.error timeoutError, rfl⟩⟩
    | killFails => exact ⟨holds, own, links, .inr ⟨.error timeoutError, rfl⟩⟩
  · cases step with
    | supervisor => cases here

/-- A step that leaves the two links and the supervisor alone. -/
theorem Trying.apart (trying : Trying app previous world) (holds : after.Holds)
    (own : ∀ other, after.machine.child = .running other → other = app)
    (attempting : after.machine.fs entrypointAttemptingPath = world.machine.fs entrypointAttemptingPath)
    (entrypoint : after.machine.fs entrypointPath = world.machine.fs entrypointPath)
    (same : after.supervisor = world.supervisor) : Trying app previous after := by
  have pending (pending : Pending app previous world.machine.fs) : Pending app previous after.machine.fs :=
    ⟨attempting.trans pending.1, entrypoint.trans pending.2⟩
  have done (done : Done app world.machine.fs) : Done app after.machine.fs :=
    ⟨attempting.trans done.1, entrypoint.trans done.2⟩
  refine ⟨holds, own, trying.links.imp pending done, ?_⟩
  rcases trying.stage with ⟨round, busy, here, aborting, waiting⟩ | ⟨verdict, ended⟩
  · exact .inl ⟨round, busy, same.trans here, fun now => pending (aborting now), fun now => done (waiting now)⟩
  · exact .inr ⟨verdict, same.trans ended⟩

theorem Trying.step (trying : Trying app previous world) (step : Step formats world event after)
    (decisive : Decisive world event after) : Trying app previous after := by
  have holds := trying.holds.step step
  have whole := step
  cases step with
  | supervisor => exact trying.watch whole decisive
  | round => exact (decisive.round rfl).elim
  | restart => exact (decisive.alive rfl).elim
  | start => exact ⟨holds, trying.own, trying.links, trying.stage⟩
  | exit => exact ⟨holds, fun _ => nofun, trying.links, trying.stage⟩
  | arrives arrived =>
    have links := (trying.holds.valid.linked.lands arrived.lands).links
    exact trying.apart holds trying.own (links _ (by decide)) (links _ (by decide)) rfl
  | @task machine after supervisor tasks self request next i reply alive waiting served =>
    cases trying.own self alive
    have uses := trying.holds.tasks app alive i
    dsimp only at uses
    rw [waiting] at uses
    have child := (uses.1.step trying.holds.valid alive served).child
    have own (other : Process) (running : after.child = .running other) : other = app :=
      trying.own other (child ▸ running)
    rcases uses.1.decides trying.holds.valid alive served with ⟨attempting, entrypoint⟩ | ⟨rfl, trial, committed⟩
    · exact trying.apart holds own attempting entrypoint rfl
    · have done : Done app after.fs := committed.2
      refine ⟨holds, own, .inr done, ?_⟩
      rcases trying.stage with ⟨round, busy, here, _, _⟩ | ended
      · refine .inl ⟨round, busy, here, ?_, fun _ => done⟩
        rintro rfl
        obtain ⟨sha, program⟩ := trying.holds.valid.program app alive
        exact (decisive.late here ⟨i, app, sha, rfl, alive, trial, program, committed⟩).elim
      · exact .inr ended

theorem Trying.run (trying : Trying app previous world) (run : Runs formats Decisive world after) :
    Trying app previous after := by
  induction run with
  | refl => exact trying
  | tail _ move before =>
    obtain ⟨event, step, decisive⟩ := move
    exact before.step step decisive

theorem Trying.at_ (trying : Trying app previous world) (round : Round) (here : world.supervisor = round.program) :
    (round = .aborts → Pending app previous world.machine.fs) ∧ (round = .waits → Done app world.machine.fs) := by
  rcases trying.stage with ⟨other, _, there, aborting, waiting⟩ | ⟨verdict, there⟩
  · cases Round.program_injective (here.symm.trans there)
    exact ⟨aborting, waiting⟩
  · rw [here, round.program_call] at there
    cases there

theorem Trying.killed (trying : Trying app previous world) (step : Step formats world (.supervisor .kill) after) :
    after.supervisor = .fail timeoutError ∧ after.machine.fs entrypointPath = previous := by
  rcases trying.stage with ⟨round, _, here, aborting, _⟩ | ⟨verdict, here⟩
  · obtain ⟨request, transition, _⟩ := step.transition trying.holds.valid.linked here
    have last : round = .aborts := by
      cases round with
      | aborts => rfl
      | _ => cases request
    have same := (aborting last).2
    subst last
    generalize after.supervisor = supervisor at transition ⊢
    generalize after.machine = machine at transition ⊢
    cases transition with
    | fails error other => exact (other rfl).elim
    | reaps waiting => rcases waiting with impossible | impossible <;> cases impossible
    | kills => exact ⟨rfl, same⟩
    | killFails => exact ⟨rfl, same⟩
  · cases step with
    | supervisor => cases here

/-- The trial is spawned. -/
theorem trying_spawned {machine : Machine} (holds : world.Holds) (watching : world.supervisor = watchTrial)
    (served : serves (.spawn entrypointAttemptingPath true) machine (.ok ()) world.machine) :
    ∃ app, world.machine.child = .running app ∧ Trying app (world.machine.fs entrypointPath) world := by
  have disk : world.machine.fs = machine.fs := served.1
  obtain ⟨app, ⟨_, link, _⟩, after⟩ := spawned (disk ▸ holds.valid.linked) (by decide) served
  have child : world.machine.child = .running app := by rw [after]
  refine ⟨app, child, holds, ?_, .inl ⟨disk ▸ link, rfl⟩, .inl ⟨.watches, rfl, watching, nofun, nofun⟩⟩
  intro other running
  rw [child] at running
  cases running
  rfl

/-- A trial that has just been spawned, in any run that nobody cuts off: when its
time is up the supervisor either waits on, and then the entrypoint names the trial
version, or it kills the trial and gives up, and then the entrypoint is the one
before the trial. -/
theorem trial_decided_once {start : World} {machine : Machine} (reachable : start.Reachable formats)
    (watching : start.supervisor = watchTrial)
    (spawned : serves (.spawn entrypointAttemptingPath true) machine (.ok ()) start.machine) :
    ∃ app, start.machine.child = .running app ∧ app.trial = true ∧
      ∀ world, Runs formats Decisive start world →
        (world.supervisor = awaitExit → world.machine.fs entrypointPath = some (.link (.absolute app.program))) ∧
        ∀ event after, Step formats world event after → Decisive world event after →
          (world.supervisor = checkTrial → event = .supervisor (.exists_ entrypointAttemptingPath) →
            after.supervisor = abortTrial ∨ after.supervisor = awaitExit) ∧
          (event = .supervisor .kill → after.machine.child = .none ∧ after.supervisor = .fail timeoutError ∧
            after.machine.fs entrypointPath = start.machine.fs entrypointPath) := by
  obtain ⟨app, alive, trying⟩ := trying_spawned reachable.phase.1 watching spawned
  obtain ⟨_, exe, content, _, _, child⟩ := spawned
  rw [alive] at child
  cases child
  refine ⟨_, alive, rfl, ?_⟩
  intro world run
  have trying := trying.run run
  refine ⟨fun waiting => ((trying.at_ .waits waiting).2 rfl).2, ?_⟩
  intro event after step decisive
  have linked := trying.holds.valid.linked
  refine ⟨?_, ?_⟩
  · rintro checking rfl
    have here : world.supervisor = Round.checks.program := checking
    have transition := (step.transition linked here).2.1
    have answered := decisive.checked checking
    generalize after.supervisor = supervisor at transition answered ⊢
    generalize after.machine = machine at transition
    cases transition with
    | fails error => exact (answered error rfl).elim
    | stands => exact .inl rfl
    | gone => exact .inr rfl
    | reaps waiting => rcases waiting with impossible | impossible <;> cases impossible
  · rintro rfl
    obtain ⟨finished, same⟩ := trying.killed step
    exact ⟨decisive.killed rfl, finished, same⟩

private theorem Fs.follow_link {fs : Fs} {path target : Path} (link : fs path = some (.link (.absolute target)))
    (plain : ∀ next, fs target ≠ some (.link next)) : fs.follow path = some target := by
  have last : fs.followLinks 39 target = some target := by
    unfold Fs.followLinks
    split
    next next found => exact (plain next found).elim
    next => rfl
  unfold Fs.follow Fs.maxLinks Fs.followLinks
  rw [link]
  exact last

private theorem Fs.exists_link {fs : Fs} {path target : Path} {content : Text}
    (link : fs path = some (.link (.absolute target)))
    (file : fs target = some (.file content)) : fs.exists_ path = true := by
  have plain (next : Target) : fs target ≠ some (.link next) := by
    rw [file]
    exact nofun
  rw [Fs.exists_, Fs.follow_link link plain, Option.bind_some, file]
  rfl

end

/-- The second version on trial, with the first one behind it. -/
def secondOnTrial : Process := ⟨true, entrypointOf "v2".toList, entrypointOf "v2".toList⟩

structure SecondOnTrial (world : World) : Prop where
  reachable : world.Reachable oneLayer
  watching : world.supervisor = watchTrial
  idle : world.tasks = idle
  child : world.machine.child = .running secondOnTrial
  attempting : world.machine.fs entrypointAttemptingPath = some (.link (.absolute (entrypointOf "v2".toList)))
  entrypoint : world.machine.fs entrypointPath = some (.link (.absolute (entrypointOf "v1".toList)))
  file : world.machine.fs (entrypointOf "v2".toList) = some (.file [])
  parent : world.machine.fs dockerloaderDir = some .dir

private theorem second_on_trial : ∃ world, SecondOnTrial world := by
  have start : FreeRuns oneLayer (.initial oneLayer volume) _ := .refl
  have looping := (start.supervise (registry "v1".toList)).step .round
  have running := looping.supervise (registry "v1".toList)
  have started := running.step (.start 0 rfl rfl .markReady)
  have updated := started.task (registry "v2".toList) 0 rfl
  have exited := (updated.step (.exit (some 42) rfl)).reaped rfl rfl
  have trial := (exited.step .round).supervise (registry "v2".toList)
  exact ⟨_, ⟨volume, volume_fresh, trial⟩, rfl, rfl, rfl, rfl, rfl, rfl, rfl⟩

theorem SecondOnTrial.spawned {world : World} (second : SecondOnTrial world) :
    serves (.spawn entrypointAttemptingPath true) { world.machine with child := .none } (.ok ()) world.machine := by
  refine ⟨rfl, entrypointOf "v2".toList, [], ?_, second.file, ?_⟩
  · apply Fs.follow_link second.attempting
    rw [second.file]
    exact fun _ => nofun
  · dsimp only
    rw [second.attempting, second.child]
    rfl

/-- The second version does not commit in time. -/
theorem trial_decided_once_killed : ∃ start world after : World,
    start.machine.fs entrypointPath = some (.link (.absolute (entrypointOf "v1".toList))) ∧
      start.machine.child = .running secondOnTrial ∧ Runs oneLayer Decisive start world ∧
      Step oneLayer world (.supervisor .kill) after ∧
      after.machine.fs entrypointPath = start.machine.fs entrypointPath := by
  obtain ⟨⟨machine, _, _⟩, second⟩ := second_on_trial
  cases second.watching
  cases second.idle
  obtain ⟨app, _, _, decided⟩ := trial_decided_once second.reachable rfl second.spawned
  have there := Fs.exists_link second.attempting second.file
  have waited : serves .waitTimeout machine (.ok none) machine := ⟨rfl, rfl⟩
  have looked : serves (.exists_ entrypointAttemptingPath) machine (.ok true) machine := ⟨⟨there.symm, rfl⟩, rfl⟩
  have killed : serves .kill machine (.ok ()) { machine with child := .none } := ⟨rfl, rfl⟩
  have timesOut : Step oneLayer ⟨machine, watchTrial, idle⟩ (.supervisor .waitTimeout)
      ⟨machine, checkTrial, tasksOf machine.child idle⟩ := Round.step .watches (.ok none) waited
  have checks : Step oneLayer ⟨machine, checkTrial, idle⟩ (.supervisor (.exists_ entrypointAttemptingPath))
      ⟨machine, abortTrial, tasksOf machine.child idle⟩ := Round.step .checks (.ok true) looked
  have kills : Step oneLayer ⟨machine, abortTrial, idle⟩ (.supervisor .kill)
      ⟨{ machine with child := .none }, .fail timeoutError, idle⟩ := Round.step .aborts (.ok ()) killed
  rw [tasksOf_idle] at timesOut checks
  have run : Runs oneLayer Decisive ⟨machine, watchTrial, idle⟩ ⟨machine, abortTrial, idle⟩ :=
    (Relation.ReflTransGen.single ⟨_, timesOut, .supervised there (fun _ => ⟨.checks, rfl⟩) nofun⟩).tail
      ⟨_, checks, .supervised there (fun _ => ⟨.aborts, rfl⟩) nofun⟩
  have last : Decisive ⟨machine, abortTrial, idle⟩ (.supervisor .kill) ⟨{ machine with child := .none }, .fail timeoutError, idle⟩ := by
    refine .supervised there (fun checking => ?_) fun _ => rfl
    have same : Round.aborts.program = Round.checks.program := checking
    cases Round.program_injective same
  exact ⟨_, _, _, second.entrypoint, second.child, run, kills, (((decided _ run).2 _ _ kills last).2 rfl).2.2⟩

private theorem markReady_commits : ∃ next rest,
    markReady oneLayer secondOnTrial = Program.call (Request.exists_ entrypointAttemptingPath) next ∧
      next (.ok true) = Program.call (Request.rename entrypointAttemptingPath entrypointPath) rest :=
  ⟨_, _, rfl, rfl⟩

/-- A rename of one link over another. -/
theorem Fs.rename_link {fs : Fs} {source target : Path} {moved replaced : Target} (different : source ≠ target)
    (apart : ¬ source <+: target) (parent : fs target.dropLast = some .dir) (there : fs source = some (.link moved))
    (taken : fs target = some (.link replaced)) : fs.rename source target (fs.move source target) := by
  rw [Fs.rename, if_neg different, there, taken]
  refine ⟨rfl, ?_, apart, trivial⟩
  simp [Fs.hasParent, parent]

/-- The only task of an app goes on. -/
theorem FreeRuns.asks {formats : Formats} {start : World} {machine after : Machine} {supervisor : Loads Verdict}
    {task : Loads Unit} {app : Process} {request : Request} {next : Except String request.Value → Loads Unit}
    (run : FreeRuns formats start ⟨machine, supervisor, Function.update idle 0 task⟩)
    (alive : machine.child = .running app) (waiting : task = Program.call request next)
    {reply : Except String request.Value} (served : serves request machine reply after) :
    FreeRuns formats start ⟨after, supervisor, Function.update idle 0 (next reply)⟩ := by
  have asked := run.step (.task 0 reply alive ((Function.update_self ..).trans waiting) served)
  rwa [Function.update_idem] at asked

/-- The supervisor goes on while its app runs. -/
theorem FreeRuns.watches {formats : Formats} {start : World} {machine : Machine} (round : Round)
    {tasks : Nat → Loads Unit} {app : Process} (run : FreeRuns formats start ⟨machine, round.program, tasks⟩)
    (alive : machine.child = .running app) {reply : Except String round.request.Value}
    (served : serves round.request machine reply machine) :
    FreeRuns formats start ⟨machine, round.next reply, tasks⟩ := by
  have watched := run.step (round.step reply served)
  rwa [alive] at watched

/-- The second version commits between the supervisor's check and its kill. -/
theorem commit_after_timeout : ∃ start world after : World, SecondOnTrial start ∧
    FreeRuns oneLayer start world ∧ world.supervisor = abortTrial ∧
    Step oneLayer world (.supervisor .kill) after ∧ after.machine.child = .none ∧
    after.supervisor = .fail timeoutError ∧
    after.machine.fs entrypointPath = some (.link (.absolute (entrypointOf "v2".toList))) := by
  obtain ⟨⟨machine, _, _⟩, second⟩ := second_on_trial
  cases second.watching
  cases second.idle
  obtain ⟨next, rest, ready, commits⟩ := markReady_commits
  have there := Fs.exists_link second.attempting second.file
  have linked := second.reachable.phase.1.valid.linked
  have renames : machine.fs.rename entrypointAttemptingPath entrypointPath
      (machine.fs.move entrypointAttemptingPath entrypointPath) :=
    Fs.rename_link (by decide) (by decide) second.parent second.attempting second.entrypoint
  obtain ⟨passed, _⟩ := linked.rename (by decide) (by decide) (by decide) renames
  have looked : serves (.exists_ entrypointAttemptingPath) machine (.ok true) machine := ⟨⟨there.symm, rfl⟩, rfl⟩
  have waited : serves .waitTimeout machine (.ok none) machine := ⟨rfl, rfl⟩
  have committed : serves (.rename entrypointAttemptingPath entrypointPath) machine (.ok ())
      { machine with fs := machine.fs.move entrypointAttemptingPath entrypointPath } := ⟨renames, rfl⟩
  have started : FreeRuns oneLayer ⟨machine, watchTrial, idle⟩ _ :=
    FreeRuns.step .refl (.start 0 second.child rfl .markReady)
  have asked := started.asks second.child ready looked
  have late := FreeRuns.watches .watches asked second.child waited
  have aborting := FreeRuns.watches .checks late second.child looked
  have world := aborting.asks second.child commits committed
  have killed : serves .kill ⟨machine.fs.move entrypointAttemptingPath entrypointPath, machine.child⟩ (.ok ())
      ⟨machine.fs.move entrypointAttemptingPath entrypointPath, .none⟩ := ⟨rfl, rfl⟩
  exact ⟨_, _, _, second, world, rfl, Round.step .aborts (.ok ()) killed, rfl, rfl,
    passed.arrived.trans second.attempting⟩

end Pos2.Loader
