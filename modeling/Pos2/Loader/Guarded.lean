import Pos2.Loader.Bars

/-! A barred program is named by the marker, so it is skipped and not handed over. -/

namespace Pos2.Loader
open Calls

/-- A link names a version that the marker names as well, and that is not barred. -/
def Offered (bars : Bars) (fs : Fs) (link : Path) : Prop :=
  ∃ sha, Names fs link sha ∧ bars.torn = false ∧ entrypointOf sha ∉ bars.barred

/-- What the task may still hand over without another look at the marker, and whether
it may remove the marker. -/
abbrev Minds (bars : Bars) (task : Loads Unit) : Prop :=
  Wary (fun sha => entrypointOf sha ∉ bars.barred) (bars.barred = []) task

/-- The task hands a version over. -/
structure HandsOver (bars : Bars) (machine : Machine) (task : Loads Unit) (handing : Handing) (sha : Text)
    (rest : Except String Unit → Loads Unit) : Prop where
  here : task = Program.bind (handing.program sha) rest
  ends : ∀ error, Minds bars (rest (.error error))
  allowed : entrypointOf sha ∉ bars.barred
  holds : handing.Holds sha machine.fs
  torn : bars.torn = true ↔ handing = .fills
  committed : ∀ program, onTrial machine.child = some program → bars.barred = []

/-- Every barred program is the one that the marker names, unless the marker is cut off. -/
def MarksBarred (bars : Bars) (fs : Fs) : Prop :=
  ∀ program ∈ bars.barred, bars.torn = true ∨
    ∃ text, fs updateAttemptFile = some (.file text) ∧ trim text = text ∧ entrypointOf text = program

structure Guarded (bars : Bars) (world : World) : Prop where
  holds : world.Holds
  phase : Phase world.supervisor world.machine
  marker : MarksBarred bars world.machine.fs
  pending : world.machine.fs entrypointAttemptPath ≠ none → Offered bars world.machine.fs entrypointAttemptPath
  taken : world.supervisor = Round.spawnsTrial.program →
    Offered bars world.machine.fs entrypointAttemptingPath ∧ world.machine.fs entrypointAttemptPath = none
  trial : ∀ program, onTrial world.machine.child = some program → ∀ other ∈ bars.barred, other = program
  tasks : ∀ i, Minds bars (world.tasks i) ∨
    bars.marking = some i ∧ ∃ handing sha rest, HandsOver bars world.machine (world.tasks i) handing sha rest

section
variable {formats : Formats} {bars : Bars} {world after : World}

theorem Minds.idle (bars : Bars) (i : Nat) : Minds bars (idle i) := .done _

/-- Fewer programs are barred. -/
theorem Minds.fewer {bars' : Bars} {task : Loads Unit} (minds : Minds bars task)
    (fewer : ∀ program ∈ bars'.barred, program ∈ bars.barred) : Minds bars' task := by
  refine Wary.mono minds (fun sha allowed member => allowed (fewer _ member)) fun none_ => ?_
  exact List.eq_nil_iff_forall_not_mem.mpr fun program member => by simpa [none_] using fewer program member

theorem HandsOver.busy {machine : Machine} {task : Loads Unit} {handing : Handing} {sha : Text}
    {rest : Except String Unit → Loads Unit} (hands : HandsOver bars machine task handing sha rest)
    (result : Except String Unit) : task ≠ Program.done result := by
  intro done
  have here := hands.here
  rw [handing.program_bind, done] at here
  cases here

theorem Offered.kept {before after : Fs} {link : Path} (offered : Offered bars before link)
    (same : after link = before link) (marker : after updateAttemptFile = before updateAttemptFile) :
    Offered bars after link := by
  obtain ⟨sha, names, whole, free⟩ := offered
  exact ⟨sha, ⟨marker.trans names.marker, names.trimmed, same.trans names.link⟩, whole, free⟩

/-- The other parts of the disk play no part. -/
theorem HandsOver.kept {before after : Machine} {task : Loads Unit} {handing : Handing} {sha : Text}
    {rest : Except String Unit → Loads Unit} (hands : HandsOver bars before task handing sha rest)
    (marker : after.fs updateAttemptFile = before.fs updateAttemptFile)
    (tmp : after.fs tmpSymlink = before.fs tmpSymlink)
    (attempt : after.fs entrypointAttemptPath = before.fs entrypointAttemptPath)
    (child : after.child = before.child) : HandsOver bars after task handing sha rest := by
  refine ⟨hands.here, hands.ends, hands.allowed, ?_, hands.torn, child ▸ hands.committed⟩
  have holds := hands.holds
  cases handing with
  | fills => exact marker.trans holds
  | looks | removes | links => exact ⟨marker.trans holds.1, holds.2⟩
  | renames => exact ⟨marker.trans holds.marker, holds.trimmed, tmp.trans holds.link⟩
  | exits => exact ⟨marker.trans holds.marker, holds.trimmed, attempt.trans holds.link⟩

/-- What has been written arrives. -/
theorem Guarded.lands {machine : Machine} {fs : Fs} {supervisor : Loads Verdict} {tasks : Nat → Loads Unit}
    (guarded : Guarded bars ⟨machine, supervisor, tasks⟩) (lands : machine.fs.Lands fs)
    (holds : World.Holds ⟨{ machine with fs }, supervisor, tasks⟩) : Guarded bars ⟨{ machine with fs }, supervisor, tasks⟩ := by
  have linked := guarded.holds.valid.linked
  have link {path : Path} (switch : path ∈ switches) : fs path = machine.fs path := (linked.lands lands).links path switch
  have marker : fs updateAttemptFile = machine.fs updateAttemptFile := linked.lands_marker lands
  refine ⟨holds, guarded.phase.disk rfl, ?_, ?_, ?_, guarded.trial, fun i => ?_⟩
  · intro program member
    dsimp only
    rw [marker]
    exact guarded.marker program member
  · intro there
    have same : fs entrypointAttemptPath = machine.fs entrypointAttemptPath := link (by decide)
    exact (guarded.pending (same.symm.trans_ne there)).kept same marker
  · intro spawning
    obtain ⟨offered, gone⟩ := guarded.taken spawning
    exact ⟨offered.kept (link (by decide)) marker, (link (by decide)).trans gone⟩
  · rcases guarded.tasks i with minds | ⟨marking, handing, sha, rest, hands⟩
    · exact .inl minds
    · exact .inr ⟨marking, handing, sha, rest, hands.kept marker (link (by decide)) (link (by decide)) rfl⟩

/-- While a child is there the supervisor is not about to spawn a trial. -/
theorem Phase.not_spawning {machine : Machine} {supervisor : Loads Verdict} (phase : Phase supervisor machine)
    (child : machine.child ≠ .none) : supervisor ≠ Round.spawnsTrial.program := by
  rintro rfl
  cases phase with
  | prepares uses quiet => exact child quiet
  | loops round here matching =>
    rw [Round.program_call, Round.program_call] at here
    have same : round.request = .spawn entrypointAttemptingPath true := (Program.call.inj here).1.symm
    rw [Round.request_spawn same] at matching
    exact absurd (matching.mpr child) nofun
  | ended verdict here =>
    rw [Round.program_call] at here
    cases here

theorem Prepares.not_spawning {supervisor : Loads Verdict} (uses : supervisor.Uses Prepares fun _ => True) :
    supervisor ≠ Round.spawnsTrial.program := by
  rintro rfl
  rw [Round.program_call] at uses
  cases uses.1 with
  | store stores => cases stores with | read reads => cases reads

theorem Guarded.initial {disk : Fs} (fresh : Fresh disk) : Guarded ⟨[], none, false⟩ (.initial formats disk) where
  holds := World.initial_holds fresh
  phase := .prepares startSupervisor_prepares rfl
  marker := nofun
  pending := fun there => absurd (fresh _ (switch_own (by decide))) there
  taken := fun same => absurd same (Prepares.not_spawning startSupervisor_prepares)
  trial := nofun
  tasks := fun i => .inl (.done _)

end

/-! ### What the supervisor does -/

section
variable {formats : Formats} {bars : Bars} {world after : World} {request : Request}

theorem Bars.next_supervisor (quiet : (∀ path, request ≠ .spawn path true) ∨ onTrial after.machine.child = none) :
    bars.next world (.supervisor request) after = bars := by
  cases request with
  | spawn path trial =>
    cases trial with
    | false => rfl
    | true =>
      rcases quiet with quiet | none_
      · exact absurd rfl (quiet path)
      · simp only [Bars.next, none_]
  | _ => rfl

/-- The supervisor's calls with no child, or news of its child, leave the links that
are offered alone; but for the one that it takes. -/
theorem Guarded.watched (guarded : Guarded bars world) (step : Step formats world (.supervisor request) after)
    (child : world.machine.child ≠ .none) : Guarded (bars.next world (.supervisor request) after) after := by
  have holds := guarded.holds.step step
  have phase := guarded.phase.step guarded.holds step
  obtain ⟨round, busy, asked, transition, tasks⟩ := guarded.phase.watching guarded.holds.valid.linked step child
  obtain ⟨disk, ended⟩ := transition.watching busy
  have quiet (path : Path) : request ≠ .spawn path true := by
    intro same
    rw [asked] at same
    rw [Round.request_spawn same] at busy
    cases busy
  rw [Bars.next_supervisor (.inl quiet)]
  have still : after.machine.child = world.machine.child ∨ after.machine.child = .none :=
    ended.imp_right And.left
  refine ⟨holds, phase, disk ▸ guarded.marker, disk ▸ guarded.pending, ?_, ?_, ?_⟩
  · intro spawning
    rcases still with same | gone
    · exact absurd spawning (phase.not_spawning (same ▸ child))
    · rcases ended with same | ⟨_, ⟨error, failed⟩ | ⟨code, _, again⟩⟩
      · exact absurd (same.symm.trans gone) child
      · rw [failed, Round.program_call] at spawning
        cases spawning
      · rw [again, Round.program_call] at spawning
        cases spawning
  · rcases still with same | gone
    · rw [same]
      exact guarded.trial
    · rw [gone]
      exact fun _ => nofun
  · intro i
    rw [tasks]
    rcases still with same | gone
    · rw [same]
      cases running : world.machine.child with
      | running app =>
        rcases guarded.tasks i with minds | ⟨marking, handing, sha, rest, hands⟩
        · exact .inl minds
        · exact .inr ⟨marking, handing, sha, rest, hands.kept (by rw [disk]) (by rw [disk]) (by rw [disk]) same⟩
      | none | exited code => exact .inl (.idle bars i)
    · rw [gone]
      exact .inl (.idle bars i)

theorem Prepares.attempt {before after : Machine} {reply : Except String request.Value} (prepares : Prepares request)
    (linked : Linked before.fs) (served : serves request before reply after) :
    after.fs entrypointAttemptPath = before.fs entrypointAttemptPath := by
  match prepares, reply, served with
  | .store stores, _, served => exact (stores.keeps linked served).1.links _ (by decide)
  | .link sha, .error _, ⟨fails, _⟩ => rw [Request.fails_nothing fails (by simp)]
  | .link sha, .ok _, ⟨disk, _⟩ => rw [(linked.symlink (by decide) disk).2.1, Fs.put_other _ _ (by decide)]

/-- Nothing that is offered changes, and no trial is about to be spawned. -/
theorem Guarded.still (guarded : Guarded bars world) (holds : after.Holds) (phase : Phase after.supervisor after.machine)
    (marker : after.machine.fs updateAttemptFile = world.machine.fs updateAttemptFile)
    (attempt : after.machine.fs entrypointAttemptPath = world.machine.fs entrypointAttemptPath)
    (trial : onTrial after.machine.child = none) (idle_ : after.tasks = idle)
    (spawning : after.supervisor ≠ Round.spawnsTrial.program) : Guarded bars after where
  holds := holds
  phase := phase
  marker := by
    intro program member
    rw [marker]
    exact guarded.marker program member
  pending := by
    intro there
    rw [attempt] at there
    exact (guarded.pending there).kept attempt marker
  taken := fun same => absurd same spawning
  trial := by
    rw [trial]
    exact fun _ => nofun
  tasks := fun i => .inl (by rw [idle_]; exact .idle bars i)

theorem Round.program_inj {first second : Round} (same : first.program = second.program) :
    first.request = second.request := by
  rw [Round.program_call, Round.program_call] at same
  exact (Program.call.inj same).1

/-- The marker names one version only. -/
theorem Offered.only {fs : Fs} {link : Path} (offered : Offered bars fs link) (marker : MarksBarred bars fs) :
    bars.barred = [] := by
  obtain ⟨sha, names, whole, free⟩ := offered
  refine List.eq_nil_iff_forall_not_mem.mpr fun program member => ?_
  rcases marker program member with torn | ⟨text, read, _, same⟩
  · rw [whole] at torn
    cases torn
  · cases names.marker.symm.trans read
    exact free (same ▸ member)

/-- The version of a trial that is spawned is not barred, and is from then on. -/
theorem Guarded.spawned {app : Process} (guarded : Guarded bars world) (here : world.supervisor = Round.spawnsTrial.program)
    (spawned : Spawned world.machine.fs entrypointAttemptingPath true app)
    (machine : after.machine = { world.machine with child := .running app }) (tasks : after.tasks = idle)
    (holds : after.Holds) (phase : Phase after.supervisor after.machine) :
    app.program ∉ bars.barred ∧ Guarded { bars with barred := app.program :: bars.barred } after := by
  obtain ⟨offered, none_⟩ := guarded.taken here
  have only := offered.only guarded.marker
  obtain ⟨sha, names, whole, free⟩ := offered
  have program : app.program = entrypointOf sha := by
    have link := names.link.symm.trans spawned.2.1
    injection link with link
    injection link with link
    injection link with link
    exact link.symm
  have trial : onTrial after.machine.child = some app.program := by
    rw [machine, onTrial, if_pos spawned.1]
  refine ⟨program ▸ free, holds, phase, ?_, ?_, ?_, ?_, ?_⟩
  · intro other member
    rw [only] at member
    rw [List.mem_singleton.mp member, machine]
    exact .inr ⟨sha, names.marker, names.trimmed, program.symm⟩
  · rw [machine]
    exact fun there => absurd none_ there
  · intro spawning
    refine absurd spawning (phase.not_spawning ?_)
    rw [machine]
    nofun
  · intro current same other member
    rw [only] at member
    rw [trial] at same
    cases same
    exact List.mem_singleton.mp member
  · intro i
    rw [tasks]
    exact .inl (.idle _ i)

theorem Guarded.unwatched (guarded : Guarded bars world) (step : Step formats world (.supervisor request) after)
    (quiet : world.machine.child = .none) : Guarded (bars.next world (.supervisor request) after) after ∧
      ∀ path app, request = .spawn path true → after.machine.child = .running app → app.program ∉ bars.barred := by
  have holds := guarded.holds.step step
  have phase := guarded.phase.step guarded.holds step
  have linked := guarded.holds.valid.linked
  have resting : world.tasks = idle := guarded.holds.resting fun app alive => by simp [quiet] at alive
  have tasks : after.tasks = idle := by
    cases step with
    | @supervisor machine after tasks =>
      change tasksOf after.child tasks = idle
      rw [show tasks = idle from resting, tasksOf_idle]
  cases guarded.phase with
  | prepares uses _ =>
    cases step with
    | @supervisor machine after _ request next reply served =>
      have child : after.child = .none := (uses.1.supervises guarded.holds.valid quiet served).2
      have trial : onTrial after.child = none := by rw [child]; rfl
      rw [Bars.next_supervisor (.inr trial)]
      refine ⟨guarded.still holds phase (uses.1.marker linked served) (uses.1.attempt linked served) trial tasks
        (Prepares.not_spawning (uses.2 reply)), ?_⟩
      intro path app _ running
      exact absurd (child.symm.trans running) (by rintro ⟨⟩)
  | loops round here matching =>
    have busy : ¬ round.hasChild = true := fun busy => matching.mp busy quiet
    obtain ⟨rfl, transition, _⟩ := step.transition linked here
    have marker := transition.marker linked
    have childless (child : after.machine.child = .none) (attempt : after.machine.fs entrypointAttemptPath =
        world.machine.fs entrypointAttemptPath) (spawning : after.supervisor ≠ Round.spawnsTrial.program) :
        Guarded (bars.next world (.supervisor round.request) after) after ∧
          ∀ path app, round.request = .spawn path true → after.machine.child = .running app →
            app.program ∉ bars.barred := by
      have trial : onTrial after.machine.child = none := by rw [child]; rfl
      rw [Bars.next_supervisor (.inr trial)]
      exact ⟨guarded.still holds phase marker attempt trial tasks spawning,
        fun _ _ _ running => absurd (child.symm.trans running) (by rintro ⟨⟩)⟩
    have ended {result : Except String Verdict} : Program.done result ≠ Round.spawnsTrial.program := by
      rw [Round.program_call]
      rintro ⟨⟩
    have apart {other : Round} (different : other.request ≠ Round.spawnsTrial.request) :
        other.program ≠ Round.spawnsTrial.program := fun same => different (Round.program_inj same)
    obtain ⟨machine, supervisor, tasks'⟩ := after
    dsimp only at transition
    cases transition with
    | fails error => exact childless quiet rfl ended
    | finds => exact childless quiet rfl (@apart .takes (by rintro ⟨⟩))
    | findsNone => exact childless quiet rfl (@apart .spawns (by rintro ⟨⟩))
    | takes renamed =>
      obtain ⟨passed, _⟩ := linked.rename (by decide) (by decide) (by decide) renamed
      have trial : onTrial world.machine.child = none := by rw [quiet]; rfl
      rw [Bars.next_supervisor (.inl fun _ same => by cases same)]
      refine ⟨⟨holds, phase, ?_, ?_, ?_, ?_, ?_⟩, fun _ _ same => by cases same⟩
      · intro program member
        rw [marker]
        exact guarded.marker program member
      · exact fun there => absurd passed.left there
      · intro _
        obtain ⟨sha, names, whole, free⟩ := guarded.pending passed.there
        exact ⟨⟨sha, ⟨marker.trans names.marker, names.trimmed, passed.arrived.trans names.link⟩, whole, free⟩,
          passed.left⟩
      · intro program same
        rw [trial] at same
        cases same
      · intro i
        rw [tasks]
        exact .inl (.idle bars i)
    | @spawnsTrial _ app spawned =>
      obtain ⟨free, guarded⟩ := guarded.spawned here spawned rfl tasks holds phase
      have trial : onTrial (.running app) = some app.program := if_pos spawned.1
      have next (later : World) (child : later.machine.child = .running app) :
          bars.next world (.supervisor Round.spawnsTrial.request) later =
            { bars with barred := app.program :: bars.barred } := by
        simp only [Bars.next, Round.request, child, trial]
      rw [next _ rfl]
      refine ⟨guarded, ?_⟩
      intro path other _ running
      cases running
      exact free
    | @spawns _ app spawned =>
      have trial : onTrial (.running app) = none := by
        rw [onTrial, if_neg (by simp [spawned.1])]
      rw [Bars.next_supervisor (.inl fun _ same => by cases same)]
      exact ⟨guarded.still holds phase marker rfl trial tasks (@apart .waits (by rintro ⟨⟩)),
        fun _ _ same => by cases same⟩
    | reaps waiting => rcases waiting with rfl | rfl <;> exact absurd rfl busy
    | timesOut | stands | gone | kills | killFails => exact absurd rfl busy
  | ended verdict here =>
    cases step with
    | supervisor => cases here

end

end Pos2.Loader
