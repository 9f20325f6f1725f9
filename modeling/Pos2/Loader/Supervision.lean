import Pos2.Calls.Rely
import Pos2.Loader.Apps

/-! What the supervisor does between the steps of its child. While an app runs it
leaves the disk alone; a link becomes the attempting one before its version is
spawned on trial, and no version is spawned otherwise but the entrypoint. -/

namespace Pos2.Loader
open Calls

section
variable {formats : Formats}

/-- What the supervisor may rely on: without a running child nothing happens, but
that what has been written arrives. -/
structure Relies (before after : Machine) : Prop where
  valid : Valid after
  quiet : (∀ app, before.child ≠ .running app) → after.child = before.child ∧ before.fs.Lands after.fs

theorem Relies.refl {machine : Machine} (valid : Valid machine) : Relies machine machine :=
  ⟨valid, fun _ => ⟨rfl, .refl machine.fs⟩⟩

theorem Relies.trans {a b c : Machine} (first : Relies a b) (second : Relies b c) : Relies a c := by
  refine ⟨second.valid, ?_⟩
  intro quiet
  obtain ⟨child, lands⟩ := first.quiet quiet
  obtain ⟨child', lands'⟩ := second.quiet (child ▸ quiet)
  exact ⟨child'.trans child, lands.trans lands'⟩

/-- What a call of the supervisor does. -/
structure Supervises (request : Request) (before after : Machine) : Prop where
  valid : Valid after
  child : ∀ app, after.child = .running app → before.child = .running app ∨ ∀ other, before.child ≠ .running other
  kept : ∀ node, before.fs entrypointPath = some node → after.fs entrypointPath = some node
  spawned : ∀ path, request = .spawn path false → before.fs.exists_ entrypointAttemptPath = false ∧
    ∀ app, after.child = .running app → before.fs entrypointPath = some (.link (.absolute app.program))

/-- The supervisor starts another round only when its child is gone. -/
def Rests (verdict : Verdict) (machine : Machine) : Prop := verdict = .again → machine.child = .none

abbrev SupervisorFollows : Loads Verdict → Machine → Prop := Fallible.Follows serves Relies Supervises Rests

theorem Relies.none {before after : Machine} (relies : Relies before after) (quiet : before.child = .none) :
    after.child = .none ∧ before.fs.Lands after.fs := by
  rw [← quiet]
  apply relies.quiet
  intro app running
  rw [quiet] at running
  cases running

theorem Valid.childless {machine : Machine} (linked : Linked machine.fs) (quiet : ∀ app, machine.child ≠ .running app) :
    Valid machine :=
  ⟨linked, fun app running => (quiet app running).elim, fun app running => (quiet app running).elim⟩

/-- A call that leaves the entrypoint alone and spawns nothing. -/
theorem Supervises.calm {request : Request} {before after : Machine} (valid : Valid after)
    (child : after.child = before.child ∨ after.child = .none)
    (same : after.fs entrypointPath = before.fs entrypointPath)
    (calm : ∀ path trial, request ≠ .spawn path trial) : Supervises request before after := by
  refine ⟨valid, ?_, ?_, ?_⟩
  · intro app running
    rcases child with child | child
    · exact .inl (child ▸ running)
    · rw [child] at running
      cases running
  · intro node found
    exact same.trans found
  · intro path impossible
    exact (calm path false impossible).elim

/-- The calls before the first round. -/
inductive Prepares : Request → Prop where
  | store {request : Request} (stores : Stores request) : Prepares request
  | link (sha : Text) : Prepares (.symlink (.absolute (entrypointOf sha)) entrypointPath)

theorem Stores.prepares {α : Type} {post : α → Prop} {function : Loads α} (uses : function.Uses Stores post) :
    function.Uses Prepares post :=
  uses.mono fun _ => .store

private theorem downloadEntrypointInitial_prepares (reference : Text) :
    (downloadEntrypointInitial formats reference).Uses Prepares fun _ => True := by
  apply (Fallible.Uses.ofExcept _).bind
  intro reference _
  apply (Stores.prepares (downloadImage_stores reference)).bind
  intro sha _
  apply (Stores.prepares (extractImage_stores sha)).bind
  rintro _ rfl
  have laid : Laid dockerloaderDir := .inl ((List.prefix_append _ _).trans (List.prefix_append storageDir _))
  refine (Stores.prepares (createDirAll_stores laid)).bind ?_
  · intro _ _
    exact ask_uses (.link sha)

theorem startSupervisor_prepares : (startSupervisor formats).Uses Prepares fun _ => True := by
  have reads {request : Request} (reads : request.reads = true) : (ask request).Uses Prepares fun _ => True :=
    ask_uses (.store (.read reads))
  apply (reads rfl).bind
  intro mounted _
  cases mounted with
  | false => exact .pure trivial
  | true =>
    apply (reads rfl).bind
    intro found _
    cases found with
    | true => exact .pure trivial
    | false =>
      apply (reads rfl).bind
      intro reference _
      apply (downloadEntrypointInitial_prepares reference).bind
      intro _ _
      exact .pure trivial

theorem Prepares.supervises {request : Request} {before after : Machine} {reply : Except String request.Value}
    (prepares : Prepares request) (valid : Valid before) (quiet : before.child = .none)
    (served : serves request before reply after) : Supervises request before after ∧ after.child = .none := by
  have childless (child : after.child = before.child) (linked : Linked after.fs) : Valid after := by
    apply Valid.childless linked
    rw [child, quiet]
    exact fun _ => nofun
  match prepares, reply, served with
  | .store stores, reply, served =>
    obtain ⟨untouched, child⟩ := stores.keeps valid.linked served
    refine ⟨.calm (childless child (valid.linked.untouched untouched)) (.inl child)
      (untouched.links _ (by decide)) ?_, child.trans quiet⟩
    rintro path trial rfl
    cases stores with
    | read reads => cases reads
  | .link sha, .error _, ⟨disk, child⟩ =>
    have same : after.fs = before.fs := disk
    exact ⟨.calm (childless child (same ▸ valid.linked)) (.inl child) (by rw [same]) (by simp), child.trans quiet⟩
  | .link sha, .ok _, ⟨disk, child⟩ =>
    obtain ⟨free, same, linked⟩ := valid.linked.symlink (by decide) disk
    have child : after.child = before.child := child
    refine ⟨⟨childless child linked, ?_, ?_, nofun⟩, child.trans quiet⟩
    · intro app running
      exact .inl (child ▸ running)
    · intro node found
      rw [free] at found
      cases found

theorem startSupervisor_follows {machine : Machine} (valid : Valid machine) (quiet : machine.child = .none) :
    SupervisorFollows (startSupervisor formats) machine := by
  have kept (state later : Machine) (holds : Valid state ∧ state.child = .none) (relies : Relies state later) :
      Valid later ∧ later.child = .none := ⟨relies.valid, (relies.none holds.2).1⟩
  refine Program.Uses.follows startSupervisor_prepares kept ?_ ?_ ⟨valid, quiet⟩
  · intro request before reply after prepares holds served
    obtain ⟨supervises, quiet⟩ := prepares.supervises holds.1 holds.2 served
    exact ⟨supervises, supervises.valid, quiet⟩
  · intro result state _ holds verdict _ _
    exact holds.2

theorem Valid.reaped {machine : Machine} (valid : Valid machine) : Valid { machine with child := .none } :=
  .childless valid.linked fun _ => nofun

/-- Waiting for the child, looking after it and killing it. -/
theorem watches {request : Request} {before after : Machine} {reply : Except String request.Value}
    (watching : request = .wait ∨ request = .waitTimeout ∨ request = .kill ∨ ∃ path, request = .exists_ path)
    (valid : Valid before) (served : serves request before reply after) : Supervises request before after := by
  have same : after.fs = before.fs := by
    rcases watching with rfl | rfl | rfl | ⟨path, rfl⟩ <;> cases reply with
    | error error => exact served.1
    | ok value =>
      first
      | exact served.1
      | exact served.1.2
  have child : after.child = before.child ∨ after.child = .none := by
    cases reply with
    | error error => exact .inl served.2
    | ok value =>
      rcases watching with rfl | rfl | rfl | ⟨path, rfl⟩
      · exact .inr served.2.2
      · cases value with
        | none => exact .inl served.2
        | some code => exact .inr served.2.2
      · exact .inr served.2
      · exact .inl served.2
  refine .calm ?_ child (by rw [same]) ?_
  · rcases child with child | child
    · rwa [show after = before by cases after; cases before; cases same; cases child; rfl]
    · have reaped := valid.reaped
      rwa [show after = { before with child := .none } by cases after; cases same; cases child; rfl]
  · rintro path trial rfl
    simp at watching

/-- A child that has been waited for. -/
theorem wait_follows (machine : Machine) :
    SupervisorFollows (do return afterExit (← ask .wait)) machine := by
  apply Fallible.Follows.ask_bind
  intro before reply after relies served
  refine ⟨watches (.inl rfl) relies.valid served, ?_⟩
  rintro status rfl
  apply Fallible.Follows.pure
  intro later relies _
  exact (relies.none served.2.2).1

private theorem watchTrial_follows (machine : Machine) : SupervisorFollows watchTrial machine := by
  apply Fallible.Follows.ask_bind
  intro before reply after relies served
  refine ⟨watches (.inr (.inl rfl)) relies.valid served, ?_⟩
  rintro (_ | status) rfl
  · apply Fallible.Follows.ask_bind
    intro before reply after relies served
    refine ⟨watches (.inr (.inr (.inr ⟨_, rfl⟩))) relies.valid served, ?_⟩
    rintro found rfl
    cases found with
    | true =>
      intro before reply after relies served
      refine ⟨watches (.inr (.inr (.inl rfl))) relies.valid served, ?_⟩
      exact Fallible.Follows.fail _ after
    | false => exact wait_follows after
  · apply Fallible.Follows.pure
    intro later relies _
    exact (relies.none served.2.2).1

/-- Spawning a version through one of the links. -/
theorem spawns {path : Path} {trial : Bool} {before after : Machine} {reply : Except String Unit}
    (valid : Valid before) (quiet : before.child = .none) (switch : path ∈ switches)
    (pending : trial = true → path = entrypointAttemptingPath)
    (settled : trial = false → path = entrypointPath ∧ before.fs.exists_ entrypointAttemptPath = false)
    (served : serves (.spawn path trial) before reply after) : Supervises (.spawn path trial) before after := by
  have same : after.fs = before.fs := by
    cases reply with
    | error error => exact served.1
    | ok value => exact served.1
  have spawned (app : Process) (running : after.child = .running app) :
      app.trial = trial ∧ ∃ sha, app.program = entrypointOf sha ∧
        before.fs path = some (.link (.absolute app.program)) := by
    cases reply with
    | error error =>
      rw [served.2, quiet] at running
      cases running
    | ok value =>
      obtain ⟨exe, content, follow, file, child⟩ := served.2
      rw [running] at child
      cases child
      refine ⟨rfl, ?_⟩
      cases found : before.fs path with
      | none =>
        have plain : before.fs.follow path = some path := Fs.follow_plain (by simp [found])
        rw [plain] at follow
        cases follow
        rw [found] at file
        cases file
      | some node =>
        obtain ⟨sha, rfl⟩ := valid.linked.links path switch node found
        exact ⟨sha, rfl, rfl⟩
  refine ⟨⟨same ▸ valid.linked, ?_, ?_⟩, ?_, ?_, ?_⟩
  · intro app running
    obtain ⟨_, sha, program, _⟩ := spawned app running
    exact ⟨sha, program⟩
  · intro app running trying node found
    obtain ⟨tried, _, _, link⟩ := spawned app running
    rw [same, ← pending (tried ▸ trying), link] at found
    exact (Option.some.inj found).symm
  · intro app running
    refine .inr ?_
    rw [quiet]
    exact fun _ => nofun
  · intro node found
    rwa [same]
  · intro other asked
    cases asked
    obtain ⟨rfl, absent⟩ := settled rfl
    refine ⟨absent, ?_⟩
    intro app running
    obtain ⟨_, _, _, link⟩ := spawned app running
    exact link

/-- The pending link becomes the attempting one before any child is spawned. -/
theorem pending_renamed {before after : Machine} {reply : Except String Unit} (valid : Valid before)
    (quiet : before.child = .none)
    (served : serves (.rename entrypointAttemptPath entrypointAttemptingPath) before reply after) :
    Supervises (.rename entrypointAttemptPath entrypointAttemptingPath) before after ∧ after.child = .none := by
  have child : after.child = before.child := by
    cases reply with
    | error error => exact served.2
    | ok value => exact served.2
  have disk : Linked after.fs ∧ after.fs entrypointPath = before.fs entrypointPath := by
    cases reply with
    | error error =>
      have same : after.fs = before.fs := served.1
      rw [same]
      exact ⟨valid.linked, rfl⟩
    | ok value =>
      obtain ⟨passed, linked⟩ := valid.linked.rename (by decide) (by decide) (by decide) served.1
      exact ⟨linked, passed.others _ (by decide) (by decide) rfl⟩
  refine ⟨.calm (.childless disk.1 ?_) (.inl child) disk.2 (by simp), child.trans quiet⟩
  rw [child, quiet]
  exact fun _ => nofun

theorem superviseRound_follows (machine : Machine) (quiet : machine.child = .none) :
    SupervisorFollows superviseRound machine := by
  simp only [superviseRound, bind_assoc]
  apply Fallible.Follows.ask_bind
  intro before reply after relies served
  have quiet := (relies.none quiet).1
  have step := watches (.inr (.inr (.inr ⟨_, rfl⟩))) relies.valid served
  refine ⟨step, ?_⟩
  rintro found rfl
  obtain ⟨⟨looked, same⟩, child⟩ := served
  have quiet' : after.child = .none := Eq.trans child quiet
  cases found with
  | true =>
    simp only [if_true, bind_assoc, pure_bind]
    apply Fallible.Follows.ask_bind
    intro before reply later relies served
    have quiet' := (relies.none quiet').1
    have step' := pending_renamed relies.valid quiet' served
    refine ⟨step'.1, ?_⟩
    rintro _ rfl
    apply Fallible.Follows.ask_bind
    intro before reply last relies served
    have quiet' := (relies.none step'.2).1
    have spawned := spawns relies.valid quiet' (by decide) (fun _ => rfl) (by simp) served
    refine ⟨spawned, ?_⟩
    rintro _ rfl
    exact watchTrial_follows last
  | false =>
    simp only [Bool.false_eq_true, if_false, pure_bind]
    apply Fallible.Follows.ask_bind
    intro before reply later relies served
    obtain ⟨quiet', lands⟩ := relies.none quiet'
    have absent : before.fs.exists_ entrypointAttemptPath = false := by
      rw [lands.exists_, same]
      exact looked.symm
    have spawned := spawns relies.valid quiet' (by decide) (by simp) (fun _ => ⟨rfl, absent⟩) served
    refine ⟨spawned, ?_⟩
    rintro _ rfl
    exact wait_follows later

end
end Pos2.Loader
