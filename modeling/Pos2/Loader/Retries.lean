import Pos2.Loader.Guarded

/-! No retry loop: a barred version is skipped until another one has been attempted.
The marker that bars it is cut off before it is written, so a kill in between lets
the version through. -/

namespace Pos2.Loader
open Calls

/-! ### What a task does -/

section
variable {formats : Formats} {bars bars' : Bars} {world after : World} {request : Request} {i : Nat} {app : Process}
  {task : Loads Unit}

theorem HandsOver.fewer {machine : Machine} {handing : Handing} {sha : Text} {rest : Except String Unit → Loads Unit}
    (hands : HandsOver bars machine task handing sha rest) (fewer : ∀ program ∈ bars'.barred, program ∈ bars.barred)
    (torn : bars'.torn = bars.torn) : HandsOver bars' machine task handing sha rest where
  here := hands.here
  ends := fun error => (hands.ends error).fewer fewer
  allowed := fun member => hands.allowed (fewer _ member)
  holds := hands.holds
  torn := torn ▸ hands.torn
  committed := by
    intro program trial
    have none_ := hands.committed program trial
    exact List.eq_nil_iff_forall_not_mem.mpr fun other member => by simpa [none_] using fewer other member

/-- A task has taken a step, and a program is barred only if it was before. -/
theorem Guarded.stepped (guarded : Guarded bars world) (alive : world.machine.child = .running app) (holds : after.Holds)
    (phase : Phase after.supervisor after.machine) (child : after.machine.child = world.machine.child)
    (tasks : after.tasks = Function.update world.tasks i task)
    (fewer : ∀ program ∈ bars'.barred, program ∈ bars.barred) (marker : MarksBarred bars' after.machine.fs)
    (pending : after.machine.fs entrypointAttemptPath ≠ none → Offered bars' after.machine.fs entrypointAttemptPath)
    (own : Minds bars' task ∨
      bars'.marking = some i ∧ ∃ handing sha rest, HandsOver bars' after.machine task handing sha rest)
    (others : ∀ j, j ≠ i → Minds bars' (world.tasks j) ∨
      bars'.marking = some j ∧ ∃ handing sha rest, HandsOver bars' after.machine (world.tasks j) handing sha rest) :
    Guarded bars' after where
  holds := holds
  phase := phase
  marker := marker
  pending := pending
  taken := by
    intro spawning
    refine absurd spawning (phase.not_spawning ?_)
    rw [child, alive]
    nofun
  trial := by
    rw [child]
    exact fun program trial other member => guarded.trial program trial other (fewer other member)
  tasks := by
    intro j
    rw [tasks]
    by_cases this : j = i
    · subst this
      rw [Function.update_self]
      exact own
    · rw [Function.update_of_ne this]
      exact others j this

/-- The marker and the links that are handed over stay as they are. -/
theorem Guarded.beside (guarded : Guarded bars world) (alive : world.machine.child = .running app) (holds : after.Holds)
    (phase : Phase after.supervisor after.machine) (child : after.machine.child = world.machine.child)
    (tasks : after.tasks = Function.update world.tasks i task)
    (fewer : ∀ program ∈ bars'.barred, program ∈ bars.barred) (torn : bars'.torn = bars.torn)
    (marking : bars'.marking = bars.marking)
    (marker : after.machine.fs updateAttemptFile = world.machine.fs updateAttemptFile)
    (tmp : after.machine.fs tmpSymlink = world.machine.fs tmpSymlink)
    (attempt : after.machine.fs entrypointAttemptPath = world.machine.fs entrypointAttemptPath)
    (own : Minds bars' task) : Guarded bars' after := by
  refine guarded.stepped alive holds phase child tasks fewer ?_ ?_ (.inl own) ?_
  · intro program member
    rw [torn, marker]
    exact guarded.marker program (fewer program member)
  · intro there
    rw [attempt] at there
    obtain ⟨sha, names, whole, free⟩ := (guarded.pending there).kept attempt marker
    exact ⟨sha, names, torn.trans whole, fun member => free (fewer _ member)⟩
  · intro j _
    rcases guarded.tasks j with minds | ⟨marks, handing, sha, rest, hands⟩
    · exact .inl (minds.fewer fewer)
    · exact .inr ⟨marking.trans marks, handing, sha, rest, (hands.kept marker tmp attempt child).fewer fewer torn⟩

/-- No other task is handing a version over. -/
theorem Guarded.alone (guarded : Guarded bars world)
    (alone : ∀ j, bars.marking = some j → j = i ∨ ∃ result, world.tasks j = Program.done result) {j : Nat} (other : j ≠ i) :
    Minds bars (world.tasks j) := by
  rcases guarded.tasks j with minds | ⟨marks, handing, sha, rest, hands⟩
  · exact minds
  · rcases alone j marks with same | ⟨result, done⟩
    · exact absurd same other
    · exact absurd done (hands.busy result)

private theorem stored_long {dir path : Path} (stored : dir ∈ storageDirs) (name : Text) (short : path.length = 3) :
    dir ++ [name] ≠ path := by
  intro same
  have lengths := congrArg List.length same
  rw [List.length_append, storage_length stored, short] at lengths
  cases lengths

private theorem Bars.next_stores (stores : Stores request) : bars.next world (.task i request) after = bars := by
  obtain ⟨created, written⟩ := stores.unmarked
  cases request with
  | create path =>
    have other : path ≠ updateAttemptFile := fun same => created (same ▸ rfl)
    simp only [Bars.next, other, false_and, if_false]
  | writeAll path text =>
    have other : path ≠ updateAttemptFile := fun same => written text (same ▸ rfl)
    simp only [Bars.next, other, ne_eq, not_false_eq_true, if_true]
  | removeFile path =>
    have other : path ≠ updateAttemptFile := by
      cases stores with
      | read reads => cases reads
      | removeFile name stored => exact stored_long stored name (by decide)
    simp only [Bars.next, other, false_and, if_false]
  | rename source target =>
    have other : source ≠ entrypointAttemptingPath := by
      cases stores with
      | read reads => cases reads
      | rename source target stored => exact stored_long stored source (by decide)
    simp only [Bars.next, other, false_and, if_false]
  | _ => rfl

/-- A version that the marker does not name is not barred. -/
theorem Guarded.unnamed (guarded : Guarded bars world) {sha text : Text} (whole : bars.torn = false)
    (read : world.machine.fs updateAttemptFile = some (.file text)) (other : trim text ≠ sha) :
    entrypointOf sha ∉ bars.barred := by
  intro member
  rcases guarded.marker _ member with torn | ⟨text', read', trimmed, same⟩
  · rw [whole] at torn
    cases torn
  · cases read.symm.trans read'
    exact other (trimmed.trans (entrypointOf_inj same))

/-- After a look at the marker a task goes on with versions that are not barred. -/
theorem Guarded.looked {supervisor : Loads Verdict} {tasks : Nat → Loads Unit} {machine after : Machine}
    {next : Except String Text → Loads Unit} {reply : Except String Text} {sha : Text}
    (guarded : Guarded bars ⟨machine, supervisor, tasks⟩)
    (waiting : tasks i = Program.call (Request.readToString updateAttemptFile) next)
    (reads : bars.barred ≠ [] → bars.torn = false ∧ Succeeds ⟨machine, supervisor, tasks⟩ i
      (.readToString updateAttemptFile) ⟨after, supervisor, Function.update tasks i (next reply)⟩)
    (missing : ∀ error, Wary (fun other => entrypointOf other ∉ bars.barred ∨ other = sha) (bars.barred = [])
      (next (.error error)))
    (named : ∀ text, trim text = sha → Minds bars (next (.ok text)))
    (unnamed : ∀ text, trim text ≠ sha → Wary (fun other => entrypointOf other ∉ bars.barred ∨ other = sha)
      (bars.barred = []) (next (.ok text))) : Minds bars (next reply) := by
  have admits {task : Loads Unit} (free : entrypointOf sha ∉ bars.barred)
      (wary : Wary (fun other => entrypointOf other ∉ bars.barred ∨ other = sha) (bars.barred = []) task) :
      Minds bars task := by
    refine Wary.mono wary (fun other allowed => ?_) id
    rcases allowed with allowed | same
    · exact allowed
    · exact same ▸ free
  by_cases none_ : bars.barred = []
  · have free : entrypointOf sha ∉ bars.barred := by rw [none_]; exact List.not_mem_nil
    cases reply with
    | error error => exact admits free (missing error)
    | ok text =>
      by_cases same : trim text = sha
      · exact named text same
      · exact admits free (unnamed text same)
  · obtain ⟨whole, next', text, waiting', ⟨⟨read, _⟩, _⟩, _, updated⟩ := reads none_
    cases waiting.symm.trans waiting'
    have same : Function.update tasks i (next reply) i = Function.update tasks i (next (.ok text)) i := congrFun updated i
    rw [Function.update_self, Function.update_self] at same
    rw [same]
    by_cases here : trim text = sha
    · exact named text here
    · exact admits (guarded.unnamed whole ((guarded.holds.valid.linked.readMarker text).mp read) here) (unnamed text here)

private theorem reads_same {path : Path} {before after : Machine} {reply : Except String Text}
    (served : serves (.readToString path) before reply after) : after = before := by
  obtain ⟨fs, child⟩ := after
  cases reply with
  | error error =>
    obtain ⟨disk, same⟩ := served
    cases disk
    cases same
    rfl
  | ok text =>
    obtain ⟨⟨_, disk⟩, same⟩ := served
    cases disk
    cases same
    rfl

/-- Once the app on trial has committed itself nothing is barred. -/
theorem Guarded.committed (guarded : Guarded bars world) {supervisor : Loads Verdict} {machine : Machine}
    {tasks : Nat → Loads Unit} (alive : world.machine.child = .running app)
    (uses : Updates app (.rename entrypointAttemptingPath entrypointPath))
    (served : serves (.rename entrypointAttemptingPath entrypointPath) world.machine (.ok ()) machine) :
    (bars.next world (.task i (.rename entrypointAttemptingPath entrypointPath)) ⟨machine, supervisor, tasks⟩) =
      { bars with barred := [] } := by
  have valid := guarded.holds.valid
  have child : machine.child = world.machine.child := served.2
  obtain ⟨passed, _⟩ := valid.linked.rename (by decide) (by decide) (by decide) served.1
  have trial : onTrial machine.child = some app.program := by
    rcases uses.decides valid alive served with ⟨same, _⟩ | ⟨_, trial, _⟩
    · exact absurd (same.symm.trans passed.left) passed.there
    · rw [child, alive, onTrial, if_pos trial]
  have only : bars.barred.filter (fun program => onTrial machine.child ≠ some program) = [] := by
    refine List.filter_eq_nil_iff.mpr fun program member => ?_
    have same := guarded.trial app.program (by rw [← child]; exact trial) program member
    simp [trial, same]
  exact (if_pos ⟨rfl, rfl, passed.there, passed.left⟩).trans (by rw [only])

/-- Only writing the marker and a commit take a bar away. -/
theorem Bars.next_barred (written : ∀ path text, request ≠ .writeAll path text)
    (renamed : ∀ source target, request ≠ .rename source target) :
    (bars.next world (.task i request) after).barred = bars.barred := by
  cases request with
  | writeAll path text => exact absurd rfl (written path text)
  | rename source target => exact absurd rfl (renamed source target)
  | create path | removeFile path =>
    unfold Bars.next
    dsimp only
    split <;> rfl
  | _ => rfl

/-- The marker is created, and cut off until it is written. -/
theorem Guarded.marks (guarded : Guarded bars world) (alive : world.machine.child = .running app) (holds : after.Holds)
    (phase : Phase after.supervisor after.machine) (child : after.machine.child = world.machine.child)
    (tasks : after.tasks = Function.update world.tasks i task) (none_ : after.machine.fs entrypointAttemptPath = none)
    (alone : ∀ j, bars.marking = some j → j = i ∨ ∃ result, world.tasks j = Program.done result)
    (own : Minds bars task ∨ ∃ handing sha rest,
      HandsOver { bars with marking := some i, torn := true } after.machine task handing sha rest) :
    Guarded { bars with marking := some i, torn := true } after := by
  refine guarded.stepped alive holds phase child tasks (fun _ => id) (fun _ _ => .inl rfl)
    (fun there => absurd none_ there) ?_ fun j other => .inl (guarded.alone alone other)
  rcases own with minds | hands
  · exact .inl minds
  · exact .inr ⟨rfl, hands⟩

private theorem Bars.next_create : bars.next world (.task i (.create updateAttemptFile)) after = bars ∨
    bars.next world (.task i (.create updateAttemptFile)) after = { bars with marking := some i, torn := true } := by
  unfold Bars.next
  dsimp only
  split
  · exact .inr rfl
  · exact .inl rfl

/-- A task of which the marker's version is known goes on. -/
theorem Guarded.wary {supervisor : Loads Verdict} {tasks : Nat → Loads Unit} {machine after : Machine}
    {next : Except String request.Value → Loads Unit} {reply : Except String request.Value}
    (guarded : Guarded bars ⟨machine, supervisor, tasks⟩) (alive : machine.child = .running app)
    (waiting : tasks i = Program.call request next) (served : serves request machine reply after)
    (holds : World.Holds ⟨after, supervisor, Function.update tasks i (next reply)⟩) (phase : Phase supervisor after)
    (marked : Marked bars ⟨machine, supervisor, tasks⟩ (.task i request) ⟨after, supervisor, Function.update tasks i (next reply)⟩)
    (minds : Minds bars (tasks i)) :
    Guarded (bars.next ⟨machine, supervisor, tasks⟩ (.task i request)
      ⟨after, supervisor, Function.update tasks i (next reply)⟩) ⟨after, supervisor, Function.update tasks i (next reply)⟩ := by
  have linked : Linked machine.fs := guarded.holds.valid.linked
  rw [waiting] at minds
  cases minds with
  | store stores rest =>
    obtain ⟨untouched, child⟩ := stores.keeps linked served
    rw [Bars.next_stores stores]
    exact guarded.beside alive holds phase child rfl (fun _ => id) rfl rfl (stores.beyond linked served marker_beyond)
      (untouched.links _ (by decide)) (untouched.links _ (by decide)) (rest reply)
  | looks sha missing named unnamed =>
    cases reads_same served
    exact guarded.beside alive holds phase rfl rfl (fun _ => id) rfl rfl rfl rfl rfl
      (guarded.looked waiting (marked.reads i rfl) missing named unnamed)
  | @commit _ _ next fails committed =>
    have uses : Updates app (.rename entrypointAttemptingPath entrypointPath) := by
      have uses := guarded.holds.tasks app alive i
      dsimp only at uses
      rw [waiting] at uses
      exact uses.1
    cases reply with
    | error error =>
      obtain ⟨disk, child⟩ := served
      have disk : after.fs = machine.fs := disk
      have same : bars.next ⟨machine, supervisor, tasks⟩ (.task i (.rename entrypointAttemptingPath entrypointPath))
          ⟨after, supervisor, Function.update tasks i (next (.error error))⟩ = bars := by
        refine if_neg ?_
        rintro ⟨_, _, there, gone⟩
        exact there (disk ▸ gone)
      rw [same]
      exact guarded.beside alive holds phase child rfl (fun _ => id) rfl rfl (by rw [disk]) (by rw [disk]) (by rw [disk])
        (fails error)
    | ok value =>
      obtain ⟨passed, _⟩ := linked.rename (by decide) (by decide) (by decide) served.1
      rw [guarded.committed alive uses served]
      refine guarded.beside alive holds phase served.2 rfl (fun _ => nofun) rfl rfl
        (passed.others _ (by decide) (by decide) rfl) (passed.others _ (by decide) (by decide) rfl)
        (passed.others _ (by decide) (by decide) rfl) ?_
      exact Wary.mono committed (fun _ _ => List.not_mem_nil) fun _ => rfl
  | @unmark _ _ next allowed rest =>
    obtain ⟨free, alone⟩ := marked.alone i (.inr rfl)
    have attempt : after.fs entrypointAttemptPath = none := by
      cases reply with
      | error error => rwa [show after.fs = machine.fs from served.1]
      | ok value => rwa [Fs.remove_other served.1.2 (by decide)]
    have child : after.child = machine.child := by
      cases reply with
      | error error => exact served.2
      | ok value => exact served.2
    let bars' := bars.next ⟨machine, supervisor, tasks⟩ (.task i (.removeFile updateAttemptFile))
      ⟨after, supervisor, Function.update tasks i (next reply)⟩
    have same : bars'.barred = bars.barred := Bars.next_barred nofun nofun
    have fewer : ∀ program ∈ bars'.barred, program ∈ bars.barred := fun program member => same ▸ member
    refine guarded.stepped alive holds phase child rfl fewer ?_ (fun there => absurd attempt there)
      (.inl (Minds.fewer (rest reply) fewer)) fun j other => .inl ((guarded.alone alone other).fewer fewer)
    intro program member
    have member : program ∈ bars.barred := fewer program member
    rw [allowed] at member
    cases member
  | @mark _ _ next sha rest allowed fills ends fails =>
    obtain ⟨free, alone⟩ := marked.alone i (.inl rfl)
    have none_ : machine.fs entrypointAttemptPath = none := free
    have plain : ∀ target, machine.fs updateAttemptFile ≠ some (.link target) := linked.updateAttempt_plain
    cases reply with
    | error error =>
      have disk : after.fs = machine.fs := served.1
      have attempt : after.fs entrypointAttemptPath = none := disk ▸ none_
      rcases @Bars.next_create bars ⟨machine, supervisor, tasks⟩ ⟨after, supervisor, Function.update tasks i (next (.error error))⟩ i
        with same | same
      · rw [same]
        exact guarded.beside alive holds phase served.2 rfl (fun _ => id) rfl rfl (by rw [disk]) (by rw [disk])
          (by rw [disk]) (fails error)
      · rw [same]
        exact guarded.marks alive holds phase served.2 rfl attempt alone (.inl (fails error))
    | ok value =>
      have created : after.fs = machine.fs.put updateAttemptFile (.file []) := Fs.create_plain plain served.1
      have empty : after.fs updateAttemptFile = some (.file []) := created ▸ Function.update_self ..
      have attempt : after.fs entrypointAttemptPath = none := by
        rw [created, Fs.put_other _ _ (by decide)]
        exact none_
      have same : bars.next ⟨machine, supervisor, tasks⟩ (.task i (.create updateAttemptFile))
          ⟨after, supervisor, Function.update tasks i (next (.ok value))⟩ = { bars with marking := some i, torn := true } :=
        if_pos ⟨rfl, empty⟩
      rw [same]
      refine guarded.marks alive holds phase served.2 rfl attempt alone (.inr ⟨.fills, sha, rest, ?_⟩)
      refine ⟨fills, ends, allowed, empty, by simp, ?_⟩
      intro program trial
      have before : onTrial machine.child = some program := served.2 ▸ trial
      have apart := marked.commits i program rfl before
      refine List.eq_nil_iff_forall_not_mem.mpr fun other member => ?_
      exact apart (guarded.trial program before other member ▸ member)

/-! ### Handing a version over -/

/-- While one task hands a version over, no other one does. -/
theorem Guarded.others (guarded : Guarded bars world) (marking : bars.marking = some i) {j : Nat} (other : j ≠ i) :
    Minds bars (world.tasks j) := by
  rcases guarded.tasks j with minds | ⟨marks, _⟩
  · exact minds
  · exact absurd (Option.some.inj (marks.symm.trans marking)) other

private theorem Bars.next_handing {handing : Handing} {sha : Text} (other : handing ≠ .fills) :
    bars.next world (.task i (handing.request sha)) after = bars := by
  cases handing with
  | fills => exact absurd rfl other
  | removes =>
    have apart : tmpSymlink ≠ updateAttemptFile := by decide
    simp only [Handing.request, Bars.next, apart, false_and, if_false]
  | renames =>
    have apart : tmpSymlink ≠ entrypointAttemptingPath := by decide
    simp only [Handing.request, Bars.next, apart, false_and, if_false]
  | looks | links | exits => rfl

/-- Once another version is written to the marker nothing is barred. -/
theorem HandsOver.filled {machine : Machine} {sha : Text} {handing : Handing} {rest : Except String Unit → Loads Unit}
    (hands : HandsOver bars machine task handing sha rest) :
    (bars.barred.filter fun program => program = entrypointOf sha ∨ onTrial machine.child = some program) = [] := by
  refine List.filter_eq_nil_iff.mpr fun program member => ?_
  have apart : program ≠ entrypointOf sha := fun same => hands.allowed (same ▸ member)
  have ended : onTrial machine.child ≠ some program := by
    intro trial
    have none_ := hands.committed program trial
    rw [none_] at member
    cases member
  simp [apart, ended]

private theorem Bars.next_written {written sha : Text}
    (marker : after.machine.fs updateAttemptFile = some (.file written))
    (torn : bars.torn = true) :
    bars.next world (.task i (.writeAll updateAttemptFile sha)) after =
      if written = sha then
        ⟨bars.barred.filter fun program => program = entrypointOf sha ∨ onTrial after.machine.child = some program,
          bars.marking, false⟩
      else bars := by
  obtain ⟨barred, marking, cut⟩ := bars
  cases torn
  simp [Bars.next, marker]

/-- The task writes the version to the marker. -/
theorem Guarded.fills {supervisor : Loads Verdict} {tasks : Nat → Loads Unit} {machine after : Machine} {sha : Text}
    {rest : Except String Unit → Loads Unit} {reply : Except String Unit}
    (guarded : Guarded bars ⟨machine, supervisor, tasks⟩) (alive : machine.child = .running app)
    (marking : bars.marking = some i) (hands : HandsOver bars machine (tasks i) .fills sha rest)
    (served : serves (.writeAll updateAttemptFile sha) machine reply after) (trimmed : trim sha = sha)
    (next : Loads Unit) (follows : next = Program.bind (Handing.fills.next sha reply) rest)
    (holds : World.Holds ⟨after, supervisor, Function.update tasks i next⟩) (phase : Phase supervisor after) :
    Guarded (bars.next ⟨machine, supervisor, tasks⟩ (.task i (.writeAll updateAttemptFile sha))
      ⟨after, supervisor, Function.update tasks i next⟩) ⟨after, supervisor, Function.update tasks i next⟩ := by
  have linked : Linked machine.fs := guarded.holds.valid.linked
  have plain : ∀ target, machine.fs updateAttemptFile ≠ some (.link target) := linked.updateAttempt_plain
  have torn : bars.torn = true := hands.torn.mpr rfl
  have none_ : machine.fs entrypointAttemptPath = none := by
    by_contra there
    obtain ⟨_, _, whole, _⟩ := guarded.pending there
    rw [torn] at whole
    cases whole
  obtain ⟨written, disk, child, full⟩ : ∃ written, after.fs = machine.fs.append updateAttemptFile written ∧
      after.child = machine.child ∧ ((∃ value, reply = .ok value) → written = sha) := by
    cases reply with
    | ok value => exact ⟨sha, served.1, served.2, fun _ => rfl⟩
    | error error =>
      obtain ⟨written, _, disk⟩ := served.1
      exact ⟨written, disk, served.2, nofun⟩
  have marker : after.fs updateAttemptFile = some (.file written) := by
    have empty : machine.fs updateAttemptFile = some (.file []) := hands.holds
    rw [disk, Fs.append_plain plain, empty]
    exact Function.update_self ..
  have attempt : after.fs entrypointAttemptPath = none := by
    rw [disk, Fs.append_other plain _ (by decide)]
    exact none_
  have ended (error : String) (same : reply = .error error) : Minds bars next := by
    rw [follows, same]
    exact hands.ends error
  rw [Bars.next_written marker torn]
  by_cases whole : written = sha
  · have filled := hands.filled
    rw [← child] at filled
    rw [if_pos whole]
    dsimp only
    rw [filled]
    refine guarded.stepped alive holds phase child rfl (fun _ => nofun) (fun _ => nofun)
      (fun there => absurd attempt there) ?_ fun j other => .inl ((guarded.others marking other).fewer fun _ => nofun)
    cases reply with
    | error error => exact .inl ((ended error rfl).fewer fun _ => nofun)
    | ok value =>
      refine .inr ⟨marking, .looks, sha, rest, follows, ?_, List.not_mem_nil, ⟨whole ▸ marker, trimmed⟩, by simp, ?_⟩
      · exact fun error => (hands.ends error).fewer fun _ => nofun
      · exact fun _ _ => rfl
  · rw [if_neg whole]
    refine guarded.stepped alive holds phase child rfl (fun _ => id) (fun _ _ => .inl torn)
      (fun there => absurd attempt there) ?_ fun j other => .inl (guarded.others marking other)
    cases reply with
    | error error => exact .inl (ended error rfl)
    | ok value => exact absurd (full ⟨value, rfl⟩) whole

private theorem Handing.fails_same {handing : Handing} {sha : Text} {before after : Machine} {error : String}
    (other : handing ≠ .fills) (served : serves (handing.request sha) before (.error error) after) : after = before := by
  obtain ⟨fs, child⟩ := after
  obtain ⟨failed, same⟩ := served
  have disk : fs = before.fs := by
    refine Request.fails_nothing failed ?_
    cases handing with
    | fills => exact absurd rfl other
    | _ => exact fun _ _ => nofun
  cases disk
  cases same
  rfl

/-- Once the marker is written only the links change. -/
theorem Handing.Does.beside {sha : Text} {handing next : Handing} {before after : Fs} (linked : Linked before)
    (does : Handing.Does sha handing before next after) (other : handing ≠ .fills) :
    next ≠ .fills ∧ after updateAttemptFile = before updateAttemptFile ∧
      (after entrypointAttemptPath = before entrypointAttemptPath ∨ handing = .renames ∧ next = .exits) := by
  cases does with
  | fills => exact absurd rfl other
  | finds | findsNone => exact ⟨nofun, rfl, .inl rfl⟩
  | removes removed =>
    exact ⟨nofun, Fs.remove_other removed (by decide), .inl (Fs.remove_other removed (by decide))⟩
  | links made =>
    obtain ⟨_, rfl, _⟩ := linked.symlink (by decide) made
    exact ⟨nofun, Fs.put_other _ _ (by decide), .inl (Fs.put_other _ _ (by decide))⟩
  | renames renamed =>
    obtain ⟨passed, _⟩ := linked.rename (by decide) (by decide) (by decide) renamed
    exact ⟨nofun, passed.others _ (by decide) (by decide) rfl, .inr ⟨rfl, rfl⟩⟩

/-- The task goes on to hand over the version that the marker names. -/
theorem Guarded.links {supervisor : Loads Verdict} {tasks : Nat → Loads Unit} {machine after : Machine} {sha : Text}
    {handing : Handing} {rest : Except String Unit → Loads Unit} {reply : Except String (handing.request sha).Value}
    (guarded : Guarded bars ⟨machine, supervisor, tasks⟩) (alive : machine.child = .running app)
    (marking : bars.marking = some i) (hands : HandsOver bars machine (tasks i) handing sha rest)
    (other : handing ≠ .fills) (served : serves (handing.request sha) machine reply after) (next : Loads Unit)
    (follows : next = Program.bind (handing.next sha reply) rest)
    (holds : World.Holds ⟨after, supervisor, Function.update tasks i next⟩) (phase : Phase supervisor after) :
    Guarded bars ⟨after, supervisor, Function.update tasks i next⟩ := by
  have linked : Linked machine.fs := guarded.holds.valid.linked
  have whole : bars.torn = false := by
    cases torn : bars.torn with
    | false => rfl
    | true => exact absurd (hands.torn.mp torn) other
  have kept {handing' : Handing} (later : handing' ≠ .fills) (here : next = Program.bind (handing'.program sha) rest)
      (child : after.child = machine.child) (names : handing'.Holds sha after.fs) :
      HandsOver bars after next handing' sha rest := by
    refine ⟨here, hands.ends, hands.allowed, names, ?_, child ▸ hands.committed⟩
    simp [whole, later]
  cases reply with
  | error error =>
    cases Handing.fails_same other served
    refine guarded.stepped alive holds phase rfl rfl (fun _ => id) guarded.marker guarded.pending ?_ fun j different =>
      .inl (guarded.others marking different)
    cases handing with
    | looks => exact .inr ⟨marking, .links, sha, rest, kept nofun follows rfl hands.holds⟩
    | fills => exact absurd rfl other
    | _ => exact .inl (follows ▸ hands.ends error)
  | ok value =>
    obtain ⟨does, child⟩ := handing.does sha served
    obtain ⟨later, marker, attempt⟩ := does.beside linked other
    have names : (handing.succeed sha value).Holds sha after.fs :=
      does.holds linked (fun same => absurd same other) hands.holds
    refine guarded.stepped alive holds phase child rfl (fun _ => id) ?_ ?_
      (.inr ⟨marking, handing.succeed sha value, sha, rest, kept later follows child names⟩) fun j different =>
        .inl (guarded.others marking different)
    · intro program member
      rw [marker]
      exact guarded.marker program member
    · intro there
      rcases attempt with same | ⟨_, exits⟩
      · rw [same] at there
        exact (guarded.pending there).kept same marker
      · rw [exits] at names
        exact ⟨sha, names, whole, hands.allowed⟩

theorem Guarded.asked (guarded : Guarded bars world) (step : Step formats world (.task i request) after)
    (marked : Marked bars world (.task i request) after) : Guarded (bars.next world (.task i request) after) after := by
  have holds := guarded.holds.step step
  have phase := guarded.phase.step guarded.holds step
  cases step with
  | @task machine after supervisor tasks app request next _ reply alive waiting served =>
  rcases guarded.tasks i with minds | ⟨marking, handing, sha, rest, hands⟩
  · exact guarded.wary alive waiting served holds phase marked minds
  · have here := hands.here
    dsimp only at here
    rw [handing.program_bind, waiting] at here
    cases here
    by_cases first : handing = .fills
    · subst first
      exact guarded.fills alive marking hands served (marked.trimmed i sha rfl) _ rfl holds phase
    · rw [Bars.next_handing first]
      exact guarded.links alive marking hands first served _ rfl holds phase

theorem Guarded.started {tasks : Nat → Loads Unit} {machine : Machine} {supervisor : Loads Verdict}
    (guarded : Guarded bars ⟨machine, supervisor, tasks⟩) (alive : machine.child = .running app) (starts : Starts formats app task)
    (holds : World.Holds ⟨machine, supervisor, Function.update tasks i task⟩) :
    Guarded (bars.next ⟨machine, supervisor, tasks⟩ (.start i) ⟨machine, supervisor, Function.update tasks i task⟩)
      ⟨machine, supervisor, Function.update tasks i task⟩ := by
  have phase : Phase supervisor machine := guarded.phase
  by_cases marking : bars.marking = some i
  · have same : bars.next ⟨machine, supervisor, tasks⟩ (.start i) ⟨machine, supervisor, Function.update tasks i task⟩ =
        { bars with marking := none } := if_pos marking
    rw [same]
    exact guarded.stepped alive holds phase rfl rfl (fun _ => id) guarded.marker guarded.pending (.inl starts.wary)
      fun j other => .inl (guarded.others marking other)
  · have same : bars.next ⟨machine, supervisor, tasks⟩ (.start i) ⟨machine, supervisor, Function.update tasks i task⟩ =
        bars := if_neg marking
    rw [same]
    exact guarded.stepped alive holds phase rfl rfl (fun _ => id) guarded.marker guarded.pending (.inl starts.wary)
      fun j _ => guarded.tasks j

theorem Guarded.supervised (guarded : Guarded bars world) (step : Step formats world (.supervisor request) after) :
    Guarded (bars.next world (.supervisor request) after) after := by
  by_cases quiet : world.machine.child = .none
  · exact (guarded.unwatched step quiet).1
  · exact guarded.watched step quiet

theorem Guarded.step {event : Event} (guarded : Guarded bars world) (step : Step formats world event after)
    (marked : Marked bars world event after) : Guarded (bars.next world event after) after := by
  have holds := guarded.holds.step step
  have phase := guarded.phase.step guarded.holds step
  have whole := step
  cases step with
  | supervisor => exact guarded.supervised whole
  | task => exact guarded.asked whole marked
  | start i alive _ starts => exact guarded.started alive starts holds
  | round =>
    refine ⟨holds, phase, guarded.marker, guarded.pending, ?_, guarded.trial, guarded.tasks⟩
    intro spawning
    exact absurd (@Round.program_inj .looks .spawnsTrial spawning) nofun
  | exit code alive =>
    refine guarded.still holds phase rfl rfl rfl rfl (guarded.phase.not_spawning ?_)
    rw [alive]
    nofun
  | arrives arrived => exact guarded.lands arrived.lands holds
  | restart => exact guarded.still holds phase rfl rfl rfl rfl (Prepares.not_spawning startSupervisor_prepares)

theorem Guarded.run {disk : Fs} (fresh : Fresh disk) (run : Recalls formats Marked (.initial formats disk) bars world) :
    Guarded bars world := by
  induction run with
  | start => exact .initial fresh
  | step _ permitted step before => exact before.step step permitted

/-- No retry loop: in a run in which the marker keeps what it is there for, a version
is not spawned on trial after a trial of it has ended without a commit, until another
version has been written to the marker. -/
theorem failed_not_retried {disk : Fs} (fresh : Fresh disk)
    (run : Recalls formats Marked (.initial formats disk) bars world) {path : Path}
    (step : Step formats world (.supervisor (.spawn path true)) after) (running : after.machine.child = .running app) :
    app.program ∉ bars.barred := by
  have guarded := Guarded.run fresh run
  by_cases quiet : world.machine.child = .none
  · exact (guarded.unwatched step quiet).2 path app rfl running
  · obtain ⟨round, busy, asked, _⟩ := guarded.phase.watching guarded.holds.valid.linked step quiet
    rw [Round.request_spawn asked.symm] at busy
    cases busy

end

/-! ### Runs given by answers -/

/-- The calls that change what a run remembers, or that it must make with care. -/
def Request.barring : Request → Bool
  | .create path | .readToString path | .writeAll path _ | .removeFile path => path = updateAttemptFile
  | .rename source target => source = entrypointAttemptingPath ∧ target = entrypointPath
  | .spawn _ trial => trial
  | _ => false

section
variable {formats : Formats} {allowed : Bars → World → Event → World → Prop} {start before after : World} {bars : Bars}
  {machine machine' : Machine} {supervisor : Loads Verdict} {task : Loads Unit} {app : Process} {event : Event}

private theorem Event.Passes.unbarred (passes : event.Passes Request.barring) :
    bars.next before event after = bars := by
  cases event with
  | task i request =>
    have passes : request.barring = false := passes
    cases request with
    | create path | writeAll path text | removeFile path =>
      have other : path ≠ updateAttemptFile := of_decide_eq_false passes
      simp [Bars.next, other]
    | rename source target =>
      have other : ¬ (source = entrypointAttemptingPath ∧ target = entrypointPath) := of_decide_eq_false passes
      refine if_neg ?_
      intro both
      exact other ⟨both.1, both.2.1⟩
    | _ => rfl
  | supervisor request =>
    refine Bars.next_supervisor (.inl ?_)
    intro path same
    subst same
    cases passes
  | _ => cases passes

theorem Event.Passes.marked (passes : event.Passes Request.barring) : Marked bars before event after := by
  refine ⟨?_, ?_, ?_, ?_⟩
  · intro i same
    subst same
    cases passes
  · intro i same
    rcases same with same | same
    · subst same
      cases passes
    · subst same
      cases passes
  · intro i program same
    subst same
    cases passes
  · intro i text same
    subst same
    cases passes

/-- An app that is not on trial may create the marker while nothing is pending. -/
theorem Marked.creates (none_ : before.machine.fs entrypointAttemptPath = none) (marking : bars.marking = none ∨ bars.marking = some 0)
    (trial : onTrial before.machine.child = none) : Marked bars before (.task 0 (.create updateAttemptFile)) after := by
  refine ⟨nofun, ?_, ?_, nofun⟩
  · intro i same
    rcases same with same | same
    · cases same
      refine ⟨none_, fun j marks => .inl ?_⟩
      rcases marking with free | own
      · cases free.symm.trans marks
      · exact (Option.some.inj (own.symm.trans marks)).symm
    · cases same
  · intro i program same on
    rw [trial] at on
    cases on

theorem Marked.writes {text : Text} (trimmed : trim text = text) :
    Marked bars before (.task 0 (.writeAll updateAttemptFile text)) after := by
  refine ⟨nofun, ?_, nofun, ?_⟩
  · intro i same
    rcases same with same | same <;> cases same
  · intro i other same
    cases same
    exact trimmed

theorem Marked.looks (reads : bars.barred ≠ [] →
    bars.torn = false ∧ Succeeds before 0 (.readToString updateAttemptFile) after) :
    Marked bars before (.task 0 (.readToString updateAttemptFile)) after := by
  refine ⟨?_, ?_, nofun, nofun⟩
  · intro i same
    cases same
    exact reads
  · intro i same
    rcases same with same | same <;> cases same

/-- An app does what it does in its tasks. -/
def Event.ofTask : Event → Bool
  | .task _ _ => true
  | _ => false

theorem Marked.other (other : event.ofTask = false) : Marked bars before event after := by
  have apart (i : Nat) (request : Request) : event ≠ .task i request := by
    intro same
    subst same
    cases other
  exact ⟨fun i same => absurd same (apart i _), fun i same => (same.elim (apart i _) (apart i _)).elim,
    fun i _ same => absurd same (apart i _), fun i _ same => absurd same (apart i _)⟩

theorem Recalls.carried (free : ∀ before event after, Event.Passes Request.barring event → allowed bars before event after) :
    Carried formats Request.barring (Recalls formats allowed start bars) := by
  intro before event after run passes step
  have stepped := run.step (free _ _ _ passes) step
  rwa [passes.unbarred] at stepped

/-- The only task of an app is given one answer. -/
theorem Recalls.answered (outside : Outside) {request : Request} {next : Except String request.Value → Loads Unit}
    {reply : Except String request.Value}
    (run : Recalls formats allowed start bars ⟨machine, supervisor, Function.update idle 0 task⟩)
    (running : machine.child = .running app) (waiting : task = Program.call request next)
    (answer : machine.answer outside request = some (reply, machine'))
    (permitted : allowed bars ⟨machine, supervisor, Function.update idle 0 task⟩ (.task 0 request)
      ⟨machine', supervisor, Function.update idle 0 (next reply)⟩) :
    Recalls formats allowed start
      (bars.next ⟨machine, supervisor, Function.update idle 0 task⟩ (.task 0 request)
        ⟨machine', supervisor, Function.update idle 0 (next reply)⟩)
      ⟨machine', supervisor, Function.update idle 0 (next reply)⟩ := by
  have step : Step formats ⟨machine, supervisor, Function.update idle 0 task⟩ (.task 0 request) _ :=
    .task 0 reply running ((Function.update_self 0 task idle).trans waiting) (Machine.answer_serves answer)
  rw [Function.update_idem] at step
  exact run.step permitted step

theorem Recalls.supervised (round : Round) {reply : Except String round.request.Value}
    (run : Recalls formats allowed start bars ⟨machine, round.program, idle⟩)
    (served : serves round.request machine reply machine')
    (permitted : allowed bars ⟨machine, round.program, idle⟩ (.supervisor round.request) ⟨machine', round.next reply, idle⟩) :
    Recalls formats allowed start
      (bars.next ⟨machine, round.program, idle⟩ (.supervisor round.request) ⟨machine', round.next reply, idle⟩)
      ⟨machine', round.next reply, idle⟩ := by
  have step : Step formats ⟨machine, round.program, idle⟩ (.supervisor round.request) _ :=
    Round.step round reply served
  rw [tasksOf_idle] at step
  exact run.step permitted step

theorem Recalls.reaps {code : Option Int} {round : Round} (waiting : round = .watches ∨ round = .waits)
    (run : Recalls formats allowed start bars ⟨machine, round.program, idle⟩) (gone : machine.child = .exited code)
    (permitted : ∀ before request after, allowed bars before (.supervisor request) after) :
    Recalls formats allowed start bars ⟨{ machine with child := .none }, Program.done (.ok (afterExit code)), idle⟩ := by
  rcases waiting with rfl | rfl
  · have served : serves .waitTimeout machine (.ok (some code)) { machine with child := .none } := ⟨rfl, gone, rfl⟩
    exact run.supervised .watches served (permitted _ _ _)
  · have served : serves .wait machine (.ok code) { machine with child := .none } := ⟨rfl, gone, rfl⟩
    exact run.supervised .waits served (permitted _ _ _)

end

section
variable {formats : Formats} {allowed : Bars → World → Event → World → Prop} {start : World} {bars : Bars}
  {machine machine' : Machine}

private theorem spawnsTrial_step (outside : Outside) {reply : Except String Unit}
    (answer : machine.answer outside (.spawn entrypointAttemptingPath true) = some (reply, machine')) :
    Step formats ⟨machine, Round.spawnsTrial.program, idle⟩ (.supervisor (.spawn entrypointAttemptingPath true))
      ⟨machine', Round.spawnsTrial.next reply, idle⟩ := by
  have step : Step formats ⟨machine, Round.spawnsTrial.program, idle⟩ (.supervisor Round.spawnsTrial.request) _ :=
    Round.step .spawnsTrial reply (Machine.answer_serves answer)
  rwa [tasksOf_idle] at step

end

private theorem thirdTrimmed : trim "v3".toList = "v3".toList := by decide

/-- The second version is handed over and exits uncommitted. Then the registry offers
a third one, which is tried. -/
theorem failed_not_retried_third : ∃ (bars : Bars) (world after : World) (app : Process),
    Recalls oneLayer Marked (.initial oneLayer volume) bars world ∧
      Step oneLayer world (.supervisor (.spawn entrypointAttemptingPath true)) after ∧
      after.machine.child = .running app ∧ app.program ∉ bars.barred := by
  have goes {bars : Bars} : Carried oneLayer Request.barring (Recalls oneLayer Marked (.initial oneLayer volume) bars) :=
    Recalls.carried fun _ _ _ => Event.Passes.marked
  have others {bars : Bars} (before : World) (request : Request) (after : World) :
      Marked bars before (.supervisor request) after := .other rfl
  have looping := (goes.supervise (registry "v1".toList) .start).step (.other rfl) .round
  have running := goes.supervise (registry "v1".toList) looping
  have started := running.step (.other rfl) (.start 0 rfl rfl .markReady)
  have reading := goes.asks (registry "v2".toList) started rfl
  have unmarked := reading.answered (registry "v2".toList) rfl rfl rfl (.looks fun some => absurd rfl some)
  have creating := goes.asks (registry "v2".toList) unmarked rfl
  have filling := creating.answered (registry "v2".toList) rfl rfl rfl (.creates rfl (.inl rfl) rfl)
  have looking := filling.answered (registry "v2".toList) rfl rfl rfl (.writes secondTrimmed)
  have exiting := goes.asks (registry "v2".toList) looking rfl
  have exited := exiting.step (.other rfl) (.exit (some restartExitCode) rfl)
  have again := (exited.reaps (.inr rfl) rfl others).step (.other rfl) .round
  have pending := goes.supervise (registry "v2".toList) again
  have tried := pending.step (.other rfl) (spawnsTrial_step (registry "v2".toList) rfl)
  have failed := tried.step (.other rfl) (.exit (some 42) rfl)
  have back := goes.supervise (registry "v2".toList) ((failed.reaps (.inl rfl) rfl others).step (.other rfl) .round)
  have started' := back.step (.other rfl) (.start 0 rfl rfl (.updateRound "app".toList))
  have reading' := goes.asks (registry "v3".toList) started' rfl
  have barred := reading'.answered (registry "v3".toList) rfl rfl rfl
    (.looks fun _ => ⟨rfl, .answered (registry "v3".toList) rfl rfl⟩)
  have creating' := goes.asks (registry "v3".toList) barred rfl
  have filling' := creating'.answered (registry "v3".toList) rfl rfl rfl
    (.creates rfl (.inl rfl) rfl)
  have looking' := filling'.answered (registry "v3".toList) rfl rfl rfl (.writes thirdTrimmed)
  have exiting' := goes.asks (registry "v3".toList) looking' rfl
  have exited' := exiting'.step (.other rfl) (.exit (some restartExitCode) rfl)
  have again' := (exited'.reaps (.inr rfl) rfl others).step (.other rfl) .round
  have pending' := goes.supervise (registry "v3".toList) again'
  refine ⟨_, _, _, _, pending', spawnsTrial_step (registry "v3".toList) rfl, rfl, ?_⟩
  exact failed_not_retried volume_fresh pending' (spawnsTrial_step (registry "v3".toList) rfl) rfl

/-- The second version exits uncommitted. The third one's marker is created, and the
container killed before it is written. The second version is tried again. -/
theorem failed_retried : ∃ (bars : Bars) (world after : World) (app : Process),
    Recalls oneLayer (fun _ _ _ _ => True) (.initial oneLayer volume) bars world ∧
      Step oneLayer world (.supervisor (.spawn entrypointAttemptingPath true)) after ∧
      after.machine.child = .running app ∧ app.program ∈ bars.barred := by
  have goes {bars : Bars} : Carried oneLayer Request.barring
      (Recalls oneLayer (fun _ _ _ _ => True) (.initial oneLayer volume) bars) := Recalls.carried fun _ _ _ _ => trivial
  have others (before : World) (request : Request) (after : World) : True := trivial
  have looping := (goes.supervise (registry "v1".toList) .start).step trivial .round
  have running := goes.supervise (registry "v1".toList) looping
  have started := running.step trivial (.start 0 rfl rfl .markReady)
  have reading := goes.asks (registry "v2".toList) started rfl
  have unmarked := reading.answered (registry "v2".toList) rfl rfl rfl trivial
  have creating := goes.asks (registry "v2".toList) unmarked rfl
  have filling := creating.answered (registry "v2".toList) rfl rfl rfl trivial
  have looking := filling.answered (registry "v2".toList) rfl rfl rfl trivial
  have exiting := goes.asks (registry "v2".toList) looking rfl
  have exited := exiting.step trivial (.exit (some restartExitCode) rfl)
  have again := (exited.reaps (.inr rfl) rfl others).step trivial .round
  have pending := goes.supervise (registry "v2".toList) again
  have tried := pending.step trivial (spawnsTrial_step (registry "v2".toList) rfl)
  have failed := tried.step trivial (.exit (some 42) rfl)
  have back := goes.supervise (registry "v2".toList) ((failed.reaps (.inl rfl) rfl others).step trivial .round)
  have started' := back.step trivial (.start 0 rfl rfl (.updateRound "app".toList))
  have reading' := goes.asks (registry "v3".toList) started' rfl
  have barred := reading'.answered (registry "v3".toList) rfl rfl rfl trivial
  have creating' := goes.asks (registry "v3".toList) barred rfl
  have cut := creating'.answered (registry "v3".toList) rfl rfl rfl trivial
  -- the marker is empty now, and stays so
  have killed := cut.step trivial .restart
  have looping' := (goes.supervise (registry "v2".toList) killed).step trivial .round
  have running' := goes.supervise (registry "v2".toList) looping'
  have started'' := running'.step trivial (.start 0 rfl rfl (.updateRound "app".toList))
  have reading'' := goes.asks (registry "v2".toList) started'' rfl
  have empty := reading''.answered (registry "v2".toList) rfl rfl rfl trivial
  have creating'' := goes.asks (registry "v2".toList) empty rfl
  have filling'' := creating''.answered (registry "v2".toList) rfl rfl rfl trivial
  have looking'' := filling''.answered (registry "v2".toList) rfl rfl rfl trivial
  have exiting'' := goes.asks (registry "v2".toList) looking'' rfl
  have exited'' := exiting''.step trivial (.exit (some restartExitCode) rfl)
  have again'' := (exited''.reaps (.inr rfl) rfl others).step trivial .round
  have pending'' := goes.supervise (registry "v2".toList) again''
  exact ⟨_, _, _, _, pending'', spawnsTrial_step (registry "v2".toList) rfl, rfl, .head _⟩

end Pos2.Loader
