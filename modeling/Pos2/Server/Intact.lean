import Pos2.Server.Installs

/-! As long as a wasm file is created only where no row names it and no other call is
at work on it, and a row is stored only once the file is whole, every installed app stays
whole, and a call that fails changes nothing that is installed. -/

namespace Pos2.Server
namespace Installs
variable {ι : Type}

/-- The path and the layer of the version that a call is to install. -/
def Resolves (registry : Registry) (name version path : Text) (layer : Blob) : Prop :=
  ∃ image, registry name version = some image ∧ image.layers = [layer] ∧ path = wasmPath image.checksum

/-- What has come of the first `written` bytes of a layer. -/
def Arriving (files : Text → Option Blob) (path : Text) (layer : Blob) (written : Nat) : Behind → Prop
  | .settled => files path = some (layer.take written)
  | .coming file offset bytes => file = path ∧ offset + bytes.length = written ∧
    bytes = (layer.drop offset).take bytes.length ∧ files path = some (layer.take offset)
  | .lost => True

/-- What a call has found and written so far. -/
def StageSound (registry : Registry) (files : Text → Option Blob) (behind : Behind) (job : Job) : Stage → Prop
  | .started | .done => behind = .settled
  | .pulled image => behind = .settled ∧ registry job.name job.version = some image
  | .opening path layer => behind = .settled ∧ Resolves registry job.name job.version path layer
  | .downloading path layer written =>
    Resolves registry job.name job.version path layer ∧ written ≤ layer.length ∧
      Arriving files path layer written behind
  | .downloaded path | .recording path =>
    ∃ layer, Resolves registry job.name job.version path layer ∧ Arriving files path layer layer.length behind
  | .failed => True

structure Sound (registry : Registry) (state : Installs ι) : Prop where
  rows : ∀ row ∈ state.rows, ∃ layer, Resolves registry row.name row.version row.path layer ∧
    state.files row.path = some layer
  tasks : ∀ i job stage, state.tasks i = some (job, stage) →
    StageSound registry state.files (state.behind i) job stage
  idle : ∀ i, state.tasks i = none → state.behind i = .settled
  free : ∀ i path, state.Holds i path → state.Free i path

variable {registry : Registry} {state : Installs ι} {files : Text → Option Blob} {behind : Behind} {i : ι} {job : Job}
  {stage : Stage} {path : Text} {offset : Nat} {bytes : Blob}

theorem Sound.intact (sound : Sound registry state) : state.Intact registry := by
  intro row member
  obtain ⟨layer, ⟨image, found, layers, _⟩, whole⟩ := sound.rows row member
  exact ⟨image, layer, found, layers, whole⟩

theorem initial_sound : Sound registry (initial files : Installs ι) where
  rows := nofun
  tasks := fun _ _ _ => nofun
  idle := fun _ _ => rfl
  free := by
    rintro i path (⟨_, _, here, _⟩ | file)
    · cases here
    · cases file

theorem Arriving.frame {layer : Blob} {written : Nat} (arriving : Arriving state.files path layer written behind)
    (same : files path = state.files path) : Arriving files path layer written behind := by
  cases behind with
  | settled => exact same.trans arriving
  | coming file offset bytes => exact ⟨arriving.1, arriving.2.1, arriving.2.2.1, same.trans arriving.2.2.2⟩
  | lost => trivial

theorem StageSound.frame (sound : StageSound registry state.files behind job stage)
    (same : ∀ path, stage.file = some path → files path = state.files path) :
    StageSound registry files behind job stage := by
  cases stage with
  | downloading path layer written => exact ⟨sound.1, sound.2.1, sound.2.2.frame (same path rfl)⟩
  | downloaded path | recording path =>
    obtain ⟨layer, resolves, arriving⟩ := sound
    exact ⟨layer, resolves, arriving.frame (same path rfl)⟩
  | _ => exact sound

/-- Bytes that are on their way are those of a download, or of a call that failed. -/
theorem StageSound.arrive {after : Text → Option Blob} (sound : StageSound registry files (.coming path offset bytes) job stage)
    (arrives : ∀ path' layer written, written ≤ layer.length →
      Arriving files path' layer written (.coming path offset bytes) → Arriving after path' layer written behind) :
    StageSound registry after behind job stage := by
  cases stage with
  | downloading path' layer written => exact ⟨sound.1, sound.2.1, arrives _ _ _ sound.2.1 sound.2.2⟩
  | downloaded path' | recording path' =>
    obtain ⟨layer, resolves, arriving⟩ := sound
    exact ⟨layer, resolves, arrives _ _ _ (Nat.le_refl _) arriving⟩
  | failed => trivial
  | started => cases sound
  | done => cases sound
  | pulled image => cases sound.1
  | opening path' layer => cases sound.1

/-- A write goes on where the last one has ended. -/
theorem written_on {layer : Blob} {written n : Nat} (left : written + n ≤ layer.length) :
    (Edits.Edit.write written ((layer.drop written).take n)).apply 0 (layer.take written) =
      layer.take (written + n) := by
  have start : (layer.take written).length = written := List.length_take_of_le (by omega)
  have chunk : ((layer.drop written).take n).length = n :=
    List.length_take_of_le (by rw [List.length_drop]; omega)
  have cut : ∀ blanks : Blob, (layer.take written ++ blanks).take written = layer.take written := fun blanks =>
    List.take_left' start
  have rest : (layer.take written ++ List.replicate n 0).drop (written + n) = [] :=
    List.drop_eq_nil_of_le (by rw [List.length_append, List.length_replicate]; omega)
  rw [Edits.Edit.apply, chunk, start, Nat.add_sub_cancel_left, cut, rest, List.append_nil, List.take_add]

theorem Arriving.lands {path' : Text} {layer : Blob} {written n : Nat} (part : n ≤ bytes.length)
    (short : written ≤ layer.length) (arriving : Arriving files path' layer written (.coming path offset bytes)) :
    Arriving (Function.update files path ((files path).map ((Edits.Edit.write offset (bytes.take n)).apply 0))) path'
      layer written (.coming path (offset + n) (bytes.drop n)) := by
  obtain ⟨rfl, count, chunk, so_far⟩ := arriving
  have first : bytes.take n = (layer.drop offset).take n := by
    rw [chunk, List.take_take, Nat.min_eq_left part]
  refine ⟨rfl, ?_, ?_, ?_⟩
  · rw [List.length_drop]
    omega
  · conv_lhs => rw [chunk]
    rw [List.drop_take, List.drop_drop, List.length_drop]
  · rw [Function.update_self, so_far, Option.map_some, first, written_on (by omega)]

variable [DecidableEq ι]

private theorem put_tasks (state : Installs ι) (i : ι) (job : Job) (stage : Stage) :
    (state.put i job stage).tasks i = some (job, stage) :=
  Function.update_self ..

private theorem setBehind_behind (state : Installs ι) (i : ι) (behind : Behind) :
    (state.setBehind i behind).behind i = behind :=
  Function.update_self ..

private theorem put_alone (state : Installs ι) (i : ι) (job : Job) (stage : Stage) (j : ι) (other : j ≠ i) :
    (state.put i job stage).tasks j = state.tasks j ∧ (state.put i job stage).behind j = state.behind j :=
  ⟨Function.update_of_ne other .., rfl⟩

omit [DecidableEq ι] in
/-- A call goes on, and changes no file but those that it then holds, which are free. -/
theorem Sound.move {after : Installs ι} (sound : Sound registry state) (rows : after.rows = state.rows)
    (alone : ∀ j, j ≠ i → after.tasks j = state.tasks j ∧ after.behind j = state.behind j)
    (here : after.tasks i = some (job, stage))
    (others : ∀ path, ¬ after.Holds i path → after.files path = state.files path)
    (free : ∀ path, after.Holds i path → state.Free i path)
    (valid : StageSound registry after.files (after.behind i) job stage) : Sound registry after := by
  have holds : ∀ j path, j ≠ i → (after.Holds j path ↔ state.Holds j path) := by
    intro j path other
    simp only [Holds, (alone j other).1, (alone j other).2]
  refine ⟨?_, ?_, ?_, ?_⟩
  · intro row member
    rw [rows] at member
    obtain ⟨layer, resolves, whole⟩ := sound.rows row member
    refine ⟨layer, resolves, (others row.path ?_).trans whole⟩
    intro own
    exact (free row.path own).1 row member rfl
  · intro j job' stage' there
    by_cases own : j = i
    · subst own
      rw [here] at there
      cases there
      exact valid
    · rw [(alone j own).1] at there
      rw [(alone j own).2]
      refine (sound.tasks j job' stage' there).frame fun path file => others path fun mine => own ?_
      exact (free path mine).2 j (.inl ⟨job', stage', there, file⟩)
  · intro j none_
    by_cases own : j = i
    · rw [own, here] at none_
      cases none_
    · rw [(alone j own).1] at none_
      rw [(alone j own).2, sound.idle j none_]
  · intro j path held
    by_cases own : j = i
    · subst own
      refine ⟨rows ▸ (free path held).1, ?_⟩
      intro k another
      by_contra other
      exact other ((free path held).2 k ((holds k path other).mp another))
    · have held := (holds j path own).mp held
      refine ⟨rows ▸ (sound.free j path held).1, ?_⟩
      intro k another
      by_cases mine : k = i
      · subst mine
        exact (own ((free path another).2 j held)).elim
      · exact (sound.free j path held).2 k ((holds k path mine).mp another)

/-- A call goes on without a change to a file. -/
theorem Sound.put (sound : Sound registry state) {before : Stage} (here : state.tasks i = some (job, before))
    (file : stage.file = none ∨ stage.file = before.file)
    (valid : StageSound registry state.files (state.behind i) job stage) : Sound registry (state.put i job stage) := by
  refine sound.move rfl (put_alone _ _ _ _) (put_tasks ..) (fun _ _ => rfl) ?_ valid
  rintro path (⟨job', stage', there, own⟩ | coming)
  · rw [put_tasks] at there
    cases there
    refine sound.free i path (.inl ⟨job, before, here, ?_⟩)
    rcases file with none_ | same
    · rw [none_] at own
      cases own
    · exact same ▸ own
  · exact sound.free i path (.inr coming)

/-- What is on its way for a call comes closer, or gets lost. -/
theorem Sound.arrives (sound : Sound registry state) (coming : state.behind i = .coming path offset bytes)
    (file : behind.file = none ∨ behind.file = some path) (others : ∀ other, other ≠ path → files other = state.files other)
    (unchanged : behind.file = none → files path = state.files path)
    (arrives : ∀ path' layer written, written ≤ layer.length →
      Arriving state.files path' layer written (.coming path offset bytes) → Arriving files path' layer written behind) :
    Sound registry ({ state with files := files }.setBehind i behind) := by
  have held : state.Holds i path := .inr (by rw [coming]; rfl)
  have own : ({ state with files := files }.setBehind i behind).behind i = behind := Function.update_self ..
  cases task : state.tasks i with
  | none =>
    rw [sound.idle i task] at coming
    cases coming
  | some called =>
    obtain ⟨job, stage⟩ := called
    have valid := sound.tasks i job stage task
    rw [coming] at valid
    refine sound.move rfl (fun j other => ⟨rfl, Function.update_of_ne other ..⟩) task ?_ ?_ ?_
    · intro other free
      by_cases same : other = path
      · subst same
        rcases file with none_ | some_
        · exact unchanged none_
        · exact (free (.inr (by rw [own, some_]))).elim
      · exact others other same
    · rintro other (stage | behind)
      · exact sound.free i other (.inl stage)
      · rw [own] at behind
        rcases file with none_ | some_
        · rw [none_] at behind
          cases behind
        · rw [some_] at behind
          cases behind
          exact sound.free i path held
    · rw [own]
      exact valid.arrive arrives

omit [DecidableEq ι] in
private theorem mem_record {path : Text} {rows : List UserAppModel} (stored : job.record path state.rows = some rows)
    {row : UserAppModel} (member : row ∈ rows) :
    row ∈ state.rows ∨ (row.name = job.name ∧ row.version = job.version ∧ row.path = path) := by
  unfold Job.record at stored
  cases operation : job.operation with
  | installApp =>
    rw [operation] at stored
    change insertUserApp _ state.rows = some rows at stored
    unfold insertUserApp at stored
    split at stored
    · cases stored
    · cases stored
      rcases List.mem_append.mp member with old | new
      · exact .inl old
      · cases List.mem_singleton.mp new
        exact .inr ⟨rfl, rfl, rfl⟩
  | updateApp =>
    rw [operation] at stored
    cases stored
    obtain ⟨old, there, same⟩ := List.mem_map.mp member
    split at same
    next own =>
      subst same
      exact .inr ⟨own.2, rfl, rfl⟩
    next => exact .inl (same ▸ there)

/-- The row is stored once the file is whole. -/
theorem Sound.record (sound : Sound registry state) {path : Text} {rows : List UserAppModel}
    (here : state.tasks i = some (job, .recording path)) (settled : state.behind i = .settled)
    (stored : job.record path state.rows = some rows) :
    Sound registry ({ state with rows := rows }.put i job .done) := by
  have finished : Sound registry (state.put i job .done) := sound.put here (.inl rfl) settled
  obtain ⟨layer, resolves, whole⟩ := sound.tasks i job _ here
  rw [settled] at whole
  have whole : state.files path = some layer := by rw [whole, List.take_length]
  have owned : state.Holds i path := .inl ⟨job, _, here, rfl⟩
  refine ⟨?_, finished.tasks, finished.idle, ?_⟩
  · intro row member
    rcases mem_record stored member with old | ⟨name, version, same⟩
    · exact sound.rows row old
    · exact ⟨layer, by rw [name, version, same]; exact resolves, by rw [same]; exact whole⟩
  · intro j other held
    have held : (state.put i job .done).Holds j other := held
    obtain ⟨unnamed, alone⟩ := finished.free j other held
    refine ⟨?_, alone⟩
    intro row member
    rcases mem_record stored member with old | ⟨_, _, same⟩
    · exact unnamed row old
    · rw [same]
      rintro rfl
      have apart : j ≠ i := by
        rintro rfl
        rcases held with ⟨job', stage', at_, file⟩ | coming
        · rw [put_tasks] at at_
          cases at_
          cases file
        · rw [show (state.put j job .done).behind j = .settled from settled] at coming
          cases coming
      have same := put_alone state i job .done j apart
      rw [Holds, same.1, same.2] at held
      exact apart ((sound.free i _ owned).2 j held)

theorem Sound.step {event : InstallEvent ι} {after : Installs ι} (sound : Sound registry state)
    (allowed : unshared state event) (step : Step registry event state after) : Sound registry after := by
  cases step with
  | @starts _ i job free =>
    refine sound.move rfl (put_alone _ _ _ _) (put_tasks ..) (fun _ _ => rfl) ?_ (sound.idle i free)
    rintro path (⟨job', stage', there, own⟩ | coming)
    · rw [put_tasks] at there
      cases there
      cases own
    · exact sound.free i path (.inr coming)
  | @pulls _ i job image here found => exact sound.put here (.inl rfl) ⟨sound.tasks i job _ here, found⟩
  | @checks _ i job image layer here digests layers =>
    obtain ⟨settled, found⟩ := sound.tasks i job _ here
    exact sound.put here (.inl rfl) ⟨settled, image, found, layers, rfl⟩
  | @creates _ i job path layer here =>
    obtain ⟨settled, resolves⟩ := sound.tasks i job _ here
    have settled : ((state.setFile path (some [])).put i job (.downloading path layer 0)).behind i = .settled := settled
    refine sound.move rfl (put_alone (state.setFile path _) i job _) (put_tasks ..) ?_ ?_ ⟨resolves, Nat.zero_le _, ?_⟩
    · intro other free
      refine Function.update_of_ne (fun same : other = path => free ?_) ..
      exact .inl ⟨job, _, put_tasks .., congrArg some same.symm⟩
    · rintro other (⟨job', stage', there, own⟩ | coming)
      · rw [put_tasks] at there
        cases there
        cases own
        exact allowed job path layer here
      · rw [settled] at coming
        cases coming
    · rw [settled]
      exact Function.update_self ..
  | @writes _ i job path layer written n here settled some_ left =>
    obtain ⟨resolves, short, arriving⟩ := sound.tasks i job _ here
    rw [settled] at arriving
    have owned : state.Holds i path := .inl ⟨job, _, here, rfl⟩
    have chunk : ((layer.drop written).take n).length = n :=
      List.length_take_of_le (by rw [List.length_drop]; omega)
    have behind : ((state.setBehind i (.coming path written ((layer.drop written).take n))).put i job
        (.downloading path layer (written + n))).behind i = _ := Function.update_self ..
    refine sound.move rfl ?_ (put_tasks ..) (fun _ _ => rfl) ?_ ⟨resolves, left, ?_⟩
    · exact fun j other => ⟨Function.update_of_ne other .., Function.update_of_ne other ..⟩
    · rintro other (⟨job', stage', there, own⟩ | coming)
      · rw [put_tasks] at there
        cases there
        cases own
        exact sound.free i path owned
      · rw [behind] at coming
        cases coming
        exact sound.free i path owned
    · rw [behind]
      exact ⟨rfl, by rw [chunk], by rw [chunk], arriving⟩
  | @lands _ i path offset bytes n coming some_ part =>
    refine sound.arrives coming (.inr rfl) (fun other apart => Function.update_of_ne apart ..) nofun ?_
    exact fun _ _ _ short arriving => arriving.lands part short
  | @settles _ i path offset coming =>
    refine sound.arrives coming (.inl rfl) (fun _ _ => rfl) (fun _ => rfl) ?_
    rintro path' layer written short ⟨rfl, count, _, so_far⟩
    rw [List.length_nil, Nat.add_zero] at count
    exact count ▸ so_far
  | @loses _ i path offset bytes coming =>
    exact sound.arrives coming (.inl rfl) (fun _ _ => rfl) (fun _ => rfl) fun _ _ _ _ _ => trivial
  | @ends _ i job path layer here =>
    obtain ⟨resolves, _, arriving⟩ := sound.tasks i job _ here
    exact sound.put here (.inr rfl) ⟨layer, resolves, arriving⟩
  | @prepares _ i job path here named =>
    obtain ⟨layer, resolves, arriving⟩ := sound.tasks i job _ here
    exact sound.put here (.inr rfl) ⟨layer, resolves, arriving⟩
  | @records _ i job path rows here stored => exact sound.record here allowed stored
  | @fails _ i job stage here unfinished => exact sound.put here (.inl rfl) trivial

theorem Sound.run {events : List (InstallEvent ι)} {after : Installs ι} (sound : Sound registry state)
    (run : Run registry unshared state events after) : Sound registry after := by
  induction run with
  | start => exact sound
  | step _ allowed step held => exact held.step allowed step

/-! ### A call that fails -/

def Done (state : Installs ι) (i : ι) : Prop := ∃ job, state.tasks i = some (job, .done)

/-- A step leaves what is installed as it was, unless it stores a row. -/
theorem Sound.keeps {event : InstallEvent ι} {after : Installs ι} (sound : Sound registry state)
    (allowed : unshared state event) (step : Step registry event state after) :
    state.Kept after ∨ after.Done event.task := by
  have untouched : ∀ {path : Text} {file : Option Blob}, (∀ row ∈ state.rows, row.path ≠ path) →
      ∀ row ∈ state.rows, (state.setFile path file).files row.path = state.files row.path :=
    fun unnamed row member => Function.update_of_ne (unnamed row member) ..
  cases step with
  | @creates _ i job path layer here => exact .inl ⟨rfl, untouched (allowed job path layer here).1⟩
  | @lands _ i path offset bytes n coming some_ part =>
    exact .inl ⟨rfl, untouched (sound.free i path (.inr (by rw [coming]; rfl))).1⟩
  | @records _ i job path rows here stored => exact .inr ⟨job, Function.update_self ..⟩
  | _ => exact .inl ⟨rfl, fun _ _ => rfl⟩

/-- A call that is done stays done. -/
theorem Done.step {event : InstallEvent ι} {after : Installs ι} (done : state.Done i)
    (step : Step registry event state after) : after.Done i := by
  obtain ⟨job, done⟩ := done
  have kept : ∀ {k : ι} {job' : Job} {stage : Stage}, state.tasks k ≠ some (job, .done) →
      (state.put k job' stage).Done i := by
    intro k job' stage open_
    refine ⟨job, (Function.update_of_ne ?_ ..).trans done⟩
    rintro rfl
    exact open_ done
  cases step with
  | starts free => exact kept (by rw [free]; nofun)
  | pulls here | checks here | creates here | writes here | ends here | prepares here | records here =>
    exact kept (by rw [here]; nofun)
  | fails here unfinished =>
    refine kept ?_
    rw [here]
    rintro same
    cases same
    exact unfinished rfl
  | lands | settles | loses => exact ⟨job, done⟩

theorem Done.run {rules : Rules ι} {events : List (InstallEvent ι)} {after : Installs ι} (done : state.Done i)
    (run : Run registry rules state events after) : after.Done i := by
  induction run with
  | start => exact done
  | step _ _ step held => exact held.step step

/-- The installed apps are whole in every state, and no step of a call that fails in the
end has changed them. -/
theorem apps_stay_intact {events : List (InstallEvent ι)}
    (run : Run registry unshared (initial files) events state) :
    state.Intact registry ∧
      ∀ event middle later after, unshared state event → Step registry event state middle →
        Run registry unshared middle later after → after.Failed event.task → state.Kept middle := by
  have sound := initial_sound.run run
  refine ⟨sound.intact, ?_⟩
  intro event middle later after allowed step rest failed
  rcases sound.keeps allowed step with kept | done
  · exact kept
  · obtain ⟨job, here⟩ := done.run rest
    obtain ⟨job', failed⟩ := failed
    cases here.symm.trans failed

theorem Run.anything {rules : Rules ι} {events : List (InstallEvent ι)} {after : Installs ι}
    (run : Run registry rules state events after) : Run registry Installs.anything state events after := by
  induction run with
  | start => exact .start
  | step _ _ step ran => exact ran.step trivial step

/-- One version of one app. -/
def notes : Registry := fun _ _ => some ⟨"sha256:6e".toList, 1, [[0, 97, 115, 109]]⟩

def install (userId : Int) : Job := ⟨.installApp, userId, "notes/app".toList, "1.0".toList⟩

def notesRow (userId : Int) : UserAppModel := ⟨userId, "notes/app".toList, "1.0".toList, wasmPath "sha256:6e".toList⟩

private theorem notes_db (userId : Int) : ∃ dir, dbPath userId "notes/app".toList = .ok dir := by
  have accepted : checkName "notes/app".toList = true := checkName_iff.mpr (by decide)
  unfold dbPath nameToPath
  rw [accepted]
  exact ⟨_, rfl⟩

omit [DecidableEq ι] in
private theorem free_alone (unnamed : state.rows = [])
    (others : ∀ j, j ≠ i → state.tasks j = none ∧ state.behind j = .settled)
    (path : Text) : state.Free i path := by
  refine ⟨fun row member => ?_, fun j held => ?_⟩
  · rw [unnamed] at member
    cases member
  · by_contra apart
    obtain ⟨idle, settled⟩ := others j apart
    rcases held with ⟨job, stage, here, _⟩ | coming
    · cases idle.symm.trans here
    · rw [settled] at coming
      cases coming

/-- The whole layer has been handed over, and none of it is in the file yet. -/
theorem first_downloading :
    ∃ events state, Run notes unshared (initial fun _ => none : Installs Nat) events state ∧ state.rows = [] ∧
      state.tasks 0 = some (install 1, .downloading (wasmPath "sha256:6e".toList) [0, 97, 115, 109] 4) ∧
      state.behind 0 = .coming (wasmPath "sha256:6e".toList) 0 [0, 97, 115, 109] ∧
      state.files (wasmPath "sha256:6e".toList) = some [] ∧ state.tasks 1 = none ∧ state.behind 1 = .settled := by
  have new : Run notes unshared (initial fun _ => none : Installs Nat) [] (initial fun _ => none) := .start
  have run := new
    |>.step (by trivial) (show Step notes (.starts 0) _ (Installs.put _ 0 (install 1) .started) from .starts rfl)
    |>.step (by trivial) (.pulls (i := 0) rfl rfl)
    |>.step (by trivial) (.checks (i := 0) rfl rfl rfl)
    |>.step (by exact fun _ path _ _ => free_alone rfl (fun j apart => ⟨by simp [put, initial, apart], rfl⟩) path)
      (.creates (i := 0) rfl)
    |>.step (by trivial) (.writes (i := 0) (n := 4) rfl rfl (by decide) (by decide))
  exact ⟨_, _, run, rfl, rfl, rfl, rfl, rfl, rfl⟩

/-- A first user installs the app. -/
theorem first_installed :
    ∃ events state, Run notes unshared (initial fun _ => none : Installs Nat) events state ∧
      state.rows = [notesRow 1] ∧ state.files (wasmPath "sha256:6e".toList) = some [0, 97, 115, 109] ∧
      state.tasks 1 = none := by
  obtain ⟨events, state, run, rows, here, coming, file, free, _⟩ := first_downloading
  have landed := run
    |>.step (by trivial) (.lands (i := 0) (n := 4) coming (by decide) (by decide))
    |>.step (by trivial) (.settles (i := 0) (setBehind_behind ..))
    |>.step (by trivial) (.ends (i := 0) here)
    |>.step (by trivial) (.prepares (i := 0) (put_tasks ..) fun _ => notes_db 1)
  have stored : (install 1).record (wasmPath "sha256:6e".toList) state.rows = some [notesRow 1] := by
    rw [rows]
    rfl
  have file : Function.update state.files (wasmPath "sha256:6e".toList) ((state.files (wasmPath "sha256:6e".toList)).map
      ((Edits.Edit.write 0 ([0, 97, 115, 109].take 4)).apply 0)) (wasmPath "sha256:6e".toList) =
      some [0, 97, 115, 109] := by
    rw [Function.update_self, file]
    rfl
  have settled (state : Installs Nat) : (((state.setBehind 0 .settled).put 0 (install 1)
      (.downloaded (wasmPath "sha256:6e".toList))).put 0 (install 1) (.recording (wasmPath "sha256:6e".toList))).behind 0 =
      .settled := setBehind_behind state 0 .settled
  exact ⟨_, _, landed.step (by exact settled _) (.records (i := 0) (put_tasks ..) stored), rfl, file, free⟩

theorem apps_stay_intact_one :
    ∃ state : Installs Nat, state.rows = [notesRow 1] ∧ state.Intact notes ∧
      ∀ event middle later after, unshared state event → Step notes event state middle →
        Run notes unshared middle later after → after.Failed event.task → state.Kept middle := by
  obtain ⟨events, state, run, rows, _⟩ := first_installed
  exact ⟨state, rows, apps_stay_intact run⟩

/-- A second user installs the app, and the download of its layer fails. The file is
empty from then on, which the row of the first user names. And a row is stored though
the last write of its download gets lost. -/
theorem installed_apps_break :
    (∃ (events : List (InstallEvent Nat)) (before middle after : Installs Nat),
      Run notes anything (initial fun _ => none) events before ∧ before.Intact notes ∧
      Step notes (.creates 1) before middle ∧ Run notes anything middle [.fails 1] after ∧ after.Failed 1 ∧
      ¬ before.Kept middle ∧ ¬ after.Intact notes) ∧
    ∃ (events : List (InstallEvent Nat)) (after : Installs Nat), Run notes anything (initial fun _ => none) events after ∧
      after.rows = [notesRow 1] ∧ after.files (wasmPath "sha256:6e".toList) = some [] ∧ ¬ after.Intact notes := by
  refine ⟨?_, ?_⟩
  · obtain ⟨events, state, run, rows, file, free⟩ := first_installed
    have arrived := run
      |>.step (by trivial) (show Step notes (.starts 1) _ (Installs.put _ 1 (install 2) .started) from .starts free)
      |>.step (by trivial) (.pulls (i := 1) (put_tasks ..) rfl)
      |>.step (by trivial) (.checks (i := 1) (put_tasks ..) rfl rfl)
    have emptied : Function.update state.files (wasmPath "sha256:6e".toList) (some []) (wasmPath "sha256:6e".toList) =
        some [] := Function.update_self ..
    refine ⟨_, _, _, _, arrived.anything, (initial_sound.run arrived).intact, .creates (put_tasks ..),
      .step .start trivial (.fails (put_tasks ..) nofun), ⟨_, put_tasks ..⟩, ?_, ?_⟩
    · intro kept
      have same := kept.2 (notesRow 1) (rows ▸ List.mem_singleton_self _)
      cases emptied.symm.trans (same.trans file)
    · intro intact
      obtain ⟨image, layer, found, layers, whole⟩ := intact (notesRow 1) (rows ▸ List.mem_singleton_self _)
      cases found
      cases layers
      cases emptied.symm.trans whole
  · obtain ⟨events, state, run, rows, here, coming, file, _⟩ := first_downloading
    have stored : (install 1).record (wasmPath "sha256:6e".toList) state.rows = some [notesRow 1] := by
      rw [rows]
      rfl
    have recorded := run.anything
      |>.step trivial (.ends (i := 0) here)
      |>.step trivial (.prepares (i := 0) (put_tasks ..) fun _ => notes_db 1)
      |>.step trivial (.records (i := 0) (put_tasks ..) stored)
      |>.step trivial (.loses (i := 0) coming)
    refine ⟨_, _, recorded, rfl, file, ?_⟩
    intro intact
    obtain ⟨image, layer, found, layers, whole⟩ := intact (notesRow 1) (List.mem_singleton_self _)
    cases found
    cases layers
    cases file.symm.trans whole

end Installs
end Pos2.Server
