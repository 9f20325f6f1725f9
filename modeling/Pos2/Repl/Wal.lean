import Pos2.Repl.Client

/-! What `maybe_end_tx` reads in the log. Its loop sends the transactions that
the log spells, whatever the server answers to the earlier ones; on a log of
whole frames these are the committed groups of frames, in order. -/

namespace Pos2.Repl
open Calls

def FRAME_SIZE : Nat := WAL_FRAME_HEADER_SIZE + PAGESIZE

theorem frame_size_pos : 0 < FRAME_SIZE := by decide

/-- The transactions the loop of `maybe_end_tx` sends, and how it ends if none
of them is refused. -/
def planCommits (walData : Bytes) : List Nat → Nat → List Transaction × Res Unit
  | [], _ => ([], .ok ())
  | idx :: rest, startIdx =>
    match DbClient.frameHeader walData idx with
    | .ok header =>
      if header.databaseSizeAfterCommit ≠ 0 then
        match DbClient.extractWritesFromWal walData startIdx (idx + WAL_FRAME_HEADER_SIZE + PAGESIZE) with
        | .ok pageWrites =>
          let (later, ending) := planCommits walData rest (idx + WAL_FRAME_HEADER_SIZE + PAGESIZE)
          (⟨pageWrites, header.databaseSizeAfterCommit⟩ :: later, ending)
        | .err error => ([], .err error)
        | .panic => ([], .panic)
      else planCommits walData rest startIdx
    | .err error => ([], .err error)
    | .panic => ([], .panic)

/-- The plan for the whole log. -/
def walPlan (walData : Bytes) : List Transaction × Res Unit :=
  planCommits walData (DbClient.stepBy WAL_HEADER_SIZE walData.length FRAME_SIZE) WAL_HEADER_SIZE

private theorem slice_ends (bytes : Bytes) (first last : Nat) :
    (∃ part, DbClient.slice bytes first last = .ok part) ∨ DbClient.slice bytes first last = .panic := by
  unfold DbClient.slice
  split
  · exact .inl ⟨_, rfl⟩
  · exact .inr rfl

theorem frameHeader_ends (walData : Bytes) (idx : Nat) :
    (∃ header, DbClient.frameHeader walData idx = .ok header) ∨ DbClient.frameHeader walData idx = .panic := by
  unfold DbClient.frameHeader
  rcases slice_ends walData idx (idx + WAL_FRAME_HEADER_SIZE) with ⟨part, read⟩ | failed
  · rw [read, Outcome.ok_bind]
    cases WalFrameHeader.fromBytes part with
    | some header => exact .inl ⟨header, rfl⟩
    | none => exact .inr rfl
  · exact .inr (by rw [failed, Outcome.panic_bind])

theorem extractFrames_ends (walData : Bytes) (positions : List Nat) :
    (∃ writes, DbClient.extractFrames walData positions = .ok writes) ∨
      DbClient.extractFrames walData positions = .panic := by
  induction positions with
  | nil => exact .inl ⟨[], rfl⟩
  | cons idx rest ih =>
    rw [DbClient.extractFrames]
    rcases frameHeader_ends walData idx with ⟨header, read⟩ | failed
    · rw [read, Outcome.ok_bind]
      rcases slice_ends walData (idx + WAL_FRAME_HEADER_SIZE) (idx + WAL_FRAME_HEADER_SIZE + PAGESIZE)
        with ⟨page, read⟩ | failed
      · rw [read, Outcome.ok_bind]
        rcases ih with ⟨writes, read⟩ | failed
        · exact .inl ⟨_, by rw [read, Outcome.ok_bind]⟩
        · exact .inr (by rw [failed, Outcome.panic_bind])
      · exact .inr (by rw [failed, Outcome.panic_bind])
    · exact .inr (by rw [failed, Outcome.panic_bind])

/-- Reading the log ends well or panics. -/
theorem planCommits_ends (walData : Bytes) (positions : List Nat) (startIdx : Nat) :
    (planCommits walData positions startIdx).2 = .ok () ∨ (planCommits walData positions startIdx).2 = .panic := by
  induction positions generalizing startIdx with
  | nil => exact .inl rfl
  | cons idx rest ih =>
    rw [planCommits]
    rcases frameHeader_ends walData idx with ⟨header, read⟩ | failed
    · simp only [read]
      by_cases commits : header.databaseSizeAfterCommit = 0
      · simp only [commits, ne_eq, not_true_eq_false, if_false]
        exact ih startIdx
      · simp only [commits, ne_eq, not_false_eq_true, if_true]
        rcases extractFrames_ends walData (DbClient.stepBy startIdx
          (idx + WAL_FRAME_HEADER_SIZE + PAGESIZE) (WAL_FRAME_HEADER_SIZE + PAGESIZE)) with ⟨writes, read⟩ | failed
        · simp only [DbClient.extractWritesFromWal, read]
          exact ih _
        · simp only [DbClient.extractWritesFromWal, failed]
          exact .inr trivial
    · simp only [failed]
      exact .inr trivial

theorem walPlan_ends (walData : Bytes) : (walPlan walData).2 = .ok () ∨ (walPlan walData).2 = .panic :=
  planCommits_ends walData _ _

/-- Send transactions one after the other, all from the version the client has;
`ending` is what is left to do once they are all accepted. -/
def sending (ending : DbClient → Res Unit × DbClient) :
    List Transaction → DbClient → Program ServerCalls (Res Unit × DbClient)
  | [], client => .done (ending client)
  | tx :: rest, client =>
    .call ⟨some client, .commitChange client.serverVersion tx⟩ fun
      | .ok _ => sending ending rest client
      | .err error => .done (.err error, client)
      | .panic => .done (.panic, client)

/-- Local work that starts only after an earlier part ended well. -/
def afterOk (earlier : Res Unit) (work : DbClient → Res Unit × DbClient) (client : DbClient) :
    Res Unit × DbClient :=
  match earlier with
  | .ok () => work client
  | failed => (failed, client)

theorem sendCommits_eq (work : DbClient → Res Unit × DbClient) (client : DbClient)
    (positions : List Nat) (startIdx : Nat) :
    (do DbClient.sendCommits positions startIdx
        Method.local_ work : ClientM Unit) client =
      sending (afterOk (planCommits client.walData positions startIdx).2 work)
        (planCommits client.walData positions startIdx).1 client := by
  induction positions generalizing startIdx with
  | nil => rfl
  | cons idx rest ih =>
    simp only [Method.bind_apply, Method.local_apply] at ih
    cases read : DbClient.frameHeader client.walData idx with
    | panic => simp [DbClient.sendCommits, planCommits, read, sending, afterOk]
    | err error => simp [DbClient.sendCommits, planCommits, read, sending, afterOk]
    | ok header =>
      by_cases commits : header.databaseSizeAfterCommit = 0
      · simp [DbClient.sendCommits, planCommits, read, commits, ih]
      · cases writes : DbClient.extractWritesFromWal client.walData startIdx
            (idx + WAL_FRAME_HEADER_SIZE + PAGESIZE) with
        | panic => simp [DbClient.sendCommits, planCommits, sending, afterOk, read, commits, writes]
        | err error => simp [DbClient.sendCommits, planCommits, sending, afterOk, read, commits, writes]
        | ok pageWrites =>
          simp only [DbClient.sendCommits, planCommits, read, commits, writes, Method.bind_apply,
            Method.read_apply, Method.ofOutcome_apply, Program.done_bind, ne_eq, not_false_eq_true,
            if_true, sending, DbClient.commitChange, Program.call_bind]
          congr 1
          funext answer
          cases answer with
          | ok newVersion => exact ih (idx + WAL_FRAME_HEADER_SIZE + PAGESIZE)
          | err error => rfl
          | panic => rfl

/-- A frame of the log: its header and one page. -/
structure Frame where
  header : WalFrameHeader
  page : Bytes
  whole : page.length = PAGESIZE

namespace Frame

def asBytes (frame : Frame) : Bytes := frame.header.asBytes ++ frame.page

def pageWrite (frame : Frame) : PageWrite := ⟨frame.header.pageNumber, frame.page⟩

def commits (frame : Frame) : Prop := frame.header.databaseSizeAfterCommit ≠ 0

instance (frame : Frame) : Decidable frame.commits := inferInstanceAs (Decidable (_ ≠ _))

@[simp] theorem asBytes_length (frame : Frame) : frame.asBytes.length = FRAME_SIZE := by
  simp [asBytes, FRAME_SIZE, frame.whole]

end Frame

def framesBytes (frames : List Frame) : Bytes := frames.flatMap Frame.asBytes

@[simp] theorem framesBytes_nil : framesBytes [] = [] := rfl

@[simp] theorem framesBytes_cons (frame : Frame) (rest : List Frame) :
    framesBytes (frame :: rest) = frame.asBytes ++ framesBytes rest := rfl

@[simp] theorem framesBytes_append (first rest : List Frame) :
    framesBytes (first ++ rest) = framesBytes first ++ framesBytes rest := List.flatMap_append

@[simp] theorem framesBytes_length (frames : List Frame) :
    (framesBytes frames).length = FRAME_SIZE * frames.length := by
  induction frames with
  | nil => simp
  | cons frame rest ih => simp [ih, Nat.mul_succ, Nat.add_comm]

private theorem slice_between (front middle back : Bytes) :
    DbClient.slice (front ++ (middle ++ back)) front.length (front.length + middle.length) = .ok middle := by
  have inside : front.length ≤ front.length + middle.length ∧
      front.length + middle.length ≤ (front ++ (middle ++ back)).length := by
    simp only [List.length_append]
    omega
  rw [DbClient.slice, if_pos inside]
  simp

private theorem frameHeader_at (front back : Bytes) (frame : Frame) :
    DbClient.frameHeader (front ++ (frame.asBytes ++ back)) front.length = .ok frame.header := by
  have found := slice_between front frame.header.asBytes (frame.page ++ back)
  rw [WalFrameHeader.asBytes_length] at found
  simp [DbClient.frameHeader, Frame.asBytes, found]

private theorem page_at (front back : Bytes) (frame : Frame) :
    DbClient.slice (front ++ (frame.asBytes ++ back)) (front.length + WAL_FRAME_HEADER_SIZE)
      (front.length + WAL_FRAME_HEADER_SIZE + PAGESIZE) = .ok frame.page := by
  have found := slice_between (front ++ frame.header.asBytes) frame.page back
  rw [frame.whole, List.length_append, WalFrameHeader.asBytes_length] at found
  simpa [Frame.asBytes] using found

private theorem extractFrames_at (front back : Bytes) (frames : List Frame) :
    DbClient.extractFrames (front ++ (framesBytes frames ++ back))
      (List.range' front.length frames.length FRAME_SIZE) = .ok (frames.map Frame.pageWrite) := by
  induction frames generalizing front with
  | nil => rfl
  | cons frame rest ih =>
    have later := ih (front ++ frame.asBytes)
    simp only [List.length_append, Frame.asBytes_length, List.append_assoc] at later
    simp only [List.length_cons, List.range'_succ, DbClient.extractFrames, framesBytes_cons,
      List.append_assoc, frameHeader_at, page_at, later, Outcome.ok_bind]
    rfl

theorem stepBy_frames (first count : Nat) :
    DbClient.stepBy first (first + FRAME_SIZE * count) FRAME_SIZE = List.range' first count FRAME_SIZE := by
  have positive := frame_size_pos
  have steps : (first + FRAME_SIZE * count - first + FRAME_SIZE - 1) / FRAME_SIZE = count := by
    rw [Nat.add_sub_cancel_left, Nat.add_sub_assoc positive, Nat.mul_add_div positive,
      Nat.div_eq_of_lt (by omega), Nat.add_zero]
  rw [DbClient.stepBy, steps]

/-- The transactions of a list of frames, `pending` being those since the last commit. -/
def groupCommits (pending : List Frame) : List Frame → List Transaction
  | [] => []
  | frame :: rest =>
    if frame.commits then
      ⟨(pending ++ [frame]).map Frame.pageWrite, frame.header.databaseSizeAfterCommit⟩ :: groupCommits [] rest
    else groupCommits (pending ++ [frame]) rest

/-- The loop over whole frames sends their commits, and goes on from the end of the
last one, with the frames behind it still waiting. -/
theorem planCommits_then (front : Bytes) (pending frames : List Frame) : ∃ (closed : Bytes) (waiting : List Frame),
    front ++ (framesBytes pending ++ framesBytes frames) = closed ++ framesBytes waiting ∧
    ∀ (back : Bytes) (more : List Nat),
      planCommits (front ++ (framesBytes pending ++ (framesBytes frames ++ back)))
        (List.range' (front.length + FRAME_SIZE * pending.length) frames.length FRAME_SIZE ++ more) front.length =
        (groupCommits pending frames ++ (planCommits (closed ++ (framesBytes waiting ++ back)) more closed.length).1,
          (planCommits (closed ++ (framesBytes waiting ++ back)) more closed.length).2) := by
  induction frames generalizing front pending with
  | nil =>
    refine ⟨front, pending, by simp, fun back more => ?_⟩
    rfl
  | cons frame rest ih =>
    have header (back : Bytes) := frameHeader_at (front ++ framesBytes pending) (framesBytes rest ++ back) frame
    simp only [List.length_append, framesBytes_length, List.append_assoc] at header
    by_cases commits : frame.commits
    · obtain ⟨closed, waiting, same, later⟩ := ih (front ++ framesBytes (pending ++ [frame])) []
      refine ⟨closed, waiting, ?_, fun back more => ?_⟩
      · rw [← same]
        simp
      · have writes := extractFrames_at front (framesBytes rest ++ back) (pending ++ [frame])
        have later := later back more
        simp only [framesBytes_append, framesBytes_cons, framesBytes_nil, List.append_nil, List.append_assoc,
          List.length_append, List.length_cons, List.length_nil, List.nil_append, Nat.zero_add,
          framesBytes_length, Nat.mul_zero, Nat.add_zero, Frame.asBytes_length, ← Nat.add_assoc] at writes later
        have range := stepBy_frames front.length (pending.length + 1)
        simp only [Nat.mul_add, Nat.mul_one, ← Nat.add_assoc] at range
        have size : ∀ n, n + WAL_FRAME_HEADER_SIZE + PAGESIZE = n + FRAME_SIZE := fun n => Nat.add_assoc n _ _
        have read : DbClient.extractWritesFromWal
            (front ++ (framesBytes pending ++ (frame.asBytes ++ (framesBytes rest ++ back)))) front.length
            (front.length + FRAME_SIZE * pending.length + FRAME_SIZE) =
              .ok ((pending ++ [frame]).map Frame.pageWrite) := by
          rw [DbClient.extractWritesFromWal, ← FRAME_SIZE, range]
          exact writes
        have nonzero : frame.header.databaseSizeAfterCommit ≠ 0 := commits
        simp only [List.length_cons, List.range'_succ, List.cons_append, framesBytes_cons, List.append_assoc,
          planCommits, header, if_pos nonzero, size, read, later, groupCommits, if_pos commits]
    · obtain ⟨closed, waiting, same, later⟩ := ih front (pending ++ [frame])
      refine ⟨closed, waiting, ?_, fun back more => ?_⟩
      · rw [← same]
        simp
      · have later := later back more
        simp only [framesBytes_append, framesBytes_cons, framesBytes_nil, List.append_nil, List.append_assoc,
          List.length_append, List.length_cons, List.length_nil, Nat.zero_add, Nat.mul_add, Nat.mul_one,
          ← Nat.add_assoc] at later
        simp only [List.length_cons, List.range'_succ, List.cons_append, framesBytes_cons, List.append_assoc,
          planCommits, header, if_neg (show ¬ frame.header.databaseSizeAfterCommit ≠ 0 from commits), later,
          groupCommits, if_neg commits]

/-- On a log of whole frames the loop sends every committed group and ends well. -/
theorem walPlan_frames {header : Bytes} (whole : header.length = WAL_HEADER_SIZE) (frames : List Frame) :
    walPlan (header ++ framesBytes frames) = (groupCommits [] frames, .ok ()) := by
  obtain ⟨closed, waiting, _, plan⟩ := planCommits_then header [] frames
  have plan := plan [] []
  simp only [framesBytes_nil, List.nil_append, List.append_nil, List.length_nil, Nat.mul_zero, Nat.add_zero, whole,
    planCommits] at plan
  rw [walPlan, List.length_append, framesBytes_length, whole, stepBy_frames, plan]

/-- One SQLite transaction in the log: frames that do not commit, then one that
does. SQLite numbers pages from 1. -/
structure Commit where
  frames : List Frame
  last : Frame
  running : ∀ frame ∈ frames, ¬ frame.commits
  closed : last.commits
  numbered : ∀ frame ∈ frames ++ [last], frame.header.pageNumber ≠ 0

namespace Commit

def all (commit : Commit) : List Frame := commit.frames ++ [commit.last]

def transaction (commit : Commit) : Transaction :=
  ⟨commit.all.map Frame.pageWrite, commit.last.header.databaseSizeAfterCommit⟩

theorem applies (commit : Commit) : commit.transaction.Applies := by
  intro page member
  obtain ⟨frame, inside, rfl⟩ := List.mem_map.mp member
  exact ⟨commit.numbered frame inside, frame.whole⟩

/-- A commit of one zeroed page to a database of two pages. -/
def single (pageNumber : UInt32) (numbered : pageNumber ≠ 0) : Commit where
  frames := []
  last := ⟨⟨pageNumber, 2, 0, 0, 0, 0⟩, List.replicate PAGESIZE 0, by simp⟩
  running := by simp
  closed := show (2 : UInt32) ≠ 0 by decide
  numbered := by
    intro frame member
    rw [List.mem_singleton.mp member]
    exact numbered

end Commit

private theorem groupCommits_append {running : List Frame} (open_ : ∀ frame ∈ running, ¬ frame.commits)
    (pending rest : List Frame) :
    groupCommits pending (running ++ rest) = groupCommits (pending ++ running) rest := by
  induction running generalizing pending with
  | nil => simp
  | cons frame later ih =>
    have quiet := open_ frame (by simp)
    rw [List.cons_append, groupCommits, if_neg quiet, ih (fun frame member => open_ frame (by simp [member]))]
    simp

/-- Frames of which the last one alone commits, whatever pages they are of. -/
structure Group where
  frames : List Frame
  last : Frame
  running : ∀ frame ∈ frames, ¬ frame.commits
  closed : last.commits

namespace Group

def all (group : Group) : List Frame := group.frames ++ [group.last]

def transaction (group : Group) : Transaction :=
  ⟨group.all.map Frame.pageWrite, group.last.header.databaseSizeAfterCommit⟩

end Group

/-- The committed groups are sent; frames after the last commit are not. -/
theorem groupCommits_groups (groups : List Group) {tail : List Frame} (uncommitted : ∀ frame ∈ tail, ¬ frame.commits) :
    groupCommits [] (groups.flatMap Group.all ++ tail) = groups.map Group.transaction := by
  induction groups with
  | nil =>
    have nothing := groupCommits_append uncommitted [] []
    rw [List.append_nil] at nothing
    exact nothing
  | cons group rest ih =>
    rw [List.flatMap_cons, Group.all, List.append_assoc, List.append_assoc, groupCommits_append group.running,
      List.singleton_append, groupCommits, if_pos group.closed, ih]
    rfl

def Commit.group (commit : Commit) : Group := ⟨commit.frames, commit.last, commit.running, commit.closed⟩

theorem groupCommits_commits (commits : List Commit) {tail : List Frame}
    (uncommitted : ∀ frame ∈ tail, ¬ frame.commits) :
    groupCommits [] (commits.flatMap Commit.all ++ tail) = commits.map Commit.transaction := by
  have sent := groupCommits_groups (commits.map Commit.group) uncommitted
  rw [List.flatMap_map, List.map_map] at sent
  exact sent

end Pos2.Repl
