import Pos2.Repl.Files
import Pos2.Repl.Reset

/-! The log as SQLite writes it, a frame's header and its page one by one, and what
the end of a transaction reads there: the transactions that were written, unless the
log ends inside a frame. -/

namespace Pos2.Repl
open Calls Edits

/-! ### Frames written in any order -/

def frameOffset (k : Nat) : Nat := WAL_HEADER_SIZE + k * FRAME_SIZE

/-- SQLite writes the header of the log, and of each frame its header and its page. -/
inductive WalWrite where
  | walHeader (header : WalHeader)
  | frameHeader (k : Nat) (header : WalFrameHeader)
  | page (k : Nat) (page : Bytes) (whole : page.length = PAGESIZE)

namespace WalWrite

def offset : WalWrite → Nat
  | walHeader _ => 0
  | frameHeader k _ => frameOffset k
  | page k _ _ => frameOffset k + WAL_FRAME_HEADER_SIZE

def data : WalWrite → Bytes
  | walHeader header => header.asBytes
  | frameHeader _ header => header.asBytes
  | page _ bytes _ => bytes

def edit (write : WalWrite) : Edit UInt8 := .write write.offset write.data

end WalWrite

/-- From the last write back to the first. -/
def DbClient.written (client : DbClient) : List WalWrite → DbClient
  | [] => client
  | write :: earlier => WalFile.write write.offset write.data (client.written earlier)

def lastHeader (k : Nat) : List WalWrite → Option WalFrameHeader
  | [] => none
  | .frameHeader j header :: earlier => if j = k then some header else lastHeader k earlier
  | _ :: earlier => lastHeader k earlier

def lastPage (k : Nat) : List WalWrite → Option Bytes
  | [] => none
  | .page j page _ :: earlier => if j = k then some page else lastPage k earlier
  | _ :: earlier => lastPage k earlier

/-- What was last written to each place is the frame there; what was written to it
before, in any order, is gone. -/
def Spells (writes : List WalWrite) (frames : List Frame) : Prop :=
  ∀ k, lastHeader k writes = frames[k]?.map Frame.header ∧ lastPage k writes = frames[k]?.map Frame.page

private theorem written_walData (client : DbClient) (writes : List WalWrite) :
    client.written writes = { client with walData := replay 0 client.walData (writes.map WalWrite.edit) } := by
  induction writes with
  | nil => rfl
  | cons write earlier ih =>
    simp only [DbClient.written, ih, WalFile.write, resize_eq]
    rfl

private theorem lastHeader_isSome {k : Nat} {header : WalFrameHeader} {writes : List WalWrite}
    (member : WalWrite.frameHeader k header ∈ writes) : (lastHeader k writes).isSome := by
  induction writes with
  | nil => cases member
  | cons write earlier ih =>
    cases write with
    | walHeader other => exact ih (by simpa using member)
    | page j other whole => exact ih (by simpa using member)
    | frameHeader j other =>
      simp only [lastHeader]
      split
      · rfl
      next apart =>
        apply ih
        simp only [List.mem_cons, WalWrite.frameHeader.injEq] at member
        rcases member with ⟨rfl, _⟩ | later
        · exact (apart rfl).elim
        · exact later

private theorem lastPage_isSome {k : Nat} {page : Bytes} {whole : page.length = PAGESIZE} {writes : List WalWrite}
    (member : WalWrite.page k page whole ∈ writes) : (lastPage k writes).isSome := by
  induction writes with
  | nil => cases member
  | cons write earlier ih =>
    cases write with
    | walHeader other => exact ih (by simpa using member)
    | frameHeader j other => exact ih (by simpa using member)
    | page j other whole =>
      simp only [lastPage]
      split
      · rfl
      next apart =>
        apply ih
        simp only [List.mem_cons, WalWrite.page.injEq] at member
        rcases member with ⟨rfl, _⟩ | later
        · exact (apart rfl).elim
        · exact later

private theorem lastPage_mem {k : Nat} {page : Bytes} {writes : List WalWrite} (last : lastPage k writes = some page) :
    ∃ whole, WalWrite.page k page whole ∈ writes := by
  induction writes with
  | nil => cases last
  | cons write earlier ih =>
    cases write with
    | walHeader other =>
      obtain ⟨whole, member⟩ := ih last
      exact ⟨whole, by simp [member]⟩
    | frameHeader j other =>
      obtain ⟨whole, member⟩ := ih last
      exact ⟨whole, by simp [member]⟩
    | page j other sized =>
      simp only [lastPage] at last
      split at last
      next here =>
        cases last
        subst here
        exact ⟨sized, by simp⟩
      next =>
        obtain ⟨whole, member⟩ := ih last
        exact ⟨whole, by simp [member]⟩

section
variable {start : Bytes} {writes : List WalWrite} {k j : Nat}

/-- The bytes of a frame's header are those of the last write to it. -/
theorem item_header (inside : j < WAL_FRAME_HEADER_SIZE) :
    item 0 start (frameOffset k + j) (writes.map WalWrite.edit) =
      match lastHeader k writes with
      | some header => header.asBytes.getD j 0
      | none => start.getD (frameOffset k + j) 0 := by
  induction writes with
  | nil => rfl
  | cons write earlier ih =>
    simp only [List.map_cons, WalWrite.edit, item, WAL_FRAME_HEADER_SIZE] at ih inside ⊢
    cases write with
    | walHeader header =>
      have apart : ¬ (0 ≤ frameOffset k + j ∧ frameOffset k + j < 0 + header.asBytes.length) := by
        simp only [WalHeader.asBytes_length, frameOffset, WAL_HEADER_SIZE]
        omega
      simp only [WalWrite.offset, WalWrite.data, lastHeader, apart, if_false]
      exact ih
    | page other page whole =>
      have apart : ¬ (frameOffset other + WAL_FRAME_HEADER_SIZE ≤ frameOffset k + j ∧
          frameOffset k + j < frameOffset other + WAL_FRAME_HEADER_SIZE + page.length) := by
        simp only [whole, frameOffset, WAL_HEADER_SIZE, FRAME_SIZE, WAL_FRAME_HEADER_SIZE, PAGESIZE]
        omega
      simp only [WalWrite.offset, WalWrite.data, lastHeader, apart, if_false]
      exact ih
    | frameHeader other header =>
      by_cases here : other = k
      · subst here
        have covered : frameOffset other ≤ frameOffset other + j ∧
            frameOffset other + j < frameOffset other + header.asBytes.length := by
          simp only [WalFrameHeader.asBytes_length, WAL_FRAME_HEADER_SIZE]
          omega
        simp only [WalWrite.offset, WalWrite.data, lastHeader, covered, if_true, and_self, Nat.add_sub_cancel_left]
      · have apart : ¬ (frameOffset other ≤ frameOffset k + j ∧
            frameOffset k + j < frameOffset other + header.asBytes.length) := by
          simp only [WalFrameHeader.asBytes_length, frameOffset, WAL_HEADER_SIZE, FRAME_SIZE, WAL_FRAME_HEADER_SIZE, PAGESIZE]
          omega
        simp only [WalWrite.offset, WalWrite.data, lastHeader, here, apart, if_false]
        exact ih

private theorem item_page (inside : j < PAGESIZE) :
    item 0 start (frameOffset k + (WAL_FRAME_HEADER_SIZE + j)) (writes.map WalWrite.edit) =
      match lastPage k writes with
      | some page => page.getD j 0
      | none => start.getD (frameOffset k + (WAL_FRAME_HEADER_SIZE + j)) 0 := by
  induction writes with
  | nil => rfl
  | cons write earlier ih =>
    simp only [List.map_cons, WalWrite.edit, item] at ih ⊢
    have small : j < 4096 := inside
    cases write with
    | walHeader header =>
      have apart : ¬ (0 ≤ frameOffset k + (WAL_FRAME_HEADER_SIZE + j) ∧
          frameOffset k + (WAL_FRAME_HEADER_SIZE + j) < 0 + header.asBytes.length) := by
        simp only [WalHeader.asBytes_length, frameOffset, WAL_HEADER_SIZE]
        omega
      simp only [WalWrite.offset, WalWrite.data, lastPage, apart, if_false]
      exact ih
    | frameHeader other header =>
      have apart : ¬ (frameOffset other ≤ frameOffset k + (WAL_FRAME_HEADER_SIZE + j) ∧
          frameOffset k + (WAL_FRAME_HEADER_SIZE + j) < frameOffset other + header.asBytes.length) := by
        simp only [WalFrameHeader.asBytes_length, frameOffset, WAL_HEADER_SIZE, FRAME_SIZE, WAL_FRAME_HEADER_SIZE, PAGESIZE]
        omega
      simp only [WalWrite.offset, WalWrite.data, lastPage, apart, if_false]
      exact ih
    | page other page whole =>
      by_cases here : other = k
      · subst here
        have covered : frameOffset other + WAL_FRAME_HEADER_SIZE ≤ frameOffset other + (WAL_FRAME_HEADER_SIZE + j) ∧
            frameOffset other + (WAL_FRAME_HEADER_SIZE + j) < frameOffset other + WAL_FRAME_HEADER_SIZE + page.length := by
          simp only [whole, PAGESIZE]
          omega
        have place : frameOffset other + (WAL_FRAME_HEADER_SIZE + j) - (frameOffset other + WAL_FRAME_HEADER_SIZE) = j := by
          omega
        simp only [WalWrite.offset, WalWrite.data, lastPage, covered, if_true, and_self, place]
      · have apart : ¬ (frameOffset other + WAL_FRAME_HEADER_SIZE ≤ frameOffset k + (WAL_FRAME_HEADER_SIZE + j) ∧
            frameOffset k + (WAL_FRAME_HEADER_SIZE + j) < frameOffset other + WAL_FRAME_HEADER_SIZE + page.length) := by
          simp only [whole, frameOffset, WAL_HEADER_SIZE, FRAME_SIZE, WAL_FRAME_HEADER_SIZE, PAGESIZE]
          omega
        simp only [WalWrite.offset, WalWrite.data, lastPage, here, apart, if_false]
        exact ih

end

private theorem framesBytes_getD {frames : List Frame} {k j : Nat} {frame : Frame} (found : frames[k]? = some frame)
    (inside : j < FRAME_SIZE) : (framesBytes frames).getD (k * FRAME_SIZE + j) 0 = frame.asBytes.getD j 0 := by
  induction frames generalizing k with
  | nil => cases found
  | cons first rest ih =>
    have sized := first.asBytes_length
    rw [framesBytes_cons]
    cases k with
    | zero =>
      cases found
      simp only [List.getD_eq_getElem?_getD, Nat.zero_mul, Nat.zero_add]
      rw [List.getElem?_append_left (by omega)]
    | succ k =>
      have later := ih (k := k) (by simpa using found)
      simp only [List.getD_eq_getElem?_getD] at later ⊢
      have place : (k + 1) * FRAME_SIZE + j = first.asBytes.length + (k * FRAME_SIZE + j) := by
        rw [sized, Nat.succ_mul]
        omega
      rw [place, List.getElem?_append_right (Nat.le_add_right _ _), Nat.add_sub_cancel_left, later]

/-- Writes to the log reach just as far as its frames. -/
theorem written_size {start : Nat} {writes : List WalWrite} {frames : List Frame} (spells : Spells writes frames)
    (empty : start = WAL_HEADER_SIZE) :
    size start (writes.map WalWrite.edit) = WAL_HEADER_SIZE + frames.length * FRAME_SIZE := by
  have inside {k : Nat} (there : frames[k]?.isSome) : (k + 1) * FRAME_SIZE ≤ frames.length * FRAME_SIZE := by
    have below : k < frames.length := by simpa using there
    exact Nat.mul_le_mul_right _ below
  apply Nat.le_antisymm
  · refine size_le (by omega) fun offset data member => ?_
    obtain ⟨write, among, same⟩ := List.mem_map.mp member
    cases same
    cases write with
    | walHeader header =>
      simp only [WalWrite.offset, WalWrite.data, WalHeader.asBytes_length]
      omega
    | frameHeader k header =>
      have last := lastHeader_isSome among
      rw [(spells k).1, Option.isSome_map] at last
      have fits := inside last
      simp only [WalWrite.offset, WalWrite.data, WalFrameHeader.asBytes_length, frameOffset, WAL_HEADER_SIZE, FRAME_SIZE,
        WAL_FRAME_HEADER_SIZE, PAGESIZE] at fits ⊢
      omega
    | page k page whole =>
      have last := lastPage_isSome among
      rw [(spells k).2, Option.isSome_map] at last
      have fits := inside last
      simp only [WalWrite.offset, WalWrite.data, whole, frameOffset, WAL_HEADER_SIZE, FRAME_SIZE, WAL_FRAME_HEADER_SIZE,
        PAGESIZE] at fits ⊢
      omega
  · have grows : ∀ cut, Edit.truncate cut ∉ writes.map WalWrite.edit := by
      intro cut member
      obtain ⟨write, _, same⟩ := List.mem_map.mp member
      cases same
    obtain ⟨begins, ends⟩ := @le_size _ start _ grows
    rcases Nat.eq_zero_or_pos frames.length with none_ | some_
    · rw [none_, Nat.zero_mul, Nat.add_zero, ← empty]
      exact begins
    · have found : frames[frames.length - 1]? = some frames[frames.length - 1] := List.getElem?_eq_getElem (by omega)
      have last := (spells (frames.length - 1)).2
      rw [found, Option.map_some] at last
      obtain ⟨whole, member⟩ := lastPage_mem last
      have reaches := ends _ _ (List.mem_map_of_mem (f := WalWrite.edit) member)
      simp only [WalWrite.offset, WalWrite.data, whole, frameOffset, WAL_HEADER_SIZE, FRAME_SIZE, WAL_FRAME_HEADER_SIZE,
        PAGESIZE] at reaches ⊢
      omega

/-- However the frames were written, the log holds one after the other. -/
theorem written_frames {client : DbClient} {writes : List WalWrite} {frames : List Frame}
    (empty : client.walData.length = WAL_HEADER_SIZE) (spells : Spells writes frames) :
    ∃ header : Bytes, header.length = WAL_HEADER_SIZE ∧
      (client.written writes).walData = header ++ framesBytes frames := by
  have length := replay_length 0 client.walData (writes.map WalWrite.edit)
  rw [written_size spells empty] at length
  have stored : (client.written writes).walData = replay 0 client.walData (writes.map WalWrite.edit) := by
    rw [written_walData]
  rw [stored]
  refine ⟨(replay 0 client.walData (writes.map WalWrite.edit)).take WAL_HEADER_SIZE, ?_, ?_⟩
  · rw [List.length_take, length]
    omega
  · have same : (replay 0 client.walData (writes.map WalWrite.edit)).drop WAL_HEADER_SIZE = framesBytes frames := by
      apply eq_of_getD 0
      · rw [List.length_drop, length, framesBytes_length, Nat.mul_comm]
        omega
      · intro i inside
        rw [List.length_drop, length, Nat.add_sub_cancel_left] at inside
        have positive := frame_size_pos
        have small : i % FRAME_SIZE < FRAME_SIZE := Nat.mod_lt _ positive
        have within : i / FRAME_SIZE < frames.length := Nat.div_lt_of_lt_mul (by rwa [Nat.mul_comm])
        have found := List.getElem?_eq_getElem within
        have place : i = i / FRAME_SIZE * FRAME_SIZE + i % FRAME_SIZE := (Nat.div_add_mod' i FRAME_SIZE).symm
        generalize i / FRAME_SIZE = k, i % FRAME_SIZE = j at place small within found
        subst place
        rw [framesBytes_getD found small, List.getD_eq_getElem?_getD, List.getElem?_drop, ← List.getD_eq_getElem?_getD]
        have offset : WAL_HEADER_SIZE + (k * FRAME_SIZE + j) = frameOffset k + j := (Nat.add_assoc _ _ _).symm
        rw [offset, replay_getD]
        by_cases first : j < WAL_FRAME_HEADER_SIZE
        · rw [item_header first, (spells k).1, found]
          simp only [Option.map_some, Frame.asBytes, List.getD_eq_getElem?_getD]
          rw [List.getElem?_append_left (by simpa using first)]
        · obtain ⟨l, rfl⟩ := Nat.exists_eq_add_of_le (Nat.le_of_not_lt first)
          have behind : l < PAGESIZE := by
            simp only [FRAME_SIZE] at small
            omega
          rw [item_page behind, (spells k).2, found]
          simp only [Option.map_some, Frame.asBytes, List.getD_eq_getElem?_getD]
          rw [List.getElem?_append_right (by simp), WalFrameHeader.asBytes_length, Nat.add_sub_cancel_left]
    rw [← same, List.take_append_drop]

/-- The walk over a log sends the transactions that were written, whatever the order
of the writes; frames behind the last commit, stale or not committed yet, are left out. -/
theorem frames_decode (target : Target) (rng : Rng) {client : DbClient} {writes : List WalWrite}
    {groups : List Group} {tail : List Frame} (empty : client.walData.length = WAL_HEADER_SIZE)
    (uncommitted : ∀ frame ∈ tail, ¬ frame.commits) (spells : Spells writes (groups.flatMap Group.all ++ tail))
    (unlocked : client.locks = 0) (wrote : client.hadWrite = true) :
    DbClient.maybeEndTx target rng (client.written writes) =
      sending (ended target rng) (groups.map Group.transaction) (client.written writes) := by
  obtain ⟨header, whole, log⟩ := written_frames empty spells
  have plan := walPlan_frames whole (groups.flatMap Group.all ++ tail)
  rw [← log, groupCommits_groups groups uncommitted] at plan
  have same := written_walData client writes
  have unlocked : (client.written writes).locks = 0 := by rw [same]; exact unlocked
  have wrote : (client.written writes).hadWrite = true := by rw [same]; exact wrote
  rw [maybeEndTx_sends target rng unlocked wrote, plan]
  rfl

/-- A rolled-back writer stored the headers of two frames and one page; the next one
stores a page and a header over them, and commits. -/
theorem frames_decode_rolled_back : ∃ (client : DbClient) (page : Bytes),
    DbClient.maybeEndTx ⟨true, .little⟩ ⟨5, 6⟩ client =
      sending (ended ⟨true, .little⟩ ⟨5, 6⟩) [⟨[⟨7, page⟩], 9⟩] client := by
  have whole (byte : UInt8) : (List.replicate PAGESIZE byte).length = PAGESIZE := List.length_replicate
  let last : Frame := ⟨⟨7, 9, 1, 2, 3, 4⟩, List.replicate PAGESIZE 1, whole 1⟩
  let left : Frame := ⟨⟨3, 0, 0, 0, 0, 0⟩, List.replicate PAGESIZE 2, whole 2⟩
  let writes : List WalWrite := [.frameHeader 0 last.header, .page 0 last.page last.whole, .page 1 left.page left.whole,
    .frameHeader 1 left.header, .frameHeader 0 left.header]
  let group : Group := ⟨[], last, by simp, by simp [Frame.commits, last]⟩
  have spells : Spells writes ([group].flatMap Group.all ++ [left]) := by
    intro k
    match k with
    | 0 => exact ⟨rfl, rfl⟩
    | 1 => exact ⟨rfl, rfl⟩
    | k + 2 => exact ⟨rfl, rfl⟩
  have uncommitted : ∀ frame ∈ [left], ¬ frame.commits := by
    intro frame member
    cases List.mem_singleton.mp member
    simp [Frame.commits, left]
  exact ⟨({ DbClient.fresh [] 0 with hadWrite := true } : DbClient).written writes, last.page,
    frames_decode ⟨true, .little⟩ ⟨5, 6⟩ List.length_replicate uncommitted spells rfl rfl⟩

/-! ### A log that ends inside a frame -/

/-- The part of a frame at the end of a log is passed over where it is empty, or its
header is whole and commits nothing. -/
def PassedOver (torn : Bytes) : Prop :=
  torn = [] ∨ ∃ header ∈ WalFrameHeader.fromBytes (torn.take WAL_FRAME_HEADER_SIZE), header.databaseSizeAfterCommit = 0

instance (torn : Bytes) : Decidable (PassedOver torn) := inferInstanceAs (Decidable (_ ∨ _))

/-- Any log is whole frames and a part of one. -/
theorem splits_frames (log : Bytes) : ∃ (frames : List Frame) (torn : Bytes),
    log = framesBytes frames ++ torn ∧ torn.length < FRAME_SIZE := by
  induction size : log.length using Nat.strong_induction_on generalizing log
  rename_i length ih
  by_cases short : log.length < FRAME_SIZE
  · exact ⟨[], log, rfl, short⟩
  · have positive := frame_size_pos
    obtain ⟨frames, torn, rest, small⟩ := ih (log.drop FRAME_SIZE).length (by rw [List.length_drop]; omega) _ rfl
    obtain ⟨header, first⟩ := WalFrameHeader.eq_asBytes (log.take WAL_FRAME_HEADER_SIZE) (by
      simp only [FRAME_SIZE, List.length_take] at short ⊢
      omega)
    have whole : ((log.drop WAL_FRAME_HEADER_SIZE).take PAGESIZE).length = PAGESIZE := by
      simp only [FRAME_SIZE, List.length_take, List.length_drop] at short ⊢
      omega
    refine ⟨⟨header, _, whole⟩ :: frames, torn, ?_, small⟩
    rw [framesBytes_cons, List.append_assoc, ← rest, Frame.asBytes, ← first, FRAME_SIZE, List.append_assoc,
      ← List.drop_drop, List.take_append_drop, List.take_append_drop]

private theorem frameHeader_inside {walData : Bytes} {idx : Nat} {header : WalFrameHeader}
    (read : DbClient.frameHeader walData idx = .ok header) : idx + WAL_FRAME_HEADER_SIZE ≤ walData.length := by
  by_contra beyond
  have failed : DbClient.slice walData idx (idx + WAL_FRAME_HEADER_SIZE) = .panic := if_neg (by omega)
  rw [DbClient.frameHeader, failed, Outcome.panic_bind] at read
  cases read

/-- Frames can be read out only where all of their pages are inside the log. -/
theorem extractFrames_inside {walData : Bytes} {positions : List Nat} {writes : List PageWrite}
    (read : DbClient.extractFrames walData positions = .ok writes) :
    ∀ idx ∈ positions, idx + WAL_FRAME_HEADER_SIZE + PAGESIZE ≤ walData.length := by
  induction positions generalizing writes with
  | nil => exact fun idx member => nomatch member
  | cons first rest ih =>
    rw [DbClient.extractFrames] at read
    rcases header : DbClient.frameHeader walData first with found | _ | _
    case err | panic => rw [header] at read; cases read
    rw [header, Outcome.ok_bind] at read
    rcases page : DbClient.slice walData (first + WAL_FRAME_HEADER_SIZE) (first + WAL_FRAME_HEADER_SIZE + PAGESIZE)
      with part | _ | _
    case err | panic => rw [page] at read; cases read
    rw [page, Outcome.ok_bind] at read
    rcases later : DbClient.extractFrames walData rest with others | _ | _
    case err | panic => rw [later] at read; cases read
    intro idx member
    rcases List.mem_cons.mp member with rfl | behind
    · unfold DbClient.slice at page
      split at page
      next inside => exact inside.2
      next => cases page
    · exact ih later idx behind

/-- The last turn of the walk, at a frame that is not whole. -/
theorem planCommits_torn (closed : Bytes) (waiting : List Frame) {torn : Bytes} (nonempty : torn ≠ [])
    (short : torn.length < FRAME_SIZE) :
    planCommits (closed ++ (framesBytes waiting ++ torn)) [closed.length + FRAME_SIZE * waiting.length] closed.length =
      ([], if PassedOver torn then .ok () else .panic) := by
  have sized : (closed ++ (framesBytes waiting ++ torn)).length =
      closed.length + FRAME_SIZE * waiting.length + torn.length := by
    simp only [List.length_append, framesBytes_length, Nat.add_assoc]
  by_cases cut : torn.length < WAL_FRAME_HEADER_SIZE
  · have failed : DbClient.frameHeader (closed ++ (framesBytes waiting ++ torn))
        (closed.length + FRAME_SIZE * waiting.length) = .panic := by
      rcases frameHeader_ends (closed ++ (framesBytes waiting ++ torn)) (closed.length + FRAME_SIZE * waiting.length)
        with ⟨header, read⟩ | failed
      · have inside := frameHeader_inside read
        omega
      · exact failed
    have missing : ¬ PassedOver torn := by
      rintro (empty | ⟨header, read, _⟩)
      · exact nonempty empty
      · rw [WalFrameHeader.fromBytes, if_neg (by rw [List.length_take]; omega)] at read
        cases read
    rw [planCommits, failed, if_neg missing]
  · obtain ⟨header, start⟩ := WalFrameHeader.eq_asBytes (torn.take WAL_FRAME_HEADER_SIZE) (by
      rw [List.length_take]
      omega)
    have read : DbClient.frameHeader (closed ++ (framesBytes waiting ++ torn))
        (closed.length + FRAME_SIZE * waiting.length) = .ok header := by
      have place : closed.length + FRAME_SIZE * waiting.length = (closed ++ framesBytes waiting).length := by
        rw [List.length_append, framesBytes_length]
      have inside : (closed ++ framesBytes waiting).length ≤ (closed ++ framesBytes waiting).length + WAL_FRAME_HEADER_SIZE ∧
          (closed ++ framesBytes waiting).length + WAL_FRAME_HEADER_SIZE ≤
            ((closed ++ framesBytes waiting) ++ torn).length := by
        simp only [List.length_append]
        omega
      rw [place, ← List.append_assoc, DbClient.frameHeader, DbClient.slice, if_pos inside, Outcome.ok_bind,
        List.drop_left, Nat.add_sub_cancel_left, start, WalFrameHeader.fromBytes_asBytes]
    have passed : PassedOver torn ↔ header.databaseSizeAfterCommit = 0 := by
      constructor
      · rintro (empty | ⟨found, parsed, zero⟩)
        · exact (nonempty empty).elim
        · rw [start, WalFrameHeader.fromBytes_asBytes] at parsed
          cases Option.mem_some_iff.mp parsed
          exact zero
      · intro zero
        exact .inr ⟨header, by rw [start, WalFrameHeader.fromBytes_asBytes]; rfl, zero⟩
    by_cases commits : header.databaseSizeAfterCommit = 0
    · rw [planCommits, read, if_pos (passed.mpr commits)]
      simp only [commits, ne_eq, not_true_eq_false, if_false, planCommits]
    · have failed : DbClient.extractWritesFromWal (closed ++ (framesBytes waiting ++ torn)) closed.length
          (closed.length + FRAME_SIZE * waiting.length + WAL_FRAME_HEADER_SIZE + PAGESIZE) = .panic := by
        have range := stepBy_frames closed.length (waiting.length + 1)
        have stop : closed.length + FRAME_SIZE * (waiting.length + 1) =
            closed.length + FRAME_SIZE * waiting.length + WAL_FRAME_HEADER_SIZE + PAGESIZE := by
          rw [Nat.mul_succ, Nat.add_assoc, Nat.add_assoc]
          rfl
        rw [stop] at range
        rcases extractFrames_ends (closed ++ (framesBytes waiting ++ torn))
          (List.range' closed.length (waiting.length + 1) FRAME_SIZE) with ⟨writes, read⟩ | failed
        · have inside := extractFrames_inside read (closed.length + FRAME_SIZE * waiting.length)
            (List.mem_range'.mpr ⟨waiting.length, Nat.lt_succ_self _, rfl⟩)
          simp only [FRAME_SIZE] at short
          omega
        · rw [DbClient.extractWritesFromWal, ← FRAME_SIZE, range]
          exact failed
      rw [planCommits, read, if_neg (mt passed.mp commits)]
      simp only [commits, ne_eq, not_false_eq_true, if_true, failed]

/-- What the walk finds in a log that may end inside a frame. -/
theorem walPlan_torn {header : Bytes} (whole : header.length = WAL_HEADER_SIZE) (torn : Bytes) (frames : List Frame)
    (short : torn.length < FRAME_SIZE) :
    walPlan (header ++ (framesBytes frames ++ torn)) =
      (groupCommits [] frames, if PassedOver torn then .ok () else .panic) := by
  by_cases empty : torn = []
  · subst empty
    rw [List.append_nil, walPlan_frames whole, if_pos (.inl rfl)]
  · have some_ : 0 < torn.length := List.length_pos_iff.mpr empty
    obtain ⟨closed, waiting, same, plan⟩ := planCommits_then header [] frames
    have plan := plan torn [WAL_HEADER_SIZE + FRAME_SIZE * frames.length]
    simp only [framesBytes_nil, List.nil_append, List.length_nil, Nat.mul_zero, Nat.add_zero, whole] at plan same
    have place : WAL_HEADER_SIZE + FRAME_SIZE * frames.length = closed.length + FRAME_SIZE * waiting.length := by
      have length := congrArg List.length same
      simpa only [List.length_append, framesBytes_length, whole] using length
    have turns : DbClient.stepBy WAL_HEADER_SIZE (WAL_HEADER_SIZE + (FRAME_SIZE * frames.length + torn.length)) FRAME_SIZE =
        List.range' WAL_HEADER_SIZE frames.length FRAME_SIZE ++ [WAL_HEADER_SIZE + FRAME_SIZE * frames.length] := by
      have count : (FRAME_SIZE * frames.length + torn.length + FRAME_SIZE - 1) / FRAME_SIZE = frames.length + 1 := by
        have rest : FRAME_SIZE * frames.length + torn.length + FRAME_SIZE - 1 =
            torn.length - 1 + FRAME_SIZE * (frames.length + 1) := by
          rw [Nat.mul_succ]
          omega
        rw [rest, Nat.add_mul_div_left _ _ frame_size_pos, Nat.div_eq_of_lt (by omega), Nat.zero_add]
      rw [DbClient.stepBy, Nat.add_sub_cancel_left, count, List.range'_concat]
    rw [walPlan, List.length_append, List.length_append, framesBytes_length, whole, turns, plan, place,
      planCommits_torn closed waiting empty short, List.append_nil]

private theorem sending_ending {first second : DbClient → Res Unit × DbClient} {txs : List Transaction}
    {client : DbClient}
    (same : sending first txs client = sending second txs client) : first client = second client := by
  induction txs with
  | nil => exact Program.done.inj same
  | cons tx rest ih =>
    simp only [sending, Program.call.injEq, heq_eq_eq, true_and] at same
    exact ih (congrFun same (.ok 0))

/-- The end of a transaction sends the whole frames and resets the log if and only if the
part of a frame behind them is passed over; on any other it panics. -/
theorem end_on_torn (target : Target) (rng : Rng) (client : DbClient) (sized : WAL_HEADER_SIZE ≤ client.walData.length)
    (unlocked : client.locks = 0) (wrote : client.hadWrite = true) :
    ∃ (header torn : Bytes) (frames : List Frame), header.length = WAL_HEADER_SIZE ∧ torn.length < FRAME_SIZE ∧
      client.walData = header ++ (framesBytes frames ++ torn) ∧
      (DbClient.maybeEndTx target rng client = sending (ended target rng) (groupCommits [] frames) client ↔
        PassedOver torn) := by
  obtain ⟨frames, torn, log, short⟩ := splits_frames (client.walData.drop WAL_HEADER_SIZE)
  have whole : (client.walData.take WAL_HEADER_SIZE).length = WAL_HEADER_SIZE := by
    rw [List.length_take]
    omega
  have split : client.walData = client.walData.take WAL_HEADER_SIZE ++ (framesBytes frames ++ torn) := by
    rw [← log, List.take_append_drop]
  refine ⟨_, torn, frames, whole, short, split, ?_⟩
  have plan := walPlan_torn whole torn frames short
  rw [← split] at plan
  rw [maybeEndTx_sends target rng unlocked wrote, plan]
  by_cases passed : PassedOver torn
  · simp only [passed, if_true, iff_true]
    rfl
  · simp only [passed, if_false, iff_false]
    intro same
    have same := sending_ending same
    have left : torn ≠ [] := mt .inl passed
    have cut : (ended target rng client).2.walData.length ≤ WAL_HEADER_SIZE := by
      have size := resetWal_size target rng client
      rcases reset : resetWal target rng client with ⟨_ | error | _, after⟩ <;> rw [reset] at size <;>
        simpa only [ended, reset] using size
    rw [← same] at cut
    have length := congrArg List.length split
    have some_ : 0 < torn.length := List.length_pos_iff.mpr left
    simp only [List.length_append] at length
    simp only [afterOk] at cut
    omega

private theorem Frame.asBytes_inj {first second : Frame} (same : first.asBytes = second.asBytes) : first = second := by
  obtain ⟨headers, pages⟩ := List.append_inj same
    (first.header.asBytes_length.trans second.header.asBytes_length.symm)
  have header : first.header = second.header := by
    have parsed := congrArg WalFrameHeader.fromBytes headers
    rwa [WalFrameHeader.fromBytes_asBytes, WalFrameHeader.fromBytes_asBytes, Option.some.injEq] at parsed
  cases first
  cases second
  simp_all

/-- There is one way to read whole frames in a log. -/
theorem framesBytes_inj {first second : List Frame} {torn torn' : Bytes} (short : torn.length < FRAME_SIZE)
    (short' : torn'.length < FRAME_SIZE) (same : framesBytes first ++ torn = framesBytes second ++ torn') :
    first = second ∧ torn = torn' := by
  induction first generalizing second with
  | nil =>
    cases second with
    | nil => exact ⟨rfl, same⟩
    | cons frame rest =>
      have length := congrArg List.length same
      simp only [framesBytes_nil, framesBytes_cons, List.nil_append, List.length_append, Frame.asBytes_length] at length
      omega
  | cons frame rest ih =>
    cases second with
    | nil =>
      have length := congrArg List.length same
      simp only [framesBytes_nil, framesBytes_cons, List.nil_append, List.length_append, Frame.asBytes_length] at length
      omega
    | cons frame' rest' =>
      rw [framesBytes_cons, framesBytes_cons, List.append_assoc, List.append_assoc] at same
      obtain ⟨front, back⟩ := List.append_inj same (frame.asBytes_length.trans frame'.asBytes_length.symm)
      obtain ⟨rest, torn⟩ := ih back
      exact ⟨by rw [Frame.asBytes_inj front, rest], torn⟩

/-- A log with a commit and the header of a frame whose page is cut off: the commit is sent. -/
theorem end_on_torn_page : ∃ client : DbClient,
    client.walData = List.replicate WAL_HEADER_SIZE 0 ++ (framesBytes (Commit.single 1 (by decide)).all ++
      (WalFrameHeader.asBytes ⟨2, 0, 0, 0, 0, 0⟩ ++ [7, 7, 7])) ∧
    DbClient.maybeEndTx ⟨true, .little⟩ ⟨5, 6⟩ client =
      sending (ended ⟨true, .little⟩ ⟨5, 6⟩) [(Commit.single 1 (by decide)).transaction] client := by
  refine ⟨{ DbClient.fresh makeInitialDb 0 with walData := _, hadWrite := true }, rfl, ?_⟩
  generalize Commit.single 1 _ = commit
  have none_ : ∀ frame ∈ ([] : List Frame), ¬ frame.commits := by simp
  have sent := groupCommits_commits [commit] none_
  obtain ⟨header, torn, frames, whole, short, log, ends⟩ := end_on_torn ⟨true, .little⟩ ⟨5, 6⟩
    { DbClient.fresh makeInitialDb 0 with
      walData := List.replicate WAL_HEADER_SIZE 0 ++ (framesBytes commit.all ++
        (WalFrameHeader.asBytes ⟨2, 0, 0, 0, 0, 0⟩ ++ [7, 7, 7])), hadWrite := true }
    (by simp) rfl rfl
  obtain ⟨_, log⟩ := List.append_inj log (by rw [whole, List.length_replicate])
  obtain ⟨rfl, rfl⟩ := framesBytes_inj (by decide) short log
  rw [ends.mpr (by decide)]
  simp only [List.flatMap_singleton, List.append_nil, List.map_singleton] at sent
  rw [sent]

/-- On a new client SQLite writes the header of a frame, then cuts the log off inside it. -/
theorem torn_log_panics : ∃ new client : DbClient,
    resetWal ⟨true, .little⟩ ⟨5, 6⟩ (DbClient.fresh [] 0) = (.ok (), new) ∧
    client = { WalFile.truncate 40 (WalFile.write 32 (WalFrameHeader.asBytes ⟨1, 1, 0, 0, 0, 0⟩) new) with
      hadWrite := true } ∧ WAL_HEADER_SIZE ≤ client.walData.length ∧
    DbClient.maybeEndTx ⟨true, .little⟩ ⟨0, 0⟩ client = .done (.panic, client) := by
  obtain ⟨header, index, cleans, _⟩ := @resetWal_cleans ⟨true, .little⟩ ⟨5, 6⟩ (DbClient.fresh [] 0)
    ⟨0, 0, 0, 0, 0, 0, 0, 0⟩ 5 (by decide) (by decide)
  have whole := header.asBytes_length
  refine ⟨_, _, cleans, rfl, ?_⟩
  have log : (WalFile.truncate 40 (WalFile.write 32 (WalFrameHeader.asBytes ⟨1, 1, 0, 0, 0, 0⟩)
      { DbClient.fresh [] 0 with walData := header.asBytes, walIndex := index })).walData =
        header.asBytes ++ (framesBytes [] ++ [0, 0, 0, 1, 0, 0, 0, 1]) := by
    have written : (WalFile.write 32 (WalFrameHeader.asBytes ⟨1, 1, 0, 0, 0, 0⟩)
        { DbClient.fresh [] 0 with walData := header.asBytes, walIndex := index }).walData =
          header.asBytes ++ WalFrameHeader.asBytes ⟨1, 1, 0, 0, 0, 0⟩ := by
      simp [WalFile.write, whole, WAL_HEADER_SIZE, WAL_FRAME_HEADER_SIZE]
    rw [WalFile.truncate, written, List.take_append, whole]
    simp only [List.take_of_length_le (Nat.le_trans (Nat.le_of_eq whole) (by decide : WAL_HEADER_SIZE ≤ 40))]
    rfl
  have plan := walPlan_torn whole [0, 0, 0, 1, 0, 0, 0, 1] [] (by decide)
  rw [if_neg (by decide)] at plan
  refine ⟨?_, ?_⟩
  · rw [log, List.length_append, whole]
    omega
  · rw [maybeEndTx_sends _ _ rfl rfl, log, plan]
    rfl

end Pos2.Repl
