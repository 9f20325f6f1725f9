import Pos2.Edits
import Pos2.Repl.Client

/-! Reading files through the VFS: the three kinds of file behind a handle, and
`x_read`, which hands SQLite the buffer whatever part of it the file has filled. -/

namespace Pos2.Repl
open Calls Edits

/-- A `SQLite3` extended error code -/
abbrev SqliteErr := Int32

def SQLITE_OK : SqliteErr := 0
def SQLITE_INTERNAL : SqliteErr := 2
def SQLITE_BUSY : SqliteErr := 5
def SQLITE_IOERR_READ : SqliteErr := 266

def ErrCtx.sqliteErr : ErrCtx → SqliteErr
  | .busy => SQLITE_BUSY
  | .bad => SQLITE_INTERNAL

/-- `ErrCtx::wrap` -/
def ErrCtx.wrap {α : Type} : Res α → Outcome SqliteErr α
  | .ok value => .ok value
  | .err error => .err error.sqliteErr
  | .panic => .panic

/-- The read that memory files and the log share: it copies what there is, and
returns how much that was. -/
def readInto (held : Bytes) (offset : Nat) (data : Bytes) : Res Nat × Bytes :=
  let start := min offset held.length
  let stop := min (offset + data.length) held.length
  let len := stop - start
  (.ok (stop - start), (held.drop start).take len ++ data.drop len)

structure MemFile where
  data : Bytes

namespace MemFile

def truncate (size : Nat) (file : MemFile) : Res Unit × MemFile :=
  (.ok (), { file with data := file.data.take size })

def write (offset : Nat) (data : Bytes) (file : MemFile) : Res Nat × MemFile :=
  let held :=
    if offset + data.length > file.data.length then
      file.data ++ List.replicate (offset + data.length - file.data.length) 0
    else file.data
  (.ok data.length, { file with data := held.take offset ++ data ++ held.drop (offset + data.length) })

def read (offset : Nat) (data : Bytes) (file : MemFile) : Res Nat × Bytes := readInto file.data offset data

end MemFile

def WalFile.read (offset : Nat) (data : Bytes) (client : DbClient) : Res Nat × Bytes :=
  readInto client.walData offset data

namespace DbFile

def ZEROES_PAGE : Bytes := List.replicate 4096 0

/-- A page of the database as a slice of it, which panics where it ends inside the page. -/
def pageSource (offset : Nat) (client : DbClient) : Res Bytes :=
  if offset ≥ client.dbData.length then .ok ZEROES_PAGE
  else DbClient.slice client.dbData offset (offset + PAGESIZE)

def read (offset : Nat) (data : Bytes) (client : DbClient) : Res Nat × Bytes :=
  let pageIdx := offset / PAGESIZE + 1
  let localOffset := offset % PAGESIZE
  if localOffset + data.length > PAGESIZE then (.panic, data) else
  if localOffset ≠ 0 then (.panic, data) else
  match pageSource ((pageIdx - 1) * PAGESIZE) client with
  | .ok source =>
    let source := if source.length > data.length then source.take data.length else source
    -- `copy_from_slice` wants slices of one length
    if source.length = data.length then (.ok data.length, source) else (.panic, data)
  | .err error => (.err error, data)
  | .panic => (.panic, data)

def truncate (_size : Nat) (client : DbClient) : Res Unit × DbClient := (.err .bad, client)

def write (_offset : Nat) (_data : Bytes) (client : DbClient) : Res Nat × DbClient := (.err .bad, client)

end DbFile

/-- The log and the database are views of one client. -/
inductive FileHandle where
  | memFile (file : MemFile)
  | dbFile (client : DbClient)
  | walFile (client : DbClient)

namespace FileHandle

def truncate (size : Nat) : FileHandle → FileHandle
  | .memFile file => .memFile (file.truncate size).2
  | .dbFile client => .dbFile (DbFile.truncate size client).2
  | .walFile client => .walFile (WalFile.truncate size client)

def write (offset : Nat) (data : Bytes) : FileHandle → FileHandle
  | .memFile file => .memFile (file.write offset data).2
  | .dbFile client => .dbFile (DbFile.write offset data client).2
  | .walFile client => .walFile (WalFile.write offset data client)

def read (offset : Nat) (data : Bytes) : FileHandle → Res Nat × Bytes
  | .memFile file => file.read offset data
  | .dbFile client => DbFile.read offset data client
  | .walFile client => WalFile.read offset data client

/-- What the file holds. -/
def held : FileHandle → Bytes
  | .memFile file => file.data
  | .dbFile client => client.dbData
  | .walFile client => client.walData

def edit : Edit UInt8 → FileHandle → FileHandle
  | .write offset data, file => file.write offset data
  | .truncate size, file => file.truncate size

def edited (file : FileHandle) (history : History UInt8) : FileHandle := history.foldr edit file

/-- The edits of a history that the file takes: the database refuses them all. -/
def taken : FileHandle → History UInt8 → History UInt8
  | .dbFile _, _ => []
  | _, history => history

end FileHandle

/-- `ReplVfs::read` -/
def vfsRead (file : FileHandle) (offset : Nat) (data : Bytes) : Outcome SqliteErr Nat × Bytes :=
  let (answer, data) := file.read offset data
  (ErrCtx.wrap answer, data)

/-- The code that SQLite sees, or none where the callback panics. -/
def fallible : Outcome SqliteErr SqliteErr → Option SqliteErr
  | .ok code => some code
  | .err code => some code
  | .panic => none

/-- `usize::try_from` -/
def toUsize (n : Int) : Option Nat := if 0 ≤ n then some n.toNat else none

/-- The memory at `buf` comes back as the read leaves it. -/
def xRead (file : FileHandle) (buf : Bytes) (iAmt : Int32) (iOfst : Int64) : Option SqliteErr × Bytes :=
  match toUsize iAmt.toInt with
  | none => (fallible (.err SQLITE_IOERR_READ), buf)
  | some bufLen =>
    match toUsize iOfst.toInt with
    | none => (fallible (.err SQLITE_IOERR_READ), buf)
    | some offset =>
      let (answer, data) := vfsRead file offset (buf.take bufLen)
      (fallible (answer.bind fun _ => .ok SQLITE_OK), data ++ buf.drop bufLen)

private theorem readInto_eq (held : Bytes) (offset : Nat) (data : Bytes) :
    ∃ len, readInto held offset data = (.ok len, copyInto data held offset) := by
  have part : (held.drop (min offset held.length)).take
      (min (offset + data.length) held.length - min offset held.length) =
        (held.drop offset).take data.length := by
    by_cases inside : offset ≤ held.length
    · rw [Nat.min_eq_left inside, List.take_eq_take_iff, List.length_drop]
      omega
    · rw [List.drop_eq_nil_of_le (by omega), List.drop_eq_nil_of_le (by omega), List.take_nil, List.take_nil]
  have length : ((held.drop offset).take data.length).length =
      min (offset + data.length) held.length - min offset held.length := by
    rw [List.length_take, List.length_drop]
    omega
  refine ⟨_, Prod.ext rfl ?_⟩
  simp only [readInto, part, copyInto, length]

theorem resize_eq (held : Bytes) (size : Nat) :
    (if size > held.length then held ++ List.replicate (size - held.length) 0 else held) =
      held ++ List.replicate (size - held.length) (0 : UInt8) := by
  split
  · rfl
  · have none_ : size - held.length = 0 := by omega
    rw [none_, List.replicate_zero, List.append_nil]

namespace FileHandle

private theorem edited_memFile (file : MemFile) (history : History UInt8) :
    (memFile file).edited history = memFile ⟨replay 0 file.data history⟩ := by
  induction history with
  | nil => rfl
  | cons change earlier ih =>
    change edit change ((memFile file).edited earlier) = _
    rw [ih]
    cases change with
    | write offset data =>
      simp only [edit, write, MemFile.write, resize_eq]
      rfl
    | truncate size => rfl

private theorem edited_walFile (client : DbClient) (history : History UInt8) :
    (walFile client).edited history = walFile { client with walData := replay 0 client.walData history } := by
  induction history with
  | nil => rfl
  | cons change earlier ih =>
    change edit change ((walFile client).edited earlier) = _
    rw [ih]
    cases change with
    | write offset data =>
      simp only [edit, write, WalFile.write, resize_eq]
      rfl
    | truncate size => rfl

private theorem edited_dbFile (client : DbClient) (history : History UInt8) :
    (dbFile client).edited history = dbFile client := by
  induction history with
  | nil => rfl
  | cons change earlier ih =>
    change edit change ((dbFile client).edited earlier) = _
    rw [ih]
    cases change <;> rfl

/-- The edits leave in the file what the history says of those it takes. -/
theorem edited_held (file : FileHandle) (history : History UInt8) :
    (file.edited history).held = replay 0 file.held (file.taken history) := by
  cases file with
  | memFile file => rw [edited_memFile]; rfl
  | walFile client => rw [edited_walFile]; rfl
  | dbFile client => rw [edited_dbFile]; rfl

end FileHandle

namespace DbFile
variable {offset : Nat} {data : Bytes} {client : DbClient}

private theorem pageSource_ok {source : Bytes} (found : pageSource offset client = .ok source) :
    source.length = PAGESIZE ∧ ∀ i < PAGESIZE, source.getD i 0 = client.dbData.getD (offset + i) 0 := by
  unfold pageSource at found
  split at found
  next outside =>
    cases found
    refine ⟨List.length_replicate, fun i _ => ?_⟩
    rw [ZEROES_PAGE, getD_blanks, getD_outside 0 (by omega)]
  next inside =>
    unfold DbClient.slice at found
    split at found
    · rename_i fits
      cases found
      refine ⟨by rw [List.length_take, List.length_drop]; omega, fun i small => ?_⟩
      rw [getD_take, if_pos (by omega), List.getD_eq_getElem?_getD, List.getElem?_drop,
        ← List.getD_eq_getElem?_getD]
    · cases found

/-- Where it does not panic, a read of the database fills the whole buffer. -/
theorem read_cases : DbFile.read offset data client = (.panic, data) ∨
    ∃ source, DbFile.read offset data client = (.ok data.length, source) ∧ source.length = data.length ∧
      ∀ i < data.length, source.getD i 0 = client.dbData.getD (offset + i) 0 := by
  unfold DbFile.read
  dsimp only
  split
  · exact .inl rfl
  split
  · exact .inl rfl
  rename_i within aligned
  have start : (offset / PAGESIZE + 1 - 1) * PAGESIZE = offset := by
    rw [Nat.add_sub_cancel]
    exact Nat.div_mul_cancel (Nat.dvd_of_mod_eq_zero (not_not.mp aligned))
  rw [start]
  cases found : pageSource offset client with
  | err error =>
    unfold pageSource DbClient.slice at found
    split at found
    · cases found
    · split at found <;> cases found
  | panic => exact .inl rfl
  | ok source =>
    obtain ⟨full, bytes⟩ := pageSource_ok found
    have cut : (if source.length > data.length then source.take data.length else source) =
        source.take data.length := by
      split
      · rfl
      · rw [List.take_of_length_le (by omega)]
    have length : (source.take data.length).length = data.length := by
      rw [List.length_take]
      omega
    simp only [cut, length]
    refine .inr ⟨_, rfl, length, fun i small => ?_⟩
    rw [getD_take, if_pos small, bytes i (by omega)]

/-- A read of a page, or of its start, does not panic. -/
theorem read_page (whole : PAGESIZE ∣ client.dbData.length) (aligned : PAGESIZE ∣ offset)
    (part : data.length ≤ PAGESIZE) : (DbFile.read offset data client).1 = .ok data.length := by
  have zero : offset % PAGESIZE = 0 := Nat.mod_eq_zero_of_dvd aligned
  have start : (offset / PAGESIZE + 1 - 1) * PAGESIZE = offset := by
    rw [Nat.add_sub_cancel]
    exact Nat.div_mul_cancel aligned
  have found : ∃ source, pageSource offset client = .ok source := by
    unfold pageSource DbClient.slice
    split
    · exact ⟨_, rfl⟩
    · rename_i inside
      have fits := page_room aligned whole (Nat.not_le.mp inside)
      exact ⟨_, if_pos ⟨by omega, fits⟩⟩
  obtain ⟨source, found⟩ := found
  have full := (pageSource_ok found).1
  unfold DbFile.read
  dsimp only
  rw [if_neg (by omega), if_neg (not_not.mpr zero), start, found]
  dsimp only
  have length : (if source.length > data.length then source.take data.length else source).length = data.length := by
    split
    · rw [List.length_take]
      omega
    · omega
  rw [if_pos length]

end DbFile

/-- The buffer holds the file from `offset` on, and zeroes from its end on. -/
def Fills (file : FileHandle) (history : History UInt8) (offset : Nat) (data : Bytes) : Prop :=
  ∀ i < data.length, data.getD i 0 =
    if offset + i < size file.held.length (file.taken history)
    then item 0 file.held (offset + i) (file.taken history) else 0

/-- If the read is reported as done, it has filled the buffer. -/
def ReadFills (file : FileHandle) (history : History UInt8) (buf : Bytes) (iAmt : Int32) (iOfst : Int64) : Prop :=
  ∀ after, xRead (file.edited history) buf iAmt iOfst = (some SQLITE_OK, after) →
    after.length = buf.length ∧ Fills file history iOfst.toInt.toNat (after.take iAmt.toInt.toNat)

/-- The buffer is zero already at the positions behind the end of the file. -/
def Padded (file : FileHandle) (history : History UInt8) (buf : Bytes) (iAmt : Int32) (iOfst : Int64) : Prop :=
  ∀ i < iAmt.toInt.toNat, size file.held.length (file.taken history) ≤ iOfst.toInt.toNat + i → buf.getD i 0 = 0

private theorem fallible_ok {answer : Res Nat}
    (reported : fallible ((ErrCtx.wrap answer).bind fun _ => .ok SQLITE_OK) = some SQLITE_OK) :
    ∃ n, answer = .ok n := by
  cases answer with
  | ok n => exact ⟨n, rfl⟩
  | err error => cases error <;> exact absurd reported (by decide)
  | panic => cases reported

section
variable {file : FileHandle} {history : History UInt8} {buf : Bytes} {iAmt : Int32} {iOfst : Int64}

/-- A read that is reported as done is one of the file, from the offset on. -/
theorem xRead_reported {after : Bytes}
    (reported : xRead (file.edited history) buf iAmt iOfst = (some SQLITE_OK, after)) :
    0 ≤ iOfst.toInt ∧ ∃ n data, (file.edited history).read iOfst.toInt.toNat (buf.take iAmt.toInt.toNat) = (.ok n, data) ∧
      after = data ++ buf.drop iAmt.toInt.toNat := by
  have refused : fallible (.err SQLITE_IOERR_READ) ≠ some SQLITE_OK := by decide
  unfold xRead toUsize at reported
  split at reported
  · exact (refused (congrArg Prod.fst reported)).elim
  rename_i bufLen amount
  split at reported
  · exact (refused (congrArg Prod.fst reported)).elim
  rename_i offset position
  obtain ⟨_, same⟩ := Option.ite_none_right_eq_some.mp amount
  obtain ⟨start, same'⟩ := Option.ite_none_right_eq_some.mp position
  cases same
  cases same'
  injection reported with code memory
  obtain ⟨n, answered⟩ := fallible_ok code
  exact ⟨start, n, _, Prod.ext answered rfl, memory.symm⟩

private theorem xRead_done (room : 0 ≤ iAmt.toInt) (start : 0 ≤ iOfst.toInt) {n : Nat} {data : Bytes}
    (answered : (file.edited history).read iOfst.toInt.toNat (buf.take iAmt.toInt.toNat) = (.ok n, data)) :
    xRead (file.edited history) buf iAmt iOfst = (some SQLITE_OK, data ++ buf.drop iAmt.toInt.toNat) := by
  simp only [xRead, toUsize, if_pos room, if_pos start, vfsRead, answered]
  rfl

/-- The file copies what it has into the buffer, and leaves the rest of it alone. -/
def FileHandle.Copies (file : FileHandle) : Prop :=
  ∀ offset data, ∃ len, file.read offset data = (.ok len, copyInto data file.held offset)

private theorem fills_copy (offset : Nat) (data : Bytes) :
    Fills file history offset (copyInto data (file.edited history).held offset) ↔
      ∀ i < data.length, size file.held.length (file.taken history) ≤ offset + i → data.getD i 0 = 0 := by
  simp only [Fills, copyInto_length]
  refine forall₂_congr fun i small => ?_
  rw [copyInto_getD 0 _ _ _ _ small, FileHandle.edited_held, replay_length, replay_getD]
  by_cases inside : offset + i < size file.held.length (file.taken history)
  · simp [if_pos inside, Nat.not_le.mpr inside]
  · simp [if_neg inside, Nat.not_lt.mp inside]

theorem FileHandle.Copies.fills (copies : (file.edited history).Copies) (room : iAmt.toInt ≤ buf.length) :
    ReadFills file history buf iAmt iOfst ↔ iOfst.toInt < 0 ∨ Padded file history buf iAmt iOfst := by
  obtain ⟨len, answered⟩ := copies iOfst.toInt.toNat (buf.take iAmt.toInt.toNat)
  have length : (buf.take iAmt.toInt.toNat).length = iAmt.toInt.toNat := by
    rw [List.length_take]
    omega
  have padded : Fills file history iOfst.toInt.toNat
      (copyInto (buf.take iAmt.toInt.toNat) (file.edited history).held iOfst.toInt.toNat) ↔
        Padded file history buf iAmt iOfst := by
    rw [fills_copy, length, Padded]
    refine forall₂_congr fun i small => ?_
    rw [getD_take, if_pos small]
  have copied := (copyInto_length (buf.take iAmt.toInt.toNat) (file.edited history).held iOfst.toInt.toNat).trans length
  rw [← padded]
  constructor
  · intro filled
    by_cases start : 0 ≤ iOfst.toInt
    · right
      by_cases positive : 0 ≤ iAmt.toInt
      · have done := (filled _ (xRead_done positive start answered)).2
        rwa [List.take_left' copied] at done
      · intro i small
        omega
    · left
      omega
  · intro condition after reported
    obtain ⟨start, n, data, answered', rfl⟩ := xRead_reported reported
    rw [answered] at answered'
    injection answered' with _ same
    subst same
    refine ⟨?_, ?_⟩
    · rw [List.length_append, copied, List.length_drop]
      omega
    · rw [List.take_left' copied]
      exact condition.resolve_left (by omega)

/-- A read leaves a whole buffer of the file behind if and only if it is one of the
database, or what it does not fill is zero already: the count it returns is dropped. -/
theorem xRead_fills (room : iAmt.toInt ≤ buf.length) :
    ReadFills file history buf iAmt iOfst ↔
      (∃ client, file = .dbFile client) ∨ iOfst.toInt < 0 ∨ Padded file history buf iAmt iOfst := by
  cases file with
  | memFile file =>
    have copies : ((FileHandle.memFile file).edited history).Copies := by
      rw [FileHandle.edited_memFile]
      exact fun offset data => readInto_eq _ offset data
    rw [copies.fills room]
    simp
  | walFile client =>
    have copies : ((FileHandle.walFile client).edited history).Copies := by
      rw [FileHandle.edited_walFile]
      exact fun offset data => readInto_eq _ offset data
    rw [copies.fills room]
    simp
  | dbFile client =>
    refine iff_of_true ?_ (.inl ⟨client, rfl⟩)
    intro after reported
    obtain ⟨start, n, data, answered, rfl⟩ := xRead_reported reported
    rw [FileHandle.edited_dbFile] at answered
    obtain panicked | ⟨source, answered', length, bytes⟩ :=
      @DbFile.read_cases iOfst.toInt.toNat (buf.take iAmt.toInt.toNat) client
    · exact absurd (answered.symm.trans panicked) (by simp)
    · injection answered.symm.trans answered' with _ same
      subst same
      rw [List.length_take] at length
      refine ⟨?_, ?_⟩
      · rw [List.length_append, List.length_drop]
        omega
      · rw [List.take_left' (by omega)]
        intro i small
        rw [bytes i (by rw [List.length_take]; omega)]
        simp only [FileHandle.held, FileHandle.taken, size, item]
        split
        · rfl
        · exact getD_outside 0 (by omega)

end

/-- Reading past the end of a file of two bytes into a fresh buffer. -/
theorem xRead_fills_fresh : ReadFills (.memFile ⟨[]⟩) [.write 0 [1, 2]] [0, 0, 0, 0] 4 0 := by
  apply (xRead_fills (by decide)).mpr
  right; right
  intro i small _
  have cases_ : i = 0 ∨ i = 1 ∨ i = 2 ∨ i = 3 := by
    have amount : (4 : Int32).toInt.toNat = 4 := by decide
    omega
  rcases cases_ with rfl | rfl | rfl | rfl <;> rfl

/-- Past the end of the file the buffer keeps what was in it. -/
theorem leftover_bytes : ¬ ReadFills (.memFile ⟨[]⟩) [.write 0 [1, 2]] [9, 9, 9, 9] 4 0 := by
  have reported : xRead ((FileHandle.memFile ⟨[]⟩).edited [.write 0 [1, 2]]) [9, 9, 9, 9] 4 0 =
      (some SQLITE_OK, [1, 2, 9, 9]) := by decide
  intro filled
  have zero := (filled _ reported).2 2 (by decide)
  exact absurd zero (by decide)

end Pos2.Repl
