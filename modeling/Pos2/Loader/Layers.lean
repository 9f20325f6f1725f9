import Pos2.Calls.Cut
import Pos2.Loader.Answers
import Pos2.Loader.Contents

/-! What `download_layer` leaves under the name of a layer, when its writes take
what they like of each chunk, what they take gets into the file later or is lost,
and it may be cut off between any two calls. -/

namespace Pos2.Loader
open Calls

/-- One write: what it was given, how much of that it took, and what is in the file by now. -/
structure Write where
  chunk : Text
  taken : Nat
  landed : Text

/-- A download as it goes: the blob it has opened, the stream it has got, its writes,
and whether the blob has its name. -/
structure Transfer where
  machine : Machine
  blob : Option Path
  stream : Option (List (Except String Text))
  written : List Write
  renamed : Bool

namespace Transfer

def start (machine : Machine) : Transfer := ⟨machine, none, none, [], false⟩

def next (transfer : Transfer) (landed : Text) : (request : Request) → Except String request.Value → Machine → Transfer
  | .pullBlobStream _ _, .ok stream, machine => { transfer with machine, stream := some stream }
  | .create path, .ok (), machine => { transfer with machine, blob := some path }
  | .write _ chunk, .ok taken, machine =>
    { transfer with machine, written := transfer.written ++ [⟨chunk, taken, landed⟩] }
  | .rename _ _, .ok (), machine => { transfer with machine, renamed := true }
  | _, _, machine => { transfer with machine }

/-- Between two calls some of the last write gets into the blob. The end of it may be lost. -/
def Lands (before after : Transfer) : Prop :=
  after = before ∨ ∃ path content coming more rest earlier last, before.blob = some path ∧
    before.machine.fs path = some (.filling content coming) ∧ more ++ rest <+: coming ∧
    before.written = earlier ++ [last] ∧ after = { before with
      machine := { before.machine with fs := before.machine.fs.put path (.filled (content ++ more) rest) }
      written := earlier ++ [{ last with landed := last.landed ++ more }] }

/-- Every chunk is in the file, whole. -/
def Landed (transfer : Transfer) : Prop := ∀ write ∈ transfer.written, write.landed = write.chunk

end Transfer

/-- A uuid is a new one. -/
def NewUuid (descriptor : Text) (fs : Fs) : (request : Request) → Except String request.Value → Prop
  | .uuid, .ok uuid => tmpName uuid ≠ descriptor ∧ fs (blobsDir ++ [tmpName uuid]) = none
  | _, _ => True

/-- What of a write is in the file when it returns. -/
def Landing (landed : Text) (before after : Fs) : (request : Request) → Except String request.Value → Prop
  | .write path chunk, .ok taken =>
    ∃ coming, landed ++ coming = chunk.take taken ∧ after = before.write path landed coming
  | _, _ => True

def transferring (descriptor : Text) : Handler LoaderCalls Transfer := fun request before reply after =>
  ∃ arrived landed, before.Lands arrived ∧ serves request arrived.machine reply after.machine ∧
    NewUuid descriptor arrived.machine.fs request reply ∧ Landing landed arrived.machine.fs after.machine.fs request reply ∧
    after = arrived.next landed request reply after.machine

/-- The file under the name of the layer holds all of the stream. -/
def Whole (descriptor : Text) (transfer : Transfer) : Prop :=
  ∃ chunks : List Text, transfer.stream = some (chunks.map .ok) ∧
    transfer.machine.fs (blobsDir ++ [descriptor]) = some (.file chunks.flatten)

/-- The name is as it was before, or stands for the whole layer. -/
def StoredWhole (machine : Machine) (descriptor : Text) (transfer : Transfer) : Prop :=
  if transfer.renamed then Whole descriptor transfer
  else transfer.machine.fs (blobsDir ++ [descriptor]) = machine.fs (blobsDir ++ [descriptor])

/-! ### Writes that come late -/

/-- What is in a file, and what is on its way to it, are parts of what was written. -/
structure Tally (written : List Write) (content coming : Text) : Prop where
  content : content = (written.map Write.landed).flatten
  parts : ∀ write ∈ written, write.landed <+: write.chunk
  last : coming = [] ∨ ∃ earlier last, written = earlier ++ [last] ∧ last.landed ++ coming <+: last.chunk

section
variable {written : List Write} {content coming : Text}

private theorem landed_length_le (parts : ∀ write ∈ written, write.landed <+: write.chunk) :
    (written.map Write.landed).flatten.length ≤ (written.map Write.chunk).flatten.length := by
  induction written with
  | nil => exact Nat.le_refl _
  | cons write rest ih =>
    have first := (parts write (.head _)).length_le
    have others := ih fun other inside => parts other (.tail _ inside)
    simp only [List.map_cons, List.flatten_cons, List.length_append]
    omega

/-- Nothing is missing exactly when every write is whole. -/
theorem landed_eq_iff (parts : ∀ write ∈ written, write.landed <+: write.chunk) :
    (written.map Write.landed).flatten = (written.map Write.chunk).flatten ↔
      ∀ write ∈ written, write.landed = write.chunk := by
  induction written with
  | nil => simp
  | cons write rest ih =>
    have part := parts write (.head _)
    have others : ∀ other ∈ rest, other.landed <+: other.chunk := fun other inside => parts other (.tail _ inside)
    simp only [List.map_cons, List.flatten_cons, List.forall_mem_cons]
    constructor
    · intro same
      have lengths := congrArg List.length same
      have shorter := landed_length_le others
      have bound := part.length_le
      simp only [List.length_append] at lengths
      have whole : write.landed = write.chunk := part.eq_of_length (by omega)
      rw [whole] at same
      exact ⟨whole, (ih others).mp (List.append_cancel_left same)⟩
    · rintro ⟨whole, left⟩
      rw [whole, (ih others).mpr left]

theorem Tally.nil : Tally [] [] [] := ⟨rfl, nofun, .inl rfl⟩

theorem Tally.write {chunk landed later : Text} {taken : Nat} (tally : Tally written content [])
    (whole : landed ++ later = chunk.take taken) :
    Tally (written ++ [⟨chunk, taken, landed⟩]) (content ++ landed) later := by
  have below : landed ++ later <+: chunk := whole ▸ List.take_prefix _ _
  refine ⟨by simp [tally.content], ?_, .inr ⟨written, ⟨chunk, taken, landed⟩, rfl, below⟩⟩
  intro write inside
  rcases List.mem_append.mp inside with old | new
  · exact tally.parts write old
  · rw [List.mem_singleton.mp new]
    exact (List.prefix_append _ _).trans below

theorem Tally.lands {earlier : List Write} {last : Write} {more rest : Text}
    (tally : Tally (earlier ++ [last]) content coming) (part : more ++ rest <+: coming) :
    Tally (earlier ++ [{ last with landed := last.landed ++ more }]) (content ++ more) rest := by
  obtain ⟨others, same⟩ | ⟨others, final, split, below⟩ := tally.last
  · have nothing := List.prefix_nil.mp part
    obtain ⟨rfl, rfl⟩ := List.append_eq_nil_iff.mp nothing
    simp only [List.append_nil]
    exact ⟨tally.content, tally.parts, .inl rfl⟩
  obtain ⟨rfl, same⟩ := List.append_inj' split rfl
  cases same
  have reaches : last.landed ++ more ++ rest <+: last.chunk := by
    rw [List.append_assoc]
    exact ((List.prefix_append_right_inj _).mpr part).trans below
  refine ⟨by simp [tally.content], ?_, .inr ⟨earlier, _, rfl, reaches⟩⟩
  intro write inside
  rcases List.mem_append.mp inside with old | new
  · exact tally.parts write (List.mem_append_left _ old)
  · rw [List.mem_singleton.mp new]
    exact (List.prefix_append _ _).trans reaches

/-- The file is whole exactly when every write is in it. -/
theorem Tally.whole_iff (tally : Tally written content coming) :
    Node.filled content coming = .file (written.map Write.chunk).flatten ↔ ∀ write ∈ written, write.landed = write.chunk := by
  rw [← landed_eq_iff tally.parts, ← tally.content]
  constructor
  · intro whole
    cases coming with
    | nil => exact Node.file.inj whole
    | cons first rest => cases whole
  · intro whole
    have nothing : coming = [] := by
      obtain same | ⟨earlier, last, split, below⟩ := tally.last
      · exact same
      · rw [tally.content, landed_eq_iff tally.parts] at whole
        have lengths := below.length_le
        rw [whole last (by simp [split]), List.length_append] at lengths
        exact List.eq_nil_of_length_eq_zero (by omega)
    rw [nothing, whole]
    rfl

end

/-! ### The download -/

/-- The blob has no new name yet, or it has got its name with all that is in it of a whole stream. -/
def Accounted (machine : Machine) (descriptor : Text) (transfer : Transfer) : Prop :=
  transfer.renamed = false ∧ transfer.machine.fs (blobsDir ++ [descriptor]) = machine.fs (blobsDir ++ [descriptor]) ∨
    transfer.renamed = true ∧ transfer.stream = some ((transfer.written.map Write.chunk).map .ok) ∧
      ∃ content coming, Tally transfer.written content coming ∧
        transfer.machine.fs (blobsDir ++ [descriptor]) = some (.filled content coming)

/-- Nothing has been opened. -/
structure Early (machine : Machine) (descriptor : Text) (transfer : Transfer) : Prop where
  renamed : transfer.renamed = false
  blob : transfer.blob = none
  written : transfer.written = []
  stream : transfer.stream = none
  final : transfer.machine.fs (blobsDir ++ [descriptor]) = machine.fs (blobsDir ++ [descriptor])

private theorem Early.accounted {machine : Machine} {descriptor : Text} {transfer : Transfer}
    (early : Early machine descriptor transfer) : Accounted machine descriptor transfer :=
  .inl ⟨early.renamed, early.final⟩

section
variable (machine : Machine) (descriptor : Text) {α β : Type}

abbrev Transfers (post : α → Transfer → Prop) (function : Loads α) (transfer : Transfer) : Prop :=
  Fallible.Alone (transferring descriptor) (fun _ after => Accounted machine descriptor after) (fun _ => True) post function
    transfer

end

section
variable {machine : Machine} {descriptor : Text} {before after : Transfer} {α : Type}

theorem Transfers.ask {request : Request} {post : request.Value → Transfer → Prop}
    (answered : ∀ reply after, transferring descriptor request before reply after →
      Accounted machine descriptor after ∧ ∀ value, reply = .ok value → post value after) :
    Transfers machine descriptor post (ask request) before := by
  intro reply after served
  obtain ⟨accounted, holds⟩ := answered reply after served
  refine ⟨accounted, ?_⟩
  cases reply with
  | ok value => exact holds value rfl
  | error error => exact trivial

/-- Nothing is on its way as long as nothing has been opened. -/
theorem transferring_unopened {request : Request} {reply : Except String request.Value} (unopened : before.blob = none)
    (served : transferring descriptor request before reply after) : ∃ landed,
    serves request before.machine reply after.machine ∧ NewUuid descriptor before.machine.fs request reply ∧
      after = before.next landed request reply after.machine := by
  obtain ⟨arrived, landed, lands, served, new, _, same⟩ := served
  obtain rfl | ⟨path, _, _, _, _, _, _, opened, _⟩ := lands
  · exact ⟨landed, served, new, same⟩
  · rw [unopened] at opened
    cases opened

/-- A call that is no part of the transfer itself. -/
theorem Early.aside {request : Request} {reply : Except String request.Value} (early : Early machine descriptor before)
    (plain : request.Plain before.machine.fs) (apart : ¬ request.Reaches (blobsDir ++ [descriptor]))
    (unnoted : ∀ landed, before.next landed request reply after.machine = { before with machine := after.machine })
    (served : transferring descriptor request before reply after) : Early machine descriptor after := by
  obtain ⟨landed, served, _, same⟩ := transferring_unopened early.blob served
  have final := serves_elsewhere plain served apart
  rw [same, unnoted]
  exact ⟨early.renamed, early.blob, early.written, early.stream, final.trans early.final⟩

/-- The directories above are made. -/
theorem createDirAll_transfers (early : Early machine descriptor before) :
    Transfers machine descriptor (fun _ after => Early machine descriptor after) (createDirAll blobsDir) before := by
  let above (rest : List Path) (state : Transfer) : Prop :=
    (∀ dir ∈ rest, dir <+: blobsDir) ∧ Early machine descriptor state
  have made : Transfers machine descriptor (fun _ after => above [] after) (createDirAll blobsDir) before := by
    have starts : above blobsDir.inits.tail before :=
      ⟨fun dir member => (List.mem_inits dir blobsDir).mp (List.mem_of_mem_tail member), early⟩
    refine Fallible.Alone.forM above ?_ starts
    intro dir rest before ⟨prefixes, early⟩
    have elsewhere : ¬ Request.Reaches (.createDir dir) (blobsDir ++ [descriptor]) := by
      rintro rfl
      exact entry_off_trunk blobsDir descriptor (prefixes _ (.head _))
    have plain : Request.Plain (.createDir dir) before.machine.fs := trivial
    apply Transfers.ask
    intro reply after served
    have kept := early.aside plain elsewhere (fun _ => rfl) served
    exact ⟨kept.accounted, fun _ _ => ⟨fun other inside => prefixes other (.tail _ inside), kept⟩⟩
  exact made.mono (fun _ lost => lost) fun _ _ holds => holds.2

private theorem existsOk_transfers (early : Early machine descriptor before) :
    Transfers machine descriptor (fun _ after => Early machine descriptor after)
      (existsOk (blobsDir ++ [descriptor])) before := by
  have looks : Fallible.Alone (transferring descriptor) (fun _ after => Accounted machine descriptor after)
      (Early machine descriptor) (fun _ after => Early machine descriptor after)
      (ask (.exists_ (blobsDir ++ [descriptor]))) before := by
    intro reply after served
    have plain : Request.Plain (.exists_ (blobsDir ++ [descriptor])) before.machine.fs := trivial
    have kept := early.aside plain not_false (fun _ => rfl) served
    refine ⟨kept.accounted, ?_⟩
    cases reply <;> exact kept
  apply Fallible.Alone.bind (Fallible.Alone.attempt looks)
  intro result after kept
  cases result <;> exact kept

/-- The blob has been written up to here. -/
structure Filling (machine : Machine) (descriptor uuid : Text) (stream rest : List (Except String Text))
    (transfer : Transfer) : Prop where
  renamed : transfer.renamed = false
  blob : transfer.blob = some (blobsDir ++ [tmpName uuid])
  pulled : transfer.stream = some stream
  split : stream = (transfer.written.map Write.chunk).map .ok ++ rest
  file : ∃ content coming, Tally transfer.written content coming ∧
    transfer.machine.fs (blobsDir ++ [tmpName uuid]) = some (.filled content coming)
  final : transfer.machine.fs (blobsDir ++ [descriptor]) = machine.fs (blobsDir ++ [descriptor])

section
variable {uuid : Text} {stream rest : List (Except String Text)}

private theorem Filling.accounted (filling : Filling machine descriptor uuid stream rest before) :
    Accounted machine descriptor before :=
  .inl ⟨filling.renamed, filling.final⟩

theorem Filling.plain (filling : Filling machine descriptor uuid stream rest before) (target : Target) :
    before.machine.fs (blobsDir ++ [tmpName uuid]) ≠ some (.link target) := by
  obtain ⟨content, coming, _, file⟩ := filling.file
  rw [file]
  exact fun link => Node.filled_ne_link content coming target (Option.some.inj link)

/-- What arrives is a part of the last write. -/
theorem Filling.lands (new : tmpName uuid ≠ descriptor) (filling : Filling machine descriptor uuid stream rest before)
    (lands : before.Lands after) : Filling machine descriptor uuid stream rest after := by
  obtain rfl | ⟨path, content, coming, more, left, earlier, last, opened, fills, part, split, rfl⟩ := lands
  · exact filling
  obtain ⟨_, _, tally, file⟩ := filling.file
  rw [filling.blob, Option.some_inj] at opened
  subst opened
  have same : Node.filled _ _ = .filling content coming := Option.some.inj (file.symm.trans fills)
  unfold Node.filled at same
  split at same <;> cases same
  rw [split] at tally
  have chunks := filling.split
  rw [split] at chunks
  refine ⟨filling.renamed, filling.blob, filling.pulled, by simpa using chunks, ?_, ?_⟩
  · exact ⟨content ++ more, left, tally.lands part, Function.update_self ..⟩
  · refine (Fs.put_other _ _ fun here => ?_).trans filling.final
    exact entries_apart blobsDir new (here ▸ List.prefix_rfl)

private theorem create_transfers (new : tmpName uuid ≠ descriptor)
    (free : before.machine.fs (blobsDir ++ [tmpName uuid]) = none) (renamed : before.renamed = false)
    (unopened : before.blob = none) (written : before.written = []) (pulled : before.stream = some stream)
    (final : before.machine.fs (blobsDir ++ [descriptor]) = machine.fs (blobsDir ++ [descriptor])) :
    Transfers machine descriptor (fun _ after => Filling machine descriptor uuid stream stream after)
      (ask (.create (blobsDir ++ [tmpName uuid]))) before := by
  have plain : Request.Plain (.create (blobsDir ++ [tmpName uuid])) before.machine.fs := by
    intro target
    simp [free]
  have apart : ¬ Request.Reaches (.create (blobsDir ++ [tmpName uuid])) (blobsDir ++ [descriptor]) := by
    intro same
    exact entries_apart blobsDir new.symm (same ▸ List.prefix_rfl)
  apply Transfers.ask
  intro reply after served
  obtain ⟨landed, served, _, same⟩ := transferring_unopened unopened served
  have kept := (serves_elsewhere plain served apart).trans final
  cases reply with
  | error error =>
    have same : after = { before with machine := after.machine } := same
    refine ⟨.inl ⟨?_, kept⟩, nofun⟩
    rw [same]
    exact renamed
  | ok value =>
    have same : after = { before with machine := after.machine, blob := some (blobsDir ++ [tmpName uuid]) } := same
    have disk := Fs.create_plain plain served.1
    have opened : Filling machine descriptor uuid stream stream after := by
      rw [same]
      refine ⟨renamed, rfl, pulled, by simp [written], ⟨[], [], written ▸ .nil, ?_⟩, kept⟩
      rw [disk]
      exact Function.update_self ..
    exact ⟨opened.accounted, fun _ _ => opened⟩

private theorem writeChunks_transfers (new : tmpName uuid ≠ descriptor)
    (filling : Filling machine descriptor uuid stream stream before) :
    Transfers machine descriptor (fun _ after => Filling machine descriptor uuid stream [] after)
      (stream.forM fun result => do
        let chunk ← .ofExcept result
        let _ ← ask (.write (blobsDir ++ [tmpName uuid]) chunk)) before := by
  refine Fallible.Alone.forM (Filling machine descriptor uuid stream) ?_ filling
  intro result rest before filling
  have parsed : Transfers machine descriptor (fun chunk after => result = .ok chunk ∧ after = before)
      (Fallible.ofExcept result) before := Fallible.Alone.ofExcept trivial fun _ same => ⟨same, rfl⟩
  apply parsed.bind
  rintro chunk before ⟨rfl, rfl⟩
  have apart : ¬ Request.Reaches (.write (blobsDir ++ [tmpName uuid]) chunk) (blobsDir ++ [descriptor]) := by
    intro same
    exact entries_apart blobsDir new.symm (same ▸ List.prefix_rfl)
  have writes : Transfers machine descriptor (fun _ after => Filling machine descriptor uuid stream rest after)
      (ask (.write (blobsDir ++ [tmpName uuid]) chunk)) before := by
    apply Transfers.ask
    rintro reply after ⟨arrived, landed, lands, served, _, landing, same⟩
    have filling := filling.lands new lands
    have plain : Request.Plain (.write (blobsDir ++ [tmpName uuid]) chunk) arrived.machine.fs := filling.plain
    have kept := (serves_elsewhere plain served apart).trans filling.final
    cases reply with
    | error error =>
      rw [same]
      exact ⟨.inl ⟨filling.renamed, kept⟩, nofun⟩
    | ok taken =>
      have same : after = { arrived with
          machine := after.machine, written := arrived.written ++ [⟨chunk, taken, landed⟩] } := same
      obtain ⟨content, coming, tally, file⟩ := filling.file
      have settled : coming = [] := by
        have idle := served.1.1
        unfold Fs.fills at idle
        rw [Fs.follow_plain plain, Option.bind_some, file] at idle
        cases coming with
        | nil => rfl
        | cons first rest => cases idle
      subst settled
      obtain ⟨later, whole, disk⟩ := landing
      have written : after.machine.fs (blobsDir ++ [tmpName uuid]) = some (.filled (content ++ landed) later) := by
        rw [disk, Fs.write_plain plain, file]
        exact Function.update_self ..
      have grown : Filling machine descriptor uuid stream rest after := by
        rw [same]
        exact ⟨filling.renamed, filling.blob, filling.pulled, by simp [filling.split],
          ⟨content ++ landed, later, tally.write whole, written⟩, kept⟩
      exact ⟨grown.accounted, fun _ _ => grown⟩
  apply Fallible.Alone.bind writes
  exact fun _ _ holds => holds

/-- The blob gets its name. -/
theorem rename_transfers (new : tmpName uuid ≠ descriptor)
    (filling : Filling machine descriptor uuid stream [] before) :
    Transfers machine descriptor (fun _ after => after.renamed = true)
      (ask (.rename (blobsDir ++ [tmpName uuid]) (blobsDir ++ [descriptor]))) before := by
  apply Transfers.ask
  rintro reply after ⟨arrived, landed, lands, served, _, _, same⟩
  have filling := filling.lands new lands
  cases reply with
  | error error =>
    have disk : after.machine.fs = arrived.machine.fs := served.1
    have same : after = { arrived with machine := after.machine } := same
    refine ⟨.inl ⟨?_, by rw [disk]; exact filling.final⟩, nofun⟩
    rw [same]
    exact filling.renamed
  | ok value =>
    have disk : arrived.machine.fs.rename (blobsDir ++ [tmpName uuid]) (blobsDir ++ [descriptor]) after.machine.fs := served.1
    have same : after = { arrived with machine := after.machine, renamed := true } := same
    have other : blobsDir ++ [tmpName uuid] ≠ blobsDir ++ [descriptor] := fun equal =>
      entries_apart blobsDir new (equal ▸ List.prefix_rfl)
    rw [Fs.rename, if_neg other] at disk
    have split := filling.split
    rw [List.append_nil] at split
    obtain ⟨content, coming, tally, file⟩ := filling.file
    have moved : after.machine.fs (blobsDir ++ [descriptor]) = some (.filled content coming) := by
      rw [disk.1, Fs.move, if_pos List.prefix_rfl, List.drop_length, List.append_nil]
      exact file
    rw [same]
    exact ⟨.inr ⟨rfl, split ▸ filling.pulled, content, coming, tally, moved⟩, fun _ _ => rfl⟩

end

/-- The blob gets a new name. -/
theorem uuid_transfers (early : Early machine descriptor before) :
    Transfers machine descriptor (fun uuid after => Early machine descriptor after ∧ tmpName uuid ≠ descriptor ∧
      after.machine.fs (blobsDir ++ [tmpName uuid]) = none) (ask .uuid) before := by
  apply Transfers.ask
  intro reply after served
  have plain : Request.Plain .uuid before.machine.fs := trivial
  have unnoted (landed : Text) : before.next landed .uuid reply after.machine = { before with machine := after.machine } := rfl
  have kept := early.aside plain not_false unnoted served
  obtain ⟨_, served, new, _⟩ := transferring_unopened early.blob served
  refine ⟨kept.accounted, ?_⟩
  rintro uuid rfl
  have disk : after.machine.fs = before.machine.fs := served.1
  exact ⟨kept, new.1, disk ▸ new.2⟩

private theorem pullBlobStream_transfers (early : Early machine descriptor before) (image : Reference) :
    Transfers machine descriptor (fun stream after => after.machine.fs = before.machine.fs ∧ after.renamed = false ∧
      after.blob = none ∧ after.written = [] ∧ after.stream = some stream) (ask (.pullBlobStream image descriptor)) before := by
  apply Transfers.ask
  intro reply after served
  obtain ⟨_, served, _, same⟩ := transferring_unopened early.blob served
  cases reply with
  | error error =>
    have disk : after.machine.fs = before.machine.fs := served.1
    have unchanged : after = { before with machine := after.machine } := same
    refine ⟨.inl ⟨?_, disk ▸ early.final⟩, nofun⟩
    rw [unchanged]
    exact early.renamed
  | ok stream =>
    have disk : after.machine.fs = before.machine.fs := served.1
    have got : after = { before with machine := after.machine, stream := some stream } := same
    have unnamed : after.renamed = false := by
      rw [got]
      exact early.renamed
    refine ⟨.inl ⟨unnamed, disk ▸ early.final⟩, ?_⟩
    rintro _ ⟨⟩
    refine ⟨disk, unnamed, ?_, ?_, ?_⟩ <;> rw [got]
    · exact early.blob
    · exact early.written

private theorem downloadLayer_transfers (early : Early machine descriptor before) (image : Reference) :
    Transfers machine descriptor (fun _ after => after.stream ≠ none → after.renamed = true)
      (downloadLayer image descriptor) before := by
  apply (createDirAll_transfers early).bind
  intro _ before early
  apply (existsOk_transfers early).bind
  intro found before early
  cases found with
  | true => exact fun pulled => absurd early.stream pulled
  | false =>
    apply (uuid_transfers early).bind
    intro uuid before ⟨early, new, free⟩
    apply (pullBlobStream_transfers early image).bind
    intro stream after ⟨disk, unnamed, unopened, unwritten, pulled⟩
    apply (create_transfers new (disk ▸ free) unnamed unopened unwritten pulled (disk ▸ early.final)).bind
    intro _ before filling
    apply (writeChunks_transfers new filling).bind
    intro _ before filling
    apply (rename_transfers new filling).bind
    exact fun _ _ renamed _ => renamed

end

private theorem early_start (machine : Machine) (descriptor : Text) : Early machine descriptor (.start machine) :=
  ⟨rfl, rfl, rfl, rfl, rfl⟩

/-- The blob holds the whole layer exactly when every chunk is in it, whole. -/
theorem Accounted.whole_iff {machine : Machine} {descriptor : Text} {transfer : Transfer}
    (accounted : Accounted machine descriptor transfer) (renamed : transfer.renamed = true) :
    Whole descriptor transfer ↔ transfer.Landed := by
  obtain ⟨unnamed, _⟩ | ⟨_, pulled, content, coming, tally, blob⟩ := accounted
  · rw [renamed] at unnamed
    cases unnamed
  refine Iff.trans ?_ tally.whole_iff
  constructor
  · rintro ⟨chunks, same, whole⟩
    have parts : chunks = transfer.written.map Write.chunk := by
      have equal := Option.some.inj (same.symm.trans pulled)
      exact List.map_injective_iff.mpr (fun _ _ equal => Except.ok.inj equal) equal
    rw [blob, parts] at whole
    exact Option.some.inj whole
  · intro whole
    exact ⟨_, pulled, blob.trans (congrArg some whole)⟩

/-- A layer that was downloaded is whole exactly when every chunk was in the file, whole, by the time it got its name;
wherever the download is cut off, its name is as it was or stands for the whole layer, with the same exception. -/
theorem layer_stored_whole_iff (image : Reference) (descriptor : Text) (machine : Machine) :
    (∀ path after, (downloadLayer image descriptor).Ends (transferring descriptor) (.start machine) (.ok path) after →
        after.stream ≠ none → (Whole descriptor after ↔ after.Landed)) ∧
      ∀ after, (downloadLayer image descriptor).Leaves (transferring descriptor) (.start machine) after →
        (StoredWhole machine descriptor after ↔ (after.renamed = true → after.Landed)) := by
  have transfers := downloadLayer_transfers (early_start machine descriptor) image
  have starts := (early_start machine descriptor).accounted
  constructor
  · intro path after ends pulled
    obtain ⟨accounted, renamed⟩ := Program.Alone.ends transfers starts ends
    exact accounted.whole_iff (renamed pulled)
  · intro after leaves
    have accounted : Accounted machine descriptor after := Program.Alone.leaves transfers starts leaves
    unfold StoredWhole
    split
    · next renamed => simpa [renamed] using accounted.whole_iff renamed
    · next unnamed =>
      obtain ⟨_, kept⟩ | ⟨renamed, _⟩ := accounted
      · exact ⟨fun _ renamed => absurd renamed unnamed, fun _ => kept⟩
      · exact absurd renamed unnamed

private theorem Transfer.next_machine (transfer : Transfer) (landed : Text) (request : Request)
    (reply : Except String request.Value)
    (machine : Machine) : (transfer.next landed request reply machine).machine = machine := by
  cases request <;> cases reply <;> rfl

private theorem transferring_next {descriptor : Text} (landed : Text) {before arrived : Transfer}
    {machine : Machine} {request : Request}
    {reply : Except String request.Value} (lands : before.Lands arrived) (served : serves request arrived.machine reply machine)
    (new : NewUuid descriptor arrived.machine.fs request reply)
    (landing : Landing landed arrived.machine.fs machine.fs request reply) :
    transferring descriptor request before reply (arrived.next landed request reply machine) := by
  refine ⟨arrived, landed, lands, ?_⟩
  rw [Transfer.next_machine]
  exact ⟨served, new, landing, rfl⟩

/-- The directories are there, and nothing else. -/
def noBlobs : Fs := fun path => if path <+: blobsDir then some .dir else none

/-- The layer has two characters, and there is one of them in the end: the only write takes one, or it takes both
and the second is lost on its way. -/
theorem layer_cut_short :
    (∃ after, (downloadLayer ⟨[], none⟩ "layer".toList).Ends (transferring "layer".toList)
      (.start ⟨noBlobs, .none⟩) (.ok (blobsDir ++ ["layer".toList])) after ∧ after.stream = some [.ok "ab".toList] ∧
        after.written = [⟨"ab".toList, 1, "a".toList⟩] ∧
        after.machine.fs (blobsDir ++ ["layer".toList]) = some (.file "a".toList)) ∧
    ∃ after, (downloadLayer ⟨[], none⟩ "layer".toList).Ends (transferring "layer".toList)
      (.start ⟨noBlobs, .none⟩) (.ok (blobsDir ++ ["layer".toList])) after ∧ after.stream = some [.ok "ab".toList] ∧
        after.written = [⟨"ab".toList, 2, "a".toList⟩] ∧
        after.machine.fs (blobsDir ++ ["layer".toList]) = some (.file "a".toList) := by
  let blob := blobsDir ++ ["tmp-u".toList]
  let opened : Fs := noBlobs.put blob (.file [])
  let written : Fs := opened.put blob (.file "a".toList)
  let coming : Fs := opened.put blob (.filling [] "ab".toList)
  let arrived : Fs := coming.put blob (.file "a".toList)
  let stored (fs : Fs) (taken : Nat) : Transfer := ⟨⟨fs.move blob (blobsDir ++ ["layer".toList]), .none⟩, some blob,
    some [.ok "ab".toList], [⟨"ab".toList, taken, "a".toList⟩], true⟩
  let own := registry "u".toList
  have answers {before : Transfer} {machine : Machine} {request : Request} {reply : Except String request.Value}
      (same : before.machine.answer own request = some (reply, machine))
      (new : NewUuid "layer".toList before.machine.fs request reply)
      (landing : Landing [] before.machine.fs machine.fs request reply) :
      transferring "layer".toList request before reply (before.next [] request reply machine) :=
    transferring_next [] (.inl rfl) (Machine.answer_serves same) new landing
  have named : NewUuid "layer".toList noBlobs .uuid (.ok "u".toList) := ⟨by decide, rfl⟩
  have streams : serves (.pullBlobStream ⟨[], none⟩ "layer".toList) ⟨noBlobs, .none⟩ (.ok [.ok "ab".toList])
      ⟨noBlobs, .none⟩ := ⟨rfl, rfl⟩
  let stores : Loads Path := do
    [Except.ok "ab".toList].forM fun result => do
      let chunk ← .ofExcept result
      let _ ← ask (.write blob chunk)
    ask (.rename blob (blobsDir ++ ["layer".toList]))
    return blobsDir ++ ["layer".toList]
  have starts {result : Except String Path} {after : Transfer} (rest : stores.Ends (transferring "layer".toList)
      ⟨⟨opened, .none⟩, some blob, some [.ok "ab".toList], [], false⟩ result after) :
      (downloadLayer ⟨[], none⟩ "layer".toList).Ends (transferring "layer".toList) (.start ⟨noBlobs, .none⟩) result after :=
    .call (answers rfl trivial trivial) (.call (answers rfl trivial trivial) (.call (answers rfl trivial trivial)
      (.call (answers rfl trivial trivial) (.call (answers rfl trivial trivial) (.call (answers rfl trivial trivial)
      (.call (answers rfl named trivial) (.call (transferring_next [] (.inl rfl) streams trivial trivial)
      (.call (answers rfl trivial trivial) rest))))))))
  refine ⟨⟨stored written 1, starts ?_, rfl, rfl, rfl⟩, ⟨stored arrived 2, starts ?_, rfl, rfl, rfl⟩⟩
  · have half : Landing "a".toList opened written (.write blob "ab".toList) (.ok (1 : Nat)) := ⟨[], rfl, rfl⟩
    have writes : serves (.write blob "ab".toList) ⟨opened, .none⟩ (.ok (1 : Nat)) ⟨written, .none⟩ :=
      ⟨⟨rfl, by decide, by decide, "a".toList, half⟩, rfl⟩
    exact .call (transferring_next "a".toList (.inl rfl) writes trivial half) (.call (answers rfl trivial trivial) (.done _ _))
  · have none : Landing [] opened coming (.write blob "ab".toList) (.ok (2 : Nat)) := ⟨"ab".toList, rfl, rfl⟩
    have writes : serves (.write blob "ab".toList) ⟨opened, .none⟩ (.ok (2 : Nat)) ⟨coming, .none⟩ :=
      ⟨⟨rfl, by decide, by decide, [], none⟩, rfl⟩
    have fills : opened.put blob (.filling [] "ab".toList) blob = some (.filling [] "ab".toList) := Function.update_self ..
    have lands : Transfer.Lands
        ⟨⟨coming, .none⟩, some blob, some [.ok "ab".toList], [⟨"ab".toList, 2, []⟩], false⟩
        ⟨⟨arrived, .none⟩, some blob, some [.ok "ab".toList], [⟨"ab".toList, 2, "a".toList⟩], false⟩ :=
      .inr ⟨blob, [], "ab".toList, "a".toList, [], [], ⟨"ab".toList, 2, []⟩, rfl, fills, by decide, rfl, rfl⟩
    have renames := Machine.answer_serves (rfl : Machine.answer own
      (.rename blob (blobsDir ++ ["layer".toList])) ⟨arrived, .none⟩ = some (.ok (), _))
    exact .call (transferring_next [] (.inl rfl) writes trivial none) (.call (transferring_next [] lands renames trivial trivial) (.done _ _))

end Pos2.Loader
