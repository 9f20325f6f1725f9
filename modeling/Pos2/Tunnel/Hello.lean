import Mathlib.Data.List.TakeDrop
import Pos2.Tunnel.Streams

/-! `parse_hello` reads a connection until rustls knows what the client said, and
`unread_conn` puts what was read back in front. Each turn of the loop shows rustls the
bytes so far anew, with a single call of `read_tls`. -/

namespace Pos2.Tunnel.Hello

/-- The bytes that one call of `read_tls` takes at most. -/
def READ_SIZE : Nat := 4096

/-- rustls: `accept` after the bytes that an acceptor was given. A refusal has an alert for the peer. -/
structure Tls (α : Type) where
  accept : Chunk → Except (String × Chunk) (Option α)

/-- An `Acceptor`, with the bytes it was given. -/
structure Acceptor where
  given : Chunk

def Acceptor.default : Acceptor := ⟨[]⟩

def Acceptor.readTls (acceptor : Acceptor) (cursor : Chunk) : Acceptor :=
  ⟨acceptor.given ++ cursor.take READ_SIZE⟩

/-- A connection: what its reads will find, after which the peer has closed its side, and how writes end. -/
structure TcpConn where
  reads : List (Except String Chunk)
  writeAll : Chunk → Except String Unit

def TcpConn.readBuf (conn : TcpConn) : Except String (Chunk × TcpConn) :=
  match conn.reads with
  | [] => .ok ([], conn)
  | .error error :: _ => .error error
  | .ok chunk :: rest => .ok (chunk, { conn with reads := rest })

/-- A read into a buffer of `size` bytes. What does not fit in waits for the next read. -/
def TcpConn.read (size : Nat) (conn : TcpConn) : Except String Chunk × TcpConn :=
  match conn.reads with
  | [] => (.ok [], conn)
  | .error error :: rest => (.error error, { conn with reads := rest })
  | .ok chunk :: rest =>
    if chunk.length ≤ size then (.ok chunk, { conn with reads := rest })
    else (.ok (chunk.take size), { conn with reads := .ok (chunk.drop size) :: rest })

structure ParsedHello (α : Type) where
  conn : TcpConn
  accepted : α
  buffered : Chunk

section
variable {α : Type} (tls : Tls α)

/-- The loop of `parse_hello` for so many turns, `none` when it goes on after them. -/
def parseHello : Nat → TcpConn → Chunk → Option (Except String (ParsedHello α))
  | 0, _, _ => none
  | turns + 1, conn, buffer =>
    match conn.readBuf with
    | .error error => some (.error error)
    | .ok (chunk, conn) =>
      let buffer := buffer ++ chunk
      match tls.accept (Acceptor.default.readTls buffer).given with
      | .ok none => parseHello turns conn buffer
      | .ok (some accepted) => some (.ok ⟨conn, accepted, buffer⟩)
      | .error (error, alert) =>
        match conn.writeAll alert with
        | .error error => some (.error error)
        | .ok () => some (.error error)

/-- What `unread_conn` makes: the rest of the cursor, then the connection. -/
structure Unread where
  cursor : Chunk
  doneFirst : Bool
  conn : TcpConn

def ParsedHello.unreadConn (hello : ParsedHello α) : Unread := ⟨hello.buffered, false, hello.conn⟩

/-- A read of the chain goes to the cursor until that gives nothing more. -/
def Unread.read (size : Nat) (unread : Unread) : Except String Chunk × Unread :=
  if !unread.doneFirst && !(unread.cursor.take size).isEmpty then
    (.ok (unread.cursor.take size), { unread with cursor := unread.cursor.drop size })
  else
    ((unread.conn.read size).1, { unread with doneFirst := true, conn := (unread.conn.read size).2 })

/-- A peer that sends these chunks and closes its side. -/
def TcpConn.sending (chunks : List Chunk) (writeAll : Chunk → Except String Unit) : TcpConn :=
  ⟨chunks.map .ok, writeAll⟩

/-- Reads into buffers of these sizes, one after the other. -/
def Unread.readAll : List Nat → Unread → List (Except String Chunk) × Unread
  | [], unread => ([], unread)
  | size :: sizes, unread =>
    let (got, unread) := unread.read size
    let (rest, unread) := unread.readAll sizes
    (got :: rest, unread)

/-- Whatever its buffers, a reader gets the stream from its first byte on, and sees its end only after the last. -/
def Unread.Yields (unread : Unread) (stream : Chunk) : Prop :=
  ∀ sizes : List Nat, (∀ size ∈ sizes, 0 < size) →
    ∃ got : List Chunk, (unread.readAll sizes).1 = got.map .ok ∧ got.flatten <+: stream ∧
      ([] ∈ got → got.flatten = stream)

/-! ### What a reader of the rest gets -/

/-- What is left of a chain whose connection reads without errors. -/
structure Unread.Left (unread : Unread) (stream : Chunk) : Prop where
  split : ∃ chunks : List Chunk, unread.conn.reads = chunks.map .ok ∧ (∀ chunk ∈ chunks, chunk ≠ []) ∧
    unread.cursor ++ chunks.flatten = stream
  first : unread.doneFirst = true → unread.cursor = []

/-- A read of the connection gives bytes as long as there are any. -/
theorem TcpConn.read_left {conn : TcpConn} {chunks : List Chunk} (reads : conn.reads = chunks.map .ok)
    (sent : ∀ chunk ∈ chunks, chunk ≠ []) {size : Nat} (room : 0 < size) :
    ∃ (got : Chunk) (rest : List Chunk), (conn.read size).1 = .ok got ∧ (conn.read size).2.reads = rest.map .ok ∧
      (∀ chunk ∈ rest, chunk ≠ []) ∧ got ++ rest.flatten = chunks.flatten ∧ (got = [] → chunks = []) := by
  cases chunks with
  | nil =>
    refine ⟨[], [], ?_⟩
    simp [TcpConn.read, reads]
  | cons chunk rest =>
    have whole : conn.reads = .ok chunk :: rest.map .ok := reads
    by_cases fits : chunk.length ≤ size
    · refine ⟨chunk, rest, ?_⟩
      simp only [TcpConn.read, whole, if_pos fits, true_and]
      exact ⟨fun other inside => sent other (.tail _ inside), rfl, fun empty => (sent chunk (.head _) empty).elim⟩
    · refine ⟨chunk.take size, chunk.drop size :: rest, ?_⟩
      simp only [TcpConn.read, whole, if_neg fits, true_and]
      refine ⟨rfl, fun other inside => ?_, ?_, fun empty => ?_⟩
      · rcases List.mem_cons.mp inside with rfl | inside
        · exact fun empty => fits (List.drop_eq_nil_iff.mp empty)
        · exact sent other (.tail _ inside)
      · simp [← List.append_assoc]
      · have := congrArg List.length empty
        simp only [List.length_take, List.length_nil] at this
        omega

private theorem Unread.read_left {unread : Unread} {stream : Chunk} (left : unread.Left stream) {size : Nat}
    (room : 0 < size) :
    ∃ got rest : Chunk, (unread.read size).1 = .ok got ∧ (unread.read size).2.Left rest ∧ got ++ rest = stream ∧
      (got = [] → stream = []) := by
  obtain ⟨⟨chunks, reads, sent, rfl⟩, first⟩ := left
  by_cases front : !unread.doneFirst && !(unread.cursor.take size).isEmpty
  · have busy : unread.doneFirst = false := by
      simp only [Bool.and_eq_true, Bool.not_eq_true'] at front
      exact front.1
    refine ⟨unread.cursor.take size, unread.cursor.drop size ++ chunks.flatten, ?_⟩
    simp only [Unread.read, if_pos front, true_and]
    refine ⟨⟨⟨chunks, reads, sent, rfl⟩, fun done => ?_⟩, ?_, fun empty => ?_⟩
    · simp [busy] at done
    · simp [← List.append_assoc]
    · simp [empty] at front
  · have none_ : unread.cursor = [] := by
      cases busy : unread.doneFirst with
      | true => exact first busy
      | false =>
        have empty : ¬ size = 0 → unread.cursor = [] := by simpa [busy] using front
        exact empty (by omega)
    obtain ⟨got, rest, read, after, others, same, empty⟩ := TcpConn.read_left reads sent room
    refine ⟨got, rest.flatten, ?_⟩
    simp only [Unread.read, if_neg front]
    refine ⟨read, ⟨⟨rest, after, others, by simp [none_]⟩, fun _ => none_⟩, by simpa [none_] using same, fun nothing => ?_⟩
    simp [none_, empty nothing]

theorem Unread.Left.yields {unread : Unread} {stream : Chunk} (left : unread.Left stream) : unread.Yields stream := by
  intro sizes room
  induction sizes generalizing unread stream with
  | nil => exact ⟨[], rfl, List.nil_prefix, fun impossible => (nomatch impossible)⟩
  | cons size sizes ih =>
    obtain ⟨got, rest, read, after, rfl, empty⟩ := Unread.read_left left (room size (.head _))
    obtain ⟨more, reads, starts, ends⟩ := ih after fun other inside => room other (.tail _ inside)
    refine ⟨got :: more, ?_, ?_, fun inside => ?_⟩
    · simp only [Unread.readAll, read, reads, List.map_cons]
    · exact (List.prefix_append_right_inj got).mpr starts
    · rcases List.mem_cons.mp inside with nothing | inside
      · obtain ⟨rfl, rfl⟩ := List.append_eq_nil_iff.mp (empty nothing.symm)
        simpa using starts
      · simp [ends inside]

/-! ### The loop -/

/-- What rustls makes of these bytes when it is shown them in one call. -/
def Tls.shown (given : Chunk) : Except (String × Chunk) (Option α) := tls.accept (given.take READ_SIZE)

/-- After one of the reads, the one that finds the end included, rustls can tell. -/
def Tls.Decides (buffer : Chunk) (chunks : List Chunk) : Prop :=
  ∃ k ≤ chunks.length, tls.shown (buffer ++ (chunks.take (k + 1)).flatten) ≠ .ok none

variable {tls}

private theorem Tls.decides_nil {buffer : Chunk} : tls.Decides buffer [] ↔ tls.shown buffer ≠ .ok none := by
  simp [Tls.Decides]

private theorem Tls.decides_cons {buffer chunk : Chunk} {chunks : List Chunk} :
    tls.Decides buffer (chunk :: chunks) ↔ tls.shown (buffer ++ chunk) ≠ .ok none ∨ tls.Decides (buffer ++ chunk) chunks := by
  constructor
  · rintro ⟨k, inside, decides⟩
    cases k with
    | zero => exact .inl (by simpa using decides)
    | succ k => exact .inr ⟨k, by simpa using inside, by simpa using decides⟩
  · rintro (decides | ⟨k, inside, decides⟩)
    · exact ⟨0, by omega, by simpa using decides⟩
    · exact ⟨k + 1, by simpa using inside, by simpa using decides⟩

variable {writeAll : Chunk → Except String Unit}

/-- The last turn, however it ends. -/
theorem parseHello_tells {turns : Nat} {conn rest : TcpConn} {buffer chunk : Chunk} (read : conn.readBuf = .ok (chunk, rest))
    (decides : tls.shown (buffer ++ chunk) ≠ .ok none) : (parseHello tls (turns + 1) conn buffer).isSome := by
  unfold parseHello
  simp only [read]
  rcases told : tls.shown (buffer ++ chunk) with ⟨error, alert⟩ | _ | accepted
  · simp only [Tls.shown] at told
    simp only [Acceptor.readTls, Acceptor.default, List.nil_append, told]
    cases rest.writeAll alert <;> rfl
  · exact (decides told).elim
  · simp only [Tls.shown] at told
    simp only [Acceptor.readTls, Acceptor.default, List.nil_append, told]
    rfl

/-- A turn after which rustls still cannot tell. -/
theorem parseHello_waits {turns : Nat} {conn rest : TcpConn} {buffer chunk : Chunk} (read : conn.readBuf = .ok (chunk, rest))
    (waits : tls.shown (buffer ++ chunk) = .ok none) :
    parseHello tls (turns + 1) conn buffer = parseHello tls turns rest (buffer ++ chunk) := by
  simp only [Tls.shown] at waits
  simp only [parseHello, read, Acceptor.readTls, Acceptor.default, List.nil_append, waits]

private theorem TcpConn.sending_nil : (TcpConn.sending [] writeAll).readBuf = .ok ([], .sending [] writeAll) := rfl

private theorem TcpConn.sending_cons (chunk : Chunk) (chunks : List Chunk) :
    (TcpConn.sending (chunk :: chunks) writeAll).readBuf = .ok (chunk, .sending chunks writeAll) := rfl

/-- It ends at the latest with the read that finds the end of the stream. -/
theorem parseHello_ends {buffer : Chunk} {chunks : List Chunk} (decides : tls.Decides buffer chunks) :
    (parseHello tls (chunks.length + 1) (.sending chunks writeAll) buffer).isSome := by
  induction chunks generalizing buffer with
  | nil => exact parseHello_tells TcpConn.sending_nil (by simpa using Tls.decides_nil.mp decides)
  | cons chunk chunks ih =>
    by_cases told : tls.shown (buffer ++ chunk) = .ok none
    · rw [List.length_cons, parseHello_waits (TcpConn.sending_cons chunk chunks) told]
      exact ih ((Tls.decides_cons.mp decides).resolve_left fun decided => decided told)
    · exact parseHello_tells (TcpConn.sending_cons chunk chunks) told

/-- The end of the stream is no end of the loop. -/
theorem parseHello_idles {buffer : Chunk} (waits : tls.shown buffer = .ok none) (turns : Nat) :
    parseHello tls turns (.sending [] writeAll) buffer = none := by
  induction turns with
  | zero => rfl
  | succ turns ih =>
    have waits : tls.shown (buffer ++ []) = .ok none := by simpa using waits
    rw [parseHello_waits TcpConn.sending_nil waits, List.append_nil]
    exact ih

private theorem parseHello_never {buffer : Chunk} {chunks : List Chunk} (undecided : ¬ tls.Decides buffer chunks)
    (turns : Nat) :
    parseHello tls turns (.sending chunks writeAll) buffer = none := by
  induction chunks generalizing buffer turns with
  | nil => exact parseHello_idles (not_not.mp (mt Tls.decides_nil.mpr undecided)) turns
  | cons chunk chunks ih =>
    obtain ⟨waits, later⟩ := not_or.mp (mt Tls.decides_cons.mpr undecided)
    cases turns with
    | zero => rfl
    | succ turns =>
      rw [parseHello_waits (TcpConn.sending_cons chunk chunks) (not_not.mp waits)]
      exact ih later turns

/-- Exactly when the loop ends by itself, and then within one turn more than there are reads. -/
theorem parse_hello_ends_iff (tls : Tls α) (chunks : List Chunk) (writeAll : Chunk → Except String Unit) :
    (∃ turns ≤ chunks.length + 1, (parseHello tls turns (.sending chunks writeAll) []).isSome) ↔
      tls.Decides [] chunks := by
  constructor
  · rintro ⟨turns, -, ends⟩
    by_contra undecided
    simp [parseHello_never undecided] at ends
  · exact fun decides => ⟨_, Nat.le_refl _, parseHello_ends decides⟩

/-- Of the stream it begins with, rustls needs so many bytes for the hello. -/
structure Completes (tls : Tls α) (stream : Chunk) (size : Nat) : Prop where
  positive : 0 < size
  fits : size ≤ stream.length
  incomplete : ∀ n < size, tls.accept (stream.take n) = .ok none
  complete : ∀ n, size ≤ n → ∃ accepted, tls.accept (stream.take n) = .ok (some accepted)

/-- The hello is returned after the read that completes it, and what was read comes back. -/
def Parses (tls : Tls α) (chunks : List Chunk) (writeAll : Chunk → Except String Unit) (size : Nat) : Prop :=
  ∃ front chunk back hello, chunks = front ++ chunk :: back ∧
    front.flatten.length < size ∧ size ≤ front.flatten.length + chunk.length ∧
    parseHello tls (front.length + 1) (.sending chunks writeAll) [] = some (.ok hello) ∧
    hello.conn = .sending back writeAll ∧ hello.unreadConn.Yields chunks.flatten

private theorem completing_chunk {chunks : List Chunk} {size : Nat} (positive : 0 < size)
    (fits : size ≤ chunks.flatten.length) :
    ∃ front chunk back, chunks = front ++ chunk :: back ∧ front.flatten.length < size ∧
      size ≤ front.flatten.length + chunk.length := by
  induction chunks generalizing size with
  | nil =>
    simp only [List.flatten_nil, List.length_nil] at fits
    omega
  | cons first chunks ih =>
    by_cases now : size ≤ first.length
    · exact ⟨[], first, chunks, rfl, by simpa using positive, by simpa using now⟩
    · rw [List.flatten_cons, List.length_append] at fits
      obtain ⟨front, chunk, back, rfl, before, after⟩ := @ih (size - first.length) (by omega) (by omega)
      refine ⟨first :: front, chunk, back, rfl, ?_, ?_⟩
      · rw [List.flatten_cons, List.length_append]
        omega
      · rw [List.flatten_cons, List.length_append]
        omega

/-- The turns before rustls can tell. -/
theorem parseHello_front {turns : Nat} {buffer : Chunk} {front rest : List Chunk}
    (waits : ∀ k ≤ front.length, tls.shown (buffer ++ (front.take k).flatten) = .ok none) :
    parseHello tls (front.length + turns) (.sending (front ++ rest) writeAll) buffer =
      parseHello tls turns (.sending rest writeAll) (buffer ++ front.flatten) := by
  induction front generalizing buffer with
  | nil => simp
  | cons chunk front ih =>
    have first : tls.shown (buffer ++ chunk) = .ok none := by
      simpa using waits 1 (by simp)
    rw [List.length_cons, Nat.add_right_comm, List.cons_append, parseHello_waits (TcpConn.sending_cons _ _) first,
      ih fun k inside => by simpa using waits (k + 1) (by simpa using inside)]
    simp

private theorem Completes.shown_short {stream given : Chunk} {size : Nat} (completes : Completes tls stream size)
    (starts : given <+: stream) (short : given.length < size ∨ READ_SIZE < size) : tls.shown given = .ok none := by
  obtain ⟨rest, rfl⟩ := starts
  have same : given.take READ_SIZE = (given ++ rest).take (min READ_SIZE given.length) := by
    rw [← List.take_take, List.take_left]
  rw [Tls.shown, same]
  exact completes.incomplete _ (by omega)

private theorem Completes.shown_whole {stream given : Chunk} {size : Nat} (completes : Completes tls stream size)
    (starts : given <+: stream) (whole : size ≤ given.length) (fits : size ≤ READ_SIZE) :
    ∃ accepted, tls.shown given = .ok (some accepted) := by
  obtain ⟨rest, rfl⟩ := starts
  have same : given.take READ_SIZE = (given ++ rest).take (min READ_SIZE given.length) := by
    rw [← List.take_take, List.take_left]
  rw [Tls.shown, same]
  exact completes.complete _ (by omega)

/-- rustls never sees the end of a longer hello. -/
theorem Completes.never {chunks : List Chunk} {size : Nat} (completes : Completes tls chunks.flatten size)
    (long : READ_SIZE < size) (turns : Nat) : parseHello tls turns (.sending chunks writeAll) [] = none := by
  refine parseHello_never ?_ turns
  rintro ⟨k, -, decides⟩
  have starts : (chunks.take (k + 1)).flatten <+: chunks.flatten :=
    ⟨(chunks.drop (k + 1)).flatten, by rw [← List.flatten_append, List.take_append_drop]⟩
  exact decides (completes.shown_short starts (.inr long))

/-- A hello that `read_tls` takes in one call is parsed, and one that is longer never is. -/
theorem parse_hello_parses_iff {chunks : List Chunk} {size : Nat} (writeAll : Chunk → Except String Unit)
    (completes : Completes tls chunks.flatten size) (sent : ∀ chunk ∈ chunks, chunk ≠ []) :
    Parses tls chunks writeAll size ↔ size ≤ READ_SIZE := by
  constructor
  · rintro ⟨front, chunk, back, hello, -, -, -, parses, -⟩
    by_contra long
    simp [completes.never (Nat.lt_of_not_le long)] at parses
  · intro fits
    obtain ⟨front, chunk, back, rfl, before, after⟩ := completing_chunk completes.positive completes.fits
    have waits (k : Nat) (_ : k ≤ front.length) : tls.shown ([] ++ (front.take k).flatten) = .ok none := by
      have starts : (front.take k).flatten <+: front.flatten :=
        ⟨(front.drop k).flatten, by rw [← List.flatten_append, List.take_append_drop]⟩
      have shorter := starts.length_le
      exact completes.shown_short (starts.trans ⟨(chunk :: back).flatten, by simp⟩) (.inl (by rw [List.nil_append]; omega))
    have told : ∃ accepted, tls.shown (front.flatten ++ chunk) = .ok (some accepted) :=
      completes.shown_whole ⟨back.flatten, by simp⟩ (by simpa using after) fits
    obtain ⟨accepted, told⟩ := told
    refine ⟨front, chunk, back, ⟨.sending back writeAll, accepted, front.flatten ++ chunk⟩, rfl, before, after, ?_, rfl, ?_⟩
    · rw [parseHello_front waits]
      simp only [Tls.shown] at told
      simp only [parseHello, TcpConn.sending_cons, Acceptor.readTls, Acceptor.default, List.nil_append, told]
    · refine Unread.Left.yields ⟨⟨back, rfl, fun other inside => sent other (by simp [inside]), ?_⟩, fun done => ?_⟩
      · simp [ParsedHello.unreadConn]
      · cases done

end

/-- rustls on a hello that comes in one record: a kind, a version and the length of the rest. -/
def oneRecord : Tls Unit where
  accept
    | _ :: _ :: _ :: high :: low :: body => .ok (if 256 * high.toNat + low.toNat ≤ body.length then some () else none)
    | _ => .ok none

def helloRecord (high low : UInt8) : Chunk :=
  22 :: 3 :: 1 :: high :: low :: List.replicate (256 * high.toNat + low.toNat) 0

private theorem oneRecord_completes (high low : UInt8) (more : Chunk) :
    Completes oneRecord (helloRecord high low ++ more) (5 + (256 * high.toNat + low.toNat)) where
  positive := by omega
  fits := by
    simp only [helloRecord, List.cons_append, List.length_cons, List.length_append, List.length_replicate]
    omega
  incomplete := fun n short => by
    match n with
    | 0 | 1 | 2 | 3 | 4 => rfl
    | n + 5 =>
      simp only [oneRecord, helloRecord, List.cons_append, List.take_succ_cons, List.length_take, List.length_append,
        List.length_replicate]
      exact congrArg _ (if_neg (by omega))
  complete := fun n whole => by
    match n with
    | 0 | 1 | 2 | 3 | 4 => omega
    | n + 5 =>
      simp only [oneRecord, helloRecord, List.cons_append, List.take_succ_cons, List.length_take, List.length_append,
        List.length_replicate]
      exact ⟨(), congrArg _ (if_pos (by omega))⟩

/-- A hello in two pieces, with a byte of what comes after it. -/
theorem parse_hello_parses_pieces :
    Parses oneRecord [[22, 3, 1], [0, 1, 0, 23]] (fun _ => .ok ()) 6 :=
  (parse_hello_parses_iff (fun _ => .ok ()) (oneRecord_completes 0 1 [23]) (by simp)).mpr (by decide)

/-- A hello of 5000 bytes that comes in one piece. -/
theorem long_hello_never_parses :
    Completes oneRecord (helloRecord 19 131) 5000 ∧ ¬ Parses oneRecord [helloRecord 19 131] (fun _ => .ok ()) 5000 := by
  have completes : Completes oneRecord [helloRecord 19 131].flatten 5000 := by
    simpa using oneRecord_completes 19 131 []
  refine ⟨by simpa using completes, ?_⟩
  rintro ⟨front, chunk, back, hello, -, -, -, parses, -⟩
  simp [completes.never (show READ_SIZE < 5000 by decide)] at parses

/-- A peer that closes its side after one byte. -/
theorem truncated_hello_never_ends :
    ¬ ∃ turns, (parseHello oneRecord turns (.sending [[22]] fun _ => .ok ()) []).isSome := by
  rintro ⟨turns, ends⟩
  have undecided : ¬ oneRecord.Decides [] [[22]] := by
    rintro ⟨k, inside, decides⟩
    match k with
    | 0 | 1 => exact decides rfl
  simp [parseHello_never undecided] at ends

end Pos2.Tunnel.Hello
