import Mathlib.Data.List.Nodup
import Pos2.Tunnel.Streams

/-! As long as every preamble arrives whole, `serve_conn` reads just the preamble
of each stream, one stream after the other, and hands every stream on. -/

namespace Pos2.Tunnel

/-- The stream whose preamble is being read. -/
def ServePhase.reading {ι : Type} : ServePhase ι → Option ι
  | .readLen i | .readAddr i _ _ => some i
  | _ => none

/-- What was read of a stream: its length byte and these bytes. -/
def Stream.Got (stream : Stream) (len : UInt8) (got : Chunk) : Prop :=
  (∃ rest, stream.written = len :: (got ++ rest)) ∧ stream.consumed = got.length + 1

namespace TunnelConn
variable {ι α : Type}

/-- The streams that were not handed on, in the order in which they will be. -/
def queue (conn : TunnelConn ι α) : List ι := conn.phase.reading.toList ++ conn.pending

def handedOn (conn : TunnelConn ι α) : List ι := conn.handed.map Prod.fst

variable (bincode : Bincode α) (source : Source ι α)

/-- What holds of a stream that ends only after its preamble. -/
structure StreamSound (written_by : Option α) (stream : Stream) : Prop where
  consumed : stream.consumed ≤ stream.arrived
  arrived : stream.arrived ≤ stream.written.length
  finished : stream.finished = true → Whole bincode stream.written
  sane : Sane bincode stream.written
  follows : ∀ addr, written_by = some addr → Follows bincode addr stream.written

def ReadSound (conn : TunnelConn ι α) : ServePhase ι → Prop
  | .readAddr i len got => ∃ byte : UInt8, byte.toNat = len ∧ (conn.streams i).Got byte got ∧ got.length ≤ len
  | .readLen i => (conn.streams i).consumed = 0
  | _ => True

structure Sound (conn : TunnelConn ι α) : Prop where
  nodup : (conn.handedOn ++ conn.queue).Nodup
  known : ∀ i ∈ conn.handedOn ++ conn.queue, i ∈ conn.opened
  all : conn.closed = false → ∀ i ∈ conn.opened, i ∈ conn.handedOn ++ conn.queue
  streams : ∀ i, StreamSound bincode (source i) (conn.streams i)
  reset : ∀ i, (conn.streams i).reset = true → i ∈ conn.handedOn
  unread : conn.closed = false → ∀ i, i ∉ conn.handedOn → conn.phase.reading ≠ some i → (conn.streams i).consumed = 0
  reading : ReadSound conn conn.phase
  handed : ∀ i addr, (i, addr) ∈ conn.handed →
    ∃ byte got, (conn.streams i).Got byte got ∧ got.length = byte.toNat ∧ bincode.decode got = some addr
  serving : conn.closed = false → conn.phase ≠ .panicked ∧ conn.phase ≠ .returned

private theorem Stream.Got.grow {stream after : Stream} {len : UInt8} {got : Chunk} (read : stream.Got len got)
    (written : stream.written <+: after.written) (consumed : after.consumed = stream.consumed) : after.Got len got := by
  obtain ⟨⟨rest, same⟩, count⟩ := read
  obtain ⟨more, same'⟩ := written
  refine ⟨⟨rest ++ more, ?_⟩, consumed.trans count⟩
  rw [← same', same, List.cons_append, List.append_assoc]

variable [DecidableEq ι] {bincode source}

@[simp] theorem set_self (conn : TunnelConn ι α) (i : ι) (stream : Stream) : (conn.set i stream).streams i = stream := by
  simp [set]

theorem set_other (conn : TunnelConn ι α) {i j : ι} (stream : Stream) (other : j ≠ i) :
    (conn.set i stream).streams j = conn.streams j := by
  simp [set, other]

/-- A stream that the server, or the network, takes further. -/
theorem Sound.grow {conn : TunnelConn ι α} (sound : Sound bincode source conn) {i : ι} {stream : Stream}
    (written : (conn.streams i).written <+: stream.written) (consumed : stream.consumed = (conn.streams i).consumed)
    (valid : StreamSound bincode (source i) stream) (reset : stream.reset = true → i ∈ conn.handedOn) :
    Sound bincode source (conn.set i stream) := by
  have same : ∀ j, ((conn.set i stream).streams j).consumed = (conn.streams j).consumed ∧
      (conn.streams j).written <+: ((conn.set i stream).streams j).written := by
    intro j
    by_cases own : j = i
    · subst own
      rw [set_self]
      exact ⟨consumed, written⟩
    · rw [set_other _ _ own]
      exact ⟨rfl, List.prefix_refl _⟩
  refine ⟨sound.nodup, sound.known, sound.all, ?_, ?_, ?_, ?_, ?_, sound.serving⟩
  · intro j
    by_cases own : j = i
    · subst own
      rw [set_self]
      exact valid
    · rw [set_other _ _ own]
      exact sound.streams j
  · intro j gone
    by_cases own : j = i
    · subst own
      rw [set_self] at gone
      exact reset gone
    · rw [set_other _ _ own] at gone
      exact sound.reset j gone
  · intro open_ j unhanded elsewhere
    rw [(same j).1]
    exact sound.unread open_ j unhanded elsewhere
  · have reading := sound.reading
    change ReadSound (conn.set i stream) conn.phase
    generalize conn.phase = phase at reading
    cases phase with
    | readLen j => exact (same j).1.trans reading
    | readAddr j len got =>
      obtain ⟨byte, value, read, short⟩ := reading
      exact ⟨byte, value, Stream.Got.grow read (same j).2 (same j).1, short⟩
    | _ => trivial
  · intro j addr member
    obtain ⟨byte, got, read, full, decoded⟩ := sound.handed j addr member
    exact ⟨byte, got, Stream.Got.grow read (same j).2 (same j).1, full, decoded⟩

omit [DecidableEq ι] in
/-- The stream that is being read has not been handed on. -/
theorem Sound.reading_unhanded {conn : TunnelConn ι α} (sound : Sound bincode source conn) {i : ι}
    (reading : conn.phase.reading = some i) : i ∉ conn.handedOn := by
  intro handed
  have apart := List.nodup_append.mp sound.nodup
  refine apart.2.2 i handed i ?_ rfl
  rw [queue, reading]
  exact List.mem_append_left _ (List.mem_singleton_self i)

omit [DecidableEq ι] in
/-- A stream that is being read is not at its end. -/
theorem Sound.readable {conn : TunnelConn ι α} (sound : Sound bincode source conn) {i : ι}
    (reading : conn.phase.reading = some i) (short : ∀ len got, conn.phase = .readAddr i len got → got.length < len)
    (open_ : conn.closed = false) : ¬ conn.Unreadable i := by
  rintro (gone | closed | ⟨finished, ended⟩)
  · exact sound.reading_unhanded reading (sound.reset i gone)
  · rw [open_] at closed
    cases closed
  · obtain ⟨len, rest, same, room, _⟩ := (sound.streams i).finished finished
    have read := sound.reading
    rw [same, List.length_cons] at ended
    generalize conn.phase = phase at reading short read
    cases phase with
    | readLen j =>
      cases reading
      rw [show (conn.streams i).consumed = 0 from read] at ended
      omega
    | readAddr j wanted got =>
      cases reading
      obtain ⟨byte, value, ⟨⟨more, same'⟩, count⟩, _⟩ := read
      have first : len = byte := (List.cons.inj (same.symm.trans same')).1
      have less := short _ _ rfl
      rw [first] at room
      omega
    | _ => cases reading

omit [DecidableEq ι] in
private theorem Sound.decodable {conn : TunnelConn ι α} (sound : Sound bincode source conn) {i : ι} {len : Nat}
    {got : Chunk}
    (reading : conn.phase = .readAddr i len got) (full : got.length = len) : (bincode.decode got).isSome := by
  have read := sound.reading
  rw [reading] at read
  obtain ⟨byte, value, ⟨⟨rest, same⟩, _⟩, _⟩ := read
  have size : byte.toNat = got.length := value.trans full.symm
  have decodes := (sound.streams i).sane byte (got ++ rest) same (by rw [List.length_append]; omega)
  rwa [size, List.take_left] at decodes

omit [DecidableEq ι] in
theorem initial_sound : Sound bincode source (initial : TunnelConn ι α) where
  nodup := List.nodup_nil
  known := nofun
  all := fun _ => nofun
  streams := fun _ => ⟨Nat.le_refl 0, Nat.le_refl 0, nofun, nofun, fun _ _ => .inl List.nil_prefix⟩
  reset := nofun
  unread := fun _ _ _ _ => rfl
  reading := trivial
  handed := nofun
  serving := fun _ => ⟨nofun, nofun⟩

/-- A read takes bytes of the stream that is being read, and of no other. -/
theorem Sound.take {conn : TunnelConn ι α} (sound : Sound bincode source conn) {i : ι} {n : Nat} {phase : ServePhase ι}
    (before : conn.phase.reading = some i) (after : phase.reading = some i) (readable : conn.Readable i n)
    (read : ReadSound (conn.take i n phase) phase) : Sound bincode source (conn.take i n phase) := by
  have same : (conn.take i n phase).queue = conn.queue := by
    rw [queue, queue, before]
    change phase.reading.toList ++ conn.pending = _
    rw [after]
  have others : ∀ j, j ≠ i → (conn.take i n phase).streams j = conn.streams j := fun j other => set_other conn _ other
  have own : (conn.take i n phase).streams i = { conn.streams i with consumed := (conn.streams i).consumed + n } :=
    set_self conn i _
  have unhanded := sound.reading_unhanded before
  refine ⟨same ▸ sound.nodup, same ▸ sound.known, same ▸ sound.all, ?_, ?_, ?_, read, ?_, ?_⟩
  · intro j
    by_cases here : j = i
    · subst here
      have valid := sound.streams j
      rw [own]
      exact ⟨readable.1, valid.arrived, valid.finished, valid.sane, valid.follows⟩
    · rw [others j here]
      exact sound.streams j
  · intro j gone
    by_cases here : j = i
    · subst here
      rw [own] at gone
      exact sound.reset j gone
    · rw [others j here] at gone
      exact sound.reset j gone
  · intro open_ j unhanded' elsewhere
    have here : j ≠ i := fun here => elsewhere (here ▸ after)
    rw [others j here]
    exact sound.unread open_ j unhanded' fun reading => here (Option.some.inj (reading.symm.trans before))
  · intro j addr member
    have here : j ≠ i := fun here => unhanded (here ▸ List.mem_map_of_mem member)
    rw [others j here]
    exact sound.handed j addr member
  · intro open_
    change phase ≠ .panicked ∧ phase ≠ .returned
    refine ⟨?_, ?_⟩ <;> intro phase_eq <;> rw [phase_eq] at after <;> cases after

omit [DecidableEq ι] in
/-- `serve_conn` leaves a connection that is closed. -/
theorem Sound.stop {conn : TunnelConn ι α} (sound : Sound bincode source conn) {phase : ServePhase ι}
    (closed : conn.closed = true) (stops : phase = .panicked ∨ phase = .returned) :
    Sound bincode source { conn with phase := phase } := by
  have left : ({ conn with phase := phase } : TunnelConn ι α).queue = conn.pending := by
    rcases stops with panics | returns
    · rw [panics]
      rfl
    · rw [returns]
      rfl
  have fewer : (conn.handedOn ++ conn.pending).Sublist (conn.handedOn ++ conn.queue) :=
    List.Sublist.append_left (List.sublist_append_right ..) conn.handedOn
  have shut : conn.closed ≠ false := by
    rw [closed]
    nofun
  refine ⟨?_, ?_, fun open_ => absurd open_ shut, sound.streams, sound.reset, fun open_ => absurd open_ shut, ?_,
    sound.handed, fun open_ => absurd open_ shut⟩
  · rw [left]
    exact sound.nodup.sublist fewer
  · rw [left]
    exact fun i member => sound.known i (fewer.subset member)
  · rcases stops with panics | returns
    · rw [panics]
      trivial
    · rw [returns]
      trivial

omit [DecidableEq ι] in
/-- A new stream waits behind all others. -/
theorem Sound.opens {conn : TunnelConn ι α} (sound : Sound bincode source conn) {i : ι} (fresh : i ∉ conn.opened) :
    Sound bincode source { conn with opened := conn.opened ++ [i], pending := conn.pending ++ [i] } := by
  have absent : i ∉ conn.handedOn ++ conn.queue := fun member => fresh (sound.known i member)
  have placed : conn.handedOn ++ (conn.phase.reading.toList ++ (conn.pending ++ [i])) =
      conn.handedOn ++ conn.queue ++ [i] := by
    rw [queue, List.append_assoc, List.append_assoc]
  refine ⟨?_, ?_, ?_, sound.streams, sound.reset, sound.unread, sound.reading, sound.handed, sound.serving⟩
  · change (conn.handedOn ++ (conn.phase.reading.toList ++ (conn.pending ++ [i]))).Nodup
    rw [placed]
    exact List.nodup_append.mpr ⟨sound.nodup, List.nodup_singleton i, fun a member b last same => by
      rw [List.mem_singleton.mp last] at same
      exact absent (same ▸ member)⟩
  · intro j member
    change j ∈ conn.handedOn ++ (conn.phase.reading.toList ++ (conn.pending ++ [i])) at member
    rw [placed] at member
    rcases List.mem_append.mp member with old | new
    · exact List.mem_append_left _ (sound.known j old)
    · exact List.mem_append_right _ new
  · intro open_ j member
    change j ∈ conn.handedOn ++ (conn.phase.reading.toList ++ (conn.pending ++ [i]))
    rw [placed]
    rcases List.mem_append.mp member with old | new
    · exact List.mem_append_left _ (sound.all open_ j old)
    · exact List.mem_append_right _ new

omit [DecidableEq ι] in
theorem Sound.accepts {conn : TunnelConn ι α} (sound : Sound bincode source conn) {i : ι} {rest : List ι}
    (accepting : conn.phase = .acceptBi) (next : conn.pending = i :: rest) (open_ : conn.closed = false) :
    Sound bincode source { conn with pending := rest, phase := .readLen i } := by
  have same : conn.handedOn ++ conn.queue = conn.handedOn ++ i :: rest := by
    rw [queue, accepting, next]
    rfl
  have here : i ∉ conn.handedOn := by
    have apart := sound.nodup
    rw [same] at apart
    exact fun handed => (List.nodup_append.mp apart).2.2 i handed i List.mem_cons_self rfl
  have unread := sound.unread open_ i here (by rw [accepting]; nofun)
  refine ⟨same ▸ sound.nodup, same ▸ sound.known, same ▸ sound.all, sound.streams, sound.reset, ?_, unread,
    sound.handed, fun _ => ⟨nofun, nofun⟩⟩
  intro _ j unhanded _
  exact sound.unread open_ j unhanded (by rw [accepting]; nofun)

theorem Sound.readsLen {conn : TunnelConn ι α} (sound : Sound bincode source conn) {i : ι} {len : UInt8}
    (reading : conn.phase = .readLen i) (readable : conn.Readable i 1)
    (next : (conn.streams i).written[(conn.streams i).consumed]? = some len) :
    Sound bincode source (conn.take i 1 (.readAddr i len.toNat [])) := by
  refine sound.take (by rw [reading]; rfl) rfl readable ⟨len, rfl, ⟨?_, ?_⟩, Nat.zero_le _⟩
  · have start := sound.reading
    rw [reading] at start
    rw [show (conn.streams i).consumed = 0 from start] at next
    obtain ⟨inside, first⟩ := List.getElem?_eq_some_iff.mp next
    refine ⟨(conn.streams i).written.drop 1, ?_⟩
    change ((conn.set i _).streams i).written = _
    rw [set_self, List.nil_append, ← first]
    exact List.drop_eq_getElem_cons inside
  · change ((conn.set i _).streams i).consumed = _
    have start := sound.reading
    rw [reading] at start
    rw [set_self, show (conn.streams i).consumed = 0 from start]
    rfl

theorem Sound.reads {conn : TunnelConn ι α} (sound : Sound bincode source conn) {i : ι} {len n : Nat} {got : Chunk}
    (reading : conn.phase = .readAddr i len got) (needed : got.length + n ≤ len) (readable : conn.Readable i n) :
    Sound bincode source (conn.take i n
      (.readAddr i len (got ++ ((conn.streams i).written.drop (conn.streams i).consumed).take n))) := by
  have read := sound.reading
  rw [reading] at read
  obtain ⟨byte, value, ⟨⟨rest, same⟩, count⟩, _⟩ := read
  have left : (conn.streams i).written.drop (conn.streams i).consumed = rest := by
    rw [same, count, List.drop_succ_cons, List.drop_left]
  have enough : n ≤ rest.length := by
    have arrived := (sound.streams i).arrived
    have taken := readable.1
    rw [same, List.length_cons, List.length_append] at arrived
    omega
  rw [left]
  refine sound.take (by rw [reading]; rfl) rfl readable ⟨byte, value, ⟨⟨rest.drop n, ?_⟩, ?_⟩, ?_⟩
  · change ((conn.set i _).streams i).written = _
    rw [set_self, List.append_assoc, List.take_append_drop]
    exact same
  · change ((conn.set i _).streams i).consumed = _
    rw [set_self, List.length_append, List.length_take, Nat.min_eq_left enough]
    change (conn.streams i).consumed + n = _
    omega
  · rw [List.length_append, List.length_take, Nat.min_eq_left enough]
    exact needed

omit [DecidableEq ι] in
theorem Sound.decodes {conn : TunnelConn ι α} (sound : Sound bincode source conn) {i : ι} {len : Nat} {got : Chunk}
    {addr : α} (reading : conn.phase = .readAddr i len got) (full : got.length = len)
    (decoded : bincode.decode got = some addr) :
    Sound bincode source { conn with phase := .acceptBi, handed := conn.handed ++ [(i, addr)] } := by
  have read := sound.reading
  rw [reading] at read
  obtain ⟨byte, value, read, _⟩ := read
  have same : conn.handedOn ++ conn.queue = (conn.handed ++ [(i, addr)]).map Prod.fst ++ conn.pending := by
    rw [queue, reading, List.map_append, List.append_assoc]
    rfl
  refine ⟨?_, ?_, ?_, sound.streams, ?_, ?_, trivial, ?_, fun _ => ⟨nofun, nofun⟩⟩
  · exact same ▸ sound.nodup
  · exact same ▸ sound.known
  · exact same ▸ sound.all
  · intro j gone
    rw [handedOn, List.map_append]
    exact List.mem_append_left _ (sound.reset j gone)
  · intro open_ j unhanded _
    rw [handedOn, List.map_append, List.mem_append, not_or] at unhanded
    refine sound.unread open_ j unhanded.1 fun elsewhere => unhanded.2 ?_
    rw [reading] at elsewhere
    cases elsewhere
    exact List.mem_singleton_self i
  · intro j addr' member
    rcases List.mem_append.mp member with old | new
    · exact sound.handed j addr' old
    · cases List.mem_singleton.mp new
      exact ⟨byte, got, read, full.trans value.symm, decoded⟩

theorem Sound.step {event : StreamEvent ι} {conn after : TunnelConn ι α} (sound : Sound bincode source conn)
    (allowed : wholePreambles bincode conn event) (step : Step bincode source event conn after) :
    Sound bincode source after := by
  cases step with
  | opens fresh => exact sound.opens fresh
  | @writes _ i chunk known open_ follows =>
    have valid := sound.streams i
    refine sound.grow (List.prefix_append _ _) rfl ⟨valid.consumed, ?_, ?_, allowed, follows⟩ (sound.reset i)
    · exact Nat.le_trans valid.arrived (by simp)
    · intro finished
      rw [open_.1] at finished
      cases finished
  | @arrives _ i n sent =>
    have valid := sound.streams i
    exact sound.grow (List.prefix_refl _) rfl ⟨Nat.le_add_right_of_le valid.consumed, sent, valid.finished, valid.sane,
      valid.follows⟩ (sound.reset i)
  | @finishes _ i known =>
    have valid := sound.streams i
    exact sound.grow (List.prefix_refl _) rfl ⟨valid.consumed, valid.arrived, fun _ => allowed, valid.sane,
      valid.follows⟩ (sound.reset i)
  | @resets _ i known =>
    obtain ⟨addr, member⟩ := allowed
    have valid := sound.streams i
    exact sound.grow (List.prefix_refl _) rfl ⟨valid.consumed, valid.arrived, valid.finished, valid.sane,
      valid.follows⟩ fun _ => List.mem_map_of_mem member
  | closes =>
    exact ⟨sound.nodup, sound.known, nofun, sound.streams, sound.reset, nofun, sound.reading, sound.handed, nofun⟩
  | accepts accepting next open_ => exact sound.accepts accepting next open_
  | readsLen reading readable next => exact sound.readsLen reading readable next
  | reads reading _ needed readable => exact sound.reads reading needed readable
  | decodes reading full decoded => exact sound.decodes reading full decoded
  | @undecodable _ i len got reading full garbled =>
    have decodes := sound.decodable reading full
    rw [garbled] at decodes
    cases decodes
  | @failsLen _ i reading unreadable =>
    have closed : conn.closed = true := by
      by_contra open_
      refine sound.readable (by rw [reading]; rfl) ?_ (Bool.eq_false_iff.mpr open_) unreadable
      intro len got phase
      rw [reading] at phase
      cases phase
    exact sound.stop closed (.inl rfl)
  | @failsAddr _ i len got reading short unreadable =>
    have closed : conn.closed = true := by
      by_contra open_
      refine sound.readable (by rw [reading]; rfl) ?_ (Bool.eq_false_iff.mpr open_) unreadable
      intro len' got' phase
      rw [reading] at phase
      cases phase
      exact short
    exact sound.stop closed (.inl rfl)
  | returns accepting closed => exact sound.stop closed (.inr rfl)

theorem Sound.run {events : List (StreamEvent ι)} {conn after : TunnelConn ι α} (sound : Sound bincode source conn)
    (run : Run bincode source (wholePreambles bincode) conn events after) : Sound bincode source after := by
  induction run with
  | start => exact sound
  | step _ allowed step held => exact held.step allowed step

omit [DecidableEq ι] in
/-- What was handed on of a stream of `TunnelServer::handle` is its preamble. -/
theorem Sound.framed {conn : TunnelConn ι α} (sound : Sound bincode source conn) : Framed bincode source conn where
  serving := by
    cases open_ : conn.closed with
    | true => exact .inl rfl
    | false => exact .inr (sound.serving open_)
  once := (List.nodup_append.mp sound.nodup).1
  handed := by
    intro i addr encoded member from_
    obtain ⟨byte, got, ⟨⟨rest, same⟩, count⟩, full, decoded⟩ := sound.handed i addr member
    have starts : (byte :: got) <+: (conn.streams i).written := ⟨rest, same.symm⟩
    have length : (UInt8.ofNat (bincode.encode encoded).length).toNat = (bincode.encode encoded).length :=
      UInt8.toNat_ofNat_of_lt (Nat.lt_succ_of_le (bincode.short encoded))
    -- The length byte is the one of the preamble, whichever of the two is the longer one.
    have agree : byte :: got = bincode.preamble encoded := by
      have first : byte = .ofNat (bincode.encode encoded).length := by
        rcases (sound.streams i).follows encoded from_ with short | long
        · exact (List.cons_prefix_cons.mp (starts.trans short)).1
        · obtain ⟨more, same'⟩ := long
          exact (List.cons.inj (same.symm.trans same'.symm)).1
      have size : (byte :: got).length = (bincode.preamble encoded).length := by
        rw [Bincode.preamble, List.length_cons, List.length_cons, full, first, length]
      rcases (sound.streams i).follows encoded from_ with short | long
      · exact (starts.trans short).eq_of_length size
      · exact (List.prefix_of_prefix_length_le starts long (Nat.le_of_eq size)).eq_of_length size
    have bytes : got = bincode.encode encoded := (List.cons.inj agree).2
    rw [bytes, bincode.decodes] at decoded
    refine ⟨(Option.some.inj decoded).symm, rest, ?_, ?_⟩
    · rw [same, ← agree, List.cons_append]
    · rw [count, ← agree, List.length_cons]

end TunnelConn
end Pos2.Tunnel
