import Mathlib.Data.List.Infix
import Mathlib.Data.Nat.Find
import Pos2.Tunnel.Framing

/-! A stream only gets ahead in the queue of `serve_conn`, which goes on as soon as
the preamble at the head of the queue has arrived. -/

namespace Pos2.Tunnel

/-- What `serve_conn` has left to do for the stream that it is at. -/
def ServePhase.left {ι : Type} : ServePhase ι → Nat
  | .acceptBi => 258
  | .readLen _ => 257
  | .readAddr _ len got => len - got.length + 1
  | _ => 0

namespace TunnelConn
variable {ι α : Type}

/-- Between steps of `serve_conn` streams only join the queue. -/
structure Waits (conn after : TunnelConn ι α) : Prop where
  phase : after.phase = conn.phase
  pending : conn.pending <+: after.pending

theorem Waits.refl (conn : TunnelConn ι α) : Waits conn conn := ⟨rfl, List.prefix_refl _⟩

theorem Waits.trans {first second third : TunnelConn ι α} (waits : Waits first second) (more : Waits second third) :
    Waits first third :=
  ⟨more.phase.trans waits.phase, waits.pending.trans more.pending⟩

theorem Waits.queue {conn after : TunnelConn ι α} (waits : Waits conn after) : conn.queue <+: after.queue := by
  rw [TunnelConn.queue, TunnelConn.queue, waits.phase]
  exact (List.prefix_append_right_inj _).mpr waits.pending

def ServesAt (events : Nat → Option (StreamEvent ι)) (n : Nat) : Prop :=
  ∃ event, events n = some event ∧ event.serves = true

variable [DecidableEq ι] {bincode : Bincode α} {source : Source ι α}

/-- How far a stream is from being handed on. -/
def rank (conn : TunnelConn ι α) (i : ι) : Nat := conn.queue.idxOf i * 300 + conn.phase.left

private theorem Waits.rank {conn after : TunnelConn ι α} (waits : Waits conn after) {i : ι} (queued : i ∈ conn.queue) :
    after.rank i = conn.rank i := by
  obtain ⟨more, same⟩ := waits.queue
  rw [TunnelConn.rank, TunnelConn.rank, waits.phase, ← same, List.idxOf_append_of_mem queued]

theorem Step.waits {event : StreamEvent ι} {conn after : TunnelConn ι α} (step : Step bincode source event conn after)
    (idle : event.serves = false) : Waits conn after := by
  cases step with
  | opens fresh => exact ⟨rfl, List.prefix_append _ _⟩
  | writes known open_ follows => exact ⟨rfl, List.prefix_refl _⟩
  | arrives sent => exact ⟨rfl, List.prefix_refl _⟩
  | finishes known => exact ⟨rfl, List.prefix_refl _⟩
  | resets known => exact ⟨rfl, List.prefix_refl _⟩
  | closes => exact ⟨rfl, List.prefix_refl _⟩
  | _ => cases idle

omit [DecidableEq ι] in
private theorem queue_reading {conn : TunnelConn ι α} {i : ι} (reading : conn.phase.reading = some i) :
    conn.queue = i :: conn.pending := by
  rw [queue, reading]
  rfl

/-- `serve_conn` goes on with the stream that it is at. -/
theorem rank_left {conn after : TunnelConn ι α} (same : after.queue = conn.queue)
    (less : after.phase.left < conn.phase.left) (i : ι) : after.rank i < conn.rank i := by
  rw [rank, rank, same]
  omega

/-- Each step of `serve_conn` takes every stream of its queue on. -/
theorem Step.goes {event : StreamEvent ι} {conn after : TunnelConn ι α} (step : Step bincode source event conn after)
    (serves : event.serves = true) (sound : Sound bincode source conn) (allowed : wholePreambles bincode conn event)
    (open_ : after.closed = false) {i : ι} (queued : i ∈ conn.queue) :
    i ∈ after.handedOn ∨ (i ∈ after.queue ∧ after.rank i < conn.rank i) := by
  have serving := (sound.step allowed step).serving open_
  have goes_on : after.queue = conn.queue → after.phase.left < conn.phase.left →
      i ∈ after.handedOn ∨ (i ∈ after.queue ∧ after.rank i < conn.rank i) :=
    fun same less => .inr ⟨same ▸ queued, rank_left same less i⟩
  cases step with
  | @accepts _ j rest accepting next _ =>
    refine goes_on ?_ ?_
    · rw [queue_reading (i := j) rfl, queue, accepting, next]
      rfl
    · rw [accepting]
      exact Nat.lt_succ_self 257
  | @readsLen _ j len reading readable next =>
    have small := len.toNat_lt
    refine goes_on ?_ ?_
    · rw [queue_reading (i := j) rfl, queue_reading (i := j) (by rw [reading]; rfl)]
      rfl
    · rw [reading]
      change len.toNat - 0 + 1 < 257
      omega
  | @reads _ j len got n reading some_ needed readable =>
    have read := sound.reading
    rw [reading] at read
    obtain ⟨byte, value, ⟨⟨rest, same⟩, count⟩, _⟩ := read
    refine goes_on ?_ ?_
    · rw [queue_reading (i := j) rfl, queue_reading (i := j) (by rw [reading]; rfl)]
      rfl
    · rw [reading]
      change len - (got ++ (((conn.streams j).written.drop (conn.streams j).consumed).take n)).length + 1 <
        len - got.length + 1
      have arrived := (sound.streams j).arrived
      have there := readable.1
      rw [List.length_append, List.length_take, List.length_drop]
      omega
  | @decodes _ j len got addr reading full decoded =>
    have before : conn.queue = j :: conn.pending := queue_reading (by rw [reading]; rfl)
    rw [before] at queued
    rcases List.mem_cons.mp queued with this_one | later
    · refine .inl ?_
      rw [handedOn, List.map_append]
      exact List.mem_append_right _ (this_one ▸ List.mem_singleton_self j)
    · refine .inr ⟨later, ?_⟩
      have other : j ≠ i := by
        rintro rfl
        have apart := (List.nodup_append.mp sound.nodup).2.1
        rw [before] at apart
        exact (List.nodup_cons.mp apart).1 later
      rw [rank, rank, before, List.idxOf_cons_ne _ other, reading]
      change conn.pending.idxOf i * 300 + 258 < (conn.pending.idxOf i + 1) * 300 + (len - got.length + 1)
      omega
  | undecodable reading full garbled => exact absurd rfl serving.1
  | failsLen reading unreadable => exact absurd rfl serving.1
  | failsAddr reading short unreadable => exact absurd rfl serving.1
  | returns accepting closed => exact absurd rfl serving.2
  | _ => cases serves

/-- Where the preamble at the head of the queue has arrived, `serve_conn` goes on. -/
theorem Sound.enabled {conn : TunnelConn ι α} (sound : Sound bincode source conn) (open_ : conn.closed = false) {i : ι}
    {rest : List ι} (head : conn.queue = i :: rest)
    (whole : Whole bincode ((conn.streams i).written.take (conn.streams i).arrived)) :
    ∃ event after, event.serves = true ∧ Step bincode source event conn after := by
  have unhanded : i ∉ conn.handedOn := by
    have apart := sound.nodup
    rw [head] at apart
    exact fun handed => (List.nodup_append.mp apart).2.2 i handed i List.mem_cons_self rfl
  have unreset : (conn.streams i).reset = false :=
    Bool.eq_false_iff.mpr fun gone => unhanded (sound.reset i gone)
  obtain ⟨len, more, taken, room, _⟩ := whole
  have arrived := (sound.streams i).arrived
  have size : (conn.streams i).arrived = more.length + 1 := by
    have count := congrArg List.length taken
    rwa [List.length_take, Nat.min_eq_left arrived, List.length_cons] at count
  have serving := sound.serving open_
  have read := sound.reading
  cases phase : conn.phase with
  | acceptBi =>
    have next : conn.pending = i :: rest := by
      rw [queue, phase] at head
      exact head
    exact ⟨.accepts, _, rfl, .accepts phase next open_⟩
  | readLen j =>
    rw [queue_reading (i := j) (by rw [phase]; rfl)] at head
    cases head
    rw [phase] at read
    have start : (conn.streams i).consumed = 0 := read
    have first : (conn.streams i).written[(conn.streams i).consumed]? = some len := by
      rw [start]
      rw [← List.getElem?_take_of_lt (by omega : 0 < (conn.streams i).arrived), taken]
      rfl
    exact ⟨.readsLen, _, rfl, .readsLen phase ⟨by omega, unreset, open_⟩ first⟩
  | readAddr j wanted got =>
    rw [queue_reading (i := j) (by rw [phase]; rfl)] at head
    cases head
    rw [phase] at read
    obtain ⟨byte, value, ⟨⟨left, same⟩, count⟩, inside⟩ := read
    have first : byte = len := by
      have begins : (conn.streams i).written.take (conn.streams i).arrived <+: (conn.streams i).written :=
        List.take_prefix _ _
      rw [taken, same] at begins
      exact (List.cons_prefix_cons.mp begins).1.symm
    rw [first] at value
    rcases Nat.lt_or_eq_of_le inside with short | full
    · exact ⟨.reads 1, _, rfl, .reads phase Nat.one_pos short ⟨by omega, unreset, open_⟩⟩
    · cases decoded : bincode.decode got with
      | some addr => exact ⟨.decodes, _, rfl, .decodes phase full decoded⟩
      | none => exact ⟨.decodes, _, rfl, .undecodable phase full decoded⟩
  | panicked => exact absurd phase serving.1
  | returned => exact absurd phase serving.2

omit [DecidableEq ι] in
theorem Sound.queued {conn : TunnelConn ι α} (sound : Sound bincode source conn) (open_ : conn.closed = false) {i : ι}
    (known : i ∈ conn.opened) : i ∈ conn.handedOn ∨ i ∈ conn.queue :=
  List.mem_append.mp (sound.all open_ i known)

section endless
variable {conns : Nat → TunnelConn ι α} {events : Nat → Option (StreamEvent ι)}

theorem Endless.sound (endless : Endless bincode source (wholePreambles bincode) conns events)
    (start : Sound bincode source (conns 0)) (n : Nat) : Sound bincode source (conns n) := by
  induction n with
  | zero => exact start
  | succ n sound =>
    have next := endless n
    cases event : events n with
    | none =>
      rw [event] at next
      rw [show conns (n + 1) = conns n from next]
      exact sound
    | some _ =>
      rw [event] at next
      exact sound.step next.1 next.2

theorem Endless.waits (endless : Endless bincode source (wholePreambles bincode) conns events) {n m : Nat}
    (later : n ≤ m) (idle : ∀ k, n ≤ k → k < m → ¬ ServesAt events k) : Waits (conns n) (conns m) := by
  induction m, later using Nat.le_induction with
  | base => exact .refl _
  | succ m later waits =>
    refine (waits fun k from_ before => idle k from_ (Nat.lt_succ_of_lt before)).trans ?_
    have next := endless m
    cases event : events m with
    | none =>
      rw [event] at next
      rw [show conns (m + 1) = conns m from next]
      exact .refl _
    | some given =>
      rw [event] at next
      refine next.2.waits (Bool.eq_false_iff.mpr fun serves => ?_)
      exact idle m later (Nat.lt_succ_self m) ⟨given, event, serves⟩

/-- While a stream is queued, `serve_conn` takes another step. -/
theorem Endless.moves (endless : Endless bincode source (wholePreambles bincode) conns events)
    (fair : Fair bincode source conns events) (start : Sound bincode source (conns 0)) {n : Nat} {i : ι}
    (queued : i ∈ (conns n).queue) : ∃ m, n ≤ m ∧ ((conns m).closed = true ∨ ServesAt events m) := by
  obtain ⟨j, rest, head⟩ := List.exists_cons_of_ne_nil (List.ne_nil_of_mem queued)
  have known : j ∈ (conns n).opened :=
    (endless.sound start n).known j (List.mem_append_right _ (head ▸ List.mem_cons_self))
  obtain ⟨m, later, closed | whole⟩ := fair.arrives n j known
  · exact ⟨m, later, .inl closed⟩
  · by_cases earlier : ∃ k, n ≤ k ∧ k < m ∧ ServesAt events k
    · obtain ⟨k, from_, _, serves⟩ := earlier
      exact ⟨k, from_, .inr serves⟩
    · have waits := endless.waits later fun k from_ before serves => earlier ⟨k, from_, before, serves⟩
      obtain ⟨more, same⟩ := waits.queue
      cases open_ : (conns m).closed with
      | true => exact ⟨m, later, .inl open_⟩
      | false =>
        have head' : (conns m).queue = j :: (rest ++ more) := by
          rw [← same, head, List.cons_append]
        obtain ⟨event, after, serves, step⟩ := (endless.sound start m).enabled open_ head' whole
        obtain ⟨k, from_, happens⟩ := fair.goes m event after serves step
        exact ⟨k, Nat.le_trans later from_, .inr happens⟩

private theorem Endless.hands_on (endless : Endless bincode source (wholePreambles bincode) conns events)
    (fair : Fair bincode source conns events) (start : Sound bincode source (conns 0)) {i : ι} (r : Nat) :
    ∀ n, i ∈ (conns n).queue → (conns n).rank i = r →
      ∃ m ≥ n, (conns m).closed = true ∨ i ∈ (conns m).handedOn := by
  induction r using Nat.strong_induction_on with
  | h r less =>
    intro n queued size
    -- The first time that the connection is closed or `serve_conn` takes a step.
    have moves := endless.moves fair start queued
    classical
    obtain ⟨later, event⟩ := Nat.find_spec moves
    have idle : ∀ k, n ≤ k → k < Nat.find moves → ¬ ServesAt events k :=
      fun k from_ before serves => Nat.find_min moves before ⟨from_, .inr serves⟩
    generalize Nat.find moves = m at later event idle
    have waits := endless.waits later idle
    have still : i ∈ (conns m).queue := waits.queue.subset queued
    rcases event with closed | ⟨event, happens, serves⟩
    · exact ⟨m, later, .inl closed⟩
    · have next := endless m
      rw [happens] at next
      have later' : n ≤ m + 1 := Nat.le_succ_of_le later
      cases open_ : (conns (m + 1)).closed with
      | true => exact ⟨m + 1, later', .inl open_⟩
      | false =>
        rcases next.2.goes serves (endless.sound start m) next.1 open_ still with handed | ⟨queued', closer⟩
        · exact ⟨m + 1, later', .inr handed⟩
        · rw [waits.rank queued, size] at closer
          obtain ⟨k, from_, done⟩ := less _ closer (m + 1) queued' rfl
          exact ⟨k, Nat.le_trans later' from_, done⟩

end endless

/-- As long as every preamble arrives whole and decodes, `serve_conn` accepts streams
until the connection is closed, and hands each one on with the address and the payload. -/
theorem serve_conn_frames {events : List (StreamEvent ι)} {conn : TunnelConn ι α}
    (run : Run bincode source (wholePreambles bincode) initial events conn) :
    Framed bincode source conn ∧
      ∀ conns steps, conns 0 = conn → Endless bincode source (wholePreambles bincode) conns steps →
        Fair bincode source conns steps → Delivers conns := by
  have sound := initial_sound.run run
  refine ⟨sound.framed, ?_⟩
  intro conns steps here endless fair n i known
  have start : Sound bincode source (conns 0) := here ▸ sound
  cases open_ : (conns n).closed with
  | true => exact ⟨n, Nat.le_refl n, .inl open_⟩
  | false =>
    have handed : ∃ m ≥ n, (conns m).closed = true ∨ i ∈ (conns m).handedOn := by
      rcases (endless.sound start n).queued open_ known with already | queued
      · exact ⟨n, Nat.le_refl n, .inr already⟩
      · exact endless.hands_on fair start _ n queued rfl
    obtain ⟨m, later, closed | member⟩ := handed
    · exact ⟨m, later, .inl closed⟩
    · obtain ⟨⟨j, addr⟩, entry, same⟩ := List.mem_map.mp member
      exact ⟨m, later, .inr ⟨addr, same ▸ entry⟩⟩

/-- A run after which nothing happens any more. -/
theorem Run.endless {rules : Rules ι α} {events : List (StreamEvent ι)} {conn after : TunnelConn ι α}
    (run : Run bincode source rules conn events after) :
    ∃ conns, conns 0 = conn ∧ Endless bincode source rules conns (fun n => events[n]?) ∧
      ∀ n, events.length ≤ n → conns n = after := by
  induction run with
  | start => exact ⟨fun _ => conn, rfl, fun _ => rfl, fun _ _ => rfl⟩
  | @step events before event after run allowed step ih =>
    obtain ⟨conns, start, endless, still⟩ := ih
    refine ⟨fun n => if n ≤ events.length then conns n else after, ?_, ?_, ?_⟩
    · exact (if_pos (Nat.zero_le _)).trans start
    · intro n
      dsimp only
      rcases Nat.lt_trichotomy n events.length with less | rfl | more
      · rw [List.getElem?_append_left less, if_pos (Nat.le_of_lt less), if_pos (Nat.succ_le_of_lt less)]
        exact endless n
      · rw [List.getElem?_concat_length, if_pos (Nat.le_refl _), if_neg (by omega), still _ (Nat.le_refl _)]
        exact ⟨allowed, step⟩
      · rw [List.getElem?_eq_none (by simp; omega), if_neg (by omega), if_neg (by omega)]
    · intro n longer
      rw [List.length_append, List.length_singleton] at longer
      exact if_neg (by omega)

/-- With no stream to be accepted `serve_conn` waits. -/
theorem idle_waits {conn after : TunnelConn ι α} (accepting : conn.phase = .acceptBi) (none_ : conn.pending = [])
    (open_ : conn.closed = false) {event : StreamEvent ι} (serves : event.serves = true) :
    ¬ Step bincode source event conn after := by
  intro step
  cases step with
  | opens | writes | arrives | finishes | resets | closes => cases serves
  | accepts _ next =>
    rw [none_] at next
    cases next
  | returns _ closed =>
    rw [open_] at closed
    cases closed
  | readsLen at_ | reads at_ | decodes at_ | undecodable at_ | failsLen at_ | failsAddr at_ =>
    rw [accepting] at at_
    cases at_

theorem Step.opened {event : StreamEvent ι} {before after : TunnelConn ι α} (step : Step bincode source event before after) :
    before.opened ⊆ after.opened := by
  cases step with
  | opens => exact List.subset_append_left _ _
  | _ => exact List.Subset.refl _

theorem Endless.opened {rules : Rules ι α} {conns : Nat → TunnelConn ι α} {events : Nat → Option (StreamEvent ι)}
    (endless : Endless bincode source rules conns events) {n m : Nat} (later : n ≤ m) :
    (conns n).opened ⊆ (conns m).opened := by
  induction m, later using Nat.le_induction with
  | base => exact List.Subset.refl _
  | succ m later ih =>
    refine List.Subset.trans ih ?_
    have next := endless m
    cases event : events m with
    | none =>
      rw [event] at next
      rw [show conns (m + 1) = conns m from next]
      exact List.Subset.refl _
    | some given =>
      rw [event] at next
      exact next.2.opened

/-- A run is fair that ends with a step of `serve_conn`, when all streams have arrived and none is to be accepted. -/
theorem Run.fair {rules : Rules ι α} {events : List (StreamEvent ι)} {last : StreamEvent ι} {conn after : TunnelConn ι α}
    (run : Run bincode source rules conn (events ++ [last]) after) (serves : last.serves = true)
    (accepting : after.phase = .acceptBi) (none_ : after.pending = []) (open_ : after.closed = false)
    (arrived : ∀ i ∈ after.opened, Whole bincode ((after.streams i).written.take (after.streams i).arrived)) :
    ∃ conns, conns 0 = conn ∧ Endless bincode source rules conns (fun n => (events ++ [last])[n]?) ∧
      Fair bincode source conns (fun n => (events ++ [last])[n]?) ∧ conns (events.length + 1) = after := by
  obtain ⟨conns, start, endless, still⟩ := run.endless
  rw [List.length_append, List.length_singleton] at still
  refine ⟨conns, start, endless, ⟨?_, ?_⟩, still _ (Nat.le_refl _)⟩
  · intro n i known
    refine ⟨n + (events.length + 1), Nat.le_add_right _ _, .inr ?_⟩
    have opened := endless.opened (Nat.le_add_right n (events.length + 1)) known
    rw [still _ (Nat.le_add_left _ _)] at opened ⊢
    exact arrived i opened
  · intro n event later serves' step
    rcases Nat.lt_or_ge events.length n with more | less
    · rw [still n more] at step
      exact absurd step (idle_waits accepting none_ open_ serves')
    · exact ⟨events.length, less, last, List.getElem?_concat_length, serves⟩

/-- The second stream is one that `TunnelServer::handle` writes. -/
def toVisitor : Source Nat SocketAddrV4 := fun i => if i = 1 then some ⟨(192, 0, 2, 1), 50000⟩ else none

def written : Chunk := SocketAddrV4.bincode.preamble ⟨(192, 0, 2, 1), 50000⟩ ++ [22]

private theorem written_whole : Whole SocketAddrV4.bincode written := ⟨8, _, rfl, by decide, rfl⟩

theorem Whole.sane {α : Type} {bincode : Bincode α} {written : Chunk} (whole : Whole bincode written) :
    Sane bincode written := by
  obtain ⟨first, left, same, _, decodes⟩ := whole
  intro len rest same' _
  cases same.symm.trans same'
  exact decodes

private theorem written_follows (addr : SocketAddrV4) (from_ : toVisitor 1 = some addr) :
    Follows SocketAddrV4.bincode addr written := by
  cases from_
  exact .inr ⟨[22], rfl⟩

/-- A second visitor. -/
def twoVisitors : Source Nat SocketAddrV4 := fun i => if i = 2 then some ⟨(192, 0, 2, 2), 250⟩ else toVisitor i

def writtenNext : Chunk := SocketAddrV4.bincode.preamble ⟨(192, 0, 2, 2), 250⟩ ++ [22]

private theorem writtenNext_whole : Whole SocketAddrV4.bincode writtenNext := ⟨6, _, rfl, by decide, rfl⟩

theorem writtenNext_follows (addr : SocketAddrV4) (from_ : twoVisitors 2 = some addr) :
    Follows SocketAddrV4.bincode addr writtenNext := by
  cases from_
  exact .inr ⟨[22], rfl⟩

/-- The first visitor's stream is handed on while the second one's has not arrived, which is handed on then. -/
theorem serve_conn_frames_visitors :
    ∃ events conn conns steps,
      Run SocketAddrV4.bincode twoVisitors (wholePreambles SocketAddrV4.bincode) initial events conn ∧
      conn.opened = [1, 2] ∧ conn.handed = [(1, ⟨(192, 0, 2, 1), 50000⟩)] ∧
      Framed SocketAddrV4.bincode twoVisitors conn ∧ conns 0 = conn ∧
      Endless SocketAddrV4.bincode twoVisitors (wholePreambles SocketAddrV4.bincode) conns steps ∧
      Fair SocketAddrV4.bincode twoVisitors conns steps ∧ Delivers conns := by
  have new : Run SocketAddrV4.bincode twoVisitors (wholePreambles SocketAddrV4.bincode) initial [] initial := .start
  have run := new
    |>.step (by trivial) (.opens (i := 1) List.not_mem_nil)
    |>.step (by trivial) (.opens (i := 2) (by decide))
    |>.step (by exact written_whole.sane) (.writes (i := 1) (by decide) ⟨rfl, rfl⟩ written_follows)
    |>.step (by exact writtenNext_whole.sane)
      (.writes (i := 2) (by decide) ⟨rfl, rfl⟩ writtenNext_follows)
    |>.step (by trivial) (.arrives (i := 1) (n := 9) (by decide))
    |>.step (by trivial) (.accepts rfl rfl rfl)
    |>.step (by trivial) (.readsLen rfl ⟨by decide, rfl, rfl⟩ rfl)
    |>.step (by trivial) (.reads (n := 8) rfl (by decide) (by decide) ⟨by decide, rfl, rfl⟩)
    |>.step (by trivial) (.decodes rfl rfl (show SocketAddrV4.bincode.decode _ = some ⟨(192, 0, 2, 1), 50000⟩ by decide))
  have from_ {events : List (StreamEvent Nat)} {conn : TunnelConn Nat SocketAddrV4}
      (_ : Run SocketAddrV4.bincode twoVisitors (wholePreambles SocketAddrV4.bincode) initial events conn) :
      Run SocketAddrV4.bincode twoVisitors (wholePreambles SocketAddrV4.bincode) conn [] conn := .start
  have later := (from_ run)
    |>.step (by trivial) (.accepts rfl rfl rfl)
    |>.step (by trivial) (.arrives (i := 2) (n := 7) (by decide))
    |>.step (by trivial) (.readsLen rfl ⟨by decide, rfl, rfl⟩ rfl)
    |>.step (by trivial) (.reads (n := 6) rfl (by decide) (by decide) ⟨by decide, rfl, rfl⟩)
    |>.step (by trivial) (.decodes rfl rfl (show SocketAddrV4.bincode.decode _ = some ⟨(192, 0, 2, 2), 250⟩ by decide))
  obtain ⟨conns, start, endless, fair, _⟩ := later.fair rfl rfl rfl rfl (by
    refine List.forall_mem_cons.mpr ⟨?_, List.forall_mem_singleton.mpr ?_⟩
    · exact ⟨8, _, rfl, by decide, rfl⟩
    · exact ⟨6, _, rfl, by decide, rfl⟩)
  obtain ⟨framed, delivers⟩ := serve_conn_frames run
  exact ⟨_, _, conns, _, run, rfl, rfl, framed, start, endless, fair, delivers _ _ start endless fair⟩

/-- Once a read of `serve_conn` has failed, no stream is handed on any more. -/
theorem panicked_stays {rules : Rules ι α} {events : List (StreamEvent ι)} {conn after : TunnelConn ι α}
    (run : Run bincode source rules conn events after) (panicked : conn.phase = .panicked) :
    after.phase = .panicked ∧ after.handed = conn.handed := by
  induction run with
  | start => exact ⟨panicked, rfl⟩
  | step run allowed step held =>
    obtain ⟨down, same⟩ := held
    cases step with
    | opens | writes | arrives | finishes | resets | closes => exact ⟨down, same⟩
    | accepts at_ | readsLen at_ | reads at_ | decodes at_ | undecodable at_ | failsLen at_ | failsAddr at_
    | returns at_ =>
      rw [down] at at_
      cases at_

/-- A stream that ends before its address takes `serve_conn` down. The connection stays
open, and the stream after it, whose preamble has all arrived, is never handed on. -/
theorem one_stream_stops_serve_conn :
    ∃ events conn, Run SocketAddrV4.bincode toVisitor anything initial events conn ∧
      conn.closed = false ∧ conn.phase = .panicked ∧ 1 ∈ conn.opened ∧
      Whole SocketAddrV4.bincode ((conn.streams 1).written.take (conn.streams 1).arrived) ∧
      ∀ more after, Run SocketAddrV4.bincode toVisitor anything conn more after →
        after.phase = .panicked ∧ ∀ addr, (1, addr) ∉ after.handed := by
  have new : Run SocketAddrV4.bincode toVisitor anything initial [] .initial := .start
  have failed := new
    |>.step trivial (.opens (i := 0) List.not_mem_nil)
    |>.step trivial (.opens (i := 1) (by decide))
    |>.step trivial (.writes (i := 1) (by decide) ⟨rfl, rfl⟩ written_follows)
    |>.step trivial (.arrives (i := 1) (n := 10) (by decide))
    |>.step trivial (.finishes (i := 0) (by decide))
    |>.step trivial (.accepts rfl rfl rfl)
    |>.step trivial (.failsLen rfl (.inr (.inr ⟨rfl, rfl⟩)))
  refine ⟨_, _, failed, rfl, rfl, by decide, written_whole, ?_⟩
  intro more after run
  obtain ⟨down, same⟩ := panicked_stays run rfl
  refine ⟨down, fun addr member => ?_⟩
  rw [same] at member
  cases member

end TunnelConn
end Pos2.Tunnel
