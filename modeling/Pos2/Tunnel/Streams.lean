import Mathlib.Logic.Function.Basic

/-! The streams of one QUIC connection between `TunnelServer::handle` of
`tunnel/src/server.rs` and `TunnelClient::serve_conn` of `tunnel/src/client.rs`.
Streams are accepted in the order in which they were opened, and what is written on one
arrives in pieces of any size. -/

namespace Pos2.Tunnel

abbrev Chunk := List UInt8

/-- bincode on socket addresses: it decodes what it encoded, which fits a length byte. -/
structure Bincode (α : Type) where
  encode : α → Chunk
  decode : Chunk → Option α
  decodes : ∀ addr, decode (encode addr) = some addr
  short : ∀ addr, (encode addr).length ≤ 255

/-- What `TunnelServer::handle` writes before the payload. -/
def Bincode.preamble {α : Type} (bincode : Bincode α) (addr : α) : Chunk :=
  .ofNat (bincode.encode addr).length :: bincode.encode addr

structure SocketAddrV4 where
  ip : UInt8 × UInt8 × UInt8 × UInt8
  port : UInt16
deriving DecidableEq

namespace SocketAddrV4

/-- The variant, the octets, and the port in one byte or in three. -/
def encode (addr : SocketAddrV4) : Chunk :=
  [0, addr.ip.1, addr.ip.2.1, addr.ip.2.2.1, addr.ip.2.2.2] ++
    if addr.port.toNat < 251 then [addr.port.toUInt8] else [251, addr.port.toUInt8, (addr.port / 256).toUInt8]

def decode : Chunk → Option SocketAddrV4
  | 0 :: a :: b :: c :: d :: first :: rest =>
    if first.toNat < 251 then some ⟨(a, b, c, d), first.toUInt16⟩
    else match first, rest with
      | 251, low :: high :: _ => some ⟨(a, b, c, d), high.toUInt16 * 256 + low.toUInt16⟩
      | _, _ => none
  | _ => none

private theorem decode_encode (addr : SocketAddrV4) : decode addr.encode = some addr := by
  obtain ⟨⟨a, b, c, d⟩, port⟩ := addr
  by_cases small : port.toNat < 251
  · have fits : port.toUInt8.toNat = port.toNat := by
      rw [UInt16.toNat_toUInt8]
      omega
    have back : port.toUInt8.toUInt16 = port := by
      apply UInt16.toNat_inj.mp
      rw [UInt8.toNat_toUInt16, fits]
    rw [encode, if_pos small]
    change (if port.toUInt8.toNat < 251 then _ else _) = _
    rw [if_pos (fits ▸ small), back]
  · have back : (port / 256).toUInt8.toUInt16 * 256 + port.toUInt8.toUInt16 = port := by
      apply UInt16.toNat_inj.mp
      have bound := port.toNat_lt
      simp only [UInt16.toUInt16_toUInt8, UInt16.toNat_add, UInt16.toNat_mul, UInt16.toNat_mod, UInt16.toNat_div,
        UInt16.reduceToNat, Nat.reducePow, Nat.mod_add_mod]
      omega
    rw [encode, if_neg small]
    change some (SocketAddrV4.mk (a, b, c, d) ((port / 256).toUInt8.toUInt16 * 256 + port.toUInt8.toUInt16)) = _
    rw [back]

private theorem encode_short (addr : SocketAddrV4) : addr.encode.length ≤ 255 := by
  rw [encode]
  split <;> simp only [List.length_append, List.length_cons, List.length_nil] <;> omega

/-- bincode as it is on IPv4 addresses. -/
def bincode : Bincode SocketAddrV4 := ⟨encode, decode, decode_encode, encode_short⟩

end SocketAddrV4

/-- A stream as the server writes it, with how much of it has arrived and how much
`serve_conn` has read. -/
structure Stream where
  written : Chunk
  arrived : Nat
  consumed : Nat
  finished : Bool
  reset : Bool

/-- What `serve_conn` is waiting for. -/
inductive ServePhase (ι : Type) where
  | acceptBi
  | readLen (i : ι)
  | readAddr (i : ι) (len : Nat) (got : Chunk)
  | panicked
  | returned

/-- The connection with the tasks on both its ends. `pending` are the streams that
`accept_bi` has yet to return, `handed` those that went to the TLS acceptor, with
the addresses that were read from them. -/
structure TunnelConn (ι α : Type) where
  opened : List ι
  pending : List ι
  streams : ι → Stream
  phase : ServePhase ι
  handed : List (ι × α)
  closed : Bool

inductive StreamEvent (ι : Type) where
  | opens (i : ι)
  | writes (i : ι) (chunk : Chunk)
  | arrives (i : ι) (n : Nat)
  | finishes (i : ι)
  | resets (i : ι)
  | closes
  | accepts
  | readsLen
  | reads (n : Nat)
  | decodes
  | fails
  | returns

/-- The events that are steps of `serve_conn`. -/
def StreamEvent.serves {ι : Type} : StreamEvent ι → Bool
  | .accepts | .readsLen | .reads _ | .decodes | .fails | .returns => true
  | _ => false

namespace TunnelConn
variable {ι α : Type} [DecidableEq ι]

def initial : TunnelConn ι α where
  opened := []
  pending := []
  streams := fun _ => ⟨[], 0, 0, false, false⟩
  phase := .acceptBi
  handed := []
  closed := false

def set (conn : TunnelConn ι α) (i : ι) (stream : Stream) : TunnelConn ι α :=
  { conn with streams := Function.update conn.streams i stream }

/-- `serve_conn` reads `n` bytes of a stream and goes on. -/
def take (conn : TunnelConn ι α) (i : ι) (n : Nat) (phase : ServePhase ι) : TunnelConn ι α :=
  { conn.set i { conn.streams i with consumed := (conn.streams i).consumed + n } with phase := phase }

/-- Bytes have arrived that were not read, and they can still be. -/
def Readable (conn : TunnelConn ι α) (i : ι) (n : Nat) : Prop :=
  (conn.streams i).consumed + n ≤ (conn.streams i).arrived ∧ (conn.streams i).reset = false ∧ conn.closed = false

/-- A read that waits for more fails: the stream has ended, or the connection. -/
def Unreadable (conn : TunnelConn ι α) (i : ι) : Prop :=
  (conn.streams i).reset = true ∨ conn.closed = true ∨
    ((conn.streams i).finished = true ∧ (conn.streams i).consumed = (conn.streams i).written.length)

/-- What stands on a stream for an address is a part of the preamble, or all of it and payload. -/
def Follows (bincode : Bincode α) (addr : α) (written : Chunk) : Prop :=
  written <+: bincode.preamble addr ∨ bincode.preamble addr <+: written

/-- The address that `TunnelServer::handle` encodes on a stream, where it is one of its streams. -/
abbrev Source (ι α : Type) := ι → Option α

variable (bincode : Bincode α) (source : Source ι α)

inductive Step : StreamEvent ι → TunnelConn ι α → TunnelConn ι α → Prop where
  | opens {conn i} (fresh : i ∉ conn.opened) :
      Step (.opens i) conn { conn with opened := conn.opened ++ [i], pending := conn.pending ++ [i] }
  | writes {conn i chunk} (known : i ∈ conn.opened)
      (open_ : (conn.streams i).finished = false ∧ (conn.streams i).reset = false)
      (follows : ∀ addr, source i = some addr → Follows bincode addr ((conn.streams i).written ++ chunk)) :
      Step (.writes i chunk) conn
        (conn.set i { conn.streams i with written := (conn.streams i).written ++ chunk })
  | arrives {conn i n} (sent : (conn.streams i).arrived + n ≤ (conn.streams i).written.length) :
      Step (.arrives i n) conn (conn.set i { conn.streams i with arrived := (conn.streams i).arrived + n })
  | finishes {conn i} (known : i ∈ conn.opened) :
      Step (.finishes i) conn (conn.set i { conn.streams i with finished := true })
  | resets {conn i} (known : i ∈ conn.opened) :
      Step (.resets i) conn (conn.set i { conn.streams i with reset := true })
  | closes {conn} : Step .closes conn { conn with closed := true }
  | accepts {conn i rest} (accepting : conn.phase = .acceptBi) (next : conn.pending = i :: rest)
      (open_ : conn.closed = false) :
      Step .accepts conn { conn with pending := rest, phase := .readLen i }
  | readsLen {conn i len} (reading : conn.phase = .readLen i) (readable : conn.Readable i 1)
      (next : (conn.streams i).written[(conn.streams i).consumed]? = some len) :
      Step .readsLen conn (conn.take i 1 (.readAddr i len.toNat []))
  | reads {conn i len got n} (reading : conn.phase = .readAddr i len got) (some_ : 0 < n)
      (needed : got.length + n ≤ len) (readable : conn.Readable i n) :
      Step (.reads n) conn (conn.take i n
        (.readAddr i len (got ++ ((conn.streams i).written.drop (conn.streams i).consumed).take n)))
  | decodes {conn i len got addr} (reading : conn.phase = .readAddr i len got) (full : got.length = len)
      (decoded : bincode.decode got = some addr) :
      Step .decodes conn { conn with phase := .acceptBi, handed := conn.handed ++ [(i, addr)] }
  | undecodable {conn i len got} (reading : conn.phase = .readAddr i len got) (full : got.length = len)
      (garbled : bincode.decode got = none) :
      Step .decodes conn { conn with phase := .panicked }
  | failsLen {conn i} (reading : conn.phase = .readLen i) (unreadable : conn.Unreadable i) :
      Step .fails conn { conn with phase := .panicked }
  | failsAddr {conn i len got} (reading : conn.phase = .readAddr i len got) (short : got.length < len)
      (unreadable : conn.Unreadable i) :
      Step .fails conn { conn with phase := .panicked }
  | returns {conn} (accepting : conn.phase = .acceptBi) (closed : conn.closed = true) :
      Step .returns conn { conn with phase := .returned }

/-- The preamble is all there, and decodes. -/
def Whole (written : Chunk) : Prop :=
  ∃ len rest, written = len :: rest ∧ len.toNat ≤ rest.length ∧ (bincode.decode (rest.take len.toNat)).isSome

/-- If the preamble is all there, it decodes. -/
def Sane (written : Chunk) : Prop :=
  ∀ len rest, written = len :: rest → len.toNat ≤ rest.length → (bincode.decode (rest.take len.toNat)).isSome

/-- Which events are to happen in a state. -/
abbrev Rules (ι α : Type) := TunnelConn ι α → StreamEvent ι → Prop

def anything : Rules ι α := fun _ _ => True

/-- No stream ends before its preamble is all there, none is reset before its
preamble is read, and every preamble decodes. -/
def wholePreambles : Rules ι α
  | conn, .writes i chunk => Sane bincode ((conn.streams i).written ++ chunk)
  | conn, .finishes i => Whole bincode (conn.streams i).written
  | conn, .resets i => ∃ addr, (i, addr) ∈ conn.handed
  | _, _ => True

/-- A run with its events. -/
inductive Run (rules : Rules ι α) (conn : TunnelConn ι α) : List (StreamEvent ι) → TunnelConn ι α → Prop where
  | start : Run rules conn [] conn
  | step {events before event after} (run : Run rules conn events before) (allowed : rules before event)
      (step : Step bincode source event before after) : Run rules conn (events ++ [event]) after

/-- A run without end. Where there is no event, nothing happens. -/
def Endless (rules : Rules ι α) (conns : Nat → TunnelConn ι α) (events : Nat → Option (StreamEvent ι)) : Prop :=
  ∀ n, match events n with
    | none => conns (n + 1) = conns n
    | some event => rules (conns n) event ∧ Step bincode source event (conns n) (conns (n + 1))

/-- The preamble of every stream arrives, and `serve_conn` goes on where it can. -/
structure Fair (conns : Nat → TunnelConn ι α) (events : Nat → Option (StreamEvent ι)) : Prop where
  arrives : ∀ n i, i ∈ (conns n).opened → ∃ m ≥ n, (conns m).closed = true ∨
    Whole bincode (((conns m).streams i).written.take ((conns m).streams i).arrived)
  goes : ∀ n event after, event.serves = true → Step bincode source event (conns n) after →
    ∃ m ≥ n, ∃ event, events m = some event ∧ event.serves = true

/-- What holds of the connection in every state. -/
structure Framed (conn : TunnelConn ι α) : Prop where
  serving : conn.closed = true ∨ (conn.phase ≠ .panicked ∧ conn.phase ≠ .returned)
  once : (conn.handed.map Prod.fst).Nodup
  handed : ∀ i addr encoded, (i, addr) ∈ conn.handed → source i = some encoded →
    addr = encoded ∧ ∃ payload, (conn.streams i).written = bincode.preamble encoded ++ payload ∧
      (conn.streams i).consumed = (bincode.preamble encoded).length

/-- Every stream is handed to the TLS acceptor in the long run. -/
def Delivers (conns : Nat → TunnelConn ι α) : Prop :=
  ∀ n i, i ∈ (conns n).opened → ∃ m ≥ n, (conns m).closed = true ∨ ∃ addr, (i, addr) ∈ (conns m).handed

end TunnelConn
end Pos2.Tunnel
