import Pos2.Tunnel.Routing

/-! From the server name of a TLS connection to the connection of a client: the
`SniRouter` that `server_main` sets up, and `TunnelServer::handle` behind it. -/

namespace Pos2.Tunnel

/-- A hello with the server name that the TLS client sent. -/
structure ParsedHello where
  sni : Option Text

/-- `client_hello().server_name()`: rustls reports the name in lower case. -/
def ParsedHello.serverName (hello : ParsedHello) : Option Text := hello.sni.map Text.lower

structure SniRouter (H : Type) where
  handlers : Text → Option H
  default : Option H

def SniRouter.handle {H : Type} (router : SniRouter H) (hello : ParsedHello) : Except String H :=
  match hello.serverName with
  | none => .error "missing hello"
  | some name =>
    match (router.handlers name).or router.default with
    | some handler => .ok handler
    | none => .error "no handler"

inductive SniHandler where
  | web
  | tunnel
  deriving DecidableEq

/-- The web server answers for the server's own name, the tunnel for all others. -/
def serverRouter (hostname : Text) : SniRouter SniHandler where
  handlers := fun name => if name = hostname then some .web else none
  default := some .tunnel

namespace Routes
variable {ι : Type} [DecidableEq ι]

/-- The connection that `TunnelServer::handle` opens its stream on. -/
def handleHello (routes : Routes ι) (hello : ParsedHello) : Except String ι :=
  match hello.serverName with
  | none => .error "huh"
  | some name =>
    match routes.handle name with
    | some conn => .ok conn
    | none => .error "do not have server"

/-- The last connection registered for a domain that is still open. -/
def latestOpen (routes : Routes ι) (domain : Text) : Option ι :=
  ((routes.registeredFor domain).filter fun i => !(routes.clients i).closed).getLast?

/-- Whatever names the domain up to case, and is not for the server itself, finds the connection. -/
def Finds (hostname : Text) (routes : Routes ι) (domain : Text) (i : ι) : Prop :=
  ∀ hello name, hello.sni = some name → name.lower = domain.lower →
    (serverRouter hostname).handle hello = .ok .tunnel → routes.handleHello hello = .ok i

omit [DecidableEq ι] in
/-- An open connection has not been replaced, and its entry has not been cleaned up. -/
theorem Routed.latestOpen {routes : Routes ι} (routed : Routed routes) {domain : Text} {i : ι}
    (latest : routes.latestOpen domain = some i) :
    routes.conns domain = some i ∧ (routes.clients i).phase.registered = some domain := by
  have member := List.mem_of_getLast? latest
  rw [List.mem_filter] at member
  obtain ⟨member, open_⟩ := member
  have last : routes.lastFor domain = some i := by
    by_contra replaced
    simp [routed.replaced domain i member replaced] at open_
  have uncleaned : (routes.clients i).phase.isCleaned = false := by
    cases phase : (routes.clients i).phase with
    | cleaned other =>
      have closed := routed.closed i (by rw [phase]; rfl)
      simp [closed] at open_
    | _ => rfl
  refine ⟨?_, (routed.logged i domain).mp (mem_registeredFor.mp member)⟩
  rw [routed.current, last, Option.filter_some_pos (by simpa using uncleaned)]

omit [DecidableEq ι] in
private theorem handleHello_named (routes : Routes ι) (name : Text) {i : ι} :
    routes.handleHello ⟨some name⟩ = .ok i ↔ routes.conns name.lower = some i := by
  simp only [handleHello, ParsedHello.serverName, handle, Option.map_some]
  cases found : routes.conns name.lower <;> simp

private theorem serverRouter_tunnel (hostname name : Text) :
    (serverRouter hostname).handle ⟨some name⟩ = .ok .tunnel ↔ name.lower ≠ hostname := by
  by_cases own : name.lower = hostname <;> simp [serverRouter, SniRouter.handle, ParsedHello.serverName, own]

/-- The open connection of a domain is found if and only if the domain was
registered in lower case, or is the name of the server itself: the table has the domain as
it was registered, and is asked for it in lower case. -/
theorem finds_iff {availableSuffixes : List Text} {db : DB} {routes : Routes ι}
    (reachable : Reachable availableSuffixes db routes) (hostname : Text) {domain : Text} {i : ι}
    (latest : routes.latestOpen domain = some i) :
    Finds hostname routes domain i ↔ domain.lower = domain ∨ domain.lower = hostname := by
  obtain ⟨_, _, routed⟩ := reachable.invariants
  obtain ⟨found, registered⟩ := routed.latestOpen latest
  constructor
  · intro finds
    by_cases own : domain.lower = hostname
    · exact .inr own
    · left
      have entry := finds ⟨some domain⟩ domain rfl rfl ((serverRouter_tunnel hostname domain).mpr own)
      have last := (routed.entry ((handleHello_named routes domain).mp entry)).1
      have other := (routed.logged i domain.lower).mp (lastFor_mem last)
      rw [registered] at other
      exact (Option.some.inj other).symm
  · intro condition hello name sni same tunnel
    obtain ⟨_⟩ := hello
    cases sni
    have foreign := (serverRouter_tunnel hostname name).mp tunnel
    rw [same] at foreign
    rw [handleHello_named, same, condition.resolve_right foreign]
    exact found

/-- Alice registers a domain and her client connects for it. -/
theorem joined_reachable {availableSuffixes : List Text} {domain : Text}
    (registered : apiRegisterDomainHandler availableSuffixes (twoUsers []) "a".toList domain =
      some (twoUsers [⟨"alice".toList, domain⟩])) :
    Reachable availableSuffixes (twoUsers []) (joined (initial (twoUsers [⟨"alice".toList, domain⟩])) () 1
      ⟨domain, "a".toList⟩ ⟨"a".toList, "alice".toList⟩) := by
  have accepted : Reachable availableSuffixes (twoUsers []) (initial (ι := Unit) (twoUsers [⟨"alice".toList, domain⟩])) :=
    .single (.account (.registerDomain rfl trivial registered))
  refine accepted.joined rfl ?_ rfl rfl (List.mem_singleton_self domain)
  intro j connected
  cases connected

theorem finds_registered : Finds "pos.example.com".toList
    (joined (initial (twoUsers [⟨"alice".toList, "foo.example.com".toList⟩])) () 1
      ⟨"foo.example.com".toList, "a".toList⟩ ⟨"a".toList, "alice".toList⟩) "foo.example.com".toList () := by
  have reachable := @joined_reachable [".example.com".toList] "foo.example.com".toList rfl
  exact (finds_iff reachable "pos.example.com".toList rfl).mpr (.inl (by decide))

/-- A domain registered with a capital letter is never found. -/
theorem capital_not_found : ∃ routes : Routes Unit,
    Reachable [".example.com".toList] (twoUsers []) routes ∧
    routes.latestOpen "Foo.example.com".toList = some () ∧
    ¬ Finds "pos.example.com".toList routes "Foo.example.com".toList () := by
  have reachable := @joined_reachable [".example.com".toList] "Foo.example.com".toList rfl
  refine ⟨_, reachable, rfl, fun finds => ?_⟩
  have entry := finds ⟨some "foo.example.com".toList⟩ "foo.example.com".toList rfl (by decide) (by decide)
  cases entry

end Routes
end Pos2.Tunnel
