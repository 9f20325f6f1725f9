import Pos2.Tunnel.Dns
import Pos2.Tunnel.Restart

/-! When two users can write no common name. The authorizer compares domains
letter for letter, a record is stored under what the DNS library reads in the
name: the users are apart exactly when no domain of one collides with a domain of
the other. -/

namespace Pos2.Tunnel

/-- The names that belong to a registered domain. -/
def namesAt (domain : Text) : List Text := [domain, WILDCARD ++ domain, ACME ++ domain]

/-- Those of them that the authorizer checks against the domain itself. -/
def checkedNames (domain : Text) : List Text := (namesAt domain).filter fun name => checkedDomain name = domain

section
variable {ν κ : Type} (formats : Formats ν κ)

/-- Two names, written in full, that are read and are one DNS name. -/
def SameName (name other : Text) : Prop :=
  (recordName formats (name ++ ".".toList)).isSome ∧
    recordName formats (name ++ ".".toList) = recordName formats (other ++ ".".toList)

/-- Who owns `domain` can write a name of `other`. -/
def Reaches (domain other : Text) : Prop :=
  ∃ name ∈ checkedNames domain, ∃ taken ∈ namesAt other, SameName formats name taken

/-- One of two domains gives write access to a name of the other. -/
def Collide (first second : Text) : Prop := Reaches formats first second ∨ Reaches formats second first

instance [DecidableEq κ] (name other : Text) : Decidable (SameName formats name other) :=
  inferInstanceAs (Decidable (_ ∧ _))

instance [DecidableEq κ] (domain other : Text) : Decidable (Reaches formats domain other) :=
  inferInstanceAs (Decidable (∃ name ∈ checkedNames domain, ∃ taken ∈ namesAt other, SameName formats name taken))

instance [DecidableEq κ] (first second : Text) : Decidable (Collide formats first second) :=
  inferInstanceAs (Decidable (_ ∨ _))

variable {formats}

theorem SameName.symm {name other : Text} (same : SameName formats name other) : SameName formats other name :=
  ⟨same.2 ▸ same.1, same.2.symm⟩

theorem Collide.symm {first second : Text} (collide : Collide formats first second) :
    Collide formats second first := collide.elim .inr .inl

end

private theorem heads_differ (first second : Text) : ACME ++ first ≠ WILDCARD ++ second := by
  rw [show ACME = '_' :: "acme-challenge.".toList from rfl, show WILDCARD = '*' :: ['.'] from rfl]
  simp only [List.cons_append, ne_eq, List.cons.injEq, not_and]
  intro impossible
  exact absurd impossible (by decide)

/-- A name is checked against what follows its challenge or wildcard label. -/
theorem checkedDomain_eq {name domain : Text} : checkedDomain name = domain ↔
    name = ACME ++ domain ∨ name = WILDCARD ++ domain ∨
      name = domain ∧ ¬ ACME <+: domain ∧ ¬ WILDCARD <+: domain := by
  unfold checkedDomain
  cases acme : name.stripPrefix ACME with
  | some trimmed =>
    rw [Text.stripPrefix_eq_some] at acme
    subst acme
    simp only
    refine ⟨fun same => .inl (by rw [same]), ?_⟩
    rintro (same | same | ⟨rfl, plain, _⟩)
    · exact List.append_cancel_left same
    · exact (heads_differ _ _ same).elim
    · exact (plain (List.prefix_append _ _)).elim
  | none =>
    rw [Text.stripPrefix_eq_none] at acme
    cases wildcard : name.stripPrefix WILDCARD with
    | some trimmed =>
      rw [Text.stripPrefix_eq_some] at wildcard
      subst wildcard
      simp only
      refine ⟨fun same => .inr (.inl (by rw [same])), ?_⟩
      rintro (same | same | ⟨rfl, _, plain⟩)
      · exact (heads_differ _ _ same.symm).elim
      · exact List.append_cancel_left same
      · exact (plain (List.prefix_append _ _)).elim
    | none =>
      rw [Text.stripPrefix_eq_none] at wildcard
      refine ⟨fun same => .inr (.inr ⟨same, same ▸ acme, same ▸ wildcard⟩), ?_⟩
      rintro (rfl | rfl | ⟨same, _, _⟩)
      · exact (acme (List.prefix_append _ _)).elim
      · exact (wildcard (List.prefix_append _ _)).elim
      · exact same

private theorem mem_checkedNames {name domain : Text} : name ∈ checkedNames domain ↔ checkedDomain name = domain := by
  simp only [checkedNames, List.mem_filter, decide_eq_true_eq, and_iff_right_iff_imp]
  intro checked
  rcases checkedDomain_eq.mp checked with same | same | ⟨same, _⟩ <;> simp [namesAt, same]

/-- The domains a user has registered. -/
def DB.domainsOf (db : DB) (userId : Text) : List Text :=
  (db.userDomains.filter fun row => row.userId = userId).map UserDomain.domain

/-- Every domain belongs to a user. -/
def Owned (db : DB) : Prop := ∀ row ∈ db.userDomains, ∃ user ∈ db.users, user.id = row.userId

theorem DB.mem_domainsOf {db : DB} {userId domain : Text} :
    domain ∈ db.domainsOf userId ↔ ⟨userId, domain⟩ ∈ db.userDomains := by
  simp only [domainsOf, List.mem_map, List.mem_filter, decide_eq_true_eq]
  constructor
  · rintro ⟨⟨_, _⟩, ⟨member, rfl⟩, rfl⟩
    exact member
  · intro member
    exact ⟨_, ⟨member, rfl⟩, rfl⟩

theorem DB.getUserById_domains {db : DB} {userId : Text} {user : UserInfo}
    (found : db.getUserById userId = some user) : user.user.id = userId ∧ user.domains = db.domainsOf userId := by
  obtain ⟨row, present, rfl⟩ := Option.map_eq_some_iff.mp found
  have same := List.find?_some present
  simp only [decide_eq_true_eq] at same
  exact ⟨same, by simp only [domainsOf, same]⟩

theorem Owned.getUserById {db : DB} (owned : Owned db) {userId domain : Text}
    (member : domain ∈ db.domainsOf userId) : ∃ user, db.getUserById userId = some user := by
  obtain ⟨user, present, same⟩ := owned _ (DB.mem_domainsOf.mp member)
  cases found : db.users.find? fun user => user.id = userId with
  | none =>
    have absent := List.find?_eq_none.mp found user present
    exact (absent (by simpa using same)).elim
  | some row => exact ⟨_, by rw [DB.getUserById, found]; rfl⟩

/-- The authorizer lets a token write what is checked against a domain of its user. -/
theorem canWrite_ok_iff {db : DB} (owned : Owned db) {token domain : Text} {row : AuthToken}
    (present : db.getAuthTokenById token = some row) :
    canWrite db token domain = .ok () ↔
      ∃ name, domain = name ++ ".".toList ∧ checkedDomain name ∈ db.domainsOf row.userId := by
  unfold canWrite
  rw [present]
  simp only
  cases found : db.getUserById row.userId with
  | none =>
    simp only [reduceCtorEq, false_iff, not_exists, not_and]
    intro name _ member
    obtain ⟨user, some_⟩ := owned.getUserById member
    rw [found] at some_
    cases some_
  | some user =>
    simp only [(DB.getUserById_domains found).2]
    cases stripped : domain.stripSuffix ".".toList with
    | none =>
      simp only [reduceCtorEq, false_iff, not_exists, not_and]
      intro name same
      rw [Text.stripSuffix_eq_some.mpr same] at stripped
      cases stripped
    | some name =>
      rw [Text.stripSuffix_eq_some] at stripped
      subst stripped
      simp only
      constructor
      · intro allowed
        split at allowed
        next member => exact ⟨name, rfl, member⟩
        next => cases allowed
      · rintro ⟨other, same, member⟩
        rw [List.append_cancel_right same, if_pos member]

section
variable {ν κ : Type} (formats : Formats ν κ)

/-- No name that one token may write is stored under the key of one that the
other may write. -/
def Isolated (db : DB) (first second : Text) : Prop :=
  ∀ name other, canWrite db first name = .ok () → canWrite db second other = .ok () →
    ∀ key, recordName formats name = some key → recordName formats other ≠ some key

/-- No call that the token may make writes data at the domain, its wildcard or its
challenge. -/
def LeavesAlone (db : DB) (token domain : Text) : Prop :=
  ∀ (call : DnsCall) (entry : κ × RData ν), canWrite db token call.name = .ok () →
    call.written formats = some entry →
      ∀ name ∈ namesAt domain, recordName formats (name ++ ".".toList) ≠ some entry.1

/-- The tokens of two users share no name, and neither writes at a domain of the
other's user. -/
structure Separated (db : DB) (first second : Text) (row row' : AuthToken) : Prop where
  isolated : Isolated formats db first second
  first : ∀ domain ∈ db.domainsOf row'.userId, LeavesAlone formats db first domain
  second : ∀ domain ∈ db.domainsOf row.userId, LeavesAlone formats db second domain

variable {formats}

/-- A token leaves a domain alone if and only if no domain of its user reaches it. -/
theorem leavesAlone_iff {db : DB} (owned : Owned db) {token other : Text} {row : AuthToken}
    (present : db.getAuthTokenById token = some row) :
    LeavesAlone formats db token other ↔ ∀ domain ∈ db.domainsOf row.userId, ¬ Reaches formats domain other := by
  constructor
  · intro alone domain member reaches
    obtain ⟨name, checked, taken, inside, parsed, same⟩ := reaches
    obtain ⟨key, stored⟩ := Option.isSome_iff_exists.mp parsed
    have allowed : canWrite db token (name ++ ".".toList) = .ok () :=
      (canWrite_ok_iff owned present).mpr ⟨name, rfl, by rwa [mem_checkedNames.mp checked]⟩
    have written : (DnsCall.txt (name ++ ".".toList) []).written formats = some (key, .txt [[]]) := by
      obtain ⟨read, found, lowered⟩ := Option.map_eq_some_iff.mp stored
      rw [DnsCall.written, found, Option.map_some, lowered]
    exact alone (.txt (name ++ ".".toList) []) _ allowed written taken inside (same ▸ stored)
  · intro apart call entry allowed written taken inside stored
    obtain ⟨name, full, member⟩ := (canWrite_ok_iff owned present).mp allowed
    have key := call.written_key formats written
    rw [full] at key
    refine apart _ member ⟨name, mem_checkedNames.mpr rfl, taken, inside, ?_, ?_⟩
    · rw [key]
      rfl
    · rw [key, stored]

/-- Tokens that leave each other's domains alone share no name. -/
theorem isolated_of_alone {db : DB} (owned : Owned db) {first second : Text} {row row' : AuthToken}
    (present : db.getAuthTokenById first = some row) (present' : db.getAuthTokenById second = some row')
    (alone : ∀ domain ∈ db.domainsOf row'.userId, LeavesAlone formats db first domain) :
    Isolated formats db first second := by
  intro name other allowed allowed' key stored stored'
  obtain ⟨name, rfl, member⟩ := (canWrite_ok_iff owned present).mp allowed
  obtain ⟨other, rfl, member'⟩ := (canWrite_ok_iff owned present').mp allowed'
  have inside := (List.mem_filter.mp (mem_checkedNames.mpr (Eq.refl (checkedDomain other)))).1
  refine (leavesAlone_iff owned present).mp (alone _ member') _ member
    ⟨name, mem_checkedNames.mpr rfl, other, inside, ?_, ?_⟩
  · rw [stored]
    rfl
  · rw [stored, stored']

private theorem separated_iff {db : DB} (owned : Owned db) {first second : Text} {row row' : AuthToken}
    (present : db.getAuthTokenById first = some row) (present' : db.getAuthTokenById second = some row') :
    Separated formats db first second row row' ↔
      ∀ domain ∈ db.domainsOf row.userId, ∀ other ∈ db.domainsOf row'.userId, ¬ Collide formats domain other := by
  constructor
  · intro separated domain member other member' collide
    rcases collide with reaches | reaches
    · exact (leavesAlone_iff owned present).mp (separated.first other member') domain member reaches
    · exact (leavesAlone_iff owned present').mp (separated.second domain member) other member' reaches
  · intro apart
    have alone : ∀ other ∈ db.domainsOf row'.userId, LeavesAlone formats db first other :=
      fun other member' => (leavesAlone_iff owned present).mpr fun domain member reaches =>
        apart domain member other member' (.inl reaches)
    have alone' : ∀ domain ∈ db.domainsOf row.userId, LeavesAlone formats db second domain :=
      fun domain member => (leavesAlone_iff owned present').mpr fun other member' reaches =>
        apart domain member other member' (.inr reaches)
    exact ⟨isolated_of_alone owned present present' alone, alone, alone'⟩

end

/-- A step keeps the users and adds at most one domain, to a user. -/
theorem Step.domains {availableSuffixes : List Text} {policy : Policy} {db after : DB}
    (step : Step availableSuffixes policy db after) :
    (∀ user ∈ db.users, user ∈ after.users) ∧
    (after.userDomains = db.userDomains ∨
      ∃ user ∈ db.users, ∃ domain, policy db user.id domain ∧
        after.userDomains = db.userDomains ++ [⟨user.id, domain⟩]) := by
  cases step with
  | createUser created =>
    obtain ⟨inserted, insert, same⟩ := Option.bind_eq_some_iff.mp created
    cases same
    unfold DB.insertUser at insert
    split at insert
    next => cases insert
    next =>
      cases insert
      exact ⟨fun user member => List.mem_append_left _ member, .inl rfl⟩
  | createAuthToken created =>
    unfold DB.createAuthToken at created
    split at created
    next => cases created
    next =>
      cases created
      exact ⟨fun user member => member, .inl rfl⟩
  | registerDomain owner allowed registered =>
    rename_i token row domain
    simp only [apiRegisterDomainHandler, owner, Option.bind_eq_bind, Option.bind_some] at registered
    obtain ⟨info, found, registered⟩ := Option.bind_eq_some_iff.mp registered
    obtain ⟨user, present, rfl⟩ := Option.map_eq_some_iff.mp found
    have member := List.mem_of_find?_eq_some present
    have same := (DB.getUserById_domains found).1
    split at registered
    next =>
      unfold DB.registerUserDomain at registered
      split at registered
      next => cases registered
      next =>
        cases registered
        refine ⟨fun user member => member, .inr ⟨user, member, domain, ?_, rfl⟩⟩
        rw [show user.id = row.userId from same]
        exact allowed
    next => cases registered

theorem Owned.step {availableSuffixes : List Text} {policy : Policy} {db after : DB} (owned : Owned db)
    (step : Step availableSuffixes policy db after) : Owned after := by
  obtain ⟨kept, same | ⟨user, present, domain, _, added⟩⟩ := step.domains
  · intro row member
    rw [same] at member
    obtain ⟨user, present, owner⟩ := owned row member
    exact ⟨user, kept user present, owner⟩
  · intro row member
    rw [added] at member
    rcases List.mem_append.mp member with old | new
    · obtain ⟨user, present, owner⟩ := owned row old
      exact ⟨user, kept user present, owner⟩
    · rw [List.mem_singleton.mp new]
      exact ⟨user, kept user present, rfl⟩

theorem Reachable.owned {availableSuffixes : List Text} {policy : Policy} {db : DB}
    (reachable : Reachable availableSuffixes policy db) : Owned db := by
  induction reachable with
  | refl =>
    intro row member
    cases member
  | tail _ step ih => exact ih.step step

section
variable {ν κ : Type} (formats : Formats ν κ)

/-- A domain that collides with no domain of another user. -/
def uncontested : Policy := fun db userId domain =>
  ∀ row ∈ db.userDomains, row.userId ≠ userId → ¬ Collide formats row.domain domain

/-- No two users have domains that collide. -/
def Apart (db : DB) : Prop :=
  ∀ row ∈ db.userDomains, ∀ other ∈ db.userDomains, row.userId ≠ other.userId →
    ¬ Collide formats row.domain other.domain

variable {formats}

theorem Apart.step {availableSuffixes : List Text} {db after : DB} (apart : Apart formats db)
    (step : Step availableSuffixes (uncontested formats) db after) : Apart formats after := by
  obtain ⟨_, same | ⟨user, _, domain, clear, added⟩⟩ := step.domains
  · intro row member other member'
    rw [same] at member member'
    exact apart row member other member'
  · intro row member other member' different
    rw [added] at member member'
    rcases List.mem_append.mp member with old | new <;> rcases List.mem_append.mp member' with old' | new'
    · exact apart row old other old' different
    · rw [List.mem_singleton.mp new'] at different ⊢
      exact clear row old different
    · rw [List.mem_singleton.mp new] at different ⊢
      exact fun collide => clear other old' (Ne.symm different) collide.symm
    · rw [List.mem_singleton.mp new, List.mem_singleton.mp new'] at different
      exact (different rfl).elim

theorem Reachable.apart {availableSuffixes : List Text} {db : DB}
    (reachable : Reachable availableSuffixes (uncontested formats) db) : Apart formats db := by
  induction reachable with
  | refl =>
    intro row member
    cases member
  | tail _ step ih => exact ih.step step

end

/-! On names that are read letter for letter, domains collide where one equals, up
to case, the other, its wildcard or its challenge. -/

private theorem acme_lower : ACME.lower = ACME := by decide

private theorem wildcard_lower : WILDCARD.lower = WILDCARD := by decide

/-- Up to case, `domain` is the wildcard or the challenge name of `other`. -/
def Under (domain other : Text) : Prop :=
  domain.lower = ACME ++ other.lower ∨ domain.lower = WILDCARD ++ other.lower

private theorem sameName_plain {known : List (RData Text)} {name other : Text} :
    SameName (plainFormats known) name other ↔ name.lower = other.lower := by
  simp only [SameName, recordName, plainFormats, Option.map_some, Option.isSome_some, true_and,
    Option.some.injEq, Text.lower_append]
  exact ⟨List.append_cancel_right, fun same => by rw [same]⟩

theorem Reaches.plain {known : List (RData Text)} {domain other : Text}
    (reaches : Reaches (plainFormats known) domain other) :
    domain.lower = other.lower ∨ Under domain other ∨ Under other domain := by
  obtain ⟨name, checked, taken, inside, same⟩ := reaches
  rw [sameName_plain] at same
  simp only [namesAt, List.mem_cons, List.not_mem_nil, or_false] at inside
  rcases checkedDomain_eq.mp (mem_checkedNames.mp checked) with rfl | rfl | ⟨rfl, _⟩ <;>
    rcases inside with rfl | rfl | rfl <;>
    try simp only [Text.lower_append, acme_lower, wildcard_lower] at same
  · exact .inr (.inr (.inl same.symm))
  · exact (heads_differ _ _ same).elim
  · exact .inl (List.append_cancel_left same)
  · exact .inr (.inr (.inr same.symm))
  · exact .inl (List.append_cancel_left same)
  · exact (heads_differ _ _ same.symm).elim
  · exact .inl same
  · exact .inr (.inl (.inr same))
  · exact .inr (.inl (.inl same))

theorem Under.reaches {known : List (RData Text)} {domain other : Text} (under : Under domain other) :
    Reaches (plainFormats known) other domain := by
  rcases under with same | same
  · refine ⟨ACME ++ other, mem_checkedNames.mpr (checkedDomain_eq.mpr (.inl rfl)), domain, by simp [namesAt], ?_⟩
    rw [sameName_plain, Text.lower_append, acme_lower, same]
  · refine ⟨WILDCARD ++ other, mem_checkedNames.mpr (checkedDomain_eq.mpr (.inr (.inl rfl))), domain,
      by simp [namesAt], ?_⟩
    rw [sameName_plain, Text.lower_append, wildcard_lower, same]

theorem collide_plain {known : List (RData Text)} {first second : Text} :
    Collide (plainFormats known) first second ↔
      first.lower = second.lower ∨ Under first second ∨ Under second first := by
  constructor
  · rintro (reaches | reaches)
    · exact reaches.plain
    · rcases reaches.plain with same | under | under
      · exact .inl same.symm
      · exact .inr (.inr under)
      · exact .inr (.inl under)
  · rintro (same | under | under)
    · refine .inl ⟨ACME ++ first, mem_checkedNames.mpr (checkedDomain_eq.mpr (.inl rfl)), ACME ++ second,
        by simp [namesAt], ?_⟩
      rw [sameName_plain, Text.lower_append, Text.lower_append, same]
    · exact .inr under.reaches
    · exact .inl under.reaches

/-- Two users with a token each, and these domains. -/
def twoUsers (userDomains : List UserDomain) : DB where
  users := [⟨"alice".toList, "alice@mail".toList, none⟩, ⟨"bob".toList, "bob@mail".toList, none⟩]
  userDomains := userDomains
  authTokens := [⟨"a".toList, "alice".toList⟩, ⟨"b".toList, "bob".toList⟩]
  deviceTokens := []

theorem twoUsers_reachable {availableSuffixes : List Text} {policy : Policy} {first second : Text}
    (registered : apiRegisterDomainHandler availableSuffixes (twoUsers []) "a".toList first =
      some (twoUsers [⟨"alice".toList, first⟩]))
    (registered' : apiRegisterDomainHandler availableSuffixes (twoUsers [⟨"alice".toList, first⟩]) "b".toList
      second = some (twoUsers [⟨"alice".toList, first⟩, ⟨"bob".toList, second⟩]))
    (allowed : policy (twoUsers []) "alice".toList first)
    (allowed' : policy (twoUsers [⟨"alice".toList, first⟩]) "bob".toList second) :
    Reachable availableSuffixes policy (twoUsers [⟨"alice".toList, first⟩, ⟨"bob".toList, second⟩]) := by
  have alice : Step availableSuffixes policy DB.new { DB.new with users := [⟨"alice".toList, "alice@mail".toList, none⟩] } :=
    .createUser (show DB.new.createUser "alice".toList "alice@mail".toList none [] = _ from rfl)
  have bob : Step availableSuffixes policy _ { twoUsers [] with authTokens := [] } :=
    .createUser (show DB.createUser { DB.new with users := [⟨"alice".toList, "alice@mail".toList, none⟩] }
      "bob".toList "bob@mail".toList none [] = _ from rfl)
  have tokenA : Step availableSuffixes policy _ { twoUsers [] with authTokens := [⟨"a".toList, "alice".toList⟩] } :=
    .createAuthToken (show DB.createAuthToken { twoUsers [] with authTokens := [] } "a".toList "alice".toList = _
      from rfl)
  have tokenB : Step availableSuffixes policy _ (twoUsers []) :=
    .createAuthToken (show DB.createAuthToken { twoUsers [] with authTokens := [⟨"a".toList, "alice".toList⟩] }
      "b".toList "bob".toList = _ from rfl)
  have users := (((Relation.ReflTransGen.single alice).tail bob).tail tokenA).tail tokenB
  exact (users.tail (.registerDomain rfl allowed registered)).tail (.registerDomain rfl allowed' registered')

/-- In every reachable database the tokens of two users are separated if and only
if no domain of one collides with a domain of the other; and they are in every run
whose registrations were all uncontested. -/
theorem users_isolated {ν κ : Type} {formats : Formats ν κ} {availableSuffixes : List Text} {db : DB}
    (reachable : Reachable availableSuffixes unrestricted db) {first second : Text} {row row' : AuthToken}
    (present : db.getAuthTokenById first = some row) (present' : db.getAuthTokenById second = some row')
    (different : row.userId ≠ row'.userId) :
    (Separated formats db first second row row' ↔
      ∀ domain ∈ db.domainsOf row.userId, ∀ other ∈ db.domainsOf row'.userId, ¬ Collide formats domain other) ∧
    (Reachable availableSuffixes (uncontested formats) db → Separated formats db first second row row') := by
  refine ⟨separated_iff reachable.owned present present', ?_⟩
  intro clear
  rw [separated_iff reachable.owned present present']
  intro domain member other member'
  exact clear.apart _ (DB.mem_domainsOf.mp member) _ (DB.mem_domainsOf.mp member') different

/-- Two users with a domain each that are nothing alike. -/
theorem users_isolated_apart : Separated (plainFormats []) (twoUsers
    [⟨"alice".toList, "one.example.com".toList⟩, ⟨"bob".toList, "two.example.com".toList⟩]) "a".toList "b".toList
    ⟨"a".toList, "alice".toList⟩ ⟨"b".toList, "bob".toList⟩ := by
  have reachable (policy : Policy) := @twoUsers_reachable [".example.com".toList] policy
    "one.example.com".toList "two.example.com".toList rfl rfl
  refine (users_isolated (reachable unrestricted trivial trivial) rfl rfl (by decide)).2
    (reachable (uncontested (plainFormats [])) ?_ ?_)
  · intro row member
    cases member
  · intro row member _
    rw [List.mem_singleton.mp member]
    decide

/-- Two users whose domains differ in the case of one letter only. -/
theorem users_share_a_name : ∃ db, Reachable [".example.com".toList] unrestricted db ∧
    db.getAuthTokenById "a".toList = some ⟨"a".toList, "alice".toList⟩ ∧
    db.getAuthTokenById "b".toList = some ⟨"b".toList, "bob".toList⟩ ∧
    canWrite db "a".toList "foo.example.com.".toList = .ok () ∧
    canWrite db "b".toList "Foo.example.com.".toList = .ok () ∧
    recordName (plainFormats []) "foo.example.com.".toList = some "foo.example.com.".toList ∧
    recordName (plainFormats []) "Foo.example.com.".toList = some "foo.example.com.".toList ∧
    ¬ Isolated (plainFormats []) db "a".toList "b".toList := by
  have lowered : recordName (plainFormats []) "foo.example.com.".toList = some "foo.example.com.".toList :=
    congrArg some (by decide)
  have lowered' : recordName (plainFormats []) "Foo.example.com.".toList = some "foo.example.com.".toList :=
    congrArg some (by decide)
  have allowed : canWrite (twoUsers [⟨"alice".toList, "foo.example.com".toList⟩,
      ⟨"bob".toList, "Foo.example.com".toList⟩]) "a".toList "foo.example.com.".toList = .ok () := by decide
  have allowed' : canWrite (twoUsers [⟨"alice".toList, "foo.example.com".toList⟩,
      ⟨"bob".toList, "Foo.example.com".toList⟩]) "b".toList "Foo.example.com.".toList = .ok () := by decide
  refine ⟨_, twoUsers_reachable rfl rfl trivial trivial, rfl, rfl, allowed, allowed', lowered, lowered', ?_⟩
  intro isolated
  exact isolated _ _ allowed allowed' _ lowered lowered'

end Pos2.Tunnel
