import Pos2.Wasi.Worker

/-! What the worker does for its callers in a benign run: it lives until it is
stopped, runs every item once, and every caller who waits gets the result of its own item. -/

namespace Pos2.Wasi.WorkWorker
variable {ι ρ : Type} [DecidableEq ι] {work : ι → Work}

/-- What the state of a caller says about its item. -/
def Placed (worker : WorkWorker ι ρ) (i : ι) : Caller ρ → Prop
  | .idle | .sending => i ∉ worker.accepted
  | .waiting => i ∈ worker.accepted
  | .received reply => worker.slots i = some reply
  | .lost => False
  | .panicked => worker.stopped = true
  | .cancelled => True

structure Sound (work : ι → Work) (worker : WorkWorker ι ρ) : Prop where
  alive : worker.phase ≠ .panicked
  selecting : worker.phase = .selecting ∨ worker.stopped = true ∨ (worker.sendersGone = true ∧ worker.queue = [])
  unused : worker.sendersGone = true → ∀ i, worker.callers i ≠ .sending
  returned : worker.phase = .returned → worker.queue = [] ∧ worker.running = []
  once : (worker.started ++ worker.queue).Nodup
  accepted : ∀ i, i ∈ worker.accepted ↔ i ∈ worker.started ∨ i ∈ worker.queue
  single : worker.running.Nodup
  started : ∀ i, i ∈ worker.started ↔ i ∈ worker.running ∨ worker.slots i ≠ none
  unsent : ∀ i ∈ worker.running, worker.slots i = none
  ended : (worker.completed.map Prod.fst).Nodup
  completed : ∀ i, i ∈ worker.completed.map Prod.fst ↔ worker.slots i ≠ none
  sent : ∀ i reply, worker.slots i = some reply →
    ∃ outcome, (i, outcome) ∈ worker.completed ∧ (work i).body outcome = .value reply
  callers : ∀ i, worker.Placed i (worker.callers i)

omit [DecidableEq ι] in
theorem initial_sound : Sound work (initial : WorkWorker ι ρ) where
  alive := nofun
  selecting := .inl rfl
  unused := nofun
  returned := nofun
  once := List.nodup_nil
  accepted := by simp [initial]
  single := List.nodup_nil
  started := by simp [initial]
  unsent := nofun
  ended := List.nodup_nil
  completed := by simp [initial]
  sent := nofun
  callers := fun i => List.not_mem_nil

private theorem setCaller_callers (worker : WorkWorker ι ρ) (i j : ι) (caller : Caller ρ) :
    (worker.setCaller i caller).callers j = if j = i then caller else worker.callers j := by
  exact Function.update_apply worker.callers i caller j

/-- A caller that changes alone. -/
theorem Sound.setCaller {worker : WorkWorker ι ρ} (sound : Sound work worker) {i : ι} {caller : Caller ρ}
    (placed : worker.Placed i caller) (sends : caller = .sending → worker.sendersGone = false) :
    Sound work (worker.setCaller i caller) := by
  refine { sound with unused := fun gone j => ?_, callers := fun j => ?_ }
  · rw [setCaller_callers]
    split
    · intro sending
      rw [show worker.sendersGone = true from gone] at sends
      cases sends sending
    · exact sound.unused gone j
  · rw [setCaller_callers]
    split
    · rename_i same
      subst same
      exact placed
    · exact sound.callers j

omit [DecidableEq ι] in
theorem Placed.keep {worker after : WorkWorker ι ρ} {i : ι} {caller : Caller ρ} (placed : worker.Placed i caller)
    (accepted : i ∈ after.accepted ↔ i ∈ worker.accepted)
    (slots : ∀ reply, worker.slots i = some reply → after.slots i = some reply)
    (stopped : worker.stopped = true → after.stopped = true) : after.Placed i caller := by
  cases caller with
  | idle | sending => exact fun member => placed (accepted.mp member)
  | waiting => exact accepted.mpr placed
  | received reply => exact slots reply placed
  | panicked => exact stopped placed
  | lost => exact placed
  | cancelled => trivial

theorem Sound.send {worker : WorkWorker ι ρ} (sound : Sound work worker) {i : ι}
    (sending : worker.callers i = .sending) (listens : worker.phase.listens = true) :
    Sound work { worker.setCaller i .waiting with
      queue := worker.queue ++ [i], accepted := worker.accepted ++ [i] } := by
  have fresh : i ∉ worker.accepted := by
    have placed := sound.callers i
    rwa [sending] at placed
  have elsewhere := fresh
  rw [sound.accepted, ← List.mem_append] at elsewhere
  have open_ : worker.sendersGone ≠ true := fun gone => sound.unused gone i sending
  refine { sound with selecting := ?_, unused := ?_, returned := ?_, once := ?_, accepted := ?_, callers := ?_ }
  · rcases sound.selecting with selecting | stopped | ⟨gone, _⟩
    · exact .inl selecting
    · exact .inr (.inl stopped)
    · exact (open_ gone).elim
  · exact fun gone => (open_ gone).elim
  · intro returned
    have closed : worker.phase = .returned := returned
    rw [closed] at listens
    cases listens
  · have last : (worker.started ++ worker.queue ++ [i]).Nodup := by
      rw [List.nodup_middle, List.append_nil, List.nodup_cons]
      exact ⟨elsewhere, sound.once⟩
    rwa [List.append_assoc] at last
  · intro j
    simp only [WorkWorker.setCaller, List.mem_append, List.mem_singleton, sound.accepted, or_assoc]
  · intro j
    simp only [setCaller_callers]
    split
    · rename_i same
      subst same
      exact List.mem_append_right _ (List.mem_singleton.mpr rfl)
    · rename_i other
      refine (sound.callers j).keep ?_ (fun _ sent => sent) (fun stopped => stopped)
      simp only [List.mem_append, List.mem_singleton]
      exact or_iff_left other

omit [DecidableEq ι] in
theorem Sound.recv {worker : WorkWorker ι ρ} (sound : Sound work worker) {i : ι} {rest : List ι}
    (selecting : worker.phase = .selecting) (queued : worker.queue = i :: rest) :
    Sound work { worker with queue := rest, running := worker.running ++ [i], started := worker.started ++ [i] } := by
  have once := sound.once
  rw [queued, List.nodup_middle, List.nodup_cons] at once
  have unstarted : i ∉ worker.started := fun started => once.1 (List.mem_append_left _ started)
  have known := sound.started i
  rw [iff_false_left unstarted, not_or, not_not] at known
  obtain ⟨idle, unsent⟩ := known
  refine { sound with
    selecting := .inl selecting, returned := ?_, once := ?_, accepted := ?_, single := ?_, started := ?_,
    unsent := ?_, callers := fun j => (sound.callers j).keep Iff.rfl (fun _ sent => sent) fun stopped => stopped }
  · intro returned
    cases selecting.symm.trans returned
  · rw [List.append_assoc, List.singleton_append, List.nodup_middle, List.nodup_cons]
    exact once
  · intro j
    rw [sound.accepted, queued]
    simp only [List.mem_append, List.mem_cons, List.not_mem_nil, or_false, or_assoc]
  · rw [List.nodup_append]
    refine ⟨sound.single, List.nodup_singleton i, ?_⟩
    intro j running k new same
    rw [List.mem_singleton.mp new] at same
    exact idle (same ▸ running)
  · intro j
    simp only [List.mem_append, List.mem_singleton, sound.started]
    tauto
  · intro j running
    rcases List.mem_append.mp running with old | new
    · exact sound.unsent j old
    · rw [List.mem_singleton.mp new]
      exact unsent

private theorem complete_value {worker : WorkWorker ι ρ} {i : ι} {outcome : GuestOutcome ρ} {reply : Reply ρ}
    (value : (work i).body outcome = .value reply) (there : worker.callers i ≠ .cancelled) :
    worker.complete work i outcome = { worker with
      running := worker.running.erase i
      slots := Function.update worker.slots i (some reply)
      completed := worker.completed ++ [(i, outcome)] } := by
  unfold complete
  rw [value]
  cases caller : worker.callers i with
  | cancelled => exact (there caller).elim
  | _ => rfl

theorem Sound.complete {worker : WorkWorker ι ρ} (sound : Sound work worker) {i : ι} (runs : i ∈ worker.running)
    {outcome : GuestOutcome ρ} {reply : Reply ρ} (value : (work i).body outcome = .value reply)
    (there : worker.callers i ≠ .cancelled) : Sound work (worker.complete work i outcome) := by
  rw [complete_value value there]
  have empty := sound.unsent i runs
  have slot (j : ι) : Function.update worker.slots i (some reply) j = if j = i then some reply else worker.slots j :=
    Function.update_apply worker.slots i (some reply) j
  refine { sound with
    returned := ?_, single := sound.single.erase i, started := ?_, unsent := ?_, ended := ?_, completed := ?_,
    sent := ?_, callers := ?_ }
  · intro returned
    rw [(sound.returned returned).2] at runs
    cases runs
  · intro j
    simp only [sound.started, sound.single.mem_erase_iff, slot]
    by_cases same : j = i
    · simp [same, runs]
    · simp [same]
  · intro j running
    obtain ⟨other, running⟩ := sound.single.mem_erase_iff.mp running
    simp only [slot, if_neg other]
    exact sound.unsent j running
  · rw [List.map_append, List.nodup_append]
    refine ⟨sound.ended, List.nodup_singleton i, ?_⟩
    intro j ended k new same
    rw [List.mem_singleton.mp new] at same
    rw [same] at ended
    exact (sound.completed i).mp ended empty
  · intro j
    simp only [List.map_append, List.map_singleton, List.mem_append, List.mem_singleton, sound.completed, slot]
    by_cases same : j = i
    · simp [same]
    · simp [same]
  · intro j sent found
    simp only [slot] at found
    split at found
    · rename_i same
      subst same
      cases found
      exact ⟨outcome, List.mem_append_right _ (List.mem_singleton.mpr rfl), value⟩
    · obtain ⟨earlier, completed, body⟩ := sound.sent j sent found
      exact ⟨earlier, List.mem_append_left _ completed, body⟩
  · intro j
    refine (sound.callers j).keep Iff.rfl ?_ (fun stopped => stopped)
    intro sent found
    have other : j ≠ i := by
      intro same
      rw [same, empty] at found
      cases found
    simp only [slot, if_neg other]
    exact found

omit [DecidableEq ι] in
/-- What was started has a task or a result. -/
theorem Sound.lose {worker : WorkWorker ι ρ} (sound : Sound work worker) {i : ι}
    (waiting : worker.callers i = .waiting) (unsent : worker.slots i = none)
    (gone : i ∉ worker.queue ∧ i ∉ worker.running) : False := by
  have placed := sound.callers i
  rw [waiting] at placed
  rcases (sound.accepted i).mp placed with started | queued
  · rcases (sound.started i).mp started with running | sent
    · exact gone.2 running
    · exact sent unsent
  · exact gone.1 queued

omit [DecidableEq ι] in
theorem Sound.closed {worker : WorkWorker ι ρ} (sound : Sound work worker) {i : ι}
    (sending : worker.callers i = .sending) (closed : worker.phase.listens = false) : worker.stopped = true := by
  rcases sound.selecting with selecting | stopped | ⟨gone, _⟩
  · rw [selecting] at closed
    cases closed
  · exact stopped
  · exact (sound.unused gone i sending).elim

theorem Sound.step {event : Event ι ρ} {worker after : WorkWorker ι ρ} (step : Step work event worker after)
    (allowed : benign work worker event) (sound : Sound work worker) : Sound work after := by
  cases step with
  | @submit _ i idle open_ =>
    have placed := sound.callers i
    rw [idle] at placed
    exact sound.setCaller placed fun _ => open_
  | send sending listens room => exact sound.send sending listens
  | sendFails sending closed => exact sound.setCaller (sound.closed sending closed) nofun
  | cancel pending => exact sound.setCaller trivial nofun
  | receive waiting sent => exact sound.setCaller sent nofun
  | lose waiting unsent gone => exact (sound.lose waiting unsent gone).elim
  | stop =>
    exact { sound with
      selecting := .inr (.inl rfl)
      callers := fun j => (sound.callers j).keep Iff.rfl (fun _ sent => sent) fun _ => rfl }
  | dropSenders unused =>
    refine { sound with
      selecting := ?_
      unused := fun _ => unused
      callers := fun j => (sound.callers j).keep Iff.rfl (fun _ sent => sent) fun stopped => stopped }
    rcases sound.selecting with selecting | stopped | ⟨gone, empty⟩
    · exact .inl selecting
    · exact .inr (.inl stopped)
    · exact .inr (.inr ⟨rfl, empty⟩)
  | seesStop selecting stopped =>
    exact { sound with
      alive := nofun
      selecting := .inr (.inl stopped)
      returned := nofun
      callers := fun j => (sound.callers j).keep Iff.rfl (fun _ sent => sent) fun stopped => stopped }
  | seesEnd selecting gone empty =>
    exact { sound with
      alive := nofun
      selecting := .inr (.inr ⟨gone, empty⟩)
      returned := nofun
      callers := fun j => (sound.callers j).keep Iff.rfl (fun _ sent => sent) fun stopped => stopped }
  | recv selecting queued => exact sound.recv selecting queued
  | completes listens runs =>
    obtain ⟨⟨reply, value⟩, there⟩ := allowed
    exact sound.complete runs value there
  | traps => exact allowed.elim
  | hostPanics => exact allowed.elim
  | returns draining idle =>
    have empty : worker.queue = [] := allowed
    refine { sound with
      alive := nofun
      selecting := ?_
      returned := fun _ => ⟨rfl, idle⟩
      once := empty ▸ sound.once
      accepted := empty ▸ sound.accepted
      callers := fun j => (sound.callers j).keep Iff.rfl (fun _ sent => sent) fun stopped => stopped }
    rcases sound.selecting with selecting | stopped | ⟨gone, _⟩
    · cases draining.symm.trans selecting
    · exact .inr (.inl stopped)
    · exact .inr (.inr ⟨gone, rfl⟩)

theorem Sound.run {events : List (Event ι ρ)} {worker after : WorkWorker ι ρ} (sound : Sound work worker)
    (run : Run work (benign work) worker events after) : Sound work after := by
  induction run with
  | start => exact sound
  | step _ allowed step before => exact before.step step allowed

private theorem complete_callers (worker : WorkWorker ι ρ) (i : ι) (outcome : GuestOutcome ρ) :
    (worker.complete work i outcome).callers = worker.callers := by
  unfold complete
  split <;> rfl

private theorem complete_started (worker : WorkWorker ι ρ) (i : ι) (outcome : GuestOutcome ρ) :
    (worker.complete work i outcome).started = worker.started := by
  unfold complete
  split <;> rfl

theorem Step.started {event : Event ι ρ} {worker after : WorkWorker ι ρ} (step : Step work event worker after)
    {i : ι} (started : i ∈ worker.started) : i ∈ after.started := by
  cases step with
  | recv => exact List.mem_append_left _ started
  | completes =>
    rw [complete_started]
    exact started
  | _ => exact started

/-- A step takes a queued item or moves it no further back; `recv` moves it forward. -/
theorem Step.queued {event : Event ι ρ} {worker after : WorkWorker ι ρ} (step : Step work event worker after)
    (allowed : benign work worker event) {i : ι} (queued : i ∈ worker.queue) :
    i ∈ after.started ∨ (i ∈ after.queue ∧ after.queue.idxOf i ≤ worker.queue.idxOf i ∧
      (event = .recv → after.queue.idxOf i < worker.queue.idxOf i)) := by
  cases step with
  | send =>
    refine .inr ⟨List.mem_append_left _ queued, ?_, nofun⟩
    exact Nat.le_of_eq (List.idxOf_append_of_mem queued)
  | @recv _ j rest selecting front =>
    rw [front] at queued ⊢
    by_cases same : j = i
    · subst same
      exact .inl (List.mem_append_right _ (List.mem_singleton.mpr rfl))
    · have behind : i ∈ rest := List.mem_of_ne_of_mem (Ne.symm same) queued
      rw [List.idxOf_cons_ne rest same]
      exact .inr ⟨behind, Nat.le_succ _, fun _ => Nat.lt_succ_self _⟩
  | completes listens runs =>
    obtain ⟨⟨reply, value⟩, there⟩ := allowed
    rw [complete_value value there]
    exact .inr ⟨queued, Nat.le_refl _, nofun⟩
  | traps => exact allowed.elim
  | hostPanics => exact allowed.elim
  | returns draining idle =>
    have empty : worker.queue = [] := allowed
    rw [empty] at queued
    cases queued
  | _ => exact .inr ⟨queued, Nat.le_refl _, nofun⟩

/-- A caller whose item the worker has, and who has not lost it. -/
def Settling : Caller ρ → Prop
  | .waiting | .received _ | .cancelled => True
  | .idle | .sending | .lost | .panicked => False

private theorem setCaller_settling {worker : WorkWorker ι ρ} {i j : ι} {caller : Caller ρ}
    (settling : Settling (worker.callers i)) (moved : Settling (worker.callers j) → Settling caller) :
    Settling ((worker.setCaller j caller).callers i) := by
  rw [setCaller_callers]
  split
  · rename_i same
    exact moved (same ▸ settling)
  · exact settling

private theorem Step.settling {event : Event ι ρ} {worker after : WorkWorker ι ρ} (step : Step work event worker after)
    (sound : Sound work worker) {i : ι} (settling : Settling (worker.callers i)) : Settling (after.callers i) := by
  cases step with
  | submit idle => exact setCaller_settling settling fun settles => by rwa [idle] at settles
  | send => exact setCaller_settling settling fun _ => trivial
  | sendFails sending => exact setCaller_settling settling fun settles => by rwa [sending] at settles
  | cancel => exact setCaller_settling settling fun _ => trivial
  | receive => exact setCaller_settling settling fun _ => trivial
  | lose waiting unsent gone => exact (sound.lose waiting unsent gone).elim
  | completes =>
    rw [complete_callers]
    exact settling
  | _ => exact settling

section Endless
variable {workers : Nat → WorkWorker ι ρ} {events : Nat → Option (Event ι ρ)}

private theorem Endless.fires {rules : Rules ι ρ} (endless : Endless work rules workers events) {n : Nat}
    {event : Event ι ρ}
    (fires : events n = some event) :
    rules (workers n) event ∧ Step work event (workers n) (workers (n + 1)) := by
  have here := endless n
  rw [fires] at here
  exact here

theorem Endless.keeps {rules : Rules ι ρ} (endless : Endless work rules workers events)
    {P : WorkWorker ι ρ → Prop}
    (kept : ∀ {event before after}, rules before event → Step work event before after → P before → P after)
    {n m : Nat} (later : n ≤ m) (here : P (workers n)) : P (workers m) := by
  induction later with
  | refl => exact here
  | @step m _ there =>
    cases fires : events m with
    | none =>
      have same := endless m
      rw [fires] at same
      exact same ▸ there
    | some event =>
      obtain ⟨allowed, step⟩ := endless.fires fires
      exact kept allowed step there

variable (endless : Endless work (benign work) workers events)
include endless

theorem Endless.sound (initially : Sound work (workers 0)) {n : Nat} : Sound work (workers n) :=
  endless.keeps (fun allowed step before => before.step step allowed) (Nat.zero_le n) initially

private theorem Endless.settling (initially : Sound work (workers 0)) {n m : Nat} (later : n ≤ m) {i : ι}
    (waiting : (workers n).callers i = .waiting) :
    Settling ((workers m).callers i) := by
  have kept : Sound work (workers m) ∧ Settling ((workers m).callers i) := by
    refine endless.keeps (P := fun worker => Sound work worker ∧ Settling (worker.callers i)) ?_ later
      ⟨endless.sound initially, ?_⟩
    · intro event before after allowed step ⟨sound, settling⟩
      exact ⟨sound.step step allowed, step.settling sound settling⟩
    · rw [waiting]
      trivial
  exact kept.2

theorem Endless.queued {n m : Nat} (later : n ≤ m) {i : ι} (queued : i ∈ (workers n).queue) :
    i ∈ (workers m).started ∨
      (i ∈ (workers m).queue ∧ (workers m).queue.idxOf i ≤ (workers n).queue.idxOf i) := by
  refine endless.keeps (P := fun worker => i ∈ worker.started ∨
    (i ∈ worker.queue ∧ worker.queue.idxOf i ≤ (workers n).queue.idxOf i)) ?_ later (.inr ⟨queued, Nat.le_refl _⟩)
  intro event before after allowed step place
  rcases place with started | ⟨queued, bound⟩
  · exact .inl (step.started started)
  · rcases step.queued allowed queued with started | ⟨queued, closer, _⟩
    · exact .inl started
    · exact .inr ⟨queued, Nat.le_trans closer bound⟩

/-- The induction is on the place in the queue. -/
theorem Endless.starts (fair : Fair workers events) {n : Nat} {i : ι} (queued : i ∈ (workers n).queue) :
    ∃ m ≥ n, i ∈ (workers m).started := by
  induction place : (workers n).queue.idxOf i using Nat.strongRecOn generalizing n with
  | ind place before =>
    obtain ⟨m, later, taken⟩ := fair.takes n (List.ne_nil_of_mem queued)
    rcases endless.queued later queued with started | ⟨queued, bound⟩
    · exact ⟨m, later, started⟩
    · rcases taken with taken | returned
      · obtain ⟨allowed, step⟩ := endless.fires taken
        rcases step.queued allowed queued with started | ⟨queued, _, closer⟩
        · exact ⟨m + 1, Nat.le_succ_of_le later, started⟩
        · obtain ⟨k, last, started⟩ := before _ (place ▸ Nat.lt_of_lt_of_le (closer rfl) bound) queued rfl
          exact ⟨k, by omega, started⟩
      · have empty : (workers m).queue = [] := (endless.fires returned).1
        rw [empty] at queued
        cases queued

private theorem Endless.replies (initially : Sound work (workers 0)) (fair : Fair workers events) {n : Nat} {i : ι}
    (started : i ∈ (workers n).started) (waiting : (workers n).callers i = .waiting) :
    ∃ m ≥ n, (workers m).callers i ≠ .waiting ∨ (workers m).slots i ≠ none := by
  rcases ((endless.sound initially).started i).mp started with running | sent
  · obtain ⟨m, later, left | ⟨outcome, completes⟩⟩ := fair.ends n i running waiting
    · exact ⟨m, later, .inl left⟩
    · obtain ⟨⟨⟨reply, value⟩, there⟩, step⟩ := endless.fires completes
      refine ⟨m + 1, Nat.le_succ_of_le later, .inr ?_⟩
      generalize workers (m + 1) = after at step
      cases step with
      | completes =>
        rw [complete_value value there]
        simp
  · exact ⟨n, Nat.le_refl n, .inr sent⟩

theorem Endless.served (initially : Sound work (workers 0)) (fair : Fair workers events) {n : Nat} {i : ι}
    (waiting : (workers n).callers i = .waiting) :
    ∃ m ≥ n, (workers m).callers i ≠ .waiting := by
  by_contra never
  push Not at never
  have placed := (endless.sound initially (n := n)).callers i
  rw [waiting] at placed
  have starts : ∃ m ≥ n, i ∈ (workers m).started := by
    rcases ((endless.sound initially).accepted i).mp placed with started | queued
    · exact ⟨n, Nat.le_refl n, started⟩
    · exact endless.starts fair queued
  obtain ⟨m, later, started⟩ := starts
  obtain ⟨k, last, replied⟩ := endless.replies initially fair started (never m later)
  have sent := replied.resolve_left fun left => left (never k (by omega))
  obtain ⟨j, polled, received⟩ := fair.polls k i (never k (by omega)) sent
  have event := received.resolve_left fun left => left (never j (by omega))
  obtain ⟨_, step⟩ := endless.fires event
  have still := never (j + 1) (by omega)
  generalize workers (j + 1) = after at step still
  cases step with
  | receive =>
    rw [setCaller_callers, if_pos rfl] at still
    cases still

end Endless

/-- What callers may rely on in every state. -/
structure Serves (work : ι → Work) (worker : WorkWorker ι ρ) : Prop where
  accepting : worker.phase = .selecting ∨ worker.stopped = true ∨ (worker.sendersGone = true ∧ worker.queue = [])
  once : (worker.started ++ worker.queue).Nodup ∧ (worker.completed.map Prod.fst).Nodup
  accepted : ∀ i, i ∈ worker.accepted ↔ i ∈ worker.started ∨ i ∈ worker.queue
  started : ∀ i, i ∈ worker.started ↔ i ∈ worker.running ∨ ∃ outcome, (i, outcome) ∈ worker.completed
  waiting : ∀ i, worker.callers i = .waiting → i ∈ worker.accepted
  received : ∀ i reply, worker.callers i = .received reply →
    ∃ outcome, (i, outcome) ∈ worker.completed ∧ (work i).body outcome = .value reply
  kept : ∀ i, worker.callers i ≠ .lost
  refused : ∀ i, worker.callers i = .panicked → worker.stopped = true

/-- What they may rely on in the long run. -/
structure Delivers (workers : Nat → WorkWorker ι ρ) : Prop where
  starts : ∀ n i, i ∈ (workers n).accepted → ∃ m ≥ n, i ∈ (workers m).started
  answers : ∀ n i, (workers n).callers i = .waiting →
    ∃ m ≥ n, (workers m).callers i = .cancelled ∨ ∃ reply, (workers m).callers i = .received reply

omit [DecidableEq ι] in
theorem Sound.serves {worker : WorkWorker ι ρ} (sound : Sound work worker) : Serves work worker where
  accepting := sound.selecting
  once := ⟨sound.once, sound.ended⟩
  accepted := sound.accepted
  started := by
    intro i
    rw [sound.started, ← sound.completed]
    simp
  waiting := by
    intro i waiting
    have placed := sound.callers i
    rwa [waiting] at placed
  received := by
    intro i reply received
    have placed := sound.callers i
    rw [received] at placed
    exact sound.sent i reply placed
  kept := by
    intro i lost
    have placed := sound.callers i
    rwa [lost] at placed
  refused := by
    intro i panicked
    have placed := sound.callers i
    rwa [panicked] at placed

theorem Endless.delivers {workers : Nat → WorkWorker ι ρ} {events : Nat → Option (Event ι ρ)}
    (endless : Endless work (benign work) workers events) (initially : Sound work (workers 0))
    (fair : Fair workers events) : Delivers workers where
  starts := by
    intro n i accepted
    rcases ((endless.sound initially).accepted i).mp accepted with started | queued
    · exact ⟨n, Nat.le_refl n, started⟩
    · exact endless.starts fair queued
  answers := by
    intro n i waiting
    obtain ⟨m, later, left⟩ := endless.served initially fair waiting
    have settling := endless.settling initially later waiting
    refine ⟨m, later, ?_⟩
    cases caller : (workers m).callers i with
    | waiting => exact (left caller).elim
    | received reply => exact .inr ⟨reply, rfl⟩
    | cancelled => exact .inl rfl
    | idle | sending | lost | panicked =>
      rw [caller] at settling
      exact settling.elim

theorem worker_serves {events : List (Event ι ρ)} {worker : WorkWorker ι ρ}
    (run : Run work (benign work) initial events worker) :
    Serves work worker ∧
      ∀ (workers : Nat → WorkWorker ι ρ) (later : Nat → Option (Event ι ρ)), workers 0 = worker →
        Endless work (benign work) workers later → Fair workers later → Delivers workers := by
  have sound := initial_sound.run run
  refine ⟨sound.serves, ?_⟩
  intro workers later start endless fair
  exact endless.delivers (start ▸ sound) fair

theorem worker_serves_two : ∃ worker : WorkWorker Nat Nat,
    worker.callers 0 = .received (.handled 7) ∧ worker.callers 1 = .waiting ∧ worker.accepted = [0, 1] ∧
      Serves (fun _ => .handle) worker := by
  have new : Run (fun _ => .handle) (benign fun _ => .handle) (initial : WorkWorker Nat Nat) [] initial := .start
  have running := new
    |>.step (by exact trivial) (.submit (i := 0) rfl rfl)
    |>.step (by exact trivial) (.send (i := 0) rfl rfl (by decide))
    |>.step (by exact trivial) (.recv rfl rfl)
  have received := running.step (by exact ⟨⟨_, rfl⟩, nofun⟩)
      (show Step _ (.completes 0 (.response 7)) _ _ from .completes rfl (List.mem_singleton_self 0))
    |>.step (by exact trivial) (.receive (i := 0) rfl rfl)
    |>.step (by exact trivial) (.submit (i := 1) rfl rfl)
    |>.step (by exact trivial) (.send (i := 1) rfl rfl (by decide))
  exact ⟨_, rfl, rfl, rfl, (worker_serves received).1⟩

/-- A worker that has panicked unasked, and a caller without a result. -/
def Down (worker : WorkWorker ι ρ) (i : ι) : Prop :=
  worker.phase = .panicked ∧ worker.stopped = false ∧ worker.sendersGone = false ∧ worker.callers i = .lost

/-- An event that unwinds the worker leaves a caller that waits without a result. -/
theorem unwinds_the_worker {worker : WorkWorker ι ρ} {j : ι} {event : Event ι ρ} {events : List (Event ι ρ)}
    (run : Run work anything initial events worker) (step : Step work event worker worker.unwind)
    (waiting : worker.callers j = .waiting) (unsent : worker.slots j = none) (asked : worker.stopped = false)
    (used : worker.sendersGone = false) :
    ∃ after : WorkWorker ι ρ, after.Down j ∧ Run work anything initial (events ++ [event] ++ [.lose j]) after := by
  have lost := (run.step trivial step).step trivial (.lose waiting unsent ⟨List.not_mem_nil, List.not_mem_nil⟩)
  refine ⟨_, ?_, lost⟩
  exact ⟨rfl, asked, used, (setCaller_callers _ j j _).trans (if_pos rfl)⟩

/-- A body that panics, or a caller who is gone, is such an event. -/
theorem completes_unwinds {worker : WorkWorker ι ρ} {i : ι} {outcome : GuestOutcome ρ}
    (listens : worker.phase.listens = true) (runs : i ∈ worker.running)
    (fails : (work i).body outcome = .panic ∨ worker.callers i = .cancelled) :
    Step work (.completes i outcome) worker worker.unwind := by
  have unwinds : worker.complete work i outcome = worker.unwind := by
    unfold complete
    rcases fails with panics | cancelled
    · rw [panics]
    · rw [cancelled]
      split <;> simp_all
  rw [← unwinds]
  exact .completes listens runs

/-- A request that ends in an error takes the worker down, and so does one whose
caller has dropped the future, one whose guest traps behind its response, and one
whose guest makes a host function panic. -/
theorem one_request_takes_down_the_worker :
    (∃ (events : List (Event Nat Nat)) (worker : WorkWorker Nat Nat), worker.Down 1 ∧
      Run (fun _ => .handle) anything initial (events ++ [.completes 0 .errorCode] ++ [.lose 1]) worker) ∧
    (∃ (events : List (Event Nat Nat)) (worker : WorkWorker Nat Nat), worker.Down 1 ∧
      Run (fun _ => .handle) anything initial (events ++ [.cancel 0] ++ [.completes 0 (.response 7)] ++ [.lose 1])
        worker) ∧
    (∃ (events : List (Event Nat Nat)) (worker : WorkWorker Nat Nat), worker.Down 1 ∧
      Run (fun _ => .handle) anything initial (events ++ [.completes 0 (.response 7)] ++ [.traps 0] ++ [.lose 1])
        worker) ∧
    ∃ (events : List (Event Nat Nat)) (worker : WorkWorker Nat Nat), worker.Down 1 ∧
      Run (fun _ => .handle) anything initial (events ++ [.hostPanics 0] ++ [.lose 1]) worker := by
  have new : Run (fun _ => .handle) anything (initial : WorkWorker Nat Nat) [] initial := .start
  have running := new
    |>.step trivial (.submit (i := 0) rfl rfl)
    |>.step trivial (.submit (i := 1) rfl rfl)
    |>.step trivial (.send (i := 0) rfl rfl (by decide))
    |>.step trivial (.send (i := 1) rfl rfl (by decide))
    |>.step trivial (.recv rfl rfl)
    |>.step trivial (.recv rfl rfl)
  have first : 0 ∈ [0, 1] := List.mem_cons_self ..
  refine ⟨?_, ?_, ?_, ?_⟩
  · exact ⟨_, unwinds_the_worker running (completes_unwinds rfl first (.inl rfl)) rfl rfl rfl rfl⟩
  · have cancelled := running.step trivial (.cancel (i := 0) (.inr rfl))
    exact ⟨_, unwinds_the_worker cancelled (completes_unwinds rfl first (.inr rfl)) rfl rfl rfl rfl⟩
  · have answered := running.step trivial
      (show Step _ (.completes 0 (.response 7)) _ _ from .completes rfl first)
    exact ⟨_, unwinds_the_worker answered (.traps rfl (List.mem_cons_self ..)) rfl rfl rfl rfl⟩
  · exact ⟨_, unwinds_the_worker running (.hostPanics rfl (List.mem_cons_self ..)) rfl rfl rfl rfl⟩

end Pos2.Wasi.WorkWorker
