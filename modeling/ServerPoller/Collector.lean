import ServerPoller.Sync
import ServerPoller.PollWorker
import ServerPoller.Scheduler

/-! The tasks of `collector.rs` and `sync.rs` that share the states map and the scheduler, as one
step function. A step is what a task does between two points where another one may run. -/

namespace ServerPoller
open Json RustText Transition

/-- Where `scheduler_loop` is: in `next_due`, before the check of the entry, or before `send`. -/
inductive SchedulerLoop where
  | waiting
  | popped (key : String) (due : ℚ)
  | accepted (key : String)
  deriving DecidableEq

/-- Where a worker is in `process_work_item`: before the snapshot, before the second lock of the
internal-only path, in `poll_server`, or before `try_send`. -/
inductive Worker where
  | idle
  | received (key : String)
  | internal (key : String)
  | polling (key : String) (snap : Snapshot)
  | sending (key : String) (payload : Value)

/-- Where `redis_force_ping_loop` is: in `BLPOP`, or fetching a target that was not in the map. -/
inductive ForceLoop where
  | waiting
  | fetching (target : String) (now : ℚ)
  deriving DecidableEq

structure Collector where
  states : States
  /-- The spawned tasks of `schedule` that did not run yet. -/
  tasks : List (String × ℚ)
  scheduler : Scheduler
  loop : SchedulerLoop
  workQueue : List String
  workers : Nat → Worker
  results : List Value
  forceLoop : ForceLoop

def Collector.start : Collector where
  states := ∅
  tasks := []
  scheduler := .new
  loop := .waiting
  workQueue := []
  workers := fun _ => .idle
  results := []
  forceLoop := .waiting

/-- The steps, with the times, draws and answers that they use up. -/
inductive Action where
  | refresh (now : ℚ) (entries : List (Value × ItemContext))
  | trigger (targets : Option (List String)) (now : ℚ)
  | popTarget (target : String) (now : ℚ)
  | fetched (getServer : Int64 → Option ServerCatalogItem) (ctx : ItemContext)
  | runTask (i : Nat)
  | nextDue (now : ℚ)
  | check
  | send
  | receive (i : Nat)
  | snapshot (i : Nat)
  | rescheduleInternal (i : Nat) (now : ℚ) (jitter : JitterDraw)
  | finishPoll (i : Nat) (result : PollResult) (ctx : UpdateContext)
  | trySend (i : Nat)
  | ingestReceive

def Collector.setWorker (c : Collector) (i : Nat) (w : Worker) : Collector :=
  { c with workers := Function.update c.workers i w }

/-- A change of the map, with its calls of `schedule`. -/
def Collector.reschedule (c : Collector) (r : Rescheduled) : Collector :=
  { c with states := r.states, tasks := c.tasks ++ r.scheduled }

/-- The check of a popped entry against the map. -/
def matchesDue (states : States) (key : String) (due : ℚ) : Bool :=
  (states.lookup key).any fun s => decide (s.nextDue = due)

def rescheduleState (key : String) (s : ServerState) (states : States) : Rescheduled :=
  ⟨states.insert key s, [(key, s.nextDue)]⟩

/-- A worker after its snapshot; an internal-only host is not polled for a plugin-managed server. -/
def afterSnapshot (key : String) : Option ServerState → Worker
  | none => .idle
  | some s => if s.pluginManaged && isInternalOnlyHost s.host then .internal key else .polling key s.snapshot

def afterUpdate (key : String) : Option Value → Worker
  | none => .idle
  | some payload => .sending key payload

section Steps
variable (crates : Crates) (settings : Settings)

def step (c : Collector) : Action → Option Collector
  | .refresh now entries => some (c.reschedule (refreshServersOnce crates settings now entries c.states).2)
  | .trigger targets now => some (c.reschedule (trigger targets now c.states))
  | .popTarget target now =>
      match c.forceLoop with
      | .fetching _ _ => none
      | .waiting =>
          if settings.redisEnabled = false then none
          else if trim target = "" then some c
          else match c.states.lookup (trim target) with
            | some s => some (c.reschedule (forcePingKnown (trim target) now s c.states))
            | none => some { c with forceLoop := .fetching (trim target) now }
  | .fetched getServer ctx =>
      match c.forceLoop with
      | .waiting => none
      | .fetching target now =>
          match fetchServerById getServer target with
          | none => some { c with forceLoop := .waiting }
          | some server =>
              some ({ c with forceLoop := .waiting }.reschedule
                (forcePingFetched crates settings target now (server, ctx) c.states))
  | .runTask i =>
      match c.tasks[i]? with
      | none => none
      | some (key, due) => some { c with tasks := c.tasks.eraseIdx i, scheduler := c.scheduler.push key due }
  | .nextDue now =>
      match c.loop, c.scheduler.pop now with
      | .waiting, some (top, scheduler) =>
          some { c with scheduler := scheduler, loop := .popped top.key top.due }
      | _, _ => none
  | .check =>
      match c.loop with
      | .popped key due =>
          some { c with loop := if matchesDue c.states key due then .accepted key else .waiting }
      | _ => none
  | .send =>
      match c.loop with
      | .accepted key =>
          if c.workQueue.length < settings.collector.maxConcurrency * 4 then
            some { c with loop := .waiting, workQueue := c.workQueue ++ [key] }
          else none
      | _ => none
  | .receive i =>
      match c.workers i, c.workQueue with
      | .idle, key :: rest =>
          if i < settings.collector.maxConcurrency then
            some ({ c with workQueue := rest }.setWorker i (.received key))
          else none
      | _, _ => none
  | .snapshot i =>
      match c.workers i with
      | .received key => some (c.setWorker i (afterSnapshot key (c.states.lookup key)))
      | _ => none
  | .rescheduleInternal i now jitter =>
      match c.workers i with
      | .internal key =>
          match c.states.lookup key with
          | none => some (c.setWorker i .idle)
          | some s => some ((c.setWorker i .idle).reschedule
              (rescheduleState key { s with nextDue := internalDue settings now jitter } c.states))
      | _ => none
  | .finishPoll i result ctx =>
      match c.workers i with
      | .polling key snap =>
          match c.states.lookup key with
          | none => some (c.setWorker i .idle)
          | some s =>
              let (s, changed) := updateState crates settings snap result ctx s
              some ((c.setWorker i (afterUpdate key changed)).reschedule (rescheduleState key s c.states))
      | _ => none
  | .trySend i =>
      match c.workers i with
      | .sending _ payload =>
          some { c.setWorker i .idle with results :=
            if c.results.length < settings.collector.resultQueueMaxsize then c.results ++ [payload]
            else c.results }
      | _ => none
  | .ingestReceive =>
      match c.results with
      | [] => none
      | _ :: rest => some { c with results := rest }

/-- What each step needs and does, one constructor for each way through it. -/
inductive Moved (c : Collector) : Action → Collector → Prop
  | refresh {now entries} :
      Moved c (.refresh now entries) (c.reschedule (refreshServersOnce crates settings now entries c.states).2)
  | trigger {targets now} : Moved c (.trigger targets now) (c.reschedule (trigger targets now c.states))
  | popNothing {target now} : settings.redisEnabled = true → c.forceLoop = .waiting → trim target = "" →
      Moved c (.popTarget target now) c
  | popKnown {target now s} : settings.redisEnabled = true → c.forceLoop = .waiting → trim target ≠ "" →
      c.states.lookup (trim target) = some s →
      Moved c (.popTarget target now) (c.reschedule (forcePingKnown (trim target) now s c.states))
  | popUnknown {target now} : settings.redisEnabled = true → c.forceLoop = .waiting → trim target ≠ "" →
      c.states.lookup (trim target) = none →
      Moved c (.popTarget target now) { c with forceLoop := .fetching (trim target) now }
  | fetchedNothing {target now getServer ctx} : c.forceLoop = .fetching target now →
      fetchServerById getServer target = none →
      Moved c (.fetched getServer ctx) { c with forceLoop := .waiting }
  | fetched {target now getServer server ctx} : c.forceLoop = .fetching target now →
      fetchServerById getServer target = some server →
      Moved c (.fetched getServer ctx) ({ c with forceLoop := .waiting }.reschedule
        (forcePingFetched crates settings target now (server, ctx) c.states))
  | runTask {i key due} : c.tasks[i]? = some (key, due) →
      Moved c (.runTask i) { c with tasks := c.tasks.eraseIdx i, scheduler := c.scheduler.push key due }
  | nextDue {now top rest} : c.loop = .waiting → c.scheduler.pop now = some (top, rest) →
      Moved c (.nextDue now) { c with scheduler := rest, loop := .popped top.key top.due }
  | accept {key due} : c.loop = .popped key due → matchesDue c.states key due = true →
      Moved c .check { c with loop := .accepted key }
  | discard {key due} : c.loop = .popped key due → matchesDue c.states key due = false →
      Moved c .check { c with loop := .waiting }
  | send {key} : c.loop = .accepted key → c.workQueue.length < settings.collector.maxConcurrency * 4 →
      Moved c .send { c with loop := .waiting, workQueue := c.workQueue ++ [key] }
  | receive {i key rest} : c.workers i = .idle → c.workQueue = key :: rest →
      i < settings.collector.maxConcurrency →
      Moved c (.receive i) ({ c with workQueue := rest }.setWorker i (.received key))
  | snapshot {i key} : c.workers i = .received key →
      Moved c (.snapshot i) (c.setWorker i (afterSnapshot key (c.states.lookup key)))
  | internalGone {i key now jitter} : c.workers i = .internal key → c.states.lookup key = none →
      Moved c (.rescheduleInternal i now jitter) (c.setWorker i .idle)
  | rescheduleInternal {i key s now jitter} : c.workers i = .internal key → c.states.lookup key = some s →
      Moved c (.rescheduleInternal i now jitter) ((c.setWorker i .idle).reschedule
        (rescheduleState key { s with nextDue := internalDue settings now jitter } c.states))
  | pollGone {i key snap result ctx} : c.workers i = .polling key snap → c.states.lookup key = none →
      Moved c (.finishPoll i result ctx) (c.setWorker i .idle)
  | finishPoll {i key snap s result ctx} : c.workers i = .polling key snap → c.states.lookup key = some s →
      Moved c (.finishPoll i result ctx)
        ((c.setWorker i (afterUpdate key (updateState crates settings snap result ctx s).2)).reschedule
          (rescheduleState key (updateState crates settings snap result ctx s).1 c.states))
  | trySent {i key payload} : c.workers i = .sending key payload →
      c.results.length < settings.collector.resultQueueMaxsize →
      Moved c (.trySend i) { c.setWorker i .idle with results := c.results ++ [payload] }
  | dropped {i key payload} : c.workers i = .sending key payload →
      settings.collector.resultQueueMaxsize ≤ c.results.length → Moved c (.trySend i) (c.setWorker i .idle)
  | ingestReceive {payload rest} : c.results = payload :: rest →
      Moved c .ingestReceive { c with results := rest }

variable {crates settings}

theorem step_moved {c d : Collector} {a : Action} (h : step crates settings c a = some d) :
    Moved crates settings c a d := by
  cases a with
  | refresh now entries =>
      cases h
      exact .refresh
  | trigger targets now =>
      cases h
      exact .trigger
  | popTarget target now =>
      simp only [step] at h
      split at h
      · cases h
      · rename_i waiting
        split at h
        · cases h
        · rename_i enabled
          replace enabled : settings.redisEnabled = true := by simpa using enabled
          split at h
          · rename_i empty
            cases h
            exact .popNothing enabled waiting empty
          · rename_i nonempty
            split at h
            · rename_i found
              cases h
              exact .popKnown enabled waiting nonempty found
            · rename_i missing
              cases h
              exact .popUnknown enabled waiting nonempty missing
  | fetched getServer ctx =>
      simp only [step] at h
      split at h
      · cases h
      · rename_i fetching
        split at h
        · rename_i answer
          cases h
          exact .fetchedNothing fetching answer
        · rename_i answer
          cases h
          exact .fetched fetching answer
  | runTask i =>
      simp only [step] at h
      split at h
      · cases h
      · rename_i found
        cases h
        exact .runTask found
  | nextDue now =>
      simp only [step] at h
      split at h
      · rename_i waiting popped
        cases h
        exact .nextDue waiting popped
      · cases h
  | check =>
      simp only [step] at h
      split at h
      · rename_i key due popped
        cases h
        cases eq : matchesDue c.states key due with
        | true => exact .accept popped eq
        | false => exact .discard popped eq
      · cases h
  | send =>
      simp only [step] at h
      split at h
      · rename_i accepted
        split at h
        · rename_i room
          cases h
          exact .send accepted room
        · cases h
      · cases h
  | receive i =>
      simp only [step] at h
      split at h
      · rename_i idle queued
        split at h
        · rename_i spawned
          cases h
          exact .receive idle queued spawned
        · cases h
      · cases h
  | snapshot i =>
      simp only [step] at h
      split at h
      · rename_i received
        cases h
        exact .snapshot received
      · cases h
  | rescheduleInternal i now jitter =>
      simp only [step] at h
      split at h
      · rename_i internal
        split at h
        · rename_i gone
          cases h
          exact .internalGone internal gone
        · rename_i found
          cases h
          exact .rescheduleInternal internal found
      · cases h
  | finishPoll i result ctx =>
      simp only [step] at h
      split at h
      · rename_i polling
        split at h
        · rename_i gone
          cases h
          exact .pollGone polling gone
        · rename_i found
          cases h
          exact .finishPoll polling found
      · cases h
  | trySend i =>
      simp only [step] at h
      split at h
      · rename_i sending
        cases h
        by_cases room : c.results.length < settings.collector.resultQueueMaxsize
        · rw [if_pos room]
          exact .trySent sending room
        · rw [if_neg room]
          exact .dropped sending (not_lt.mp room)
      · cases h
  | ingestReceive =>
      simp only [step] at h
      split at h
      · cases h
      · rename_i queued
        cases h
        exact .ingestReceive queued

end Steps

section Workers
variable {crates : Crates} {settings : Settings} {c d : Collector} {a : Action}

@[simp] theorem setWorker_self {i : Nat} {w : Worker} : (c.setWorker i w).workers i = w := by
  simp [Collector.setWorker]

theorem setWorker_ne {i j : Nat} {w : Worker} (other : j ≠ i) : (c.setWorker i w).workers j = c.workers j := by
  simp [Collector.setWorker, other]

def Worker.poll? : Worker → Option (String × Snapshot)
  | .polling key snap => some (key, snap)
  | _ => none

def Worker.snapped? : Worker → Option String
  | .internal key | .polling key _ => some key
  | _ => none

theorem Worker.snapped_of_poll {w : Worker} {k : String} {snap : Snapshot} (h : w.poll? = some (k, snap)) :
    w.snapped? = some k := by
  cases w <;> simp_all [poll?, snapped?]

/-- A worker gets past a snapshot only by taking it. -/
theorem step_snapped (hs : step crates settings c a = some d) (i : Nat) :
    d.workers i = c.workers i ∨ (d.workers i).snapped? = none ∨
      ∃ k, a = .snapshot i ∧ c.workers i = .received k ∧
        d.workers i = afterSnapshot k (c.states.lookup k) ∧ d.states = c.states := by
  have changed : ∀ {b : Collector} {j : Nat} {w : Worker}, b.workers = c.workers → w.snapped? = none →
      (b.setWorker j w).workers i = c.workers i ∨ ((b.setWorker j w).workers i).snapped? = none := by
    intro b j w same left
    by_cases eq : i = j
    · subst eq
      exact .inr (by rw [setWorker_self, left])
    · exact .inl (by rw [setWorker_ne eq, same])
  cases step_moved hs with
  | refresh | trigger | popNothing | popKnown | popUnknown | fetchedNothing | fetched | runTask | nextDue
  | accept | discard | send | ingestReceive => exact .inl rfl
  | receive => exact (changed rfl rfl).imp_right .inl
  | @snapshot j k received =>
      by_cases eq : i = j
      · subst eq
        exact .inr (.inr ⟨k, rfl, received, setWorker_self, rfl⟩)
      · exact .inl (setWorker_ne eq)
  | internalGone | rescheduleInternal | pollGone | trySent | dropped => exact (changed rfl rfl).imp_right .inl
  | finishPoll =>
      refine (changed rfl ?_).imp_right .inl
      cases (updateState _ _ _ _ _ _).2 <;> rfl

/-- Only `max_concurrency` workers are spawned. -/
def Collector.Spawned (settings : Settings) (c : Collector) : Prop :=
  ∀ i, settings.collector.maxConcurrency ≤ i → c.workers i = .idle

theorem step_spawned (h : c.Spawned settings) (hs : step crates settings c a = some d) :
    d.Spawned settings := by
  intro i beyond
  have idle := h i beyond
  have other : ∀ {b : Collector} {j : Nat} {w : Worker}, b.workers = c.workers → c.workers j ≠ .idle →
      (b.setWorker j w).workers i = .idle := by
    intro b j w same busy
    have eq : i ≠ j := by
      rintro rfl
      exact busy idle
    rw [setWorker_ne eq, same, idle]
  cases step_moved hs with
  | refresh | trigger | popNothing | popKnown | popUnknown | fetchedNothing | fetched | runTask | nextDue
  | accept | discard | send | ingestReceive => exact idle
  | @receive j _ _ _ _ spawned =>
      have eq : i ≠ j := by omega
      exact (setWorker_ne eq).trans idle
  | snapshot busy | internalGone busy _ | rescheduleInternal busy _ | pollGone busy _ | finishPoll busy _
  | trySent busy _ | dropped busy _ => exact other rfl (by rw [busy]; nofun)

end Workers

end ServerPoller
