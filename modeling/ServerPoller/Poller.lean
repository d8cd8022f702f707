import ServerPoller.NextDue
import ServerPoller.Tracking
import ServerPoller.Lib.Reachability

/-! The tasks of `run` with the inside of `next_due`. Seen from one side it is the collector, from the other the
scheduler with its waits, so that what holds of either holds of both together. -/

namespace ServerPoller
open Json Transition

/-- The tasks of `run`, with the scheduler that they share. -/
structure Poller where
  states : States
  scheduling : Scheduling
  loop : SchedulerLoop
  workQueue : List String
  workers : Nat → Worker
  results : List Value
  forceLoop : ForceLoop

def Poller.start : Poller := ⟨∅, .new, .waiting, [], fun _ => .idle, [], .waiting⟩

inductive PollerAct where
  | task (a : Action)
  | scheduling (a : SchedulingAct)

def Action.ofScheduler : Action → Bool
  | .runTask _ | .nextDue _ => true
  | _ => false

def SchedulingAct.ofTask : SchedulingAct → Bool
  | .schedule _ _ => true
  | _ => false

namespace Poller

/-- The same tasks without the inside of `next_due`. -/
def collector (p : Poller) : Collector where
  states := p.states
  tasks := p.scheduling.spawned
  scheduler := p.scheduling.inner
  loop := p.loop
  workQueue := p.workQueue
  workers := p.workers
  results := p.results
  forceLoop := p.forceLoop

/-- A task has taken a step, and what it has scheduled is spawned. -/
def adopt (p : Poller) (c : Collector) : Poller where
  states := c.states
  scheduling := { p.scheduling with spawned := c.tasks }
  loop := c.loop
  workQueue := c.workQueue
  workers := c.workers
  results := c.results
  forceLoop := c.forceLoop

/-- The scheduler has taken a step, and a call of `next_due` that ends gives its entry to `scheduler_loop`. -/
def advance (p : Poller) (s : Scheduling) : Poller :=
  { p with
    scheduling := s
    loop := match s.returned.drop p.scheduling.returned.length with
      | [] => p.loop
      | entry :: _ => .popped entry.key entry.due }

def step (crates : Crates) (settings : Settings) (p : Poller) : PollerAct → Option Poller
  | .task a => if a.ofScheduler then none else (ServerPoller.step crates settings p.collector a).map p.adopt
  | .scheduling (.schedule _ _) => none -- only as part of a task's step
  | .scheduling .call => if p.loop = .waiting then (p.scheduling.step .call).map p.advance else none
  | .scheduling a => (p.scheduling.step a).map p.advance

/-- `scheduler_loop` is in `next_due` while a call of it runs. -/
def Paired (p : Poller) : Prop := p.scheduling.consumer ≠ .idle → p.loop = .waiting

section Sides
variable {crates : Crates} {settings : Settings} {p q : Poller} {s : Scheduling} {c d : Collector}

theorem step_spawns {a : Action} (other : a.ofScheduler = false)
    (hs : ServerPoller.step crates settings c a = some d) :
    (∃ new, d.tasks = c.tasks ++ new) ∧ d.scheduler = c.scheduler ∧ (c.loop = .waiting → d.loop = .waiting) := by
  have same : ∃ new, c.tasks = c.tasks ++ new := ⟨[], (List.append_nil _).symm⟩
  cases step_moved hs with
  | refresh | trigger | popKnown | fetched | rescheduleInternal | finishPoll => exact ⟨⟨_, rfl⟩, rfl, id⟩
  | popNothing | popUnknown | fetchedNothing | receive | snapshot | internalGone | pollGone | trySent | dropped
  | ingestReceive => exact ⟨same, rfl, id⟩
  | runTask | nextDue => cases other
  | accept here | send here => exact ⟨same, rfl, fun waiting => nomatch here.symm.trans waiting⟩
  | discard => exact ⟨same, rfl, fun _ => rfl⟩

theorem run_schedule (s : Scheduling) (entries : List (String × ℚ)) :
    Run (ofFn Scheduling.step) s (entries.map fun e => .schedule e.1 e.2)
      { s with spawned := s.spawned ++ entries } := by
  induction entries generalizing s with
  | nil =>
      rw [List.append_nil]
      exact .nil s
  | cons e rest ih =>
      have tail := ih { s with spawned := s.spawned ++ [e] }
      rw [List.append_assoc] at tail
      exact .cons rfl tail

/-- A step of the scheduler is a step of the collector or none. -/
theorem advance_collector (paired : p.Paired) {a : SchedulingAct} (moved : p.scheduling.Moved a s)
    (spawns : ∀ key due, a ≠ .schedule key due) (calls : a = .call → p.loop = .waiting) :
    (p.advance s).Paired ∧ ((p.advance s).collector = p.collector ∨
      ∃ b, ServerPoller.step crates settings p.collector b = some (p.advance s).collector) := by
  have shows : p.scheduling.Shows p.collector := ⟨rfl, rfl, paired⟩
  rcases Scheduling.returned_cases moved with ⟨same, stays⟩ | ⟨_, e, last, popped⟩
  · have advanced : p.advance s = { p with scheduling := s } := by
      rw [advance, same, List.drop_length]
    rw [advanced]
    rcases @Scheduling.Shows.step crates settings _ _ _ _ shows moved spawns calls with
      after | ⟨i, d, _, ran, after⟩ | ⟨_, _, ends, _⟩
    · refine ⟨after.waiting, .inl ?_⟩
      rw [collector, ← after.tasks, ← after.scheduler]
      rfl
    · refine ⟨?_, .inr ⟨_, ran.trans (congrArg some ?_)⟩⟩
      · intro busy
        have loop := after.waiting busy
        cases step_moved ran
        exact loop
      · rw [collector, ← after.tasks, ← after.scheduler]
        cases step_moved ran
        rfl
    · exact absurd ends stays
  · have advanced : p.advance s = { p with scheduling := s, loop := .popped e.key e.due } := by
      rw [advance, last, List.drop_left]
    rw [advanced]
    rcases @Scheduling.Shows.step crates settings _ _ _ _ shows moved spawns calls with
      after | ⟨i, d, rfl, _, after⟩ | ⟨e', d, ends, last', ran, loop, after⟩
    · have fewer := (Scheduler.pop_perm popped).1.length_eq
      rw [← after.scheduler] at fewer
      exact absurd fewer (by simp [collector])
    · cases moved
      exact absurd last (by simp)
    · obtain rfl : e' = e := List.singleton_inj.mp (List.append_cancel_left (last'.symm.trans last))
      refine ⟨fun busy => absurd ends.2 busy, .inr ⟨_, ran.trans (congrArg some ?_)⟩⟩
      rw [collector, ← after.tasks, ← after.scheduler, ← loop]
      cases step_moved ran
      rfl

theorem step_sides (paired : p.Paired) {a : PollerAct} (h : p.step crates settings a = some q) :
    q.Paired ∧ (q.collector = p.collector ∨
      ∃ b, ServerPoller.step crates settings p.collector b = some q.collector) ∧
        ∃ es, Run (ofFn Scheduling.step) p.scheduling es q.scheduling := by
  have inside : ∀ b : SchedulingAct, (∀ key due, b ≠ .schedule key due) → (b = .call → p.loop = .waiting) →
      (p.scheduling.step b).map p.advance = some q → q.Paired ∧ (q.collector = p.collector ∨
        ∃ b, ServerPoller.step crates settings p.collector b = some q.collector) ∧
          ∃ es, Run (ofFn Scheduling.step) p.scheduling es q.scheduling := by
    intro b spawns calls moved
    obtain ⟨s, taken, rfl⟩ := Option.map_eq_some_iff.mp moved
    obtain ⟨paired', shown⟩ := advance_collector paired (Scheduling.step_moved taken) spawns calls
    exact ⟨paired', shown, [b], .single taken⟩
  cases a with
  | task b =>
      simp only [step, Option.ite_none_left_eq_some, Bool.not_eq_true, Option.map_eq_some_iff] at h
      obtain ⟨other, d, taken, rfl⟩ := h
      obtain ⟨⟨new, tasks⟩, scheduler, waits⟩ := step_spawns other taken
      have spawned := run_schedule p.scheduling new
      rw [← show d.tasks = p.scheduling.spawned ++ new from tasks] at spawned
      refine ⟨fun busy => waits (paired busy), .inr ⟨b, taken.trans (congrArg some ?_)⟩, _, spawned⟩
      rw [collector]
      change d = { d with scheduler := p.collector.scheduler }
      rw [← scheduler]
  | scheduling b =>
      cases b with
      | schedule key due => cases h
      | call =>
          simp only [step, Option.ite_none_right_eq_some] at h
          refine inside .call ?_ (fun _ => h.1) h.2
          intro _ _ same
          cases same
      | push | notifyOne | elapse | peek | compare | wait | wake | timeout | pop =>
          refine inside _ ?_ ?_ h
          · intro _ _ same
            cases same
          · intro same
            cases same

theorem start_paired : start.Paired := fun busy => absurd rfl busy

theorem run_sides {acts : List PollerAct} (run : Run (ofFn (step crates settings)) .start acts p) :
    p.Paired ∧ (∃ es, Run (ofFn (ServerPoller.step crates settings)) .start es p.collector) ∧
      ∃ es, Run (ofFn Scheduling.step) .new es p.scheduling := by
  refine run.keeps (P := fun p => p.Paired ∧
    (∃ es, Run (ofFn (ServerPoller.step crates settings)) .start es p.collector) ∧
      ∃ es, Run (ofFn Scheduling.step) .new es p.scheduling) ?_ ⟨start_paired, ⟨[], .nil _⟩, [], .nil _⟩
  rintro p a q ⟨paired, ⟨es, outer⟩, fs, inner⟩ moved
  obtain ⟨paired', same | ⟨b, taken⟩, gs, more⟩ := step_sides paired moved
  · exact ⟨paired', ⟨es, same ▸ outer⟩, _, inner.append more⟩
  · exact ⟨paired', ⟨_, outer.append (.single taken)⟩, _, inner.append more⟩

end Sides

end Poller

/-- Without Redis every server of the map is, in every state of every run, in a spawned task, in the heap, popped, or
on its way through a worker; and if it is in the heap and `next_due` waits for something later, a permit or a wake-up
is pending, or will be, from a task that has pushed and not yet notified. -/
theorem poller_forgets_none {crates : Crates} {settings : Settings} (noRedis : settings.redisEnabled = false)
    {acts : List PollerAct} {p : Poller} (run : Run (ofFn (Poller.step crates settings)) .start acts p) {k : String}
    {s : ServerState} (found : p.states.lookup k = some s) :
    s.key = k ∧ ((k, s.nextDue) ∈ p.scheduling.spawned ∨
      (∃ e ∈ p.scheduling.inner.heap, e.key = k ∧ e.due = s.nextDue ∧
        ∀ d, p.scheduling.consumer.until? = some d → (e.due : WithTop ℚ) < d → p.scheduling.Alerted) ∨
      p.loop = .popped k s.nextDue ∨ p.collector.Carries k) := by
  obtain ⟨_, ⟨es, outer⟩, fs, inner⟩ := Poller.run_sides run
  have tracking : p.collector.Tracking :=
    outer.keeps (P := Collector.Tracking) (fun _ _ _ h hs => step_tracking noRedis h hs) start_tracking
  have watched := Scheduling.new_watched.run inner
  obtain ⟨key, (task | held | popped) | carried⟩ := tracking.tracks k s found
  · exact ⟨key, .inl task⟩
  · obtain ⟨e, member, same, due⟩ := held
    exact ⟨key, .inr (.inl ⟨e, member, same, due, fun d until_ => watched.noticed d until_ e member⟩)⟩
  · exact ⟨key, .inr (.inr (.inl popped))⟩
  · exact ⟨key, .inr (.inr (.inr carried))⟩

def addedLate : List PollerAct := [
  .scheduling .call, .scheduling .peek, .scheduling .wait,
  .task (.refresh 0 [(catalogItemToValue (sampleItem "1" "mc.example.com"), sampleContext)]), .scheduling (.push 0)]

theorem poller_forgets_none_addedLate :
    ∃ p s, addedLate.foldlM (Poller.step plainCrates (defaultSettings false)) .start = some p ∧
      p.scheduling.consumer = .waiting ∧ p.states.lookup "1" = some s ∧
      (∃ e ∈ p.scheduling.inner.heap, e.key = "1" ∧ e.due = s.nextDue) ∧ p.scheduling.Alerted := by
  have runs : (addedLate.foldlM (Poller.step plainCrates (defaultSettings false)) .start).any (fun p =>
      decide (p.scheduling.consumer = .waiting ∧ "1" ∈ p.states ∧ p.scheduling.spawned = [] ∧ p.loop = .waiting ∧
        p.workQueue = []) && (List.range 25).all fun i => decide ((p.workers i).key? ≠ some "1")) = true := by
    decide +kernel
  obtain ⟨p, reached, there⟩ := (Option.any_eq_true _ _).mp runs
  obtain ⟨there, unheld⟩ := Bool.and_eq_true_iff.mp there
  obtain ⟨waiting, there, unspawned, loop, queue⟩ := of_decide_eq_true there
  obtain ⟨s, found⟩ := AList.exists_lookup_iff_mem.mpr there
  have run := run_ofFn_iff.mpr reached
  obtain ⟨_, ⟨es, outer⟩, _, _⟩ := Poller.run_sides run
  have spawned : p.collector.Spawned (defaultSettings false) :=
    outer.keeps (P := Collector.Spawned _) (fun _ _ _ h hs => step_spawned h hs) fun _ _ => rfl
  obtain ⟨_, task | ⟨e, member, same, due, alerted⟩ | popped | carried⟩ := poller_forgets_none rfl run found
  · rw [unspawned] at task
    cases task
  · have until_ : p.scheduling.consumer.until? = some ⊤ := by rw [waiting]; rfl
    exact ⟨p, s, reached, waiting, found, ⟨e, member, same, due⟩, alerted ⊤ until_ (WithTop.coe_lt_top _)⟩
  · cases loop.symm.trans popped
  · rcases carried with accepted | queued | ⟨i, held⟩
    · cases loop.symm.trans accepted
    · have queued : "1" ∈ p.workQueue := queued
      rw [queue] at queued
      cases queued
    · by_cases running : i < 25
      · exact absurd held (of_decide_eq_true (List.all_eq_true.mp unheld i (List.mem_range.mpr running)))
      · rw [spawned i (not_lt.mp running)] at held
        cases held

end ServerPoller
