import ServerPoller.ForcedPolls
import ServerPoller.Lib.Slots

/-! Nothing remembers that a server is being polled. What keeps two workers from one server is that an
entry must match the due time, so one more entry that does is enough for a second dispatch. -/

namespace ServerPoller
open Json RustText Transition Slots

def SchedulerLoop.popped? : SchedulerLoop → Option (String × ℚ)
  | .popped key due => some (key, due)
  | .waiting | .accepted _ => none

def SchedulerLoop.accepted? : SchedulerLoop → Option String
  | .accepted key => some key
  | .waiting | .popped _ _ => none

/-- The key that a worker has received, until it leaves `process_work_item`. -/
def Worker.held? : Worker → Option String
  | .received key | .internal key | .polling key _ | .sending key _ => some key
  | .idle => none

/-- The entries in spawned tasks, in the heap, and popped but not yet checked. -/
def Collector.outstanding (c : Collector) : List (String × ℚ) :=
  c.tasks ++ c.scheduler.heap.map (fun e => (e.key, e.due)) ++ c.loop.popped?.toList

def Collector.spawnedBy (c d : Collector) : List (String × ℚ) := d.tasks.drop c.tasks.length

section Held
variable (crates : Crates) (settings : Settings) (c : Collector)

/-- The keys before `send`, in the work queue, and with the workers. -/
def Collector.held : List String :=
  c.loop.accepted?.toList ++ c.workQueue ++ contents settings.collector.maxConcurrency Worker.held? c.workers

/-- Those of them that have not been given a new due time: a worker that has given one only has its
`try_send` left. -/
def Collector.dispatched : List String :=
  c.loop.accepted?.toList ++ c.workQueue ++ contents settings.collector.maxConcurrency Worker.key? c.workers

/-- A step that gives `key` a due time, or schedules it for the one it has, finds it undispatched and
makes the only entry for that due time. -/
def Collector.SparesDispatched (key : String) (d : Collector) : Prop :=
  ∀ s ∈ d.states.lookup key,
    matchesDue c.states key s.nextDue = false ∨ (key, s.nextDue) ∈ c.spawnedBy d →
      key ∉ c.dispatched settings ∧ (key, s.nextDue) ∉ c.outstanding ∧
        (c.spawnedBy d).count (key, s.nextDue) ≤ 1

instance (key : String) (d : Collector) : Decidable (c.SparesDispatched settings key d) :=
  inferInstanceAs (Decidable (∀ _ ∈ _, _ → _ ∧ _ ∧ _))

/-- Nobody from outside reschedules `key` while it is dispatched, and no two entries for one due time of
it come about. -/
def Undisturbing (key : String) (a : Action) : Prop :=
  match a with
  | .refresh .. | .trigger .. | .popTarget .. | .fetched .. =>
      ∀ d ∈ step crates settings c a, c.SparesDispatched settings key d
  | .rescheduleInternal i .. | .finishPoll i .. =>
      ∀ d ∈ step crates settings c a, (c.workers i).snapped? = some key → ∀ s ∈ d.states.lookup key,
        (key, s.nextDue) ∉ c.outstanding
  | _ => True

instance : ∀ key a, Decidable (Undisturbing crates settings c key a)
  | _, .refresh .. | _, .trigger .. | _, .popTarget .. | _, .fetched .. =>
      inferInstanceAs (Decidable (∀ _ ∈ _, _))
  | _, .rescheduleInternal .. | _, .finishPoll .. =>
      inferInstanceAs (Decidable (∀ _ ∈ _, _ → ∀ _ ∈ _, _))
  | _, .runTask _ | _, .nextDue _ | _, .check | _, .send | _, .receive _ | _, .snapshot _ | _, .trySend _
  | _, .ingestReceive => inferInstanceAs (Decidable True)

end Held

section Counts
variable {settings : Settings} {c : Collector} {k : String} {i : Nat} {w : Worker} {r : Rescheduled}

theorem Collector.Spawned.running (h : c.Spawned settings) (held : (c.workers i).held? = some k) :
    i < settings.collector.maxConcurrency := by
  by_contra beyond
  rw [h i (not_lt.mp beyond)] at held
  cases held

theorem dispatched_setWorker (running : i < settings.collector.maxConcurrency) :
    ((c.setWorker i w).dispatched settings).count k + (c.workers i).key?.toList.count k =
      (c.dispatched settings).count k + w.key?.toList.count k := by
  have changed := count_contents_update (k := k) Worker.key? c.workers running w
  simp only [Collector.dispatched, Collector.setWorker, List.count_append]
  omega

theorem outstanding_reschedule (entry : String × ℚ) :
    (c.reschedule r).outstanding.count entry = c.outstanding.count entry + r.scheduled.count entry := by
  simp only [Collector.outstanding, Collector.reschedule, List.count_append]
  omega

theorem spawnedBy_reschedule : c.spawnedBy (c.reschedule r) = r.scheduled := List.drop_left

end Counts

/-- A dispatched server has no entry for its due time, another has at most one. -/
structure Collector.Exclusive (settings : Settings) (key : String) (c : Collector) : Prop where
  spawned : c.Spawned settings
  live : ∀ s, c.states.lookup key = some s →
    (c.dispatched settings).count key + c.outstanding.count (key, s.nextDue) ≤ 1
  alone : (c.dispatched settings).count key ≤ 1

section Steps
variable {settings : Settings} {c d : Collector} {key k : String} {due : ℚ} {i : Nat} {w : Worker}

theorem Collector.Exclusive.move (h : c.Exclusive settings key) (spawned : d.Spawned settings)
    (same : d.states = c.states)
    (dispatched : (d.dispatched settings).count key ≤ (c.dispatched settings).count key)
    (outstanding : ∀ due, d.outstanding.count (key, due) ≤ c.outstanding.count (key, due)) :
    d.Exclusive settings key := by
  refine ⟨spawned, ?_, dispatched.trans h.alone⟩
  intro s found
  rw [same] at found
  exact (Nat.add_le_add dispatched (outstanding s.nextDue)).trans (h.live s found)

theorem Collector.Exclusive.runTask (h : c.Exclusive settings key) (found : c.tasks[i]? = some (k, due)) :
    { c with tasks := c.tasks.eraseIdx i, scheduler := c.scheduler.push k due }.Exclusive settings key := by
  refine h.move h.spawned rfl le_rfl ?_
  intro due'
  obtain ⟨there, eq⟩ := List.getElem?_eq_some_iff.mp found
  have perm := List.getElem_cons_eraseIdx_perm there
  rw [eq] at perm
  have count := perm.count_eq (key, due')
  simp only [Collector.outstanding, Scheduler.push, List.map_cons, List.count_append, List.count_cons]
    at count ⊢
  omega

theorem Collector.Exclusive.nextDue (h : c.Exclusive settings key) {now : ℚ} {top : ScheduleEntry}
    {rest : Scheduler} (idle : c.loop = .waiting) (popped : c.scheduler.pop now = some (top, rest)) :
    { c with scheduler := rest, loop := .popped top.key top.due }.Exclusive settings key := by
  refine h.move h.spawned rfl ?_ ?_
  · simp [Collector.dispatched, idle, SchedulerLoop.accepted?]
  · intro due
    have count := ((Scheduler.pop_perm popped).1.map fun e => (e.key, e.due)).count_eq (key, due)
    simp only [List.map_cons, List.count_cons] at count
    simp only [Collector.outstanding, idle, SchedulerLoop.popped?, Option.toList_some, Option.toList_none,
      List.count_append, List.count_singleton, List.count_nil, count]
    omega

theorem Collector.Exclusive.accept (h : c.Exclusive settings key) (popped : c.loop = .popped k due)
    (matched : matchesDue c.states k due = true) :
    { c with loop := .accepted k }.Exclusive settings key := by
  obtain ⟨s, found, isDue⟩ := (Option.any_eq_true _ _).mp matched
  replace isDue : s.nextDue = due := of_decide_eq_true isDue
  have dispatched : (Collector.dispatched settings { c with loop := .accepted k }).count key =
      (c.dispatched settings).count key + [k].count key := by
    simp only [Collector.dispatched, popped, SchedulerLoop.accepted?, Option.toList_some, Option.toList_none,
      List.count_append, List.count_nil]
    omega
  have outstanding : ∀ entry, c.outstanding.count entry =
      (Collector.outstanding { c with loop := .accepted k }).count entry + [(k, due)].count entry := by
    intro entry
    simp only [Collector.outstanding, popped, SchedulerLoop.popped?, Option.toList_some, Option.toList_none,
      List.count_append, List.count_nil]
    omega
  by_cases same : key = k
  · subst same
    have only := h.live s found
    rw [isDue, outstanding, List.count_singleton_self] at only
    refine ⟨h.spawned, ?_, ?_⟩
    · intro t there
      cases found.symm.trans there
      rw [dispatched, isDue, List.count_singleton_self]
      omega
    · rw [dispatched, List.count_singleton_self]
      omega
  · have other : [k].count key = 0 := List.count_eq_zero.mpr (mt List.mem_singleton.mp same)
    refine h.move h.spawned rfl (by rw [dispatched, other]; exact le_rfl) ?_
    intro due'
    rw [outstanding]
    exact Nat.le_add_right _ _

theorem Collector.Exclusive.discard (h : c.Exclusive settings key) (popped : c.loop = .popped k due) :
    { c with loop := .waiting }.Exclusive settings key := by
  refine h.move h.spawned rfl ?_ ?_
  · simp [Collector.dispatched, popped, SchedulerLoop.accepted?]
  · intro due'
    simp only [Collector.outstanding, SchedulerLoop.popped?, Option.toList_none, List.count_append,
      List.count_nil]
    omega

theorem Collector.Exclusive.send (h : c.Exclusive settings key) (accepted : c.loop = .accepted k) :
    { c with loop := .waiting, workQueue := c.workQueue ++ [k] }.Exclusive settings key := by
  refine h.move h.spawned rfl ?_ ?_
  · simp only [Collector.dispatched, accepted, SchedulerLoop.accepted?, Option.toList_some, Option.toList_none,
      List.count_append, List.count_nil]
    omega
  · intro due
    simp only [Collector.outstanding, accepted, SchedulerLoop.popped?]
    exact le_rfl

theorem Collector.Exclusive.receive (h : c.Exclusive settings key) {rest : List String}
    (idle : c.workers i = .idle) (queue : c.workQueue = k :: rest) (running : i < settings.collector.maxConcurrency)
    (spawned : ({ c with workQueue := rest }.setWorker i (.received k)).Spawned settings) :
    ({ c with workQueue := rest }.setWorker i (.received k)).Exclusive settings key := by
  refine h.move spawned rfl ?_ (fun _ => le_rfl)
  have worker := dispatched_setWorker (c := { c with workQueue := rest }) (w := .received k) (k := key) running
  simp only [Collector.dispatched, idle, queue, Worker.key?, Option.toList_some, Option.toList_none,
    List.count_append, List.count_cons, List.count_nil] at worker ⊢
  omega

theorem Collector.Exclusive.leave (h : c.Exclusive settings key) (held : (c.workers i).held? = some k)
    (spawned : (c.setWorker i w).Spawned settings)
    (keeps : w.key? = none ∨ w.key? = (c.workers i).key?) : (c.setWorker i w).Exclusive settings key := by
  refine h.move spawned rfl ?_ (fun _ => le_rfl)
  have worker := dispatched_setWorker (c := c) (w := w) (k := key) (h.spawned.running held)
  rcases keeps with none | same
  · rw [none, Option.toList_none, List.count_nil] at worker
    omega
  · rw [same] at worker
    omega

theorem Collector.Exclusive.finish (h : c.Exclusive settings key) {s : ServerState}
    (held : (c.workers i).key? = some k) (fresh : k = key → (k, s.nextDue) ∉ c.outstanding)
    (spawned : (c.setWorker i w).Spawned settings) (gone : w.key? = none) :
    ((c.setWorker i w).reschedule (rescheduleState k s c.states)).Exclusive settings key := by
  have running : i < settings.collector.maxConcurrency := by
    apply h.spawned.running (k := k)
    cases state : c.workers i <;> rw [state] at held <;> cases held <;> rfl
  have dispatched : ((c.setWorker i w).dispatched settings).count key + [k].count key =
      (c.dispatched settings).count key := by
    have worker := dispatched_setWorker (c := c) (w := w) (k := key) running
    rw [held, gone] at worker
    simpa only [Option.toList_some, Option.toList_none, List.count_nil, Nat.add_zero] using worker
  have alone := h.alone
  refine ⟨spawned, ?_, ?_⟩
  · intro t found
    change ((c.setWorker i w).dispatched settings).count key + _ ≤ 1
    rw [outstanding_reschedule]
    change _ + (c.outstanding.count (key, t.nextDue) + [(k, s.nextDue)].count (key, t.nextDue)) ≤ 1
    rcases AList.lookup_insert_eq_some.mp found with ⟨rfl, rfl⟩ | ⟨other, there⟩
    · rw [List.count_eq_zero.mpr (fresh rfl), List.count_singleton_self]
      rw [List.count_singleton_self] at dispatched
      omega
    · have live := h.live t there
      have none : [(k, s.nextDue)].count (key, t.nextDue) = 0 := by simp [Ne.symm other]
      rw [none]
      omega
  · change ((c.setWorker i w).dispatched settings).count key ≤ 1
    omega

theorem Collector.Exclusive.reschedule (h : c.Exclusive settings key) {r : Rescheduled}
    (spares : c.SparesDispatched settings key (c.reschedule r)) : (c.reschedule r).Exclusive settings key := by
  refine ⟨h.spawned, ?_, h.alone⟩
  intro t found
  change (c.dispatched settings).count key + _ ≤ 1
  rw [outstanding_reschedule]
  have spared : matchesDue c.states key t.nextDue = false ∨ (key, t.nextDue) ∈ r.scheduled →
      key ∉ c.dispatched settings ∧ (key, t.nextDue) ∉ c.outstanding ∧
        r.scheduled.count (key, t.nextDue) ≤ 1 := by
    rw [← spawnedBy_reschedule (c := c) (r := r)]
    exact spares t found
  by_cases given : matchesDue c.states key t.nextDue = false ∨ (key, t.nextDue) ∈ r.scheduled
  · obtain ⟨undispatched, fresh, once⟩ := spared given
    rw [List.count_eq_zero.mpr undispatched, List.count_eq_zero.mpr fresh]
    omega
  · obtain ⟨matched, unscheduled⟩ := not_or.mp given
    obtain ⟨s, there, due⟩ := (Option.any_eq_true _ _).mp (Bool.eq_true_of_not_eq_false matched)
    rw [← of_decide_eq_true due] at unscheduled ⊢
    rw [List.count_eq_zero.mpr unscheduled]
    exact h.live s there

variable {crates : Crates} {a : Action}

theorem step_exclusive (h : c.Exclusive settings key) (hs : step crates settings c a = some d)
    (undisturbing : Undisturbing crates settings c key a) : d.Exclusive settings key := by
  have spawned := step_spawned h.spawned hs
  have unforced : ∀ f : ForceLoop, Collector.Exclusive settings key { c with forceLoop := f } :=
    fun f => h.move h.spawned rfl le_rfl (fun _ => le_rfl)
  cases step_moved hs with
  | refresh | trigger | popKnown => exact h.reschedule (undisturbing _ hs)
  | fetched => exact (unforced .waiting).reschedule (undisturbing _ hs)
  | popNothing => exact h
  | popUnknown | fetchedNothing => exact unforced _
  | runTask found => exact h.runTask found
  | nextDue idle popped => exact h.nextDue idle popped
  | accept popped matched => exact h.accept popped matched
  | discard popped _ => exact h.discard popped
  | send accepted _ => exact h.send accepted
  | receive idle queue running => exact h.receive idle queue running spawned
  | @snapshot i k received =>
      have held : (c.workers i).held? = some k := by rw [received]; rfl
      refine h.leave held spawned ?_
      rw [received]
      cases c.states.lookup k with
      | none => exact .inl rfl
      | some s => exact .inr (afterSnapshot_key? k s)
  | internalGone busy _ | pollGone busy _ | dropped busy _ =>
      exact h.leave (by rw [busy]; rfl) spawned (.inl rfl)
  | trySent busy _ =>
      have left := h.leave (w := .idle) (by rw [busy]; rfl) spawned (.inl rfl)
      exact left.move spawned rfl le_rfl (fun _ => le_rfl)
  | @rescheduleInternal i k s now jitter internal found =>
      apply h.finish (by rw [internal]; rfl) _ spawned rfl
      rintro rfl
      exact undisturbing _ hs (by rw [internal]; rfl) _ (AList.lookup_insert _)
  | @finishPoll i k snap s result ctx polling found =>
      apply h.finish (by rw [polling]; rfl) _ spawned
      · cases (updateState crates settings snap result ctx s).2 <;> rfl
      · rintro rfl
        exact undisturbing _ hs (by rw [polling]; rfl) _ (AList.lookup_insert _)
  | ingestReceive => exact h.move h.spawned rfl le_rfl (fun _ => le_rfl)

theorem start_exclusive : Collector.start.Exclusive settings key := by
  have dispatched : Collector.start.dispatched settings = [] := by
    simp [Collector.dispatched, contents, Collector.start, SchedulerLoop.accepted?, Worker.key?]
  refine ⟨fun _ _ => rfl, fun _ found => (by cases found), ?_⟩
  rw [dispatched]
  exact Nat.zero_le 1

/-- In every run in which nobody disturbs the dispatch of a key, that key is at most once on its way to a
worker or with a worker that has not given it a new due time. -/
theorem dispatched_at_most_once {es : List Action}
    (run : Run (Only (ofFn (step crates settings)) fun c a => Undisturbing crates settings c key a) .start es c) :
    (c.dispatched settings).count key ≤ 1 := by
  have inv : c.Exclusive settings key := by
    apply run.keeps (P := Collector.Exclusive settings key) _ start_exclusive
    intro c a d h hs
    exact step_exclusive h hs.1 hs.2
  exact inv.alone

end Steps
def earlyContext : UpdateContext := { quietContext 10 with jitter := ⟨-1 / 60, by norm_num⟩ }

def firstEntry : List Action := firstReceive.take 2

/-- Five ways to a second dispatch. -/
def disturbances : List (List Action) := [
  -- a trigger during a poll
  firstReceive.append [.snapshot 0, .trigger none 3, .runTask 0, .nextDue 3, .check, .send, .receive 1],
  -- a trigger that names the server twice
  firstEntry.append [.trigger (some ["1", "1"]) 3, .runTask 0, .runTask 0, .nextDue 3, .check, .nextDue 3, .check,
    .send, .nextDue 3, .check],
  -- two triggers at the same time
  firstEntry.append [.trigger none 3, .trigger none 3, .runTask 0, .runTask 0, .nextDue 3, .check, .nextDue 3,
    .check, .send, .nextDue 3, .check],
  -- a poll that ends with the due time of an entry which a trigger has made obsolete
  firstReceive.append [.snapshot 0, .finishPoll 0 upResult (quietContext 5), .trySend 0, .runTask 0,
    .trigger none 7, .runTask 0, .nextDue 7, .check, .send, .receive 0, .snapshot 0,
    .finishPoll 0 upResult earlyContext, .runTask 0, .nextDue 305, .check, .send, .nextDue 305, .check],
  -- a worker that has not left when its server is due again
  firstReceive.append [.snapshot 0, .finishPoll 0 upResult (quietContext 5), .runTask 0, .nextDue 305, .check]]

/-- Each of them ends with a server that is held twice. -/
theorem held_twice :
    disturbances.length = 5 ∧ ∀ actions ∈ disturbances, ∃ c,
      actions.foldlM (step plainCrates (defaultSettings false)) .start = some c ∧
        ¬(c.held (defaultSettings false)).Nodup := by
  have runs : ∀ actions ∈ disturbances, (actions.foldlM (step plainCrates (defaultSettings false)) .start).any
      (fun c => decide (¬(c.held (defaultSettings false)).Nodup)) = true := by decide +kernel
  refine ⟨rfl, ?_⟩
  intro actions listed
  obtain ⟨c, run, twice⟩ := (Option.any_eq_true _ _).mp (runs actions listed)
  exact ⟨c, run, of_decide_eq_true twice⟩

def spacedTriggers : List Action := firstEntry.append [
  .trigger none 3, .runTask 0, .nextDue 3, .check, .nextDue 3, .check, .send, .receive 0, .snapshot 0,
  .finishPoll 0 upResult (quietContext 5), .trySend 0, .trigger (some ["1"]) 7, .runTask 0, .runTask 0,
  .nextDue 7, .check, .send, .receive 1]

theorem dispatched_at_most_once_spacedTriggers :
    ∃ c, spacedTriggers.foldlM (step plainCrates (defaultSettings false)) .start = some c ∧
      "1" ∈ c.dispatched (defaultSettings false) ∧ (c.dispatched (defaultSettings false)).count "1" ≤ 1 := by
  have runs : (spacedTriggers.foldlM (restrict (step plainCrates (defaultSettings false))
      fun c a => Undisturbing plainCrates (defaultSettings false) c "1" a) .start).any
      (fun c => decide ("1" ∈ c.dispatched (defaultSettings false))) = true := by decide +kernel
  obtain ⟨c, run, dispatched⟩ := (Option.any_eq_true _ _).mp runs
  have only := run_restrict_iff.mpr run
  exact ⟨c, run_ofFn_iff.mp only.unrestricted, of_decide_eq_true dispatched, dispatched_at_most_once only⟩

end ServerPoller
