import ServerPoller.ForcedPolls
import ServerPoller.Lib.Slots
import ServerPoller.Poller
import Mathlib.Data.Prod.Lex

/-! No server is ever out of reach. From every state the poller can, by its own steps alone, come to take up any
server of the map: what is in front of it gets done, and `next_due` returns as long as there is an entry. -/

namespace ServerPoller
open Json Transition Slots

/-- How far the consumer is from the pop. -/
def Consumer.rank : Consumer → Nat
  | .idle => 6
  | .sawNone => 5
  | .waiting => 4
  | .looping => 3
  | .saw _ => 2
  | .selecting _ | .sleeping _ => 1
  | .popping => 0

namespace Scheduling

def late (s : Scheduling) : Nat := (s.inner.heap.filter fun e => decide (s.now < e.due)).length

def rank (s : Scheduling) : ℕ ×ₗ ℕ ×ₗ ℕ := toLex (s.late, toLex (s.consumer.rank, s.unnotified))

variable {s t : Scheduling}

theorem rank_lt_of_late (fewer : t.late < s.late) : t.rank < s.rank :=
  Prod.Lex.toLex_lt_toLex.mpr (.inl fewer)

theorem rank_lt_of_consumer (late : t.late = s.late) (nearer : t.consumer.rank < s.consumer.rank) :
    t.rank < s.rank :=
  Prod.Lex.toLex_lt_toLex.mpr (.inr ⟨late, Prod.Lex.toLex_lt_toLex.mpr (.inl nearer)⟩)

theorem rank_lt_of_unnotified (late : t.late = s.late) (same : t.consumer.rank = s.consumer.rank)
    (fewer : t.unnotified < s.unnotified) : t.rank < s.rank :=
  Prod.Lex.toLex_lt_toLex.mpr (.inr ⟨late, Prod.Lex.toLex_lt_toLex.mpr (.inr ⟨same, fewer⟩)⟩)

theorem exists_after_all (heap : List ScheduleEntry) (now : ℚ) :
    ∃ later, now ≤ later ∧ ∀ e ∈ heap, e.due ≤ later := by
  induction heap with
  | nil => exact ⟨now, le_rfl, fun _ none_ => nomatch none_⟩
  | cons e rest ih =>
      obtain ⟨later, after, due⟩ := ih
      refine ⟨max later e.due, after.trans (le_max_left _ _), fun f member => ?_⟩
      rcases List.mem_cons.mp member with rfl | below
      · exact le_max_right _ _
      · exact (due f below).trans (le_max_left _ _)

def Nears (s t : Scheduling) : Prop :=
  t.spawned = s.spawned ∧
    ((t.inner = s.inner ∧ t.returned = s.returned ∧ t.rank < s.rank) ∨
      ∃ e, s.inner.pop s.now = some (e, t.inner) ∧ t.returned = s.returned ++ [e])

theorem nears_setConsumer {consumer : Consumer} (nearer : consumer.rank < s.consumer.rank) (notify : Notify) :
    s.Nears { s with notify, consumer } :=
  ⟨rfl, .inl ⟨rfl, rfl, rank_lt_of_consumer rfl nearer⟩⟩

/-- As long as there is an entry, `next_due` can go on. -/
theorem next_due_nears (h : s.Watched) (some_ : s.inner.heap ≠ []) :
    ∃ a t, a.ofTask = false ∧ s.step a = some t ∧ s.Nears t := by
  obtain ⟨first, member⟩ := List.exists_mem_of_ne_nil _ some_
  by_cases early : ∃ e ∈ s.inner.heap, s.now < e.due
  · -- time passes until everything is due
    obtain ⟨later, after, due⟩ := exists_after_all s.inner.heap s.now
    have none_late : late { s with now := later } = 0 := by
      rw [late, List.length_eq_zero_iff, List.filter_eq_nil_iff]
      intro e member
      simp [due e member]
    obtain ⟨e, there, before⟩ := early
    have some_late : 0 < s.late := by
      rw [late, List.length_pos_iff_exists_mem]
      exact ⟨e, List.mem_filter.mpr ⟨there, decide_eq_true before⟩⟩
    exact ⟨.elapse later, { s with now := later }, rfl, if_pos after, rfl,
      .inl ⟨rfl, rfl, rank_lt_of_late (none_late ▸ some_late)⟩⟩
  · have due : ∀ e ∈ s.inner.heap, e.due ≤ s.now := fun e there => not_lt.mp fun before => early ⟨e, there, before⟩
    obtain ⟨top, found⟩ := Option.ne_none_iff_exists'.mp (mt peek_eq_none_iff.mp some_)
    cases place : s.consumer with
    | idle => exact ⟨.call, _, rfl, if_pos place, nears_setConsumer (by rw [place]; decide) s.notify⟩
    | looping =>
        refine ⟨.peek, { s with consumer := .saw top }, rfl, ?_,
          nears_setConsumer (by rw [place]; exact Nat.lt_succ_self 2) s.notify⟩
        simp only [step, place, if_true, found]
    | sawNone =>
        refine ⟨.wait, s.poll .waiting, rfl, by simp only [step, place], ?_⟩
        rcases poll_cases s .waiting with goes | ⟨_, stays⟩
        · rw [goes]
          exact nears_setConsumer (by rw [place]; decide) _
        · rw [stays]
          exact nears_setConsumer (by rw [place]; decide) _
    | waiting =>
        have alerted : s.Alerted := h.noticed ⊤ (by rw [place]; rfl) first member (WithTop.coe_lt_top _)
        rcases alerted with pending | later
        · have registered : s.notify.waiter ≠ .absent := by
            intro absent
            have unregistered := h.registered.mp absent
            rw [place] at unregistered
            cases unregistered
          obtain ⟨notify, resumed⟩ := pending.resumes registered
          refine ⟨.wake, { s with notify, consumer := .looping }, rfl, ?_,
            nears_setConsumer (by rw [place]; decide) _⟩
          simp only [step, place, resumed, Option.map_some]
        · refine ⟨.notifyOne, _, rfl, if_pos later, rfl, .inl ⟨rfl, rfl, ?_⟩⟩
          exact rank_lt_of_unnotified rfl rfl (Nat.sub_lt later Nat.one_pos)
    | saw entry =>
        refine ⟨.compare, { s with consumer := if entry.due > s.now then .selecting entry else .popping }, rfl,
          by simp only [step, place], nears_setConsumer ?_ s.notify⟩
        rw [place]
        split
        · exact Nat.lt_succ_self 1
        · exact Nat.succ_pos 1
    | selecting entry =>
        exact ⟨.timeout, { s with consumer := .popping }, rfl, by simp only [step, place],
          nears_setConsumer (by rw [place]; exact Nat.one_pos) s.notify⟩
    | sleeping entry =>
        exact ⟨.timeout, { s with notify := s.notify.cancel, consumer := .popping }, rfl, by simp only [step, place],
          nears_setConsumer (by rw [place]; exact Nat.one_pos) _⟩
    | popping =>
        obtain ⟨inner, popped⟩ : ∃ inner, s.inner.pop s.now = some (top, inner) := by
          rw [Scheduler.pop, found]
          exact ⟨_, if_pos (due top (peek_mem found))⟩
        refine ⟨.pop, { s with inner, consumer := .idle, returned := s.returned ++ [top] }, rfl, ?_, rfl,
          .inr ⟨top, popped, rfl⟩⟩
        simp only [step, place, if_true, popped]

end Scheduling

/-- The steps that need no request from outside. -/
def PollerAct.inner : PollerAct → Bool
  | .task (.refresh ..) | .task (.trigger ..) | .task (.popTarget ..) | .task (.fetched ..) => false
  | _ => true

def SchedulerLoop.rank : SchedulerLoop → Nat
  | .popped _ _ => 2
  | .accepted _ => 1
  | .waiting => 0

def Worker.rank : Worker → Nat
  | .received _ => 3
  | .internal _ | .polling _ _ => 2
  | .sending _ _ => 1
  | .idle => 0

namespace Poller

abbrev Own (crates : Crates) (settings : Settings) : Poller → PollerAct → Poller → Prop :=
  Only (ofFn (step crates settings)) fun _ a => a.inner = true

def TakenUp (k : String) (p : Poller) : Prop := ∃ i, p.workers i = .received k

section Progress
variable {crates : Crates} {settings : Settings} {p q : Poller} {k : String}

/-- What holds of every state that can be reached. -/
structure Sound (p : Poller) : Prop where
  paired : p.Paired
  tracking : p.collector.Tracking
  watched : p.scheduling.Watched

theorem start_sound : start.Sound :=
  ⟨start_paired, start_tracking, Scheduling.new_watched⟩

theorem Sound.step (noRedis : settings.redisEnabled = false) (h : p.Sound) {a : PollerAct}
    (hs : p.step crates settings a = some q) : q.Sound := by
  obtain ⟨paired, same | ⟨b, taken⟩, _, inside⟩ := step_sides h.paired hs
  · exact ⟨paired, same ▸ h.tracking, h.watched.run inside⟩
  · exact ⟨paired, step_tracking noRedis h.tracking taken, h.watched.run inside⟩

/-- The server is on its way to a worker: its entry is in the heap or popped, or its key is accepted or queued, and
no worker will change its due time. -/
structure Ahead (k : String) (p : Poller) : Prop where
  sound : p.Sound
  there : ∃ s, p.states.lookup k = some s ∧
    (p.scheduling.inner.Holds k s.nextDue ∨ p.loop = .popped k s.nextDue ∨ p.loop = .accepted k ∨ k ∈ p.workQueue)
  unsnapped : ∀ i, (p.workers i).snapped? ≠ some k

/-- What is in front of the server when the first worker does all the work: entries, the popped one, keys in the
queue, and what the worker has begun. -/
def rank (p : Poller) : ℕ ×ₗ ℕ ×ₗ ℕ ×ₗ ℕ ×ₗ (ℕ ×ₗ ℕ ×ₗ ℕ) :=
  toLex (p.scheduling.inner.heap.length, toLex (p.loop.rank, toLex (p.workQueue.length,
    toLex ((p.workers 0).rank, p.scheduling.rank))))

theorem rank_lt_of_heap (fewer : q.scheduling.inner.heap.length < p.scheduling.inner.heap.length) :
    q.rank < p.rank :=
  Prod.Lex.toLex_lt_toLex.mpr (.inl fewer)

theorem rank_lt_of_loop (heap : q.scheduling.inner = p.scheduling.inner) (lower : q.loop.rank < p.loop.rank) :
    q.rank < p.rank :=
  Prod.Lex.toLex_lt_toLex.mpr (.inr ⟨congrArg (·.heap.length) heap, Prod.Lex.toLex_lt_toLex.mpr (.inl lower)⟩)

theorem rank_lt_of_queue (heap : q.scheduling.inner = p.scheduling.inner) (loop : q.loop = p.loop)
    (fewer : q.workQueue.length < p.workQueue.length) : q.rank < p.rank :=
  Prod.Lex.toLex_lt_toLex.mpr (.inr ⟨congrArg (·.heap.length) heap, Prod.Lex.toLex_lt_toLex.mpr
    (.inr ⟨congrArg SchedulerLoop.rank loop, Prod.Lex.toLex_lt_toLex.mpr (.inl fewer)⟩)⟩)

theorem rank_lt_of_worker (heap : q.scheduling.inner = p.scheduling.inner) (loop : q.loop = p.loop)
    (queue : q.workQueue = p.workQueue) (lower : (q.workers 0).rank < (p.workers 0).rank) : q.rank < p.rank := by
  rw [rank, rank, heap, loop, queue]
  exact Prod.Lex.toLex_lt_toLex.mpr (.inr ⟨rfl, Prod.Lex.toLex_lt_toLex.mpr (.inr ⟨rfl, Prod.Lex.toLex_lt_toLex.mpr
    (.inr ⟨rfl, Prod.Lex.toLex_lt_toLex.mpr (.inl lower)⟩)⟩)⟩)

theorem rank_lt_of_scheduling {s : Scheduling} (heap : s.inner = p.scheduling.inner)
    (lower : s.rank < p.scheduling.rank) : Poller.rank { p with scheduling := s } < p.rank := by
  rw [rank, rank, heap]
  exact Prod.Lex.toLex_lt_toLex.mpr (.inr ⟨rfl, Prod.Lex.toLex_lt_toLex.mpr (.inr ⟨rfl, Prod.Lex.toLex_lt_toLex.mpr
    (.inr ⟨rfl, Prod.Lex.toLex_lt_toLex.mpr (.inr ⟨rfl, lower⟩)⟩)⟩)⟩)

/-- A step of its own takes the server up, or brings it closer to a worker. -/
def Advances (crates : Crates) (settings : Settings) (k : String) (p : Poller) : Prop :=
  ∃ a q, Own crates settings p a q ∧ (q.TakenUp k ∨ q.Ahead k ∧ q.rank < p.rank)

theorem step_task {a : Action} {d : Collector} (other : a.ofScheduler = false)
    (hs : ServerPoller.step crates settings p.collector a = some d) :
    p.step crates settings (.task a) = some (p.adopt d) := by
  rw [step, other, hs]
  rfl

theorem step_scheduling {a : SchedulingAct} (other : a.ofTask = false) (loop : p.loop = .waiting) :
    p.step crates settings (.scheduling a) = (p.scheduling.step a).map p.advance := by
  cases a with
  | schedule => cases other
  | call => exact if_pos loop
  | _ => rfl

theorem Ahead.worker (noRedis : settings.redisEnabled = false) (h : p.Ahead k) {a : Action} {d : Collector}
    (hs : ServerPoller.step crates settings p.collector a = some d) (other : a.ofScheduler = false)
    (inner : (PollerAct.task a).inner = true) (loop : d.loop = p.loop) (queue : d.workQueue = p.workQueue)
    {w : Worker} (workers : d.workers = Function.update p.workers 0 w)
    (kept : d.states.lookup k = p.states.lookup k) (left : w.snapped? ≠ some k)
    (lower : w.rank < (p.workers 0).rank) : Advances crates settings k p := by
  have taken := step_task other hs
  have first : d.workers 0 = w := by rw [workers, Function.update_self]
  refine ⟨.task a, p.adopt d, ⟨taken, inner⟩, .inr ⟨⟨h.sound.step noRedis taken, ?_, ?_⟩, ?_⟩⟩
  · obtain ⟨s, found, way⟩ := h.there
    refine ⟨s, kept.trans found, ?_⟩
    change _ ∨ d.loop = _ ∨ d.loop = _ ∨ k ∈ d.workQueue
    rw [loop, queue]
    exact way
  · intro j
    change (d.workers j).snapped? ≠ some k
    rw [workers, Function.update_apply]
    split
    · exact left
    · exact h.unsnapped j
  · refine rank_lt_of_worker rfl loop queue ?_
    change (d.workers 0).rank < _
    rw [first]
    exact lower

/-- A poll can end, whatever it comes to, and touches no other server. -/
theorem worker_finishes (crates : Crates) (settings : Settings) (c : Collector) {i : Nat} {key : String}
    (held : (c.workers i).snapped? = some key) :
    ∃ a d w, ServerPoller.step crates settings c a = some d ∧ a.ofScheduler = false ∧
      (PollerAct.task a).inner = true ∧ d.loop = c.loop ∧ d.workQueue = c.workQueue ∧
        d.workers = Function.update c.workers i w ∧ w.snapped? = none ∧ w.rank < 2 ∧
          (∀ k, k ≠ key → d.states.lookup k = c.states.lookup k) ∧ ∀ k, k ∈ d.states ↔ k ∈ c.states := by
  have stored : ∀ {s : ServerState} (t : ServerState), c.states.lookup key = some s →
      (∀ k, k ≠ key → (c.states.insert key t).lookup k = c.states.lookup k) ∧
        ∀ k, k ∈ c.states.insert key t ↔ k ∈ c.states := by
    intro s t found
    refine ⟨fun k other => AList.lookup_insert_ne other, fun k => ?_⟩
    rw [AList.mem_insert, or_iff_right_iff_imp]
    rintro rfl
    exact AList.exists_lookup_iff_mem.mp ⟨s, found⟩
  cases place : c.workers i with
  | internal key' =>
      obtain rfl : key' = key := Option.some.inj (by rw [← held, place]; rfl)
      obtain ⟨d, taken⟩ : ∃ d,
          ServerPoller.step crates settings c (.rescheduleInternal i 0 ⟨0, by norm_num⟩) = some d := by
        simp only [ServerPoller.step, place]
        split
        · exact ⟨_, rfl⟩
        · exact ⟨_, rfl⟩
      refine ⟨_, d, .idle, taken, rfl, rfl, ?_⟩
      cases step_moved taken with
      | internalGone => exact ⟨rfl, rfl, rfl, rfl, Nat.two_pos, fun _ _ => rfl, fun _ => Iff.rfl⟩
      | rescheduleInternal here found =>
          cases place.symm.trans here
          exact ⟨rfl, rfl, rfl, rfl, Nat.two_pos, stored _ found⟩
  | polling key' snap =>
      obtain rfl : key' = key := Option.some.inj (by rw [← held, place]; rfl)
      obtain ⟨d, taken⟩ : ∃ d,
          ServerPoller.step crates settings c (.finishPoll i upResult (quietContext 0)) = some d := by
        simp only [ServerPoller.step, place]
        split
        · exact ⟨_, rfl⟩
        · exact ⟨_, rfl⟩
      cases step_moved taken with
      | pollGone =>
          exact ⟨_, _, .idle, taken, rfl, rfl, rfl, rfl, rfl, rfl, Nat.two_pos, fun _ _ => rfl, fun _ => Iff.rfl⟩
      | finishPoll here found =>
          cases place.symm.trans here
          refine ⟨_, _, _, taken, rfl, rfl, rfl, rfl, rfl, ?_, ?_, stored _ found⟩
          · cases (updateState crates settings snap upResult (quietContext 0) _).2 <;> rfl
          · cases (updateState crates settings snap upResult (quietContext 0) _).2 with
            | none => exact Nat.two_pos
            | some payload => exact Nat.one_lt_two
  | idle | received | sending =>
      rw [place] at held
      cases held

theorem Ahead.busy (noRedis : settings.redisEnabled = false) (h : p.Ahead k) (notYet : ¬p.TakenUp k)
    (busy : p.workers 0 ≠ .idle) : Advances crates settings k p := by
  cases place : p.workers 0 with
  | idle => exact absurd place busy
  | received key =>
      have other : key ≠ k := by
        rintro rfl
        exact notYet ⟨0, place⟩
      have taken : ServerPoller.step crates settings p.collector (.snapshot 0) =
          some (p.collector.setWorker 0 (afterSnapshot key (p.states.lookup key))) := by
        simp only [ServerPoller.step, collector, place]
      refine h.worker noRedis taken rfl rfl rfl rfl rfl rfl (fun snapped => other (snapped_afterSnapshot snapped)) ?_
      rw [place]
      cases p.states.lookup key with
      | none => exact Nat.succ_pos 2
      | some s =>
          rw [afterSnapshot]
          split
          · exact Nat.lt_succ_self 2
          · exact Nat.lt_succ_self 2
  | internal key | polling key snap =>
      have held : (p.workers 0).snapped? = some key := by rw [place]; rfl
      obtain ⟨a, d, w, taken, other, inner, loop, queue, workers, left, lower, kept, _⟩ :=
        worker_finishes crates settings p.collector held
      have different : k ≠ key := by
        rintro rfl
        exact h.unsnapped 0 held
      refine h.worker noRedis taken other inner loop queue workers (kept k different)
        (left ▸ (Option.some_ne_none k).symm) ?_
      rw [place]
      exact lower
  | sending key payload =>
      obtain ⟨d, taken⟩ : ∃ d, ServerPoller.step crates settings p.collector (.trySend 0) = some d := by
        simp only [ServerPoller.step, collector, place]
        exact ⟨_, rfl⟩
      have lower : Worker.rank .idle < (p.workers 0).rank := by rw [place]; exact Nat.one_pos
      cases step_moved taken with
      | trySent => exact h.worker noRedis taken rfl rfl rfl rfl rfl rfl (Option.some_ne_none k).symm lower
      | dropped => exact h.worker noRedis taken rfl rfl rfl rfl rfl rfl (Option.some_ne_none k).symm lower

theorem Ahead.queued (noRedis : settings.redisEnabled = false) (h : p.Ahead k)
    (concurrent : 0 < settings.collector.maxConcurrency) (idle : p.workers 0 = .idle) {key : String}
    {rest : List String} (queue : p.workQueue = key :: rest) : Advances crates settings k p := by
  have taken : ServerPoller.step crates settings p.collector (.receive 0) =
      some ({ p.collector with workQueue := rest }.setWorker 0 (.received key)) := by
    simp only [ServerPoller.step, collector, idle, queue, concurrent, if_true]
  have moved := step_task rfl taken
  refine ⟨_, _, ⟨moved, rfl⟩, ?_⟩
  by_cases same : key = k
  · refine .inl ⟨0, ?_⟩
    change Function.update p.workers 0 (Worker.received key) 0 = _
    rw [Function.update_self, same]
  · refine .inr ⟨⟨h.sound.step noRedis moved, ?_, ?_⟩, rank_lt_of_queue rfl rfl ?_⟩
    · obtain ⟨s, found, way⟩ := h.there
      refine ⟨s, found, way.imp_right (.imp_right (.imp_right fun queued => ?_))⟩
      rw [queue] at queued
      exact (List.mem_cons.mp queued).resolve_left (Ne.symm same)
    · intro i
      change (Function.update p.workers 0 (.received key) i).snapped? ≠ some k
      rw [Function.update_apply]
      split
      · exact (Option.some_ne_none k).symm
      · exact h.unsnapped i
    · rw [queue]
      exact Nat.lt_succ_self _

theorem Ahead.accepted (noRedis : settings.redisEnabled = false) (h : p.Ahead k)
    (concurrent : 0 < settings.collector.maxConcurrency) (queue : p.workQueue = []) {key : String}
    (loop : p.loop = .accepted key) : Advances crates settings k p := by
  have taken : ServerPoller.step crates settings p.collector .send =
      some { p.collector with loop := .waiting, workQueue := p.workQueue ++ [key] } := by
    have room : p.workQueue.length < settings.collector.maxConcurrency * 4 := by
      rw [queue]
      exact Nat.mul_pos concurrent (by decide)
    simp only [ServerPoller.step, collector, loop, room, if_true]
  have moved := step_task rfl taken
  refine ⟨_, _, ⟨moved, rfl⟩, .inr ⟨⟨h.sound.step noRedis moved, ?_, h.unsnapped⟩, rank_lt_of_loop rfl ?_⟩⟩
  · obtain ⟨s, found, held | popped | accepted | queued⟩ := h.there
    · exact ⟨s, found, .inl held⟩
    · cases loop.symm.trans popped
    · cases loop.symm.trans accepted
      exact ⟨s, found, .inr (.inr (.inr (List.mem_append_right _ List.mem_cons_self)))⟩
    · exact ⟨s, found, .inr (.inr (.inr (List.mem_append_left _ queued)))⟩
  · rw [loop]
    exact Nat.one_pos

theorem Ahead.popped (noRedis : settings.redisEnabled = false) (h : p.Ahead k) {key : String} {due : ℚ}
    (loop : p.loop = .popped key due) : Advances crates settings k p := by
  obtain ⟨d, taken⟩ : ∃ d, ServerPoller.step crates settings p.collector .check = some d := by
    simp only [ServerPoller.step, collector, loop]
    exact ⟨_, rfl⟩
  have moved := step_task rfl taken
  refine ⟨_, _, ⟨moved, rfl⟩, .inr ?_⟩
  obtain ⟨s, found, way⟩ := h.there
  cases step_moved taken with
  | @accept key' due' here matched =>
      cases loop.symm.trans here
      refine ⟨⟨h.sound.step noRedis moved, ⟨s, found, ?_⟩, h.unsnapped⟩, rank_lt_of_loop rfl ?_⟩
      · rcases way with held | popped | accepted | queued
        · exact .inl held
        · cases loop.symm.trans popped
          exact .inr (.inr (.inl rfl))
        · cases loop.symm.trans accepted
        · exact .inr (.inr (.inr queued))
      · rw [loop]
        exact Nat.one_lt_two
  | @discard key' due' here mismatched =>
      cases loop.symm.trans here
      refine ⟨⟨h.sound.step noRedis moved, ⟨s, found, ?_⟩, h.unsnapped⟩, rank_lt_of_loop rfl ?_⟩
      · rcases way with held | popped | accepted | queued
        · exact .inl held
        · -- the entry for the due time that the server has is never discarded
          cases loop.symm.trans popped
          rw [matchesDue, show p.collector.states.lookup k = some s from found] at mismatched
          simp at mismatched
        · cases loop.symm.trans accepted
        · exact .inr (.inr (.inr queued))
      · rw [loop]
        exact Nat.two_pos

theorem Ahead.scheduled (noRedis : settings.redisEnabled = false) (h : p.Ahead k) (queue : p.workQueue = [])
    (loop : p.loop = .waiting) : Advances crates settings k p := by
  obtain ⟨s, found, way⟩ := h.there
  have held : p.scheduling.inner.Holds k s.nextDue := by
    rw [loop, queue] at way
    exact way.elim id (fun other => by rcases other with none_ | none_ | none_ <;> cases none_)
  have some_ : p.scheduling.inner.heap ≠ [] := by
    obtain ⟨e, member, _⟩ := held
    exact List.ne_nil_of_mem member
  obtain ⟨a, t, other, inside, _, nearer⟩ := Scheduling.next_due_nears h.sound.watched some_
  have moved : p.step crates settings (.scheduling a) = some (p.advance t) := by
    rw [step_scheduling other loop, inside]
    rfl
  have sound := h.sound.step noRedis moved
  refine ⟨.scheduling a, _, ⟨moved, rfl⟩, .inr ?_⟩
  rcases nearer with ⟨inner, returned, lower⟩ | ⟨top, popped, returned⟩
  · have advanced : p.advance t = { p with scheduling := t } := by
      rw [advance, returned, List.drop_length]
    rw [advanced] at sound ⊢
    refine ⟨⟨sound, ⟨s, found, .inl ?_⟩, h.unsnapped⟩, rank_lt_of_scheduling inner lower⟩
    rw [inner]
    exact held
  · have advanced : p.advance t = { p with scheduling := t, loop := .popped top.key top.due } := by
      rw [advance, returned, List.drop_left]
    rw [advanced] at sound ⊢
    refine ⟨⟨sound, ⟨s, found, ?_⟩, h.unsnapped⟩, rank_lt_of_heap ?_⟩
    · rcases (Scheduler.holds_pop popped).mp held with ⟨key, due⟩ | below
      · exact .inr (.inl (by rw [key, due]))
      · exact .inl below
    · have fewer := (Scheduler.pop_perm popped).1.length_eq
      rw [fewer]
      exact Nat.lt_succ_self _

/-- Whatever is in front of the server, something can be done about it. -/
theorem Ahead.advances (noRedis : settings.redisEnabled = false) (h : p.Ahead k)
    (concurrent : 0 < settings.collector.maxConcurrency) (notYet : ¬p.TakenUp k) : Advances crates settings k p := by
  by_cases busy : p.workers 0 = .idle
  · cases queue : p.workQueue with
    | cons key rest => exact h.queued noRedis concurrent busy queue
    | nil =>
        cases loop : p.loop with
        | waiting => exact h.scheduled noRedis queue loop
        | popped key due => exact h.popped noRedis loop
        | accepted key => exact h.accepted noRedis concurrent queue loop
  · exact h.busy noRedis notYet busy

theorem Ahead.takenUp (noRedis : settings.redisEnabled = false) (h : p.Ahead k)
    (concurrent : 0 < settings.collector.maxConcurrency) : Reaches (Own crates settings) p (TakenUp k) := by
  refine Reaches.of_rank (P := Ahead k) rank (fun q ahead => ?_) h
  by_cases taken : q.TakenUp k
  · exact .inl taken
  · exact .inr (ahead.advances noRedis concurrent taken)

/-- How many workers will give this server another due time. -/
def snapped (settings : Settings) (k : String) (p : Poller) : Nat :=
  (contents settings.collector.maxConcurrency Worker.snapped? p.workers).count k

/-- A server that no worker will reschedule is on its way, or its entry waits in a spawned task. -/
theorem Sound.found (h : p.Sound) (unsnapped : ∀ i, (p.workers i).snapped? ≠ some k) (there : k ∈ p.states) :
    p.TakenUp k ∨ p.Ahead k ∨ ∃ s, p.states.lookup k = some s ∧ (k, s.nextDue) ∈ p.scheduling.spawned := by
  obtain ⟨s, found⟩ := AList.exists_lookup_iff_mem.mpr there
  have ahead : p.scheduling.inner.Holds k s.nextDue ∨ p.loop = .popped k s.nextDue ∨ p.loop = .accepted k ∨
      k ∈ p.workQueue → p.Ahead k := fun way => ⟨h, ⟨s, found, way⟩, unsnapped⟩
  rcases (h.tracking.tracks k s found).2 with (task | held | popped) | (accepted | queued | ⟨i, held⟩)
  · exact .inr (.inr ⟨s, found, task⟩)
  · exact .inr (.inl (ahead (.inl held)))
  · exact .inr (.inl (ahead (.inr (.inl popped))))
  · exact .inr (.inl (ahead (.inr (.inr (.inl accepted)))))
  · exact .inr (.inl (ahead (.inr (.inr (.inr queued)))))
  · change (p.workers i).key? = some k at held
    cases place : p.workers i with
    | received key =>
        rw [place] at held
        cases held
        exact .inl ⟨i, place⟩
    | internal key | polling key snap =>
        rw [place] at held
        cases held
        exact absurd (by rw [place]; rfl) (unsnapped i)
    | idle | sending key payload =>
        rw [place] at held
        cases held

theorem Sound.pushes (noRedis : settings.redisEnabled = false) (h : p.Sound)
    (unsnapped : ∀ i, (p.workers i).snapped? ≠ some k) {s : ServerState} (found : p.states.lookup k = some s)
    (task : (k, s.nextDue) ∈ p.scheduling.spawned) : ∃ a q, Own crates settings p a q ∧ q.Ahead k := by
  obtain ⟨i, here⟩ := List.mem_iff_getElem?.mp task
  obtain ⟨t, pushed⟩ : ∃ t, p.scheduling.step (.push i) = some t := by
    simp only [Scheduling.step, here]
    exact ⟨_, rfl⟩
  have moved : p.step crates settings (.scheduling (.push i)) = some (p.advance t) := by
    change (p.scheduling.step (.push i)).map p.advance = _
    rw [pushed]
    rfl
  have sound := h.step noRedis moved
  refine ⟨_, _, ⟨moved, rfl⟩, ?_⟩
  cases Scheduling.step_moved pushed with
  | push here' =>
      cases here.symm.trans here'
      rw [advance, List.drop_length] at sound ⊢
      exact ⟨sound, ⟨s, found, .inl (Scheduler.holds_push.mpr (.inl ⟨rfl, rfl⟩))⟩, unsnapped⟩

/-- From any sound state the server gets on its way, once the polls of it that have begun are over. -/
theorem Sound.ahead (noRedis : settings.redisEnabled = false) (h : p.Sound) (spawned : p.collector.Spawned settings)
    (there : k ∈ p.states) : Reaches (Own crates settings) p fun q => q.TakenUp k ∨ q.Ahead k := by
  refine Reaches.of_rank (P := fun p => p.Sound ∧ p.collector.Spawned settings ∧ k ∈ p.states) (snapped settings k)
    (fun p inv => ?_) ⟨h, spawned, there⟩
  obtain ⟨sound, spawned, there⟩ := inv
  by_cases busy : ∃ i, (p.workers i).snapped? = some k
  · obtain ⟨i, held⟩ := busy
    obtain ⟨a, d, w, taken, other, inner, _, _, workers, left, _, _, members⟩ :=
      worker_finishes crates settings p.collector held
    have moved := step_task other taken
    have spawned' : d.Spawned settings := step_spawned spawned taken
    refine .inr ⟨.task a, _, ⟨moved, inner⟩, .inr ⟨⟨sound.step noRedis moved, spawned', (members k).mpr there⟩, ?_⟩⟩
    have running : i < settings.collector.maxConcurrency := by
      by_contra beyond
      rw [show p.workers i = .idle from spawned i (not_lt.mp beyond)] at held
      cases held
    have counted := count_contents_update (k := k) Worker.snapped? p.workers running w
    rw [held, left, Option.toList_some, Option.toList_none, List.count_singleton_self, List.count_nil] at counted
    have after : snapped settings k (p.adopt d) =
        (contents settings.collector.maxConcurrency Worker.snapped? (Function.update p.workers i w)).count k :=
      congrArg (fun ws => (contents _ Worker.snapped? ws).count k) workers
    rw [after, snapped]
    omega
  · have unsnapped : ∀ i, (p.workers i).snapped? ≠ some k := fun i held => busy ⟨i, held⟩
    rcases sound.found unsnapped there with taken | ahead | ⟨s, found, task⟩
    · exact .inl (.inl taken)
    · exact .inl (.inr ahead)
    · obtain ⟨a, q, moved, ahead⟩ : ∃ a q, Own crates settings p a q ∧ q.Ahead k :=
        sound.pushes noRedis unsnapped found task
      exact .inr ⟨a, q, moved, .inl (.inr ahead)⟩

theorem Sound.run (noRedis : settings.redisEnabled = false) {acts : List PollerAct}
    (run : Run (ofFn (Poller.step crates settings)) .start acts p) : p.Sound :=
  run.keeps (P := Sound) (fun _ _ _ h hs => h.step noRedis hs) start_sound

end Progress

end Poller

/-- Without Redis, and with one worker at least, no server of the map is ever out of reach: from every state of every
run the poller can come to take it up by steps of its own, without any request from outside. Its clock may be read at
any time in these steps: what is due later is reached by waiting, and polls that end may do so at any reading. -/
theorem poller_reaches_servers {crates : Crates} {settings : Settings} (noRedis : settings.redisEnabled = false)
    (concurrent : 0 < settings.collector.maxConcurrency) {acts : List PollerAct} {p : Poller}
    (run : Run (ofFn (Poller.step crates settings)) .start acts p) {k : String} (there : k ∈ p.states) :
    Reaches (Poller.Own crates settings) p (Poller.TakenUp k) := by
  have spawned : p.collector.Spawned settings := by
    obtain ⟨_, ⟨es, outer⟩, _⟩ := Poller.run_sides run
    exact outer.keeps (P := Collector.Spawned settings) (fun _ _ _ h hs => step_spawned h hs) fun _ _ => rfl
  refine ((Poller.Sound.run noRedis run).ahead noRedis spawned there).trans fun q way => ?_
  rcases way with taken | ahead
  · exact .here taken
  · exact ahead.takenUp noRedis concurrent

/-- A server that was added while `next_due` waits with nothing in the heap. -/
theorem poller_reaches_servers_addedLate :
    ∃ p, addedLate.foldlM (Poller.step plainCrates (defaultSettings false)) .start = some p ∧
      Reaches (Poller.Own plainCrates (defaultSettings false)) p (Poller.TakenUp "1") := by
  have runs : (addedLate.foldlM (Poller.step plainCrates (defaultSettings false)) .start).any (fun p =>
      decide ("1" ∈ p.states)) = true := by decide +kernel
  obtain ⟨p, run, there⟩ := (Option.any_eq_true _ _).mp runs
  exact ⟨p, run, poller_reaches_servers rfl (by decide) (run_ofFn_iff.mpr run) (of_decide_eq_true there)⟩

end ServerPoller
