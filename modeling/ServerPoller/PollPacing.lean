import ServerPoller.ForcedPolls
import ServerPoller.PollBackoff
import ServerPoller.Poller
import Mathlib.Tactic.Linarith

/-! When a server is polled, relative to its due time. An entry whose time has come is overtaken only by entries that
were due by then, and after a poll the next one of the same server waits out its interval. -/

namespace ServerPoller
open Json Transition

def Action.pops : Action → Bool
  | .nextDue _ => true
  | _ => false

/-- How many entries in spawned tasks and in the heap are due by this time. -/
def Collector.dueBy (c : Collector) (time : ℚ) : Nat :=
  c.tasks.countP (fun e => decide (e.2 ≤ time)) + c.scheduler.heap.countP fun e => decide (e.due ≤ time)

def ForceLoop.asked? : ForceLoop → Option ℚ
  | .fetching _ now => some now
  | .waiting => none

/-- The entry has not been popped, and what gives a server a due time reads the clock past that of the entry. -/
def LeavesWaiting (entry : ScheduleEntry) (c : Collector) (a : Action) : Prop :=
  entry ∈ c.scheduler.heap ∧
    match a with
    | .refresh now _ | .trigger _ now | .popTarget _ now => entry.due < now
    | .fetched .. => ∀ now ∈ c.forceLoop.asked?, entry.due < now
    | .rescheduleInternal _ now _ => entry.due ≤ now
    | .finishPoll _ _ ctx => entry.due ≤ ctx.now
    | _ => True

instance LeavesWaiting.decidable (entry : ScheduleEntry) (c : Collector) : ∀ a, Decidable (LeavesWaiting entry c a)
  | .refresh .. | .trigger .. | .popTarget .. => inferInstanceAs (Decidable (_ ∧ _ < _))
  | .fetched .. => inferInstanceAs (Decidable (_ ∧ ∀ _ ∈ _, _))
  | .rescheduleInternal .. | .finishPoll .. => inferInstanceAs (Decidable (_ ∧ _ ≤ _))
  | .runTask _ | .nextDue _ | .check | .send | .receive _ | .snapshot _ | .trySend _ | .ingestReceive =>
      inferInstanceAs (Decidable (_ ∧ True))

section Overtaking
variable {crates : Crates} {settings : Settings} {c d : Collector} {a : Action} {entry : ScheduleEntry}

theorem updateState_nextDue (crates : Crates) (settings : Settings) (snap : Snapshot) (result : PollResult)
    (ctx : UpdateContext) (s : ServerState) :
    (updateState crates settings snap result ctx s).1.nextDue =
      ctx.now + max (nextInterval settings snap result.statusOk (recordStatus result.statusOk s) +
        ctx.jitter * nextInterval settings snap result.statusOk (recordStatus result.statusOk s)) 1 := by
  obtain ⟨e, eq⟩ := updateState_frame crates settings snap result ctx s
  have probed := maybeProbeBedrock_failures settings ctx (recordStatus result.statusOk s)
  rw [eq]
  by_cases none : result.favicon = ""
  · simp only [recordPoll, if_pos none, nextInterval_congr probed]
  · have updated := (maybeUpdateFavicon_failures crates ctx result.favicon _).trans probed
    simp only [recordPoll, if_neg none, nextInterval_congr updated]

theorem updateState_nextDue_later (crates : Crates) (settings : Settings) (snap : Snapshot) (result : PollResult)
    (ctx : UpdateContext) (s : ServerState) :
    ctx.now < (updateState crates settings snap result ctx s).1.nextDue := by
  rw [updateState_nextDue]
  exact lt_add_of_pos_right _ (lt_of_lt_of_le one_pos (le_max_right _ _))

theorem internalDue_later (settings : Settings) (now : ℚ) (jitter : JitterDraw) :
    now < internalDue settings now jitter :=
  lt_add_of_pos_right _ (lt_of_lt_of_le (by norm_num) (le_max_right _ _))

theorem refreshItem_from {now : ℚ} {acc : Rescheduled} {item : Value × ItemContext}
    (h : ∀ e ∈ acc.scheduled, now ≤ e.2) : ∀ e ∈ (refreshItem crates settings now acc item).scheduled, now ≤ e.2 := by
  intro e member
  rcases refreshItem_cases crates settings now acc item with ⟨_, eq⟩ | ⟨s, _, _, eq⟩ | ⟨_, _, eq⟩
  · rw [eq] at member
    exact h e member
  · rw [eq] at member
    rcases List.mem_append.mp member with before | new_
    · exact h e before
    · split at new_
      · rw [List.mem_singleton.mp new_]
      · cases new_
  · rw [eq] at member
    rcases List.mem_append.mp member with before | new_
    · exact h e before
    · rw [List.mem_singleton.mp new_]
      have spread : (0 : ℚ) ≤ max (settings.collector.startupSpreadSeconds : ℚ) 1 :=
        zero_le_one.trans (le_max_right _ _)
      exact le_add_of_nonneg_right (mul_nonneg item.2.spread.2.1 spread)

theorem refreshServersOnce_from (now : ℚ) (entries : List (Value × ItemContext)) (states : States) :
    ∀ e ∈ (refreshServersOnce crates settings now entries states).2.scheduled, now ≤ e.2 := by
  unfold refreshServersOnce
  split
  · exact fun e member => by cases member
  · refine List.foldlRecOn entries (refreshItem crates settings now)
      (motive := fun r => ∀ e ∈ r.scheduled, now ≤ e.2) ?_ fun acc h item _ => refreshItem_from h
    exact fun e member => by cases member

theorem trigger_from (targets : Option (List String)) (now : ℚ) (states : States) :
    ∀ e ∈ (trigger targets now states).scheduled, now ≤ e.2 := by
  cases targets with
  | none =>
      intro e member
      obtain ⟨s, _, rfl⟩ := List.mem_map.mp member
      exact le_rfl
  | some ids =>
      refine List.foldlRecOn ids (triggerOne now) (motive := fun r => ∀ e ∈ r.scheduled, now ≤ e.2) ?_
        fun acc h id _ => ?_
      · exact fun e member => by cases member
      · unfold triggerOne
        split
        · intro e member
          rcases List.mem_append.mp member with before | new_
          · exact h e before
          · rw [List.mem_singleton.mp new_]
        · exact h

theorem dueBy_reschedule {time : ℚ} {r : Rescheduled} (later : ∀ e ∈ r.scheduled, time < e.2) :
    (c.reschedule r).dueBy time = c.dueBy time := by
  have none_ : r.scheduled.countP (fun e : String × ℚ => decide (e.2 ≤ time)) = 0 :=
    List.countP_eq_zero.mpr fun e member => by simpa using later e member
  simp only [Collector.dueBy, Collector.reschedule, List.countP_append, none_, Nat.add_zero]

/-- A pop takes one of the entries that are due by then, and no step adds one. -/
theorem step_dueBy (hs : step crates settings c a = some d) (waits : LeavesWaiting entry c a) :
    d.dueBy entry.due + (if a.pops then 1 else 0) = c.dueBy entry.due := by
  obtain ⟨member, past⟩ := waits
  cases step_moved hs with
  | refresh => exact dueBy_reschedule fun e new_ => past.trans_le (refreshServersOnce_from _ _ _ e new_)
  | trigger => exact dueBy_reschedule fun e new_ => past.trans_le (trigger_from _ _ _ e new_)
  | popKnown =>
      refine dueBy_reschedule fun e new_ => ?_
      rw [List.mem_singleton.mp new_]
      exact past
  | @fetched target now _ _ _ fetching =>
      refine dueBy_reschedule (c := { c with forceLoop := .waiting }) fun e new_ => ?_
      rw [List.mem_singleton.mp new_]
      exact past now (by rw [fetching]; rfl)
  | @runTask i key due found =>
      obtain ⟨there, eq⟩ := List.getElem?_eq_some_iff.mp found
      have counted := (List.getElem_cons_eraseIdx_perm there).countP_eq fun e : String × ℚ => decide (e.2 ≤ entry.due)
      simp only [eq, List.countP_cons] at counted
      simp only [Collector.dueBy, Scheduler.push, List.countP_cons, Action.pops, Bool.false_eq_true, if_false]
      omega
  | @nextDue now top rest _ popped =>
      obtain ⟨found, _, _⟩ := Scheduler.pop_eq popped
      have before : top.due ≤ entry.due := by
        rcases Prod.Lex.toLex_le_toLex.mp (peek_least found entry member) with less | ⟨same, _⟩
        · exact less.le
        · exact same.le
      have counted := (Scheduler.pop_perm popped).1.countP_eq fun e => decide (e.due ≤ entry.due)
      rw [List.countP_cons, if_pos (decide_eq_true before)] at counted
      simp only [Collector.dueBy, Action.pops, if_true]
      omega
  | @rescheduleInternal i key s now jitter =>
      refine dueBy_reschedule (c := c.setWorker i .idle) fun e new_ => ?_
      rw [List.mem_singleton.mp new_]
      exact past.trans_lt (internalDue_later settings now jitter)
  | @finishPoll i key snap s result ctx =>
      refine dueBy_reschedule (c := c.setWorker i _) fun e new_ => ?_
      rw [List.mem_singleton.mp new_]
      exact past.trans_lt (updateState_nextDue_later crates settings snap result ctx s)
  | popNothing | popUnknown | fetchedNothing | accept | discard | send | receive | snapshot | internalGone | pollGone
  | trySent | dropped | ingestReceive => rfl

theorem run_dueBy {es : List Action} (run : Run (Only (ofFn (step crates settings)) (LeavesWaiting entry)) c es d) :
    es.countP Action.pops + d.dueBy entry.due = c.dueBy entry.due := by
  induction run with
  | nil => exact Nat.zero_add _
  | cons first _ ih =>
      have here := step_dueBy first.1 first.2
      rw [List.countP_cons]
      omega

end Overtaking

/-- From the time at which an entry is due, fewer entries are popped before it than were due by then, however many
servers are polled and scheduled again, listed, triggered or forced in the meantime. -/
theorem overtaken_by_due_entries {crates : Crates} {settings : Settings} {c d : Collector} {entry : ScheduleEntry}
    {es : List Action} (run : Run (Only (ofFn (step crates settings)) (LeavesWaiting entry)) c es d)
    (still : entry ∈ d.scheduler.heap) : es.countP Action.pops < c.dueBy entry.due := by
  have counted := run_dueBy run
  have waiting : 0 < d.scheduler.heap.countP fun e => decide (e.due ≤ entry.due) :=
    List.countP_pos_iff.mpr ⟨entry, still, decide_eq_true le_rfl⟩
  rw [Collector.dueBy] at counted
  omega

def twoDue : Collector := { Collector.start with scheduler := ⟨[⟨3, 1, "a"⟩, ⟨1, 2, "b"⟩], 2⟩ }

def listedMeanwhile : List Action := [
  .refresh 4 [(catalogItemToValue (sampleItem "1" "mc.example.com"), sampleContext)], .trigger none 5, .runTask 0,
  .runTask 0, .nextDue 6, .check]

theorem overtaken_by_due_entries_twoDue :
    ∃ d, listedMeanwhile.foldlM (step plainCrates (defaultSettings false)) twoDue = some d ∧
      listedMeanwhile.countP Action.pops < twoDue.dueBy 3 := by
  have waits : (listedMeanwhile.foldlM (restrict (step plainCrates (defaultSettings false))
      (LeavesWaiting ⟨3, 1, "a"⟩)) twoDue).any
      (fun d => decide (⟨3, 1, "a"⟩ ∈ d.scheduler.heap)) = true := by
    decide +kernel
  obtain ⟨d, run, still⟩ := (Option.any_eq_true _ _).mp waits
  have only := run_restrict_iff.mpr run
  exact ⟨d, run_ofFn_iff.mp only.unrestricted, overtaken_by_due_entries only (of_decide_eq_true still)⟩

section Pause
variable {crates : Crates} {settings : Settings} {b c d : Collector} {a : Action} {k : String} {due : ℚ}

theorem nextInterval_nonneg (settings : Settings) (snap : Snapshot) (statusOk : Bool) (s : ServerState) :
    0 ≤ nextInterval settings snap statusOk s := by
  have offline : 0 ≤ offlineInterval settings := Nat.cast_nonneg _
  unfold nextInterval
  split
  · exact Nat.cast_nonneg _
  · split
    · exact Nat.cast_nonneg _
    · split
      · exact le_min (offline.trans (le_max_right _ _)) (Nat.cast_nonneg _)
      · exact offline

/-- With its jitter an interval keeps nine tenths of its length, and one second. -/
theorem jittered_ge (jitter : JitterDraw) {interval : ℚ} (nonneg : 0 ≤ interval) :
    max (9 / 10 * interval) 1 ≤ max (interval + jitter * interval) 1 := by
  have least : -1 / 10 * interval ≤ jitter * interval := mul_le_mul_of_nonneg_right jitter.2.1 nonneg
  exact max_le_max (by linarith) le_rfl

theorem popped_by {past : List Action} (run : Run (ofFn (step crates settings)) .start past c) {key : String}
    (popped : c.loop = .popped key due) : ∃ now, .nextDue now ∈ past ∧ due ≤ now := by
  have history := run.keeps_history
    (P := fun past c => ∀ key due, c.loop = .popped key due → ∃ now, .nextDue now ∈ past ∧ due ≤ now)
    (fun past c a d h hs key due popped => ?_) (fun _ _ popped => nomatch popped)
  · exact history key due popped
  · have earlier : c.loop = .popped key due → ∃ now, .nextDue now ∈ past ++ [a] ∧ due ≤ now := by
      intro before
      obtain ⟨now, there, le⟩ := h key due before
      exact ⟨now, List.mem_append_left _ there, le⟩
    cases step_moved hs with
    | nextDue _ taken =>
        cases popped
        exact ⟨_, List.mem_append_right _ List.mem_cons_self, (Scheduler.pop_eq taken).2.1⟩
    | accept | discard | send => cases popped
    | refresh | trigger | popNothing | popKnown | popUnknown | fetchedNothing | fetched | runTask | receive | snapshot
    | internalGone | rescheduleInternal | pollGone | finishPoll | trySent | dropped | ingestReceive =>
        exact earlier popped

theorem carries_of_update {i : Nat} {w : Worker} (h : d.Carries k) (loop : d.loop = c.loop)
    (queue : d.workQueue = c.workQueue) (workers : d.workers = Function.update c.workers i w) :
    c.Carries k ∨ w.key? = some k := by
  rcases h with accepted | queued | ⟨j, held⟩
  · exact .inl (.inl (loop ▸ accepted))
  · exact .inl (.inr (.inl (queue ▸ queued)))
  · rw [workers, Function.update_apply] at held
    split at held
    · exact .inr held
    · exact .inl (.inr (.inr ⟨j, held⟩))

/-- A key gets on its way to a worker only when an entry for its due time is accepted. -/
theorem step_carries (hs : step crates settings c a = some d) (carried : d.Carries k) :
    c.Carries k ∨ ∃ due, c.loop = .popped k due ∧ matchesDue c.states k due = true := by
  cases step_moved hs with
  | refresh | trigger | popNothing | popKnown | popUnknown | fetchedNothing | fetched | runTask | ingestReceive =>
      exact .inl carried
  | nextDue | discard =>
      rcases carried with loop | rest
      · cases loop
      · exact .inl (.inr rest)
  | accept popped matched =>
      rcases carried with loop | rest
      · cases loop
        exact .inr ⟨_, popped, matched⟩
      · exact .inl (.inr rest)
  | @send key accepted =>
      rcases carried with loop | queued | held
      · cases loop
      · rcases List.mem_append.mp queued with before | new_
        · exact .inl (.inr (.inl before))
        · rw [List.mem_singleton.mp new_]
          exact .inl (.inl accepted)
      · exact .inl (.inr (.inr held))
  | @receive i key rest _ queue =>
      have front : k = key ∨ k ∈ rest → c.Carries k :=
        fun queued => .inr (.inl (queue ▸ List.mem_cons.mpr queued))
      rcases carries_of_update (c := { c with workQueue := rest }) carried rfl rfl rfl with
        (loop | queued | held) | here
      · exact .inl (.inl loop)
      · exact .inl (front (.inr queued))
      · exact .inl (.inr (.inr held))
      · exact .inl (front (.inl (Option.some.inj here).symm))
  | @snapshot i key received =>
      refine .inl ((carries_of_update (c := c) carried rfl rfl rfl).elim id fun here => .inr (.inr ⟨i, ?_⟩))
      cases found : c.states.lookup key with
      | none =>
          rw [found] at here
          cases here
      | some s =>
          rw [found, afterSnapshot_key?] at here
          rw [received]
          exact here
  | internalGone | rescheduleInternal | pollGone | trySent | dropped =>
      exact .inl ((carries_of_update (c := c) (w := .idle) carried rfl rfl rfl).resolve_right nofun)
  | finishPoll =>
      refine .inl ((carries_of_update (c := c) carried rfl rfl rfl).resolve_right ?_)
      cases (updateState crates settings _ _ _ _).2 with
      | none => exact nofun
      | some payload => exact nofun

/-- After a poll has ended: the server has its new due time, is not on its way to a worker, and no entry for that
time was popped. -/
structure Paused (ended : Collector) (k : String) (due : ℚ) (c : Collector) : Prop where
  standing : Standing ended k due c
  away : ¬c.Carries k
  unpopped : c.loop ≠ .popped k due

/-- Nobody asks for a poll of the server or removes it, and no other poll of it ends. -/
def LeavesPaused (crates : Crates) (settings : Settings) (ended : Collector) (k : String) (c : Collector) (a : Action) :
    Prop :=
  overtakes ended k c a = false ∧ forcedDue crates settings c a k = none ∧ removes crates settings c a k = false

instance LeavesPaused.decidable (crates : Crates) (settings : Settings) (ended : Collector) (k : String)
    (c : Collector) (a : Action) : Decidable (LeavesPaused crates settings ended k c a) :=
  inferInstanceAs (Decidable (_ ∧ _ ∧ _))

theorem not_takesSnapshot (away : ¬c.Carries k) (a : Action) : takesSnapshot c a k = false := by
  cases a with
  | snapshot i =>
      cases received : c.workers i with
      | received key =>
          simp only [takesSnapshot, received, decide_eq_false_iff_not]
          rintro rfl
          exact away (.inr (.inr ⟨i, by rw [received]; rfl⟩))
      | idle | internal | polling | sending => simp only [takesSnapshot, received]
  | _ => rfl

theorem Paused.step (h : Paused b k due c) (hs : step crates settings c a = some d)
    (leaves : LeavesPaused crates settings b k c a) : Paused b k due d ∨ ∃ now, a = .nextDue now ∧ due ≤ now := by
  obtain ⟨behind, unforced, kept⟩ := leaves
  rcases step_standing h.standing hs behind with standing | taken | forced | removed
  · by_cases popped : d.loop = .popped k due
    · cases step_moved hs with
      | nextDue _ top =>
          cases popped
          exact .inr ⟨_, rfl, (Scheduler.pop_eq top).2.1⟩
      | accept | discard | send => cases popped
      | refresh | trigger | popNothing | popKnown | popUnknown | fetchedNothing | fetched | runTask | receive
      | snapshot | internalGone | rescheduleInternal | pollGone | finishPoll | trySent | dropped | ingestReceive =>
          exact absurd popped h.unpopped
    · refine .inl ⟨standing, fun carried => ?_, popped⟩
      rcases step_carries hs carried with before | ⟨due', entry, matched⟩
      · exact h.away before
      · obtain ⟨s, found, same⟩ := h.standing.due
        rw [matchesDue, found] at matched
        have due_eq : s.nextDue = due' := of_decide_eq_true matched
        rw [← due_eq, same] at entry
        exact h.unpopped entry
  · exact absurd (not_takesSnapshot h.away a) (by rw [taken]; decide)
  · exact absurd unforced forced
  · exact absurd (kept.symm.trans removed) (by decide)

end Pause

/-- After a poll of a server has ended, with nobody else polling it, the next snapshot of the server is taken after an
entry was popped at a time by which nine tenths of the interval have passed, and one second in any case, unless a poll
was asked for, the server was removed, or another poll of it has ended. -/
theorem polls_apart {crates : Crates} {settings : Settings} {past es : List Action} {b c d : Collector} {i : Nat}
    {k : String} {snap : Snapshot} {s : ServerState} {result : PollResult} {ctx : UpdateContext}
    (before : Run (ofFn (step crates settings)) .start past b) (polling : b.workers i = .polling k snap)
    (found : b.states.lookup k = some s) (ends : step crates settings b (.finishPoll i result ctx) = some c)
    (clock : ∀ now, .nextDue now ∈ past → now ≤ ctx.now) (alone : ¬c.Carries k)
    (run : Run (Only (ofFn (step crates settings)) (LeavesPaused crates settings c k)) c es d) {a : Action}
    (snapshot : takesSnapshot d a k = true) :
    ∃ now, .nextDue now ∈ es ∧
      ctx.now + max (9 / 10 * nextInterval settings snap result.statusOk (recordStatus result.statusOk s)) 1 ≤ now := by
  have least := jittered_ge ctx.jitter (nextInterval_nonneg settings snap result.statusOk
    (recordStatus result.statusOk s))
  have due := updateState_nextDue crates settings snap result ctx s
  have later := updateState_nextDue_later crates settings snap result ctx s
  generalize same : (updateState crates settings snap result ctx s).1.nextDue = time at due later
  have start : Paused c k time c := by
    have loop : c.loop = b.loop := by
      cases step_moved ends with
      | pollGone | finishPoll => rfl
    refine ⟨⟨?_, fun _ held => held⟩, alone, fun popped => ?_⟩
    · cases step_moved ends with
      | pollGone here gone =>
          cases polling.symm.trans here
          cases found.symm.trans gone
      | finishPoll here found' =>
          cases polling.symm.trans here
          cases found.symm.trans found'
          exact ⟨_, AList.lookup_insert _, same⟩
    · -- what was popped before the poll ended was due by then
      obtain ⟨now, there, reached⟩ := popped_by before (loop ▸ popped)
      exact absurd (lt_of_lt_of_le later (reached.trans (clock now there))) (lt_irrefl _)
  have history := run.keeps_history
    (P := fun past c' => Paused c k time c' ∨ ∃ now, .nextDue now ∈ past ∧ time ≤ now) (fun past c' a d h hs => ?_)
    (.inl start)
  · rcases history with paused | ⟨now, there, reached⟩
    · exact absurd (not_takesSnapshot paused.away a) (by rw [snapshot]; decide)
    · refine ⟨now, there, le_trans ?_ reached⟩
      rw [due]
      exact add_le_add_right least ctx.now
  · rcases h with paused | ⟨now, there, reached⟩
    · refine (paused.step hs.1 hs.2).imp_right ?_
      rintro ⟨now, rfl, reached⟩
      exact ⟨now, List.mem_append_right _ List.mem_cons_self, reached⟩
    · exact .inr ⟨now, List.mem_append_left _ there, reached⟩

def nextPoll : List Action := [.trySend 0, .runTask 0, .nextDue 305, .check, .send, .receive 0]

/-- The first worker polls a server, the poll ends at 5, and the next one begins. -/
theorem polls_apart_nextPoll :
    ∃ b c d snap s, (firstReceive ++ [Action.snapshot 0]).foldlM (step plainCrates (defaultSettings false)) .start =
        some b ∧ b.workers 0 = .polling "1" snap ∧
      step plainCrates (defaultSettings false) b (.finishPoll 0 upResult (quietContext 5)) = some c ∧
      nextPoll.foldlM (step plainCrates (defaultSettings false)) c = some d ∧
      takesSnapshot d (.snapshot 0) "1" = true ∧ ∃ now, Action.nextDue now ∈ nextPoll ∧
        5 + max (9 / 10 * nextInterval (defaultSettings false) snap true (recordStatus true s)) 1 ≤ now := by
  have scenario : ((firstReceive ++ [Action.snapshot 0]).foldlM (step plainCrates (defaultSettings false)) .start).any
      (fun b => (b.workers 0).poll?.any (fun poll => decide (poll.1 = "1")) && decide ("1" ∈ b.states) &&
        (step plainCrates (defaultSettings false) b (.finishPoll 0 upResult (quietContext 5))).any fun c =>
          (decide (c.loop ≠ .accepted "1" ∧ "1" ∉ c.workQueue) &&
            (List.range 25).all fun i => decide ((c.workers i).key? ≠ some "1")) &&
          (nextPoll.foldlM (restrict (step plainCrates (defaultSettings false))
            (LeavesPaused plainCrates (defaultSettings false) c "1")) c).any fun d =>
              takesSnapshot d (.snapshot 0) "1") = true := by decide +kernel
  obtain ⟨b, reached, inner⟩ := (Option.any_eq_true _ _).mp scenario
  obtain ⟨inner, later⟩ := Bool.and_eq_true_iff.mp inner
  obtain ⟨polls, there⟩ := Bool.and_eq_true_iff.mp inner
  obtain ⟨⟨key, snap⟩, poll, same⟩ := (Option.any_eq_true _ _).mp polls
  obtain rfl : key = "1" := of_decide_eq_true same
  obtain ⟨s, found⟩ := AList.exists_lookup_iff_mem.mpr (of_decide_eq_true there)
  obtain ⟨c, ends, inner⟩ := (Option.any_eq_true _ _).mp later
  obtain ⟨alone, inner⟩ := Bool.and_eq_true_iff.mp inner
  obtain ⟨d, run, snapshot⟩ := (Option.any_eq_true _ _).mp inner
  obtain ⟨absent, unheld⟩ := Bool.and_eq_true_iff.mp alone
  obtain ⟨unaccepted, unqueued⟩ := of_decide_eq_true absent
  have before := run_ofFn_iff.mpr reached
  have polling : b.workers 0 = .polling "1" snap := by
    cases place : b.workers 0 <;> rw [place] at poll <;> cases poll
    rfl
  have spawned : c.Spawned (defaultSettings false) :=
    step_spawned (before.keeps (P := Collector.Spawned _) (fun _ _ _ h hs => step_spawned h hs) fun _ _ => rfl) ends
  have alone : ¬c.Carries "1" := by
    rintro (accepted | queued | ⟨i, held⟩)
    · exact unaccepted accepted
    · exact unqueued queued
    · by_cases running : i < 25
      · exact of_decide_eq_true (List.all_eq_true.mp unheld i (List.mem_range.mpr running)) held
      · rw [spawned i (not_lt.mp running)] at held
        cases held
  have only := run_restrict_iff.mpr run
  have clock : ∀ now, Action.nextDue now ∈ firstReceive ++ [Action.snapshot 0] → now ≤ 5 := by
    intro now member
    simp only [firstReceive, List.cons_append, List.nil_append, List.mem_cons, Action.nextDue.injEq, reduceCtorEq,
      List.not_mem_nil, false_or, or_false] at member
    rw [member]
    norm_num
  exact ⟨b, c, d, snap, s, reached, polling, ends, run_ofFn_iff.mp only.unrestricted, snapshot,
    polls_apart before polling found ends clock alone only snapshot⟩

end ServerPoller
