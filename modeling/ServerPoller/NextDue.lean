import ServerPoller.Collector
import ServerPoller.HeapOrder
import ServerPoller.Lib.Notify
import ServerPoller.Lib.Transition

/-! `schedule` and `next_due` side by side: tasks that push and then notify, and one consumer that peeks, waits without
the lock, and looks again. -/

namespace ServerPoller
open Transition

inductive Consumer where
  | idle -- between two calls of `next_due`
  | looping -- before the peek
  | sawNone
  | waiting -- in `notified().await`
  | saw (entry : ScheduleEntry)
  | selecting (entry : ScheduleEntry) -- before the first poll of the `select!`
  | sleeping (entry : ScheduleEntry)
  | popping -- before the second lock
  deriving DecidableEq, Repr

/-- The scheduler with the tasks around it. What was pushed and what was returned is kept for the statements only. -/
structure Scheduling where
  inner : Scheduler
  notify : Notify
  now : ℚ
  /-- Spawned by `schedule`, before the lock. -/
  spawned : List (String × ℚ)
  /-- How many tasks have pushed and not yet called `notify_one`. -/
  unnotified : Nat
  consumer : Consumer
  pushed : List ScheduleEntry
  returned : List ScheduleEntry

def Scheduling.new : Scheduling := ⟨.new, .new, 0, [], 0, .idle, [], []⟩

inductive SchedulingAct where
  | schedule (key : String) (due : ℚ)
  | push (i : Nat) -- the task at this place has the lock
  | notifyOne
  | elapse (now : ℚ)
  | call
  | peek
  | compare -- of the due time with the clock
  | wait -- the first poll of `notified`
  | wake
  | timeout
  | pop
  deriving Repr

namespace Scheduling

/-- The consumer goes on at once when there was a permit, and waits otherwise. -/
def poll (s : Scheduling) (waits : Consumer) : Scheduling :=
  let (ready, notify) := s.notify.notified
  { s with notify, consumer := if ready then .looping else waits }

/-- One step. The sleep may end at any time, since what comes after it reads the clock again; and it may end before
the other branch of the `select!` was polled. -/
def step (s : Scheduling) : SchedulingAct → Option Scheduling
  | .schedule key due => some { s with spawned := s.spawned ++ [(key, due)] }
  | .push i =>
      match s.spawned[i]? with
      | some (key, due) =>
          some { s with
            inner := s.inner.push key due
            spawned := s.spawned.eraseIdx i
            unnotified := s.unnotified + 1
            pushed := s.pushed ++ [⟨due, s.inner.counter + 1, key⟩] }
      | none => none
  | .notifyOne =>
      if 0 < s.unnotified then some { s with unnotified := s.unnotified - 1, notify := s.notify.notifyOne } else none
  | .elapse now => if s.now ≤ now then some { s with now } else none
  | .call => if s.consumer = .idle then some { s with consumer := .looping } else none
  | .peek =>
      if s.consumer = .looping then
        some { s with consumer := match ServerPoller.peek s.inner.heap with
          | none => .sawNone
          | some entry => .saw entry }
      else none
  | .compare =>
      match s.consumer with
      | .saw entry => some { s with consumer := if entry.due > s.now then .selecting entry else .popping }
      | _ => none
  | .wait =>
      match s.consumer with
      | .sawNone => some (s.poll .waiting)
      | .selecting entry => some (s.poll (.sleeping entry))
      | _ => none
  | .wake =>
      match s.consumer with
      | .waiting | .sleeping _ => s.notify.resume.map fun notify => { s with notify, consumer := .looping }
      | _ => none
  | .timeout =>
      match s.consumer with
      | .selecting _ => some { s with consumer := .popping }
      | .sleeping _ => some { s with notify := s.notify.cancel, consumer := .popping }
      | _ => none
  | .pop =>
      if s.consumer = .popping then
        match s.inner.pop s.now with
        | some (entry, inner) => some { s with inner, consumer := .idle, returned := s.returned ++ [entry] }
        | none => some { s with consumer := .looping } -- something changed, loop again
      else none

end Scheduling

def Consumer.registered : Consumer → Bool
  | .waiting | .sleeping _ => true
  | .idle | .looping | .sawNone | .saw _ | .selecting _ | .popping => false

namespace Scheduling

inductive Moved (s : Scheduling) : SchedulingAct → Scheduling → Prop
  | schedule {key due} : Moved s (.schedule key due) { s with spawned := s.spawned ++ [(key, due)] }
  | push {i key due} : s.spawned[i]? = some (key, due) →
      Moved s (.push i) { s with
        inner := s.inner.push key due
        spawned := s.spawned.eraseIdx i
        unnotified := s.unnotified + 1
        pushed := s.pushed ++ [⟨due, s.inner.counter + 1, key⟩] }
  | notifyOne : 0 < s.unnotified →
      Moved s .notifyOne { s with unnotified := s.unnotified - 1, notify := s.notify.notifyOne }
  | elapse {now} : s.now ≤ now → Moved s (.elapse now) { s with now }
  | call : s.consumer = .idle → Moved s .call { s with consumer := .looping }
  | peekNone : s.consumer = .looping → s.inner.heap = [] → Moved s .peek { s with consumer := .sawNone }
  | peek {top} : s.consumer = .looping → ServerPoller.peek s.inner.heap = some top →
      Moved s .peek { s with consumer := .saw top }
  | early {entry} : s.consumer = .saw entry → s.now < entry.due →
      Moved s .compare { s with consumer := .selecting entry }
  | due {entry} : s.consumer = .saw entry → entry.due ≤ s.now → Moved s .compare { s with consumer := .popping }
  | waitNone : s.consumer = .sawNone → Moved s .wait (s.poll .waiting)
  | waitEntry {entry} : s.consumer = .selecting entry → Moved s .wait (s.poll (.sleeping entry))
  | wake {notify} : s.consumer.registered = true → s.notify.resume = some notify →
      Moved s .wake { s with notify, consumer := .looping }
  | skip {entry} : s.consumer = .selecting entry → Moved s .timeout { s with consumer := .popping }
  | timeout {entry} : s.consumer = .sleeping entry →
      Moved s .timeout { s with notify := s.notify.cancel, consumer := .popping }
  | pop {entry inner} : s.consumer = .popping → s.inner.pop s.now = some (entry, inner) →
      Moved s .pop { s with inner, consumer := .idle, returned := s.returned ++ [entry] }
  | retry : s.consumer = .popping → s.inner.pop s.now = none → Moved s .pop { s with consumer := .looping }

theorem step_moved {s t : Scheduling} {a : SchedulingAct} (h : s.step a = some t) : s.Moved a t := by
  cases a with
  | schedule key due =>
      cases h
      exact .schedule
  | push i =>
      simp only [step] at h
      split at h
      · rename_i task
        cases h
        exact .push task
      · cases h
  | notifyOne =>
      simp only [step] at h
      split at h
      · rename_i some_
        cases h
        exact .notifyOne some_
      · cases h
  | elapse now =>
      simp only [step] at h
      split at h
      · rename_i later
        cases h
        exact .elapse later
      · cases h
  | call =>
      simp only [step] at h
      split at h
      · rename_i idle
        cases h
        exact .call idle
      · cases h
  | peek =>
      simp only [step] at h
      split at h
      · rename_i looping
        split at h
        · rename_i none_
          cases h
          exact .peekNone looping (peek_eq_none_iff.mp none_)
        · rename_i top
          cases h
          exact .peek looping top
      · cases h
  | compare =>
      simp only [step] at h
      split at h
      · rename_i saw
        split at h
        · rename_i early
          cases h
          exact .early saw early
        · rename_i due
          cases h
          exact .due saw (not_lt.mp due)
      · cases h
  | wait =>
      simp only [step] at h
      split at h
      · rename_i none_
        cases h
        exact .waitNone none_
      · rename_i entry
        cases h
        exact .waitEntry entry
      · cases h
  | wake =>
      simp only [step] at h
      split at h
      · rename_i waiting
        obtain ⟨notify, woken, rfl⟩ := Option.map_eq_some_iff.mp h
        exact .wake (by rw [waiting]; rfl) woken
      · rename_i sleeping
        obtain ⟨notify, woken, rfl⟩ := Option.map_eq_some_iff.mp h
        exact .wake (by rw [sleeping]; rfl) woken
      · cases h
  | timeout =>
      simp only [step] at h
      split at h
      · rename_i selecting
        cases h
        exact .skip selecting
      · rename_i sleeping
        cases h
        exact .timeout sleeping
      · cases h
  | pop =>
      simp only [step] at h
      split at h
      · rename_i popping
        split at h
        · rename_i popped
          cases h
          exact .pop popping popped
        · rename_i nothing
          cases h
          exact .retry popping nothing
      · cases h

end Scheduling

/-- The due time before which the consumer does not look at the heap again by itself. -/
def Consumer.until? : Consumer → Option (WithTop ℚ)
  | .sawNone | .waiting => some ⊤
  | .saw entry | .selecting entry | .sleeping entry => some entry.due
  | .idle | .looping | .popping => none

namespace Scheduling
variable {s t : Scheduling} {a : SchedulingAct} {acts : List SchedulingAct}

/-- A permit or a wake-up is pending, or will be, from a task that has pushed its entry. -/
def Alerted (s : Scheduling) : Prop := s.notify.Pending ∨ 0 < s.unnotified

/-- The consumer is in the list of waiters when it waits, and nothing that comes before its time goes unnoticed. -/
structure Watched (s : Scheduling) : Prop where
  registered : s.notify.waiter = .absent ↔ s.consumer.registered = false
  noticed : ∀ d, s.consumer.until? = some d → ∀ e ∈ s.inner.heap, (e.due : WithTop ℚ) < d → s.Alerted

theorem new_watched : new.Watched := ⟨⟨fun _ => rfl, fun _ => rfl⟩, fun _ none_ => nomatch none_⟩

theorem poll_cases (s : Scheduling) (waits : Consumer) :
    (s.poll waits = { s with notify := ⟨false, s.notify.waiter, nofun⟩, consumer := .looping }) ∨
      s.notify.permit = false ∧
        s.poll waits = { s with notify := ⟨false, .waiting, nofun⟩, consumer := waits } := by
  cases permit : s.notify.permit with
  | true =>
      refine .inl ?_
      simp only [poll, Notify.notified, permit, if_true]
  | false =>
      refine .inr ⟨rfl, ?_⟩
      simp only [poll, Notify.notified, permit, Bool.false_eq_true, if_false]

theorem Watched.poll (h : s.Watched) {waits : Consumer} (unregistered : s.consumer.registered = false)
    (waiting : waits.registered = true) (same : waits.until? = s.consumer.until?) : (s.poll waits).Watched := by
  have absent := h.registered.mpr unregistered
  rcases poll_cases s waits with goes | ⟨permit, stays⟩
  · rw [goes]
    exact ⟨⟨fun _ => rfl, fun _ => absent⟩, fun _ none_ => nomatch none_⟩
  · rw [stays]
    refine ⟨⟨fun other => (nomatch other), fun other => absurd (waiting.symm.trans other) nofun⟩, ?_⟩
    intro d until_ e member early
    rcases h.noticed d (same ▸ until_) e member early with (taken | woken) | later
    · exact absurd (permit.symm.trans taken) nofun
    · exact absurd (absent.symm.trans woken) nofun
    · exact .inr later

theorem Watched.attentive (unregistered : s.notify.waiter = .absent) (attentive : s.consumer.registered = false)
    (looks : s.consumer.until? = none) : s.Watched :=
  ⟨⟨fun _ => attentive, fun _ => unregistered⟩, fun _ until_ => absurd (looks.symm.trans until_) nofun⟩

theorem Watched.step (h : s.Watched) (moved : s.Moved a t) : t.Watched := by
  have absent : ∀ {c}, s.consumer = c → c.registered = false → s.notify.waiter = .absent :=
    fun here other => h.registered.mpr (here ▸ other)
  cases moved with
  | schedule | elapse => exact ⟨h.registered, h.noticed⟩
  | push => exact ⟨h.registered, fun _ _ _ _ _ => .inr (Nat.succ_pos _)⟩
  | notifyOne =>
      exact ⟨Notify.notifyOne_absent_iff.trans h.registered, fun _ _ _ _ _ => .inl (Notify.pending_notifyOne _)⟩
  | call idle => exact .attentive (absent idle rfl) rfl rfl
  | peekNone looping empty =>
      refine ⟨⟨fun _ => rfl, fun _ => absent looping rfl⟩, fun d _ e member => ?_⟩
      rw [empty] at member
      cases member
  | @peek top looping found =>
      refine ⟨⟨fun _ => rfl, fun _ => absent looping rfl⟩, fun d until_ e member early => ?_⟩
      cases until_
      have least := peek_least found e member
      have before : e.due < top.due := WithTop.coe_lt_coe.mp early
      exact absurd (Prod.Lex.toLex_lt_toLex.mpr (.inl before)) (not_lt.mpr least)
  | early saw =>
      refine ⟨⟨fun _ => rfl, fun _ => absent saw rfl⟩, fun _ until_ => h.noticed _ ?_⟩
      rw [saw]
      exact until_
  | due saw => exact .attentive (absent saw rfl) rfl rfl
  | waitNone sawNone => exact h.poll (by rw [sawNone]; rfl) rfl (by rw [sawNone]; rfl)
  | waitEntry selecting => exact h.poll (by rw [selecting]; rfl) rfl (by rw [selecting]; rfl)
  | wake _ resumed => exact .attentive (Notify.resume_absent resumed) rfl rfl
  | skip selecting => exact .attentive (absent selecting rfl) rfl rfl
  | timeout => exact .attentive (Notify.cancel_absent _) rfl rfl
  | pop popping => exact .attentive (absent popping rfl) rfl rfl
  | retry popping => exact .attentive (absent popping rfl) rfl rfl

theorem Watched.run (run : Run (ofFn Scheduling.step) s acts t) (h : s.Watched) : t.Watched :=
  run.keeps (fun _ _ _ here moved => here.step (step_moved moved)) h

/-- What is pending while the consumer waits is a wake-up that it can act on. -/
theorem pending_wakes (run : Run (ofFn step) new acts s) (waits : s.consumer.registered = true)
    (pending : s.notify.Pending) : ∃ t, s.step .wake = some t := by
  have watched := new_watched.run run
  have registered : s.notify.waiter ≠ .absent := by
    intro absent
    rw [watched.registered.mp absent] at waits
    cases waits
  obtain ⟨notify, resumed⟩ := pending.resumes registered
  cases place : s.consumer with
  | waiting | sleeping =>
      simp only [step, place, resumed]
      exact ⟨_, rfl⟩
  | idle | looping | sawNone | saw | selecting | popping =>
      rw [place] at waits
      cases waits

end Scheduling

/-- While the consumer waits for an entry although there is one, or sleeps past the due time of one, a permit or a
wake-up is pending, or will be, from a task that has pushed and not yet notified. -/
theorem no_wakeup_lost {s : Scheduling} {acts : List SchedulingAct} (run : Run (ofFn Scheduling.step) .new acts s) :
    (s.consumer = .sawNone ∨ s.consumer = .waiting → s.inner.heap ≠ [] → s.Alerted) ∧
      ∀ entry, s.consumer = .selecting entry ∨ s.consumer = .sleeping entry →
        ∀ e ∈ s.inner.heap, e.due < entry.due → s.Alerted := by
  have watched := Scheduling.new_watched.run run
  constructor
  · intro waits some_
    obtain ⟨e, member⟩ := List.exists_mem_of_ne_nil _ some_
    refine watched.noticed ⊤ ?_ e member (WithTop.coe_lt_top _)
    rcases waits with sawNone | waiting
    · rw [sawNone]
      rfl
    · rw [waiting]
      rfl
  · intro entry waits e member early
    refine watched.noticed entry.due ?_ e member (WithTop.coe_lt_coe.mpr early)
    rcases waits with selecting | sleeping
    · rw [selecting]
      rfl
    · rw [sleeping]
      rfl

/-- An earlier entry is pushed while the consumer sleeps until a later one. -/
theorem no_wakeup_lost_earlier :
    ∃ s, Run (ofFn Scheduling.step) .new
        [.schedule "a" 5, .push 0, .call, .peek, .compare, .wait, .schedule "b" 3, .push 0] s ∧
      s.consumer = .sleeping ⟨5, 1, "a"⟩ ∧ s.Alerted := by
  have run : Run (ofFn Scheduling.step) .new
    [.schedule "a" 5, .push 0, .call, .peek, .compare, .wait, .schedule "b" 3, .push 0] _ := run_ofFn_iff.mpr rfl
  exact ⟨_, run, rfl, (no_wakeup_lost run).2 _ (.inr rfl) ⟨3, 2, "b"⟩ List.mem_cons_self (by decide)⟩

theorem idxOf_le_of_pairwise {α : Type} [DecidableEq α] {f : α → Nat} {l : List α}
    (ordered : l.Pairwise fun a b => f a < f b) {a b : α} (first : a ∈ l) (second : b ∈ l) (le : f a ≤ f b) :
    l.idxOf a ≤ l.idxOf b := by
  have here := List.idxOf_lt_length_of_mem first
  have there := List.idxOf_lt_length_of_mem second
  refine Nat.le_of_not_lt fun after => ?_
  have less := List.pairwise_iff_getElem.mp ordered _ _ there here after
  rw [List.getElem_idxOf, List.getElem_idxOf] at less
  omega

namespace Scheduling
variable {s t : Scheduling} {a : SchedulingAct} {acts : List SchedulingAct}

/-- What was pushed was returned or is in the heap, and was numbered in turn. -/
structure Accounted (s : Scheduling) : Prop where
  parts : (s.returned ++ s.inner.heap).Perm s.pushed
  turns : s.pushed.Pairwise fun e f => e.seq < f.seq
  counted : ∀ e ∈ s.pushed, e.seq ≤ s.inner.counter
  counter : s.inner.counter = s.pushed.length

theorem new_accounted : new.Accounted := ⟨.nil, .nil, fun _ none_ => (nomatch none_), rfl⟩

theorem Accounted.step (h : s.Accounted) (moved : s.Moved a t) : t.Accounted := by
  cases moved with
  | @push i key due =>
      refine ⟨?_, ?_, ?_, ?_⟩
      · have front := h.parts.cons ⟨due, s.inner.counter + 1, key⟩
        exact List.perm_middle.trans (front.trans (List.perm_append_singleton _ _).symm)
      · refine List.pairwise_append.mpr ⟨h.turns, List.pairwise_singleton _ _, fun e before f new_ => ?_⟩
        rw [List.mem_singleton.mp new_]
        exact Nat.lt_succ_of_le (h.counted e before)
      · intro e member
        rcases List.mem_append.mp member with before | new_
        · exact Nat.le_succ_of_le (h.counted e before)
        · rw [List.mem_singleton.mp new_]
          exact le_rfl
      · rw [List.length_append, List.length_singleton, ← h.counter]
        rfl
  | @pop entry inner _ popped =>
      have taken := (Scheduler.pop_perm popped).1
      obtain ⟨_, _, rfl⟩ := Scheduler.pop_eq popped
      refine ⟨?_, h.turns, h.counted, h.counter⟩
      rw [List.append_assoc]
      exact (taken.symm.append_left s.returned).trans h.parts
  | _ => exact ⟨h.parts, h.turns, h.counted, h.counter⟩

theorem Accounted.run (run : Run (ofFn Scheduling.step) s acts t) (h : s.Accounted) : t.Accounted :=
  run.keeps (fun _ _ _ here moved => here.step (step_moved moved)) h

/-- A counter of 64 bits does not wrap before as many entries have been pushed. -/
theorem seq_fits (run : Run (ofFn Scheduling.step) new acts s) (few : s.pushed.length < 2 ^ 64) :
    s.inner.counter < 2 ^ 64 ∧ ∀ e ∈ s.pushed, e.seq < 2 ^ 64 := by
  have accounted := new_accounted.run run
  have fits : s.inner.counter < 2 ^ 64 := accounted.counter ▸ few
  exact ⟨fits, fun e member => (accounted.counted e member).trans_lt fits⟩

theorem Accounted.distinct (h : s.Accounted) : s.pushed.Nodup :=
  h.turns.imp fun less same => absurd less (by rw [same]; exact lt_irrefl _)

theorem Accounted.mem_pushed (h : s.Accounted) {e : ScheduleEntry} (member : e ∈ s.inner.heap) : e ∈ s.pushed :=
  h.parts.subset (List.mem_append_right _ member)

theorem Accounted.first (h : s.Accounted) {e f : ScheduleEntry} (first : e ∈ s.inner.heap) (second : f ∈ s.inner.heap)
    (least : e.rank ≤ f.rank) :
    e.due < f.due ∨ e.due = f.due ∧ s.pushed.idxOf e ≤ s.pushed.idxOf f := by
  refine (Prod.Lex.toLex_le_toLex.mp least).imp_right fun ⟨same, turn⟩ => ⟨same, ?_⟩
  exact idxOf_le_of_pairwise h.turns (h.mem_pushed first) (h.mem_pushed second) turn

theorem Accounted.unique (h : s.Accounted) {e f : ScheduleEntry} (first : e ∈ s.inner.heap) (second : f ∈ s.inner.heap)
    (same : e.rank = f.rank) : e = f := by
  have turn : e.seq = f.seq := (Prod.mk.inj (toLex.injective same)).2
  have before := idxOf_le_of_pairwise h.turns (h.mem_pushed first) (h.mem_pushed second) turn.le
  have after := idxOf_le_of_pairwise h.turns (h.mem_pushed second) (h.mem_pushed first) turn.ge
  exact (List.idxOf_inj (h.mem_pushed first)).mp (Nat.le_antisymm before after)

/-- The entry that `peek` finds is the one maximum of the heap, so that no other heap could find another. -/
theorem peek_maximum (run : Run (ofFn Scheduling.step) new acts s) {top : ScheduleEntry} :
    ServerPoller.peek s.inner.heap = some top ↔ top ∈ s.inner.heap ∧ ∀ e ∈ s.inner.heap, e.cmp top ≠ .gt :=
  peek_eq_some_iff fun _ first _ second same => (new_accounted.run run).unique first second same

def Returns (s t : Scheduling) : Prop := s.consumer ≠ .idle ∧ t.consumer = .idle

theorem returned_cases (moved : s.Moved a t) :
    (t.returned = s.returned ∧ ¬s.Returns t) ∨
      s.Returns t ∧ ∃ e, t.returned = s.returned ++ [e] ∧ s.inner.pop s.now = some (e, t.inner) := by
  have polled : ∀ waits : Consumer, waits ≠ .idle →
      (s.poll waits).returned = s.returned ∧ ¬s.Returns (s.poll waits) := by
    intro waits other
    refine ⟨rfl, fun ends => ?_⟩
    rcases poll_cases s waits with goes | ⟨_, stays⟩
    · rw [Returns, goes] at ends
      cases ends.2
    · rw [Returns, stays] at ends
      exact other ends.2
  cases moved with
  | schedule | push | notifyOne | elapse => exact .inl ⟨rfl, fun ends => ends.1 ends.2⟩
  | call | peekNone | peek | early | due | wake | skip | timeout | retry => exact .inl ⟨rfl, fun ends => nomatch ends.2⟩
  | waitNone => exact .inl (polled .waiting nofun)
  | @waitEntry entry => exact .inl (polled (.sleeping entry) nofun)
  | @pop entry inner popping popped =>
      exact .inr ⟨⟨by rw [popping]; exact nofun, rfl⟩, entry, rfl, popped⟩

end Scheduling

/-- The comparison of entries is a total order in which the equal ones are those that `eq` says are; what was pushed
was returned once or is in the heap; and every call returns the first entry of the heap, by its due time and then by
the order of the pushes, and not before it is due. -/
theorem entries_in_order :
    (∀ e f g : ScheduleEntry, (e.cmp f = .eq ↔ e.eq f = true) ∧ f.cmp e = (e.cmp f).swap ∧
      (e.cmp f ≠ .gt → f.cmp g ≠ .gt → e.cmp g ≠ .gt)) ∧
      ∀ {acts : List SchedulingAct} {s : Scheduling}, Run (ofFn Scheduling.step) .new acts s →
        (s.returned ++ s.inner.heap).Perm s.pushed ∧ s.pushed.Nodup ∧
          ∀ a t, s.step a = some t →
            (t.returned = s.returned ∧ ¬s.Returns t) ∨
              s.Returns t ∧ ∃ e, t.returned = s.returned ++ [e] ∧ e.due ≤ s.now ∧ e ∈ s.inner.heap ∧
                ∀ f ∈ s.inner.heap, e.due < f.due ∨ e.due = f.due ∧ s.pushed.idxOf e ≤ s.pushed.idxOf f := by
  refine ⟨fun e f g => ⟨ScheduleEntry.cmp_eq_iff, ScheduleEntry.cmp_swap, ScheduleEntry.cmp_trans⟩, ?_⟩
  intro acts s run
  have accounted := Scheduling.new_accounted.run run
  refine ⟨accounted.parts, accounted.distinct, fun a t moved => ?_⟩
  refine (Scheduling.returned_cases (Scheduling.step_moved moved)).imp_right ?_
  rintro ⟨ends, e, last, popped⟩
  obtain ⟨found, due, _⟩ := Scheduler.pop_eq popped
  exact ⟨ends, e, last, due, peek_mem found,
    fun f member => accounted.first (peek_mem found) member (peek_least found f member)⟩

/-- The entry that is pushed last is returned first, when it is due first. -/
theorem entries_in_order_two :
    ∃ s t, Run (ofFn Scheduling.step) .new
        [.schedule "a" 5, .push 0, .schedule "b" 3, .push 0, .elapse 4, .call, .peek, .compare] s ∧
      s.step .pop = some t ∧ t.returned = [⟨3, 2, "b"⟩] ∧ (s.returned ++ s.inner.heap).Perm s.pushed := by
  have run : Run (ofFn Scheduling.step) .new
    [.schedule "a" 5, .push 0, .schedule "b" 3, .push 0, .elapse 4, .call, .peek, .compare] _ := run_ofFn_iff.mpr rfl
  exact ⟨_, _, run, rfl, rfl, (entries_in_order.2 run).1⟩

/-- The collector has the tasks and the heap, and its loop is in `next_due` while a call of it runs. -/
structure Scheduling.Shows (s : Scheduling) (c : Collector) : Prop where
  tasks : c.tasks = s.spawned
  scheduler : c.scheduler = s.inner
  waiting : s.consumer ≠ .idle → c.loop = .waiting

/-- To the collector a step is the run of a task, the end of a call with the pop of its entry, or nothing; what
calls `schedule` are its other steps. -/
theorem Scheduling.Shows.step {crates : Crates} {settings : Settings} {s t : Scheduling} {a : SchedulingAct}
    {c : Collector} (shows : s.Shows c) (moved : s.Moved a t) (spawns : ∀ key due, a ≠ .schedule key due)
    (calls : a = .call → c.loop = .waiting) :
    t.Shows c ∨
      (∃ i d, a = .push i ∧ ServerPoller.step crates settings c (.runTask i) = some d ∧ t.Shows d) ∨
        ∃ e d, s.Returns t ∧ t.returned = s.returned ++ [e] ∧
          ServerPoller.step crates settings c (.nextDue s.now) = some d ∧ d.loop = .popped e.key e.due ∧ t.Shows d := by
  have running : ∀ {place : Consumer}, s.consumer = place → decide (place = .idle) = false → c.loop = .waiting :=
    fun here other => shows.waiting (here ▸ of_decide_eq_false other)
  have polled : ∀ waits : Consumer, c.loop = .waiting → (s.poll waits).Shows c :=
    fun waits loop => ⟨shows.tasks, shows.scheduler, fun _ => loop⟩
  cases moved with
  | schedule => exact absurd rfl (spawns _ _)
  | @push i key due task =>
      have taken : c.tasks[i]? = some (key, due) := shows.tasks ▸ task
      refine .inr (.inl ⟨i, { c with tasks := c.tasks.eraseIdx i, scheduler := c.scheduler.push key due }, rfl, ?_, ?_⟩)
      · simp only [ServerPoller.step, taken]
      · exact ⟨congrArg (·.eraseIdx i) shows.tasks, congrArg (·.push key due) shows.scheduler, shows.waiting⟩
  | notifyOne | elapse => exact .inl ⟨shows.tasks, shows.scheduler, shows.waiting⟩
  | call => exact .inl ⟨shows.tasks, shows.scheduler, fun _ => calls rfl⟩
  | peekNone here | peek here => exact .inl ⟨shows.tasks, shows.scheduler, fun _ => running here rfl⟩
  | early here | due here => exact .inl ⟨shows.tasks, shows.scheduler, fun _ => running here rfl⟩
  | skip here | timeout here => exact .inl ⟨shows.tasks, shows.scheduler, fun _ => running here rfl⟩
  | retry here => exact .inl ⟨shows.tasks, shows.scheduler, fun _ => running here rfl⟩
  | waitNone here => exact .inl (polled _ (running here rfl))
  | waitEntry here => exact .inl (polled _ (running here rfl))
  | wake registered =>
      have other : s.consumer ≠ .idle := by
        intro idle
        rw [idle] at registered
        cases registered
      exact .inl ⟨shows.tasks, shows.scheduler, fun _ => shows.waiting other⟩
  | @pop e inner here popped =>
      have loop := running here rfl
      have found : c.scheduler.pop s.now = some (e, inner) := shows.scheduler ▸ popped
      refine .inr (.inr ⟨e, { c with scheduler := inner, loop := .popped e.key e.due }, ⟨?_, rfl⟩, rfl, ?_, rfl, ?_⟩)
      · rw [here]
        exact of_decide_eq_false rfl
      · simp only [ServerPoller.step, loop, found]
      · exact ⟨shows.tasks, rfl, fun other => absurd rfl other⟩

end ServerPoller
