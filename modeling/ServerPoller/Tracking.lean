import ServerPoller.CatalogRefresh
import ServerPoller.Collector

/-! Without Redis no server drops out of polling. Whatever changes a due time schedules the new one,
and between the check of an entry and the next due time the key is on its way through a worker. -/

namespace ServerPoller
open Json RustText Transition

def Keyed (states : States) : Prop := ∀ k s, states.lookup k = some s → s.key = k

/-- Every state is under its own key, and scheduled with its due time unless that is an old one. -/
def Rescheduled.Honours (before : States) (r : Rescheduled) : Prop :=
  ∀ k t, r.states.lookup k = some t →
    t.key = k ∧ ((k, t.nextDue) ∈ r.scheduled ∨ ∃ s, before.lookup k = some s ∧ s.nextDue = t.nextDue)

section Honours
variable {before : States} {r : Rescheduled}

theorem honours_refl (keyed : Keyed before) : Rescheduled.Honours before ⟨before, []⟩ :=
  fun k t found => ⟨keyed k t found, .inr ⟨t, found, rfl⟩⟩

theorem Rescheduled.Honours.scheduleMore (h : r.Honours before) (more : List (String × ℚ)) :
    Rescheduled.Honours before ⟨r.states, r.scheduled ++ more⟩ := by
  intro k t found
  obtain ⟨key, due | old⟩ := h k t found
  · exact ⟨key, .inl (List.mem_append_left _ due)⟩
  · exact ⟨key, .inr old⟩

theorem Rescheduled.Honours.insert (h : r.Honours before) {k : String} {t : ServerState} (key : t.key = k)
    (due : (k, t.nextDue) ∈ r.scheduled ∨ ∃ s, before.lookup k = some s ∧ s.nextDue = t.nextDue) :
    Rescheduled.Honours before ⟨r.states.insert k t, r.scheduled⟩ := by
  intro k' t' found
  rcases AList.lookup_insert_eq_some.mp found with ⟨rfl, rfl⟩ | ⟨_, before⟩
  · exact ⟨key, due⟩
  · exact h k' t' before

theorem Rescheduled.Honours.filterKeys (h : r.Honours before) (p : String → Bool) :
    Rescheduled.Honours before ⟨r.states.filterKeys p, r.scheduled⟩ := by
  intro k t found
  rw [AList.lookup_filterKeys] at found
  split at found
  · exact h k t found
  · cases found

theorem refreshItem_honours {crates : Crates} {settings : Settings} {now : ℚ} (h : r.Honours before)
    (entry : Value × ItemContext) : (refreshItem crates settings now r entry).Honours before := by
  rcases refreshItem_cases crates settings now r entry with ⟨_, eq⟩ | ⟨s, _, found, eq⟩ | ⟨_, _, eq⟩
  · rw [eq]
    exact h
  · rw [eq]
    obtain ⟨key, due⟩ := h _ _ found
    apply (h.scheduleMore _).insert (updateExisting_key.trans key)
    rw [updateExisting_nextDue]
    cases switched : fallbackMode crates settings entry && !s.pluginFallbackMode with
    | true => exact .inl (by simp)
    | false => exact due.imp_left (List.mem_append_left _)
  · rw [eq]
    exact (h.scheduleMore _).insert rfl (.inl (by simp))

theorem refreshServersOnce_honours (crates : Crates) (settings : Settings) (now : ℚ)
    (entries : List (Value × ItemContext)) (keyed : Keyed before) :
    (refreshServersOnce crates settings now entries before).2.Honours before := by
  have run := refreshItems_run crates settings now before entries
  have items : (refreshItems crates settings now entries before).Honours before := by
    refine run.keeps (P := Rescheduled.Honours before) ?_ (honours_refl keyed)
    rintro r entry _ h rfl
    exact refreshItem_honours h entry
  unfold refreshServersOnce
  split
  · exact honours_refl keyed
  · exact items.filterKeys _

theorem trigger_honours (targets : Option (List String)) (now : ℚ) (keyed : Keyed before) :
    (trigger targets now before).Honours before := by
  cases targets with
  | none =>
      intro k t found
      simp only [trigger, AList.lookup_mapVals, Option.map_eq_some_iff] at found
      obtain ⟨s, there, rfl⟩ := found
      refine ⟨keyed k s there, .inl ?_⟩
      have entry : (⟨k, s⟩ : Sigma fun _ : String => ServerState) ∈ before.entries :=
        AList.mem_lookup_iff.mp there
      exact List.mem_map.mpr ⟨_, entry, by rw [keyed k s there]⟩
  | some ids =>
      have run := run_ofTotal_iff.mpr (Eq.refl (trigger (some ids) now before))
      refine run.keeps (P := Rescheduled.Honours before) ?_ (honours_refl keyed)
      rintro r id _ h rfl
      unfold triggerOne
      split
      · rename_i s found
        have key := (h id s found).1
        exact (h.scheduleMore _).insert key (.inl (by simp [key]))
      · exact h

end Honours

def Worker.key? : Worker → Option String
  | .received key | .internal key | .polling key _ => some key
  | .idle | .sending _ _ => none

/-- An entry with this due time is in a spawned task, in the heap, or popped and not yet checked. -/
def Collector.Waits (c : Collector) (k : String) (due : ℚ) : Prop :=
  (k, due) ∈ c.tasks ∨ c.scheduler.Holds k due ∨ c.loop = .popped k due

/-- The key is before `send`, in the work queue, or held by a worker. -/
def Collector.Carries (c : Collector) (k : String) : Prop :=
  c.loop = .accepted k ∨ k ∈ c.workQueue ∨ ∃ i, (c.workers i).key? = some k

/-- No server drops out of polling. -/
def Collector.Tracks (c : Collector) : Prop :=
  ∀ k s, c.states.lookup k = some s → s.key = k ∧ (c.Waits k s.nextDue ∨ c.Carries k)

theorem Collector.Tracks.keyed {c : Collector} (h : c.Tracks) : Keyed c.states :=
  fun k s found => (h k s found).1

section Moves
variable {c d : Collector} {k : String} {due : ℚ}

theorem carries_setWorker {i : Nat} {w : Worker} (h : c.Carries k)
    (kept : (c.workers i).key? = some k → w.key? = some k) : (c.setWorker i w).Carries k := by
  rcases h with loop | queued | ⟨j, held⟩
  · exact .inl loop
  · exact .inr (.inl queued)
  · by_cases same : j = i
    · subst same
      exact .inr (.inr ⟨j, by simpa [Collector.setWorker] using kept held⟩)
    · exact .inr (.inr ⟨j, by simpa [Collector.setWorker, same] using held⟩)

/-- A step that leaves the map alone keeps track if it does so for every key of the map. -/
theorem Collector.Tracks.move (h : c.Tracks) (same : d.states = c.states)
    (waits : ∀ k s, c.states.lookup k = some s → c.Waits k s.nextDue → d.Waits k s.nextDue ∨ d.Carries k)
    (carries : ∀ k s, c.states.lookup k = some s → c.Carries k → d.Waits k s.nextDue ∨ d.Carries k) :
    d.Tracks := by
  intro k s found
  rw [same] at found
  obtain ⟨key, wait | carry⟩ := h k s found
  · exact ⟨key, waits k s found wait⟩
  · exact ⟨key, carries k s found carry⟩

theorem Collector.Tracks.reschedule (h : c.Tracks) {r : Rescheduled} (honours : r.Honours c.states) :
    (c.reschedule r).Tracks := by
  intro k t found
  obtain ⟨key, scheduled | ⟨s, before, due⟩⟩ := honours k t found
  · exact ⟨key, .inl (.inl (List.mem_append_right _ scheduled))⟩
  · refine ⟨key, ?_⟩
    rw [← due]
    rcases (h k s before).2 with (task | wait) | carry
    · exact .inl (.inl (List.mem_append_left _ task))
    · exact .inl (.inr wait)
    · exact .inr carry

theorem Collector.Tracks.runTask (h : c.Tracks) {i : Nat} (found : c.tasks[i]? = some (k, due)) :
    { c with tasks := c.tasks.eraseIdx i, scheduler := c.scheduler.push k due }.Tracks := by
  refine h.move rfl ?_ (fun _ _ _ carry => .inr carry)
  intro k' s _ wait
  rcases wait with task | held | popped
  · obtain ⟨j, there⟩ := List.mem_iff_getElem?.mp task
    by_cases same : j = i
    · subst same
      cases found.symm.trans there
      exact .inl (.inr (.inl (Scheduler.holds_push.mpr (.inl ⟨rfl, rfl⟩))))
    · exact .inl (.inl (List.mem_eraseIdx_iff_getElem?.mpr ⟨j, same, there⟩))
  · exact .inl (.inr (.inl (Scheduler.holds_push.mpr (.inr held))))
  · exact .inl (.inr (.inr popped))

theorem Collector.Tracks.nextDue (h : c.Tracks) {now : ℚ} {top : ScheduleEntry} {rest : Scheduler}
    (idle : c.loop = .waiting) (popped : c.scheduler.pop now = some (top, rest)) :
    { c with scheduler := rest, loop := .popped top.key top.due }.Tracks := by
  refine h.move rfl ?_ ?_
  · intro k' s _ wait
    rcases wait with task | held | loop
    · exact .inl (.inl task)
    · rcases (Scheduler.holds_pop popped).mp held with ⟨rfl, due⟩ | below
      · exact .inl (.inr (.inr (by rw [← due])))
      · exact .inl (.inr (.inl below))
    · cases idle.symm.trans loop
  · intro k' s _ carry
    rcases carry with loop | carry
    · cases idle.symm.trans loop
    · exact .inr (.inr carry)

theorem Collector.Tracks.accept (h : c.Tracks) (popped : c.loop = .popped k due) :
    { c with loop := .accepted k }.Tracks := by
  refine h.move rfl ?_ ?_
  · intro k' s _ wait
    rcases wait with task | held | loop
    · exact .inl (.inl task)
    · exact .inl (.inr (.inl held))
    · cases popped.symm.trans loop
      exact .inr (.inl rfl)
  · intro k' s _ carry
    rcases carry with loop | carry
    · cases popped.symm.trans loop
    · exact .inr (.inr carry)

theorem Collector.Tracks.discard (h : c.Tracks) (popped : c.loop = .popped k due)
    (mismatched : matchesDue c.states k due = false) : { c with loop := .waiting }.Tracks := by
  refine h.move rfl ?_ ?_
  · intro k' s found wait
    rcases wait with task | held | loop
    · exact .inl (.inl task)
    · exact .inl (.inr (.inl held))
    · cases popped.symm.trans loop
      simp [matchesDue, found] at mismatched
  · intro k' s _ carry
    rcases carry with loop | carry
    · cases popped.symm.trans loop
    · exact .inr (.inr carry)

theorem Collector.Tracks.send (h : c.Tracks) (accepted : c.loop = .accepted k) :
    { c with loop := .waiting, workQueue := c.workQueue ++ [k] }.Tracks := by
  refine h.move rfl ?_ ?_
  · intro k' s _ wait
    rcases wait with task | held | loop
    · exact .inl (.inl task)
    · exact .inl (.inr (.inl held))
    · cases accepted.symm.trans loop
  · intro k' s _ carry
    rcases carry with loop | queued | held
    · cases accepted.symm.trans loop
      exact .inr (.inr (.inl (List.mem_append_right _ (List.mem_singleton.mpr rfl))))
    · exact .inr (.inr (.inl (List.mem_append_left _ queued)))
    · exact .inr (.inr (.inr held))

theorem Collector.Tracks.receive (h : c.Tracks) {i : Nat} {rest : List String} (idle : c.workers i = .idle)
    (queue : c.workQueue = k :: rest) : ({ c with workQueue := rest }.setWorker i (.received k)).Tracks := by
  refine h.move rfl (fun _ _ _ wait => .inl wait) ?_
  intro k' s _ carry
  rcases carry with loop | queued | ⟨j, held⟩
  · exact .inr (.inl loop)
  · rw [queue] at queued
    rcases List.mem_cons.mp queued with rfl | later
    · exact .inr (.inr (.inr ⟨i, by rw [setWorker_self]; rfl⟩))
    · exact .inr (.inr (.inl later))
  · have other : j ≠ i := by
      rintro rfl
      rw [idle] at held
      cases held
    exact .inr (.inr (.inr ⟨j, by rw [setWorker_ne other]; exact held⟩))

theorem Collector.Tracks.leave (h : c.Tracks) {i : Nat} {w : Worker}
    (gone : ∀ k, (c.workers i).key? = some k → c.states.lookup k ≠ none → w.key? = some k) :
    (c.setWorker i w).Tracks := by
  refine h.move rfl (fun k s _ wait => .inl wait) ?_
  intro k s found carry
  exact .inr (carries_setWorker carry fun held => gone k held (by rw [found]; exact Option.some_ne_none _))

theorem Collector.Tracks.finish (h : c.Tracks) {i : Nat} {w : Worker} {s : ServerState}
    (held : (c.workers i).key? = some k) (key : s.key = k) :
    ((c.setWorker i w).reschedule (rescheduleState k s c.states)).Tracks := by
  intro k' t found
  change (c.states.insert k s).lookup k' = some t at found
  rcases AList.lookup_insert_eq_some.mp found with ⟨rfl, rfl⟩ | ⟨other, before⟩
  · exact ⟨key, .inl (.inl (List.mem_append_right _ (List.mem_singleton.mpr rfl)))⟩
  · obtain ⟨key', (task | wait) | carry⟩ := h k' t before
    · exact ⟨key', .inl (.inl (List.mem_append_left _ task))⟩
    · exact ⟨key', .inl (.inr wait)⟩
    · refine ⟨key', .inr (carries_setWorker carry ?_)⟩
      intro held'
      cases held.symm.trans held'
      exact absurd rfl other

theorem afterSnapshot_key? (k : String) (s : ServerState) : (afterSnapshot k (some s)).key? = some k := by
  simp only [afterSnapshot]
  split <;> rfl

end Moves

section Runs
variable {crates : Crates} {settings : Settings} {c d : Collector}

/-- The collector keeps track, and no target is being fetched. -/
structure Collector.Tracking (c : Collector) : Prop where
  tracks : c.Tracks
  waiting : c.forceLoop = .waiting

theorem start_tracking : Collector.start.Tracking := ⟨fun _ _ found => (by cases found), rfl⟩

theorem step_tracking (noRedis : settings.redisEnabled = false) (h : c.Tracking) {a : Action}
    (hs : step crates settings c a = some d) : d.Tracking := by
  obtain ⟨tracks, waiting⟩ := h
  cases step_moved hs with
  | refresh => exact ⟨tracks.reschedule (refreshServersOnce_honours crates settings _ _ tracks.keyed), waiting⟩
  | trigger => exact ⟨tracks.reschedule (trigger_honours _ _ tracks.keyed), waiting⟩
  | popNothing enabled | popKnown enabled | popUnknown enabled => cases noRedis.symm.trans enabled
  | fetchedNothing fetching | fetched fetching => cases waiting.symm.trans fetching
  | runTask found => exact ⟨tracks.runTask found, waiting⟩
  | nextDue idle popped => exact ⟨tracks.nextDue idle popped, waiting⟩
  | accept popped _ => exact ⟨tracks.accept popped, waiting⟩
  | discard popped mismatched => exact ⟨tracks.discard popped mismatched, waiting⟩
  | send accepted _ => exact ⟨tracks.send accepted, waiting⟩
  | receive idle queue _ => exact ⟨tracks.receive idle queue, waiting⟩
  | snapshot received =>
      refine ⟨tracks.leave ?_, waiting⟩
      intro k held there
      rw [received] at held
      cases held
      obtain ⟨s, found⟩ := Option.ne_none_iff_exists'.mp there
      rw [found]
      exact afterSnapshot_key? _ s
  | internalGone internal gone =>
      refine ⟨tracks.leave ?_, waiting⟩
      intro k held there
      rw [internal] at held
      cases held
      exact absurd gone there
  | rescheduleInternal internal found =>
      have key := tracks.keyed _ _ found
      exact ⟨tracks.finish (by rw [internal]; rfl) key, waiting⟩
  | pollGone polling gone =>
      refine ⟨tracks.leave ?_, waiting⟩
      intro k held there
      rw [polling] at held
      cases held
      exact absurd gone there
  | finishPoll polling found =>
      exact ⟨tracks.finish (by rw [polling]; rfl) (updateState_key.trans (tracks.keyed _ _ found)), waiting⟩
  | @trySent i key payload sending _ | @dropped i key payload sending _ =>
      have left : (c.setWorker i .idle).Tracks := by
        apply tracks.leave
        intro k held _
        rw [sending] at held
        cases held
      exact ⟨left, waiting⟩
  | ingestReceive _ => exact ⟨tracks, waiting⟩

/-- In every reachable state every server is under its own key and either scheduled for its due time
or on its way through a worker, as long as Redis is disabled. -/
theorem collector_tracks_servers (noRedis : settings.redisEnabled = false) {es : List Action}
    (run : Run (ofFn (step crates settings)) .start es c) :
    ∀ k s, c.states.lookup k = some s → s.key = k ∧ (c.Waits k s.nextDue ∨ c.Carries k) :=
  (run.keeps (P := Collector.Tracking) (fun _ _ _ h hs => step_tracking noRedis h hs) start_tracking).tracks

end Runs

def onePoll : List Action := [
  .refresh 0 [(catalogItemToValue (sampleItem "1" "mc.example.com"), sampleContext)],
  .runTask 0, .nextDue 0, .check, .send, .receive 0, .snapshot 0, .trigger none 3,
  .finishPoll 0 upResult (quietContext 5), .trySend 0]

theorem collector_tracks_servers_onePoll :
    ∃ c, onePoll.foldlM (step plainCrates (defaultSettings false)) .start = some c ∧ "1" ∈ c.states ∧
      ∀ k s, c.states.lookup k = some s → s.key = k ∧ (c.Waits k s.nextDue ∨ c.Carries k) := by
  have runs : (onePoll.foldlM (step plainCrates (defaultSettings false)) .start).any
      (fun c => decide ("1" ∈ c.states)) = true := by decide +kernel
  obtain ⟨c, run, there⟩ := (Option.any_eq_true _ _).mp runs
  exact ⟨c, run, of_decide_eq_true there, collector_tracks_servers rfl (run_ofFn_iff.mpr run)⟩

end ServerPoller
