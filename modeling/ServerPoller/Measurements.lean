import ServerPoller.FaviconUpdates
import ServerPoller.Forwarding

/-! What the polls of a server measure, and what the monitoring service is told of it, with everything else that is
going on. -/

namespace ServerPoller
open Json DirectoryIo Transition

section Functions
variable (crates : Crates) (settings : Settings)

def Collector.measured (k : String) (c : Collector) (a : Action) : List PollResult :=
  ((c.endsPoll k a).map Prod.fst).toList

/-- The reference state of a server after polls with these results. -/
def mirrored (results : List PollResult) : Option Observation :=
  results.foldl (fun r result => some (mirror crates r result.payload result.statusOk)) none

/-- A listed object has another address for this server. -/
def Collector.readdresses (k : String) (c : Collector) : Action → Bool
  | .refresh _ entries => entries.any fun entry =>
      itemKey entry.1 == k && (c.states.lookup k).any fun s => decide (itemAddress entry.1 ≠ s.toAddress)
  | _ => false

/-- A poll of this server fails that was only to be compared with what the plugin says; nothing is made of it. -/
def Collector.failsComparison (k : String) (c : Collector) : Action → Bool
  | .finishPoll i result _ =>
      match c.workers i with
      | .polling key snap => key == k && (snap.pluginManaged && !snap.pluginFallbackMode && !result.statusOk)
      | _ => false
  | _ => false

/-- The server stays in the map and where it is, no forced fetch stores over it, and no mere comparison of it fails. -/
def Steady (k : String) (c : Collector) (a : Action) : Prop :=
  losesServer crates settings k c a = false ∧ c.readdresses k a = false ∧ c.failsComparison k a = false

instance (k : String) (c : Collector) (a : Action) : Decidable (Steady crates settings k c a) :=
  inferInstanceAs (Decidable (_ ∧ _ ∧ _))

end Functions

section Steps
variable {crates : Crates} {settings : Settings} {c d : Collector} {a : Action} {k : String} {s : ServerState}

theorem mirrored_append (results : List PollResult) (result : PollResult) :
    mirrored crates (results ++ [result]) =
      some (mirror crates (mirrored crates results) result.payload result.statusOk) := by
  rw [mirrored, List.foldl_append]
  rfl

/-- What is recorded as emitted after an update is what its result says. -/
theorem updateState_mirrors {snap : Snapshot} {result : PollResult} {ctx : UpdateContext} {r : Option Observation}
    (told : (snap.pluginManaged && !snap.pluginFallbackMode && !result.statusOk) = false) (h : s.toEmitted.Holds r) :
    (updateState crates settings snap result ctx s).1.toEmitted.Holds
      (some (mirror crates r result.payload result.statusOk)) := by
  have kept := undisturbed_recordPoll crates settings snap result ctx s
  simp only [updateState, told, Bool.false_eq_true, if_false]
  exact (buildChangePayload_mirrors result.payload result.statusOk ctx.emitNow _ (kept.emitted ▸ h)).2

theorem step_emitted_kept (hs : step crates settings c a = some d) (steady : Steady crates settings k c a)
    (quiet : c.endsPoll k a = none) (found : c.states.lookup k = some s) :
    ∃ t, d.states.lookup k = some t ∧ t.toEmitted = s.toEmitted := by
  obtain ⟨stays, placed, _⟩ := steady
  have before : k ∈ c.states := AList.exists_lookup_iff_mem.mp ⟨s, found⟩
  rw [losesServer, decide_eq_true before, Bool.true_and, Bool.or_eq_false_iff] at stays
  obtain ⟨stays, unfetched⟩ := stays
  have there : k ∈ d.states := by simpa [removes, hs] using stays
  obtain ⟨t, after⟩ := AList.exists_lookup_iff_mem.mpr there
  have inserted : ∀ {key : String} {u v : ServerState}, c.states.lookup key = some u →
      d.states = c.states.insert key v → v.toEmitted = u.toEmitted →
        ∃ t, d.states.lookup k = some t ∧ t.toEmitted = s.toEmitted := by
    intro key u v known states same
    rw [states] at after
    refine ⟨t, states ▸ after, ?_⟩
    rcases AList.lookup_insert_eq_some.mp after with ⟨rfl, rfl⟩ | ⟨_, before⟩
    · cases known.symm.trans found
      exact same
    · cases before.symm.trans found
      rfl
  cases step_moved hs with
  | @refresh now entries =>
      by_cases none : entries = []
      · subst none
        exact ⟨s, found, rfl⟩
      · have listed : Listed k entries := by
          by_contra missing
          exact AList.lookup_eq_none.mp ((lookup_refreshServersOnce none).2 missing) there
        obtain ⟨t, after, intact⟩ := refreshItems_intact crates settings now listed.1 found entries
        refine ⟨t, ((lookup_refreshServersOnce none).1 listed).trans after, ?_⟩
        rcases intact.emitted with ⟨_, emitted⟩ | ⟨entry, member, same, moved⟩
        · exact emitted
        · have stationary := List.any_eq_false.mp placed entry member
          simp [same, found, moved] at stationary
  | trigger =>
      obtain ⟨u, before, rfl | rfl⟩ := lookup_trigger after
      · cases before.symm.trans found
        exact ⟨_, after, rfl⟩
      · cases before.symm.trans found
        exact ⟨_, after, rfl⟩
  | popKnown _ _ _ known | rescheduleInternal _ known => exact inserted known rfl rfl
  | @fetched target now getServer server ctx fetching answer =>
      have other : k ≠ target := by
        rintro rfl
        simp [storesOver, ForceLoop.target?, fetching, answer, before] at unfetched
      exact ⟨s, (AList.lookup_insert_ne other).trans found, rfl⟩
  | @finishPoll i key snap u result ctx polling known =>
      have other : k ≠ key := by
        rintro rfl
        simp [Collector.endsPoll, polling, known] at quiet
      exact ⟨s, (AList.lookup_insert_ne other).trans found, rfl⟩
  | popNothing | popUnknown | fetchedNothing | runTask | nextDue | accept | discard | send | receive | snapshot
  | internalGone | pollGone | trySent | dropped | ingestReceive => exact ⟨s, found, rfl⟩

/-- The server is in the map, and what is recorded as emitted is what its polls have measured. -/
def Collector.RecordsPolls (crates : Crates) (settings : Settings) (c start : Collector) (k : String) (es : List Action) :
    Prop :=
  ∃ s, c.states.lookup k = some s ∧
    s.toEmitted.Holds (mirrored crates (gather (step crates settings) (Collector.measured k) start es))

theorem step_measured {start : Collector} {es : List Action} (run : Run (ofFn (step crates settings)) start es c)
    (h : c.RecordsPolls crates settings start k es) (hs : step crates settings c a = some d)
    (steady : Steady crates settings k c a) : d.RecordsPolls crates settings start k (es ++ [a]) := by
  obtain ⟨s, found, holds⟩ := h
  rw [Collector.RecordsPolls, gather_append _ run hs]
  cases ends : c.endsPoll k a with
  | none =>
      obtain ⟨t, after, same⟩ := step_emitted_kept hs steady ends found
      have silent : c.measured k a = [] := by simp [Collector.measured, ends]
      rw [silent, List.append_nil]
      exact ⟨t, after, same ▸ holds⟩
  | some poll =>
      obtain ⟨result, ctx, s'⟩ := poll
      have one : c.measured k a = [result] := by simp [Collector.measured, ends]
      rw [one, mirrored_append]
      obtain ⟨here, i, snap, rfl, polling, after⟩ := step_endsPoll hs ends
      cases here.symm.trans found
      refine ⟨_, after, updateState_mirrors ?_ holds⟩
      simpa [Collector.failsComparison, polling] using steady.2.2

end Steps

section Told
variable {crates : Crates} {settings : Settings} {codec : Codec Value} {env : Surroundings} {batchSize : Nat}
  {w : World WalProcess} {f g : Forwarding} {before acts : List ForwardingAct} {k : String} {s : ServerState}

theorem Emitted.Holds.unique {e : Emitted} {o : Observation} {r : Option Observation} (h : e.Holds (some o))
    (k : e.Holds r) : r = some o := by
  obtain ⟨t, rfl⟩ := h
  cases r with
  | none =>
      have flags : true = false := congrArg Emitted.hasEmittedState k
      cases flags
  | some o' =>
      obtain ⟨t', same⟩ := k
      cases o
      cases o'
      simp only [Observation.emitted, Emitted.mk.injEq, Option.some.injEq] at same
      simp [same]

theorem mirrored_ne_none {results : List PollResult} (some_ : results ≠ []) : ∃ o, mirrored crates results = some o := by
  rcases List.eq_nil_or_concat results with rfl | ⟨past, last, rfl⟩
  · exact absurd rfl some_
  · rw [List.concat_eq_append, mirrored_append]
    exact ⟨_, rfl⟩

end Told

end ServerPoller
