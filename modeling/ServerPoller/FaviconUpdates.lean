import ServerPoller.RefreshAgreement
import ServerPoller.StateReplacement
import ServerPoller.Lib.Reachability

/-! The favicons that the polls of one server bring, and those that the catalog service is given. The state remembers
the hash of what the service has, so that it is not given the same again. -/

namespace ServerPoller
open Json RustText Transition

/-- A call of `update_server_favicon`, with whether it succeeded. -/
structure FaviconUpdate where
  serverId : Int64
  dataUrl : String
  accepted : Bool
  deriving DecidableEq, Repr

section Calls
variable (crates : Crates)

/-- The call that `maybe_update_favicon` makes; a channel that cannot be built counts as a call that fails. -/
def faviconUpdate (ctx : UpdateContext) (favicon : String) (s : ServerState) : Option FaviconUpdate :=
  match faviconHash crates favicon, parseI64 s.serverId with
  | some hash, some id => if s.lastFaviconHash = some hash then none else some ⟨id, favicon, ctx.faviconUpdated⟩
  | _, _ => none

/-- The hash of what the service has after these calls. -/
def faviconOnService (updates : List FaviconUpdate) : Option String :=
  ((updates.filter FaviconUpdate.accepted).getLast?).bind fun update => faviconHash crates update.dataUrl

def NoneRepeated (updates : List FaviconUpdate) : Prop :=
  ∀ past update rest, updates = past ++ update :: rest →
    faviconHash crates update.dataUrl ≠ faviconOnService crates past

def Collector.endsPoll (k : String) (c : Collector) : Action → Option (PollResult × UpdateContext × ServerState)
  | .finishPoll i result ctx =>
      match c.workers i with
      | .polling key _ => if key = k then (c.states.lookup key).map fun s => (result, ctx, s) else none
      | _ => none
  | _ => none

def Collector.faviconUpdates (k : String) (c : Collector) (a : Action) : List FaviconUpdate :=
  ((c.endsPoll k a).bind fun (result, ctx, s) => faviconUpdate crates ctx result.favicon s).toList

/-- The hashes of the favicons that polls bring of a server that the service can name. -/
def Collector.faviconsSeen (k : String) (c : Collector) (a : Action) : List String :=
  ((c.endsPoll k a).bind fun (result, _, s) =>
    if (parseI64 s.serverId).isSome then faviconHash crates result.favicon else none).toList

def rememberedFavicon (k : String) (states : States) : Option String :=
  (states.lookup k).bind ServerState.lastFaviconHash

def ForceLoop.target? : ForceLoop → Option String
  | .fetching target _ => some target
  | .waiting => none

/-- The step takes the server out of the map, or stores a forced fetch of it over it. -/
def losesServer (settings : Settings) (k : String) (c : Collector) (a : Action) : Bool :=
  decide (k ∈ c.states) &&
    (removes crates settings c a k || (storesOver c a && decide (c.forceLoop.target? = some k)))

end Calls

section Updates
variable {crates : Crates} {settings : Settings} {snap : Snapshot} {result : PollResult} {ctx : UpdateContext}
  {s : ServerState} {past : List FaviconUpdate} {update : FaviconUpdate}

theorem faviconOnService_append : faviconOnService crates (past ++ [update]) =
    if update.accepted then faviconHash crates update.dataUrl else faviconOnService crates past := by
  cases accepted : update.accepted with
  | true => simp [faviconOnService, List.filter_append, accepted]
  | false => simp [faviconOnService, List.filter_append, accepted]

theorem NoneRepeated.append (h : NoneRepeated crates past)
    (new : faviconHash crates update.dataUrl ≠ faviconOnService crates past) :
    NoneRepeated crates (past ++ [update]) := by
  intro before update' rest eq
  rcases List.eq_nil_or_concat rest with rfl | ⟨middle, last, rfl⟩
  · obtain ⟨rfl, same⟩ := List.append_inj' eq rfl
    cases same
    exact new
  · rw [List.concat_eq_append, ← List.cons_append, ← List.append_assoc] at eq
    exact h before update' middle (List.append_inj' eq rfl).1

theorem faviconHash_empty : faviconHash crates "" = none := if_pos (.inl rfl)

theorem updateState_favicon : (updateState crates settings snap result ctx s).1.lastFaviconHash =
    match faviconUpdate crates ctx result.favicon s with
    | some update => if update.accepted then faviconHash crates update.dataUrl else s.lastFaviconHash
    | none => s.lastFaviconHash := by
  obtain ⟨e, eq⟩ := updateState_frame crates settings snap result ctx s
  have counted : (recordStatus result.statusOk s).lastFaviconHash = s.lastFaviconHash ∧
      (recordStatus result.statusOk s).serverId = s.serverId := ⟨rfl, rfl⟩
  have probed : (maybeProbeBedrock settings ctx (recordStatus result.statusOk s)).lastFaviconHash = s.lastFaviconHash ∧
      (maybeProbeBedrock settings ctx (recordStatus result.statusOk s)).serverId = s.serverId := by
    unfold maybeProbeBedrock
    split
    · exact counted
    · exact counted
  have recorded : (recordPoll crates settings snap result ctx s).lastFaviconHash =
      (maybeUpdateFavicon crates ctx result.favicon
        (maybeProbeBedrock settings ctx (recordStatus result.statusOk s))).lastFaviconHash := by
    by_cases none : result.favicon = ""
    · simp only [recordPoll, none, if_true, maybeUpdateFavicon, faviconHash_empty]
    · simp only [recordPoll, none, if_false]
  rw [eq]
  change (recordPoll crates settings snap result ctx s).lastFaviconHash = _
  rw [recorded, maybeUpdateFavicon, faviconUpdate, probed.1, probed.2]
  cases hash : faviconHash crates result.favicon with
  | none => exact probed.1
  | some h =>
      cases id : parseI64 s.serverId with
      | none => simp [probed.1]
      | some id =>
          by_cases same : s.lastFaviconHash = some h
          · simp [same, probed.1]
          · cases accepted : ctx.faviconUpdated with
            | true => simp [same, hash]
            | false => simp [same, probed.1]

/-- What is remembered is what the service has, no call gave it that again, and if it has taken all it was given it has
what was seen last. -/
structure FaviconsAgree (crates : Crates) (updates : List FaviconUpdate) (seen : List String)
    (remembered : Option String) : Prop where
  remembered : remembered = faviconOnService crates updates
  noneRepeated : NoneRepeated crates updates
  follows : (∀ update ∈ updates, update.accepted = true) → faviconOnService crates updates = seen.getLast?

theorem FaviconsAgree.start : FaviconsAgree crates [] [] none where
  remembered := rfl
  noneRepeated past update rest eq := by simp at eq
  follows _ := rfl

theorem FaviconsAgree.poll {seen : List String} (h : FaviconsAgree crates past seen s.lastFaviconHash)
    (ctx : UpdateContext) (favicon : String) :
    FaviconsAgree crates (past ++ (faviconUpdate crates ctx favicon s).toList)
      (seen ++ (if (parseI64 s.serverId).isSome then faviconHash crates favicon else none).toList)
      (match faviconUpdate crates ctx favicon s with
      | some update => if update.accepted then faviconHash crates update.dataUrl else s.lastFaviconHash
      | none => s.lastFaviconHash) := by
  cases hash : faviconHash crates favicon with
  | none =>
      have call : faviconUpdate crates ctx favicon s = none := by simp [faviconUpdate, hash]
      rw [call]
      simpa using h
  | some new =>
      cases id : parseI64 s.serverId with
      | none =>
          have call : faviconUpdate crates ctx favicon s = none := by simp [faviconUpdate, id]
          rw [call]
          simpa using h
      | some serverId =>
          by_cases known : s.lastFaviconHash = some new
          · -- the service has it
            have call : faviconUpdate crates ctx favicon s = none := by simp [faviconUpdate, hash, id, known]
            rw [call, Option.toList_none, List.append_nil]
            refine ⟨h.remembered, h.noneRepeated, fun _ => ?_⟩
            simpa [← h.remembered] using known
          · have call : faviconUpdate crates ctx favicon s = some ⟨serverId, favicon, ctx.faviconUpdated⟩ := by
              simp [faviconUpdate, hash, id, known]
            rw [call, Option.toList_some]
            refine ⟨?_, ?_, fun all => ?_⟩
            · rw [faviconOnService_append, ← h.remembered]
            · refine h.noneRepeated.append ?_
              rw [← h.remembered, hash]
              exact Ne.symm known
            · have accepted : ctx.faviconUpdated = true := all ⟨serverId, favicon, ctx.faviconUpdated⟩ (by simp)
              rw [faviconOnService_append]
              simp [accepted, hash]

end Updates

section Steps
variable {crates : Crates} {settings : Settings} {c d : Collector} {a : Action} {k : String} {es : List Action}
  {before : States} {s : ServerState}

theorem rememberedFavicon_insert (found : before.lookup k = some s) {t : ServerState}
    (same : t.lastFaviconHash = s.lastFaviconHash) (key : String) :
    rememberedFavicon key (before.insert k t) = rememberedFavicon key before := by
  by_cases eq : key = k
  · subst eq
    simp only [rememberedFavicon, AList.lookup_insert, found, Option.bind_some, same]
  · simp only [rememberedFavicon, AList.lookup_insert_ne eq]

theorem rememberedFavicon_of_lookup {after : States} (kept : k ∈ before → k ∈ after)
    (each : ∀ t, after.lookup k = some t → t.lastFaviconHash = rememberedFavicon k before) :
    rememberedFavicon k after = rememberedFavicon k before := by
  cases found : after.lookup k with
  | some t => rw [← each t found, rememberedFavicon, found, Option.bind_some]
  | none =>
      have absent : before.lookup k = none :=
        AList.lookup_eq_none.mpr fun there => AList.lookup_eq_none.mp found (kept there)
      rw [rememberedFavicon, rememberedFavicon, found, absent]

/-- Only the end of a poll changes what is remembered of a server that stays in the map. -/
theorem step_rememberedFavicon (hs : step crates settings c a = some d)
    (stays : losesServer crates settings k c a = false) (quiet : c.endsPoll k a = none) :
    rememberedFavicon k d.states = rememberedFavicon k c.states := by
  have kept : k ∈ c.states → k ∈ d.states := by
    intro there
    rw [losesServer, decide_eq_true there, Bool.true_and, Bool.or_eq_false_iff] at stays
    simpa [removes, hs] using stays.1
  cases step_moved hs with
  | refresh =>
      refine rememberedFavicon_of_lookup kept fun t found => ?_
      exact refreshServersOnce_relates (R := fun _ o t => t.lastFaviconHash = o.bind ServerState.lastFaviconHash)
        (fun _ _ _ => rfl) (fun _ _ _ _ same => updateExisting_favicon.trans same) (fun _ => rfl) _ found
  | trigger =>
      refine rememberedFavicon_of_lookup kept fun t found => ?_
      obtain ⟨s, there, rfl | rfl⟩ := lookup_trigger found
      · rw [rememberedFavicon, there, Option.bind_some]
      · rw [rememberedFavicon, there, Option.bind_some]
  | popKnown _ _ _ found | rescheduleInternal _ found =>
      refine rememberedFavicon_insert found ?_ k
      rfl
  | @fetched target now getServer server ctx fetching answer =>
      refine rememberedFavicon_of_lookup kept fun t found => ?_
      rcases AList.lookup_insert_eq_some.mp found with ⟨rfl, rfl⟩ | ⟨_, there⟩
      · have new : k ∉ c.states := by
          intro there
          simp [losesServer, storesOver, ForceLoop.target?, fetching, answer, there] at stays
        rw [rememberedFavicon, AList.lookup_eq_none.mpr new]
        rfl
      · rw [rememberedFavicon, there, Option.bind_some]
  | @finishPoll i key snap s result ctx polling found =>
      have other : k ≠ key := by
        rintro rfl
        simp [Collector.endsPoll, polling, found] at quiet
      simp only [rememberedFavicon, Collector.reschedule, rescheduleState, AList.lookup_insert_ne other]
  | popNothing | popUnknown | fetchedNothing | runTask | nextDue | accept | discard | send | receive | snapshot
  | internalGone | pollGone | trySent | dropped | ingestReceive => rfl

theorem step_endsPoll (hs : step crates settings c a = some d) {result : PollResult} {ctx : UpdateContext}
    (ends : c.endsPoll k a = some (result, ctx, s)) : c.states.lookup k = some s ∧
      ∃ i snap, a = .finishPoll i result ctx ∧ c.workers i = .polling k snap ∧
        d.states.lookup k = some (updateState crates settings snap result ctx s).1 := by
  cases step_moved hs with
  | @finishPoll i key snap s' result' ctx' polling found =>
      simp only [Collector.endsPoll, polling, found] at ends
      split at ends
      · rename_i same
        subst same
        cases ends
        exact ⟨found, i, snap, rfl, polling, AList.lookup_insert _⟩
      · cases ends
  | pollGone polling gone =>
      simp only [Collector.endsPoll, polling, gone] at ends
      split at ends <;> cases ends
  | _ => cases ends

/-- What is remembered, given and seen of a server up to a state of a run. -/
def Collector.Favicons (crates : Crates) (settings : Settings) (k : String) (es : List Action) (c : Collector) : Prop :=
  FaviconsAgree crates (gather (step crates settings) (Collector.faviconUpdates crates k) .start es)
    (gather (step crates settings) (Collector.faviconsSeen crates k) .start es) (rememberedFavicon k c.states)

theorem step_favicons (h : c.Favicons crates settings k es) (run : Run (ofFn (step crates settings)) .start es c)
    (hs : step crates settings c a = some d) (stays : losesServer crates settings k c a = false) :
    d.Favicons crates settings k (es ++ [a]) := by
  rw [Collector.Favicons, gather_append _ run hs, gather_append _ run hs]
  cases ends : c.endsPoll k a with
  | none =>
      have silent : c.faviconUpdates crates k a = [] ∧ c.faviconsSeen crates k a = [] := by
        simp [Collector.faviconUpdates, Collector.faviconsSeen, ends]
      rw [silent.1, silent.2, List.append_nil, List.append_nil, step_rememberedFavicon hs stays ends]
      exact h
  | some poll =>
      obtain ⟨result, ctx, s⟩ := poll
      obtain ⟨found, _, _, _, _, after⟩ := step_endsPoll hs ends
      rw [Collector.Favicons, rememberedFavicon, found, Option.bind_some] at h
      rw [rememberedFavicon, after, Option.bind_some, updateState_favicon, Collector.faviconUpdates,
        Collector.faviconsSeen, ends]
      exact h.poll ctx result.favicon

end Steps

def iconResult : PollResult := { upResult with favicon := "data:image/png;base64,AAAA" }

/-- A server that is listed after another, and two polls of it that bring the same favicon, of which the first one is
taken. -/
def sameIcon : List Action :=
  let others := (catalogItemToValue (sampleItem "2" "other.example.com"), sampleContext)
  let listed := (catalogItemToValue (sampleItem "1" "mc.example.com"), sampleContext)
  [.refresh 0 [others], .runTask 0, .refresh 1 [others, listed], .nextDue 1, .check, .send, .receive 1, .runTask 0,
  .nextDue 1, .check, .send, .receive 0, .snapshot 0,
  .finishPoll 0 iconResult { quietContext 5 with faviconUpdated := true }, .trySend 0, .runTask 0, .nextDue 305, .check,
  .send, .receive 0, .snapshot 0, .finishPoll 0 iconResult (quietContext 310)]

end ServerPoller
