import ServerPoller.ChangeDetection
import ServerPoller.Lib.Pieces
import Mathlib.Data.List.Nodup

/-! When `build_change_payload` sees another list of players. It compares a digest of the names joined with
line breaks, so that what it sees is the sequence of the lines of the names. -/

namespace ServerPoller
open Json RustText Pieces

def Mentions (payload : Value) (raw : String) : Prop :=
  ∃ items, ((extraOf payload).get "players").bind Value.asArray = some items ∧ Value.string raw ∈ items

/-- The players of a poll: their names are trimmed, and empty ones dropped. -/
def Reports (payload : Value) (name : String) : Prop :=
  name ≠ "" ∧ ∃ raw, Mentions payload raw ∧ trim raw = name

def SamePlayers (p q : Value) : Prop := ∀ name, Reports p name ↔ Reports q name

/-- The same names with a line break inside, if there are any. -/
def SameBrokenNames (p q : Value) : Prop := ∀ name, '\n' ∈ name.toList → (Reports p name ↔ Reports q name)

/-- The lines of the names, in the order in which the names come. -/
def nameLines (payload : Value) : List (List Char) :=
  (extractPlayers (extraOf payload)).flatMap fun name => name.toList.splitOn '\n'

theorem mem_collectPlayer {result : List String} {item : Value} {name : String} :
    name ∈ collectPlayer result item ↔
      name ∈ result ∨ (name ≠ "" ∧ ∃ raw, item = .string raw ∧ trim raw = name) := by
  unfold collectPlayer
  split
  · rename_i raw
    have here : (∃ raw', Value.string raw = .string raw' ∧ trim raw' = name) ↔ trim raw = name := by
      simp
    rw [here]
    split
    · rename_i fresh
      rw [List.mem_append, List.mem_singleton]
      constructor
      · rintro (old | rfl)
        · exact .inl old
        · exact .inr ⟨fresh.1, rfl⟩
      · rintro (old | ⟨_, rfl⟩)
        · exact .inl old
        · exact .inr rfl
    · rename_i stale
      rw [not_and_or, not_not, not_not] at stale
      refine ⟨.inl, ?_⟩
      rintro (old | ⟨full, rfl⟩)
      · exact old
      · exact stale.resolve_left full
  · rename_i other
    refine ⟨.inl, ?_⟩
    rintro (old | ⟨_, raw, rfl, _⟩)
    · exact old
    · exact absurd rfl (other raw)

theorem mem_foldl_collectPlayer {items : List Value} {done : List String} {name : String} :
    name ∈ items.foldl collectPlayer done ↔
      name ∈ done ∨ (name ≠ "" ∧ ∃ raw, Value.string raw ∈ items ∧ trim raw = name) := by
  induction items generalizing done with
  | nil => simp
  | cons item items ih =>
      rw [List.foldl_cons, ih, mem_collectPlayer]
      constructor
      · rintro ((old | ⟨full, raw, rfl, eq⟩) | ⟨full, raw, member, eq⟩)
        · exact .inl old
        · exact .inr ⟨full, raw, List.mem_cons_self, eq⟩
        · exact .inr ⟨full, raw, List.mem_cons_of_mem _ member, eq⟩
      · rintro (old | ⟨full, raw, member, eq⟩)
        · exact .inl (.inl old)
        · rcases List.mem_cons.mp member with rfl | later
          · exact .inl (.inr ⟨full, raw, rfl, eq⟩)
          · exact .inr ⟨full, raw, later, eq⟩

theorem mem_extractPlayers_iff {payload : Value} {name : String} :
    name ∈ extractPlayers (extraOf payload) ↔ Reports payload name := by
  unfold extractPlayers Reports Mentions
  cases listed : ((extraOf payload).get "players").bind Value.asArray with
  | none => simp
  | some items => simp [mem_foldl_collectPlayer]

theorem samePlayers_iff {p q : Value} :
    SamePlayers p q ↔ ∀ name, name ∈ extractPlayers (extraOf p) ↔ name ∈ extractPlayers (extraOf q) := by
  simp only [SamePlayers, mem_extractPlayers_iff]

theorem playersHash_eq_iff {crates : Crates} (collisionFree : Function.Injective crates.sha256) {l m : List String} :
    playersHash crates l = playersHash crates m ↔
      (l.flatMap fun name => name.toList.splitOn '\n') = m.flatMap fun name => name.toList.splitOn '\n' := by
  have pieces : ∀ names : List String, (names.flatMap fun name => name.toList.splitOn '\n') =
      (names.map String.toList).flatMap fun part => part.splitOn '\n' := by
    intro names
    rw [List.flatMap_map]
  have full : ∀ {name : String} {names : List String}, (name :: names).map String.toList ≠ [] := nofun
  rw [pieces, pieces]
  cases l with
  | nil =>
      cases m with
      | nil => exact ⟨fun _ => rfl, fun _ => rfl⟩
      | cons name names => exact ⟨nofun, fun none => absurd none.symm (pieces_ne_nil full)⟩
  | cons first rest =>
      cases m with
      | nil => exact ⟨nofun, fun none => absurd none (pieces_ne_nil full)⟩
      | cons name names =>
          rw [playersHash, playersHash, if_neg nofun, if_neg nofun, Option.some.injEq, collisionFree.eq_iff,
            ← String.toList_inj, String.toList_intercalate, String.toList_intercalate]
          exact joined_eq_iff full full

structure Emitted.Knows (e : Emitted) (cur : Observation) : Prop where
  emitted : e.hasEmittedState = true
  up : e.lastEmittedUp = some cur.up
  online : e.lastEmittedOnline = cur.online
  unchanged : changedMeta e cur = false
  players : e.lastEmittedPlayersHash = cur.playersHash

theorem changedMeta_eq_false_iff {e : Emitted} {cur : Observation} :
    changedMeta e cur = false ↔ e.lastEmittedMaxPlayers = cur.maxPlayers ∧
      e.lastEmittedVersion.getD "" = cur.version ∧ e.lastEmittedMotd.getD "" = cur.motd ∧
      e.lastEmittedCountry.getD "" = cur.country ∧ e.lastEmittedCountryCode.getD "" = cur.countryCode := by
  simp only [changedMeta, Bool.or_eq_false_iff, bne_eq_false_iff_eq, and_assoc]

theorem knows_emitted (cur : Observation) (now : ℚ) : (cur.emitted now).Knows cur :=
  ⟨rfl, rfl, rfl, changedMeta_eq_false_iff.mpr ⟨rfl, rfl, rfl, rfl, rfl⟩, rfl⟩

theorem Emitted.Knows.unique {e : Emitted} {cur cur' : Observation} (h : e.Knows cur) (k : e.Knows cur') :
    cur = cur' := by
  obtain ⟨max, version, motd, country, code⟩ := changedMeta_eq_false_iff.mp h.unchanged
  obtain ⟨max', version', motd', country', code'⟩ := changedMeta_eq_false_iff.mp k.unchanged
  have up : cur.up = cur'.up := Option.some.inj (h.up.symm.trans k.up)
  cases cur
  cases cur'
  simp only [Observation.mk.injEq]
  exact ⟨up, h.online.symm.trans k.online, max.symm.trans max', version.symm.trans version',
    motd.symm.trans motd', country.symm.trans country', code.symm.trans code', h.players.symm.trans k.players⟩

theorem eventType_of_knows {e : Emitted} {cur : Observation} (known : e.Knows cur) (now heartbeatInterval : ℚ) :
    eventType e cur now heartbeatInterval =
      if heartbeatDue e now heartbeatInterval then some .heartbeat else none := by
  have emitted : ¬e.hasEmittedState = false := by simp [known.emitted]
  have same : ¬(changedMeta e cur = true ∨ e.lastEmittedPlayersHash ≠ cur.playersHash) := by
    simp [known.unchanged, known.players]
  rw [eventType, if_neg emitted, if_neg (not_not.mpr known.up), if_neg (not_not.mpr known.online), if_neg same]

/-- When nothing but a heartbeat is due, nothing has changed. -/
theorem knows_of_quiet {e : Emitted} {cur : Observation} (now heartbeatInterval : ℚ)
    (quiet : ∀ event, eventType e cur now heartbeatInterval = some event → event = .heartbeat) : e.Knows cur := by
  unfold eventType at quiet
  by_cases emitted : e.hasEmittedState = false
  · rw [if_pos emitted] at quiet
    cases quiet _ rfl
  · rw [if_neg emitted] at quiet
    by_cases turned : e.lastEmittedUp ≠ some cur.up
    · rw [if_pos turned] at quiet
      have event := quiet _ rfl
      cases up : cur.up <;> rw [up] at event <;> cases event
    · rw [if_neg turned] at quiet
      by_cases online : e.lastEmittedOnline ≠ cur.online
      · rw [if_pos online] at quiet
        cases quiet _ rfl
      · rw [if_neg online] at quiet
        by_cases changed : changedMeta e cur = true ∨ e.lastEmittedPlayersHash ≠ cur.playersHash
        · rw [if_pos changed] at quiet
          cases quiet _ rfl
        · rw [not_or, not_not, Bool.not_eq_true] at changed
          exact ⟨Bool.eq_true_of_not_eq_false emitted, not_not.mp turned, not_not.mp online, changed.1, changed.2⟩

structure UpCall where
  payload : Value
  now : ℚ
  heartbeatInterval : ℚ

section Calls
variable (crates : Crates) (state : ServerState)

def UpCall.run (call : UpCall) (state : ServerState) : ServerState × Option Value :=
  buildChangePayload crates state call.payload true call.now call.heartbeatInterval

def secondOutput (first second : UpCall) : Option Value := (second.run crates (first.run crates state).1).2

/-- Nothing, or an event that only says that the server is still there. -/
def Quiet (out : Option Value) : Prop := ∀ v, out = some v → strField v "event_type" = some "heartbeat"

/-- The values of a successful poll, which do not depend on what was emitted. -/
def measured (payload : Value) : Observation := currentValues crates nothingEmitted payload true

/-- The compared fields other than the players are the same. -/
structure SameOtherFields (p q : Value) : Prop where
  online : intField p "online" = intField q "online"
  maxPlayers : intField p "max_players" = intField q "max_players"
  version : trimmedField p "version" = trimmedField q "version"
  motd : trimmedField p "motd" = trimmedField q "motd"
  country : trimmedField p "country" = trimmedField q "country"
  countryCode : trimmedField p "country_code" = trimmedField q "country_code"

variable {crates state}

theorem measured_eq_iff {p q : Value} : measured crates p = measured crates q ↔ SameOtherFields p q ∧
    playersHash crates (extractPlayers (extraOf p)) = playersHash crates (extractPlayers (extraOf q)) := by
  simp only [measured, currentValues, if_true, Observation.mk.injEq, true_and]
  constructor
  · rintro ⟨online, max, version, motd, country, code, players⟩
    exact ⟨⟨online, max, version, motd, country, code⟩, players⟩
  · rintro ⟨⟨online, max, version, motd, country, code⟩, players⟩
    exact ⟨online, max, version, motd, country, code, players⟩

theorem UpCall.run_knows (call : UpCall) :
    (call.run crates state).1.toEmitted.Knows (measured crates call.payload) := by
  rcases buildChangePayload_cases crates state call.payload true call.now call.heartbeatInterval with
    ⟨quiet, eq⟩ | ⟨out, eq, _⟩
  · rw [UpCall.run, eq]
    refine knows_of_quiet call.now call.heartbeatInterval fun event due => ?_
    exact absurd (quiet.symm.trans due) (Option.some_ne_none event).symm
  · rw [UpCall.run, eq]
    exact knows_emitted _ _

theorem UpCall.run_output (call : UpCall) : (call.run crates state).2 =
    (eventType state.toEmitted (measured crates call.payload) call.now call.heartbeatInterval).map fun event =>
      outPayload state call.payload (measured crates call.payload) (extractPlayers (extraOf call.payload)) event := by
  have same : currentValues crates state.toEmitted call.payload true = measured crates call.payload := rfl
  rw [UpCall.run, buildChangePayload_output, same]
  rfl

theorem asStr_eq_heartbeat {event : EventType} : event.asStr = "heartbeat" ↔ event = .heartbeat := by
  cases event <;> decide

theorem UpCall.run_quiet_iff (call : UpCall) :
    Quiet (call.run crates state).2 ↔ state.toEmitted.Knows (measured crates call.payload) := by
  rw [call.run_output]
  constructor
  · intro quiet
    refine knows_of_quiet call.now call.heartbeatInterval fun event due => ?_
    have text := quiet _ (by rw [due]; rfl)
    rw [outPayload_event_type, Option.some.injEq] at text
    exact asStr_eq_heartbeat.mp text
  · intro known v out
    rw [eventType_of_knows known] at out
    obtain ⟨event, due, rfl⟩ := Option.map_eq_some_iff.mp out
    rw [outPayload_event_type]
    split at due
    · cases due
      rfl
    · cases due

theorem secondOutput_eq_none_iff (first : UpCall) {second : UpCall} (disabled : second.heartbeatInterval ≤ 0) :
    secondOutput crates state first second = none ↔ measured crates first.payload = measured crates second.payload := by
  have known : (first.run crates state).1.toEmitted.Knows (measured crates first.payload) := first.run_knows
  constructor
  · intro nothing
    refine known.unique (second.run_quiet_iff.mp fun v out => ?_)
    exact absurd (out.symm.trans nothing) (Option.some_ne_none v)
  · intro same
    rw [same] at known
    have early : heartbeatDue (first.run crates state).1.toEmitted second.now second.heartbeatInterval = false :=
      decide_eq_false fun due => absurd due.1 (not_lt.mpr disabled)
    rw [secondOutput, second.run_output, eventType_of_knows known, early]
    rfl

theorem secondOutput_quiet_iff (collisionFree : Function.Injective crates.sha256) (first second : UpCall) :
    Quiet (secondOutput crates state first second) ↔
      SameOtherFields first.payload second.payload ∧ nameLines first.payload = nameLines second.payload := by
  rw [secondOutput, second.run_quiet_iff, nameLines, nameLines, ← playersHash_eq_iff collisionFree, ← measured_eq_iff]
  have known : (first.run crates state).1.toEmitted.Knows (measured crates first.payload) := first.run_knows
  constructor
  · exact known.unique
  · intro same
    rwa [← same]

def rosterPoll (names : List String) : Value :=
  .ofFields [("online", .ofI64 2), ("extra", .ofFields [("players", .array (names.map .string))])]

theorem extractPlayers_rosterPoll (names : List String) (clean : CleanNames names) :
    extractPlayers (extraOf (rosterPoll names)) = names := by
  refine extractPlayers_of_clean clean ?_
  simp [rosterPoll, extraOf, Value.get_ofFields]

theorem sameOtherFields_rosterPoll (names names' : List String) :
    SameOtherFields (rosterPoll names) (rosterPoll names') := by
  constructor <;> simp [rosterPoll, intField, trimmedField, strField, Value.get_ofFields, List.lookup_cons]

theorem mentions_rosterPoll (names : List String) (raw : String) : Mentions (rosterPoll names) raw ↔ raw ∈ names := by
  simp [Mentions, rosterPoll, extraOf, Value.get_ofFields, Value.asArray]

/-- Equal lines leave open only which of them stand together in a name. -/
theorem samePlayers_of_lines {p q : Value} (lines : nameLines p = nameLines q) (broken : SameBrokenNames p q) :
    SamePlayers p q := by
  have nodup : ∀ payload, ((extractPlayers (extraOf payload)).map String.toList).Nodup := fun payload =>
    List.Nodup.map (fun _ _ => String.toList_inj.mp) (extractPlayers_clean (extraOf payload)).nodup
  have listed : ∀ payload name, name.toList ∈ (extractPlayers (extraOf payload)).map String.toList ↔
      Reports payload name := by
    intro payload name
    rw [List.mem_map_of_injective (fun _ _ => String.toList_inj.mp), mem_extractPlayers_iff]
  have parts : ∀ part, part ∈ (extractPlayers (extraOf p)).map String.toList ↔
      part ∈ (extractPlayers (extraOf q)).map String.toList := by
    refine mem_iff_of_pieces '\n' (nodup p) (nodup q) ?_ fun part separated => ?_
    · rwa [List.flatMap_map, List.flatMap_map]
    · obtain ⟨name, rfl⟩ : ∃ name : String, name.toList = part := ⟨String.ofList part, String.toList_ofList⟩
      rw [listed, listed]
      exact broken name separated
  intro name
  rw [← listed, parts, listed]

/-- A quiet second call means the same players exactly when another field or the lines of the names differ, or
the names with a line break inside are the same; in particular when there are none. -/
theorem quiet_same_players_iff (collisionFree : Function.Injective crates.sha256) (first second : UpCall) :
    ((Quiet (secondOutput crates state first second) → SamePlayers first.payload second.payload) ↔
      ¬SameOtherFields first.payload second.payload ∨ nameLines first.payload ≠ nameLines second.payload ∨
        SameBrokenNames first.payload second.payload) ∧
    ((∀ payload ∈ [first.payload, second.payload], ∀ name, Reports payload name → '\n' ∉ name.toList) →
      Quiet (secondOutput crates state first second) → SamePlayers first.payload second.payload) := by
  rw [secondOutput_quiet_iff collisionFree]
  constructor
  · constructor
    · intro same
      by_cases fields : SameOtherFields first.payload second.payload
      · by_cases lines : nameLines first.payload = nameLines second.payload
        · exact .inr (.inr fun name _ => same ⟨fields, lines⟩ name)
        · exact .inr (.inl lines)
      · exact .inl fields
    · rintro (other | other | broken) ⟨fields, lines⟩
      · exact absurd fields other
      · exact absurd lines other
      · exact samePlayers_of_lines lines broken
  · rintro plain ⟨_, lines⟩
    refine samePlayers_of_lines lines fun name separated => ?_
    have unreported : ∀ payload ∈ [first.payload, second.payload], ¬Reports payload name :=
      fun payload member reported => plain payload member name reported separated
    exact iff_of_false (unreported _ (by simp)) (unreported _ (by simp))

/-- A player whose name has two lines goes and two players come. -/
theorem split_name_unreported :
    ∃ p q, ¬SamePlayers p q ∧ ∀ crates, secondOutput crates sampleState ⟨p, 1000, 0⟩ ⟨q, 1300, 0⟩ = none := by
  have before := extractPlayers_rosterPoll ["Alice\nBob"] ⟨by decide, by decide, by decide⟩
  have after := extractPlayers_rosterPoll ["Alice", "Bob"] ⟨by decide, by decide, by decide⟩
  refine ⟨rosterPoll ["Alice\nBob"], rosterPoll ["Alice", "Bob"], fun same => ?_, fun crates => ?_⟩
  · have there := (samePlayers_iff.mp same "Alice").mpr (by rw [after]; decide)
    rw [before] at there
    exact absurd there (by decide)
  · refine (secondOutput_eq_none_iff _ le_rfl).mpr (measured_eq_iff.mpr ⟨sameOtherFields_rosterPoll _ _, ?_⟩)
    rw [before, after]
    rfl

/-- Another player is reported, though the poll before has a name with a line break inside. -/
theorem quiet_same_players_otherPlayer :
    ¬Quiet (secondOutput plainCrates sampleState ⟨rosterPoll ["Alice\nBob"], 1000, 0⟩
      ⟨rosterPoll ["Alice", "Carol"], 1300, 0⟩) := by
  have before := extractPlayers_rosterPoll ["Alice\nBob"] ⟨by decide, by decide, by decide⟩
  have after := extractPlayers_rosterPoll ["Alice", "Carol"] ⟨by decide, by decide, by decide⟩
  have lines : nameLines (rosterPoll ["Alice\nBob"]) ≠ nameLines (rosterPoll ["Alice", "Carol"]) := by
    rw [nameLines, nameLines, before, after]
    decide
  intro quiet
  have same : SamePlayers (rosterPoll ["Alice\nBob"]) (rosterPoll ["Alice", "Carol"]) :=
    (quiet_same_players_iff Function.injective_id ⟨rosterPoll ["Alice\nBob"], 1000, 0⟩
      ⟨rosterPoll ["Alice", "Carol"], 1300, 0⟩).1.mpr (.inr (.inl lines)) quiet
  have there := (samePlayers_iff.mp same "Alice\nBob").mp (by rw [before]; decide)
  rw [after] at there
  exact absurd there (by decide)

/-- The second poll differs from the first at most in how often and in which order it gives the players. -/
structure Reordered (p q : Value) : Prop where
  fields : ∀ key, key ≠ "extra" → q.get key = p.get key
  extra : ∀ key, key ≠ "players" → (extraOf q).get key = (extraOf p).get key
  players : ∀ raw, Mentions p raw ↔ Mentions q raw

theorem Reordered.sameOtherFields {p q : Value} (h : Reordered p q) : SameOtherFields p q := by
  have texts : ∀ field, field ≠ "extra" → trimmedField p field = trimmedField q field := by
    intro field other
    rw [trimmedField, trimmedField, strField, strField, h.fields field other]
  have numbers : ∀ field, field ≠ "extra" → intField p field = intField q field := by
    intro field other
    rw [intField, intField, h.fields field other]
  exact ⟨numbers _ (by decide), numbers _ (by decide), texts _ (by decide), texts _ (by decide),
    texts _ (by decide), texts _ (by decide)⟩

/-- Reordered players go unreported exactly when their names keep the sequence of their lines. -/
theorem reordering_silent_iff (collisionFree : Function.Injective crates.sha256) (first second : UpCall)
    (reordered : Reordered first.payload second.payload) (disabled : second.heartbeatInterval ≤ 0) :
    secondOutput crates state first second = none ↔ nameLines first.payload = nameLines second.payload := by
  rw [secondOutput_eq_none_iff first disabled, measured_eq_iff, playersHash_eq_iff collisionFree, nameLines, nameLines]
  exact and_iff_right reordered.sameOtherFields

theorem reordered_rosterPoll {names names' : List String} (same : ∀ raw, raw ∈ names ↔ raw ∈ names') :
    Reordered (rosterPoll names) (rosterPoll names') where
  fields := by
    intro key other
    simp [rosterPoll, Value.get_ofFields, List.lookup_cons, beq_eq_false_iff_ne.mpr other]
  extra := by
    intro key other
    simp [rosterPoll, extraOf, Value.get_ofFields, List.lookup_cons, beq_eq_false_iff_ne.mpr other]
  players := by
    intro raw
    rw [mentions_rosterPoll, mentions_rosterPoll, same]

/-- The same two players in the other order are reported, unless their digests collide. -/
theorem reordering_reported :
    ∃ p q, Reordered p q ∧ ∀ crates : Crates, crates.sha256 "Alice\nBob" ≠ crates.sha256 "Bob\nAlice" →
      secondOutput crates sampleState ⟨p, 1000, 0⟩ ⟨q, 1300, 0⟩ ≠ none := by
  have before := extractPlayers_rosterPoll ["Alice", "Bob"] ⟨by decide, by decide, by decide⟩
  have after := extractPlayers_rosterPoll ["Bob", "Alice"] ⟨by decide, by decide, by decide⟩
  refine ⟨rosterPoll ["Alice", "Bob"], rosterPoll ["Bob", "Alice"], ?_, fun crates apart nothing => apart ?_⟩
  · exact reordered_rosterPoll (by simp [or_comm])
  · have same := (measured_eq_iff.mp ((secondOutput_eq_none_iff _ le_rfl).mp nothing)).2
    rw [before, after] at same
    exact Option.some.inj same

/-- The same two players, one of them given again at the end, go unreported. -/
theorem reordering_silent_repeated :
    secondOutput plainCrates sampleState ⟨rosterPoll ["Alice", "Bob"], 1000, 0⟩
      ⟨rosterPoll ["Alice", "Bob", "Alice"], 1300, 0⟩ = none := by
  refine (reordering_silent_iff Function.injective_id _ _ (reordered_rosterPoll (by simp; tauto)) le_rfl).mpr ?_
  have before : extractPlayers (extraOf (rosterPoll ["Alice", "Bob"])) = ["Alice", "Bob"] := by decide
  have after : extractPlayers (extraOf (rosterPoll ["Alice", "Bob", "Alice"])) = ["Alice", "Bob"] := by decide
  show nameLines (rosterPoll ["Alice", "Bob"]) = nameLines (rosterPoll ["Alice", "Bob", "Alice"])
  rw [nameLines, nameLines, before, after]

end Calls

end ServerPoller
