import ServerPoller.Collector
import ServerPoller.TriggerContent
import ServerPoller.Lib.Reachability

/-! `trigger_loop` and its file: others write it at any time, also between the reading of one content and the removal
of the file. What is written, and what the collector is triggered with. -/

namespace ServerPoller
open Json Transition

inductive TriggerPlace where
  | reading
  | removing (content : String)
  | applying (content : String)
  deriving DecidableEq, Repr

def TriggerPlace.content? : TriggerPlace → Option String
  | .reading => none
  | .removing content | .applying content => some content

structure TriggerFile where
  file : Option String
  /-- Whether the file was written after it was read the last time. -/
  unread : Bool
  place : TriggerPlace
  /-- The contents that were applied so far. -/
  applied : List String
  collector : Collector

def TriggerFile.start : TriggerFile := ⟨none, false, .reading, [], .start⟩

inductive TriggerAct where
  /-- Somebody writes the file, or replaces it. -/
  | write (content : String)
  | read
  /-- The file is removed; an error is ignored. -/
  | remove (removed : Bool)
  | apply (now : ℚ)
  /-- The collector goes on. -/
  | collector (a : Action)

def Action.targets? : Action → Option (Option (List String))
  | .trigger targets _ => some targets
  | _ => none

namespace TriggerFile

section Source
variable (crates : Crates) (settings : Settings) (fromStr : String → Option Value)

def step (s : TriggerFile) : TriggerAct → Option TriggerFile
  | .write content => some { s with file := some content, unread := true }
  | .read =>
      match s.place, s.file with
      | .reading, some content => some { s with unread := false, place := .removing content }
      | _, _ => none
  | .remove removed =>
      match s.place with
      | .removing content =>
          if removed then some { s with file := none, unread := false, place := .applying content }
          else some { s with place := .applying content }
      | _ => none
  | .apply now =>
      match s.place with
      | .applying content =>
          (ServerPoller.step crates settings s.collector (.trigger (parseTriggerContent fromStr content) now)).map
            fun collector => { s with place := .reading, applied := s.applied ++ [content], collector }
      | _ => none
  | .collector a =>
      if a.targets?.isSome then none
      else (ServerPoller.step crates settings s.collector a).map fun collector => { s with collector }

end Source

section Moved
variable (crates : Crates) (settings : Settings) (fromStr : String → Option Value) (s : TriggerFile)

inductive Moved : TriggerAct → TriggerFile → Prop
  | write {content} : Moved (.write content) { s with file := some content, unread := true }
  | read {content} : s.place = .reading → s.file = some content →
      Moved .read { s with unread := false, place := .removing content }
  | removed {content} : s.place = .removing content →
      Moved (.remove true) { s with file := none, unread := false, place := .applying content }
  | left {content} : s.place = .removing content → Moved (.remove false) { s with place := .applying content }
  | apply {now content collector} : s.place = .applying content →
      ServerPoller.step crates settings s.collector (.trigger (parseTriggerContent fromStr content) now) = some collector →
      Moved (.apply now) { s with place := .reading, applied := s.applied ++ [content], collector }
  | collector {a collector} : a.targets? = none → ServerPoller.step crates settings s.collector a = some collector →
      Moved (.collector a) { s with collector }

end Moved

variable {crates : Crates} {settings : Settings} {fromStr : String → Option Value} {s t : TriggerFile} {a : TriggerAct}
  {acts : List TriggerAct}

theorem step_moved (h : s.step crates settings fromStr a = some t) : s.Moved crates settings fromStr a t := by
  cases a with
  | write content =>
      cases h
      exact .write
  | read =>
      simp only [step] at h
      split at h
      · rename_i reading there
        cases h
        exact .read reading there
      · cases h
  | remove removed =>
      simp only [step] at h
      split at h
      · rename_i content removing
        cases removed with
        | true =>
            cases h
            exact .removed removing
        | false =>
            cases h
            exact .left removing
      · cases h
  | apply now =>
      simp only [step] at h
      split at h
      · rename_i content applying
        obtain ⟨collector, triggered, rfl⟩ := Option.map_eq_some_iff.mp h
        exact .apply applying triggered
      · cases h
  | collector b =>
      simp only [step] at h
      split at h
      · cases h
      · rename_i other
        obtain ⟨collector, moved, rfl⟩ := Option.map_eq_some_iff.mp h
        exact .collector (Option.not_isSome_iff_eq_none.mp other) moved

def writtenBy (acts : List TriggerAct) : List String :=
  acts.filterMap fun
    | .write content => some content
    | .read | .remove _ | .apply _ | .collector _ => none

theorem writtenBy_append (acts : List TriggerAct) (a : TriggerAct) :
    writtenBy (acts ++ [a]) = writtenBy acts ++ writtenBy [a] := List.filterMap_append

def removes : TriggerAct → Bool
  | .remove removed => removed
  | .write _ | .read | .apply _ | .collector _ => true

/-- What was written last, as long as it has not been read. -/
def waiting (s : TriggerFile) : Option String := if s.unread then s.file else none

/-- An unread content is gone: it is replaced, or it came after the reading of the content for which the file is
removed. -/
def misses (s : TriggerFile) : TriggerAct → Bool
  | .write _ => s.unread
  | .remove removed => removed && s.unread
  | .read | .apply _ | .collector _ => false

def accounted (s : TriggerFile) : List String := s.applied ++ s.place.content?.toList ++ s.waiting.toList

/-- The state of a run in which every removal succeeds; `n` contents were missed. -/
structure Accounts (acts : List TriggerAct) (n : Nat) (s : TriggerFile) : Prop where
  inOrder : s.accounted.Sublist (writtenBy acts)
  missed : (writtenBy acts).length = s.accounted.length + n
  there : s.unread = true → s.file.isSome
  fresh : (∀ content, s.place ≠ .removing content) → s.file.isSome → s.unread = true

theorem start_accounts : start.Accounts [] 0 := ⟨List.Sublist.refl _, rfl, nofun, fun _ none_ => nomatch none_⟩

/-- A step that writes nothing moves one content on, or misses one. -/
theorem Accounts.quiet {n m : Nat} (h : s.Accounts acts n) (silent : writtenBy [a] = [])
    (fewer : t.accounted.Sublist s.accounted) (count : s.accounted.length = t.accounted.length + m)
    (there : t.unread = true → t.file.isSome)
    (fresh : (∀ content, t.place ≠ .removing content) → t.file.isSome → t.unread = true) :
    t.Accounts (acts ++ [a]) (n + m) := by
  have written : writtenBy (acts ++ [a]) = writtenBy acts := by rw [writtenBy_append, silent, List.append_nil]
  have missed := h.missed
  refine ⟨written ▸ fewer.trans h.inOrder, ?_, there, fresh⟩
  rw [written]
  omega

theorem Accounts.step {n : Nat} (h : s.Accounts acts n) (removes_ : removes a = true)
    (moved : s.Moved crates settings fromStr a t) :
    t.Accounts (acts ++ [a]) (n + if s.misses a then 1 else 0) := by
  have missed := h.missed
  cases moved with
  | @write content =>
      have one : writtenBy [.write content] = [content] := rfl
      have now_ : ({ s with file := some content, unread := true } : TriggerFile).accounted =
          s.applied ++ s.place.content?.toList ++ [content] := rfl
      have before : (s.applied ++ s.place.content?.toList).Sublist (writtenBy acts) :=
        (List.sublist_append_left _ _).trans h.inOrder
      refine ⟨?_, ?_, fun _ => rfl, fun _ _ => rfl⟩
      · rw [writtenBy_append, one, now_]
        exact before.append (List.Sublist.refl _)
      · rw [writtenBy_append, one, now_, List.length_append, List.length_append, missed, accounted, waiting]
        cases unread : s.unread with
        | false =>
            simp only [misses, unread, Bool.false_eq_true, if_false, Option.toList_none, List.append_nil,
              List.length_append, List.length_singleton]
            omega
        | true =>
            obtain ⟨old, file⟩ := Option.isSome_iff_exists.mp (h.there unread)
            simp only [misses, unread, file, if_true, Option.toList_some, List.length_append, List.length_singleton]
            omega
  | @read content reading file =>
      have unread := h.fresh (fun _ removing => nomatch reading.symm.trans removing) (file ▸ rfl)
      have same : ({ s with unread := false, place := .removing content } : TriggerFile).accounted = s.accounted := by
        simp [accounted, waiting, TriggerPlace.content?, reading, unread, file]
      exact h.quiet (m := 0) rfl (same ▸ List.Sublist.refl _) (congrArg List.length same.symm) nofun
        fun other => absurd rfl (other content)
  | @removed content removing =>
      have now_ : ({ s with file := none, unread := false, place := .applying content } : TriggerFile).accounted =
          s.applied ++ s.place.content?.toList := by
        simp [accounted, waiting, TriggerPlace.content?, removing]
      refine h.quiet rfl (now_ ▸ List.sublist_append_left _ _) ?_ nofun fun _ none_ => nomatch none_
      rw [now_, accounted, waiting]
      cases unread : s.unread with
      | false => simp [misses, unread]
      | true =>
          obtain ⟨old, file⟩ := Option.isSome_iff_exists.mp (h.there unread)
          simp [misses, unread, file]
          omega
  | left => cases removes_
  | @apply now content collector applying triggered =>
      have same : ({ s with place := .reading, applied := s.applied ++ [content], collector } : TriggerFile).accounted =
          s.accounted := by
        simp [accounted, waiting, TriggerPlace.content?, applying]
      refine h.quiet (m := 0) rfl (same ▸ List.Sublist.refl _) (congrArg List.length same.symm) h.there fun _ => ?_
      exact h.fresh fun _ removing => nomatch applying.symm.trans removing
  | collector => exact h.quiet (m := 0) rfl (List.Sublist.refl _) rfl h.there h.fresh

theorem Accounts.run {n : Nat} {past : List TriggerAct} (h : s.Accounts past n)
    (run : Run (Only (ofFn (TriggerFile.step crates settings fromStr)) fun _ a => removes a = true) s acts t) :
    t.Accounts (past ++ acts) (n + tally (TriggerFile.step crates settings fromStr) misses s acts) := by
  induction run generalizing past n with
  | nil s => rwa [List.append_nil]
  | @cons s u t a acts first rest ih =>
      have tail := ih (h.step first.2 (step_moved first.1))
      rw [List.append_assoc, List.singleton_append, Nat.add_assoc, ← tally_cons first.1] at tail
      exact tail

/-- The collector of a run takes steps of its own, and is triggered with what is applied. -/
theorem run_collector (run : Run (ofFn (TriggerFile.step crates settings fromStr)) start acts t) :
    ∃ collected, Run (ofFn (ServerPoller.step crates settings)) .start collected t.collector ∧
      collected.filterMap Action.targets? = t.applied.map (parseTriggerContent fromStr) := by
  refine run.keeps (P := fun s => ∃ collected, Run (ofFn (ServerPoller.step crates settings)) .start collected s.collector ∧
      collected.filterMap Action.targets? = s.applied.map (parseTriggerContent fromStr)) ?_ ⟨[], .nil _, rfl⟩
  rintro s a t ⟨collected, before, triggered⟩ moved
  cases step_moved moved with
  | write | read | removed | left => exact ⟨collected, before, triggered⟩
  | apply _ taken =>
      refine ⟨_, before.append (.single taken), ?_⟩
      rw [List.filterMap_append, triggered, List.map_append]
      rfl
  | @collector b _ other taken =>
      refine ⟨_, before.append (.single taken), ?_⟩
      have none_ : [b].filterMap Action.targets? = [] := by rw [List.filterMap_cons, other, List.filterMap_nil]
      rw [List.filterMap_append, triggered, none_, List.append_nil]

end TriggerFile

/-- Where every removal succeeds, what is applied, being applied or waiting is what others have written, in their order
and each content at most once, and the only contents left out are those that were replaced before they were read and
those that came between the reading of another one and the removal of the file. The collector is triggered with what is
applied and nothing else. -/
theorem trigger_contents_applied_once {crates : Crates} {settings : Settings} {fromStr : String → Option Value}
    {acts : List TriggerAct} {t : TriggerFile}
    (run : Run (Only (ofFn (TriggerFile.step crates settings fromStr)) fun _ a => TriggerFile.removes a = true) .start
      acts t) :
    t.accounted.Sublist (TriggerFile.writtenBy acts) ∧
      (TriggerFile.writtenBy acts).length =
        t.accounted.length + tally (TriggerFile.step crates settings fromStr) TriggerFile.misses .start acts ∧
          ∃ collected, Run (ofFn (step crates settings)) .start collected t.collector ∧
            collected.filterMap Action.targets? = t.applied.map (parseTriggerContent fromStr) := by
  have accounts := TriggerFile.start_accounts.run run
  rw [List.nil_append, Nat.zero_add] at accounts
  exact ⟨accounts.inOrder, accounts.missed, TriggerFile.run_collector run.unrestricted⟩

/-- Of four contents the first one is replaced in time and the third one comes too early. -/
def fourTriggers : List TriggerAct := [
  .write "1", .write "2", .read, .write "3", .remove true, .apply 5, .write "all", .read, .remove true, .apply 7]

theorem trigger_contents_applied_once_four :
    ∃ t, Run (Only (ofFn (TriggerFile.step plainCrates (defaultSettings false) fun _ => none))
        fun _ a => TriggerFile.removes a = true) .start fourTriggers t ∧
      t.applied = ["2", "all"] ∧ t.accounted.Sublist ["1", "2", "3", "all"] := by
  have scenario : (fourTriggers.foldlM (restrict (TriggerFile.step plainCrates (defaultSettings false) fun _ => none)
      fun _ a => TriggerFile.removes a = true) .start).any (fun t => decide (t.applied = ["2", "all"])) = true := by
    decide +kernel
  obtain ⟨t, reached, applied⟩ := (Option.any_eq_true _ _).mp scenario
  have run := run_restrict_iff.mpr reached
  exact ⟨t, run, of_decide_eq_true applied, (trigger_contents_applied_once run).1⟩

end ServerPoller
