import ServerPoller.WalOrder
import ServerPoller.Lib.KeyedSum
import Mathlib.Algebra.Order.Group.Multiset
import Mathlib.Data.List.Flatten

/-! The buffer as lists of records instead of bytes. The moves make the same of a journal and of
the segment files that encode it. -/

namespace ServerPoller
open DirectoryIo Transition

/-- The records written to each segment, whether the reader takes them or not. -/
structure Journal (V : Type) where
  current : Option String
  segments : AList (fun _ : String => List V)
  readings : Nat
  evicted : Nat

section Moves
variable {V : Type} (c : Codec V) (env : Surroundings)

def Journal.store (j : Journal V) : Store where
  current := j.current
  files := j.segments.mapVals fun _ => encodeAll c
  readings := j.readings
  evicted := j.evicted

def Journal.oldest (j : Journal V) : Option String := oldestCompleted (segmentNames j.segments.keys) j.current

def Journal.removed (j : Journal V) (name : String) : Journal V := { j with segments := j.segments.erase name }

def Journal.rotated (j : Journal V) : Journal V :=
  let name := segmentName (env.clock j.readings)
  { j with
    current := some name
    segments := if name ∈ j.segments then j.segments else j.segments.insert name []
    readings := j.readings + 1 }

def Journal.appended (j : Journal V) (name : String) (v : V) : Journal V :=
  { j with segments := j.segments.modify name (· ++ [v]) }

def Journal.move (j : Journal V) : Move V → Option (Journal V)
  | .evict => j.oldest.map fun name => { j.removed name with evicted := j.evicted + 1 }
  | .drop => j.oldest.map j.removed
  | .rotate => some (j.rotated env)
  | .append v => j.current.map fun name => j.appended name v

variable {c env} {j k : Journal V}

theorem Journal.store_oldest : (j.store c).oldest = j.oldest := by
  simp only [Store.oldest, Store.segments, store, oldest, AList.keys_mapVals]

theorem Journal.store_removed (name : String) : (j.removed name).store c = (j.store c).removed name := by
  simp only [store, removed, Store.removed, AList.mapVals_erase]

theorem Journal.store_rotated : (j.rotated env).store c = (j.store c).rotated env := by
  by_cases there : segmentName (env.clock j.readings) ∈ j.segments
  · simp only [store, rotated, Store.rotated, AList.mem_mapVals, there, if_true]
  · simp only [store, rotated, Store.rotated, AList.mem_mapVals, there, if_false, AList.mapVals_insert,
      encodeAll_nil]

theorem Journal.store_appended (name : String) (v : V) :
    (j.appended name v).store c = (j.store c).appended c name v := by
  have grown : (j.segments.modify name (· ++ [v])).mapVals (fun _ => encodeAll c) =
      (j.segments.mapVals fun _ => encodeAll c).modify name (· ++ recordBytes c v) := by
    apply AList.mapVals_modify
    intro vs
    rw [encodeAll_append, encodeAll_singleton]
  simp only [store, appended, Store.appended, grown]

theorem Journal.store_move (c : Codec V) (env : Surroundings) (j : Journal V) (m : Move V) :
    (j.store c).move c env m = (j.move env m).map (Journal.store c) := by
  cases m with
  | evict =>
      rw [Store.move, store_oldest, move, Option.map_map]
      congr 1
      funext name
      simp only [Function.comp, ← store_removed]
      rfl
  | drop =>
      rw [Store.move, store_oldest, move, Option.map_map]
      congr 1
      funext name
      exact (store_removed name).symm
  | rotate => exact congrArg some store_rotated.symm
  | append v =>
      rw [Store.move, move, Option.map_map]
      congr 1
      funext name
      exact (store_appended name v).symm

/-- What moves make of the files that encode a journal encodes what they make of the journal. -/
theorem moves_journal {t : Store} {ms : List (Move V)} (run : Moves c env (j.store c) ms t) :
    ∃ k, Run (ofFn (Journal.move env)) j ms k ∧ t = k.store c := by
  induction ms generalizing j with
  | nil =>
      cases run
      exact ⟨j, .nil j, rfl⟩
  | cons m ms ih =>
      cases run with
      | cons first rest =>
          have step := (Journal.store_move c env j m).symm.trans first
          obtain ⟨j₁, moved, rfl⟩ := Option.map_eq_some_iff.mp step
          obtain ⟨k, run, eq⟩ := ih rest
          exact ⟨k, .cons moved run, eq⟩

end Moves

section All
variable {V : Type} {c : Codec V} {env : Surroundings} {j k : Journal V}

def Journal.all (j : Journal V) : Multiset V := j.segments.sum fun _ (vs : List V) => (vs : Multiset V)

theorem Journal.all_removed {name : String} {vs : List V} (found : j.segments.lookup name = some vs) :
    j.all = vs + (j.removed name).all := AList.sum_erase found

theorem Journal.oldest_found {name : String} (h : j.oldest = some name) :
    ∃ vs, j.segments.lookup name = some vs := by
  have listed := (oldestCompleted_some h).1
  exact AList.exists_lookup_iff_mem.mpr (AList.mem_keys.mpr (mem_segmentNames.mp listed).1)

theorem Journal.all_removed_le {name : String} (h : j.oldest = some name) : (j.removed name).all ≤ j.all := by
  obtain ⟨vs, found⟩ := oldest_found h
  rw [all_removed found]
  exact Multiset.le_add_left _ _

theorem Journal.all_rotated : (j.rotated env).all = j.all := by
  by_cases there : segmentName (env.clock j.readings) ∈ j.segments
  · simp only [all, rotated, there, if_true]
  · simp only [all, rotated, there, if_false, AList.sum_insert there, Multiset.coe_nil, zero_add]

theorem Journal.all_appended_le (name : String) (v : V) : (j.appended name v).all ≤ j.all + {v} := by
  cases found : j.segments.lookup name with
  | none =>
      have same : j.segments.modify name (· ++ [v]) = j.segments :=
        AList.modify_of_notMem (AList.lookup_eq_none.mp found)
      simp only [all, appended, same]
      exact Multiset.le_add_right _ _
  | some vs =>
      apply le_of_eq
      apply AList.sum_modify found
      rw [← Multiset.coe_add]
      rfl

/-- A move adds to the journal at most the record that it writes. -/
theorem Journal.all_move_le {m : Move V} (h : j.move env m = some k) : k.all ≤ j.all + written [m] := by
  cases m with
  | evict =>
      obtain ⟨name, oldest, rfl⟩ := Option.map_eq_some_iff.mp h
      change (j.removed name).all ≤ _
      exact (all_removed_le oldest).trans (Multiset.le_add_right _ _)
  | drop =>
      obtain ⟨name, oldest, rfl⟩ := Option.map_eq_some_iff.mp h
      exact (all_removed_le oldest).trans (Multiset.le_add_right _ _)
  | rotate =>
      cases h
      rw [all_rotated]
      exact Multiset.le_add_right _ _
  | append v =>
      obtain ⟨name, _, rfl⟩ := Option.map_eq_some_iff.mp h
      exact all_appended_le name v

theorem Journal.all_moves_le {ms : List (Move V)} (run : Run (ofFn (Journal.move env)) j ms k) :
    k.all ≤ j.all + written ms := by
  induction run with
  | nil j => exact Multiset.le_add_right _ _
  | @cons j j₁ k m ms first _ ih =>
      have step := all_move_le first
      calc k.all ≤ j₁.all + written ms := ih
        _ ≤ j.all + written [m] + written ms := by gcongr
        _ = j.all + written (m :: ms) := by
            rw [add_assoc, Multiset.coe_add, ← written_append, List.singleton_append]

theorem Journal.contents_store (rt : c.RoundTrips) {name : String} {vs : List V}
    (found : j.segments.lookup name = some vs) (sized : ∀ v ∈ vs, c.Sized v) :
    (j.store c).contents c name = vs.takeWhile fun v => decide (c.Fits v) := by
  have bytes : (j.store c).files.lookup name = some (encodeAll c vs) := by
    simp only [store, AList.lookup_mapVals, found, Option.map_some]
  rw [Store.contents, bytes]
  exact records_encodeAll_takeWhile c sized rt

theorem Journal.mem_all {name : String} {vs : List V} (found : j.segments.lookup name = some vs) {v : V}
    (h : v ∈ vs) : v ∈ j.all := by
  rw [all_removed found]
  exact Multiset.mem_add.mpr (.inl h)

theorem coe_flatMap {α : Type} (l : List α) (f : α → List V) :
    (l.flatMap f : Multiset V) = (l.map fun a => (f a : Multiset V)).sum := by
  induction l with
  | nil => rfl
  | cons a l ih => rw [List.flatMap_cons, ← Multiset.coe_add, ih, List.map_cons, List.sum_cons]

/-- Nothing is readable more often than it was written. -/
theorem Journal.readable_le (rt : c.RoundTrips) (sized : ∀ v ∈ j.all, c.Sized v) :
    ((j.store c).readable c : Multiset V) ≤ j.all := by
  have listed : ((j.store c).readable c).Subperm (j.segments.keys.flatMap ((j.store c).contents c)) := by
    have names : (j.store c).segments.Perm (j.segments.keys.filter isSegment) := by
      simpa only [Store.segments, store, AList.keys_mapVals] using segmentNames_perm j.segments.keys
    exact (names.flatMap_right _).subperm.trans (List.filter_sublist.flatMap _).subperm
  have keys : j.segments.keys.flatMap ((j.store c).contents c) =
      j.segments.entries.flatMap fun e => (j.store c).contents c e.1 := List.flatMap_map ..
  calc ((j.store c).readable c : Multiset V)
      ≤ (j.segments.keys.flatMap ((j.store c).contents c) : Multiset V) := Multiset.coe_le.mpr listed
    _ = j.segments.sum fun name _ => ((j.store c).contents c name : Multiset V) := by
        rw [keys, coe_flatMap]
        rfl
    _ ≤ j.all := by
        apply AList.sum_le_sum
        intro name vs found
        rw [contents_store rt found fun v hv => sized v (mem_all found hv)]
        exact Multiset.coe_le.mpr (List.takeWhile_sublist _).subperm

end All

end ServerPoller
