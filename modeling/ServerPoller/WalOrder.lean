import ServerPoller.WalContents

/-! The segments in the order of `sorted_segments`, and the ones that wait to be drained. -/

namespace ServerPoller
open DirectoryIo Transition

theorem pairwise_segmentNames (entries : List String) :
    (segmentNames entries).Pairwise (· ≤ ·) := List.pairwise_insertionSort _ _

theorem segmentNames_perm (entries : List String) :
    (segmentNames entries).Perm (entries.filter isSegment) := List.perm_insertionSort _ _

/-- A sorted list of the same segment names is the result of `sorted_segments`. -/
theorem segmentNames_eq {entries names : List String} (perm : names.Perm (entries.filter isSegment))
    (sorted : names.Pairwise (· ≤ ·)) : segmentNames entries = names :=
  ((segmentNames_perm entries).trans perm.symm).eq_of_pairwise
    (fun _ _ _ _ => le_antisymm) (pairwise_segmentNames entries) sorted

section Store
variable {s t : Store} {name : String}

theorem Store.nodup_segments (s : Store) : s.segments.Nodup :=
  (segmentNames_perm _).nodup_iff.mpr (s.files.keys_nodup.filter _)

theorem Store.mem_segments (only : s.OnlySegments) : name ∈ s.segments ↔ name ∈ s.files := by
  rw [segments, mem_segmentNames, ← AList.mem_keys]
  exact ⟨And.left, fun h => ⟨h, only name h⟩⟩

theorem Store.segments_removed (s : Store) (name : String) :
    (s.removed name).segments = s.segments.erase name := by
  refine segmentNames_eq ?_ ((pairwise_segmentNames _).sublist List.erase_sublist)
  have keys : (s.removed name).files.keys.filter isSegment = (s.files.keys.filter isSegment).erase name := by
    rw [removed, AList.keys_erase, s.files.keys_nodup.erase_eq_filter,
      (s.files.keys_nodup.filter _).erase_eq_filter, List.filter_filter, List.filter_filter]
    simp only [Bool.and_comm]
  rw [keys]
  exact (segmentNames_perm _).erase name

/-- The segments that wait to be drained: all but the current one. -/
def Store.pending (s : Store) : List String := s.segments.filter fun e => some e != s.current

theorem Store.oldest_eq (s : Store) : s.oldest = s.pending.head? := by
  rw [oldest, oldestCompleted, pending, List.head?_filter]

theorem Store.pending_removed (oldest : s.oldest = some name) :
    s.pending = name :: (s.removed name).pending := by
  have head := oldest
  rw [oldest_eq, List.head?_eq_some_iff] at head
  obtain ⟨rest, eq⟩ := head
  have nodup : (name :: rest).Nodup := eq ▸ s.nodup_segments.filter _
  have tail : (s.removed name).pending = s.pending.erase name := by
    rw [pending, segments_removed, pending, s.nodup_segments.erase_eq_filter,
      (s.nodup_segments.filter _).erase_eq_filter, List.filter_filter, List.filter_filter]
    simp only [removed, Bool.and_comm]
  rw [tail, eq, List.erase_cons_head]

end Store

end ServerPoller
