import ServerPoller.WalBacklog
import ServerPoller.WalJournal

/-! What `read_segment` recovers: of any sequence of complete frames the good ones, of a file that was
cut off the records before the cut, and of a damaged record all but that record. -/

namespace ServerPoller
open DirectoryIo Numerals Transition

section Reading
variable {V : Type} (c : Codec V) (env : Surroundings)

/-- `read_segment` on a file with these bytes returns these values and changes no file. -/
def SegmentReads (maxItems : Nat) (bytes : Bytes) (items : List V) : Prop :=
  ∀ (w : World WalProcess) (name : String) (f : DiskFile), w.files.lookup name = some f → f.bytes = bytes →
    Yields (readSegment c env name maxItems) w fun got w' => got = items ∧ w'.files = w.files

/-- The records that lie wholly before the cut in a file of these records. -/
def recordsBefore : List V → Nat → List V
  | [], _ => []
  | v :: rest, cut =>
      if (recordBytes c v).length ≤ cut then v :: recordsBefore rest (cut - (recordBytes c v).length) else []

variable {c env}

theorem segmentReads_of (faultless : env.Faultless) {maxItems : Nat} {bytes : Bytes} {items : List V}
    (h : readAll c maxItems ⟨bytes, none⟩ = .ok items) : SegmentReads c env maxItems bytes items := by
  intro w name f found same
  apply yields_bind
  apply yields_openRead faultless found
  rw [same, h]
  exact yields_pure ⟨rfl, rfl⟩

def recordFrame {v : V} (fits : c.Fits v) : Frame := ⟨c.toVec v, sentinel, fits⟩

theorem recordFrame_bytes {v : V} (fits : c.Fits v) : (recordFrame fits).bytes = recordBytes c v := rfl

/-- What a cut leaves of a file is whole records and a torn one. -/
theorem take_encodeAll {vs : List V} (fits : ∀ v ∈ vs, c.Fits v) (cut : Nat) :
    ∃ tail, Torn tail ∧ (encodeAll c vs).take cut = encodeAll c (recordsBefore c vs cut) ++ tail := by
  induction vs generalizing cut with
  | nil => exact ⟨[], torn_nil, by simp [recordsBefore]⟩
  | cons v vs ih =>
      obtain ⟨here, later⟩ := List.forall_mem_cons.mp fits
      have shape : ∀ ws, encodeAll c (v :: ws) = recordBytes c v ++ encodeAll c ws := fun _ => rfl
      by_cases whole : (recordBytes c v).length ≤ cut
      · obtain ⟨tail, torn, eq⟩ := ih later (cut - (recordBytes c v).length)
        refine ⟨tail, torn, ?_⟩
        rw [shape, recordsBefore, if_pos whole, shape, List.take_append, List.take_of_length_le whole, eq,
          List.append_assoc]
      · have inside : cut ≤ (recordBytes c v).length := le_of_not_ge whole
        refine ⟨(recordBytes c v).take cut, ⟨recordFrame here, ?_, ?_⟩, ?_⟩
        · exact List.take_prefix _ _
        · rw [recordFrame_bytes, List.length_take]
          omega
        · rw [shape, recordsBefore, if_neg whole, List.take_append_of_le_length inside]
          rfl

theorem recordsBefore_subset {vs : List V} {cut : Nat} : recordsBefore c vs cut ⊆ vs := by
  induction vs generalizing cut with
  | nil => exact List.Subset.refl _
  | cons v vs ih =>
      rw [recordsBefore]
      split
      · exact List.cons_subset_cons v ih
      · exact List.nil_subset _

theorem readAll_take_encodeAll {vs : List V} (fits : ∀ v ∈ vs, c.Fits v) (rt : c.RoundTrips)
    (maxItems cut : Nat) :
    readAll c maxItems ⟨(encodeAll c vs).take cut, none⟩ = .ok ((recordsBefore c vs cut).take maxItems) := by
  obtain ⟨tail, torn, eq⟩ := take_encodeAll fits cut
  obtain ⟨fs, bytes, values⟩ := encodeAll_as_frames c (fun v hv => fits v (recordsBefore_subset hv)) rt
  rw [eq, bytes, readAll_frames c maxItems torn, values]

theorem damaged_frames {before after : List Frame} {f : Frame} {tail damaged : Bytes}
    (length : damaged.length = (framesBytes (before ++ f :: after) ++ tail).length)
    (head : damaged.take ((framesBytes before).length + 4) =
      (framesBytes (before ++ f :: after) ++ tail).take ((framesBytes before).length + 4))
    (rest : damaged.drop ((framesBytes before).length + f.bytes.length) =
      (framesBytes (before ++ f :: after) ++ tail).drop ((framesBytes before).length + f.bytes.length)) :
    ∃ g : Frame, damaged = framesBytes (before ++ g :: after) ++ tail := by
  have size := f.length_bytes
  have whole : framesBytes (before ++ f :: after) ++ tail =
      (framesBytes before ++ toBeBytes 4 f.payload.length) ++
        ((f.payload ++ [f.mark]) ++ (framesBytes after ++ tail)) := by
    simp only [framesBytes_append, framesBytes_cons, Frame.bytes, List.append_assoc]
  have start : (framesBytes before).length + 4 =
      (framesBytes before ++ toBeBytes 4 f.payload.length).length := by
    rw [List.length_append, length_toBeBytes]
  have stop : (framesBytes before).length + f.bytes.length =
      (framesBytes before).length + 4 + (f.payload ++ [f.mark]).length := by
    rw [size, List.length_append, List.length_singleton]
    omega
  rw [whole] at length head rest
  rw [start, List.take_left] at head
  rw [stop, start, ← List.drop_drop, ← List.drop_drop, List.drop_left, List.drop_left] at rest
  -- between the two common parts lie as many bytes as the payload and the sentinel have
  have split : damaged = (framesBytes before ++ toBeBytes 4 f.payload.length) ++
      ((damaged.drop (framesBytes before ++ toBeBytes 4 f.payload.length).length).take
        (f.payload ++ [f.mark]).length ++ (framesBytes after ++ tail)) := by
    rw [← rest, List.take_append_drop]
    nth_rewrite 1 [← head]
    exact (List.take_append_drop _ _).symm
  have middle : ((damaged.drop (framesBytes before ++ toBeBytes 4 f.payload.length).length).take
      (f.payload ++ [f.mark]).length).length = f.payload.length + 1 := by
    rw [List.length_take, List.length_drop, length]
    simp only [List.length_append, List.length_singleton]
    omega
  generalize (damaged.drop (framesBytes before ++ toBeBytes 4 f.payload.length).length).take
    (f.payload ++ [f.mark]).length = changed at split middle
  obtain ⟨payload, mark, rfl⟩ : ∃ payload mark, changed = payload ++ [mark] := by
    rcases List.eq_nil_or_concat' changed with rfl | ⟨payload, mark, eq⟩
    · simp at middle
    · exact ⟨payload, mark, eq⟩
  have same : payload.length = f.payload.length := by simpa using middle
  refine ⟨⟨payload, mark, same ▸ f.fits⟩, ?_⟩
  simp only [split, framesBytes_append, framesBytes_cons, Frame.bytes, List.append_assoc, same]

/-- Every segment holds some of these records, in their order. -/
def Journal.Within (past : List V) (j : Journal V) : Prop :=
  ∀ name vs, j.segments.lookup name = some vs → vs.Sublist past

theorem Journal.Within.removed {past : List V} {j : Journal V} (h : j.Within past) (name : String) :
    (j.removed name).Within past := by
  intro other vs found
  by_cases same : other = name
  · subst same
    simp [Journal.removed] at found
  · exact h other vs (by simpa only [Journal.removed, AList.lookup_erase_ne same] using found)

theorem Journal.Within.mono {past more : List V} {j : Journal V} (h : j.Within past) :
    j.Within (past ++ more) :=
  fun name vs found => (h name vs found).trans (List.sublist_append_left past more)

theorem Journal.Within.move {past : List V} {j k : Journal V} {m : Move V} (h : j.Within past)
    (hm : j.move env m = some k) : k.Within (past ++ written [m]) := by
  cases m with
  | evict =>
      obtain ⟨name, _, rfl⟩ := Option.map_eq_some_iff.mp hm
      exact (h.removed name).mono
  | drop =>
      obtain ⟨name, _, rfl⟩ := Option.map_eq_some_iff.mp hm
      exact (h.removed name).mono
  | rotate =>
      cases hm
      intro name vs found
      by_cases there : segmentName (env.clock j.readings) ∈ j.segments
      · simp only [Journal.rotated, there, if_true] at found
        exact h.mono name vs found
      · simp only [Journal.rotated, there, if_false] at found
        rcases AList.lookup_insert_eq_some.mp found with ⟨_, rfl⟩ | ⟨_, before⟩
        · exact List.nil_sublist _
        · exact h.mono name vs before
  | append v =>
      obtain ⟨current, _, rfl⟩ := Option.map_eq_some_iff.mp hm
      intro name vs found
      by_cases same : name = current
      · subst same
        simp only [Journal.appended, AList.lookup_modify, Option.map_eq_some_iff] at found
        obtain ⟨old, before, rfl⟩ := found
        exact (h name old before).append (List.Sublist.refl [v])
      · simp only [Journal.appended, AList.lookup_modify_ne same] at found
        exact h.mono name vs found

theorem Journal.Within.moves {past : List V} {j k : Journal V} {ms : List (Move V)} (h : j.Within past)
    (run : Run (ofFn (Journal.move env)) j ms k) : k.Within (past ++ written ms) := by
  induction run generalizing past with
  | nil j => exact h.mono
  | @cons j j₁ k m ms first _ ih =>
      have later := ih (h.move first)
      rwa [List.append_assoc, ← written_append] at later

/-- The buffer is the encoding of a journal of what was offered to it. -/
theorem walRun_within (faultless : env.Faultless) {maxBytes segmentMaxBytes : Nat}
    {calls : List (WalCall V)} {s : WalRun V}
    (run : Run (ofTotal (walCall c env)) (walStart env maxBytes segmentMaxBytes) calls s) :
    ∃ j : Journal V, store s.world = j.store c ∧ j.Within (offered calls) := by
  apply run.keeps_history
    (P := fun past s => ∃ j : Journal V, store s.world = j.store c ∧ j.Within (offered past))
  · rintro past s call _ ⟨j, files, within⟩ rfl
    have grown : offered (past ++ [call]) = offered past ++ offered [call] := by
      rw [offered, List.flatMap_append]
      rfl
    rw [grown]
    cases call with
    | write items =>
        obtain ⟨_, w, wrote, ms, writes, moved⟩ := writeBatch_moves (c := c) (w := s.world) faultless items
        rw [files] at moved
        obtain ⟨k, run, files'⟩ := moves_journal moved
        have one : offered [WalCall.write items] = items := List.flatMap_singleton ..
        have later := within.moves run
        rw [writes.all] at later
        simp only [walCall, wrote, one]
        exact ⟨k, files', later⟩
    | drain maxItems =>
        obtain ⟨items, w, drained, effect⟩ := drainOnce_store (c := c) (w := s.world) faultless maxItems
        simp only [walCall, drained]
        rcases effect with ⟨_, same⟩ | ⟨name, _, _, gone⟩
        · exact ⟨j, same.trans files, within.mono⟩
        · refine ⟨j.removed name, ?_, (within.removed name).mono⟩
          rw [gone, files, Journal.store_removed]
  · refine ⟨⟨none, ∅, 0, 0⟩, store_walStart faultless maxBytes segmentMaxBytes, ?_⟩
    intro name vs found
    simp at found

/-- `read_segment` finds the good ones among complete frames and nothing in a torn one; in a file of
the buffer that was cut off it finds the records before the cut; and damage to the payload or the
sentinel of a frame leaves what it finds in the other frames. -/
theorem readSegment_recovers (faultless : env.Faultless) (maxItems : Nat) :
    (∀ (fs : List Frame) (tail : Bytes), Torn tail →
      SegmentReads c env maxItems (framesBytes fs ++ tail) ((fs.filterMap (Frame.value c)).take maxItems)) ∧
    (c.RoundTrips → ∀ (maxBytes segmentMaxBytes : Nat) (calls : List (WalCall V)) (s : WalRun V),
      (∀ v ∈ offered calls, c.Fits v) →
      Run (ofTotal (walCall c env)) (walStart env maxBytes segmentMaxBytes) calls s →
      ∀ (name : String) (f : DiskFile), s.world.files.lookup name = some f →
        ∃ vs, vs.Sublist (offered calls) ∧ f.bytes = encodeAll c vs ∧
          ∀ cut, SegmentReads c env maxItems (f.bytes.take cut) ((recordsBefore c vs cut).take maxItems)) ∧
    ∀ (before after : List Frame) (f : Frame) (tail damaged : Bytes), Torn tail →
      damaged.length = (framesBytes (before ++ f :: after) ++ tail).length →
      damaged.take ((framesBytes before).length + 4) =
        (framesBytes (before ++ f :: after) ++ tail).take ((framesBytes before).length + 4) →
      damaged.drop ((framesBytes before).length + f.bytes.length) =
        (framesBytes (before ++ f :: after) ++ tail).drop ((framesBytes before).length + f.bytes.length) →
      ∃ found : Option V, SegmentReads c env maxItems damaged
        ((before.filterMap (Frame.value c) ++ found.toList ++ after.filterMap (Frame.value c)).take maxItems) := by
  refine ⟨?_, ?_, ?_⟩
  · intro fs tail torn
    exact segmentReads_of faultless (readAll_frames c maxItems torn fs)
  · intro rt maxBytes segmentMaxBytes calls s fits run name f found
    obtain ⟨j, files, within⟩ := walRun_within faultless run
    have bytes : (j.store c).files.lookup name = some f.bytes := by
      rw [← files]
      simp only [store, AList.lookup_mapVals, found, Option.map_some]
    simp only [Journal.store, AList.lookup_mapVals, Option.map_eq_some_iff] at bytes
    obtain ⟨vs, there, eq⟩ := bytes
    have part := within name vs there
    refine ⟨vs, part, eq.symm, ?_⟩
    intro cut
    rw [← eq]
    exact segmentReads_of faultless
      (readAll_take_encodeAll (fun v hv => fits v (part.subset hv)) rt maxItems cut)
  · intro before after f tail damaged torn length head rest
    obtain ⟨g, rfl⟩ := damaged_frames length head rest
    refine ⟨g.value c, ?_⟩
    have values : (before ++ g :: after).filterMap (Frame.value c) =
        before.filterMap (Frame.value c) ++ (g.value c).toList ++ after.filterMap (Frame.value c) := by
      rw [List.filterMap_append, List.filterMap_cons, List.append_assoc]
      cases g.value c <;> rfl
    rw [← values]
    exact segmentReads_of faultless (readAll_frames c maxItems torn _)

end Reading

/-- Two records around one whose sentinel was overwritten, and the first byte of a fourth. -/
theorem readSegment_recovers_badSentinel :
    SegmentReads onlineCodec millisApart 5
      (framesBytes [recordFrame (c := onlineCodec) (v := 1) (by decide +kernel),
        ⟨onlineCodec.toVec 2, 0, by decide +kernel⟩,
        recordFrame (c := onlineCodec) (v := 3) (by decide +kernel)] ++ [0]) [1, 3] :=
  (readSegment_recovers (fun _ => rfl) 5).1 _ [0]
    ⟨⟨[], 0, Nat.zero_le _⟩, ⟨[0, 0, 0, 0], rfl⟩, by decide⟩

end ServerPoller
