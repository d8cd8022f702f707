import ServerPoller.Wal
import Mathlib.Data.List.TakeWhile

/-! What `read_segment` makes of the bytes of a segment file: a sequence of complete frames,
whatever their payloads and sentinels, followed by at most one torn frame. -/

namespace ServerPoller
open DirectoryIo Numerals

/-- A record as it lies on disk, good or bad. -/
structure Frame where
  payload : Bytes
  mark : UInt8
  fits : payload.length ≤ maxPayload

def Frame.bytes (f : Frame) : Bytes := toBeBytes 4 f.payload.length ++ (f.payload ++ [f.mark])

def framesBytes (fs : List Frame) : Bytes := fs.flatMap Frame.bytes

@[simp] theorem framesBytes_nil : framesBytes [] = [] := rfl

@[simp] theorem framesBytes_cons (f : Frame) (fs : List Frame) :
    framesBytes (f :: fs) = f.bytes ++ framesBytes fs := rfl

@[simp] theorem framesBytes_append (fs gs : List Frame) :
    framesBytes (fs ++ gs) = framesBytes fs ++ framesBytes gs := List.flatMap_append

theorem Frame.length_bytes (f : Frame) : f.bytes.length = f.payload.length + 5 := by
  simp only [Frame.bytes, List.length_append, length_toBeBytes, List.length_cons, List.length_nil]
  omega

theorem length_le_framesBytes (fs : List Frame) : fs.length ≤ (framesBytes fs).length := by
  induction fs with
  | nil => exact Nat.zero_le _
  | cons f fs ih =>
      rw [framesBytes_cons, List.length_append, f.length_bytes, List.length_cons]
      omega

/-- A proper initial part of a frame, as a crash leaves it. -/
def Torn (tail : Bytes) : Prop := ∃ f : Frame, tail <+: f.bytes ∧ tail.length < f.bytes.length

theorem torn_nil : Torn [] :=
  ⟨⟨[], 0, Nat.zero_le _⟩, List.nil_prefix, by simp [Frame.length_bytes]⟩

theorem ofBeBytes_length {payload : Bytes} (h : payload.length ≤ maxPayload) :
    ofBeBytes (toBeBytes 4 payload.length) = payload.length := by
  rw [ofBeBytes_toBeBytes]
  exact Nat.mod_eq_of_lt (lt_of_le_of_lt h (by decide))

theorem readExact_append (bs rest : Bytes) :
    Reader.readExact bs.length ⟨bs ++ rest, none⟩ = .ok (bs, ⟨rest, none⟩) := by
  simp [Reader.readExact]

theorem readExact_short {n : Nat} {rest : Bytes} (h : rest.length < n) :
    Reader.readExact n ⟨rest, none⟩ = .error .unexpectedEof := by
  simp [Reader.readExact, Nat.not_le.mpr h]

variable {V : Type} (c : Codec V)

/-- The value a frame stands for: none unless the sentinel and the JSON are good. -/
def Frame.value (f : Frame) : Option V := if f.mark = sentinel then c.fromSlice f.payload else none

/-- Reading at a complete frame consumes exactly it and keeps its value, if it has one. -/
theorem readRecord_frame (f : Frame) (rest : Bytes) :
    readRecord c ⟨f.bytes ++ rest, none⟩ =
      match f.value c with
      | some v => .item v ⟨rest, none⟩
      | none => .skip ⟨rest, none⟩ := by
  have head := readExact_append (toBeBytes 4 f.payload.length) (f.payload ++ ([f.mark] ++ rest))
  have body := readExact_append f.payload ([f.mark] ++ rest)
  have mark := readExact_append [f.mark] rest
  have shape : f.bytes ++ rest =
      toBeBytes 4 f.payload.length ++ (f.payload ++ ([f.mark] ++ rest)) := by
    simp only [Frame.bytes, List.append_assoc]
  rw [length_toBeBytes] at head
  simp only [List.length_singleton] at mark
  simp only [readRecord, shape, head, ofBeBytes_length f.fits, Nat.not_lt.mpr f.fits, if_false, body,
    mark, Frame.value]
  by_cases good : f.mark = sentinel
  · cases c.fromSlice f.payload with
    | none => simp [good]
    | some v => simp [good]
  · simp [good]

theorem readRecord_torn {tail : Bytes} (h : Torn tail) : readRecord c ⟨tail, none⟩ = .stop := by
  obtain ⟨f, ⟨lost, whole⟩, short⟩ := h
  rw [f.length_bytes] at short
  by_cases four : tail.length < 4
  · simp only [readRecord, readExact_short four, RecordRead.ofError]
  · -- the length prefix is complete, so the tail is that prefix and a part of the rest
    have split : ∃ rest, tail = toBeBytes 4 f.payload.length ++ rest := by
      rw [Frame.bytes, List.append_eq_append_iff] at whole
      rcases whole with ⟨mid, eq, _⟩ | ⟨mid, eq, _⟩
      · have len := congrArg List.length eq
        simp only [List.length_append, length_toBeBytes] at len
        have none : mid = [] := List.length_eq_zero_iff.mp (by omega)
        exact ⟨[], by simpa [none] using eq.symm⟩
      · exact ⟨mid, eq⟩
    obtain ⟨rest, rfl⟩ := split
    have head := readExact_append (toBeBytes 4 f.payload.length) rest
    simp only [List.length_append, length_toBeBytes] at head short
    simp only [readRecord, head, ofBeBytes_length f.fits, Nat.not_lt.mpr f.fits, if_false]
    by_cases body : rest.length < f.payload.length
    · simp only [readExact_short body, RecordRead.ofError]
    · have full : rest.length = f.payload.length := by omega
      have exact_ := readExact_append rest []
      rw [List.append_nil, full] at exact_
      have none : Reader.readExact 1 ⟨[], none⟩ = .error .unexpectedEof := rfl
      simp only [exact_, none, RecordRead.ofError]

/-- The loop of `read_segment` over complete frames and a rest at which it stops. -/
theorem readRecords_frames (maxItems : Nat) {tail : Bytes} (stops : readRecord c ⟨tail, none⟩ = .stop)
    (fs : List Frame) (turns : Nat) (enough : fs.length < turns) (items : List V) :
    readRecords c maxItems turns ⟨framesBytes fs ++ tail, none⟩ items =
      .ok (items ++ (fs.filterMap (Frame.value c)).take (maxItems - items.length)) := by
  induction fs generalizing turns items with
  | nil =>
      obtain ⟨turns, rfl⟩ := Nat.exists_eq_add_one_of_ne_zero (Nat.ne_of_gt enough)
      simp only [readRecords, framesBytes_nil, List.nil_append, stops, ite_self,
        List.filterMap_nil, List.take_nil, List.append_nil]
  | cons f fs ih =>
      obtain ⟨turns, rfl⟩ := Nat.exists_eq_add_one_of_ne_zero (show turns ≠ 0 by omega)
      have more : fs.length < turns := by simpa using enough
      by_cases full : maxItems ≤ items.length
      · simp only [readRecords, full, if_true, Nat.sub_eq_zero_of_le full, List.take_zero, List.append_nil]
      · simp only [readRecords, full, if_false, framesBytes_cons, List.append_assoc, readRecord_frame]
        cases hv : f.value c with
        | none => simp only [ih turns more items, List.filterMap_cons, hv]
        | some v =>
            have room : maxItems - items.length = maxItems - (items ++ [v]).length + 1 := by
              simp only [List.length_append, List.length_singleton]
              omega
            simp only [ih turns more (items ++ [v]), List.filterMap_cons, hv, room, List.take_succ_cons,
              List.append_assoc, List.singleton_append]

theorem readAll_frames_stop (maxItems : Nat) {tail : Bytes} (stops : readRecord c ⟨tail, none⟩ = .stop)
    (fs : List Frame) :
    readAll c maxItems ⟨framesBytes fs ++ tail, none⟩ =
      .ok ((fs.filterMap (Frame.value c)).take maxItems) := by
  have enough : fs.length < (framesBytes fs ++ tail).length + 1 := by
    have := length_le_framesBytes fs
    rw [List.length_append]
    omega
  simpa [readAll] using readRecords_frames c maxItems stops fs _ enough []

theorem readAll_frames (maxItems : Nat) {tail : Bytes} (ht : Torn tail) (fs : List Frame) :
    readAll c maxItems ⟨framesBytes fs ++ tail, none⟩ =
      .ok ((fs.filterMap (Frame.value c)).take maxItems) :=
  readAll_frames_stop c maxItems (readRecord_torn c ht) fs

theorem readRecord_cases (bytes : Bytes) :
    readRecord c ⟨bytes, none⟩ = .stop ∨
      ∃ rest : Bytes, rest.length < bytes.length ∧
        (readRecord c ⟨bytes, none⟩ = .skip ⟨rest, none⟩ ∨
          ∃ v, readRecord c ⟨bytes, none⟩ = .item v ⟨rest, none⟩) := by
  have exact_ : ∀ (n : Nat) (bs : Bytes), Reader.readExact n ⟨bs, none⟩ =
      if n ≤ bs.length then .ok (bs.take n, ⟨bs.drop n, none⟩) else .error .unexpectedEof :=
    fun _ _ => rfl
  by_cases head : 4 ≤ bytes.length
  · by_cases absurd_ : maxPayload < ofBeBytes (bytes.take 4)
    · exact .inl (by simp only [readRecord, exact_, if_pos head, if_pos absurd_])
    · by_cases body : ofBeBytes (bytes.take 4) ≤ (bytes.drop 4).length
      · by_cases mark : 1 ≤ ((bytes.drop 4).drop (ofBeBytes (bytes.take 4))).length
        · refine .inr ⟨((bytes.drop 4).drop (ofBeBytes (bytes.take 4))).drop 1, ?_, ?_⟩
          · simp only [List.length_drop]
            omega
          · simp only [readRecord, exact_, if_pos head, if_neg absurd_, if_pos body, if_pos mark]
            split
            · exact .inl rfl
            · cases c.fromSlice ((bytes.drop 4).take (ofBeBytes (bytes.take 4))) with
              | none => exact .inl rfl
              | some v => exact .inr ⟨v, rfl⟩
        · exact .inl (by simp only [readRecord, exact_, if_pos head, if_neg absurd_, if_pos body,
            if_neg mark, RecordRead.ofError])
      · exact .inl (by simp only [readRecord, exact_, if_pos head, if_neg absurd_, if_neg body,
          RecordRead.ofError])
  · exact .inl (by simp only [readRecord, exact_, if_neg head, RecordRead.ofError])

/-- The values in a file do not depend on the item limit, which only cuts the list of them off. -/
theorem readRecords_take (turns : Nat) (bytes : Bytes) :
    ∃ vs : List V, vs.length ≤ bytes.length ∧ ∀ maxItems items,
      readRecords c maxItems turns ⟨bytes, none⟩ items =
        .ok (items ++ vs.take (maxItems - items.length)) := by
  induction turns generalizing bytes with
  | zero => exact ⟨[], Nat.zero_le _, fun _ items => by simp [readRecords]⟩
  | succ turns ih =>
      rcases readRecord_cases c bytes with stop | ⟨rest, fewer, skip | ⟨v, item⟩⟩
      · exact ⟨[], Nat.zero_le _, fun _ items => by simp [readRecords, stop]⟩
      · obtain ⟨vs, short, reads⟩ := ih rest
        refine ⟨vs, by omega, ?_⟩
        intro maxItems items
        by_cases full : maxItems ≤ items.length
        · simp only [readRecords, full, if_true, Nat.sub_eq_zero_of_le full, List.take_zero, List.append_nil]
        · simp only [readRecords, full, if_false, skip, reads]
      · obtain ⟨vs, short, reads⟩ := ih rest
        refine ⟨v :: vs, by rw [List.length_cons]; omega, ?_⟩
        intro maxItems items
        by_cases full : maxItems ≤ items.length
        · simp only [readRecords, full, if_true, Nat.sub_eq_zero_of_le full, List.take_zero, List.append_nil]
        · have room : maxItems - items.length = maxItems - (items ++ [v]).length + 1 := by
            simp only [List.length_append, List.length_singleton]
            omega
          simp only [readRecords, full, if_false, item, reads, room, List.take_succ_cons, List.append_assoc,
            List.singleton_append]

/-- Everything `read_segment` finds in these bytes when there is no item limit to stop it. -/
def records (bytes : Bytes) : List V :=
  match readAll c bytes.length ⟨bytes, none⟩ with
  | .ok items => items
  | .error _ => []

theorem readAll_take (maxItems : Nat) (bytes : Bytes) :
    readAll c maxItems ⟨bytes, none⟩ = .ok ((records c bytes).take maxItems) := by
  obtain ⟨vs, short, reads⟩ := readRecords_take c (bytes.length + 1) bytes
  have all : ∀ limit, readAll c limit ⟨bytes, none⟩ = .ok (vs.take limit) := by
    intro limit
    simp only [readAll, reads, List.nil_append, List.length_nil, Nat.sub_zero]
  have values : records c bytes = vs := by
    simp only [records, all, List.take_of_length_le short]
  rw [values, all]

theorem records_frames {tail : Bytes} (stops : readRecord c ⟨tail, none⟩ = .stop) (fs : List Frame) :
    records c (framesBytes fs ++ tail) = fs.filterMap (Frame.value c) := by
  have few : (fs.filterMap (Frame.value c)).length ≤ (framesBytes fs ++ tail).length := by
    have values := List.length_filterMap_le (Frame.value c) fs
    have frames := length_le_framesBytes fs
    rw [List.length_append]
    omega
  simp only [records, readAll_frames_stop c _ stops, List.take_of_length_le few]

def recordBytes (v : V) : Bytes := toBeBytes 4 (c.toVec v).length ++ (c.toVec v ++ [sentinel])

def encodeAll (vs : List V) : Bytes := vs.flatMap (recordBytes c)

def Codec.Fits (v : V) : Prop := (c.toVec v).length ≤ maxPayload

instance (v : V) : Decidable (c.Fits v) := inferInstanceAs (Decidable (_ ≤ _))

@[simp] theorem encodeAll_nil : encodeAll c [] = [] := rfl

@[simp] theorem encodeAll_append (vs ws : List V) :
    encodeAll c (vs ++ ws) = encodeAll c vs ++ encodeAll c ws := List.flatMap_append

@[simp] theorem encodeAll_singleton (v : V) : encodeAll c [v] = recordBytes c v := by
  simp [encodeAll]

theorem encodeAll_as_frames {vs : List V} (fits : ∀ v ∈ vs, c.Fits v) (rt : c.RoundTrips) :
    ∃ fs, encodeAll c vs = framesBytes fs ∧ fs.filterMap (Frame.value c) = vs := by
  induction vs with
  | nil => exact ⟨[], rfl, rfl⟩
  | cons v vs ih =>
      obtain ⟨fs, bytes, values⟩ := ih (fun w hw => fits w (List.mem_cons_of_mem v hw))
      refine ⟨⟨c.toVec v, sentinel, fits v List.mem_cons_self⟩ :: fs, ?_, ?_⟩
      · rw [framesBytes_cons, ← bytes]
        rfl
      · rw [List.filterMap_cons, Frame.value, if_pos rfl, rt v, values]

def Codec.Sized (v : V) : Prop := (c.toVec v).length < 2 ^ 32

instance (v : V) : Decidable (c.Sized v) := inferInstanceAs (Decidable (_ < _))

variable {c} in
theorem Codec.Fits.sized {v : V} (h : c.Fits v) : c.Sized v := lt_of_le_of_lt h (by decide)

theorem readRecord_oversize {v : V} (sized : c.Sized v) (large : ¬c.Fits v) (rest : Bytes) :
    readRecord c ⟨recordBytes c v ++ rest, none⟩ = .stop := by
  have head := readExact_append (toBeBytes 4 (c.toVec v).length) (c.toVec v ++ [sentinel] ++ rest)
  rw [length_toBeBytes] at head
  have length : ofBeBytes (toBeBytes 4 (c.toVec v).length) = (c.toVec v).length := by
    rw [ofBeBytes_toBeBytes]
    exact Nat.mod_eq_of_lt sized
  simp only [readRecord, recordBytes, List.append_assoc] at head ⊢
  simp only [head, length, if_pos (not_le.mp large)]

/-- Of a file that `write_batch` wrote, the reader finds the records before the first that is too
large for it. -/
theorem records_encodeAll_takeWhile {vs : List V} (sized : ∀ v ∈ vs, c.Sized v) (rt : c.RoundTrips) :
    records c (encodeAll c vs) = vs.takeWhile fun v => decide (c.Fits v) := by
  have fits : ∀ v ∈ vs.takeWhile (fun v => decide (c.Fits v)), c.Fits v := by
    intro v hv
    simpa using List.mem_takeWhile_imp (p := fun v => decide (c.Fits v)) hv
  obtain ⟨fs, bytes, values⟩ := encodeAll_as_frames c fits rt
  have split : encodeAll c vs =
      framesBytes fs ++ encodeAll c (vs.dropWhile fun v => decide (c.Fits v)) := by
    rw [← bytes, ← encodeAll_append, List.takeWhile_append_dropWhile]
  have stops : readRecord c ⟨encodeAll c (vs.dropWhile fun v => decide (c.Fits v)), none⟩ = .stop := by
    cases rest : vs.dropWhile fun v => decide (c.Fits v) with
    | nil => exact readRecord_torn c torn_nil
    | cons v rest' =>
        have member : v ∈ vs := List.dropWhile_sublist _ |>.subset (rest ▸ List.mem_cons_self)
        have large : ¬c.Fits v := by
          have head := List.head_dropWhile_not (fun v => decide (c.Fits v)) (l := vs) (by simp [rest])
          simpa [rest] using head
        exact readRecord_oversize c (sized v member) large _
  rw [split, records_frames c stops, values]

theorem records_encodeAll {vs : List V} (fits : ∀ v ∈ vs, c.Fits v) (rt : c.RoundTrips) :
    records c (encodeAll c vs) = vs := by
  rw [records_encodeAll_takeWhile c (fun v hv => (fits v hv).sized) rt]
  exact List.takeWhile_eq_self_iff.mpr fun v hv => decide_eq_true (fits v hv)

/-- Payloads with a single field `online` of one digit, as `to_vec` writes them. -/
def onlineCodec : Codec (Fin 10) :=
  let toVec : Fin 10 → Bytes := fun n =>
    ("\x7b\"online\":" ++ toString n.val ++ "\x7d").toList.map fun ch => UInt8.ofNat ch.toNat
  ⟨toVec, fun bytes => (List.finRange 10).find? fun n => toVec n == bytes⟩

theorem onlineCodec_roundTrips : onlineCodec.RoundTrips := by
  unfold Codec.RoundTrips
  decide +kernel

end ServerPoller
