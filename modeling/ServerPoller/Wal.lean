import ServerPoller.Lib.DirectoryIo
import ServerPoller.Lib.Numerals
import Mathlib.Data.List.Sort
import Mathlib.Order.Lex

/-! The disk buffer of `wal.rs`: segment files `buffer-{epoch_millis}.wal` holding records
`[4B u32 BE length][payload bytes][0x0A sentinel]`. -/

namespace ServerPoller
open DirectoryIo Numerals

def sentinel : UInt8 := 0x0A

/-- JSON text of the buffered values: `serde_json::to_vec`, which cannot fail on a `Value`,
and `serde_json::from_slice`. -/
structure Codec (V : Type) where
  toVec : V → Bytes
  fromSlice : Bytes → Option V

def Codec.RoundTrips {V : Type} (c : Codec V) : Prop := ∀ v, c.fromSlice (c.toVec v) = some v

structure SegmentWriter where
  path : String
  size : Nat
  deriving DecidableEq, Repr

structure WalBuffer where
  maxBytes : Nat
  segmentMaxBytes : Nat
  currentSegment : Option SegmentWriter
  totalBytes : Nat
  deriving DecidableEq, Repr

/-- The buffer gauges and counters of `metrics.rs`. -/
structure BufferMetrics where
  bufferBytes : Int64
  bufferSegments : Int64
  bufferWrites : Nat
  bufferDrained : Nat
  bufferEvicted : Nat
  deriving DecidableEq, Repr

structure WalProcess where
  wal : WalBuffer
  metrics : BufferMetrics
  deriving DecidableEq, Repr

abbrev WalIo := Io WalProcess

def modifyWal (f : WalBuffer → WalBuffer) : WalIo Unit :=
  modify fun w => { w with proc := { w.proc with wal := f w.proc.wal } }

def modifyMetrics (f : BufferMetrics → BufferMetrics) : WalIo Unit :=
  modify fun w => { w with proc := { w.proc with metrics := f w.proc.metrics } }

def currentPath : WalIo (Option String) := do
  return (← get).proc.wal.currentSegment.map SegmentWriter.path

/-- `Path::extension`: what follows the last dot, unless that dot starts the name. -/
def extension (name : String) : Option String :=
  match name.toList.reverse.dropWhile (· != '.') with
  | _ :: _ :: _ => some (String.ofList (name.toList.reverse.takeWhile (· != '.')).reverse)
  | _ => none

def isSegment (name : String) : Bool := extension name == some "wal"

/-- The segment names among directory entries, in file name order. -/
def segmentNames (entries : List String) : List String :=
  (entries.filter isSegment).insertionSort (· ≤ ·)

def segmentName (ts : Nat) : String := "buffer-" ++ toString ts ++ ".wal"

section Functions
variable {V : Type} (c : Codec V) (env : Surroundings)

def sortedSegments : WalIo (List String) := do
  return segmentNames (← readDir env)

def syncGauges : WalIo Unit := do
  let count ← attempt (sortedSegments env)
  let total := (← get).proc.wal.totalBytes
  modifyMetrics fun m => { m with
    bufferBytes := Int64.ofNat total
    bufferSegments := match count with
      | .ok s => Int64.ofNat s.length
      | .error _ => 0 }

/-- The scan of `open`: the sizes of the listed files added up. -/
def scanSegments : List String → Nat → WalIo Nat
  | [], totalBytes => return totalBytes
  | entry :: rest, totalBytes => do scanSegments rest (totalBytes + (← fileLen env entry))

def openWal (maxBytes segmentMaxBytes : Nat) : WalIo Unit := do
  match ← nextCall env with
  | some _ => throw .other
  | none =>
      let totalBytes ← scanSegments env (← sortedSegments env) 0
      let _existing ← sortedSegments env
      modifyWal fun _ => ⟨maxBytes, segmentMaxBytes, none, totalBytes⟩
      syncGauges env

def rotateSegment : WalIo Unit := do
  modifyWal fun wal => { wal with currentSegment := none }
  let ts ← clockReading env
  let path := segmentName ts
  openAppend env path
  modifyWal fun wal => { wal with currentSegment := some ⟨path, 0⟩ }

/-- The oldest segment that is not the current one. -/
def oldestCompleted (segments : List String) (current : Option String) : Option String :=
  segments.find? (fun e => some e != current)

def evictOldest : WalIo Bool := do
  let segments ← sortedSegments env
  match oldestCompleted segments (← currentPath) with
  | none => return false
  | some path =>
      let size ← attempt (fileLen env path)
      removeFile env path
      modifyWal fun wal => { wal with totalBytes := wal.totalBytes - size.toOption.getD 0 }
      modifyMetrics fun m => { m with bufferEvicted := m.bufferEvicted + 1 }
      return true

/-- The eviction loop of `write_batch`. Each round that goes on has removed a segment, so the
number of files plus one rounds are always enough. -/
def evictOverBudget (recordSize : Nat) : Nat → WalIo Unit
  | 0 => return ()
  | rounds+1 => do
      let wal := (← get).proc.wal
      if wal.maxBytes < wal.totalBytes + recordSize then
        if ← evictOldest env then evictOverBudget recordSize rounds else return ()
      else return ()

def needsRotate (wal : WalBuffer) (recordSize : Nat) : Bool :=
  match wal.currentSegment with
  | some s => decide (wal.segmentMaxBytes < s.size + recordSize)
  | none => true

def appendRecord (jsonBytes : Bytes) : WalIo Unit := do
  match (← get).proc.wal.currentSegment with
  | none => throw .other -- `unwrap` on `None`; `rotate_segment` has just set it
  | some seg =>
      writeAll env seg.path (toBeBytes 4 jsonBytes.length)
      writeAll env seg.path jsonBytes
      writeAll env seg.path [sentinel]
      let recordSize := 4 + jsonBytes.length + 1
      modifyWal fun wal => { wal with
        currentSegment := some { seg with size := seg.size + recordSize }
        totalBytes := wal.totalBytes + recordSize }

/-- One turn of the loop of `write_batch`. -/
def writeItem (item : V) : WalIo Unit := do
  let jsonBytes := c.toVec item
  let recordSize := 4 + jsonBytes.length + 1
  evictOverBudget env recordSize ((← get).files.keys.length + 1)
  if needsRotate (← get).proc.wal recordSize then rotateSegment env
  appendRecord env jsonBytes

def writeItems : List V → WalIo Unit
  | [] => return ()
  | item :: rest => do
      writeItem c env item
      writeItems rest

def syncCurrent : WalIo Unit := do
  match (← get).proc.wal.currentSegment with
  | some seg => syncData env seg.path
  | none => return ()

def writeBatch (items : List V) : WalIo Unit := do
  if items.isEmpty then return ()
  else
    writeItems c env items
    syncCurrent env
    modifyMetrics fun m => { m with bufferWrites := m.bufferWrites + 1 }
    syncGauges env

def hasPending : WalIo Bool := do
  match ← attempt (sortedSegments env) with
  | .error _ => return false
  | .ok segments =>
      let current ← currentPath
      return segments.any (fun e => some e != current)

inductive RecordRead (V : Type) where
  | stop
  | fail (e : IoError)
  | skip (r : Reader)
  | item (v : V) (r : Reader)

def maxPayload : Nat := 16 * 1024 * 1024

/-- A short read ends the segment, any other read error ends the call. -/
def RecordRead.ofError : IoError → RecordRead V
  | .unexpectedEof => .stop
  | e => .fail e

def readRecord (r : Reader) : RecordRead V :=
  match r.readExact 4 with
  | .error e => .ofError e
  | .ok (lenBuf, r) =>
      let payloadLen := ofBeBytes lenBuf
      if maxPayload < payloadLen then .stop
      else match r.readExact payloadLen with
        | .error e => .ofError e
        | .ok (payloadBuf, r) =>
            match r.readExact 1 with
            | .error e => .ofError e
            | .ok (s, r) =>
                if s ≠ [sentinel] then .skip r
                else match c.fromSlice payloadBuf with
                  | some val => .item val r
                  | none => .skip r

/-- The loop of `read_segment`; every turn that goes on takes at least five bytes. -/
def readRecords (maxItems : Nat) : Nat → Reader → List V → Except IoError (List V)
  | 0, _, items => .ok items
  | turns+1, r, items =>
      if maxItems ≤ items.length then .ok items
      else match readRecord c r with
        | .stop => .ok items
        | .fail e => .error e
        | .skip r => readRecords maxItems turns r items
        | .item v r => readRecords maxItems turns r (items ++ [v])

def readAll (maxItems : Nat) (r : Reader) : Except IoError (List V) :=
  readRecords c maxItems (r.rest.length + 1) r []

def readSegment (path : String) (maxItems : Nat) : WalIo (List V) := do
  match readAll c maxItems (← openRead env path) with
  | .ok items => return items
  | .error e => throw e

def readOldestBatch (maxItems : Nat) : WalIo (Option (String × List V)) := do
  let segments ← sortedSegments env
  match oldestCompleted segments (← currentPath) with
  | none => return none
  | some path =>
      let items ← readSegment c env path maxItems
      return some (path, items)

def deleteSegment (path : String) : WalIo Unit := do
  let size ← attempt (fileLen env path)
  removeFile env path
  modifyWal fun wal => { wal with totalBytes := wal.totalBytes - size.toOption.getD 0 }
  modifyMetrics fun m => { m with bufferDrained := m.bufferDrained + 1 }
  syncGauges env

end Functions

def emptyWorld : World WalProcess := ⟨⟨⟨0, 0, none, 0⟩, ⟨0, 0, 0, 0, 0⟩⟩, ∅, 0, 0⟩

/-- Nothing fails; the first ten clock readings are one apart and the later ones equal. -/
def millisApart : Surroundings := ⟨fun i => 1700000000000 + min i 9, fun _ => none⟩

theorem millisApart_monotone : Monotone millisApart.clock :=
  fun _ _ h => Nat.add_le_add_left (min_le_min_right 9 h) _

end ServerPoller
