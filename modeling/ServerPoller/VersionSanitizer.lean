import ServerPoller.Lib.Words
import ServerPoller.Lib.Searches

/-! The sanitizer of the version texts that servers report. It works on byte offsets, and a slice that is
not between character boundaries ends the task. -/

namespace ServerPoller
open Utf8 RustText Searches

/-- A slice out of range or inside a character, or a recursion deeper than the text is long. -/
inductive Panic
  | slice
  | recursion
  deriving DecidableEq, Repr

abbrev Checked := Except Panic

def sliced : Option Text → Checked Text
  | some text => pure text
  | none => throw .slice

structure MinecraftVersionToken where
  label : Text
  parts : List Int
  deriving DecidableEq, Repr

def minecraftVersionMajor : Int := 1

def versionSuffixPrefixes : List Text := [
  ['p', 'r', 'e'],
  ['r', 'c'],
  ['s', 'n', 'a', 'p', 's', 'h', 'o', 't'],
  ['b', 'e', 't', 'a'],
  ['a', 'l', 'p', 'h', 'a']]

/-- The loop over the characters; the flag is `skip_next`. -/
def stripColours : Bool → Text → Text
  | _, [] => []
  | true, _ :: s => stripColours false s
  | false, ch :: s => if ch = '§' then stripColours true s else ch :: stripColours false s

def normalizeVersionCandidate (raw : Text) : Text := joinWords (splitWhitespace (stripColours false raw))

def mcMark : Text := ['(', 'm', 'c', ':']

def extractMcParenthetical (value : Text) : Search Panic Text := do
  let start ← found (find mcMark (toAsciiLowercase value))
  let bodyStart := start + size mcMark
  let rest ← sliced (sliceFrom value bodyStart)
  let bodyEnd ← found (find [')'] rest)
  let body ← sliced (slice value bodyStart (bodyStart + bodyEnd))
  pure (trimText body)

def parseDigits (bs : List UInt8) (index : Nat) : Option Nat :=
  if (bs[index]?).any isAsciiDigit then some (skipWhile isAsciiDigit bs index) else none

/-- `value[start..stop].parse::<i32>().ok()?` -/
def number (value : Text) (start stop : Nat) : Search Panic Int := do
  let text ← sliced (slice value start stop)
  found (parseI32 text)

def readNumber (value : Text) (start : Nat) : Search Panic (Int × Nat) := do
  let stop ← found (parseDigits (bytes value) start)
  let n ← number value start stop
  pure (n, stop)

/-- The parts with the patch, if there is one, and where it or the wildcard ends. -/
def readPatch (value : Text) (parts : List Int) (index : Nat) : Search Panic (List Int × Nat) :=
  if (bytes value)[index]? = some (byte '.') then
    let patchStart := index + 1
    if (bytes value)[patchStart]? = some (byte 'x') ∨ (bytes value)[patchStart]? = some (byte 'X') then
      pure (parts, patchStart + 1)
    else
      match parseDigits (bytes value) patchStart with
      | some patchEnd => do
          let patch ← number value patchStart patchEnd
          pure (parts ++ [patch], patchEnd)
      | none => pure (parts, index)
  else pure (parts, index)

def startsWithVersionSuffix (value : Text) : Bool :=
  versionSuffixPrefixes.any fun p => decide (p <+: toAsciiLowercase value)

def isSuffixByte (b : UInt8) : Bool := isAsciiAlphanumeric b || b == byte '.' || b == byte '-'

def readSuffix (value : Text) (index : Nat) : Checked Nat :=
  if (bytes value)[index]? = some (byte '-') then do
    let rest ← sliced (sliceFrom value (index + 1))
    if startsWithVersionSuffix rest then pure (skipWhile isSuffixByte (bytes value) (index + 1))
    else pure index
  else pure index

def trimLabel (label : Text) : Text := trimEndMatches ['.', 'X'] (trimEndMatches ['.', 'x'] label)

def parseMinecraftVersionToken (value : Text) (start : Nat) : Search Panic (MinecraftVersionToken × Nat) := do
  let (major, index) ← readNumber value start
  if major ≠ minecraftVersionMajor ∨ (bytes value)[index]? ≠ some (byte '.') then failure
  else do
    let (minor, index) ← readNumber value (index + 1)
    let (parts, index) ← readPatch value [major, minor] index
    let index ← readSuffix value index
    if ((bytes value)[index]?).any isAsciiAlphanumeric then failure
    else do
      let text ← sliced (slice value start index)
      pure (⟨trimLabel text, parts⟩, index)

def isVersionBoundaryBefore (value : Text) (start : Nat) : Checked Bool := do
  let front ← sliced (sliceTo value start)
  pure (front.getLast?.all fun ch => !ch.isAlphanum && ch != '.')

/-- The closure of `filter_map`. -/
def tokenAt (value : Text) (absolute : Nat) (ch : Char) : Search Panic (MinecraftVersionToken × Nat) :=
  if ch ≠ '1' then failure
  else do
    let boundary ← isVersionBoundaryBefore value absolute
    if boundary then parseMinecraftVersionToken value absolute else failure

/-- The iterator over the characters from an offset on, up to its first item. -/
def firstToken (value : Text) : Nat → Text → Search Panic (MinecraftVersionToken × Nat)
  | _, [] => failure
  | absolute, ch :: rest => tokenAt value absolute ch <|> firstToken value (absolute + ch.utf8Size) rest

def findMinecraftVersionToken (value : Text) (start : Nat) : Search Panic (MinecraftVersionToken × Nat) := do
  let rest ← sliced (sliceFrom value start)
  firstToken value start rest

def compareVersionParts (left right : List Int) : Ordering :=
  (List.range (max left.length right.length)).foldr
    (fun index later => (compare (left.getD index 0) (right.getD index 0)).then later) .eq

def formatVersionRange (left right : MinecraftVersionToken) : Text :=
  match compareVersionParts left.parts right.parts with
  | .eq => if left.label = right.label then left.label else left.label ++ '-' :: right.label
  | .gt => right.label ++ '-' :: left.label
  | .lt => left.label ++ '-' :: right.label

/-- The token after a dash, with spaces around the dash or without. -/
def secondToken (normalized : Text) (firstEnd : Nat) : Search Panic (MinecraftVersionToken × Nat) := do
  let afterFirst ← sliced (sliceFrom normalized firstEnd)
  let spaces := size afterFirst - size (trimStart afterFirst)
  let afterSpaces ← sliced (sliceFrom afterFirst spaces)
  match afterSpaces with
  | '-' :: afterDash =>
      let moreSpaces := size afterDash - size (trimStart afterDash)
      parseMinecraftVersionToken normalized (firstEnd + spaces + 1 + moreSpaces)
  | _ => failure

/-- The sanitizer after the version in parentheses. -/
def searchVersion (normalized : Text) : Checked Text := do
  match ← (findMinecraftVersionToken normalized 0).run with
  | none => pure []
  | some (first, firstEnd) =>
      match ← (secondToken normalized firstEnd).run with
      | some (second, _) => pure (formatVersionRange first second)
      | none => pure first.label

/-- One call of the sanitizer, with the one for the version in parentheses. -/
def sanitizeCall (recurse : Text → Checked Text) (raw : Text) : Checked Text :=
  let normalized := normalizeVersionCandidate raw
  if normalized = [] then pure []
  else do
    let version ← match ← (extractMcParenthetical normalized).run with
      | some mcValue => recurse mcValue
      | none => pure []
    if version ≠ [] then pure version else searchVersion normalized

def sanitizeWithin : Nat → Text → Checked Text
  | 0, _ => throw .recursion
  | depth+1, raw => sanitizeCall (sanitizeWithin depth) raw

def sanitizeMinecraftVersion (raw : Text) : Checked Text := sanitizeWithin (size raw + 1) raw

end ServerPoller
