import Cpex.Native.Json
import Mathlib.Data.Finset.Erase

/-! # The worker process

`cpex-hosts-python/src/worker.rs`: reading the worker's output line by line, routing the responses,
and the steps of sends, writer and reader that share the table of pending requests.
-/

namespace Cpex.PythonHost

/-! ### Bounded lines -/

/-- `BoundedLine`. -/
inductive BoundedLine where
  | line (text : String)
  | oversized (start : String) (scanned : Nat)
  | eof

def newline : UInt8 := 10

/-- The variables of the loop of `read_bounded_line`. -/
structure LineScan where
  buffer : List UInt8 := []
  scanned : Nat := 0
  «over» : Bool := false

namespace LineScan

/-- A chunk of the line; what does not fit into `limit` bytes is dropped. -/
def add (limit : Nat) (st : LineScan) (chunk : List UInt8) : LineScan :=
  let scanned := st.scanned + chunk.length
  if st.«over» then { st with scanned }
  else
    let room := limit - st.buffer.length
    { buffer := st.buffer ++ chunk.take room, scanned, «over» := limit < scanned }

/-- What stands behind the loop, with `String::from_utf8_lossy` for `lossy`. -/
def outcome (lossy : List UInt8 → String) (st : LineScan) : BoundedLine :=
  -- A carriage return before the newline is not part of the line.
  let text := lossy (if st.buffer.getLast? = some 13 then st.buffer.dropLast else st.buffer)
  if st.«over» then .oversized text st.scanned else .line text

end LineScan

/-- The loop of `read_bounded_line`. The reader is what its `fill_buf` has yet to return, without
    the bytes that were consumed. -/
def readLoop (lossy : List UInt8 → String) (limit : Nat) :
    List (List UInt8) → LineScan → BoundedLine × List (List UInt8)
  | [], st => (if st.scanned = 0 then .eof else st.outcome lossy, [])
  | available :: fills, st =>
    match available.dropWhile (· ≠ newline) with
    | _ :: rest =>
      ((st.add limit (available.takeWhile (· ≠ newline))).outcome lossy,
        if rest = [] then fills else rest :: fills)
    | [] => readLoop lossy limit fills (st.add limit available)

/-- `read_bounded_line`. -/
def readBoundedLine (lossy : List UInt8 → String) (limit : Nat) (fills : List (List UInt8)) :
    BoundedLine × List (List UInt8) :=
  readLoop lossy limit fills {}

/-- Calls of `read_bounded_line` until the end of the input, `fuel` at most. -/
def readLines (lossy : List UInt8 → String) (limit : Nat) :
    Nat → List (List UInt8) → List BoundedLine
  | 0, _ => []
  | fuel + 1, fills =>
    match readBoundedLine lossy limit fills with
    | (.eof, _) => []
    | (outcome, fills) => outcome :: readLines lossy limit fuel fills

/-! ### Responses -/

/-- The text behind the first occurrence of `p`. -/
def textAfter (p : List Char) : List Char → Option (List Char)
  | [] => none
  | c :: cs => if p.isPrefixOf (c :: cs) then some ((c :: cs).drop p.length) else textAfter p cs

/-- `request_id_from_prefix`. -/
def requestIdFromPrefix (start : String) : Option String := do
  let afterKey ← textAfter "\"request_id\"".toList start.toList
  let afterColon ← textAfter [':'] afterKey
  let rest ← textAfter ['"'] afterColon
  -- An id that is cut off has no closing quote.
  if '"' ∈ rest then some (String.ofList (rest.takeWhile (· ≠ '"'))) else none

/-- What a pending request is sent. -/
inductive Reply where
  | response (value : Json)
  | tooLarge (size limit : Nat)

/-- A round of `reader_loop`: the requests that are answered, and those that stay pending.
    `fromStr` is `serde_json::from_str`. -/
def readerRound (fromStr : String → Option Json) (limit : Nat) (pending : List String) :
    BoundedLine → List (String × Reply) × List String
  | .line text =>
    let line := Text.trim text
    let answered := do
      let response ← if line = "" then none else fromStr line
      let id ← (← response.get "request_id").asStr
      if id ∈ pending then some (id, response) else none
    match answered with
    | some (id, response) => ([(id, .response response)], pending.erase id)
    | none => ([], pending)
  | .oversized start scanned =>
    match (requestIdFromPrefix start).filter (· ∈ pending) with
    | some id => ([(id, .tooLarge scanned limit)], pending.erase id)
    -- Without an id that is pending, every request fails.
    | none => (pending.map (·, .tooLarge scanned limit), [])
  | .eof => ([], pending)

/-! ### Sends and the end of the worker -/

/-- Where a `send_task` is. -/
inductive SendPhase where
  | idle | checked | registered | waiting | returned
  deriving DecidableEq

/-- What the tasks of a client share, and where its sends are. -/
structure WorkerState where
  alive : Bool := true
  /-- The reader has cleared the table and ended. -/
  cleared : Bool := false
  /-- The writer takes lines. -/
  accepting : Bool := true
  pending : Finset Nat := ∅
  send : Nat → SendPhase := fun _ => .idle
  /-- The sends that registered when the reader had ended. No step depends on it. -/
  late : Finset Nat := ∅

/-- The atomic steps of sends, writer and reader. -/
inductive WorkerStep where
  | check (i : Nat)
  | register (i : Nat)
  | enqueue (i : Nat)
  | wake (i : Nat)
  | timeOut (i : Nat)
  | writeFails
  | answer (i : Nat)
  | markDead
  | clear

namespace WorkerState

def moveTo (s : WorkerState) (i : Nat) (phase : SendPhase) : WorkerState :=
  { s with send := Function.update s.send i phase }

/-- The `send_task` `i` returns, and its sender is not in the table any more. -/
def giveUp (s : WorkerState) (i : Nat) : WorkerState :=
  { s.moveTo i .returned with pending := s.pending.erase i }

/-- A step, where it is possible. -/
def step (s : WorkerState) : WorkerStep → Option WorkerState
  | .check i =>
    if s.send i = .idle then some (s.moveTo i (if s.alive then .checked else .returned)) else none
  | .register i =>
    if s.send i = .checked then
      some { s.moveTo i .registered with
        pending := insert i s.pending, late := if s.cleared then insert i s.late else s.late }
    else none
  | .enqueue i =>
    if s.send i = .registered then
      some (if s.accepting then s.moveTo i .waiting else s.giveUp i)
    else none
  -- The sender was used, or dropped.
  | .wake i =>
    if s.send i = .waiting ∧ i ∉ s.pending then some (s.moveTo i .returned) else none
  | .timeOut i => if s.send i = .waiting then some (s.giveUp i) else none
  | .writeFails => some { s with accepting := false }
  | .answer i =>
    if s.alive ∧ i ∈ s.pending then some { s with pending := s.pending.erase i } else none
  | .markDead => if s.alive then some { s with alive := false } else none
  | .clear =>
    if s.alive ∨ s.cleared then none else some { s with pending := ∅, cleared := true }

/-- The send waits for a reply that nobody will send. -/
def Stuck (s : WorkerState) (i : Nat) : Prop :=
  s.cleared = true ∧ s.send i = .waiting ∧ i ∈ s.pending

end WorkerState

end Cpex.PythonHost
