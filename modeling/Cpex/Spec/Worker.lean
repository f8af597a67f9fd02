import Cpex.Native.Worker
import Cpex.ForStd.Trim

/-! # Talking to the worker process

The lines of the worker's output are read independently of the pieces they come in. A response that
is too large fails the request whose id is found in the text that was kept of it, which need not be
its own, and a send that registers behind the reader's last step waits for nothing.
-/

namespace Cpex.PythonHost

/-! ### Bounded lines -/

/-- The lines of a stream. A last line without a newline counts if it is not empty. -/
def byteLines : List UInt8 → List (List UInt8)
  | [] => []
  | b :: bytes =>
    if b = newline then [] :: byteLines bytes
    else match byteLines bytes with
      | [] => [[b]]
      | line :: lines => (b :: line) :: lines

theorem byteLines_of_notMem (h : newline ∉ line) (hne : line ≠ []) :
    byteLines line = [line] := by
  induction line with
  | nil => exact absurd rfl hne
  | cons b line ih =>
    obtain ⟨hb, hline⟩ := not_or.mp (mt List.mem_cons.mpr h)
    rcases line with _ | ⟨c, line⟩
    · simp [byteLines, Ne.symm hb]
    · rw [byteLines, if_neg (Ne.symm hb), ih hline (List.cons_ne_nil c line)]

theorem byteLines_append (h : newline ∉ line) (rest : List UInt8) :
    byteLines (line ++ newline :: rest) = line :: byteLines rest := by
  induction line with
  | nil => simp [byteLines]
  | cons b line ih =>
    obtain ⟨hb, hline⟩ := not_or.mp (mt List.mem_cons.mpr h)
    simp [byteLines, ih hline, Ne.symm hb]

section

variable (lossy : List UInt8 → String) (limit : Nat)

/-- The text that is kept of a line. -/
def keptText (line : List UInt8) : String :=
  let kept := line.take limit
  lossy (if kept.getLast? = some 13 then kept.dropLast else kept)

/-- What becomes of a line. -/
def lineOutcome (line : List UInt8) : BoundedLine :=
  let text := keptText lossy limit line
  if limit < line.length then .oversized text line.length else .line text

namespace LineScan

/-- The state of the loop behind the beginning of a line. -/
def after (line : List UInt8) : LineScan where
  buffer := line.take limit
  scanned := line.length
  «over» := limit < line.length

theorem after_nil : after limit [] = {} := by
  simp [after]

theorem add_after (seen chunk : List UInt8) :
    (after limit seen).add limit chunk = after limit (seen ++ chunk) := by
  unfold add
  by_cases hover : limit < seen.length
  · have hlonger : limit < seen.length + chunk.length := by omega
    simp [after, hover, hlonger, List.take_append_of_le_length (Nat.le_of_lt hover)]
  · have hfits : (seen.take limit).length = seen.length := by rw [List.length_take]; omega
    simp [after, hover, List.take_append, hfits]

theorem outcome_after : (after limit line).outcome lossy = lineOutcome lossy limit line := by
  by_cases h : limit < line.length <;> simp [outcome, after, lineOutcome, keptText, h]

theorem exists_after (chunks : List (List UInt8)) :
    ∃ line, chunks.foldl (add limit) {} = after limit line := by
  refine List.foldlRecOn (motive := fun st => ∃ line, st = after limit line) chunks _
    ⟨[], (after_nil limit).symm⟩ ?_
  rintro _ ⟨line, rfl⟩ chunk _
  exact ⟨line ++ chunk, add_after limit line chunk⟩

end LineScan

variable {fills : List (List UInt8)}

/-- From the middle of a line, the loop reads the rest of it, unless there is nothing left. -/
theorem readLoop_after (hfills : ∀ fill ∈ fills, fill ≠ []) (hseen : newline ∉ seen) :
    (byteLines (seen ++ fills.flatten) = [] ∧
      readLoop lossy limit fills (.after limit seen) = (.eof, [])) ∨
    ∃ line fills', byteLines (seen ++ fills.flatten) = line :: byteLines fills'.flatten ∧
      readLoop lossy limit fills (.after limit seen) = (lineOutcome lossy limit line, fills') ∧
      fills'.flatten.length < (seen ++ fills.flatten).length ∧ ∀ fill ∈ fills', fill ≠ [] := by
  induction fills generalizing seen with
  | nil =>
    rw [readLoop, LineScan.outcome_after, List.flatten_nil, List.append_nil]
    rcases eq_or_ne seen [] with rfl | hne
    · exact .inl ⟨rfl, rfl⟩
    · have hpos : 0 < (LineScan.after limit seen).scanned := List.length_pos_iff.mpr hne
      rw [if_neg (Nat.ne_of_gt hpos)]
      exact .inr ⟨seen, [], byteLines_of_notMem hseen hne, rfl, hpos, hfills⟩
  | cons available fills ih =>
    obtain ⟨-, hrest⟩ := List.forall_mem_cons.mp hfills
    rw [readLoop, List.flatten_cons]
    by_cases hmem : newline ∈ available
    · obtain ⟨chunk, rest, rfl, hchunk⟩ := List.eq_append_cons_of_mem hmem
      have hrun : ∀ b ∈ chunk, decide (b ≠ newline) = true := fun b hb =>
        decide_eq_true (ne_of_mem_of_not_mem hb hchunk)
      have hleft : (if rest = [] then fills else rest :: fills).flatten =
          rest ++ fills.flatten := by
        split
        · next hempty => rw [hempty]; rfl
        · rfl
      rw [List.takeWhile_append_of_head hrun (by simp),
        List.dropWhile_append_of_head hrun (by simp)]
      rw [LineScan.add_after, LineScan.outcome_after]
      refine .inr ⟨_, _, ?_, rfl, ?_, ?_⟩
      · rw [hleft, ← byteLines_append (by simp [hseen, hchunk])]
        simp
      · simp [hleft]
        omega
      · split
        · exact hrest
        · next hne => exact List.forall_mem_cons.mpr ⟨hne, hrest⟩
    · -- The line goes on behind these bytes.
      have hnone : available.dropWhile (· ≠ newline) = [] :=
        List.dropWhile_eq_nil_iff.mpr fun b hb => decide_eq_true (ne_of_mem_of_not_mem hb hmem)
      rw [hnone]
      dsimp only
      rw [LineScan.add_after, ← List.append_assoc]
      exact ih hrest (by simp [hseen, hmem])

theorem readLines_eq (hfills : ∀ fill ∈ fills, fill ≠ []) (hfuel : fills.flatten.length < fuel) :
    readLines lossy limit fuel fills = (byteLines fills.flatten).map (lineOutcome lossy limit) := by
  induction fuel generalizing fills with
  | zero => omega
  | succ fuel ih =>
    rw [readLines, readBoundedLine, ← LineScan.after_nil limit]
    rcases readLoop_after lossy limit hfills List.not_mem_nil with
      ⟨hlines, hread⟩ | ⟨line, fills', hlines, hread, hlt, hfills'⟩
    · rw [hread, ← List.nil_append fills.flatten, hlines]
      rfl
    · rw [List.nil_append] at hlines hlt
      rw [hread, hlines, List.map_cons, ← ih hfills' (by omega)]
      by_cases hlong : limit < line.length <;> simp [lineOutcome, hlong]

/-- Whatever pieces a stream comes in, its lines are read one after the other, each on its own, and
    no more than `limit` bytes of a line are ever kept. -/
theorem readLines_lines (hfills : ∀ fill ∈ fills, fill ≠ []) {fuel : Nat}
    (hfuel : fills.flatten.length < fuel) (chunks : List (List UInt8)) :
    readLines lossy limit fuel fills =
      (byteLines fills.flatten).map (lineOutcome lossy limit) ∧
    (chunks.foldl (LineScan.add limit) {}).buffer.length ≤ limit := by
  refine ⟨readLines_eq lossy limit hfills hfuel, ?_⟩
  obtain ⟨line, hline⟩ := LineScan.exists_after limit chunks
  rw [hline]
  exact List.length_take_le limit line

end

theorem readLines_two_pieces :
    readLines (fun _ => "") 2 9 [[97, 98, 99], [10, 97]] =
      [.oversized "" 3, .line ""] :=
  (readLines_lines (fun _ => "") 2 (by decide) (by decide) []).1

/-! ### Responses -/

/-- `rest` is what stands behind the first `p` of the text. -/
def BehindFirst (p rest text : List Char) : Prop :=
  ∃ before, text = before ++ p ++ rest ∧
    ∀ before' rest', text = before' ++ p ++ rest' → before.length ≤ before'.length

theorem textAfter_eq_some_iff {p rest : List Char} (hp : p ≠ []) :
    textAfter p text = some rest ↔ BehindFirst p rest text := by
  induction text with
  | nil => simp [textAfter, BehindFirst, hp]
  | cons c cs ih =>
    rw [textAfter]
    split
    · next hfirst =>
      obtain ⟨rest', htext⟩ := List.isPrefixOf_iff_prefix.mp hfirst
      rw [← htext, List.drop_left, Option.some.injEq]
      constructor
      · rintro rfl
        exact ⟨[], rfl, fun _ _ _ => Nat.zero_le _⟩
      · rintro ⟨before, heq, hleast⟩
        obtain rfl := List.eq_nil_of_length_eq_zero (Nat.le_zero.mp (hleast [] rest' rfl))
        exact List.append_cancel_left heq
    · next hfirst =>
      -- An occurrence does not begin here, so it has this character before it.
      have hlater {before rest : List Char} (h : c :: cs = before ++ p ++ rest) :
          ∃ before', before = c :: before' ∧ cs = before' ++ p ++ rest := by
        cases before with
        | nil => exact absurd (List.isPrefixOf_iff_prefix.mpr ⟨rest, h.symm⟩) hfirst
        | cons b before =>
          obtain ⟨rfl, rfl⟩ := List.cons.inj h
          exact ⟨before, rfl, rfl⟩
      rw [ih]
      constructor
      · rintro ⟨before, rfl, hleast⟩
        refine ⟨c :: before, rfl, fun _ rest' h => ?_⟩
        obtain ⟨before', rfl, hcs⟩ := hlater h
        exact Nat.succ_le_succ (hleast before' rest' hcs)
      · rintro ⟨_, h, hleast⟩
        obtain ⟨before, rfl, rfl⟩ := hlater h
        refine ⟨before, rfl, fun before' rest' h => ?_⟩
        exact Nat.le_of_succ_le_succ (hleast (c :: before') rest' (by rw [h]; rfl))

/-- The text in quotes behind the first colon behind the first `"request_id"`. -/
def FirstId (text found : List Char) : Prop :=
  ∃ afterKey afterColon rest, BehindFirst "\"request_id\"".toList afterKey text ∧
    BehindFirst [':'] afterColon afterKey ∧
    BehindFirst ['"'] (found ++ '"' :: rest) afterColon ∧ '"' ∉ found

/-- `request_id_from_prefix` takes the first id, at whatever depth. -/
theorem requestIdFromPrefix_eq_some_iff {text found : String} :
    requestIdFromPrefix text = some found ↔ FirstId text.toList found.toList := by
  simp only [requestIdFromPrefix, Option.bind_eq_bind, Option.bind_eq_some_iff,
    textAfter_eq_some_iff (show "\"request_id\"".toList ≠ [] by decide),
    textAfter_eq_some_iff (List.cons_ne_nil _ [])]
  constructor
  · rintro ⟨afterKey, hkey, afterColon, hcolon, rest, hquote, hfound⟩
    obtain ⟨hmem, hfound⟩ := Option.ite_none_right_eq_some.mp hfound
    obtain ⟨id, rest', rfl, hid⟩ := List.eq_append_cons_of_mem hmem
    rw [List.takeWhile_append_of_head (fun c hc => decide_eq_true (ne_of_mem_of_not_mem hc hid))
      (by simp)] at hfound
    obtain rfl := Option.some.inj hfound
    rw [String.toList_ofList]
    exact ⟨afterKey, afterColon, rest', hkey, hcolon, hquote, hid⟩
  · rintro ⟨afterKey, afterColon, rest, hkey, hcolon, hquote, hid⟩
    refine ⟨afterKey, hkey, afterColon, hcolon, _, hquote, ?_⟩
    rw [if_pos (by simp), List.takeWhile_append_of_head
      (fun c hc => decide_eq_true (ne_of_mem_of_not_mem hc hid)) (by simp), String.ofList_toList]

/-- A line is the text of a JSON object whose `request_id` is pending. Within the limit it answers
    that request. Beyond it, the request fails, alone or with all others, exactly if behind the
    first `"request_id"` of the text that was kept no other pending id stands. If its own stands
    there, it fails alone. -/
theorem readerRound_oversized_iff (fromStr : String → Option Json) (lossy : List UInt8 → String)
    {line : List UInt8} {response : Json} {pending : List String} {id : String}
    (hne : Text.trim (keptText lossy line.length line) ≠ "")
    (hline : fromStr (Text.trim (keptText lossy line.length line)) = some response)
    (hown : response.get "request_id" = some (.string id)) (hid : id ∈ pending) :
    (readerRound fromStr line.length pending (lineOutcome lossy line.length line)).1 =
      [(id, .response response)] ∧
    ∀ limit < line.length,
      let text := (keptText lossy limit line).toList
      let failed := (readerRound fromStr limit pending (lineOutcome lossy limit line)).1
      (((id, .tooLarge line.length limit) ∈ failed ∧
          ((∃ other ∈ failed, other.1 ≠ id) →
            ∀ i ∈ pending, (i, .tooLarge line.length limit) ∈ failed)) ↔
        ∀ found ∈ pending, FirstId text found.toList → found = id) ∧
      (FirstId text id.toList → failed = [(id, .tooLarge line.length limit)]) := by
  constructor
  · simp [lineOutcome, readerRound, hne, hline, hown, Json.asStr, hid]
  intro limit hlong text failed
  have hout : lineOutcome lossy limit line =
      .oversized (keptText lossy limit line) line.length := if_pos hlong
  have hfirst (found : String) : FirstId text found.toList ↔
      requestIdFromPrefix (keptText lossy limit line) = some found :=
    requestIdFromPrefix_eq_some_iff.symm
  simp only [failed, hout, readerRound, hfirst]
  constructor
  · cases requestIdFromPrefix (keptText lossy limit line) with
    | none => simp [hid]
    | some found =>
      by_cases hmem : found ∈ pending
      · simp only [Option.filter, hmem, decide_true, if_true]
        constructor
        · intro h other _ hother
          cases hother
          cases List.mem_singleton.mp h.1
          rfl
        · intro hall
          cases hall found hmem rfl
          simp
      · -- An id that is not pending counts as none.
        have hother (i : String) (hi : i ∈ pending) : found ≠ i := fun h => hmem (h ▸ hi)
        simp +contextual [Option.filter, hmem, hid, hother]
  · intro hfound
    simp [hfound, Option.filter, hid]

/-- A text of bytes that are ASCII characters. -/
def ofAscii (bytes : List UInt8) : String :=
  String.ofList (bytes.map fun b => Char.ofNat b.toNat)

def asciiBytes (s : String) : List UInt8 :=
  s.toList.map fun c => UInt8.ofNat c.toNat

/-- A response with another request's id in a nested value. -/
def nestedResponse : Json :=
  .object [("data", .object [("request_id", .string "r2")]), ("request_id", .string "r1")]

theorem readerRound_own_request :
    (readerRound (fun _ => some nestedResponse) 40 ["r1", "r2"] (lineOutcome ofAscii 40
      (asciiBytes "\x7b\"request_id\":\"r1\",\"data\":\x7b\"request_id\":\"r2\"\x7d\x7d"))).1 =
      [("r1", .tooLarge 46 40)] :=
  ((readerRound_oversized_iff (fun _ => some nestedResponse) ofAscii (by decide) rfl rfl
    (by decide)).2 40 (by decide)).2 (requestIdFromPrefix_eq_some_iff.mp rfl)

/-- The response to `r1`, with the nested id first. Within the limit it answers `r1`, and beyond it
    `r2` fails alone. -/
theorem readerRound_other_request :
    let line := asciiBytes "\x7b\"data\":\x7b\"request_id\":\"r2\"\x7d,\"request_id\":\"r1\"\x7d"
    (readerRound (fun _ => some nestedResponse) 46 ["r1", "r2"] (lineOutcome ofAscii 46 line)).1 =
        [("r1", .response nestedResponse)] ∧
      readerRound (fun _ => some nestedResponse) 40 ["r1", "r2"] (lineOutcome ofAscii 40 line) =
        ([("r2", .tooLarge 46 40)], ["r1"]) := ⟨rfl, rfl⟩

/-! ### Sends and the end of the worker -/

namespace WorkerState

/-- What holds in every state that sends, writer and reader can reach. -/
structure Inv (s : WorkerState) : Prop where
  dead : s.cleared = true → s.alive = false
  late_cleared : ∀ i ∈ s.late, s.cleared = true
  late_of_pending : s.cleared = true → ∀ i ∈ s.pending, i ∈ s.late
  -- Nobody takes a late sender out of the table but its own send.
  pending_of_late : ∀ i ∈ s.late, s.send i = .registered ∨ s.send i = .waiting → i ∈ s.pending

theorem Inv.moveTo {s : WorkerState} (h : s.Inv)
    (hphase : i ∈ s.late → phase = .registered ∨ phase = .waiting → i ∈ s.pending) :
    (s.moveTo i phase).Inv := by
  refine ⟨h.dead, h.late_cleared, h.late_of_pending, ?_⟩
  intro j hj
  rcases eq_or_ne j i with rfl | hne
  · simpa [WorkerState.moveTo] using hphase hj
  · simpa [WorkerState.moveTo, hne] using h.pending_of_late j hj

theorem Inv.giveUp {s : WorkerState} (h : s.Inv) (i : Nat) : (s.giveUp i).Inv := by
  refine ⟨h.dead, h.late_cleared, fun hc j hj => h.late_of_pending hc j (Finset.mem_of_mem_erase hj),
    ?_⟩
  intro j hj
  rcases eq_or_ne j i with rfl | hne
  · simp [WorkerState.giveUp, WorkerState.moveTo]
  · simpa [WorkerState.giveUp, WorkerState.moveTo, hne] using h.pending_of_late j hj

theorem Inv.step {s : WorkerState} (h : s.Inv) (hstep : s.step e = some s') :
    s'.Inv := by
  cases e with
  | check i =>
    obtain ⟨_, ⟨⟩⟩ := Option.ite_none_right_eq_some.mp hstep
    exact h.moveTo (by split <;> simp)
  | register i =>
    obtain ⟨_, ⟨⟩⟩ := Option.ite_none_right_eq_some.mp hstep
    -- From here on `i` is pending, and late if the table was cleared before.
    refine ⟨h.dead, ?_, ?_, ?_⟩
    · grind [WorkerState.moveTo, h.late_cleared]
    · grind [WorkerState.moveTo, h.late_of_pending]
    · dsimp only [WorkerState.moveTo]
      grind [Function.update_apply, h.pending_of_late]
  | enqueue i =>
    obtain ⟨hphase, ⟨⟩⟩ := Option.ite_none_right_eq_some.mp hstep
    split
    · exact h.moveTo fun hlate _ => h.pending_of_late i hlate (.inl hphase)
    · exact h.giveUp i
  | wake i =>
    obtain ⟨_, ⟨⟩⟩ := Option.ite_none_right_eq_some.mp hstep
    exact h.moveTo (by simp)
  | timeOut i =>
    obtain ⟨_, ⟨⟩⟩ := Option.ite_none_right_eq_some.mp hstep
    exact h.giveUp i
  | writeFails =>
    cases hstep
    exact ⟨h.dead, h.late_cleared, h.late_of_pending, h.pending_of_late⟩
  | answer i =>
    obtain ⟨⟨halive, _⟩, ⟨⟩⟩ := Option.ite_none_right_eq_some.mp hstep
    have hopen : s.cleared ≠ true := fun hc => by simp [h.dead hc] at halive
    exact ⟨h.dead, h.late_cleared, fun hc => absurd hc hopen,
      fun j hj => absurd (h.late_cleared j hj) hopen⟩
  | markDead =>
    obtain ⟨_, ⟨⟩⟩ := Option.ite_none_right_eq_some.mp hstep
    exact ⟨fun _ => rfl, h.late_cleared, h.late_of_pending, h.pending_of_late⟩
  | clear =>
    obtain ⟨hopen, ⟨⟩⟩ := Option.ite_none_left_eq_some.mp hstep
    obtain ⟨hdead, hopen⟩ := not_or.mp hopen
    exact ⟨fun _ => Bool.eq_false_of_not_eq_true hdead, fun _ _ => rfl, by simp,
      fun j hj => absurd (h.late_cleared j hj) hopen⟩

theorem inv_of_run {steps : List WorkerStep} (h : s.Inv) (hrun : steps.foldlM step s = some s') :
    s'.Inv := by
  induction steps generalizing s with
  | nil =>
    cases hrun
    exact h
  | cons e steps ih =>
    obtain ⟨mid, hstep, hrest⟩ := Option.bind_eq_some_iff.mp hrun
    exact ih (h.step hstep) hrest

/-- Whatever order the steps come in, a send waits for a reply that nobody will send exactly if it
    registered when the reader had ended already and the writer took its line. Every other send
    that still waits then finds its sender dropped. -/
theorem stuck_iff_late {steps : List WorkerStep} {s : WorkerState}
    (hrun : steps.foldlM step {} = some s) (i : Nat) :
    (s.Stuck i ↔ s.send i = .waiting ∧ i ∈ s.late) ∧
      (s.cleared = true → s.send i = .waiting → i ∉ s.late →
        s.step (.wake i) = some (s.moveTo i .returned)) := by
  have hinit : Inv {} := ⟨by simp, by simp, by simp, by simp⟩
  have h := inv_of_run hinit hrun
  constructor
  · constructor
    · rintro ⟨hcleared, hwaiting, hpending⟩
      exact ⟨hwaiting, h.late_of_pending hcleared i hpending⟩
    · rintro ⟨hwaiting, hlate⟩
      exact ⟨h.late_cleared i hlate, hwaiting, h.pending_of_late i hlate (.inr hwaiting)⟩
  · intro hcleared hwaiting hlate
    exact if_pos ⟨hwaiting, mt (h.late_of_pending hcleared i) hlate⟩

/-- A send that has checked the flag before the reader marks the worker dead. -/
theorem stuck_after_check :
    ∃ s, [.check 0, .markDead, .clear, .register 0, .enqueue 0].foldlM step {} = some s ∧
      s.Stuck 0 :=
  ⟨_, rfl, rfl, rfl, by decide⟩

theorem not_stuck_before_clear :
    ∃ s, [.check 0, .register 0, .enqueue 0, .markDead, .clear].foldlM step {} = some s ∧
      s.step (.wake 0) = some (s.moveTo 0 .returned) := by
  refine ⟨_, rfl, ?_⟩
  apply (stuck_iff_late (by rfl : [.check 0, .register 0, .enqueue 0, .markDead, .clear].foldlM
    step {} = some _) 0).2 rfl rfl
  decide

/-- The send is under way if its sender is in the table. -/
def Held (s : WorkerState) (i : Nat) : Prop :=
  i ∈ s.pending → s.send i = .registered ∨ s.send i = .waiting

theorem Held.step {s : WorkerState} (h : s.Held j) (hstep : s.step e = some s') : s'.Held j := by
  unfold Held at *
  cases e with
  | enqueue i =>
    obtain ⟨hphase, ⟨⟩⟩ := Option.ite_none_right_eq_some.mp hstep
    split <;> dsimp only [WorkerState.moveTo, WorkerState.giveUp] <;>
      grind [Function.update_apply]
  | writeFails =>
    cases hstep
    exact h
  | clear =>
    obtain ⟨hopen, ⟨⟩⟩ := Option.ite_none_left_eq_some.mp hstep
    simp
  | _ =>
    obtain ⟨hphase, ⟨⟩⟩ := Option.ite_none_right_eq_some.mp hstep
    dsimp only [WorkerState.moveTo, WorkerState.giveUp]
    grind [Function.update_apply]

/-- Whatever order the steps come in, the table holds senders only of sends that are under way: a
    reply never goes to a send that has returned, and none of them leaves anything behind. -/
theorem pending_underWay {steps : List WorkerStep} {s : WorkerState}
    (hrun : steps.foldlM step {} = some s) :
    ∀ i ∈ s.pending, s.send i = .registered ∨ s.send i = .waiting := by
  intro i
  change s.Held i
  induction steps using List.reverseRecOn generalizing s with
  | nil =>
    cases hrun
    simp [Held]
  | append_singleton steps e ih =>
    rw [List.foldlM_append] at hrun
    obtain ⟨mid, hmid, hstep⟩ := Option.bind_eq_some_iff.mp hrun
    exact (ih hmid).step (by simpa using hstep)

theorem pending_underWay_enqueued :
    ∃ s, [.check 0, .register 0, .enqueue 0].foldlM step {} = some s ∧
      ∀ i ∈ s.pending, s.send i = .registered ∨ s.send i = .waiting :=
  ⟨_, rfl, pending_underWay (by rfl : [.check 0, .register 0, .enqueue 0].foldlM step {} = _)⟩

end WorkerState

end Cpex.PythonHost
