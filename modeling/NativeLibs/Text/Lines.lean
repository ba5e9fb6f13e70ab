/-
This file embeds the four functions that read lines: `for_each_line` and
`read_line` of `common/utils.cpp`, which work on a text in memory, and those of
`common/file.cpp`, which work on a file. The latter see the contents in the
pieces that `read` gives them and carry an unfinished line from one piece to the
next.

All of them are compared with a scan over the letters. The iterations report the
lines that end, each trimmed and with its position, and differ in what they do
with the last line, which does not end: in memory it is reported unless it is
empty. In a file the size decides, and the comparison with it leaves out a line
of one letter and takes an empty file for one with a line.
-/

import NativeLibs.Library.Lines
import NativeLibs.Text.Split

namespace NativeLibs

open Library

/-! ### Calls of an action -/

/-- `LineAction`: a function of a position, a line and the user argument, which it may change. It
returns whether to go on. -/
abbrev LineAction (Arg : Type) := UInt32 → Bytes → Arg → Bool × Arg

/-- The user argument, and the calls that were made. -/
structure Visits (Arg : Type) where
  arg : Arg
  calls : List (UInt32 × Bytes) := []

variable {Arg : Type}

/-- A call of the action. A position becomes an `uint32_t`. -/
def Visits.call (visits : Visits Arg) (action : LineAction Arg) (position : Nat) (line : Bytes) :
    Bool × Visits Arg :=
  let (goesOn, arg) := action (UInt32.ofNat position) line visits.arg
  (goesOn, ⟨arg, visits.calls ++ [(UInt32.ofNat position, line)]⟩)

/-- `"\r\n"` as a set of characters. -/
def isLineEnd (byte : UInt8) : Bool := byte = 13 || byte = 10

/-! ### Lines in memory -/

/-- The loop of `utils::for_each_line`, with a bound on the number of rounds. -/
def forEachLineLoop (action : LineAction Arg) (str : Bytes) :
    Nat → Nat → Visits Arg → Visits Arg
  | 0, _, visits => visits
  | rounds + 1, start, visits =>
    if start = str.length then visits
    else
      match findFirstOfFrom str crlf start with
      | none => (visits.call action start (trim (str.drop start))).2
      | some stop =>
        let len := stop - start
        let (goesOn, visits) := visits.call action start (trim ((str.drop start).take len))
        if goesOn then forEachLineLoop action str rounds (start + (len + 1)) visits else visits

/-- `utils::for_each_line`. -/
def forEachLine (str : Bytes) (action : LineAction Arg) (arg : Arg) : Visits Arg :=
  forEachLineLoop action str (str.length + 1) 0 { arg }

/-- `utils::read_line`. -/
def readLine (str : Bytes) (pos : Nat) : Option Bytes :=
  if str.length ≤ pos then none
  else
    let stop := (findFirstOfFrom str crlf pos).getD str.length
    some (trim ((str.drop pos).take (stop - pos)))

/-! ### Lines in a file -/

namespace File

/-- The variables of `file::for_each_line`. -/
structure LineState (Arg : Type) where
  line : Bytes := []
  fileIdx : Nat := 0
  lineIdx : Nat := 0
  visits : Visits Arg

/-- The loop over a chunk, with whether it came to the end. -/
def chunkLoop (action : LineAction Arg) : Nat → Bytes → LineState Arg → Bool × LineState Arg
  | _, [], state => (true, state)
  | i, c :: rest, state =>
    if c ≠ 13 ∧ c ≠ 10 then
      chunkLoop action (i + 1) rest { state with line := state.line ++ [c] }
    else
      let (goesOn, visits) := state.visits.call action state.lineIdx (trim state.line)
      if goesOn then
        chunkLoop action (i + 1) rest
          { state with line := [], lineIdx := state.fileIdx + i + 1, visits }
      else (false, { state with visits })

/-- The loop over what `read` gives: bytes, no bytes at the end of the file, or nothing when it
fails. It returns what the last `read` returned if the action has not stopped it. -/
def readLoop (action : LineAction Arg) : List (Option Bytes) → LineState Arg →
    Option Int × LineState Arg
  | [], state => (some 0, state)
  | none :: _, state => (some (-1), state)
  | some chunk :: rest, state =>
    if chunk.isEmpty then (some 0, state)
    else
      match chunkLoop action 0 chunk state with
      | (false, state) => (none, state)
      | (true, state) =>
        readLoop action rest { state with fileIdx := state.fileIdx + chunk.length }

/-- `file::for_each_line`, with what `get_size` and the calls of `read` return. -/
def forEachLine (fileSize : Int) (reads : List (Option Bytes)) (action : LineAction Arg)
    (arg : Arg) : Int × Visits Arg :=
  if fileSize < 0 then (-1, { arg })
  else
    match readLoop action reads { visits := { arg } } with
    | (none, state) => (0, state.visits)
    | (some r, state) =>
      -- the size is one less as an unsigned number, so it is the largest one for an empty file
      let visits :=
        if state.lineIdx < ((fileSize - 1) % 2 ^ 64).toNat then
          (state.visits.call action state.lineIdx (trim state.line)).2
        else state.visits
      (if r < 0 then -1 else 0, visits)

/-- The loop of `file::read_line`. -/
def readLineLoop : List (Option Bytes) → Bytes → Bytes
  | [], line => line
  | none :: _, line => line
  | some chunk :: rest, line =>
    if chunk.isEmpty then line
    else
      match findFirstOf chunk crlf with
      | some i => line ++ chunk.take i
      | none => readLineLoop rest (line ++ chunk)

/-- `file::read_line`, with what `set_position` and the calls of `read` after it return. -/
def readLine (setPosition : Int) (reads : List (Option Bytes)) : Option Bytes :=
  if setPosition < 0 then none else some (trim (readLineLoop reads []))

end File

/-! ### Calls for the lines of a scan -/

/-- The action is called for some lines, until it does not go on. -/
def visitAll (action : LineAction Arg) : List (Nat × Bytes) → Visits Arg → Bool × Visits Arg
  | [], visits => (true, visits)
  | (position, line) :: rest, visits =>
    let (goesOn, visits) := visits.call action position (trim line)
    if goesOn then visitAll action rest visits else (false, visits)

variable {action : LineAction Arg}

theorem visitAll_append (first second : List (Nat × Bytes)) (visits : Visits Arg) :
    visitAll action (first ++ second) visits =
      if (visitAll action first visits).1 then
        visitAll action second (visitAll action first visits).2
      else visitAll action first visits := by
  induction first generalizing visits with
  | nil => rfl
  | cons line first inductionHypothesis =>
    rw [List.cons_append, visitAll, visitAll]
    simp only [inductionHypothesis]
    split
    · rfl
    · rfl

theorem visitAll_singleton (line : Nat × Bytes) (visits : Visits Arg) :
    (visitAll action [line] visits).2 = (visits.call action line.1 (trim line.2)).2 := by
  simp only [visitAll]
  split
  · rfl
  · rfl

theorem mem_calls_visitAll {lines : List (Nat × Bytes)} {visits : Visits Arg}
    {call : UInt32 × Bytes} (member : call ∈ (visitAll action lines visits).2.calls) :
    call ∈ visits.calls ∨ ∃ line ∈ lines, call = (UInt32.ofNat line.1, trim line.2) := by
  induction lines generalizing visits with
  | nil => exact .inl member
  | cons line lines inductionHypothesis =>
    have now : call ∈ (visits.call action line.1 (trim line.2)).2.calls →
        call ∈ visits.calls ∨
          ∃ other ∈ line :: lines, call = (UInt32.ofNat other.1, trim other.2) := by
      intro there
      rcases List.mem_append.mp there with before | here
      · exact .inl before
      · exact .inr ⟨line, List.mem_cons_self, List.mem_singleton.mp here⟩
    simp only [visitAll] at member
    split at member
    · rcases inductionHypothesis member with before | ⟨other, later, same⟩
      · exact now before
      · exact .inr ⟨other, List.mem_cons_of_mem _ later, same⟩
    · exact now member

theorem calls_visitAll (always : ∀ position line arg, (action position line arg).1 = true)
    (lines : List (Nat × Bytes)) (visits : Visits Arg) :
    (visitAll action lines visits).2.calls =
      visits.calls ++ lines.map fun line => (UInt32.ofNat line.1, trim line.2) := by
  induction lines generalizing visits with
  | nil => exact (List.append_nil _).symm
  | cons line lines inductionHypothesis =>
    have goesOn : (visits.call action line.1 (trim line.2)).1 = true := always _ _ _
    simp only [visitAll]
    rw [goesOn, if_pos rfl, inductionHypothesis, List.map_cons]
    exact List.append_assoc _ _ _

/-! ### The readers and the scan -/

theorem findFirstOf_crlf (text : Bytes) :
    (findFirstOf text crlf = none ∧ ∀ byte ∈ text, isLineEnd byte = false) ∨
      ∃ line stop rest, text = line ++ stop :: rest ∧ (∀ byte ∈ line, isLineEnd byte = false) ∧
        isLineEnd stop = true ∧ findFirstOf text crlf = some line.length := by
  induction text with
  | nil => exact .inl ⟨rfl, List.forall_mem_nil _⟩
  | cons byte text inductionHypothesis =>
    have same : crlf.contains byte = isLineEnd byte := by
      simp [crlf, isLineEnd]
    unfold findFirstOf at inductionHypothesis ⊢
    rw [List.findIdx?_cons, same]
    by_cases here : isLineEnd byte = true
    · exact .inr ⟨[], byte, text, rfl, List.forall_mem_nil _, here, if_pos here⟩
    · rw [if_neg here]
      have inside : isLineEnd byte = false := Bool.eq_false_iff.mpr here
      rcases inductionHypothesis with
        ⟨absent, within⟩ | ⟨line, stop, rest, rfl, within, ends, found⟩
      · rw [absent]
        exact .inl ⟨rfl, List.forall_mem_cons.mpr ⟨inside, within⟩⟩
      · rw [found]
        exact .inr ⟨byte :: line, stop, rest, rfl, List.forall_mem_cons.mpr ⟨inside, within⟩, ends,
          rfl⟩

/-- The lines that are reported in memory. -/
def reportedLines (position : Nat) (text : Bytes) : List (Nat × Bytes) :=
  let (ended, last) := scanLines isLineEnd (position, []) text
  ended ++ if last.2 = [] then [] else [last]

theorem reportedLines_of_line (position : Nat) {line : Bytes} {stop : UInt8} (rest : Bytes)
    (within : ∀ byte ∈ line, isLineEnd byte = false) (ends : isLineEnd stop = true) :
    reportedLines position (line ++ stop :: rest) =
      (position, line) :: reportedLines (position + (line.length + 1)) rest := by
  rw [reportedLines, scanLines_of_line position within ends]
  rfl

theorem forEachLineLoop_eq (rounds : Nat) (before text : Bytes) (visits : Visits Arg)
    (enough : text.length < rounds) :
    forEachLineLoop action (before ++ text) rounds before.length visits =
      (visitAll action (reportedLines before.length text) visits).2 := by
  induction rounds generalizing before text visits with
  | zero => exact absurd enough (Nat.not_lt_zero _)
  | succ rounds inductionHypothesis =>
    rw [forEachLineLoop, findFirstOfFrom, List.drop_left]
    by_cases empty : text = []
    · subst empty
      rw [List.append_nil, if_pos rfl]
      rfl
    · have inside : ¬before.length = (before ++ text).length := by
        rw [List.length_append]
        have positive := List.length_pos_of_ne_nil empty
        omega
      rw [if_neg inside]
      rcases findFirstOf_crlf text with
        ⟨absent, within⟩ | ⟨line, stop, rest, rfl, within, ends, found⟩
      · rw [absent, reportedLines, scanLines_of_none _ _ within]
        simp only [List.nil_append, if_neg empty, Option.map_none]
        exact (visitAll_singleton (before.length, text) visits).symm
      · have whole : before ++ (line ++ [stop]) ++ rest = before ++ (line ++ stop :: rest) := by
          simp
        have length : (before ++ (line ++ [stop])).length = before.length + (line.length + 1) := by
          simp
        have shorter : rest.length < rounds := by
          rw [List.length_append, List.length_cons] at enough
          omega
        have later : ∀ visits, forEachLineLoop action (before ++ (line ++ stop :: rest)) rounds
            (before.length + (line.length + 1)) visits =
            (visitAll action (reportedLines (before.length + (line.length + 1)) rest)
              visits).2 := by
          intro visits
          have next := inductionHypothesis (before ++ (line ++ [stop])) rest visits shorter
          rwa [whole, length] at next
        rw [found, reportedLines_of_line _ _ within ends, visitAll]
        simp only [Option.map_some, Nat.add_sub_cancel_left, List.take_left, later]
        split
        · rfl
        · rfl

/-- `utils::for_each_line` calls the action for the lines of the scan. -/
theorem forEachLine_eq (str : Bytes) (arg : Arg) :
    forEachLine str action arg = (visitAll action (reportedLines 0 str) { arg }).2 :=
  forEachLineLoop_eq (str.length + 1) [] str { arg } (Nat.lt_succ_self _)

/-- `utils::read_line` gives what stands before the next line end. -/
theorem readLine_eq {str : Bytes} {pos : Nat} (inside : pos < str.length) :
    readLine str pos = some (trim ((str.drop pos).takeWhile fun byte => !isLineEnd byte)) := by
  rw [readLine, if_neg (not_le.mpr inside), findFirstOfFrom]
  rcases findFirstOf_crlf (str.drop pos) with
    ⟨absent, within⟩ | ⟨line, stop, rest, split, within, ends, found⟩
  · have whole := takeWhile_line within (.inl rfl)
    rw [List.append_nil] at whole
    simp only [absent, whole, Option.map_none, Option.getD_none]
    rw [← List.length_drop, List.take_length]
  · rw [found, split, takeWhile_line within (.inr ⟨stop, rest, rfl, ends⟩)]
    simp only [Option.map_some, Option.getD_some, Nat.add_sub_cancel_left, List.take_left]

namespace File

theorem not_isLineEnd_iff (byte : UInt8) : byte ≠ 13 ∧ byte ≠ 10 ↔ isLineEnd byte = false := by
  simp [isLineEnd]

/-- The loop over a chunk calls the action for the lines that end in it. If that goes on to the
end, it keeps the line that has begun. -/
theorem chunkLoop_eq (action : LineAction Arg) (i : Nat) (chunk : Bytes) (state : LineState Arg)
    {ended : List (Nat × Bytes)} {last : Nat × Bytes}
    (consistent : state.fileIdx + i = state.lineIdx + state.line.length)
    (scanned : scanLines isLineEnd (state.lineIdx, state.line) chunk = (ended, last)) :
    (chunkLoop action i chunk state).1 = (visitAll action ended state.visits).1 ∧
      (chunkLoop action i chunk state).2.visits = (visitAll action ended state.visits).2 ∧
      ((visitAll action ended state.visits).1 = true →
        (chunkLoop action i chunk state).2 =
          ⟨last.2, state.fileIdx, last.1, (visitAll action ended state.visits).2⟩) := by
  induction chunk generalizing i state ended with
  | nil =>
    cases scanned
    exact ⟨rfl, rfl, fun _ => rfl⟩
  | cons byte chunk inductionHypothesis =>
    rw [scanLines] at scanned
    by_cases ends : isLineEnd byte = true
    · have notInside : ¬(byte ≠ 13 ∧ byte ≠ 10) := by
        rw [not_isLineEnd_iff, ends]
        exact Bool.noConfusion
      rw [if_pos ends] at scanned
      obtain ⟨rfl, rfl⟩ := Prod.ext_iff.mp scanned
      rw [chunkLoop, if_neg notInside, visitAll]
      by_cases goesOn : (state.visits.call action state.lineIdx (trim state.line)).1 = true
      · have later := inductionHypothesis (i + 1) { state with
            line := []
            lineIdx := state.fileIdx + i + 1
            visits := (state.visits.call action state.lineIdx (trim state.line)).2 }
          (by simp only [List.length_nil]; omega) (by rw [consistent])
        simp only [if_pos goesOn]
        exact later
      · simp only [if_neg goesOn]
        exact ⟨trivial, trivial, fun impossible => absurd impossible Bool.false_ne_true⟩
    · have inside : byte ≠ 13 ∧ byte ≠ 10 :=
        (not_isLineEnd_iff byte).mpr (Bool.eq_false_iff.mpr ends)
      rw [if_neg ends] at scanned
      rw [chunkLoop, if_pos inside]
      refine inductionHypothesis (i + 1) _ ?_ scanned
      simp only [List.length_append, List.length_singleton]
      omega

/-- The loop over the chunks calls the action for the lines that end in the text, however that is
cut. -/
theorem readLoop_eq (chunks : List Bytes) (nonempty : ∀ chunk ∈ chunks, chunk ≠ [])
    (state : LineState Arg) {ended : List (Nat × Bytes)} {last : Nat × Bytes}
    (consistent : state.fileIdx = state.lineIdx + state.line.length)
    (scanned : scanLines isLineEnd (state.lineIdx, state.line) chunks.flatten = (ended, last)) :
    (readLoop action (chunks.map some) state).2.visits = (visitAll action ended state.visits).2 ∧
      if (visitAll action ended state.visits).1 then
        (readLoop action (chunks.map some) state).1 = some 0 ∧
          (readLoop action (chunks.map some) state).2.line = last.2 ∧
          (readLoop action (chunks.map some) state).2.lineIdx = last.1
      else (readLoop action (chunks.map some) state).1 = none := by
  induction chunks generalizing state ended with
  | nil =>
    cases scanned
    exact ⟨rfl, rfl, rfl, rfl⟩
  | cons chunk chunks inductionHypothesis =>
    rw [List.forall_mem_cons] at nonempty
    obtain ⟨begun, middle, chunkScanned⟩ : ∃ begun middle,
        scanLines isLineEnd (state.lineIdx, state.line) chunk = (begun, middle) := ⟨_, _, rfl⟩
    have length := scanLines_length chunkScanned
    obtain ⟨goesOn, visits, kept⟩ := chunkLoop_eq action 0 chunk state consistent chunkScanned
    rw [List.flatten_cons, scanLines_append, chunkScanned] at scanned
    obtain ⟨rfl, rfl⟩ := Prod.ext_iff.mp scanned
    rw [List.map_cons, readLoop, if_neg (by simpa using nonempty.1), visitAll_append, ← goesOn]
    cases looped : chunkLoop action 0 chunk state with
    | mk continues next =>
      rw [looped] at goesOn visits kept
      cases continues with
      | false =>
        rw [if_neg Bool.false_ne_true]
        exact ⟨visits, by rw [← goesOn]; rfl⟩
      | true =>
        obtain rfl : next = _ := kept goesOn.symm
        rw [if_pos rfl]
        exact inductionHypothesis nonempty.2 ⟨middle.2, state.fileIdx + chunk.length, middle.1,
          (visitAll action begun state.visits).2⟩ (by rw [consistent]; exact length.symm) rfl

/-- The lines that are reported of a file. -/
def reportedLines (text : Bytes) : List (Nat × Bytes) :=
  let (ended, last) := scanLines isLineEnd (0, []) text
  ended ++ if text = [] ∨ 2 ≤ last.2.length then [last] else []

theorem lineIdx_lt_iff {text : Bytes} {lineIdx length : Nat}
    (total : lineIdx + length = text.length) (small : text.length < 2 ^ 32) :
    lineIdx < (((text.length : Int) - 1) % 2 ^ 64).toNat ↔ text = [] ∨ 2 ≤ length := by
  rw [← List.length_eq_zero_iff]
  omega

/-- `file::for_each_line` calls the action for the lines of the scan. -/
theorem forEachLine_eq (action : LineAction Arg) (chunks : List Bytes)
    (nonempty : ∀ chunk ∈ chunks, chunk ≠ []) (small : chunks.flatten.length < 2 ^ 32) (arg : Arg) :
    forEachLine chunks.flatten.length (chunks.map some) action arg =
      (0, (visitAll action (reportedLines chunks.flatten) { arg }).2) := by
  obtain ⟨ended, last, scanned⟩ : ∃ ended last,
      scanLines isLineEnd (0, []) chunks.flatten = (ended, last) := ⟨_, _, rfl⟩
  have total := scanLines_length scanned
  rw [List.length_nil, Nat.zero_add] at total
  have compared := lineIdx_lt_iff total small
  obtain ⟨visits, outcome⟩ :=
    readLoop_eq chunks nonempty { visits := ({ arg } : Visits Arg) } rfl scanned
  rw [forEachLine, if_neg (not_lt.mpr (Int.natCast_nonneg _)), reportedLines, scanned]
  simp only [visitAll_append]
  cases ran : readLoop action (chunks.map some) { visits := ({ arg } : Visits Arg) } with
  | mk result state =>
    rw [ran] at visits outcome
    simp only at visits outcome
    by_cases goesOn : (visitAll action ended { arg }).1 = true
    · rw [if_pos goesOn] at outcome ⊢
      obtain ⟨rfl, line, lineIdx⟩ := outcome
      simp only [lineIdx, line, visits, compared, if_neg (lt_irrefl (0 : Int))]
      refine congrArg (Prod.mk 0) ?_
      split
      · exact (visitAll_singleton last _).symm
      · rfl
    · rw [if_neg goesOn] at outcome ⊢
      obtain rfl := outcome
      exact congrArg (Prod.mk 0) visits

/-- `file::read_line` gives what stands before the next line end, however the text is cut. -/
theorem readLineLoop_eq (chunks : List Bytes) (nonempty : ∀ chunk ∈ chunks, chunk ≠ [])
    (line : Bytes) :
    readLineLoop (chunks.map some) line =
      line ++ chunks.flatten.takeWhile fun byte => !isLineEnd byte := by
  induction chunks generalizing line with
  | nil => exact (List.append_nil line).symm
  | cons chunk chunks inductionHypothesis =>
    rw [List.forall_mem_cons] at nonempty
    rw [List.map_cons, readLineLoop, if_neg (by simpa using nonempty.1), List.flatten_cons]
    rcases findFirstOf_crlf chunk with
      ⟨absent, within⟩ | ⟨start, stop, rest, rfl, within, ends, found⟩
    · have whole : ∀ byte ∈ chunk, (!isLineEnd byte) = true := fun byte member => by
        rw [within byte member]
        rfl
      simp only [absent]
      rw [inductionHypothesis nonempty.2, List.takeWhile_append_of_pos whole, List.append_assoc]
    · have stops := takeWhile_line within (.inr ⟨stop, rest ++ chunks.flatten, rfl, ends⟩)
      simp only [found]
      rw [List.append_assoc, List.cons_append, stops, List.take_left]

end File

/-! ### The readers beside each other -/

/-- A text is cut into pieces, of which none is empty. -/
structure Cut (text : Bytes) (chunks : List Bytes) : Prop where
  whole : chunks.flatten = text
  nonempty : ∀ chunk ∈ chunks, chunk ≠ []

theorem map_ite_singleton_eq_iff {Line Call : Type} (toCall : Line → Call) (last : Line)
    (reported left : Prop) [Decidable reported] [Decidable left] :
    (if reported then [last] else []).map toCall = (if left then [] else [last]).map toCall ↔
      (reported ↔ ¬left) := by
  by_cases isReported : reported
  · by_cases isLeft : left
    · simp [isReported, isLeft]
    · simp [isReported, isLeft]
  · by_cases isLeft : left
    · simp [isReported, isLeft]
    · simp [isReported, isLeft]

/-- For every text, every way to cut it and every action that never stops the iteration: both
iterations make the same calls exactly if the text is not empty and does not end with a line of one
letter that has no line end. -/
theorem forEachLine_agree_iff (content : Bytes) (small : content.length < 2 ^ 32)
    (chunks : List Bytes) (cut : Cut content chunks) (action : LineAction Arg)
    (always : ∀ position line arg, (action position line arg).1 = true) (arg : Arg) :
    (File.forEachLine content.length (chunks.map some) action arg).2.calls =
        (forEachLine content action arg).calls ↔
      content ≠ [] ∧ (content.rtakeWhile fun byte => !isLineEnd byte).length ≠ 1 := by
  obtain ⟨rfl, nonempty⟩ := cut
  obtain ⟨ended, last, scanned⟩ : ∃ ended last,
      scanLines isLineEnd (0, []) chunks.flatten = (ended, last) := ⟨_, _, rfl⟩
  have total := scanLines_length scanned
  have unfinished := scanLines_last scanned (List.forall_mem_nil _)
  rw [List.length_nil] at total
  rw [List.nil_append] at unfinished
  rw [File.forEachLine_eq action chunks nonempty small, forEachLine_eq, ← unfinished,
    calls_visitAll always, calls_visitAll always, File.reportedLines, reportedLines, scanned,
    List.append_right_inj]
  simp only [List.map_append, List.append_right_inj]
  rw [map_ite_singleton_eq_iff, ← List.length_eq_zero_iff, ← List.length_eq_zero_iff]
  simp only [ne_eq, ← List.length_eq_zero_iff]
  omega

/-- An action that records nothing and never stops the iteration. -/
def goOn : LineAction Unit := fun _ _ arg => (true, arg)

/-- A text of three lines, cut within a line and between the two letters of a line end. -/
theorem forEachLine_agree_iff_threePieces :
    (File.forEachLine 6 [some (ascii "ab\r"), some (ascii "\nc"), some (ascii "d")] goOn
        ()).2.calls =
      (forEachLine (ascii "ab\r\ncd") goOn ()).calls :=
  (forEachLine_agree_iff (ascii "ab\r\ncd") (by decide)
    [ascii "ab\r", ascii "\nc", ascii "d"] ⟨by decide, by decide⟩ goOn (fun _ _ _ => rfl) ()).mpr
    ⟨by decide, by decide⟩

/-- A file with a single letter has no line, and an empty one has one. -/
theorem singleLetter_unreported :
    (File.forEachLine 1 [some (ascii "a")] goOn ()).2.calls = [] ∧
      (forEachLine (ascii "a") goOn ()).calls = [(0, ascii "a")] ∧
      (File.forEachLine 0 [] goOn ()).2.calls = [(0, [])] ∧
      (forEachLine [] goOn ()).calls = [] := by
  decide

/-- Both readers find a line at a position of a text. -/
structure ReadsAt (content : Bytes) (position : Nat) (line : Bytes) : Prop where
  memory : readLine content position = some line
  file : ∀ chunks, Cut (content.drop position) chunks →
    File.readLine position (chunks.map some) = some line

theorem readsAt_takeWhile {content : Bytes} {position : Nat} (inside : position < content.length) :
    ReadsAt content position
      (trim ((content.drop position).takeWhile fun byte => !isLineEnd byte)) := by
  refine ⟨readLine_eq inside, fun chunks cut => ?_⟩
  rw [File.readLine, if_neg (not_lt.mpr (Int.natCast_nonneg _)),
    File.readLineLoop_eq chunks cut.nonempty, List.nil_append, cut.whole]

/-- A line of the scan is found at its position. -/
theorem readsAt_of_mem_scanLines {content : Bytes} (small : content.length < 2 ^ 32)
    {found : Nat × Bytes} (member : found ∈ (scanLines isLineEnd (0, []) content).1 ++
      [(scanLines isLineEnd (0, []) content).2])
    (inside : (UInt32.ofNat found.1).toNat < content.length) :
    ReadsAt content (UInt32.ofNat found.1).toNat (trim found.2) := by
  have bound := le_of_mem_scanLines 0 [] content member
  have line := takeWhile_drop_of_mem_scanLines [] content (List.forall_mem_nil _) member
  have position : (UInt32.ofNat found.1).toNat = found.1 := by
    rw [UInt32.toNat_ofNat']
    refine Nat.mod_eq_of_lt (lt_of_le_of_lt ?_ small)
    rw [List.length_nil] at bound
    omega
  rw [position] at inside ⊢
  have found := readsAt_takeWhile inside
  rw [← line]
  exact found

theorem mem_of_mem_reportedLines {content : Bytes} {line : Nat × Bytes}
    (member : line ∈ reportedLines 0 content) :
    line ∈ (scanLines isLineEnd (0, []) content).1 ++
      [(scanLines isLineEnd (0, []) content).2] := by
  rw [reportedLines, List.mem_append, List.mem_ite_nil_left] at member
  exact List.mem_append.mpr (member.imp_right And.right)

theorem File.mem_of_mem_reportedLines {content : Bytes} {line : Nat × Bytes}
    (member : line ∈ File.reportedLines content) :
    line ∈ (scanLines isLineEnd (0, []) content).1 ++
      [(scanLines isLineEnd (0, []) content).2] := by
  rw [File.reportedLines, List.mem_append, List.mem_ite_nil_right] at member
  exact List.mem_append.mpr (member.imp_right And.right)

/-- For every text that is shorter than 4 GiB: at every position of it both readers, however the
file is read, find the trimmed text up to the next line end; and every line that either iteration
reports, whatever the action and however the file is read, is found at its position if that is a
position of the text. -/
theorem lines_readBack (content : Bytes) (small : content.length < 2 ^ 32) :
    (∀ position, position < content.length → ReadsAt content position
      (trim ((content.drop position).takeWhile fun byte => !isLineEnd byte))) ∧
    (∀ (Arg : Type) (action : LineAction Arg) (arg : Arg),
      ∀ call ∈ (forEachLine content action arg).calls, call.1.toNat < content.length →
        ReadsAt content call.1.toNat call.2) ∧
    ∀ (chunks : List Bytes), Cut content chunks →
      ∀ (Arg : Type) (action : LineAction Arg) (arg : Arg),
      ∀ call ∈ (File.forEachLine content.length (chunks.map some) action arg).2.calls,
        call.1.toNat < content.length → ReadsAt content call.1.toNat call.2 := by
  refine ⟨fun position inside => readsAt_takeWhile inside,
    fun Arg action arg call made inside => ?_, fun chunks cut Arg action arg call made inside => ?_⟩
  · rw [forEachLine_eq] at made
    rcases mem_calls_visitAll made with none | ⟨line, member, rfl⟩
    · cases none
    · exact readsAt_of_mem_scanLines small (mem_of_mem_reportedLines member) inside
  · obtain ⟨rfl, nonempty⟩ := cut
    rw [File.forEachLine_eq action chunks nonempty small] at made
    rcases mem_calls_visitAll made with none | ⟨line, member, rfl⟩
    · cases none
    · exact readsAt_of_mem_scanLines small (File.mem_of_mem_reportedLines member) inside

/-- The second line of a text, from its position and from the middle. -/
theorem lines_readBack_secondLine :
    ReadsAt (ascii "a\n bc") 2 (ascii "bc") ∧ ReadsAt (ascii "a\n bc") 4 (ascii "c") :=
  have readBack := lines_readBack (ascii "a\n bc") (by decide)
  ⟨readBack.1 2 (by decide), readBack.1 4 (by decide)⟩

end NativeLibs
