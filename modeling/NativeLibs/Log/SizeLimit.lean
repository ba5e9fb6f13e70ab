/-
This file is about the sizes of the log files when nothing fails: every rename and
every write succeeds, and `tellp` reports the size of the current file. Then the
log is a list of files, the newest first, each of which holds some lines. A call
appends its line to the newest file or begins a new one, and only so many files
are kept.

The decision to rotate is made from the size of the message. The line that is
written is longer, by the time, the level and the thread number, so a file can
grow beyond the limit.
-/

import NativeLibs.Library.Runs
import NativeLibs.Log.Rotation

namespace NativeLibs.Log.RotatingLogToFile

open Library

/-! ### Calls that do not fail -/

/-- A call of the log, with the time and the thread number that are printed. -/
structure LogCall where
  call : Call
  time : Bytes
  threadId : Bytes

namespace LogCall

/-- The size that `log_message` is given. -/
def messageSize (input : LogCall) : ℕ :=
  match input.call with
  | .full _ message => message.length
  | .lite message => message.length

/-- The line that `full_log` or `lite_log` writes. -/
def line (input : LogCall) : Bytes :=
  match input.call with
  | .full level message =>
    input.time ++ ascii " " ++ padToFive (levelStr level) ++ ascii " [" ++ input.threadId ++
      ascii "] " ++ message ++ ascii "\n"
  | .lite message => input.time ++ ascii " " ++ message ++ ascii "\n"

/-- Nothing fails, and `tellp` reports the size of the current file. -/
def circumstances (input : LogCall) (size : ℕ) : Circumstances :=
  ⟨size, fun _ => false, input.time, input.time, input.threadId⟩

end LogCall

/-- The log and, in the order of their indices, the lines that its files hold. The lines are no part
of the program. -/
structure Logged where
  world : World
  held : List (List Bytes)

variable (log : RotatingLogToFile)

/-- The size of the current file. -/
def currentSize (world : World) : ℕ := ((world.disk.files log.logFilePath).getD []).length

/-- `log_message` does not rotate the files. -/
def Stays (size messageSize : ℕ) : Prop := (size + messageSize) % 2 ^ 64 < log.fileMaxSizeBytes

instance (size messageSize : ℕ) : Decidable (log.Stays size messageSize) :=
  inferInstanceAs (Decidable (_ < _))

/-- A line at the end of the newest file. -/
def holdLine (line : Bytes) : List (List Bytes) → List (List Bytes)
  | [] => [[line]]
  | newest :: older => (newest ++ [line]) :: older

/-- A call of the log, and where its line comes. -/
def loggedCall (state : Logged) (input : LogCall) : Logged where
  world := log.call state.world (input.call, input.circumstances (log.currentSize state.world))
  held :=
    if log.Stays (log.currentSize state.world) input.messageSize then
      holdLine input.line state.held
    else holdLine input.line (([] :: state.held).take log.filesCount)

/-- The log over the files that are there, before the first call. -/
def constructLogged (files : Files) : Logged := ⟨log.construct files, [[]]⟩

/-! ### The files by their indices -/

/-- The contents of the log files. -/
def slot (files : Files) (index : ℕ) : Option Bytes := files (log.fileName index)

theorem slot_update (files : Files) (index : ℕ) (value : Option Bytes) :
    log.slot (Function.update files (log.fileName index) value) =
      Function.update (log.slot files) index value := by
  funext other
  by_cases same : other = index
  · subst same
    rw [slot, Function.update_self, Function.update_self]
  · rw [slot, Function.update_of_ne (log.fileName_injective.ne same),
      Function.update_of_ne same, slot]

variable {log}

/-- A rename that the system does not refuse moves a file. If there is no file, there must be none
at the next index either. -/
theorem rename_slot (world : World) {index : ℕ}
    (contiguous : log.slot world.disk.files index = none →
      log.slot world.disk.files (index + 1) = none) :
    ∃ error next, rename false (log.fileName index) (log.fileName (index + 1)) world =
        (error, next) ∧ error ≠ some .other ∧
      (log.slot world.disk.files index ≠ none → error = none) ∧
      log.slot next.disk.files = moveSlot (log.slot world.disk.files) index ∧
      (world.handle.follow (log.fileName index) (log.fileName (index + 1)) = world.handle →
        next.handle = world.handle) := by
  rw [rename, if_neg Bool.false_ne_true]
  cases here : world.disk.files (log.fileName index) with
  | none =>
    have missing : log.slot world.disk.files index = none := here
    exact ⟨_, _, rfl, by decide, fun present => absurd missing present,
      (moveSlot_of_missing missing (contiguous missing)).symm, fun _ => rfl⟩
  | some contents =>
    have present : log.slot world.disk.files index = some contents := here
    refine ⟨_, _, rfl, (Option.some_ne_none _).symm, fun _ => rfl, ?_, fun same => same⟩
    show log.slot (Function.update (Function.update world.disk.files (log.fileName index) none)
      (log.fileName (index + 1)) (some contents)) = _
    rw [slot_update, slot_update, moveSlot, present]

/-- There is no file above a missing one. -/
def Contiguous (slots : ℕ → Option Bytes) : Prop :=
  ∀ index, slots index = none → slots (index + 1) = none

theorem Contiguous.shiftUp {slots : ℕ → Option Bytes} (contiguous : Contiguous slots)
    {low high : ℕ} (missing : shiftUp slots (low + 1) high low = none) :
    Library.shiftUp slots (low + 1) high (low + 1) = none := by
  rw [Library.shiftUp, if_neg (by omega), if_neg (by omega)] at missing
  rw [Library.shiftUp, if_neg (by omega)]
  split
  · rfl
  · exact contiguous low missing

/-- The loop moves the files from an index down to 1. -/
theorem rotateLoop_slot {circumstances : Circumstances}
    (succeeds : circumstances.renameFails = fun _ => false) {slots : ℕ → Option Bytes}
    (contiguous : Contiguous slots) {index high : ℕ} (below : index < high) {world : World}
    (stream : world.handle = .onto log.logFilePath)
    (moved : log.slot world.disk.files = shiftUp slots (index + 1) high) :
    ∃ next, log.rotateLoop circumstances index world = (true, next) ∧
      next.handle = .onto log.logFilePath ∧
      log.slot next.disk.files = shiftUp slots 1 high := by
  induction index generalizing world with
  | zero => exact ⟨world, rfl, stream, moved⟩
  | succ index inductionHypothesis =>
    have room : log.slot world.disk.files (index + 1) = none →
        log.slot world.disk.files (index + 1 + 1) = none := by
      rw [moved]
      exact contiguous.shiftUp
    obtain ⟨error, next, renamed, passed, -, shifted, followed⟩ := rename_slot world room
    rw [moved, moveSlot_shiftUp slots below] at shifted
    rw [stream] at followed
    rw [rotateLoop, succeeds, renamed]
    have goesOn : ¬(error.isSome ∧ error ≠ some .noSuchFileOrDirectory) := by
      rintro ⟨present, other⟩
      rcases error with _ | _ | _
      · exact absurd present Bool.false_ne_true
      · exact other rfl
      · exact passed rfl
    simp only [if_neg goesOn]
    exact inductionHypothesis (Nat.lt_of_succ_lt below) (followed (Handle.follow_base index))
      shifted

/-- A rotation that does not fail moves every file up by one and begins a new one. -/
theorem rotateFiles_slot (several : 2 ≤ log.filesCount) {circumstances : Circumstances}
    (succeeds : circumstances.renameFails = fun _ => false) {world : World}
    (stream : world.handle = .onto log.logFilePath)
    (contiguous : Contiguous (log.slot world.disk.files))
    (present : log.slot world.disk.files 0 ≠ none) :
    (log.rotateFiles circumstances world).2.handle = .onto log.logFilePath ∧
      log.slot (log.rotateFiles circumstances world).2.disk.files =
        Function.update (shiftUp (log.slot world.disk.files) 0 (log.filesCount - 1)) 0
          (some []) := by
  have last : log.filesCount - 1 - 1 + 1 = log.filesCount - 1 := by omega
  have unmoved : log.slot world.disk.files =
      shiftUp (log.slot world.disk.files) (log.filesCount - 1 - 1 + 1) (log.filesCount - 1) := by
    rw [last, shiftUp_self]
  obtain ⟨afterLoop, looped, -, moved⟩ :=
    rotateLoop_slot succeeds contiguous (by omega) stream unmoved
  have room : log.slot afterLoop.disk.files 0 = none →
      log.slot afterLoop.disk.files (0 + 1) = none := by
    rw [moved]
    exact contiguous.shiftUp
  have base : log.slot afterLoop.disk.files 0 = log.slot world.disk.files 0 := by
    rw [moved, shiftUp, if_neg (by omega), if_neg (by omega)]
  obtain ⟨error, next, renamed, -, succeeded, shifted, -⟩ :=
    rename_slot { afterLoop with handle := .closed } room
  obtain rfl := succeeded (base ▸ present)
  rw [moved, moveSlot_shiftUp _ (by omega)] at shifted
  have free : next.disk.files log.logFilePath = none := by
    show log.slot next.disk.files 0 = none
    rw [shifted, shiftUp, if_neg (by omega), if_pos (by omega)]
  have rotated : log.rotateFiles circumstances world = (true, log.openLogFile next) := by
    rw [rotateFiles, looped, succeeds]
    simp only [Bool.not_true, Bool.false_eq_true, if_false]
    rw [show log.logFilePath = log.fileName 0 from rfl, renamed]
    rfl
  rw [rotated]
  refine ⟨rfl, ?_⟩
  show log.slot (Function.update next.disk.files (log.fileName 0)
    (some ((next.disk.files log.logFilePath).getD []))) = _
  rw [slot_update, shifted, free, Option.getD_none]

/-- A line comes to the end of the current file. -/
theorem logToOfstream_slot {world : World} (stream : world.handle = .onto log.logFilePath)
    (line : Bytes) :
    (logToOfstream line world).handle = .onto log.logFilePath ∧
      log.slot (logToOfstream line world).disk.files =
        Function.update (log.slot world.disk.files) 0
          (some ((log.slot world.disk.files 0).getD [] ++ line)) := by
  rw [logToOfstream, stream]
  exact ⟨stream, log.slot_update world.disk.files 0 _⟩

theorem call_eq (several : 2 ≤ log.filesCount) (world : World) (input : LogCall) (size : ℕ) :
    log.call world (input.call, input.circumstances size) =
      if log.Stays size input.messageSize then logToOfstream input.line world
      else logToOfstream input.line (log.rotateFiles (input.circumstances size) world).2 := by
  obtain ⟨call, time, threadId⟩ := input
  have nonnegative : (0 : ℤ) ≤ size := Int.natCast_nonneg size
  cases call with
  | full level message =>
    rw [RotatingLogToFile.call, logMessage, if_neg (by omega), if_neg (by omega)]
    exact if_congr (and_iff_right nonnegative) rfl rfl
  | lite message =>
    rw [RotatingLogToFile.call, logMessage, if_neg (by omega), if_neg (by omega)]
    exact if_congr (and_iff_right nonnegative) rfl rfl

/-! ### The lines of each file -/

/-- The contents of files that hold these lines. -/
def lineSlots (held : List (List Bytes)) (index : ℕ) : Option Bytes :=
  held[index]?.map List.flatten

theorem lineSlots_contiguous (held : List (List Bytes)) : Contiguous (lineSlots held) := by
  intro index missing
  rw [lineSlots, Option.map_eq_none_iff, List.getElem?_eq_none_iff] at missing ⊢
  exact missing.trans (Nat.le_succ index)

theorem lineSlots_holdLine {held : List (List Bytes)} (current : held ≠ []) (line : Bytes) :
    lineSlots (holdLine line held) =
      Function.update (lineSlots held) 0 (some ((lineSlots held 0).getD [] ++ line)) := by
  obtain ⟨newest, older, rfl⟩ := List.exists_cons_of_ne_nil current
  funext index
  cases index with
  | zero =>
    rw [Function.update_self]
    show some (newest ++ [line]).flatten = some (newest.flatten ++ line)
    rw [List.flatten_append, List.flatten_singleton]
  | succ index =>
    rw [Function.update_of_ne (Nat.succ_ne_zero index)]
    rfl

theorem lineSlots_take {held : List (List Bytes)} {count : ℕ} (several : 2 ≤ count)
    (bounded : held.length ≤ count) :
    lineSlots (([] :: held).take count) =
      Function.update (shiftUp (lineSlots held) 0 (count - 1)) 0 (some []) := by
  funext index
  cases index with
  | zero =>
    rw [Function.update_self, lineSlots, List.getElem?_take_of_lt (by omega)]
    rfl
  | succ index =>
    rw [Function.update_of_ne (Nat.succ_ne_zero index), shiftUp, lineSlots]
    by_cases kept : index + 1 < count
    · rw [List.getElem?_take_of_lt kept, if_pos (by omega)]
      rfl
    · rw [if_neg (by omega), if_neg (by omega), lineSlots,
        List.getElem?_eq_none (by rw [List.length_take]; omega),
        List.getElem?_eq_none (by omega)]

/-- The files hold the lines that they should, and the stream writes to the first one. -/
structure Faithful (log : RotatingLogToFile) (state : Logged) : Prop where
  slots : log.slot state.world.disk.files = lineSlots state.held
  stream : state.world.handle = .onto log.logFilePath
  current : state.held ≠ []
  bounded : state.held.length ≤ log.filesCount

theorem holdLine_length {held : List (List Bytes)} (current : held ≠ []) (line : Bytes) :
    (holdLine line held).length = held.length := by
  obtain ⟨newest, older, rfl⟩ := List.exists_cons_of_ne_nil current
  rfl

theorem Faithful.write {state : Logged} (faithful : Faithful log state) (line : Bytes) :
    Faithful log ⟨logToOfstream line state.world, holdLine line state.held⟩ := by
  obtain ⟨stream, written⟩ := logToOfstream_slot faithful.stream line
  have length := holdLine_length faithful.current line
  refine ⟨?_, stream, ?_, ?_⟩
  · rw [written, faithful.slots, lineSlots_holdLine faithful.current]
  · exact List.ne_nil_of_length_pos (length ▸ List.length_pos_of_ne_nil faithful.current)
  · exact length.trans_le faithful.bounded

theorem Faithful.rotate (several : 2 ≤ log.filesCount) {state : Logged}
    (faithful : Faithful log state) {circumstances : Circumstances}
    (succeeds : circumstances.renameFails = fun _ => false) :
    Faithful log ⟨(log.rotateFiles circumstances state.world).2,
      ([] :: state.held).take log.filesCount⟩ := by
  have present : log.slot state.world.disk.files 0 ≠ none := by
    obtain ⟨newest, older, held⟩ := List.exists_cons_of_ne_nil faithful.current
    rw [faithful.slots, held]
    exact Option.some_ne_none _
  obtain ⟨stream, rotated⟩ := rotateFiles_slot several succeeds faithful.stream
    (faithful.slots ▸ lineSlots_contiguous state.held) present
  refine ⟨?_, stream, ?_, List.length_take_le _ _⟩
  · rw [rotated, faithful.slots, lineSlots_take several faithful.bounded]
  · obtain ⟨count, counted⟩ := Nat.exists_eq_add_of_le several
    rw [counted, Nat.add_comm, List.take_succ_cons]
    exact List.cons_ne_nil _ _

theorem Faithful.loggedCall (several : 2 ≤ log.filesCount) {state : Logged}
    (faithful : Faithful log state) (input : LogCall) :
    Faithful log (log.loggedCall state input) := by
  rw [RotatingLogToFile.loggedCall, call_eq several]
  by_cases stays : log.Stays (log.currentSize state.world) input.messageSize
  · rw [if_pos stays, if_pos stays]
    exact faithful.write input.line
  · rw [if_neg stays, if_neg stays]
    exact (faithful.rotate several rfl).write input.line

theorem Faithful.constructLogged (several : 2 ≤ log.filesCount) {files : Files}
    (noFiles : ∀ index, files (log.fileName index) = none) :
    Faithful log (log.constructLogged files) := by
  have missing : (files log.logFilePath).getD [] = [] := by
    rw [show files log.logFilePath = none from noFiles 0, Option.getD_none]
  have opened : log.slot (log.construct files).disk.files =
      Function.update (log.slot files) 0 (some []) := by
    rw [← slot_update, ← missing]
    rfl
  refine ⟨?_, rfl, List.cons_ne_nil _ _, Nat.le_of_succ_le several⟩
  rw [show (log.constructLogged files).world = log.construct files from rfl, opened]
  funext index
  cases index with
  | zero => rfl
  | succ index => exact noFiles (index + 1)

/-! ### The limit -/

/-- The files hold the lines that they should, and a file with more than one of them is within the
limit. -/
structure WithinLimit (log : RotatingLogToFile) (state : Logged) : Prop where
  lines : ∀ index, state.world.disk.files (log.fileName index) =
    state.held[index]?.map List.flatten
  bounded : ∀ lines ∈ state.held, 1 < lines.length →
    lines.flatten.length ≤ log.fileMaxSizeBytes

variable (log) in
/-- The message fits into the current file, which holds a line already, and the line does not. -/
def Overflows (state : Logged) (input : LogCall) : Prop :=
  log.Stays (log.currentSize state.world) input.messageSize ∧ state.held.head? ≠ some [] ∧
    log.fileMaxSizeBytes < log.currentSize state.world + input.line.length

instance (state : Logged) (input : LogCall) : Decidable (log.Overflows state input) :=
  inferInstanceAs (Decidable (_ ∧ _ ∧ _))

theorem Faithful.currentSize {state : Logged} (faithful : Faithful log state) {newest : List Bytes}
    {older : List (List Bytes)} (held : state.held = newest :: older) :
    log.currentSize state.world = newest.flatten.length := by
  have contents : state.world.disk.files log.logFilePath = lineSlots state.held 0 :=
    congrFun faithful.slots 0
  rw [RotatingLogToFile.currentSize, contents, held]
  rfl

theorem loggedCall_held_of_stays {state : Logged} {input : LogCall}
    (stays : log.Stays (log.currentSize state.world) input.messageSize) {newest : List Bytes}
    {older : List (List Bytes)} (held : state.held = newest :: older) :
    (log.loggedCall state input).held = (newest ++ [input.line]) :: older := by
  rw [loggedCall, if_pos stays, held, holdLine]

theorem loggedCall_held_of_rotates (several : 2 ≤ log.filesCount) {state : Logged}
    {input : LogCall} (rotates : ¬log.Stays (log.currentSize state.world) input.messageSize) :
    (log.loggedCall state input).held =
      [input.line] :: state.held.take (log.filesCount - 1) := by
  obtain ⟨count, counted⟩ := Nat.exists_eq_add_of_le' (Nat.le_of_succ_le several)
  rw [loggedCall, if_neg rotates, counted, List.take_succ_cons, holdLine, Nat.add_sub_cancel,
    List.nil_append]

theorem WithinLimit.loggedCall_iff (several : 2 ≤ log.filesCount) {state : Logged}
    (faithful : Faithful log state) (within : WithinLimit log state) (input : LogCall) :
    WithinLimit log (log.loggedCall state input) ↔ ¬log.Overflows state input := by
  have lines := congrFun (faithful.loggedCall several input).slots
  obtain ⟨newest, older, held⟩ := List.exists_cons_of_ne_nil faithful.current
  have size := faithful.currentSize held
  by_cases stays : log.Stays (log.currentSize state.world) input.messageSize
  · have grown := loggedCall_held_of_stays stays held
    have length : (newest ++ [input.line]).flatten.length =
        log.currentSize state.world + input.line.length := by
      rw [List.flatten_append, List.flatten_singleton, List.length_append, size]
    constructor
    · rintro ⟨-, bounded⟩ ⟨-, occupied, exceeds⟩
      rw [held, List.head?_cons] at occupied
      have more : 1 < (newest ++ [input.line]).length := by
        rw [List.length_append, List.length_singleton]
        exact Nat.succ_lt_succ (List.length_pos_of_ne_nil fun empty => occupied (by rw [empty]))
      have fits := bounded _ (grown ▸ List.mem_cons_self) more
      exact absurd (length ▸ fits) exceeds.not_ge
    · intro fits
      refine ⟨lines, fun file member more => ?_⟩
      rcases List.mem_cons.mp (grown ▸ member) with rfl | earlier
      · by_contra exceeds
        rw [length] at exceeds
        refine fits ⟨stays, ?_, Nat.lt_of_not_le exceeds⟩
        rw [held, List.head?_cons]
        rintro ⟨⟩
        exact absurd more (lt_irrefl 1)
      · exact within.bounded file (held ▸ List.mem_cons_of_mem newest earlier) more
  · have begun := loggedCall_held_of_rotates several stays
    refine iff_of_true ⟨lines, fun file member more => ?_⟩ fun overflows => stays overflows.1
    rcases List.mem_cons.mp (begun ▸ member) with rfl | earlier
    · exact absurd more (lt_irrefl 1)
    · exact within.bounded file (List.mem_of_mem_take earlier) more

/-- Starting with no log files, the files with more than one line stay within the limit through a
sequence of calls exactly if none of the calls overflows: finds a current file with a line in it
that has room for its message and not for its line. -/
theorem withinLimit_throughout_iff (log : RotatingLogToFile) (several : 2 ≤ log.filesCount)
    (files : Files) (noFiles : ∀ index, files (log.fileName index) = none)
    (calls : List LogCall) :
    (∀ count, ∃ reached,
      run (fun state input => some (log.loggedCall state input)) (log.constructLogged files)
        (calls.take count) = some reached ∧ WithinLimit log reached) ↔
      Along (fun state input => some (log.loggedCall state input))
        (fun state input => ¬log.Overflows state input) (log.constructLogged files) calls := by
  have start : Faithful log (log.constructLogged files) := .constructLogged several noFiles
  have empty : WithinLimit log (log.constructLogged files) := by
    refine ⟨congrFun start.slots, fun lines member more => ?_⟩
    obtain rfl := List.mem_singleton.mp member
    exact absurd more (Nat.not_lt_zero 1)
  have implies : ∀ state, Faithful log state ∧ WithinLimit log state → WithinLimit log state :=
    fun _ both => both.2
  refine run_throughout_iff implies ?_ ?_ ⟨start, empty⟩ (.of_forall (fun _ _ => trivial) _ _)
  · rintro state input ⟨faithful, within⟩ - fits
    exact ⟨_, rfl, faithful.loggedCall several input,
      (within.loggedCall_iff several faithful input).mpr fits⟩
  · rintro state input next ⟨faithful, within⟩ - overflows ⟨⟩ kept
    exact overflows ((within.loggedCall_iff several faithful input).mp kept)

/-- A log of two files with the path `l` and a limit of bytes for each. -/
def twoFiles (limit : ℕ) : RotatingLogToFile := ⟨limit, 2, ascii "l"⟩

/-- Two short lines at one time, the second one without a message. -/
def shortLines : List LogCall :=
  [⟨.lite (ascii "a"), ascii "01.01.2024 00:00:00.000000", []⟩,
    ⟨.lite [], ascii "01.01.2024 00:00:00.000000", []⟩]

/-- In a hundred bytes there is room for both in one file. -/
theorem withinLimit_throughout_iff_twoLines :
    ∃ reached,
      run (fun state input => some ((twoFiles 100).loggedCall state input))
        ((twoFiles 100).constructLogged fun _ => none) shortLines = some reached ∧
      reached.held = [shortLines.map LogCall.line] ∧ WithinLimit (twoFiles 100) reached := by
  have fits : Along (fun state input => some ((twoFiles 100).loggedCall state input))
      (fun state input => ¬(twoFiles 100).Overflows state input)
      ((twoFiles 100).constructLogged fun _ => none) shortLines :=
    .cons rfl (by decide) <| .cons rfl (by decide) trivial
  obtain ⟨reached, ran, within⟩ :=
    (withinLimit_throughout_iff (twoFiles 100) (by decide) _ (fun _ => rfl) shortLines).mpr fits 2
  exact ⟨reached, ran, by cases ran; rfl, within⟩

/-- The current file has 29 bytes when the second message comes. There is room for the message,
which is empty, and its line has 28 bytes. -/
theorem emptyMessage_exceedsLimit :
    ∃ reached,
      run (fun state input => some ((twoFiles 30).loggedCall state input))
        ((twoFiles 30).constructLogged fun _ => none) shortLines = some reached ∧
      ¬WithinLimit (twoFiles 30) reached := by
  refine ⟨_, rfl, fun within => ?_⟩
  have twoLines := within.bounded (shortLines.map LogCall.line) (by decide) (by decide)
  exact absurd twoLines (by decide)

end NativeLibs.Log.RotatingLogToFile
