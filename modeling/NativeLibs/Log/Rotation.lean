/-
This file models `RotatingLogToFile`, which appends log lines to a base file and
moves the files `base`, `base.1`, `base.2`, … up by one when the base file is
full, and shows that the files together always hold the latest part of the log.

The file system is a partial map from paths to contents. A rename replaces its
target at once or fails and changes nothing. It reports that there is no such
file exactly for a missing source: source and target are in one directory, in
which the base file has been opened. The output stream writes to the file it
opened even after that file is renamed or replaced, so a rename carries the
stream along.

Rotation renames from the oldest file down, and a failure can stop it at any
point. What makes this safe is the order: when `base.index` is about to move, the
name above it is either free, because the file there has just moved or was
missing, or it is the last one. So a rename only ever overwrites the oldest file.
-/

import Mathlib.Data.List.Infix
import Mathlib.Tactic
import NativeLibs.Library.Slots
import NativeLibs.Text.Bytes

namespace NativeLibs.Log

open Library

/-! ### The file system and the stream -/

/-- The contents of the file at each path. -/
abbrev Files := Bytes → Option Bytes

/-- What an observer can see: the files, and the lines that were given to the stream so far. -/
structure Disk where
  files : Files
  lines : List Bytes

/-- Where an output stream writes to. A file that another one replaced has no path any more. -/
inductive Handle where
  | closed
  | onto (path : Bytes)
  | replaced

/-- The state while the program runs. `moments` is no part of the program: it collects every
disk an observer could have seen, the latest first. -/
structure World where
  disk : Disk
  handle : Handle
  moments : List Disk

/-- The disk changes, and an observer can see it. -/
def World.show (world : World) (disk : Disk) : World :=
  { world with disk := disk, moments := disk :: world.moments }

/-- The stream after a rename of `old` to `new`. -/
def Handle.follow (old new : Bytes) : Handle → Handle
  | .onto path =>
    if path = old then .onto new
    else if path = new then .replaced
    else .onto path
  | .closed => .closed
  | .replaced => .replaced

/-- The errors of a rename that the program tells apart. -/
inductive RenameError where
  | noSuchFileOrDirectory
  | other
  deriving DecidableEq

/-- `std::filesystem::rename`. `fails` says that the system refuses the rename. -/
def rename (fails : Bool) (old new : Bytes) (world : World) : Option RenameError × World :=
  if fails then (some .other, world)
  else
    match world.disk.files old with
    | none => (some .noSuchFileOrDirectory, world)
    | some contents =>
      let files := Function.update (Function.update world.disk.files old none) new (some contents)
      (none, { world with handle := world.handle.follow old new }.show
        { world.disk with files := files })

/-! ### The log -/

/-- The constant members of a `RotatingLogToFile`. -/
structure RotatingLogToFile where
  fileMaxSizeBytes : ℕ
  filesCount : ℕ
  logFilePath : Bytes

/-- What a log call meets that the program does not decide: the position `tellp` reports, which
renames the system refuses, by the index of the file to be moved, and the printed times and the
printed thread number of the lines. -/
structure Circumstances where
  position : ℤ
  renameFails : ℕ → Bool
  time : Bytes
  errorTime : Bytes
  threadId : Bytes

/-- The names of the log levels. -/
def enumNames : List Bytes :=
  [ascii "ERROR", ascii "WARN", ascii "INFO", ascii "DEBUG", ascii "TRACE"]

/-- `LOG_LEVEL_ERROR`. -/
def logLevelError : ℤ := 0

/-- The name of a level, for any value of the enumeration's type. -/
def levelStr (level : ℤ) : Bytes :=
  if 0 ≤ level ∧ level < enumNames.length then (enumNames[level.toNat]?).getD []
  else ascii "UNKNOWN"

/-- A text as `{:5}` prints it. -/
def padToFive (text : Bytes) : Bytes := text ++ List.replicate (5 - text.length) 32

/-- `log_to_ofstream`. A stream that is not open takes nothing. -/
def logToOfstream (line : Bytes) (world : World) : World :=
  let lines := world.disk.lines ++ [line]
  match world.handle with
  | .onto path =>
    let contents := (world.disk.files path).getD [] ++ line
    world.show ⟨Function.update world.disk.files path (some contents), lines⟩
  | .closed => world.show { world.disk with lines := lines }
  | .replaced => world.show { world.disk with lines := lines }

/-- `full_log`. -/
def fullLog (time threadId : Bytes) (level : ℤ) (message : Bytes) : World → World :=
  logToOfstream (time ++ ascii " " ++ padToFive (levelStr level) ++ ascii " [" ++ threadId ++
    ascii "] " ++ message ++ ascii "\n")

/-- `lite_log`. -/
def liteLog (time message : Bytes) : World → World :=
  logToOfstream (time ++ ascii " " ++ message ++ ascii "\n")

namespace RotatingLogToFile

variable (log : RotatingLogToFile)

/-- The path of a log file. The base file has the index 0. -/
def fileName : ℕ → Bytes
  | 0 => log.logFilePath
  | index + 1 => log.logFilePath ++ ascii "." ++ formatNat 10 (index + 1)

/-- `open_log_file`. Opening in append mode creates a missing file and keeps an existing one. -/
def openLogFile (world : World) : World :=
  let contents := (world.disk.files log.logFilePath).getD []
  { world with handle := .onto log.logFilePath }.show
    { world.disk with
      files := Function.update world.disk.files log.logFilePath (some contents) }

/-- The line about a file that could not be moved. -/
def logRotationError (circumstances : Circumstances) (fileName : Bytes) : World → World :=
  fullLog circumstances.errorTime circumstances.threadId logLevelError
    (ascii "Error rotating log file: " ++ fileName)

/-- The loop of `rotate_files`, from an index down to 1. It reports whether it came to its end. -/
def rotateLoop (circumstances : Circumstances) : ℕ → World → Bool × World
  | 0, world => (true, world)
  | index + 1, world =>
    let oldFileName := log.fileName (index + 1)
    let newFileName := log.fileName (index + 2)
    let (error, world) :=
      rename (circumstances.renameFails (index + 1)) oldFileName newFileName world
    if error.isSome ∧ error ≠ some .noSuchFileOrDirectory then
      (false, logRotationError circumstances oldFileName world)
    else rotateLoop circumstances index world

/-- `rotate_files`. -/
def rotateFiles (circumstances : Circumstances) (world : World) : Bool × World :=
  let lastIndex := log.filesCount - 1
  let (finished, world) := log.rotateLoop circumstances (lastIndex - 1) world
  if !finished then (false, world)
  else
    let world := { world with handle := .closed }
    let (error, world) :=
      rename (circumstances.renameFails 0) log.logFilePath (log.fileName 1) world
    if error.isSome then
      (false, logRotationError circumstances log.logFilePath (log.openLogFile world))
    else (true, log.openLogFile world)

/-- `log_message`. The sum of the position and the message size is a `size_t`. -/
def logMessage (circumstances : Circumstances) (messageSize : ℕ) (func : World → World)
    (world : World) : World :=
  if log.filesCount = 0 then world
  else if log.filesCount = 1 then func world
  else if 0 ≤ circumstances.position ∧
      (circumstances.position.toNat + messageSize) % 2 ^ 64 < log.fileMaxSizeBytes then
    func world
  else func (log.rotateFiles circumstances world).2

/-- The two call operators. -/
inductive Call where
  | full (level : ℤ) (message : Bytes)
  | lite (message : Bytes)

/-- A call of the log. -/
def call (world : World) : Call × Circumstances → World
  | (.full level message, circumstances) =>
    log.logMessage circumstances message.length
      (fullLog circumstances.time circumstances.threadId level message) world
  | (.lite message, circumstances) =>
    log.logMessage circumstances message.length (liteLog circumstances.time message) world

/-- The constructor, over the files that are there. -/
def construct (files : Files) : World :=
  log.openLogFile ⟨⟨files, []⟩, .closed, [⟨files, []⟩]⟩

/-- The state after the constructor and a sequence of calls. -/
def afterCalls (files : Files) (calls : List (Call × Circumstances)) : World :=
  calls.foldl log.call (log.construct files)

/-! ### The files as slots -/

theorem fileName_injective : Function.Injective log.fileName := by
  intro first second same
  match first, second with
  | 0, 0 => rfl
  | 0, index + 1 =>
    have lengths := congrArg List.length same
    simp [fileName, ascii] at lengths
  | index + 1, 0 =>
    have lengths := congrArg List.length same
    simp [fileName, ascii] at lengths
  | first + 1, second + 1 =>
    have numerals : formatNat 10 (first + 1) = formatNat 10 (second + 1) :=
      List.append_cancel_left same
    have values := congrArg (digitsValue 10) numerals
    rwa [digitsValue_formatNat 10 _ (by decide) (by decide),
      digitsValue_formatNat 10 _ (by decide) (by decide)] at values

/-- What is in each log file; a missing file holds nothing. -/
def parts (files : Files) (index : ℕ) : Bytes := (files (log.fileName index)).getD []

/-- The log files that are kept, read from the oldest to the base file. -/
def contents (files : Files) : Bytes := readDown (log.parts files) log.filesCount

theorem parts_update (files : Files) (index : ℕ) (value : Option Bytes) :
    log.parts (Function.update files (log.fileName index) value) =
      Function.update (log.parts files) index (value.getD []) := by
  funext other
  by_cases same : other = index
  · subst same
    rw [parts, Function.update_self, Function.update_self]
  · rw [parts, Function.update_of_ne (log.fileName_injective.ne same),
      Function.update_of_ne same, parts]

theorem parts_rename {files : Files} {index : ℕ} {moved : Bytes}
    (present : files (log.fileName index) = some moved) :
    log.parts (Function.update (Function.update files (log.fileName index) none)
      (log.fileName (index + 1)) (some moved)) = moveUp (log.parts files) index := by
  have part : log.parts files index = moved := by rw [parts, present, Option.getD_some]
  rw [parts_update, parts_update, moveUp, part, Option.getD_some, Option.getD_none]

/-! ### What holds at every moment -/

variable {log} {initial : Files}

/-- The log files hold a suffix of the initial log and the lines after it, and no other file has
changed. -/
structure Latest (log : RotatingLogToFile) (initial : Files) (disk : Disk) : Prop where
  suffix : log.contents disk.files <:+ log.contents initial ++ disk.lines.flatten
  others : ∀ path, (∀ index < log.filesCount, path ≠ log.fileName index) →
    disk.files path = initial path

/-- Every disk that could be seen so far was as it should be, and the stream is where it should
be. -/
structure Sound (log : RotatingLogToFile) (initial : Files) (handle : Handle) (world : World) :
    Prop where
  current : Latest log initial world.disk
  past : ∀ disk ∈ world.moments, Latest log initial disk
  stream : world.handle = handle

/-- A file of the log changes and the others stay. -/
theorem others_update {files : Files} (index : ℕ) (value : Option Bytes)
    (kept : index < log.filesCount)
    (others : ∀ path, (∀ index < log.filesCount, path ≠ log.fileName index) →
      files path = initial path) (path : Bytes)
    (foreign : ∀ index < log.filesCount, path ≠ log.fileName index) :
    Function.update files (log.fileName index) value path = initial path := by
  rw [Function.update_of_ne (foreign index kept), others path foreign]

theorem Latest.write {disk : Disk} (latest : Latest log initial disk)
    (several : 2 ≤ log.filesCount) (line : Bytes) :
    Latest log initial
      ⟨Function.update disk.files log.logFilePath
        (some ((disk.files log.logFilePath).getD [] ++ line)), disk.lines ++ [line]⟩ := by
  obtain ⟨bound, counted⟩ := Nat.exists_eq_add_of_le' (Nat.le_of_succ_le several)
  constructor
  · have grown : log.contents (Function.update disk.files log.logFilePath
        (some ((disk.files log.logFilePath).getD [] ++ line))) =
        log.contents disk.files ++ line := by
      rw [contents, contents, show log.logFilePath = log.fileName 0 from rfl, parts_update,
        Option.getD_some, counted]
      exact readDown_append (log.parts disk.files) line bound
    rw [grown, List.flatten_append, List.flatten_singleton, ← List.append_assoc]
    obtain ⟨lost, whole⟩ := latest.suffix
    exact ⟨lost, by rw [← whole, List.append_assoc]⟩
  · exact others_update 0 _ (by omega) latest.others

theorem Latest.create {disk : Disk} (latest : Latest log initial disk)
    (several : 2 ≤ log.filesCount) :
    Latest log initial
      { disk with
        files := Function.update disk.files log.logFilePath
          (some ((disk.files log.logFilePath).getD [])) } := by
  constructor
  · have same : log.parts (Function.update disk.files (log.fileName 0)
        (some (log.parts disk.files 0))) = log.parts disk.files := by
      rw [parts_update, Option.getD_some, Function.update_eq_self]
    have unchanged : log.contents (Function.update disk.files log.logFilePath
        (some ((disk.files log.logFilePath).getD []))) = log.contents disk.files :=
      congrArg (readDown · log.filesCount) same
    rw [unchanged]
    exact latest.suffix
  · exact others_update 0 _ (by omega) latest.others

theorem Latest.move {disk : Disk} (latest : Latest log initial disk) {index : ℕ} {moved : Bytes}
    (inside : index + 1 < log.filesCount)
    (clear : disk.files (log.fileName (index + 1)) = none ∨ index + 2 = log.filesCount)
    (present : disk.files (log.fileName index) = some moved) :
    Latest log initial
      { disk with
        files := Function.update (Function.update disk.files (log.fileName index) none)
          (log.fileName (index + 1)) (some moved) } := by
  constructor
  · have empty : log.parts disk.files (index + 1) = [] ∨ index + 2 = log.filesCount :=
      clear.imp_left fun free => by rw [parts, free, Option.getD_none]
    have shorter := readDown_moveUp_suffix inside empty
    rw [← parts_rename log present] at shorter
    exact shorter.trans latest.suffix
  · exact others_update (index + 1) _ inside
      (others_update index none ((Nat.lt_succ_self index).trans inside) latest.others)

theorem Sound.show {handle : Handle} {world : World} {disk : Disk}
    (sound : Sound log initial handle world) (latest : Latest log initial disk) :
    Sound log initial handle (world.show disk) := by
  refine ⟨latest, fun seen member => ?_, sound.stream⟩
  rcases List.mem_cons.mp member with rfl | earlier
  · exact latest
  · exact sound.past seen earlier

/-! ### The calls -/

theorem Sound.openLogFile {handle : Handle} {world : World}
    (sound : Sound log initial handle world) (several : 2 ≤ log.filesCount) :
    Sound log initial (.onto log.logFilePath) (log.openLogFile world) :=
  have opened : Sound log initial (.onto log.logFilePath)
      { world with handle := .onto log.logFilePath } := ⟨sound.current, sound.past, rfl⟩
  opened.show (sound.current.create several)

theorem Sound.logToOfstream {world : World}
    (sound : Sound log initial (.onto log.logFilePath) world) (several : 2 ≤ log.filesCount)
    (line : Bytes) : Sound log initial (.onto log.logFilePath) (logToOfstream line world) := by
  rw [Log.logToOfstream, sound.stream]
  exact sound.show (sound.current.write several line)

/-- A stream on the base file, or a closed one, is not touched by a rename of other files. -/
theorem Sound.rename {handle : Handle} {world : World} (sound : Sound log initial handle world)
    (fails : Bool) {index : ℕ} (inside : index + 1 < log.filesCount)
    (clear : world.disk.files (log.fileName (index + 1)) = none ∨ index + 2 = log.filesCount)
    (untouched : handle.follow (log.fileName index) (log.fileName (index + 1)) = handle) :
    ∃ error next, Log.rename fails (log.fileName index) (log.fileName (index + 1)) world =
        (error, next) ∧ Sound log initial handle next ∧
      (error ≠ some .other → next.disk.files (log.fileName index) = none) := by
  rw [Log.rename]
  by_cases refused : fails = true
  · rw [if_pos refused]
    exact ⟨_, _, rfl, sound, fun impossible => absurd rfl impossible⟩
  · rw [if_neg refused]
    cases present : world.disk.files (log.fileName index) with
    | none => exact ⟨_, _, rfl, sound, fun _ => present⟩
    | some moved =>
      have followed : Sound log initial handle
          { world with
            handle := world.handle.follow (log.fileName index) (log.fileName (index + 1)) } :=
        ⟨sound.current, sound.past, by rw [sound.stream, untouched]⟩
      refine ⟨_, _, rfl, followed.show (sound.current.move inside clear present), fun _ => ?_⟩
      have apart : log.fileName index ≠ log.fileName (index + 1) :=
        log.fileName_injective.ne (Nat.ne_of_lt (Nat.lt_succ_self index))
      show Function.update _ _ _ _ = _
      rw [Function.update_of_ne apart, Function.update_self]

theorem Handle.follow_base (index : ℕ) :
    (Handle.onto log.logFilePath).follow (log.fileName (index + 1)) (log.fileName (index + 2)) =
      .onto log.logFilePath := by
  have source : log.logFilePath ≠ log.fileName (index + 1) :=
    (log.fileName_injective.ne (Nat.zero_ne_add_one index) : log.fileName 0 ≠ _)
  have target : log.logFilePath ≠ log.fileName (index + 2) :=
    (log.fileName_injective.ne (Nat.zero_ne_add_one (index + 1)) : log.fileName 0 ≠ _)
  rw [Handle.follow, if_neg source, if_neg target]

/-- The loop keeps the log. Where it comes to its end, the name `base.1` is free, or it is the
last one. -/
theorem Sound.rotateLoop (several : 2 ≤ log.filesCount) (circumstances : Circumstances)
    {index : ℕ} {world : World} (sound : Sound log initial (.onto log.logFilePath) world)
    (inside : index + 1 < log.filesCount)
    (clear : world.disk.files (log.fileName (index + 1)) = none ∨ index + 2 = log.filesCount) :
    ∃ finished next, log.rotateLoop circumstances index world = (finished, next) ∧
      Sound log initial (.onto log.logFilePath) next ∧
      (finished = true → next.disk.files (log.fileName 1) = none ∨ 2 = log.filesCount) := by
  induction index generalizing world with
  | zero => exact ⟨true, world, rfl, sound, fun _ => clear⟩
  | succ index inductionHypothesis =>
    obtain ⟨error, next, renamed, kept, freed⟩ :=
      sound.rename (circumstances.renameFails (index + 1)) inside clear
        (Handle.follow_base index)
    rw [RotatingLogToFile.rotateLoop, renamed]
    by_cases stopped : error.isSome ∧ error ≠ some .noSuchFileOrDirectory
    · simp only [if_pos stopped]
      exact ⟨_, _, rfl, kept.logToOfstream several _, fun impossible => nomatch impossible⟩
    · simp only [if_neg stopped]
      -- the file that was here has moved or was missing: its name is free for the one below
      have passed : error ≠ some .other := by
        rintro rfl
        exact stopped ⟨rfl, fun impossible => nomatch impossible⟩
      exact inductionHypothesis kept ((Nat.lt_succ_self _).trans inside) (.inl (freed passed))

theorem Sound.rotateFiles {world : World}
    (sound : Sound log initial (.onto log.logFilePath) world) (several : 2 ≤ log.filesCount)
    (circumstances : Circumstances) :
    Sound log initial (.onto log.logFilePath) (log.rotateFiles circumstances world).2 := by
  obtain ⟨finished, afterLoop, looped, kept, clear⟩ :=
    sound.rotateLoop several circumstances
      (show log.filesCount - 1 - 1 + 1 < log.filesCount by omega) (.inr (by omega))
  rw [RotatingLogToFile.rotateFiles, looped]
  cases finished with
  | false => exact kept
  | true =>
    have closed : Sound log initial .closed { afterLoop with handle := .closed } :=
      ⟨kept.current, kept.past, rfl⟩
    obtain ⟨error, next, renamed, moved, -⟩ :=
      closed.rename (circumstances.renameFails 0) (show 0 + 1 < log.filesCount by omega)
        (clear rfl) rfl
    simp only [Bool.not_true, Bool.false_eq_true, if_false]
    rw [show log.logFilePath = log.fileName 0 from rfl, renamed]
    by_cases failed : error.isSome = true
    · simp only [if_pos failed]
      exact (moved.openLogFile several).logToOfstream several _
    · simp only [if_neg failed]
      exact moved.openLogFile several

theorem Sound.logMessage {world : World}
    (sound : Sound log initial (.onto log.logFilePath) world) (several : 2 ≤ log.filesCount)
    (circumstances : Circumstances) (messageSize : ℕ) (line : Bytes) :
    Sound log initial (.onto log.logFilePath)
      (log.logMessage circumstances messageSize (Log.logToOfstream line) world) := by
  rw [RotatingLogToFile.logMessage, if_neg (by omega), if_neg (by omega)]
  split
  · exact sound.logToOfstream several line
  · exact (sound.rotateFiles several circumstances).logToOfstream several line

theorem Sound.call {world : World} (sound : Sound log initial (.onto log.logFilePath) world)
    (several : 2 ≤ log.filesCount) (input : Call × Circumstances) :
    Sound log initial (.onto log.logFilePath) (log.call world input) := by
  obtain ⟨kind, circumstances⟩ := input
  cases kind with
  | full level message => exact sound.logMessage several circumstances _ _
  | lite message => exact sound.logMessage several circumstances _ _

theorem Sound.construct (several : 2 ≤ log.filesCount) (initial : Files) :
    Sound log initial (.onto log.logFilePath) (log.construct initial) := by
  have unchanged : Latest log initial ⟨initial, []⟩ :=
    ⟨by rw [List.flatten_nil, List.append_nil], fun _ _ => rfl⟩
  have before : Sound log initial .closed ⟨⟨initial, []⟩, .closed, [⟨initial, []⟩]⟩ :=
    ⟨unchanged, fun disk member => List.mem_singleton.mp member ▸ unchanged, rfl⟩
  exact before.openLogFile several

/-- At every moment of every sequence of calls, whichever renames fail, the log files read from
the oldest to the base file hold a suffix of the initial log followed by the lines written so far,
and the files with an index that is not kept are as they were, so none is created. -/
theorem rotation_keeps_suffix (log : RotatingLogToFile) (several : 2 ≤ log.filesCount)
    (initial : Files) (calls : List (Call × Circumstances)) :
    ∀ disk ∈ (log.afterCalls initial calls).moments,
      (∀ index ≥ log.filesCount,
        disk.files (log.fileName index) = initial (log.fileName index)) ∧
      log.contents disk.files <:+ log.contents initial ++ disk.lines.flatten := by
  have sound : Sound log initial (.onto log.logFilePath) (log.afterCalls initial calls) :=
    List.foldlRecOn calls log.call (Sound.construct several initial)
      fun _ sound input _ => sound.call several input
  intro disk member
  obtain ⟨suffix, others⟩ := sound.past disk member
  refine ⟨fun index beyond => others _ fun kept below same => ?_, suffix⟩
  exact absurd (log.fileName_injective same) (Nat.ne_of_gt (below.trans_le beyond))

/-- A log of three files with the path `l`, at most ten bytes each. -/
def threeFiles : RotatingLogToFile := ⟨10, 3, [108]⟩

/-- All three files are there, with one byte each. -/
def threeParts (path : Bytes) : Option Bytes :=
  if path = threeFiles.fileName 0 then some [1]
  else if path = threeFiles.fileName 1 then some [2]
  else if path = threeFiles.fileName 2 then some [3]
  else none

/-- Two calls on a full base file. The first rotation cannot move `l.1` and writes an error line,
the second one succeeds. -/
def interruptedRotation : List (Call × Circumstances) :=
  [(.lite [97], ⟨20, fun index => index = 1, [], [], []⟩),
    (.full 2 [98], ⟨20, fun _ => false, [], [], []⟩)]

theorem rotation_keeps_suffix_interrupted :
    2 ≤ threeFiles.filesCount ∧
      (threeFiles.afterCalls threeParts interruptedRotation).moments.length = 8 ∧
      ∀ disk ∈ (threeFiles.afterCalls threeParts interruptedRotation).moments,
        (∀ index ≥ threeFiles.filesCount,
          disk.files (threeFiles.fileName index) = threeParts (threeFiles.fileName index)) ∧
        threeFiles.contents disk.files <:+
          threeFiles.contents threeParts ++ disk.lines.flatten :=
  ⟨by decide, by decide,
    rotation_keeps_suffix threeFiles (by decide) threeParts interruptedRotation⟩

end RotatingLogToFile

end NativeLibs.Log
