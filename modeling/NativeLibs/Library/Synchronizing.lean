/-
This file is the project's library on codes that synchronise themselves. A letter
of such a code stands alone, or leads a sequence and announces how many letters
continue it, or continues a sequence, or is none of these. No letter that stands
alone or leads also continues, so a reader finds back to the code at every such
letter, whatever came before.

A text is read in pieces: the letters that stand alone, the complete sequences,
the sequences that are cut off by a letter that does not continue them, and the
stray letters. At the end a sequence may have begun. Nothing is lost: the pieces
and what has begun make up the text. A complete sequence is a piece of a text
exactly if it occurs in it, and a sequence has begun at the end exactly if the
text ends with one that is not complete.
-/

import Mathlib.Tactic

namespace NativeLibs.Library

/-- What the letters of a self-synchronising code do. A letter that announces letters leads. -/
structure SynchronizingCode (Letter : Type*) where
  single : Letter → Bool
  announced : Letter → ℕ
  continues : Letter → Bool
  single_announced : ∀ letter, single letter = true → announced letter = 0
  single_continues : ∀ letter, single letter = true → continues letter = false
  lead_continues : ∀ letter, 0 < announced letter → continues letter = false

/-- A sequence that has begun: its lead and the letters that continue it so far. -/
structure Begun (Letter : Type*) where
  lead : Letter
  rest : List Letter

/-- What a text is read as. -/
inductive Piece (Letter : Type*) where
  | single (letter : Letter)
  | complete (sequence : Begun Letter)
  | cut (sequence : Begun Letter)
  | stray (letter : Letter)

variable {Letter : Type*}

/-- The letters of a sequence. -/
def Begun.letters (sequence : Begun Letter) : List Letter := sequence.lead :: sequence.rest

theorem Begun.letters_injective : Function.Injective (@Begun.letters Letter) := by
  rintro ⟨lead, rest⟩ ⟨otherLead, otherRest⟩ same
  obtain ⟨rfl, rfl⟩ := List.cons.inj same
  rfl

/-- The letters of a piece. -/
def Piece.letters : Piece Letter → List Letter
  | single letter => [letter]
  | complete sequence => sequence.letters
  | cut sequence => sequence.letters
  | stray letter => [letter]

/-- The letters of what has begun. -/
def begunLetters (begun : Option (Begun Letter)) : List Letter := begun.elim [] Begun.letters

namespace SynchronizingCode

variable (code : SynchronizingCode Letter)

/-- A sequence with all the letters its lead announces. -/
structure Complete (sequence : Begun Letter) : Prop where
  leads : 0 < code.announced sequence.lead
  continuing : ∀ letter ∈ sequence.rest, code.continues letter = true
  length_eq : sequence.rest.length = code.announced sequence.lead

/-- A sequence that lacks letters its lead announces. -/
structure Unfinished (sequence : Begun Letter) : Prop where
  continuing : ∀ letter ∈ sequence.rest, code.continues letter = true
  length_lt : sequence.rest.length < code.announced sequence.lead

/-- What the pieces of a text satisfy. -/
def Valid : Piece Letter → Prop
  | .single letter => code.single letter = true
  | .complete sequence => code.Complete sequence
  | .cut sequence => code.Unfinished sequence
  | .stray letter => code.single letter = false ∧ code.announced letter = 0

/-- A letter with which nothing has begun. -/
def start (letter : Letter) : List (Piece Letter) × Option (Begun Letter) :=
  if code.single letter then ([.single letter], none)
  else if 0 < code.announced letter then ([], some ⟨letter, []⟩)
  else ([.stray letter], none)

/-- A letter with which a sequence has begun. -/
def extend (begun : Begun Letter) (letter : Letter) :
    List (Piece Letter) × Option (Begun Letter) :=
  if code.continues letter then
    if begun.rest.length + 1 = code.announced begun.lead then
      ([.complete ⟨begun.lead, begun.rest ++ [letter]⟩], none)
    else ([], some ⟨begun.lead, begun.rest ++ [letter]⟩)
  else (.cut begun :: (code.start letter).1, (code.start letter).2)

/-- One letter. -/
def step : Option (Begun Letter) → Letter → List (Piece Letter) × Option (Begun Letter)
  | none, letter => code.start letter
  | some begun, letter => code.extend begun letter

/-- The pieces of a text, and what has begun at its end. -/
def scan : Option (Begun Letter) → List Letter → List (Piece Letter) × Option (Begun Letter)
  | begun, [] => ([], begun)
  | begun, letter :: text =>
    ((code.step begun letter).1 ++ (scan (code.step begun letter).2 text).1,
      (scan (code.step begun letter).2 text).2)

/-- The pieces of a text that is read from its start. -/
def pieces (text : List Letter) : List (Piece Letter) := (code.scan none text).1

theorem scan_append (begun : Option (Begun Letter)) (first second : List Letter) :
    code.scan begun (first ++ second) =
      ((code.scan begun first).1 ++ (code.scan (code.scan begun first).2 second).1,
        (code.scan (code.scan begun first).2 second).2) := by
  induction first generalizing begun with
  | nil => rfl
  | cons letter first inductionHypothesis =>
    rw [List.cons_append, scan, scan, inductionHypothesis, List.append_assoc]

variable {code}

/-- A machine that follows every step of the reading follows the reading of a text. -/
theorem foldl_follows {State : Type*} {next : State → Letter → State}
    {Follows : State → List (Piece Letter) → Option (Begun Letter) → Prop}
    (keeps : ∀ state done begun letter, Follows state done begun →
      Follows (next state letter) (done ++ (code.step begun letter).1)
        (code.step begun letter).2)
    {state : State} {done : List (Piece Letter)} {begun : Option (Begun Letter)}
    (here : Follows state done begun) (text : List Letter) :
    Follows (text.foldl next state) (done ++ (code.scan begun text).1)
      (code.scan begun text).2 := by
  induction text generalizing state done begun with
  | nil =>
    rw [scan, List.append_nil]
    exact here
  | cons letter text inductionHypothesis =>
    rw [List.foldl_cons, scan, ← List.append_assoc]
    exact inductionHypothesis (keeps state done begun letter here)

theorem complete_snoc_iff (lead : Letter) (sofar : List Letter) (letter : Letter) :
    code.Complete ⟨lead, sofar ++ [letter]⟩ ↔
      code.Unfinished ⟨lead, sofar⟩ ∧ code.continues letter = true ∧
        sofar.length + 1 = code.announced lead := by
  have longer : (sofar ++ [letter]).length = sofar.length + 1 := by
    rw [List.length_append, List.length_singleton]
  constructor
  · rintro ⟨leads, continuing, all⟩
    rw [List.forall_mem_append, List.forall_mem_singleton] at continuing
    rw [longer] at all
    exact ⟨⟨continuing.1, Nat.lt_of_succ_le (le_of_eq all)⟩, continuing.2, all⟩
  · rintro ⟨⟨continuing, lacks⟩, further, all⟩
    exact ⟨Nat.zero_lt_of_lt lacks,
      List.forall_mem_append.mpr ⟨continuing, List.forall_mem_singleton.mpr further⟩,
      longer.trans all⟩

/-! ### Nothing is lost -/

theorem start_letters (letter : Letter) :
    (code.start letter).1.flatMap Piece.letters ++ begunLetters (code.start letter).2 =
      [letter] := by
  rw [start]
  by_cases alone : code.single letter = true
  · rw [if_pos alone]
    rfl
  · by_cases leads : 0 < code.announced letter
    · rw [if_neg alone, if_pos leads]
      rfl
    · rw [if_neg alone, if_neg leads]
      rfl

theorem step_letters (begun : Option (Begun Letter)) (letter : Letter) :
    (code.step begun letter).1.flatMap Piece.letters ++ begunLetters (code.step begun letter).2 =
      begunLetters begun ++ [letter] := by
  cases begun with
  | none => exact start_letters letter
  | some begun =>
    rw [step, extend]
    by_cases further : code.continues letter = true
    · rw [if_pos further]
      by_cases last : begun.rest.length + 1 = code.announced begun.lead
      · rw [if_pos last, List.flatMap_singleton]
        exact List.append_nil _
      · rw [if_neg last]
        rfl
    · rw [if_neg further, List.flatMap_cons, List.append_assoc, start_letters]
      rfl

theorem scan_letters (begun : Option (Begun Letter)) (text : List Letter) :
    (code.scan begun text).1.flatMap Piece.letters ++ begunLetters (code.scan begun text).2 =
      begunLetters begun ++ text := by
  induction text generalizing begun with
  | nil => exact (List.append_nil _).symm
  | cons letter text inductionHypothesis =>
    rw [scan, List.flatMap_append, List.append_assoc, inductionHypothesis, ← List.append_assoc,
      step_letters, List.append_assoc, List.singleton_append]

theorem start_valid (letter : Letter) :
    (∀ piece ∈ (code.start letter).1, code.Valid piece) ∧
      ∀ begun ∈ (code.start letter).2, code.Unfinished begun := by
  rw [start]
  by_cases alone : code.single letter = true
  · rw [if_pos alone]
    exact ⟨List.forall_mem_singleton.mpr alone,
      fun _ absent => absurd absent (Option.not_mem_none _)⟩
  · by_cases leads : 0 < code.announced letter
    · rw [if_neg alone, if_pos leads]
      refine ⟨fun _ absent => absurd absent List.not_mem_nil, fun begun started => ?_⟩
      rw [← Option.mem_some.mp started]
      exact ⟨fun _ absent => absurd absent List.not_mem_nil, leads⟩
    · rw [if_neg alone, if_neg leads]
      refine ⟨List.forall_mem_singleton.mpr ⟨Bool.eq_false_iff.mpr alone, ?_⟩,
        fun _ absent => absurd absent (Option.not_mem_none _)⟩
      exact Nat.eq_zero_of_not_pos leads

theorem step_valid {begun : Option (Begun Letter)}
    (unfinished : ∀ sequence ∈ begun, code.Unfinished sequence) (letter : Letter) :
    (∀ piece ∈ (code.step begun letter).1, code.Valid piece) ∧
      ∀ sequence ∈ (code.step begun letter).2, code.Unfinished sequence := by
  cases begun with
  | none => exact start_valid letter
  | some begun =>
    have before := unfinished begun rfl
    rw [step, extend]
    by_cases further : code.continues letter = true
    · rw [if_pos further]
      by_cases last : begun.rest.length + 1 = code.announced begun.lead
      · rw [if_pos last]
        exact ⟨List.forall_mem_singleton.mpr ((complete_snoc_iff _ _ _).mpr ⟨before, further, last⟩),
          fun _ absent => absurd absent (Option.not_mem_none _)⟩
      · rw [if_neg last]
        refine ⟨fun _ absent => absurd absent List.not_mem_nil, fun sequence started => ?_⟩
        rw [← Option.mem_some.mp started]
        refine ⟨List.forall_mem_append.mpr
          ⟨before.continuing, List.forall_mem_singleton.mpr further⟩, ?_⟩
        rw [List.length_append, List.length_singleton]
        exact lt_of_le_of_ne before.length_lt last
    · rw [if_neg further]
      exact ⟨List.forall_mem_cons.mpr ⟨before, (start_valid letter).1⟩, (start_valid letter).2⟩

theorem scan_valid {begun : Option (Begun Letter)}
    (unfinished : ∀ sequence ∈ begun, code.Unfinished sequence) (text : List Letter) :
    (∀ piece ∈ (code.scan begun text).1, code.Valid piece) ∧
      ∀ sequence ∈ (code.scan begun text).2, code.Unfinished sequence := by
  induction text generalizing begun with
  | nil => exact ⟨fun _ absent => absurd absent List.not_mem_nil, unfinished⟩
  | cons letter text inductionHypothesis =>
    have here := step_valid unfinished letter
    have later := inductionHypothesis here.2
    exact ⟨List.forall_mem_append.mpr ⟨here.1, later.1⟩, later.2⟩

theorem valid_of_mem_pieces {text : List Letter} {piece : Piece Letter}
    (member : piece ∈ code.pieces text) : code.Valid piece :=
  (scan_valid (fun _ absent => absurd absent (Option.not_mem_none _)) text).1 piece member

theorem unfinished_of_scan {text : List Letter} {begun : Begun Letter}
    (ends : (code.scan none text).2 = some begun) : code.Unfinished begun :=
  (scan_valid (fun _ absent => absurd absent (Option.not_mem_none _)) text).2 begun ends

/-! ### Finding back to the code -/

/-- A letter that does not continue is read as if nothing had begun. -/
theorem scan_restart (begun : Option (Begun Letter)) {letter : Letter}
    (restarts : code.continues letter = false) (text : List Letter) :
    code.scan begun (letter :: text) =
      ((begun.map Piece.cut).toList ++ code.pieces (letter :: text),
        (code.scan none (letter :: text)).2) := by
  cases begun with
  | none => rfl
  | some begun =>
    rw [scan, step, extend, restarts, if_neg Bool.false_ne_true]
    rfl

theorem scan_single {letter : Letter} (alone : code.single letter = true) (text : List Letter) :
    code.scan none (letter :: text) =
      (.single letter :: code.pieces text, (code.scan none text).2) := by
  rw [scan, step, start, if_pos alone]
  rfl

theorem scan_lead {letter : Letter} (leads : 0 < code.announced letter) (text : List Letter) :
    code.scan none (letter :: text) = code.scan (some ⟨letter, []⟩) text := by
  have accompanied : ¬code.single letter = true := fun alone =>
    absurd (code.single_announced letter alone) (Nat.ne_of_gt leads)
  rw [scan, step, start, if_neg accompanied, if_pos leads]
  rfl

/-- The letters that a sequence lacks complete it. -/
theorem scan_rest {lead : Letter} (sofar : List Letter) {rest : List Letter}
    (continuing : ∀ letter ∈ rest, code.continues letter = true) (lacks : rest ≠ [])
    (all : sofar.length + rest.length = code.announced lead) (text : List Letter) :
    code.scan (some ⟨lead, sofar⟩) (rest ++ text) =
      (.complete ⟨lead, sofar ++ rest⟩ :: code.pieces text, (code.scan none text).2) := by
  induction rest generalizing sofar with
  | nil => exact absurd rfl lacks
  | cons letter rest inductionHypothesis =>
    rw [List.forall_mem_cons] at continuing
    rw [List.length_cons] at all
    rw [List.cons_append, scan, step, extend, if_pos continuing.1]
    cases rest with
    | nil =>
      have last : sofar.length + 1 = code.announced lead := all
      rw [if_pos last]
      rfl
    | cons second rest =>
      have ongoing : ¬sofar.length + 1 = code.announced lead := by
        rw [← all, List.length_cons]
        omega
      have further := inductionHypothesis (sofar ++ [letter]) continuing.2 (List.cons_ne_nil _ _)
        (by rw [List.length_append, List.length_singleton, ← all]; omega)
      rw [if_neg ongoing, further, List.append_assoc]
      rfl

theorem scan_complete {sequence : Begun Letter} (complete : code.Complete sequence)
    (text : List Letter) :
    code.scan none (sequence.letters ++ text) =
      (.complete sequence :: code.pieces text, (code.scan none text).2) := by
  have lacks : sequence.rest ≠ [] := by
    rw [← List.length_pos_iff, complete.length_eq]
    exact complete.leads
  rw [Begun.letters, List.cons_append, scan_lead complete.leads,
    scan_rest [] complete.continuing lacks
      (by rw [List.length_nil, Nat.zero_add, complete.length_eq])]
  rfl

theorem complete_mem_pieces_iff {sequence : Begun Letter} (complete : code.Complete sequence)
    (text : List Letter) :
    Piece.complete sequence ∈ code.pieces text ↔ sequence.letters <:+: text := by
  constructor
  · intro member
    obtain ⟨before, after, parts⟩ := List.append_of_mem member
    have joined : (code.pieces text).flatMap Piece.letters ++
        begunLetters (code.scan none text).2 = text := scan_letters none text
    rw [parts, List.flatMap_append, List.flatMap_cons] at joined
    refine ⟨before.flatMap Piece.letters,
      after.flatMap Piece.letters ++ begunLetters (code.scan none text).2, ?_⟩
    refine Eq.trans ?_ joined
    simp only [List.append_assoc]
    rfl
  · rintro ⟨before, after, rfl⟩
    have restarts := code.lead_continues sequence.lead complete.leads
    -- whatever has begun before it, the sequence is read from its lead on
    rw [pieces, List.append_assoc, scan_append, Begun.letters, List.cons_append,
      scan_restart _ restarts, pieces, ← List.cons_append, ← Begun.letters, scan_complete complete]
    exact List.mem_append_right _ (List.mem_append_right _ List.mem_cons_self)

theorem scan_unfinished {lead : Letter} (sofar : List Letter) {rest : List Letter}
    (continuing : ∀ letter ∈ rest, code.continues letter = true)
    (lacks : sofar.length + rest.length < code.announced lead) :
    code.scan (some ⟨lead, sofar⟩) rest = ([], some ⟨lead, sofar ++ rest⟩) := by
  induction rest generalizing sofar with
  | nil => rw [scan, List.append_nil]
  | cons letter rest inductionHypothesis =>
    rw [List.forall_mem_cons] at continuing
    rw [List.length_cons] at lacks
    have ongoing : ¬sofar.length + 1 = code.announced lead := by omega
    have further := inductionHypothesis (sofar ++ [letter]) continuing.2
      (by rw [List.length_append, List.length_singleton]; omega)
    rw [scan, step, extend, if_pos continuing.1, if_neg ongoing, further, List.append_assoc]
    rfl

theorem scan_eq_some_iff (text : List Letter) (begun : Begun Letter) :
    (code.scan none text).2 = some begun ↔ code.Unfinished begun ∧ begun.letters <:+ text := by
  constructor
  · intro ends
    refine ⟨unfinished_of_scan ends, (code.pieces text).flatMap Piece.letters, ?_⟩
    have joined : (code.scan none text).1.flatMap Piece.letters ++
        begunLetters (code.scan none text).2 = text := scan_letters none text
    rw [ends] at joined
    exact joined
  · rintro ⟨unfinished, before, rfl⟩
    have restarts := code.lead_continues begun.lead (Nat.zero_lt_of_lt unfinished.length_lt)
    rw [scan_append, Begun.letters, scan_restart _ restarts,
      scan_lead (Nat.zero_lt_of_lt unfinished.length_lt),
      scan_unfinished [] unfinished.continuing
        (by rw [List.length_nil, Nat.zero_add]; exact unfinished.length_lt)]
    rfl

theorem scan_eq_none_iff (text : List Letter) :
    (code.scan none text).2 = none ↔
      ¬∃ begun : Begun Letter, code.Unfinished begun ∧ begun.letters <:+ text := by
  rw [Option.eq_none_iff_forall_ne_some, not_exists]
  exact forall_congr' fun begun => not_congr (scan_eq_some_iff text begun)

/-! ### Texts of the code -/

variable (code) in
/-- A piece of a text in which every sequence is complete and no letter is stray. -/
def Whole : Piece Letter → Prop
  | .single letter => code.single letter = true
  | .complete sequence => code.Complete sequence
  | .cut _ => False
  | .stray _ => False

theorem scan_whole {piece : Piece Letter} (whole : code.Whole piece) (text : List Letter) :
    code.scan none (piece.letters ++ text) =
      (piece :: code.pieces text, (code.scan none text).2) := by
  cases piece with
  | single letter => exact scan_single whole text
  | complete sequence => exact scan_complete whole text
  | cut sequence => exact absurd whole not_false
  | stray letter => exact absurd whole not_false

theorem pieces_flatMap {parts : List (Piece Letter)} (whole : ∀ piece ∈ parts, code.Whole piece) :
    code.pieces (parts.flatMap Piece.letters) = parts := by
  induction parts with
  | nil => rfl
  | cons piece parts inductionHypothesis =>
    rw [List.forall_mem_cons] at whole
    rw [pieces, List.flatMap_cons, scan_whole whole.1, inductionHypothesis whole.2]

end SynchronizingCode

end NativeLibs.Library
