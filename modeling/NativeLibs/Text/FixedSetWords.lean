/-
This file proves what the reader of `lookup_string_in_fixed_set.cc` finds in an array of
the format that `make_dafsa.py` describes: exactly the names that the array spells, each
with its return value, for a whole name and for one character after the other. It reads
no byte outside of the array, and its loops end.

The format is stated on the bytes. A label is a sequence of characters of which the last
one has its leading bit set, and a list of offsets follows it; a return value ends a word.
An array comes with the states that a reader can be in, and each of them can be checked.
-/

import NativeLibs.Text.Domain
import NativeLibs.Text.FixedSet

namespace NativeLibs.FixedSet

/-! ### The format -/

/-- An offset: its distance, its number of bytes, and whether its list ends with it. -/
def offsetAt (graph : Bytes) (pos : ℕ) : Option (ℕ × ℕ × Bool) := do
  let first ← byteAt graph pos
  if first % 0x80 < 0x40 then some (first % 0x40, 1, 0x80 ≤ first)
  else do
    let second ← byteAt graph (pos + 1)
    if first % 0x80 < 0x60 then some (first % 0x20 * 0x100 + second, 2, 0x80 ≤ first)
    else do
      let third ← byteAt graph (pos + 2)
      some (first % 0x20 * 0x10000 + second * 0x100 + third, 3, 0x80 ≤ first)

/-- The child nodes that a list of offsets leads to. Each distance is from the child before,
and the first one is from the list. -/
def listed (graph : Bytes) : ℕ → ℕ → ℕ → Option (List ℕ)
  | 0, _, _ => none
  | rounds + 1, pos, base =>
    (offsetAt graph pos).bind fun (distance, size, isLast) =>
      (if isLast then some [] else listed graph rounds (pos + size) (base + distance)).map
        fun others => (base + distance) :: others

/-- The child nodes of a node whose list of offsets is at a position. -/
def children (graph : Bytes) (pos : ℕ) : Option (List ℕ) := listed graph graph.length pos pos

/-- The names with return values that the bytes spell from a character of a label on, or from
a list of offsets on. -/
inductive Spells (graph : Bytes) : Bool → ℕ → List ℕ → ℕ → Prop
  | value {pos byte : ℕ} (read : byteAt graph pos = some byte) (last : 0x80 ≤ byte)
      (isValue : byte % 0x80 < 0x20) : Spells graph true pos [] (byte % 0x80)
  | char {pos byte value : ℕ} {name : List ℕ} (read : byteAt graph pos = some byte)
      (printable : 0x20 ≤ byte % 0x80) (rest : Spells graph (byte < 0x80) (pos + 1) name value) :
      Spells graph true pos (byte % 0x80 :: name) value
  | child {pos child value : ℕ} {nodes name : List ℕ} (list : children graph pos = some nodes)
      (mem : child ∈ nodes) (rest : Spells graph true child name value) :
      Spells graph false pos name value

/-- The first character of a label, or none if it is a return value. -/
def letterAt (graph : Bytes) (pos : ℕ) : Option ℕ :=
  (byteAt graph pos).bind fun byte => if byte % 0x80 < 0x20 then none else some (byte % 0x80)

/-- The check of a state: what may follow is a state, all jumps are forward, and no two
children start with the same character or are both return values. -/
def accepts (graph : Bytes) (states : List (Bool × ℕ)) : Bool × ℕ → Bool
  | (true, pos) =>
    match byteAt graph pos with
    | none => false
    | some byte =>
      if byte % 0x80 < 0x20 then 0x80 ≤ byte else (decide (byte < 0x80), pos + 1) ∈ states
  | (false, pos) =>
    match children graph pos with
    | none => false
    | some nodes => (∀ node ∈ nodes, pos < node ∧ (true, node) ∈ states) ∧
      (nodes.map (letterAt graph)).Nodup

/-- An array of the format. A state says whether a character of a label is next, and where. -/
structure Dafsa where
  graph : Bytes
  states : List (Bool × ℕ)
  start_mem : (false, 0) ∈ states
  accepted : ∀ state ∈ states, accepts graph states state = true

/-- The name is in the list that the array was compiled from, with the value. -/
def Dafsa.Lists (dafsa : Dafsa) (name : Bytes) (value : ℕ) : Prop :=
  Spells dafsa.graph false 0 (name.map UInt8.toNat) value

/-! ### The bytes -/

theorem byte_bits : ∀ byte < 0x100, (byte &&& 0x60 = 0x60 ↔ 0x60 ≤ byte % 0x80) ∧
    (byte &&& 0x60 = 0x40 ↔ 0x40 ≤ byte % 0x80 ∧ byte % 0x80 < 0x60) ∧
    (byte &&& 0x80 ≠ 0 ↔ 0x80 ≤ byte) ∧ byte &&& 0x1F = byte % 0x20 ∧
    byte &&& 0x3F = byte % 0x40 ∧ byte &&& 0x7F = byte % 0x80 ∧
    (byte &&& 0xE0 = 0x80 ↔ 0x80 ≤ byte ∧ byte % 0x80 < 0x20) := by
  decide +kernel

theorem byteAt_lt {graph : Bytes} {pos byte : ℕ} (read : byteAt graph pos = some byte) :
    byte < 0x100 := by
  obtain ⟨element, -, rfl⟩ := Option.map_eq_some_iff.mp read
  exact element.toNat_lt

theorem shiftLeft_or {high low : ℕ} (small : low < 0x100) :
    high <<< 8 ||| low = high * 0x100 + low := by
  rw [← Nat.shiftLeft_add_eq_or_of_lt small, Nat.shiftLeft_eq]

theorem getNextOffset_eq (graph : Bytes) (pos offset : ℕ) :
    getNextOffset graph (some pos) offset = (offsetAt graph pos).map fun (distance, size, isLast) =>
      (true, if isLast then none else some (pos + size), offset + distance) := by
  simp only [getNextOffset, offsetAt, Option.bind_eq_bind]
  cases isFirst : byteAt graph pos with
  | none => rfl
  | some first =>
    obtain ⟨three, two, last, low5, low6, -, -⟩ := byte_bits first (byteAt_lt isFirst)
    simp only [Option.bind_some, three, two, last, low5, low6]
    by_cases short : first % 0x80 < 0x40
    · simp [short, show ¬0x60 ≤ first % 0x80 by omega, show ¬0x40 ≤ first % 0x80 by omega]
    · by_cases wide : 0x60 ≤ first % 0x80
      · simp only [wide, short, not_lt.mpr wide, if_true, if_false]
        cases isSecond : byteAt graph (pos + 1) with
        | none => rfl
        | some second =>
          cases isThird : byteAt graph (pos + 2) with
          | none => rfl
          | some third =>
            have parts : (first % 0x20) <<< 16 ||| second <<< 8 ||| third =
                first % 0x20 * 0x10000 + second * 0x100 + third := by
              have twice : (first % 0x20) <<< 16 = (first % 0x20) <<< 8 <<< 8 := by
                rw [← Nat.shiftLeft_add]
              rw [twice, ← Nat.shiftLeft_or_distrib, shiftLeft_or (byteAt_lt isSecond),
                shiftLeft_or (byteAt_lt isThird)]
              omega
            simp [parts]
      · simp only [wide, short, not_le.mp wide, not_lt.mp short, if_true, if_false, and_self]
        cases isSecond : byteAt graph (pos + 1) with
        | none => rfl
        | some second => simp [shiftLeft_or (byteAt_lt isSecond)]

theorem exists_of_listed {graph : Bytes} {rounds pos base : ℕ} {nodes : List ℕ}
    (list : listed graph rounds pos base = some nodes) :
    ∃ node others, nodes = node :: others := by
  cases rounds with
  | zero => cases list
  | succ rounds =>
    obtain ⟨_, -, list⟩ := Option.bind_eq_some_iff.mp list
    obtain ⟨others, -, rfl⟩ := Option.map_eq_some_iff.mp list
    exact ⟨_, others, rfl⟩

theorem whileOffsets_eq {Result : Type} {graph : Bytes} (visit : ℕ → Option (Option Result))
    {rounds pos base : ℕ} {nodes : List ℕ} (list : listed graph rounds pos base = some nodes) :
    whileOffsets graph visit (rounds + 1) (some pos) base = nodes.findSomeM? visit := by
  induction rounds generalizing pos base nodes with
  | zero => cases list
  | succ rounds inductionHypothesis =>
    obtain ⟨⟨distance, size, isLast⟩, offset, list⟩ := Option.bind_eq_some_iff.mp list
    obtain ⟨others, later, rfl⟩ := Option.map_eq_some_iff.mp list
    rw [whileOffsets, getNextOffset_eq, offset, List.findSomeM?_cons]
    simp only [Option.map_some, Option.bind_eq_bind, Option.bind_some, if_true]
    congr 1
    funext found
    cases found with
    | some result => rfl
    | none =>
      cases isLast with
      | true =>
        cases later
        rfl
      | false => exact inductionHypothesis later

theorem matchLabel_eq {graph : Bytes} {pos byte : ℕ} (read : byteAt graph pos = some byte)
    (letter : ℕ) : matchLabel graph letter pos = some (if byte % 0x80 = letter then
      some ⟨some (pos + 1), byte < 0x80⟩ else none) := by
  obtain ⟨-, -, last, -, -, low7, -⟩ := byte_bits byte (byteAt_lt read)
  have eol : (!decide (byte &&& 0x80 ≠ 0)) = decide (byte < 0x80) := by
    rw [← decide_not, decide_eq_decide, last, not_le]
  simp only [matchLabel, isEOL, isMatch, read, Option.bind_eq_bind, Option.bind_some, low7, eol,
    decide_eq_true_eq, Nat.cast_inj]

theorem getReturnValue_eq {graph : Bytes} {pos byte : ℕ} (read : byteAt graph pos = some byte) :
    getReturnValue graph pos =
      some (if 0x80 ≤ byte ∧ byte % 0x80 < 0x20 then some (byte % 0x80) else none) := by
  obtain ⟨-, -, -, low5, -, -, isValue⟩ := byte_bits byte (byteAt_lt read)
  simp only [getReturnValue, read, Option.bind_eq_bind, Option.bind_some, isValue, low5]
  split_ifs with value
  · rw [show byte % 0x20 = byte % 0x80 by omega]
  · rfl

/-! ### What is spelled -/

/-- The nodes that a state is about. -/
def nodesAt (graph : Bytes) : Bool → ℕ → Option (List ℕ)
  | true, pos => some [pos]
  | false, pos => children graph pos

/-- The words that are left in a state. -/
def Left (graph : Bytes) (state : Lookup) (name : List ℕ) (value : ℕ) : Prop :=
  ∃ pos, state.pos = some pos ∧ Spells graph state.posIsLabelCharacter pos name value

@[simp]
theorem left_none {graph : Bytes} {isLabel : Bool} {name : List ℕ} {value : ℕ} :
    ¬Left graph ⟨none, isLabel⟩ name value := by
  simp [Left]

@[simp]
theorem left_some {graph : Bytes} {isLabel : Bool} {pos value : ℕ} {name : List ℕ} :
    Left graph ⟨some pos, isLabel⟩ name value ↔ Spells graph isLabel pos name value := by
  simp [Left]

/-- The state after the first letter of a label. -/
def Reads (graph : Bytes) (letter pos : ℕ) (state : Lookup) : Prop :=
  ∃ byte, byteAt graph pos = some byte ∧ byte % 0x80 = letter ∧
    ⟨some (pos + 1), byte < 0x80⟩ = state

section Spelling

variable {graph : Bytes} {pos letter value : ℕ} {name : List ℕ} {isLabel : Bool}

theorem spells_iff {nodes : List ℕ} (isAt : nodesAt graph isLabel pos = some nodes) :
    Spells graph isLabel pos name value ↔ ∃ node ∈ nodes, Spells graph true node name value := by
  cases isLabel with
  | true =>
    cases isAt
    simp
  | false =>
    constructor
    · intro spelled
      cases spelled with
      | child other mem rest =>
        cases isAt.symm.trans other
        exact ⟨_, mem, rest⟩
    · rintro ⟨node, mem, rest⟩
      exact .child isAt mem rest

theorem spells_cons_iff (printable : 0x20 ≤ letter) :
    Spells graph true pos (letter :: name) value ↔
      ∃ state, Reads graph letter pos state ∧ Left graph state name value := by
  constructor
  · intro spelled
    cases spelled with
    | char read _ rest => exact ⟨_, ⟨_, read, rfl, rfl⟩, _, rfl, rest⟩
  · rintro ⟨_, ⟨byte, read, rfl, rfl⟩, _, ⟨⟩, rest⟩
    exact .char read printable rest

theorem letterAt_of_spells (spelled : Spells graph true pos name value) :
    letterAt graph pos = name.head? := by
  cases spelled with
  | value read _ isValue => simp [letterAt, read, isValue]
  | char read printable _ => simp [letterAt, read, not_lt.mpr printable]

theorem letter_of_spells (spelled : Spells graph isLabel pos (letter :: name) value) :
    0x20 ≤ letter ∧ letter < 0x80 := by
  have label {pos : ℕ} (spelled : Spells graph true pos (letter :: name) value) :
      0x20 ≤ letter ∧ letter < 0x80 := by
    cases spelled with
    | char _ printable _ => exact ⟨printable, Nat.mod_lt _ (by decide)⟩
  cases isLabel with
  | true => exact label spelled
  | false =>
    cases spelled with
    | child _ _ rest => exact label rest

end Spelling

/-- A `char` has the value of its byte, or is negative. -/
theorem charValue_cases (signed : Bool) (byte : UInt8) :
    charValue signed byte = byte.toNat ∨ charValue signed byte < 0x20 ∧ 0x80 ≤ byte.toNat := by
  have small := byte.toNat_lt
  cases signed with
  | false => exact .inl rfl
  | true =>
    simp only [charValue, if_true, Int8.toInt, UInt8.toBitVec_toInt8, BitVec.toInt_eq_toNat_cond,
      UInt8.toNat_toBitVec]
    split <;> omega

namespace Dafsa

variable (dafsa : Dafsa)

theorem label_cases {pos : ℕ} (mem : (true, pos) ∈ dafsa.states) :
    ∃ byte, byteAt dafsa.graph pos = some byte ∧ (0x80 ≤ byte ∧ byte % 0x80 < 0x20 ∨
      0x20 ≤ byte % 0x80 ∧ (decide (byte < 0x80), pos + 1) ∈ dafsa.states) := by
  have accepted := dafsa.accepted _ mem
  unfold accepts at accepted
  cases read : byteAt dafsa.graph pos with
  | none => simp [read] at accepted
  | some byte =>
    simp only [read] at accepted
    split at accepted
    · next isValue => exact ⟨byte, rfl, .inl ⟨of_decide_eq_true accepted, isValue⟩⟩
    · next printable => exact ⟨byte, rfl, .inr ⟨not_lt.mp printable, of_decide_eq_true accepted⟩⟩

theorem next_mem {pos byte : ℕ} (mem : (true, pos) ∈ dafsa.states)
    (read : byteAt dafsa.graph pos = some byte) (printable : 0x20 ≤ byte % 0x80) :
    (decide (byte < 0x80), pos + 1) ∈ dafsa.states := by
  obtain ⟨other, same, ⟨-, isValue⟩ | ⟨-, next⟩⟩ := dafsa.label_cases mem
  · cases read.symm.trans same
    exact absurd printable (not_le.mpr isValue)
  · cases read.symm.trans same
    exact next

theorem list_cases {pos : ℕ} (mem : (false, pos) ∈ dafsa.states) :
    ∃ nodes, children dafsa.graph pos = some nodes ∧
      (∀ node ∈ nodes, pos < node ∧ (true, node) ∈ dafsa.states) ∧
      (nodes.map (letterAt dafsa.graph)).Nodup := by
  have accepted := dafsa.accepted _ mem
  unfold accepts at accepted
  cases list : children dafsa.graph pos with
  | none => simp [list] at accepted
  | some nodes =>
    simp only [list, decide_eq_true_eq] at accepted
    exact ⟨nodes, rfl, accepted⟩

theorem nodes_cases {isLabel : Bool} {pos : ℕ} (mem : (isLabel, pos) ∈ dafsa.states) :
    ∃ nodes, nodesAt dafsa.graph isLabel pos = some nodes ∧
      (∀ node ∈ nodes, (true, node) ∈ dafsa.states) ∧
      (nodes.map (letterAt dafsa.graph)).Nodup := by
  cases isLabel with
  | true => exact ⟨[pos], rfl, by simpa using mem, by simp⟩
  | false =>
    obtain ⟨nodes, list, forward, apart⟩ := dafsa.list_cases mem
    exact ⟨nodes, list, fun node isNode => (forward node isNode).2, apart⟩

/-- The value of a name is unique, since the first character tells the nodes apart. -/
theorem spells_unique {isLabel : Bool} {pos value other : ℕ} {name : List ℕ}
    (mem : (isLabel, pos) ∈ dafsa.states) (spelled : Spells dafsa.graph isLabel pos name value)
    (also : Spells dafsa.graph isLabel pos name other) : value = other := by
  induction spelled with
  | value read _ _ =>
    cases also with
    | value same _ _ =>
      cases read.symm.trans same
      rfl
  | char read printable rest inductionHypothesis =>
    obtain ⟨_, ⟨_, same, -, rfl⟩, _, ⟨⟩, rest'⟩ := (spells_cons_iff printable).mp also
    cases read.symm.trans same
    exact inductionHypothesis (dafsa.next_mem mem read printable) rest'
  | child list isNode rest inductionHypothesis =>
    obtain ⟨_, same, forward, apart⟩ := dafsa.list_cases mem
    cases list.symm.trans same
    cases also with
    | child another isAnother rest' =>
      cases list.symm.trans another
      obtain rfl := List.inj_on_of_nodup_map apart isNode isAnother
        ((letterAt_of_spells rest).trans (letterAt_of_spells rest').symm)
      exact inductionHypothesis (forward _ isNode).2 rest'

/-- Every state leads to a word: no jump is backward, and the array ends. -/
theorem exists_spells {isLabel : Bool} {pos : ℕ} (mem : (isLabel, pos) ∈ dafsa.states) :
    ∃ name value, Spells dafsa.graph isLabel pos name value := by
  have inside {pos : ℕ} (mem : (true, pos) ∈ dafsa.states) : pos < dafsa.graph.length := by
    obtain ⟨byte, read, -⟩ := dafsa.label_cases mem
    obtain ⟨element, present, -⟩ := Option.map_eq_some_iff.mp read
    exact (List.getElem?_eq_some_iff.mp present).1
  -- Each step goes forward, so by induction on the bytes that are left.
  induction left : dafsa.graph.length - pos using Nat.strong_induction_on
    generalizing isLabel pos with
  | _ left inductionHypothesis =>
    cases isLabel with
    | true =>
      have := inside mem
      obtain ⟨byte, read, ⟨last, isValue⟩ | ⟨printable, next⟩⟩ := dafsa.label_cases mem
      · exact ⟨[], _, .value read last isValue⟩
      · obtain ⟨name, value, rest⟩ := inductionHypothesis _ (by omega) next rfl
        exact ⟨_, value, .char read printable rest⟩
    | false =>
      obtain ⟨nodes, list, forward, -⟩ := dafsa.list_cases mem
      obtain ⟨node, others, rfl⟩ := exists_of_listed list
      obtain ⟨later, isNode⟩ := forward node List.mem_cons_self
      have := inside isNode
      obtain ⟨name, value, rest⟩ := inductionHypothesis _ (by omega) isNode rfl
      exact ⟨name, value, .child list List.mem_cons_self rest⟩

/-! ### The reader -/

/-- What the reader finds in a state is what one of the nodes has, if the first character
tells apart which. -/
theorem search_spec {Result : Type} (visit : ℕ → Option (Option Result))
    (found : ℕ → Result → Prop) (visits : ∀ {pos}, (true, pos) ∈ dafsa.states →
      ∃ result, visit pos = some result ∧ ∀ item, result = some item ↔ found pos item)
    (same : ∀ {node other item another}, found node item → found other another →
      letterAt dafsa.graph node = letterAt dafsa.graph other)
    {isLabel : Bool} {pos : ℕ} {nodes : List ℕ}
    (isAt : nodesAt dafsa.graph isLabel pos = some nodes)
    (labels : ∀ node ∈ nodes, (true, node) ∈ dafsa.states)
    (apart : (nodes.map (letterAt dafsa.graph)).Nodup) :
    ∃ result, (if isLabel then visit pos else
        whileOffsets dafsa.graph visit (dafsa.graph.length + 1) (some pos) pos) = some result ∧
      ∀ item, result = some item ↔ ∃ node ∈ nodes, found node item := by
  cases isLabel with
  | true =>
    cases isAt
    simpa using visits (labels pos List.mem_cons_self)
  | false =>
    simp only [Bool.false_eq_true, if_false]
    rw [whileOffsets_eq visit isAt]
    clear isAt
    induction nodes with
    | nil => exact ⟨none, rfl, by simp⟩
    | cons node nodes inductionHypothesis =>
      obtain ⟨first, others⟩ := List.nodup_cons.mp apart
      obtain ⟨isNode, areNodes⟩ := List.forall_mem_cons.mp labels
      obtain ⟨result, visited, found_iff⟩ := visits isNode
      rw [List.findSomeM?_cons, visited]
      simp only [List.exists_mem_cons_iff, ← found_iff]
      cases result with
      | none => simpa using inductionHypothesis areNodes others
      | some result =>
        -- The loop ends here, and no later child could have been found as well.
        refine ⟨some result, rfl, fun item => (or_iff_left ?_).symm⟩
        rintro ⟨other, mem, also⟩
        exact first (List.mem_map.mpr ⟨other, mem, same also ((found_iff result).mp rfl)⟩)

/-- `Advance` is in such a state; at the end of the graph there is no position. -/
def Legal (state : Lookup) : Prop :=
  state = ⟨none, false⟩ ∨
    ∃ isLabel pos, (isLabel, pos) ∈ dafsa.states ∧ state = ⟨some pos, isLabel⟩

/-- What `Advance` compares. -/
theorem compare_spec {letter pos : ℕ} {isLabel : Bool} (printable : 0x20 ≤ letter)
    (mem : (isLabel, pos) ∈ dafsa.states) :
    ∃ matched, (if isLabel then matchLabel dafsa.graph letter pos else whileOffsets dafsa.graph
        (matchLabel dafsa.graph letter) (dafsa.graph.length + 1) (some pos) pos) = some matched ∧
      (∀ state, matched = some state → ∃ isLabel pos, (isLabel, pos) ∈ dafsa.states ∧
        state = ⟨some pos, isLabel⟩) ∧
      ∀ name value, Spells dafsa.graph isLabel pos (letter :: name) value ↔
        ∃ state, matched = some state ∧ Left dafsa.graph state name value := by
  obtain ⟨nodes, isAt, labels, apart⟩ := dafsa.nodes_cases mem
  have visits {pos : ℕ} (mem : (true, pos) ∈ dafsa.states) :
      ∃ result, matchLabel dafsa.graph letter pos = some result ∧
        ∀ state, result = some state ↔ Reads dafsa.graph letter pos state := by
    obtain ⟨byte, read, -⟩ := dafsa.label_cases mem
    exact ⟨_, matchLabel_eq read letter, by simp [Reads, read]⟩
  have same {node other : ℕ} {state another : Lookup} (reads : Reads dafsa.graph letter node state)
      (also : Reads dafsa.graph letter other another) :
      letterAt dafsa.graph node = letterAt dafsa.graph other := by
    obtain ⟨_, read, rfl, -⟩ := reads
    obtain ⟨_, read', isLetter, -⟩ := also
    simp [letterAt, read, read', isLetter]
  obtain ⟨matched, compared, matched_iff⟩ := dafsa.search_spec _ _ visits same isAt labels apart
  refine ⟨matched, compared, ?_, ?_⟩
  · intro state isState
    obtain ⟨node, isNode, byte, read, rfl, rfl⟩ := (matched_iff state).mp isState
    exact ⟨_, _, dafsa.next_mem (labels node isNode) read printable, rfl⟩
  · intro name value
    simp only [spells_iff isAt, spells_cons_iff printable, matched_iff]
    grind

/-- `Advance` leads to what is left of the words that start with the character. -/
theorem advance_spec {state : Lookup} (legal : dafsa.Legal state) (signed : Bool) (byte : UInt8) :
    ∃ next, advance dafsa.graph state (charValue signed byte) = some (next.pos.isSome, next) ∧
      dafsa.Legal next ∧ ∀ name value,
        Left dafsa.graph next name value ↔ Left dafsa.graph state (byte.toNat :: name) value := by
  rcases legal with rfl | ⟨isLabel, pos, mem, rfl⟩
  · exact ⟨⟨none, false⟩, rfl, .inl rfl, by simp⟩
  · by_cases printable : charValue signed byte ≥ 0x20
    · have isByte : charValue signed byte = byte.toNat :=
        (charValue_cases signed byte).resolve_right fun small => not_lt.mpr printable small.1
      obtain ⟨matched, compared, legal, rest_iff⟩ :=
        @compare_spec dafsa byte.toNat _ _ (by omega) mem
      have advanced : advance dafsa.graph ⟨some pos, isLabel⟩ (charValue signed byte) =
          some (matched.isSome, matched.getD ⟨none, false⟩) := by
        simp only [advance, printable, if_true, Option.bind_eq_bind]
        rw [← isByte] at compared
        cases isLabel with
        | true =>
          rw [if_pos rfl] at compared ⊢
          rw [compared]
          cases matched <;> rfl
        | false =>
          rw [if_neg Bool.false_ne_true] at compared ⊢
          rw [compared]
          cases matched <;> rfl
      simp only [left_some, rest_iff, advanced]
      cases matched with
      | none => exact ⟨⟨none, false⟩, rfl, .inl rfl, by simp⟩
      | some next =>
        obtain ⟨isLabel, pos, isState, rfl⟩ := legal next rfl
        exact ⟨⟨some pos, isLabel⟩, rfl, .inr ⟨_, _, isState, rfl⟩, by simp⟩
    · -- A character that is not printable is in no label.
      refine ⟨⟨none, false⟩, by simp [advance, printable], .inl rfl, ?_⟩
      intro name value
      simp only [left_none, left_some, false_iff]
      intro spelled
      have range := letter_of_spells spelled
      have := charValue_cases signed byte
      omega

theorem isSome_iff {state : Lookup} (legal : dafsa.Legal state) :
    state.pos.isSome = true ↔ ∃ name value, Left dafsa.graph state name value := by
  rcases legal with rfl | ⟨isLabel, pos, mem, rfl⟩
  · simp
  · simpa using dafsa.exists_spells mem

/-- The result for a name: its value, if it is listed. -/
def Answers (values : ℕ → Prop) (result : ℤ) : Prop :=
  (∃ value, values value ∧ result = value) ∨ result = dafsaNotFound ∧ ∀ value, ¬values value

/-- `GetResultForCurrentSequence` is the value of the word that is left with no character. -/
theorem getResult_spec {state : Lookup} (legal : dafsa.Legal state) :
    ∃ result, getResultForCurrentSequence dafsa.graph state = some result ∧
      Answers (Left dafsa.graph state []) result := by
  rcases legal with rfl | ⟨isLabel, pos, mem, rfl⟩
  · exact ⟨dafsaNotFound, rfl, .inr ⟨rfl, by simp⟩⟩
  · obtain ⟨nodes, isAt, labels, apart⟩ := dafsa.nodes_cases mem
    have visits {pos : ℕ} (mem : (true, pos) ∈ dafsa.states) :
        ∃ result, getReturnValue dafsa.graph pos = some result ∧
          ∀ value, result = some value ↔ Spells dafsa.graph true pos [] value := by
      obtain ⟨byte, read, -⟩ := dafsa.label_cases mem
      refine ⟨_, getReturnValue_eq read, fun value => ⟨fun isValue => ?_, fun spelled => ?_⟩⟩
      · split_ifs at isValue with range
        cases isValue
        exact .value read range.1 range.2
      · cases spelled with
        | value other last isValue =>
          cases read.symm.trans other
          rw [if_pos ⟨last, isValue⟩]
    obtain ⟨found, searched, found_iff⟩ := dafsa.search_spec _ _ visits
      (fun first second => (letterAt_of_spells first).trans (letterAt_of_spells second).symm)
      isAt labels apart
    have result : getResultForCurrentSequence dafsa.graph ⟨some pos, isLabel⟩ =
        some (found.elim dafsaNotFound Nat.cast) := by
      simp only [getResultForCurrentSequence, Option.bind_eq_bind]
      cases isLabel with
      | true =>
        rw [if_pos rfl] at searched ⊢
        rw [Option.bind_some, searched]
        cases found <;> rfl
      | false =>
        rw [if_neg Bool.false_ne_true] at searched ⊢
        rw [Option.getD_some, searched]
        cases found <;> rfl
    simp only [Answers, left_some, spells_iff isAt, ← found_iff]
    refine ⟨_, result, ?_⟩
    cases found with
    | none => exact .inr ⟨rfl, by simp⟩
    | some value => exact .inl ⟨value, rfl, rfl⟩

/-! ### Whole names -/

theorem legal_start : dafsa.Legal start := .inr ⟨false, 0, dafsa.start_mem, rfl⟩

theorem lookupLoop_spec (signed : Bool) (key : Bytes) {state : Lookup}
    (legal : dafsa.Legal state) : ∃ result, lookupLoop dafsa.graph signed key state = some result ∧
      Answers (Left dafsa.graph state (key.map UInt8.toNat)) result := by
  induction key generalizing state with
  | nil => exact dafsa.getResult_spec legal
  | cons byte key inductionHypothesis =>
    obtain ⟨next, advanced, isLegal, left_iff⟩ := dafsa.advance_spec legal signed byte
    simp only [lookupLoop, advanced, Option.bind_eq_bind, Option.bind_some, List.map_cons]
    split
    · obtain ⟨result, looked, answers⟩ := inductionHypothesis isLegal
      refine ⟨result, looked, ?_⟩
      simpa only [Answers, left_iff] using answers
    · next ended =>
      refine ⟨dafsaNotFound, rfl, .inr ⟨rfl, fun value left => ended ?_⟩⟩
      exact (dafsa.isSome_iff isLegal).mpr ⟨_, _, (left_iff _ _).mpr left⟩

theorem lookupStringInFixedSet_answers (signed : Bool) (key : Bytes) :
    ∃ result, lookupStringInFixedSet dafsa.graph signed key = some result ∧
      Answers (dafsa.Lists key) result := by
  obtain ⟨result, looked, answers⟩ := dafsa.lookupLoop_spec signed key dafsa.legal_start
  exact ⟨result, looked, by simpa only [Answers, Lists, start, left_some] using answers⟩

/-- `LookupStringInFixedSet` finds exactly the names of the list, each with its value. -/
theorem lookup_eq_iff_lists (signed : Bool) (key : Bytes) :
    ∃ result, lookupStringInFixedSet dafsa.graph signed key = some result ∧
      (∀ value : ℕ, result = value ↔ dafsa.Lists key value) ∧
      (result = dafsaNotFound ↔ ∀ value, ¬dafsa.Lists key value) := by
  obtain ⟨result, looked, answers⟩ := dafsa.lookupStringInFixedSet_answers signed key
  refine ⟨result, looked, ?_⟩
  rcases answers with ⟨value, lists, rfl⟩ | ⟨rfl, unlisted⟩
  · refine ⟨fun other => ⟨fun same => ?_, fun also => ?_⟩, ?_⟩
    · rwa [← Nat.cast_inj.mp same]
    · rw [dafsa.spells_unique dafsa.start_mem lists also]
    · exact iff_of_false (by simp [dafsaNotFound]) fun none => none value lists
  · refine ⟨fun value => iff_of_false ?_ (unlisted value), iff_of_true rfl unlisted⟩
    simp [dafsaNotFound]

/-- The first array that `make_dafsa.py` gives as an example, for `aa` with 1 and `a` with 2. -/
def documented : Dafsa where
  graph := [0x81, 0xE1, 0x02, 0x81, 0x82, 0x61, 0x81]
  states := [(false, 0), (true, 1), (false, 2), (true, 4), (true, 5), (true, 6)]
  start_mem := by decide
  accepted := by decide

example : lookupStringInFixedSet documented.graph true (ascii "aa") = some 1 := by decide

/-- The second one, for `aa` and `baa` with 1, which share a node, and for `bbb` with 2. -/
def documentedShared : Dafsa where
  graph := [0x02, 0x83, 0xE2, 0x02, 0x83, 0x61, 0x61, 0x81, 0x62, 0x62, 0x82]
  states := [(false, 0), (true, 2), (false, 3), (true, 5), (true, 6), (true, 7), (true, 8),
    (true, 9), (true, 10)]
  start_mem := by decide
  accepted := by decide

example : ["aa", "baa", "bbb", "ba"].map (fun name =>
    lookupStringInFixedSet documentedShared.graph true (ascii name)) =
      [some 1, some 1, some 2, some (-1)] := by decide

/-- Several calls of `Advance`, whatever they return. -/
def advances (graph : Bytes) (signed : Bool) : Bytes → Lookup → Option Lookup
  | [], state => some state
  | byte :: key, state => do
    let (_, state) ← advance graph state (charValue signed byte)
    advances graph signed key state

theorem advances_spec (signed : Bool) (key : Bytes) {state : Lookup} (legal : dafsa.Legal state) :
    ∃ last, advances dafsa.graph signed key state = some last ∧ dafsa.Legal last ∧
      ∀ name value, Left dafsa.graph last name value ↔
        Left dafsa.graph state (key.map UInt8.toNat ++ name) value := by
  induction key generalizing state with
  | nil => exact ⟨state, rfl, legal, fun _ _ => Iff.rfl⟩
  | cons byte key inductionHypothesis =>
    obtain ⟨next, advanced, isLegal, left_iff⟩ := dafsa.advance_spec legal signed byte
    obtain ⟨last, rest, lastLegal, last_iff⟩ := inductionHypothesis isLegal
    refine ⟨last, ?_, lastLegal, fun name value => (last_iff name value).trans (left_iff _ _)⟩
    simp only [advances, advanced, Option.bind_eq_bind, Option.bind_some, rest]

/-- After any calls of `Advance` the result is that of the characters so far, and a further
call returns true exactly if a listed name goes on with its character. -/
theorem advance_iff_lists (signed : Bool) (key : Bytes) :
    ∃ state, advances dafsa.graph signed key start = some state ∧
      (∃ result, getResultForCurrentSequence dafsa.graph state = some result ∧
        Answers (dafsa.Lists key) result) ∧
      ∀ byte, ∃ advanced next,
        advance dafsa.graph state (charValue signed byte) = some (advanced, next) ∧
        (advanced = true ↔ ∃ rest value,
          Spells dafsa.graph false 0 (key.map UInt8.toNat ++ byte.toNat :: rest) value) := by
  obtain ⟨state, ran, legal, left_iff⟩ := dafsa.advances_spec signed key dafsa.legal_start
  obtain ⟨result, isResult, answers⟩ := dafsa.getResult_spec legal
  simp only [Answers, start, left_iff, left_some, List.append_nil] at answers
  refine ⟨state, ran, ⟨result, isResult, answers⟩, fun byte => ?_⟩
  obtain ⟨next, advanced, isLegal, next_iff⟩ := dafsa.advance_spec legal signed byte
  refine ⟨_, next, advanced, ?_⟩
  rw [dafsa.isSome_iff isLegal]
  simp only [next_iff, left_iff, start, left_some]

/-- `is_tld` is true of the names that are listed with 0, and `get_tld` is the longest of
them that the domain ends with at a label. -/
theorem getTld_longest_listed (signed : Bool) : ∃ registered : Bytes → Bool,
    (∀ name, isTld dafsa.graph signed name = some (registered name)) ∧
    (∀ name, registered name = true ↔ dafsa.Lists name 0) ∧
    ∀ domain, Tldregistry.LongestTld registered domain (Tldregistry.getTld registered domain) := by
  refine ⟨fun name => (isTld dafsa.graph signed name).getD false, fun name => ?_, fun name => ?_,
    Tldregistry.getTld_longest _⟩
  all_goals
    obtain ⟨result, looked, answers⟩ := dafsa.lookupStringInFixedSet_answers signed name
    simp only [isTld, looked, Option.bind_eq_bind, Option.bind_some, Option.getD_some]
  rcases answers with ⟨value, lists, rfl⟩ | ⟨rfl, unlisted⟩
  · have value_iff : dafsaFound = value ↔ dafsa.Lists name 0 := by
      refine ⟨fun same => ?_, fun also => ?_⟩
      · obtain rfl : value = 0 := Int.ofNat_eq_zero.mp same.symm
        exact lists
      · rw [dafsa.spells_unique dafsa.start_mem lists also]
        rfl
    simpa using value_iff
  · simpa [dafsaFound, dafsaNotFound] using unlisted 0

end Dafsa

end NativeLibs.FixedSet
