/-
This file embeds how `common/net_utils.cpp` joins a host and a port and splits
such a text again. A host with a colon is an IPv6 address and stands in square
brackets when a port is joined to it. A split text begins with a bracket, or has
no colon, one colon or more of them, and each of these cases has its own outcome.
-/

import NativeLibs.Text.Split

namespace NativeLibs.Net

/-! ### The functions -/

/-- The values of `NetUtilsError` that `split_host_port` returns. -/
inductive NetUtilsError where
  | ipv6PortEmpty
  | ipv6MissingRightBracket
  | ipv6MissingBrackets
  | ipv4PortEmpty
  deriving DecidableEq

/-- `':'`. -/
def colon : UInt8 := 58

/-- `'['`. -/
def leftBracket : UInt8 := 91

/-- `']'`. -/
def rightBracket : UInt8 := 93

/-- The end of both branches with a port: the port may have to be there. -/
def withPort (requireNonEmptyPort : Bool) (error : NetUtilsError) (host port : Bytes) :
    Except NetUtilsError (Bytes × Bytes) :=
  if requireNonEmptyPort && port.isEmpty then .error error else .ok (host, port)

/-- The branch of `split_host_port` for a text that begins with a bracket. -/
def splitBracketed (addressString : Bytes) (requireNonEmptyPort : Bool) :
    Except NetUtilsError (Bytes × Bytes) :=
  match findFrom addressString [rightBracket, colon] 0 with
  | some pos =>
    withPort requireNonEmptyPort .ipv6PortEmpty ((addressString.drop 1).take (pos - 1))
      (addressString.drop (pos + 2))
  | none =>
    if addressString.getLast? = some rightBracket then
      .ok ((addressString.drop 1).take (addressString.length - 2), [])
    else .error .ipv6MissingRightBracket

/-- The branch for any other text. With two colons it is an IPv6 address without a port. -/
def splitUnbracketed (addressString : Bytes)
    (requireIpv6AddrInSquareBrackets requireNonEmptyPort : Bool) :
    Except NetUtilsError (Bytes × Bytes) :=
  match findFirstOf addressString [colon] with
  | some pos =>
    if findLastOf addressString [colon] ≠ some pos then
      if requireIpv6AddrInSquareBrackets then .error .ipv6MissingBrackets
      else .ok (addressString, [])
    else
      withPort requireNonEmptyPort .ipv4PortEmpty (addressString.take pos)
        (addressString.drop (pos + 1))
  | none => .ok (addressString, [])

/-- `utils::split_host_port`. -/
def splitHostPort (addressString : Bytes)
    (requireIpv6AddrInSquareBrackets requireNonEmptyPort : Bool) :
    Except NetUtilsError (Bytes × Bytes) :=
  if addressString.head? = some leftBracket then splitBracketed addressString requireNonEmptyPort
  else splitUnbracketed addressString requireIpv6AddrInSquareBrackets requireNonEmptyPort

/-- `utils::join_host_port`. -/
def joinHostPort (host port : Bytes) : Bytes :=
  if colon ∈ host then [leftBracket] ++ host ++ [rightBracket, colon] ++ port
  else host ++ [colon] ++ port

/-! ### Splitting what was joined -/

theorem withPort_of_given {requirePort : Bool} (error : NetUtilsError) (host : Bytes) {port : Bytes}
    (given : port ≠ [] ∨ requirePort = false) :
    withPort requirePort error host port = .ok (host, port) := by
  have allowed : (requirePort && port.isEmpty) = false := by
    rcases given with filled | optional
    · rw [List.isEmpty_eq_false_iff.mpr filled, Bool.and_false]
    · rw [optional, Bool.false_and]
  rw [withPort, allowed, if_neg Bool.false_ne_true]

theorem of_withPort {requirePort : Bool} {error : NetUtilsError} {host port : Bytes}
    {parts : Bytes × Bytes} (split : withPort requirePort error host port = .ok parts) :
    parts = (host, port) := by
  rw [withPort] at split
  split at split
  · cases split
  · exact (Except.ok.inj split).symm

theorem splitHostPort_bracketed {host port : Bytes} (noBracket : rightBracket ∉ host)
    (requireBrackets : Bool) {requirePort : Bool} (given : port ≠ [] ∨ requirePort = false) :
    splitHostPort ([leftBracket] ++ host ++ [rightBracket, colon] ++ port) requireBrackets
      requirePort = .ok (host, port) := by
  obtain ⟨text, joined⟩ : ∃ text, [leftBracket] ++ host ++ [rightBracket, colon] ++ port = text :=
    ⟨_, rfl⟩
  have absent : rightBracket ∉ [leftBracket] ++ host := by
    rw [List.singleton_append, List.mem_cons, not_or]
    exact ⟨by decide, noBracket⟩
  have found : findFrom text [rightBracket, colon] 0 = some (host.length + 1) := by
    have search := findFrom_append [] ([leftBracket] ++ host) [colon] port absent
    rw [← joined]
    simpa using search
  have front : text.head? = some leftBracket := by
    rw [← joined]
    rfl
  have behind : text.drop (host.length + 1 + 2) = port := by
    rw [← joined]
    exact List.drop_left' (by simp)
  have inside : (text.drop 1).take (host.length + 1 - 1) = host := by
    rw [← joined]
    simp
  rw [joined, splitHostPort, if_pos front, splitBracketed, found]
  simp only [behind, inside, withPort_of_given _ host given]

theorem splitHostPort_plain {host port : Bytes} (noBracket : leftBracket ∉ host)
    (noColon : colon ∉ host) (portColon : colon ∉ port) (requireBrackets : Bool)
    {requirePort : Bool} (given : port ≠ [] ∨ requirePort = false) :
    splitHostPort (host ++ [colon] ++ port) requireBrackets requirePort = .ok (host, port) := by
  have front : (host ++ colon :: port).head? ≠ some leftBracket := by
    cases host with
    | nil =>
      rw [List.nil_append, List.head?_cons]
      decide
    | cons byte rest =>
      rw [List.cons_append, List.head?_cons]
      intro same
      exact noBracket (Option.some.inj same ▸ List.mem_cons_self)
  have behind : (host ++ colon :: port).drop (host.length + 1) = port := by
    rw [← List.drop_drop, List.drop_left, List.drop_one, List.tail_cons]
  rw [List.append_assoc, List.singleton_append, splitHostPort, if_neg front, splitUnbracketed,
    findFirstOf_append noColon port, findLastOf_append host portColon]
  simp only [ne_eq, not_true_eq_false, if_false, List.take_left, behind,
    withPort_of_given _ host given]

/-! ### What a split text was -/

/-- The texts a host and a port may be split from. -/
def Splits (addressString host port : Bytes) : Prop :=
  addressString = host ++ [colon] ++ port ∨
    addressString = [leftBracket] ++ host ++ [rightBracket, colon] ++ port ∨
    (port = [] ∧ (addressString = host ∨ addressString = [leftBracket] ++ host ++ [rightBracket]))

theorem splits_of_splitBracketed {rest host port : Bytes} {requirePort : Bool}
    (split : splitBracketed (leftBracket :: rest) requirePort = .ok (host, port)) :
    Splits (leftBracket :: rest) host port := by
  rw [splitBracketed] at split
  cases found : findFrom (leftBracket :: rest) [rightBracket, colon] 0 with
  | some pos =>
    rw [found] at split
    obtain ⟨rfl, rfl⟩ := Prod.mk.inj (of_withPort split)
    have whole := eq_of_findFrom_zero found
    cases pos with
    | zero => cases whole
    | succ pos => exact .inr (.inl (by simpa using whole))
  | none =>
    rw [found] at split
    simp only at split
    split at split
    · rename_i closed
      obtain ⟨rfl, rfl⟩ := Prod.mk.inj (Except.ok.inj split)
      refine .inr (.inr ⟨rfl, .inr ?_⟩)
      obtain ⟨front, ended⟩ := List.getLast?_eq_some_iff.mp closed
      cases front with
      | nil => cases ended
      | cons byte front =>
        obtain ⟨rfl, rfl⟩ := List.cons.inj ended
        simp
    · cases split

theorem splits_of_splitUnbracketed {addressString host port : Bytes}
    {requireBrackets requirePort : Bool}
    (split : splitUnbracketed addressString requireBrackets requirePort = .ok (host, port)) :
    Splits addressString host port := by
  by_cases present : colon ∈ addressString
  · obtain ⟨before, after, rfl, absent⟩ := List.eq_append_cons_of_mem present
    rw [splitUnbracketed, findFirstOf_append absent after] at split
    simp only at split
    split at split
    · split at split
      · cases split
      · obtain ⟨rfl, rfl⟩ := Prod.mk.inj (Except.ok.inj split)
        exact .inr (.inr ⟨rfl, .inl rfl⟩)
    · obtain ⟨rfl, rfl⟩ := Prod.mk.inj (of_withPort split)
      exact .inl (by simp)
  · rw [splitUnbracketed, findFirstOf_eq_none present] at split
    obtain ⟨rfl, rfl⟩ := Prod.mk.inj (Except.ok.inj split)
    exact .inr (.inr ⟨rfl, .inl rfl⟩)

/-- What `join_host_port` joins, `split_host_port` splits again, if the host has no brackets and the
port no colon, whether or not brackets are required, and if the port is there or need not be. And
whatever is split is the host and the port with a colon, or with brackets and a colon, or without
a port the host alone or in brackets. -/
theorem hostPort_roundTrip :
    (∀ host port : Bytes, leftBracket ∉ host → rightBracket ∉ host → colon ∉ port →
      ∀ requireBrackets requirePort : Bool, port ≠ [] ∨ requirePort = false →
        splitHostPort (joinHostPort host port) requireBrackets requirePort = .ok (host, port)) ∧
    ∀ (addressString host port : Bytes) (requireBrackets requirePort : Bool),
      splitHostPort addressString requireBrackets requirePort = .ok (host, port) →
        Splits addressString host port := by
  constructor
  · intro host port noLeft noRight portColon requireBrackets requirePort given
    rw [joinHostPort]
    split
    · exact splitHostPort_bracketed noRight requireBrackets given
    · rename_i noColon
      exact splitHostPort_plain noLeft noColon portColon requireBrackets given
  · intro addressString host port requireBrackets requirePort split
    rw [splitHostPort] at split
    split at split
    · rename_i front
      obtain ⟨rest, rfl⟩ := List.head?_eq_some_iff.mp front
      exact splits_of_splitBracketed split
    · exact splits_of_splitUnbracketed split

/-- An IPv6 address with a port. -/
theorem hostPort_roundTrip_ipv6 :
    splitHostPort (joinHostPort (ascii "ffff::0") (ascii "4433")) true true =
        .ok (ascii "ffff::0", ascii "4433") ∧
      Splits (ascii "[ffff::0]:4433") (ascii "ffff::0") (ascii "4433") := by
  obtain ⟨joined, split⟩ := hostPort_roundTrip
  have read := joined (ascii "ffff::0") (ascii "4433") (by decide) (by decide) (by decide) true true
    (.inl (by decide))
  exact ⟨read, split _ _ _ true true read⟩

end NativeLibs.Net
