/-
This file models how `common/time_utils.cpp` takes a time apart into seconds and
microseconds: `duration_to_timeval`, `timeval_from_timepoint`, and the two parts
from which `format_gmtime` and `format_localtime` print a time.

All of them divide machine numbers, which rounds towards zero. Before 1970 the
microseconds are therefore negative, unless the time is a whole second, and are
printed with a sign. The tick of the system clock and the sizes of the members of
`timeval` are those of the platform. A time is converted to nanoseconds first, and
a time that is too far away overflows, which is undefined.
-/

import NativeLibs.Library.SignedNumbers
import NativeLibs.Time.Format

namespace NativeLibs.Time

open Library

/-! ### Taking a time apart -/

/-- What depends on the platform: the tick of `std::chrono::system_clock` in nanoseconds, which is
1 in libstdc++, 100 on Windows and 1000 in libc++, and the sizes of `tv_sec` and `tv_usec`. -/
structure Platform where
  tickNanos : ℕ
  secBits : ℕ
  usecBits : ℕ
  evenTicks : tickNanos ∣ 1000000000
  wideSec : 32 ≤ secBits
  wideUsec : 32 ≤ usecBits

/-- `timeval`. -/
structure Timeval where
  tvSec : ℤ
  tvUsec : ℤ
  deriving DecidableEq

/-- `to_micros`. -/
def toMicros (duration : Int64) : Int64 := duration / 1000

/-- `to_secs`. -/
def toSecs (duration : Int64) : Int64 := duration / 1000000000

/-- The result of an operation on 64-bit numbers, if it does not overflow. -/
def checked (value : ℤ) : Option Int64 := if Fits 64 value then some (Int64.ofInt value) else none

namespace Platform

/-- The nanoseconds of a time in ticks, to which a time is converted when it is passed on. -/
def nanos (platform : Platform) (time : Int64) : ℤ := time.toInt * platform.tickNanos

/-- That conversion. -/
def toNanos (platform : Platform) (time : Int64) : Option Int64 := checked (platform.nanos time)

/-- The members of a `timeval`, with the conversions to their types. -/
def timeval (platform : Platform) (seconds micros : Int64) : Timeval :=
  ⟨seconds.toInt.bmod (2 ^ platform.secBits), micros.toInt.bmod (2 ^ platform.usecBits)⟩

/-- `duration_to_timeval`. -/
def durationToTimeval (platform : Platform) (usecs : Int64) : Timeval :=
  platform.timeval (usecs / 1000000) (usecs % 1000000)

/-- `timeval_from_timepoint`. -/
def timevalFromTimepoint (platform : Platform) (timepoint : Int64) : Option Timeval :=
  (platform.toNanos timepoint).map fun duration =>
    let micros := toMicros duration
    platform.timeval (micros / 1000000) (micros % 1000000)

/-- The seconds of a time, as they are given to `gmtime_r` and `localtime_r`. -/
def seconds (platform : Platform) (time : Int64) : Option Int64 :=
  (platform.toNanos time).map toSecs

/-- The ticks of a second. -/
def ticksPerSecond (platform : Platform) : ℕ := 1000000000 / platform.tickNanos

/-- The microseconds of a time that are printed: the seconds are subtracted in ticks. -/
def microsOfSecond (platform : Platform) (time : Int64) : Option Int64 := do
  let secs ← platform.seconds time
  let whole ← checked (secs.toInt * platform.ticksPerSecond)
  let rest ← checked (time.toInt - whole.toInt)
  let duration ← platform.toNanos rest
  return toMicros duration

end Platform

/-! ### Printing a time -/

section Printing

variable {Tm : Type*} (putTime : Tm → Bytes → Bytes)

/-- `format_time`, by what `std::put_time` makes of a broken-down time and a format. -/
def formatTime (tmInfo : Tm) (us : Int64) (gmt : Bool) (format : Bytes) : Bytes :=
  putTime tmInfo (injectMicrosecondsAndGmt us gmt format)

/-- `format_gmtime` and `format_localtime` of a system time, by the function that breaks it down. -/
def formatSystemTime (platform : Platform) (breakDown : Int64 → Tm) (gmt : Bool) (time : Int64)
    (format : Bytes) : Option Bytes := do
  let secs ← platform.seconds time
  let us ← platform.microsOfSecond time
  return formatTime putTime (breakDown secs) us gmt format

/-- `format_gmtime`. -/
def formatGmtime (platform : Platform) (gmtime : Int64 → Tm) (time : Int64) (format : Bytes) :
    Option Bytes :=
  formatSystemTime putTime platform gmtime true time format

/-- `format_localtime`. -/
def formatLocaltime (platform : Platform) (localtime : Int64 → Tm) (time : Int64)
    (format : Bytes) : Option Bytes :=
  formatSystemTime putTime platform localtime false time format

end Printing

/-! ### Machine numbers -/

theorem checked_of_fits {value : ℤ} (fits : Fits 64 value) :
    checked value = some (Int64.ofInt value) := if_pos fits

theorem toInt_ofInt {value : ℤ} (fits : Fits 64 value) : (Int64.ofInt value).toInt = value :=
  Int64.toInt_ofInt_of_le fits.1 fits.2

theorem toInt_toMicros (duration : Int64) :
    (toMicros duration).toInt = duration.toInt.tdiv (1000 : ℕ) :=
  Int64.toInt_div_of_ne_right duration 1000 (by decide)

theorem toInt_toSecs (duration : Int64) :
    (toSecs duration).toInt = duration.toInt.tdiv (1000000000 : ℕ) :=
  Int64.toInt_div_of_ne_right duration 1000000000 (by decide)

theorem toInt_div_million (micros : Int64) :
    (micros / 1000000).toInt = micros.toInt.tdiv (1000000 : ℕ) :=
  Int64.toInt_div_of_ne_right micros 1000000 (by decide)

theorem toInt_mod_million (micros : Int64) :
    (micros % 1000000).toInt = micros.toInt.tmod (1000000 : ℕ) :=
  Int64.toInt_mod micros 1000000

namespace Platform

variable (platform : Platform)

/-- A rest of microseconds keeps its value in `tv_usec`. -/
theorem bmod_usecBits (micros : ℤ) :
    (micros.tmod (1000000 : ℕ)).bmod (2 ^ platform.usecBits) = micros.tmod (1000000 : ℕ) := by
  have wide := platform.wideUsec
  rw [bmod_eq_self_iff (by omega)]
  have room : (2 : ℤ) ^ 31 ≤ 2 ^ (platform.usecBits - 1) :=
    pow_le_pow_right₀ (by decide) (by omega)
  have upper := Int.tmod_lt_of_pos micros (show (0 : ℤ) < (1000000 : ℕ) by decide)
  have lower := Int.lt_tmod_of_pos micros (show (0 : ℤ) < (1000000 : ℕ) by decide)
  constructor
  · omega
  · omega

theorem ticksPerSecond_mul : platform.tickNanos * platform.ticksPerSecond = 1000000000 :=
  Nat.mul_div_cancel' platform.evenTicks

theorem tickNanos_pos : 0 < platform.tickNanos :=
  Nat.pos_of_dvd_of_pos platform.evenTicks (by decide)

/-- The seconds of the nanoseconds are those of the ticks, and so is the rest. -/
theorem tdiv_nanos (time : Int64) :
    (platform.nanos time).tdiv (1000000000 : ℕ) = time.toInt.tdiv platform.ticksPerSecond := by
  rw [nanos, ← platform.ticksPerSecond_mul, Nat.cast_mul, mul_comm,
    Int.mul_tdiv_mul_of_pos _ _ (Int.natCast_pos.mpr platform.tickNanos_pos)]

theorem tmod_nanos (time : Int64) :
    (platform.nanos time).tmod (1000000000 : ℕ) =
      time.toInt.tmod platform.ticksPerSecond * platform.tickNanos := by
  rw [nanos, ← platform.ticksPerSecond_mul, Nat.cast_mul, mul_comm,
    Int.mul_tmod_mul_of_pos _ _ (Int.natCast_pos.mpr platform.tickNanos_pos), mul_comm]

theorem toNanos_of_fits {time : Int64} (fits : Fits 64 (platform.nanos time)) :
    ∃ duration, platform.toNanos time = some duration ∧ duration.toInt = platform.nanos time :=
  ⟨_, checked_of_fits fits, toInt_ofInt fits⟩

theorem toNanos_of_not_fits {time : Int64} (overflows : ¬Fits 64 (platform.nanos time)) :
    platform.toNanos time = none := if_neg overflows

theorem seconds_of_fits {time : Int64} (fits : Fits 64 (platform.nanos time)) :
    ∃ secs, platform.seconds time = some secs ∧
      secs.toInt = (platform.nanos time).tdiv (1000000000 : ℕ) := by
  obtain ⟨duration, converted, value⟩ := platform.toNanos_of_fits fits
  refine ⟨toSecs duration, ?_, ?_⟩
  · rw [seconds, converted, Option.map_some]
  · rw [toInt_toSecs, value]

/-- Then nothing overflows when the seconds are subtracted, and the microseconds are those of the
rest. -/
theorem microsOfSecond_of_fits {time : Int64} (fits : Fits 64 (platform.nanos time)) :
    ∃ us, platform.microsOfSecond time = some us ∧
      us.toInt = ((platform.nanos time).tmod (1000000000 : ℕ)).tdiv (1000 : ℕ) := by
  obtain ⟨secs, seconds, secsValue⟩ := platform.seconds_of_fits fits
  rw [tdiv_nanos] at secsValue
  have wholeFits : Fits 64 (secs.toInt * platform.ticksPerSecond) := by
    rw [secsValue]
    exact (fits_toInt time).of_mem_uIcc (tdiv_mul_mem_uIcc _ _)
  have restValue : time.toInt - secs.toInt * platform.ticksPerSecond =
      time.toInt.tmod platform.ticksPerSecond := by
    have sum := Int.mul_tdiv_add_tmod time.toInt platform.ticksPerSecond
    rw [secsValue, mul_comm]
    omega
  have restFits : Fits 64 (time.toInt.tmod platform.ticksPerSecond) :=
    (fits_toInt time).of_mem_uIcc (tmod_mem_uIcc _ _)
  have nanosValue : platform.nanos (Int64.ofInt (time.toInt.tmod platform.ticksPerSecond)) =
      (platform.nanos time).tmod (1000000000 : ℕ) := by
    rw [tmod_nanos, nanos, toInt_ofInt restFits]
  have nanosFits : Fits 64 ((platform.nanos time).tmod (1000000000 : ℕ)) :=
    fits.of_mem_uIcc (tmod_mem_uIcc _ _)
  obtain ⟨duration, converted, value⟩ := platform.toNanos_of_fits (nanosValue ▸ nanosFits)
  refine ⟨toMicros duration, ?_, ?_⟩
  · rw [microsOfSecond, seconds, Option.bind_eq_bind, Option.bind_some, checked_of_fits wholeFits,
      Option.bind_some, toInt_ofInt wholeFits, restValue, checked_of_fits restFits,
      Option.bind_some, converted]
    rfl
  · rw [toInt_toMicros, value, nanosValue]

/-! ### When the parts are right -/

/-- The time in whole microseconds, rounded down. -/
def wholeMicros (time : Int64) : ℤ := platform.nanos time / 1000

/-- The parts of a number of microseconds that was rounded towards zero are those of the number
rounded down exactly if the seconds fit and there was nothing to round. -/
theorem splits_timeval_iff {fine : ℕ} (positive : 0 < fine) {number : ℤ} {micros : Int64}
    (value : micros.toInt = number.tdiv fine) :
    Splits (1000000 : ℕ) (platform.timeval (micros / 1000000) (micros % 1000000)).tvSec
        (platform.timeval (micros / 1000000) (micros % 1000000)).tvUsec (number / fine) ↔
      Fits platform.secBits (number.tdiv (fine * 1000000 : ℕ)) ∧
        (0 ≤ number ∨ ((fine * 1000000 : ℕ) : ℤ) ∣ number) := by
  have wide := platform.wideSec
  rw [timeval, toInt_div_million, toInt_mod_million, platform.bmod_usecBits, value,
    splits_fine_iff positive (by decide), bmod_eq_self_iff (by omega), tdiv_tdiv]

theorem splits_durationToTimeval_iff (usecs : Int64) :
    Splits 1000000 (platform.durationToTimeval usecs).tvSec
        (platform.durationToTimeval usecs).tvUsec usecs.toInt ↔
      Fits platform.secBits (usecs.toInt.tdiv 1000000) ∧
        (0 ≤ usecs.toInt ∨ 1000000 ∣ usecs.toInt) := by
  have value : usecs.toInt = usecs.toInt.tdiv (1 : ℕ) := (Int.tdiv_one _).symm
  have parts := platform.splits_timeval_iff Nat.one_pos value
  rw [Nat.cast_one, Int.ediv_one, Nat.one_mul] at parts
  exact parts

theorem splits_timevalFromTimepoint_iff (time : Int64) :
    (∃ value, platform.timevalFromTimepoint time = some value ∧
        Splits 1000000 value.tvSec value.tvUsec (platform.wholeMicros time)) ↔
      Fits 64 (platform.nanos time) ∧
        Fits platform.secBits ((platform.nanos time).tdiv 1000000000) ∧
        (0 ≤ platform.nanos time ∨ 1000000000 ∣ platform.nanos time) := by
  rw [timevalFromTimepoint]
  by_cases fits : Fits 64 (platform.nanos time)
  · obtain ⟨duration, converted, value⟩ := platform.toNanos_of_fits fits
    have micros : (toMicros duration).toInt = (platform.nanos time).tdiv (1000 : ℕ) := by
      rw [toInt_toMicros, value]
    rw [converted, Option.map_some, and_iff_right fits]
    refine Iff.trans ?_ (platform.splits_timeval_iff (by decide) micros)
    constructor
    · rintro ⟨parts, same, splits⟩
      rw [← Option.some.inj same] at splits
      exact splits
    · exact fun splits => ⟨_, rfl, splits⟩
  · rw [platform.toNanos_of_not_fits fits]
    refine iff_of_false ?_ fun both => fits both.1
    rintro ⟨parts, impossible, -⟩
    cases impossible

/-- The seconds and the microseconds from which a time is printed. -/
theorem splits_printed_iff (time : Int64) :
    (∃ secs us, platform.seconds time = some secs ∧ platform.microsOfSecond time = some us ∧
        Splits 1000000 secs.toInt us.toInt (platform.wholeMicros time)) ↔
      Fits 64 (platform.nanos time) ∧
        (0 ≤ platform.nanos time ∨ 1000000000 ∣ platform.nanos time) := by
  by_cases fits : Fits 64 (platform.nanos time)
  · obtain ⟨secs, seconds, secsValue⟩ := platform.seconds_of_fits fits
    obtain ⟨us, micros, usValue⟩ := platform.microsOfSecond_of_fits fits
    have parts := splits_fine_iff (show 0 < 1000 by decide) (show 1 < 1000000 by decide)
      (platform.nanos time) secs.toInt
    have evenly := tmod_tdiv 1000 1000000 (platform.nanos time)
    have twice := tdiv_tdiv 1000 1000000 (platform.nanos time)
    rw [← evenly, twice, ← usValue, ← secsValue, eq_self, true_and] at parts
    rw [and_iff_right fits, seconds, micros]
    refine Iff.trans ?_ parts
    constructor
    · rintro ⟨otherSecs, otherUs, sameSecs, sameUs, splits⟩
      rw [Option.some.inj sameSecs, Option.some.inj sameUs]
      exact splits
    · exact fun splits => ⟨secs, us, rfl, rfl, splits⟩
  · refine iff_of_false ?_ fun both => fits both.1
    rintro ⟨secs, us, found, -, -⟩
    rw [seconds, platform.toNanos_of_not_fits fits] at found
    cases found

end Platform

/-- What is printed for a time: its broken-down seconds, in a format with its microseconds. -/
theorem formatSystemTime_eq {Tm : Type*} (putTime : Tm → Bytes → Bytes) {platform : Platform}
    {time secs us : Int64} (seconds : platform.seconds time = some secs)
    (micros : platform.microsOfSecond time = some us) (breakDown : Int64 → Tm) (gmt : Bool)
    (format : Bytes) :
    formatSystemTime putTime platform breakDown gmt time format =
      some (putTime (breakDown secs) (injectMicrosecondsAndGmt us gmt format)) := by
  rw [formatSystemTime, seconds, micros]
  rfl

/-- For every platform, duration and system time: the parts have microseconds of a second that add
up with the seconds to the time rounded down exactly if the time is not before 1970 or is a whole
second, the conversion to nanoseconds does not overflow, and the seconds fit in `tv_sec`. -/
theorem splits_iff (platform : Platform) (usecs time : Int64) :
    (Splits 1000000 (platform.durationToTimeval usecs).tvSec
        (platform.durationToTimeval usecs).tvUsec usecs.toInt ↔
      Fits platform.secBits (usecs.toInt.tdiv 1000000) ∧
        (0 ≤ usecs.toInt ∨ 1000000 ∣ usecs.toInt)) ∧
    ((∃ value, platform.timevalFromTimepoint time = some value ∧
        Splits 1000000 value.tvSec value.tvUsec (platform.wholeMicros time)) ↔
      Fits 64 (platform.nanos time) ∧
        Fits platform.secBits ((platform.nanos time).tdiv 1000000000) ∧
        (0 ≤ platform.nanos time ∨ 1000000000 ∣ platform.nanos time)) ∧
    ((∃ secs us, platform.seconds time = some secs ∧ platform.microsOfSecond time = some us ∧
        (∀ {Tm : Type} (putTime : Tm → Bytes → Bytes) (gmtime : Int64 → Tm) (format : Bytes),
          formatGmtime putTime platform gmtime time format =
            some (putTime (gmtime secs) (injectMicrosecondsAndGmt us true format))) ∧
        Splits 1000000 secs.toInt us.toInt (platform.wholeMicros time)) ↔
      Fits 64 (platform.nanos time) ∧
        (0 ≤ platform.nanos time ∨ 1000000000 ∣ platform.nanos time)) := by
  refine ⟨platform.splits_durationToTimeval_iff usecs,
    platform.splits_timevalFromTimepoint_iff time, ?_⟩
  rw [← platform.splits_printed_iff time]
  constructor
  · rintro ⟨secs, us, seconds, micros, -, splits⟩
    exact ⟨secs, us, seconds, micros, splits⟩
  · rintro ⟨secs, us, seconds, micros, splits⟩
    refine ⟨secs, us, seconds, micros, fun putTime gmtime format => ?_, splits⟩
    exact formatSystemTime_eq putTime seconds micros gmtime true format

/-- A platform with libc++ and 64-bit members. -/
def libcxx : Platform where
  tickNanos := 1000
  secBits := 64
  usecBits := 64
  evenTicks := by decide
  wideSec := by decide
  wideUsec := by decide

/-- One microsecond before 1970 has a negative rest, which is also printed. -/
theorem beforeEpoch_negative :
    libcxx.durationToTimeval (-1) = ⟨0, -1⟩ ∧
      libcxx.timevalFromTimepoint (-1) = some ⟨0, -1⟩ ∧
      libcxx.seconds (-1) = some 0 ∧ libcxx.microsOfSecond (-1) = some (-1) ∧
      injectMicrosecondsAndGmt (-1) true (ascii "%f") = ascii "-00001" ∧
      ¬Splits 1000000 0 (-1) (-1) := by
  refine ⟨by decide +kernel, by decide +kernel, by decide +kernel, by decide +kernel, ?_,
    fun splits => absurd splits.1 (by decide)⟩
  rfl

end NativeLibs.Time
