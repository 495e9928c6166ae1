import Mathlib.Data.Int.Bitwise
import Mathlib.Algebra.Group.Nat.Basic

/-!
# `Timelock`: the lock of a miniscript `after` or `older`

A `Timelock` holds a height or a time, absolute (an `nLockTime`, split by `LOCKTIME_THRESHOLD`) or
relative (a BIP68 `nSequence`: a 16-bit count of blocks, or of 512-second units under
`SEQUENCE_LOCKTIME_TYPE_FLAG`). The constructor raises a relative time under 512 seconds to 512 and
validates through `k()`, which throws `INVALID_PARAMETER` on a value out of its range and encodes
the value otherwise; `FromK` decodes an encoding. `int64_t` is `Int`: no operation of these
functions overflows on 64 bits.

* `Timelock.k`, `timelock`, `Timelock.fromK`   the three functions;
* `k_timelock_relative`       `k()` of an accepted relative lock sets no bit outside
                              `SEQUENCE_LOCKTIME_TYPE_FLAG | SEQUENCE_LOCKTIME_MASK`;
* `timelock_range_mismatch`   the relative height `65535` is refused, the absolute height `-1`
                              and the absolute time `2^32` are accepted;
* `fromK_k`                   `FromK(type == LOCKTYPE_ABSOLUTE, k())` keeps the type and `k()`,
                              gives back the value (a relative time rounded down to 512 seconds),
                              and the based unless `k()` is `0`.
-/

namespace Nunchuk

/-- `LOCKTIME_THRESHOLD` (Bitcoin Core): an `nLockTime` below it is a height, from it a time -/
def locktimeThreshold : Int := 500000000

/-- `CTxIn::SEQUENCE_LOCKTIME_GRANULARITY`: a relative time counts units of `2^9` seconds -/
def sequenceLocktimeGranularity : Nat := 9

/-- `CTxIn::SEQUENCE_LOCKTIME_TYPE_FLAG`, `1 << 22`: the relative lock is a time -/
def sequenceLocktimeTypeFlag : Int := 4194304

/-- `CTxIn::SEQUENCE_LOCKTIME_MASK`, `0x0000ffff`: the value of a relative lock -/
def sequenceLocktimeMask : Int := 65535

/-- `Timelock::Based` -/
inductive Based where
  | none
  | heightLock
  | timeLock
deriving DecidableEq, Repr

/-- `Timelock::Type` -/
inductive LockType where
  | locktypeAbsolute
  | locktypeRelative
deriving DecidableEq, Repr

/-- a `Timelock`: `based_`, `type_` and `value_` -/
structure Timelock where
  based : Based
  type : LockType
  value : Int
deriving DecidableEq, Repr

/-- the `NunchukException` (`INVALID_PARAMETER`) that `k()` throws -/
inductive TimelockError where
  | invalidParameter (msg : String)
deriving DecidableEq, Repr

/-- `Timelock::k()`: the `nLockTime` of an absolute lock, the `nSequence` of a relative one -/
def Timelock.k (t : Timelock) : Except TimelockError Int :=
  match t.type with
  | .locktypeAbsolute =>
    if t.value < locktimeThreshold ∧ t.based = .timeLock then
      .error (.invalidParameter "Invalid time value")
    else if locktimeThreshold ≤ t.value ∧ t.based = .heightLock then
      .error (.invalidParameter "Invalid height value")
    else .ok t.value
  | .locktypeRelative =>
    match t.based with
    | .timeLock =>
      if t.value < 0 ∨ 33554431 ≤ t.value then .error (.invalidParameter "Invalid time value")
      else .ok (Int.lor (t.value >>> sequenceLocktimeGranularity) sequenceLocktimeTypeFlag)
    | .heightLock =>
      if t.value < 0 ∨ 65535 ≤ t.value then .error (.invalidParameter "Invalid height value")
      else .ok (Int.land t.value sequenceLocktimeMask)
    | .none => .ok 0

/-- the value the constructor keeps: a relative time under 512 seconds is raised to 512 -/
def clampedValue (based : Based) (type : LockType) (value : Int) : Int :=
  if based = .timeLock ∧ type = .locktypeRelative ∧ value < 512 then 512 else value

/-- `Timelock(based, type, value)`: the constructor throws what `k()` throws -/
def timelock (based : Based) (type : LockType) (value : Int) : Except TimelockError Timelock :=
  let t : Timelock := ⟨based, type, clampedValue based type value⟩
  t.k.map fun _ => t

/-- `Timelock::FromK(is_absolute, k)`; the cast `(int)` of the masked value changes nothing -/
def Timelock.fromK (isAbsolute : Bool) (k : Int) : Except TimelockError Timelock :=
  let (b, t, v) : Based × LockType × Int :=
    if isAbsolute then
      (if locktimeThreshold ≤ k then .timeLock else .heightLock, .locktypeAbsolute, k)
    else if Int.land k sequenceLocktimeTypeFlag ≠ 0 then
      (.timeLock, .locktypeRelative,
        Int.land k sequenceLocktimeMask <<< (sequenceLocktimeGranularity : Int))
    else (.heightLock, .locktypeRelative, Int.land k sequenceLocktimeMask)
  timelock (if v = 0 then .none else b) t v

/-! ## the sequence encoding -/

theorem typeFlag_lor {q : Int} (h0 : 0 ≤ q) (h : q < 4194304) :
    Int.lor q sequenceLocktimeTypeFlag = 4194304 + q := by
  lift q to ℕ using h0
  show ((q ||| 4194304 : ℕ) : ℤ) = _
  rw [Nat.lor_comm, show (4194304 : ℕ) = 2 ^ 22 * 1 from rfl, ← Nat.mul_add_lt_is_or (by omega)]
  omega

theorem land_mask_of_lt {x : Int} (h0 : 0 ≤ x) (h : x < 65536) :
    Int.land x sequenceLocktimeMask = x := by
  lift x to ℕ using h0
  show ((x &&& 2 ^ 16 - 1 : ℕ) : ℤ) = x
  rw [Nat.and_pow_two_sub_one_of_lt_two_pow (by omega)]

theorem land_typeFlag_of_lt {x : Int} (h0 : 0 ≤ x) (h : x < 4194304) :
    Int.land x sequenceLocktimeTypeFlag = 0 := by
  lift x to ℕ using h0
  show ((x &&& 2 ^ 22 : ℕ) : ℤ) = 0
  rw [Nat.and_two_pow, Nat.testBit_lt_two_pow (by omega)]
  rfl

theorem land_typeFlag_add {q : Int} (h0 : 0 ≤ q) (h : q < 4194304) :
    Int.land (4194304 + q) sequenceLocktimeTypeFlag = 4194304 := by
  lift q to ℕ using h0
  show ((2 ^ 22 + q &&& 2 ^ 22 : ℕ) : ℤ) = 4194304
  rw [Nat.and_two_pow, Nat.testBit_two_pow_add_eq, Nat.testBit_lt_two_pow (by omega)]
  rfl

theorem land_mask_add {q : Int} (h0 : 0 ≤ q) (h : q < 65536) :
    Int.land (4194304 + q) sequenceLocktimeMask = q := by
  lift q to ℕ using h0
  show ((4194304 + q &&& 2 ^ 16 - 1 : ℕ) : ℤ) = q
  rw [Nat.and_pow_two_sub_one_eq_mod]
  omega

theorem land_typeFlag_lor_mask {x : Int} (h0 : 0 ≤ x) :
    Int.land x (Int.lor sequenceLocktimeTypeFlag sequenceLocktimeMask) =
      Int.lor (Int.land x sequenceLocktimeMask) (Int.land x sequenceLocktimeTypeFlag) := by
  lift x to ℕ using h0
  exact congrArg Int.ofNat ((Nat.and_or_distrib_left x 4194304 65535).trans (Nat.lor_comm _ _))

/-! ## `k()` and the constructor -/

/-- `k()` of a relative time: the flag over the count of 512-second units -/
theorem k_relative_time {v : Int} (h0 : 0 ≤ v) (h1 : v < 33554431) :
    (⟨.timeLock, .locktypeRelative, v⟩ : Timelock).k = .ok (4194304 + v / 512) := by
  simp only [Timelock.k, if_neg (show ¬(v < 0 ∨ 33554431 ≤ v) by omega)]
  rw [show v >>> sequenceLocktimeGranularity = v / 512 from Int.shiftRight_eq_div_pow _ _,
    typeFlag_lor (by omega) (by omega)]

/-- what `k()` returns, with the guards it passed, for each based and type -/
theorem k_eq_ok {t : Timelock} {k : Int} (h : t.k = .ok k) :
    t.type = .locktypeAbsolute ∧ (t.based = .timeLock → locktimeThreshold ≤ t.value) ∧
      (t.based = .heightLock → t.value < locktimeThreshold) ∧ k = t.value ∨
    t.type = .locktypeRelative ∧ t.based = .timeLock ∧ 0 ≤ t.value ∧ t.value < 33554431 ∧
      k = 4194304 + t.value / 512 ∨
    t.type = .locktypeRelative ∧ t.based = .heightLock ∧ 0 ≤ t.value ∧ t.value < 65535 ∧
      k = t.value ∨
    t.type = .locktypeRelative ∧ t.based = .none ∧ k = 0 := by
  obtain ⟨based, type, v⟩ := t
  dsimp only
  cases type with
  | locktypeAbsolute =>
    simp only [Timelock.k] at h
    split_ifs at h with h₁ h₂
    cases h
    exact .inl ⟨rfl, fun hb => Int.not_lt.mp fun h => h₁ ⟨h, hb⟩,
      fun hb => Int.not_le.mp fun h => h₂ ⟨h, hb⟩, rfl⟩
  | locktypeRelative =>
    cases based with
    | none => cases h; exact .inr (.inr (.inr ⟨rfl, rfl, rfl⟩))
    | heightLock =>
      simp only [Timelock.k] at h
      split_ifs at h with hv
      cases h
      exact .inr (.inr (.inl ⟨rfl, rfl, by omega, by omega, land_mask_of_lt (by omega) (by omega)⟩))
    | timeLock =>
      have hv : 0 ≤ v ∧ v < 33554431 := by
        by_contra hv
        simp only [Timelock.k, if_pos (show v < 0 ∨ 33554431 ≤ v by omega)] at h
        cases h
      rw [k_relative_time hv.1 hv.2] at h
      cases h
      exact .inr (.inl ⟨rfl, rfl, hv.1, hv.2, rfl⟩)

theorem timelock_eq_ok {based : Based} {type : LockType} {value : Int} {t : Timelock} :
    timelock based type value = .ok t ↔
      t = ⟨based, type, clampedValue based type value⟩ ∧ ∃ k, t.k = .ok k := by
  unfold timelock
  cases h : Timelock.k ⟨based, type, clampedValue based type value⟩ with
  | error e =>
    simp only [Except.map, h, reduceCtorEq, false_iff, not_and, not_exists]
    rintro rfl k hk
    cases h.symm.trans hk
  | ok k =>
    simp only [Except.map, h, Except.ok.injEq]
    exact ⟨fun h' => ⟨h'.symm, k, h' ▸ h⟩, fun ⟨h', _⟩ => h'.symm⟩

/-- `k()` of a relative lock the constructor accepts sets no bit outside
`SEQUENCE_LOCKTIME_TYPE_FLAG | SEQUENCE_LOCKTIME_MASK`. -/
theorem k_timelock_relative {based : Based} {value : Int} {t : Timelock}
    (ht : timelock based .locktypeRelative value = .ok t) {k : Int} (hk : t.k = .ok k) :
    Int.land k (Int.lor sequenceLocktimeTypeFlag sequenceLocktimeMask) = k := by
  obtain ⟨rfl, -⟩ := timelock_eq_ok.mp ht
  rcases k_eq_ok hk with ⟨h, -⟩ | ⟨-, -, h0, h1, rfl⟩ | ⟨-, -, h0, h1, rfl⟩ | ⟨-, -, rfl⟩
  · cases h
  · dsimp only at h0 h1 ⊢
    rw [land_typeFlag_lor_mask (by omega), land_mask_add (by omega) (by omega),
      land_typeFlag_add (by omega) (by omega)]
    exact typeFlag_lor (by omega) (by omega)
  · dsimp only at h0 h1 ⊢
    rw [land_typeFlag_lor_mask h0, land_mask_of_lt h0 (by omega),
      land_typeFlag_of_lt h0 (by omega)]
    lift clampedValue based .locktypeRelative value to ℕ using h0 with x
    exact congrArg Int.ofNat (Nat.or_zero x)
  · rfl

theorem k_timelock_relative_time :
    timelock .timeLock .locktypeRelative 1000 = .ok ⟨.timeLock, .locktypeRelative, 1000⟩ ∧
      (⟨.timeLock, .locktypeRelative, 1000⟩ : Timelock).k = .ok 4194305 ∧
      Int.land 4194305 (Int.lor sequenceLocktimeTypeFlag sequenceLocktimeMask) = 4194305 :=
  have h : timelock .timeLock .locktypeRelative 1000 = .ok ⟨.timeLock, .locktypeRelative, 1000⟩ ∧
      (⟨.timeLock, .locktypeRelative, 1000⟩ : Timelock).k = .ok 4194305 := ⟨rfl, rfl⟩
  ⟨h.1, h.2, k_timelock_relative h.1 h.2⟩

/-- The relative height `65535`, the largest BIP68 height, is refused; the absolute height `-1`
and the absolute time `2^32`, no `nLockTime`, are accepted. -/
theorem timelock_range_mismatch :
    timelock .heightLock .locktypeRelative 65535 =
        .error (.invalidParameter "Invalid height value") ∧
      timelock .heightLock .locktypeAbsolute (-1) = .ok ⟨.heightLock, .locktypeAbsolute, -1⟩ ∧
      timelock .timeLock .locktypeAbsolute 4294967296 =
        .ok ⟨.timeLock, .locktypeAbsolute, 4294967296⟩ :=
  ⟨rfl, rfl, rfl⟩

/-! ## `FromK` -/

theorem fromK_absolute (k : Int) :
    Timelock.fromK true k = timelock
      (if k = 0 then .none else if locktimeThreshold ≤ k then .timeLock else .heightLock)
      .locktypeAbsolute k := rfl

theorem fromK_relative_height {x : Int} (h0 : 0 ≤ x) (h : x < 65536) :
    Timelock.fromK false x =
      timelock (if x = 0 then .none else .heightLock) .locktypeRelative x := by
  simp [Timelock.fromK, land_typeFlag_of_lt h0 (by omega), land_mask_of_lt h0 h]

theorem fromK_relative_time {q : Int} (h0 : 0 ≤ q) (h : q < 65536) :
    Timelock.fromK false (4194304 + q) =
      timelock (if q = 0 then .none else .timeLock) .locktypeRelative (q * 512) := by
  have hs : q <<< (sequenceLocktimeGranularity : Int) = q * 512 := Int.shiftLeft_eq_mul_pow _ _
  have hz : q * 512 = 0 ↔ q = 0 := by omega
  simp [Timelock.fromK, land_typeFlag_add h0 (by omega), land_mask_add h0 h, hs, hz]

/-- a lock whose `k()` is its value, and that `FromK` rebuilds from that value, comes back as it
is, or as `NONE` at `0` -/
theorem fromK_eq_self {based : Based} {type : LockType} {v : Int}
    (hk : (⟨based, type, v⟩ : Timelock).k = .ok v)
    (ht : timelock based type v = .ok ⟨based, type, v⟩)
    (hf : Timelock.fromK (type == .locktypeAbsolute) v =
      timelock (if v = 0 then .none else based) type v) :
    Timelock.fromK (type == .locktypeAbsolute) v = .ok ⟨if v = 0 then .none else based, type, v⟩ ∧
      (⟨if v = 0 then .none else based, type, v⟩ : Timelock).k = .ok v := by
  rw [hf]
  split_ifs with h0
  · subst h0
    cases type <;> exact ⟨rfl, rfl⟩
  · exact ⟨ht, hk⟩

/-- a relative time from 512 seconds comes back from its `k()` rounded down to 512 seconds, with
the same `k()` -/
theorem fromK_relative_time_round_trip {v : Int} (h512 : 512 ≤ v) (h1 : v < 33554431) :
    Timelock.fromK false (4194304 + v / 512) = .ok ⟨.timeLock, .locktypeRelative, v / 512 * 512⟩ ∧
      (⟨.timeLock, .locktypeRelative, v / 512 * 512⟩ : Timelock).k = .ok (4194304 + v / 512) := by
  have hk := k_relative_time (show 0 ≤ v / 512 * 512 by omega)
    (show v / 512 * 512 < 33554431 by omega)
  rw [show v / 512 * 512 / 512 = v / 512 by omega] at hk
  refine ⟨?_, hk⟩
  rw [fromK_relative_time (by omega) (by omega), if_neg (by omega)]
  exact timelock_eq_ok.mpr ⟨by simp [clampedValue]; omega, _, hk⟩

/-- `FromK(t.type() == LOCKTYPE_ABSOLUTE, t.k())` of a height or time lock `t` the constructor
built returns a lock of the same type and `k()`, the value of `t` (a relative time rounded down to
a multiple of 512), and the based of `t`, or `NONE` when `k()` is `0`. -/
theorem fromK_k {based : Based} (hb : based ≠ .none) {type : LockType} {value : Int}
    {t : Timelock} (ht : timelock based type value = .ok t) :
    ∃ k, t.k = .ok k ∧ ∃ t', Timelock.fromK (t.type == .locktypeAbsolute) k = .ok t' ∧
      t'.type = t.type ∧ t'.k = .ok k ∧
      t'.value = (if t.type = .locktypeRelative ∧ t.based = .timeLock then t.value / 512 * 512
        else t.value) ∧
      t'.based = if k = 0 then .none else t.based := by
  obtain ⟨rfl, k, hk⟩ := timelock_eq_ok.mp ht
  refine ⟨k, hk, ?_⟩
  rcases k_eq_ok hk with ⟨hty, hT, hH, rfl⟩ | ⟨hty, hbt, h0, h1, rfl⟩ |
    ⟨hty, hbh, h0, h1, rfl⟩ | ⟨-, hbn, -⟩
  · -- an absolute lock comes back as it is, or as `NONE` at `0`
    dsimp only at hty hT hH ⊢
    subst hty
    have hv : clampedValue based .locktypeAbsolute value = value := by simp [clampedValue]
    rw [hv] at hT hH ht hk ⊢
    have hb' : (if locktimeThreshold ≤ value then Based.timeLock else .heightLock) = based := by
      cases based with
      | none => exact absurd rfl hb
      | heightLock => exact if_neg (Int.not_le.mpr (hH rfl))
      | timeLock => exact if_pos (hT rfl)
    obtain ⟨hf, hk'⟩ := fromK_eq_self hk ht ((fromK_absolute value).trans (by rw [hb']))
    exact ⟨_, hf, rfl, hk', by simp, rfl⟩
  · -- a relative time comes back rounded down to 512 seconds
    dsimp only at hty hbt h0 h1 ⊢
    subst hty hbt
    have h512 : 512 ≤ clampedValue .timeLock .locktypeRelative value := by
      simp only [clampedValue, true_and]
      split_ifs <;> omega
    obtain ⟨hf, hk'⟩ := fromK_relative_time_round_trip h512 h1
    exact ⟨_, hf, rfl, hk', by simp, (if_neg (by omega)).symm⟩
  · -- a relative height comes back as it is, or as `NONE` at `0`
    dsimp only at hty hbh h0 h1 ⊢
    subst hty hbh
    have hv : clampedValue .heightLock .locktypeRelative value = value := by simp [clampedValue]
    rw [hv] at h0 h1 ht hk ⊢
    obtain ⟨hf, hk'⟩ := fromK_eq_self hk ht (fromK_relative_height h0 (by omega))
    exact ⟨_, hf, rfl, hk', by simp, rfl⟩
  · exact absurd hbn hb

/-- the relative time `1000` seconds: `k()` is `4194305`, and `FromK` gives back `512` -/
theorem fromK_k_time_1000 :
    Based.timeLock ≠ .none ∧
      timelock .timeLock .locktypeRelative 1000 = .ok ⟨.timeLock, .locktypeRelative, 1000⟩ ∧
      ∃ k, (⟨.timeLock, .locktypeRelative, 1000⟩ : Timelock).k = .ok k ∧
        ∃ t', Timelock.fromK (LockType.locktypeRelative == .locktypeAbsolute) k = .ok t' ∧
          t'.type = .locktypeRelative ∧ t'.k = .ok k ∧
          t'.value = (if LockType.locktypeRelative = .locktypeRelative ∧
            Based.timeLock = .timeLock then 1000 / 512 * 512 else 1000) ∧
          t'.based = if k = 0 then .none else .timeLock :=
  have h : Based.timeLock ≠ .none ∧
      timelock .timeLock .locktypeRelative 1000 = .ok ⟨.timeLock, .locktypeRelative, 1000⟩ :=
    ⟨by decide, rfl⟩
  ⟨h.1, h.2, fromK_k h.1 h.2⟩

end Nunchuk
