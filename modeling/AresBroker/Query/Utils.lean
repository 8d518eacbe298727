import Mathlib

/-! # Helpers of the query kernels

`query_utils.hpp` holds helpers that the query kernels share: the identity
value of each aggregate function, the width of each column data type, the
copy of one dimension value (`setDimValue`, whose `switch` has no `break`),
a byte-by-byte comparison (`memequal`), and the launch grid of a kernel
(`calculateDim3`). Memory is a map from byte addresses to bytes; a `float`
is a signed rational magnitude, an infinity or NaN.
-/

namespace AresBroker.Query

/-- Device or host memory, byte by byte. -/
abbrev Mem := Nat → UInt8

/-! ## `setDimValue` -/

/-- `*reinterpret_cast<T *>(outPtr) = *reinterpret_cast<T *>(inPtr)` for a type
`T` of `n` bytes: the `n` bytes at `inPtr` are read, then written at
`outPtr`. -/
def store (m : Mem) (outPtr inPtr n : Nat) : Mem := fun a =>
  if outPtr ≤ a ∧ a < outPtr + n then m (inPtr + (a - outPtr)) else m a

/-- `setDimValue(outPtr, inPtr, dimBytes)`. With no `break`, the case of a
width runs its own store and those of every smaller width after it. -/
def setDimValue (m : Mem) (outPtr inPtr : Nat) (dimBytes : UInt16) : Mem :=
  let s := fun (n : Nat) (m : Mem) => store m outPtr inPtr n
  match dimBytes.toNat with
  | 16 => s 1 (s 2 (s 4 (s 8 (s 16 m))))
  | 8 => s 1 (s 2 (s 4 (s 8 m)))
  | 4 => s 1 (s 2 (s 4 m))
  | 2 => s 1 (s 2 m)
  | 1 => s 1 m
  | _ => m

/-- The widths `setDimValue`'s `switch` has a case for. -/
def dimWidths : List Nat := [1, 2, 4, 8, 16]

theorem store_store_of_le {m : Mem} {outPtr inPtr n k : Nat} (hn : n ≤ k)
    (hd : outPtr + k ≤ inPtr ∨ inPtr + k ≤ outPtr) :
    store (store m outPtr inPtr k) outPtr inPtr n = store m outPtr inPtr k := by
  funext a
  simp only [store]
  split_ifs with h₁ h₂ h₂ <;> first | rfl | omega

/-- On regions that do not overlap, `setDimValue` copies the value whole: the
stores its fall-through adds rewrite bytes with what they already hold. A
width without a case copies nothing. -/
theorem setDimValue_copies (m : Mem) {outPtr inPtr : Nat} {dimBytes : UInt16}
    (hd : outPtr + dimBytes.toNat ≤ inPtr ∨ inPtr + dimBytes.toNat ≤ outPtr) :
    setDimValue m outPtr inPtr dimBytes =
      if dimBytes.toNat ∈ dimWidths then store m outPtr inPtr dimBytes.toNat else m := by
  unfold setDimValue
  -- one goal per case of the `switch`; each wider store absorbs the narrower ones
  split <;> rename_i h <;> simp only [h] at hd ⊢ <;>
    simp (disch := omega) only [store_store_of_le, dimWidths] <;> simp_all

theorem setDimValue_copies_of_uuid :
    (0 + (16 : UInt16).toNat ≤ 16 ∨ 16 + (16 : UInt16).toNat ≤ 0) ∧
    setDimValue (fun a => UInt8.ofNat a) 0 16 16 =
      if (16 : UInt16).toNat ∈ dimWidths then store (fun a => UInt8.ofNat a) 0 16 (16 : UInt16).toNat
      else fun a => UInt8.ofNat a :=
  ⟨by decide, setDimValue_copies _ (by decide)⟩

theorem store_shift {m : Mem} {outPtr n a : Nat} (h₁ : outPtr ≤ a) (h₂ : a < outPtr + n) :
    store m outPtr (outPtr + 1) n a = m (a + 1) := by
  simp only [store, h₁, h₂, and_self, if_true]
  congr 1
  omega

/-- The column data types that `getStepInBytes` names; `other` stands for the
remaining values of `DataType`, declared outside the modelled files. -/
inductive DataType where
  | bool
  | int8
  | uint8
  | int16
  | uint16
  | int32
  | uint32
  | float32
  | geoPoint
  | int64
  | uint64
  | uuid
  | other (code : Nat)
  deriving Repr, DecidableEq

/-- `getStepInBytes(dataType)`; the `throw` of `std::invalid_argument` is the
error. -/
def getStepInBytes : DataType → Except String Nat
  | .bool | .int8 | .uint8 => .ok 1
  | .int16 | .uint16 => .ok 2
  | .int32 | .uint32 | .float32 => .ok 4
  | .geoPoint | .int64 | .uint64 => .ok 8
  | .uuid => .ok 16
  | .other _ => .error "Unsupported data type for VectorPartyInput"

theorem getStepInBytes_mem {t : DataType} {n : Nat} (h : getStepInBytes t = .ok n) :
    n ∈ dimWidths := by
  cases t <;> simp only [getStepInBytes, Except.ok.injEq, reduceCtorEq] at h <;> subst h <;> decide

/-- The loop of `memequal` from index `i` with `k` iterations left: it returns
`false` at the first byte that differs. -/
def memequalFrom (m : Mem) (lhs rhs : Nat) : Nat → Nat → Bool
  | _, 0 => true
  | i, k + 1 => if m (lhs + i) ≠ m (rhs + i) then false else memequalFrom m lhs rhs (i + 1) k

/-- `memequal(lhs, rhs, bytes)`: the loop `for (int i = 0; i < bytes; i++)`
runs `bytes` times, and not at all when `bytes ≤ 0`. -/
def memequal (m : Mem) (lhs rhs : Nat) (bytes : Int) : Bool :=
  memequalFrom m lhs rhs 0 bytes.toNat

theorem memequalFrom_iff (m : Mem) (lhs rhs : Nat) (k : Nat) :
    ∀ i, memequalFrom m lhs rhs i k = true ↔ ∀ j < k, m (lhs + (i + j)) = m (rhs + (i + j)) := by
  induction k with
  | zero => simp [memequalFrom]
  | succ k ih =>
    intro i
    by_cases h : m (lhs + i) = m (rhs + i)
    · simp only [memequalFrom, h, ne_eq, not_true_eq_false, if_false, ih (i + 1)]
      constructor
      · intro hk j hj
        cases j with
        | zero => simpa using h
        | succ j => simpa [Nat.add_assoc, Nat.add_comm 1 j] using hk j (by omega)
      · intro hk j hj
        simpa [Nat.add_assoc, Nat.add_comm 1 j] using hk (j + 1) (by omega)
    · simp only [memequalFrom, ne_eq, h, not_false_eq_true, if_true, Bool.false_eq_true, false_iff]
      exact fun hk => h (by simpa using hk 0 (by omega))

/-- `memequal` returns true exactly when the first `bytes` bytes at `lhs` and
at `rhs` agree. -/
theorem memequal_iff (m : Mem) (lhs rhs : Nat) (bytes : Int) :
    memequal m lhs rhs bytes = true ↔ ∀ i < bytes.toNat, m (lhs + i) = m (rhs + i) := by
  simpa using memequalFrom_iff m lhs rhs bytes.toNat 0

/-! ## `calculateDim3` -/

/-- `size_t` arithmetic: modulo `2 ^ 64`. -/
def sizeT (n : Nat) : Nat := n % 2 ^ 64

/-- `calculateDim3(&grid_size, &block_size, size, k)`, given the minimum grid
size and the block size that `cudaOccupancyMaxPotentialBlockSize` returns for
`k`, both positive `int`s. The `int`s convert to `size_t` in the arithmetic;
the result is `(grid_size, block_size)`. -/
def calculateDim3 (minGridSize blockSize size : Nat) : Nat × Nat :=
  let neededGridSize := sizeT (sizeT (size + blockSize) + (2 ^ 64 - 1)) / blockSize
  (min minGridSize neededGridSize, blockSize)

/-- The grid has `⌈size / blockSize⌉` blocks, capped at the minimum grid size,
as long as `size + blockSize - 1` fits in a `size_t`; past that the sum wraps
and the grid has no block at all. -/
theorem calculateDim3_grid {minGridSize blockSize size : Nat} (hb : 0 < blockSize)
    (hb' : blockSize < 2 ^ 31) (hs : size < 2 ^ 64) :
    (calculateDim3 minGridSize blockSize size).1 =
      if size + blockSize - 1 < 2 ^ 64 then min minGridSize ((size + blockSize - 1) / blockSize)
      else 0 := by
  simp only [calculateDim3, sizeT]
  split_ifs with h
  · have hmod : ((size + blockSize) % 2 ^ 64 + (2 ^ 64 - 1)) % 2 ^ 64 = size + blockSize - 1 := by
      omega
    rw [hmod]
  · have hmod : ((size + blockSize) % 2 ^ 64 + (2 ^ 64 - 1)) % 2 ^ 64 < blockSize := by omega
    rw [Nat.div_eq_of_lt hmod, Nat.min_zero]

theorem calculateDim3_grid_of_top :
    0 < 256 ∧ 256 < 2 ^ 31 ∧ 2 ^ 64 - 1 < 2 ^ 64 ∧
    (calculateDim3 4 256 (2 ^ 64 - 1)).1 =
      if 2 ^ 64 - 1 + 256 - 1 < 2 ^ 64 then min 4 ((2 ^ 64 - 1 + 256 - 1) / 256) else 0 :=
  ⟨by decide, by decide, by decide, calculateDim3_grid (by decide) (by decide) (by decide)⟩

/-- When the minimum grid size does not cap it and the sum does not wrap, the
grid has a thread for every element. -/
theorem calculateDim3_covers {minGridSize blockSize size : Nat} (hb : 0 < blockSize)
    (hb' : blockSize < 2 ^ 31) (hs : size + blockSize - 1 < 2 ^ 64)
    (hg : (size + blockSize - 1) / blockSize ≤ minGridSize) :
    size ≤ (calculateDim3 minGridSize blockSize size).1 * (calculateDim3 minGridSize blockSize size).2 := by
  rw [calculateDim3_grid hb hb' (by omega), if_pos hs, Nat.min_eq_right hg]
  have := Nat.lt_div_mul_add (a := size + blockSize - 1) hb
  simp only [calculateDim3]
  omega

theorem calculateDim3_covers_of_thousand :
    0 < 256 ∧ 256 < 2 ^ 31 ∧ 1000 + 256 - 1 < 2 ^ 64 ∧ (1000 + 256 - 1) / 256 ≤ 4 ∧
    1000 ≤ (calculateDim3 4 256 1000).1 * (calculateDim3 4 256 1000).2 :=
  ⟨by decide, by decide, by decide, by decide,
    calculateDim3_covers (by decide) (by decide) (by decide) (by decide)⟩

/-! ## `get_identity_value` -/

/-- The aggregate functions `get_identity_value` names; `other` stands for the
remaining values of `AggregateFunction`, declared outside the modelled files. -/
inductive AggregateFunction where
  | aggrSumUnsigned
  | aggrSumSigned
  | aggrSumFloat
  | aggrMinUnsigned
  | aggrMinSigned
  | aggrMinFloat
  | aggrMaxUnsigned
  | aggrMaxSigned
  | aggrMaxFloat
  | aggrAvgFloat
  | other (code : Nat)
  deriving Repr, DecidableEq

/-- `FLT_MAX`, the largest finite `float`. -/
def fltMax : ℚ := (2 ^ 24 - 1) * 2 ^ 104

/-- `FLT_MIN`, the smallest positive normal `float`. -/
def fltMin : ℚ := 1 / 2 ^ 126

/-- `get_identity_value<Value>(aggFunc)`, as the value it converts to `Value`. -/
def getIdentityValue : AggregateFunction → ℚ
  | .aggrAvgFloat => 0
  | .aggrSumUnsigned | .aggrSumSigned | .aggrSumFloat => 0
  | .aggrMinUnsigned => 4294967295
  | .aggrMinSigned => 2147483647
  | .aggrMinFloat => fltMax
  | .aggrMaxUnsigned => 0
  | .aggrMaxSigned => -2147483648
  | .aggrMaxFloat => fltMin
  | .other _ => 0

/-- The C type of the values an aggregate function combines. -/
inductive ValueKind where
  | uint32
  | int32
  | float32
  deriving Repr, DecidableEq

/-- A `float`: finite with a sign and a magnitude, so that `+0.0` and `-0.0`
are `fin false 0` and `fin true 0`; an infinity; or NaN. -/
inductive FloatValue where
  | fin (neg : Bool) (mag : ℚ)
  | inf (neg : Bool)
  | nan
  deriving Repr, DecidableEq

/-- IEEE addition, without its rounding (adding zero never rounds): NaN and
`∞ + -∞` give NaN, and an exact zero sum is `-0.0` only for two negative
zeros. -/
def FloatValue.add : FloatValue → FloatValue → FloatValue
  | .nan, _ => .nan
  | _, .nan => .nan
  | .inf s, .inf t => if s = t then .inf s else .nan
  | .inf s, .fin _ _ => .inf s
  | .fin _ _, .inf t => .inf t
  | .fin s a, .fin t b =>
    let r := (if s then -a else a) + (if t then -b else b)
    if r = 0 then .fin (s && t) 0 else .fin (decide (r < 0)) |r|

/-- A value an aggregate function combines: an integer of `uint32_t` or
`int32_t`, or a `float`. -/
inductive Value where
  | int (x : ℤ)
  | float (f : FloatValue)
  deriving Repr, DecidableEq

/-- Where IEEE comparisons put a value: the infinities at the ends, and
`-0.0` equal to `+0.0`. NaN compares with nothing and is left out. -/
def Value.key : Value → WithBot (WithTop ℚ)
  | .int x => ((x : ℚ) : WithTop ℚ)
  | .float (.fin s a) => (((if s then -a else a) : ℚ) : WithTop ℚ)
  | .float (.inf true) => ⊥
  | .float (.inf false) | .float .nan => ⊤

/-- `get_identity_value<Value>`'s literal converted to the function's value
type; the integer literals are whole, so the conversion does not round. -/
def ValueKind.cast : ValueKind → ℚ → Value
  | .uint32, q | .int32, q => .int ⌊q⌋
  | .float32, q => .float (.fin (decide (q < 0)) |q|)

/-- The values of a kind: the integers of `uint32_t` or `int32_t`, or the
`float`s, whose finite magnitudes are at most `FLT_MAX`. -/
def ValueKind.inRange : ValueKind → Value → Bool
  | .uint32, .int x => decide (0 ≤ x ∧ x < 2 ^ 32)
  | .int32, .int x => decide (-2 ^ 31 ≤ x ∧ x < 2 ^ 31)
  | .float32, .float (.fin _ a) => decide (0 ≤ a ∧ a ≤ fltMax)
  | .float32, .float _ => true
  | _, _ => false

/-- The binary operations the aggregate functions combine values with. -/
inductive AggregateOp where
  | sum
  | min
  | max
  deriving Repr, DecidableEq

/-- The sum, and the minimum and maximum by comparison, as `a < b ? a : b`
and `b < a ? a : b`. -/
def AggregateOp.apply : AggregateOp → Value → Value → Value
  | .sum, .int a, .int b => .int (a + b)
  | .sum, .float a, .float b => .float (a.add b)
  | .sum, a, _ => a
  | .min, a, b => if a.key < b.key then a else b
  | .max, a, b => if b.key < a.key then a else b

/-- What the name of an aggregate function says it computes. The average
combines pairs of an average and a count, and has no operation on single
values. -/
def AggregateFunction.meaning : AggregateFunction → Option (AggregateOp × ValueKind)
  | .aggrSumUnsigned => some (.sum, .uint32)
  | .aggrSumSigned => some (.sum, .int32)
  | .aggrSumFloat => some (.sum, .float32)
  | .aggrMinUnsigned => some (.min, .uint32)
  | .aggrMinSigned => some (.min, .int32)
  | .aggrMinFloat => some (.min, .float32)
  | .aggrMaxUnsigned => some (.max, .uint32)
  | .aggrMaxSigned => some (.max, .int32)
  | .aggrMaxFloat => some (.max, .float32)
  | .aggrAvgFloat | .other _ => none

theorem fltMin_pos : 0 < fltMin := by norm_num [fltMin]

theorem fltMin_lt_fltMax : fltMin < fltMax := by norm_num [fltMin, fltMax]

theorem apply_sum_zero_int (x : ℤ) : AggregateOp.sum.apply (.int 0) (.int x) = .int x := by
  simp [AggregateOp.apply]

theorem apply_min_int {b x : ℤ} (h : x ≤ b) : AggregateOp.min.apply (.int b) (.int x) = .int x := by
  simp [AggregateOp.apply, Value.key, not_lt.mpr h]

theorem apply_max_int {b x : ℤ} (h : b ≤ x) : AggregateOp.max.apply (.int b) (.int x) = .int x := by
  simp [AggregateOp.apply, Value.key, not_lt.mpr h]

theorem apply_sum_zero_float {x : FloatValue} (hx : ValueKind.float32.inRange (.float x))
    (hnan : x ≠ .nan) :
    AggregateOp.sum.apply (ValueKind.float32.cast 0) (.float x) = .float x ↔ x ≠ .fin true 0 := by
  cases x with
  | fin t b =>
    simp only [ValueKind.inRange, decide_eq_true_eq] at hx
    rcases hx.1.eq_or_lt with rfl | hb
    · cases t <;> simp [AggregateOp.apply, ValueKind.cast, FloatValue.add]
    · cases t <;> simp [AggregateOp.apply, ValueKind.cast, FloatValue.add, hb.ne', hb, hb.le,
        abs_of_pos hb]
  | inf t => simp [AggregateOp.apply, ValueKind.cast, FloatValue.add]
  | nan => exact absurd rfl hnan

theorem apply_min_fltMax {x : FloatValue} (hx : ValueKind.float32.inRange (.float x))
    (hnan : x ≠ .nan) :
    AggregateOp.min.apply (ValueKind.float32.cast fltMax) (.float x) = .float x ↔
      x ≠ .inf false := by
  have hmax : ¬ fltMax < 0 := not_lt.mpr (fltMin_pos.trans fltMin_lt_fltMax).le
  cases x with
  | fin t b =>
    simp only [ValueKind.inRange, decide_eq_true_eq] at hx
    have : ¬ fltMax < if t then -b else b := by split_ifs <;> linarith [hx.1, hx.2]
    simp [AggregateOp.apply, ValueKind.cast, Value.key, hmax, abs_of_nonneg (not_lt.mp hmax), this]
  | inf t => cases t <;> simp [AggregateOp.apply, ValueKind.cast, Value.key, hmax]
  | nan => exact absurd rfl hnan

theorem apply_max_fltMin {x : FloatValue} (hx : ValueKind.float32.inRange (.float x))
    (hnan : x ≠ .nan) :
    AggregateOp.max.apply (ValueKind.float32.cast fltMin) (.float x) = .float x ↔
      x = .inf false ∨ ∃ a, fltMin ≤ a ∧ x = .fin false a := by
  have hmin : ¬ fltMin < 0 := not_lt.mpr fltMin_pos.le
  cases x with
  | fin t b =>
    simp only [ValueKind.inRange, decide_eq_true_eq] at hx
    cases t
    · by_cases hb : b < fltMin
      · simp [AggregateOp.apply, ValueKind.cast, Value.key, hmin, abs_of_pos fltMin_pos, hb,
          not_le.mpr hb, hb.ne']
      · simp [AggregateOp.apply, ValueKind.cast, Value.key, hmin, abs_of_pos fltMin_pos, hb,
          not_lt.mp hb]
    · have : (-b : WithTop ℚ) < fltMin := by exact_mod_cast (by linarith [hx.1, fltMin_pos] : -b < fltMin)
      simp [AggregateOp.apply, ValueKind.cast, Value.key, hmin, abs_of_pos fltMin_pos, this]
  | inf t => cases t <;> simp [AggregateOp.apply, ValueKind.cast, Value.key, hmin]
  | nan => exact absurd rfl hnan

/-- The value `get_identity_value` returns leaves every value of its type
unchanged under the function's operation, as its comment says, save for
three `float` functions: `FLT_MIN` is the least positive normal `float`, so
the maximum with it replaces every value below it (the zeros, the negative
values and `-∞`); the minimum with `FLT_MAX` replaces `+∞`; and `+0.0 + -0.0`
is `+0.0`. NaN is left out: what a combination with it gives depends on the
order of the operands, which the reduction outside this file fixes. -/
theorem getIdentityValue_identity_iff {f : AggregateFunction} {op : AggregateOp}
    {k : ValueKind} {x : Value} (hf : f.meaning = some (op, k)) (hx : k.inRange x)
    (hnan : x ≠ .float .nan) :
    op.apply (k.cast (getIdentityValue f)) x = x ↔
      (f = .aggrSumFloat → x ≠ .float (.fin true 0)) ∧
      (f = .aggrMinFloat → x ≠ .float (.inf false)) ∧
      (f = .aggrMaxFloat → x = .float (.inf false) ∨ ∃ a, fltMin ≤ a ∧ x = .float (.fin false a)) := by
  cases f <;> simp only [AggregateFunction.meaning, Option.some.injEq, Prod.mk.injEq,
    reduceCtorEq] at hf <;> obtain ⟨rfl, rfl⟩ := hf <;>
    cases x <;> simp only [ValueKind.inRange, decide_eq_true_eq, Bool.false_eq_true] at hx
  -- the integer functions: the identity holds for every value in range
  case aggrSumUnsigned.intro.int | aggrSumSigned.intro.int => simp [getIdentityValue, ValueKind.cast,
    AggregateOp.apply]
  case aggrMinUnsigned.intro.int | aggrMinSigned.intro.int =>
    simpa [getIdentityValue, ValueKind.cast] using apply_min_int (by omega)
  case aggrMaxUnsigned.intro.int =>
    simpa [getIdentityValue, ValueKind.cast] using apply_max_int (by omega)
  case aggrMaxSigned.intro.int =>
    simpa [getIdentityValue, ValueKind.cast] using apply_max_int (by norm_num; omega)
  -- the `float` functions
  case aggrSumFloat.intro.float x =>
    simpa [getIdentityValue] using apply_sum_zero_float hx fun h => hnan (h ▸ rfl)
  case aggrMinFloat.intro.float x =>
    simpa [getIdentityValue] using apply_min_fltMax hx fun h => hnan (h ▸ rfl)
  case aggrMaxFloat.intro.float x =>
    simpa [getIdentityValue] using apply_max_fltMin hx fun h => hnan (h ▸ rfl)

theorem getIdentityValue_identity_iff_of_negative :
    AggregateFunction.aggrMaxFloat.meaning = some (.max, .float32) ∧
    ValueKind.float32.inRange (.float (.fin true 1)) ∧ Value.float (.fin true 1) ≠ .float .nan ∧
    (AggregateOp.max.apply (ValueKind.float32.cast (getIdentityValue .aggrMaxFloat))
        (.float (.fin true 1)) = .float (.fin true 1) ↔
      (AggregateFunction.aggrMaxFloat = .aggrSumFloat → Value.float (.fin true 1) ≠ .float (.fin true 0)) ∧
      (AggregateFunction.aggrMaxFloat = .aggrMinFloat → Value.float (.fin true 1) ≠ .float (.inf false)) ∧
      (AggregateFunction.aggrMaxFloat = .aggrMaxFloat → Value.float (.fin true 1) = .float (.inf false) ∨
        ∃ a, fltMin ≤ a ∧ Value.float (.fin true 1) = .float (.fin false a))) :=
  have hx : ValueKind.float32.inRange (.float (.fin true 1)) := by
    simp [ValueKind.inRange, fltMax]
    norm_num
  ⟨rfl, hx, by simp, getIdentityValue_identity_iff rfl hx (by simp)⟩

end AresBroker.Query
