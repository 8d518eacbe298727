import AresBroker.Basic

/-! # Integer rows as `encoding/json` reads them

The reducer decodes the rows of a partial result with `json.Unmarshal` into
`[][]interface{}`, so every JSON number becomes a `float64`: an integer of
magnitude above `2 ^ 53` is rounded to the nearest `float64`, ties to even,
and `json.Marshal` prints that `float64` back as an integer. This is the codec
on rows of one integer of magnitude at most `2 ^ 54`, where the rounding
first shows.
-/

namespace AresBroker.Broker

/-- The decimal digits of `n`, least significant first; `fuel` bounds the
recursion. -/
def decimalDigits : Nat → Nat → List Nat
  | 0, _ => []
  | fuel + 1, n => if n < 10 then [n] else n % 10 :: decimalDigits fuel (n / 10)

theorem ofDigits_decimalDigits : ∀ (fuel n : Nat), n < fuel →
    Nat.ofDigits 10 (decimalDigits fuel n) = n
  | 0, _, h => absurd h (Nat.not_lt_zero _)
  | fuel + 1, n, h => by
    by_cases hn : n < 10
    · simp [decimalDigits, hn]
    · rw [decimalDigits, if_neg hn, Nat.ofDigits_cons,
        ofDigits_decimalDigits fuel (n / 10) (by omega)]
      omega

theorem decimalDigits_lt : ∀ (fuel n : Nat), ∀ d ∈ decimalDigits fuel n, d < 10
  | 0, _ => by simp [decimalDigits]
  | fuel + 1, n => by
    by_cases hn : n < 10
    · simp [decimalDigits, hn]
    · simp only [decimalDigits, hn, if_false, List.mem_cons]
      rintro d (rfl | hd)
      · omega
      · exact decimalDigits_lt fuel (n / 10) d hd

theorem decimalDigits_ne_nil (n : Nat) : decimalDigits (n + 1) n ≠ [] := by
  unfold decimalDigits
  split_ifs <;> simp

/-- The character of a decimal digit. -/
def digitChar (d : Nat) : Char := Char.ofNat (48 + d)

/-- The digit a character stands for, if it is one. -/
def charDigit (c : Char) : Option Nat :=
  if 48 ≤ c.toNat ∧ c.toNat < 58 then some (c.toNat - 48) else none

theorem charDigit_digitChar {d : Nat} (h : d < 10) : charDigit (digitChar d) = some d := by
  interval_cases d <;> rfl

theorem digitChar_ne_minus {d : Nat} (h : d < 10) : digitChar d ≠ '-' := by
  interval_cases d <;> decide

/-- A natural number in decimal, as `strconv` prints it. -/
def showNat (n : Nat) : Bytes := ((decimalDigits (n + 1) n).map digitChar).reverse

/-- The natural number a string of decimal digits spells. -/
def parseNat (cs : Bytes) : Option Nat :=
  if cs = [] then none else (cs.reverse.mapM charDigit).map (Nat.ofDigits 10)

theorem mapM_charDigit {ds : List Nat} (h : ∀ d ∈ ds, d < 10) :
    (ds.map digitChar).mapM charDigit = some ds := by
  induction ds with
  | nil => rfl
  | cons d ds ih =>
    rw [List.map_cons, List.mapM_cons, charDigit_digitChar (h d (List.mem_cons_self _ _)),
      ih fun e he => h e (List.mem_cons_of_mem _ he)]
    rfl

theorem parseNat_showNat (n : Nat) : parseNat (showNat n) = some n := by
  have hne : showNat n ≠ [] := by simpa [showNat] using decimalDigits_ne_nil n
  rw [parseNat, if_neg hne, showNat, List.reverse_reverse,
    mapM_charDigit (decimalDigits_lt _ n), Option.map_some',
    ofDigits_decimalDigits _ _ (Nat.lt_succ_self n)]

theorem showNat_head {n : Nat} : ∃ c cs, showNat n = c :: cs ∧ c ≠ '-' := by
  obtain ⟨ds, d, hds⟩ := List.eq_nil_or_concat (decimalDigits (n + 1) n) |>.resolve_left
    (decimalDigits_ne_nil n)
  have hd : d < 10 := decimalDigits_lt (n + 1) n d (by simp [hds])
  refine ⟨digitChar d, (ds.map digitChar).reverse, ?_, digitChar_ne_minus hd⟩
  rw [showNat, hds, List.concat_eq_append, List.map_append, List.reverse_append]
  rfl

/-- An integer in decimal, with a leading `-` when negative. -/
def showInt (x : ℤ) : Bytes := if x < 0 then '-' :: showNat x.natAbs else showNat x.natAbs

/-- The integer a string spells: an optional `-`, then decimal digits. -/
def parseInt : Bytes → Option ℤ
  | [] => none
  | c :: cs =>
    if c = '-' then (parseNat cs).map fun n => -(n : ℤ) else (parseNat (c :: cs)).map Int.ofNat

theorem parseInt_showInt (x : ℤ) : parseInt (showInt x) = some x := by
  unfold showInt
  split_ifs with hx
  · simp [parseInt, parseNat_showNat, Int.natCast_natAbs, abs_of_neg hx]
  · obtain ⟨c, cs, hcs, hc⟩ := showNat_head (n := x.natAbs)
    rw [hcs, parseInt, if_neg hc, ← hcs, parseNat_showNat]
    simp only [Option.map_some', Option.some.injEq, Int.ofNat_eq_coe]
    exact Int.natAbs_of_nonneg (not_lt.mp hx)

/-- An integer that a `float64` holds exactly, of magnitude at most `2 ^ 54`:
above `2 ^ 53` only the even ones. -/
def IsFloat64Int (x : ℤ) : Prop := x.natAbs ≤ 2 ^ 53 ∨ (x.natAbs ≤ 2 ^ 54 ∧ 2 ∣ x)

instance (x : ℤ) : Decidable (IsFloat64Int x) := inferInstanceAs (Decidable (_ ∨ _))

/-- The `float64` values that are integers of magnitude at most `2 ^ 54`. -/
abbrev Float64Int := { x : ℤ // IsFloat64Int x }

/-- The `float64` nearest an integer of magnitude at most `2 ^ 54`, ties to
even: above `2 ^ 53` an odd integer goes to its neighbour divisible by `4`. -/
def roundFloat64 (n : ℤ) : ℤ :=
  if n.natAbs ≤ 2 ^ 53 ∨ 2 ∣ n then n else if 4 ∣ n - 1 then n - 1 else n + 1

theorem isFloat64Int_roundFloat64 {n : ℤ} (h : n.natAbs ≤ 2 ^ 54) :
    IsFloat64Int (roundFloat64 n) := by
  unfold roundFloat64 IsFloat64Int
  split_ifs with h₁ h₂ <;> omega

theorem roundFloat64_of_isFloat64Int {x : ℤ} (h : IsFloat64Int x) : roundFloat64 x = x := by
  unfold roundFloat64 IsFloat64Int at *
  rw [if_pos (by omega)]

/-- The exact integer a row `[n]` holds, as a JSON value. -/
def parseIntRow : Bytes → Option ℤ
  | '[' :: rest => if rest.getLast? = some ']' then parseInt rest.dropLast else none
  | _ => none

/-- `json.Unmarshal` of a row `[n]`: the `float64` nearest `n`. -/
def decodeIntRow (b : Bytes) : Except Error Float64Int :=
  match parseIntRow b with
  | some n =>
    if h : n.natAbs ≤ 2 ^ 54 then .ok ⟨roundFloat64 n, isFloat64Int_roundFloat64 h⟩
    else .error (.remote 1)
  | none => .error (.remote 1)

/-- `json.Marshal` of a decoded row: its `float64`, an integer, in full. -/
def marshalIntRow (v : Float64Int) : Bytes := '[' :: (showInt v.1 ++ [']'])

theorem parseIntRow_marshalIntRow (v : Float64Int) : parseIntRow (marshalIntRow v) = some v.1 := by
  simp [parseIntRow, marshalIntRow, parseInt_showInt]

theorem decodeIntRow_marshalIntRow (v : Float64Int) : decodeIntRow (marshalIntRow v) = .ok v := by
  have hv : v.1.natAbs ≤ 2 ^ 54 := by have := v.2; unfold IsFloat64Int at this; omega
  simp only [decodeIntRow, parseIntRow_marshalIntRow, dif_pos hv]
  exact congrArg Except.ok (Subtype.ext (roundFloat64_of_isFloat64Int v.2))

end AresBroker.Broker
