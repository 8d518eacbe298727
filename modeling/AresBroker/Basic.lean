import Mathlib

/-! # Shared vocabulary of the broker model

Errors of the topology and broker packages, the outcome of a Go call that can
also panic, and Go byte slices with the slice expression `a[lo:hi]`.
Byte slices are lists of characters; a datanode response body is kept as the
texts of its rows, which the wire format joins with commas.
-/

namespace AresBroker

/-- Errors that the modelled code creates or passes on. Errors produced by a
collaborator outside the repository (the datanode client, the writer, the
JSON decoder) are `remote`, told apart by a code. -/
inductive Error where
  | errInvalidService
  | errUnexpectedShard
  | errMissingShard
  | errNotEnoughReplicasForShard
  | errInvalidTopology
  | errInstanceHasNoShardsAssignment
  /-- An error returned by a collaborator. -/
  | remote (code : Nat)
  /-- `utils.StackError(cause, message)`. -/
  | stack (cause : Error) (message : String)
  deriving Repr, DecidableEq

/-- The outcome of a Go call: a value, a returned error, or a run-time panic. -/
inductive Result (α : Type) where
  | ok (value : α)
  | error (e : Error)
  | panic
  deriving Repr, DecidableEq

namespace Result

def bind {α β : Type} : Result α → (α → Result β) → Result β
  | .ok a, f => f a
  | .error e, _ => .error e
  | .panic, _ => .panic

instance : Monad Result where
  pure := .ok
  bind := bind

@[simp] theorem bind_eq {α β : Type} (x : Result α) (f : α → Result β) :
    (x >>= f) = x.bind f := rfl

@[simp] theorem bind_ok {α β : Type} (a : α) (f : α → Result β) :
    (Result.ok a).bind f = f a := rfl

@[simp] theorem bind_error {α β : Type} (e : Error) (f : α → Result β) :
    (Result.error e).bind f = .error e := rfl

@[simp] theorem bind_panic {α β : Type} (f : α → Result β) :
    Result.panic.bind f = .panic := rfl

@[simp] theorem pure_eq {α : Type} (a : α) : (pure a : Result α) = .ok a := rfl

theorem bind_eq_ok {α β : Type} {x : Result α} {f : α → Result β} {b : β} :
    x.bind f = .ok b ↔ ∃ a, x = .ok a ∧ f a = .ok b := by
  cases x <;> simp

theorem bind_eq_panic {α β : Type} {x : Result α} {f : α → Result β} :
    x.bind f = .panic ↔ x = .panic ∨ ∃ a, x = .ok a ∧ f a = .panic := by
  cases x <;> simp

end Result

namespace Result

/-- A collaborator's `(value, error)` pair, which never panics. -/
def ofExcept {α : Type} : Except Error α → Result α
  | .ok a => .ok a
  | .error e => .error e

end Result

/-- `topology.Host`: an addressable datanode. -/
structure Host where
  id : String
  address : String
  deriving Repr, DecidableEq

/-- A Go `[]byte` holding text. -/
abbrev Bytes := List Char

/-- Go's slice expression `a[lo:hi]`, bounded by the length of `a`; `none` is
the run-time panic "slice bounds out of range". -/
def goSlice {α : Type} (a : List α) (lo hi : Int) : Option (List α) :=
  if 0 ≤ lo ∧ lo ≤ hi ∧ hi ≤ a.length then
    some ((a.drop lo.toNat).take (hi - lo).toNat)
  else none

theorem goSlice_eq_some {α : Type} {a : List α} {lo hi : Int}
    (h₀ : 0 ≤ lo) (h₁ : lo ≤ hi) (h₂ : hi ≤ a.length) :
    goSlice a lo hi = some ((a.drop lo.toNat).take (hi - lo).toNat) := by
  simp [goSlice, h₀, h₁, h₂]

theorem goSlice_prefix {α : Type} (a : List α) (k : Nat) (hk : k ≤ a.length) :
    goSlice a 0 k = some (a.take k) := by
  rw [goSlice_eq_some (Int.le_refl 0) (Int.ofNat_nonneg k) (by exact_mod_cast hk)]
  simp

/-- The datanode's wire format: row texts joined by commas, no brackets. -/
def joinRows (rows : List Bytes) : Bytes := [','].intercalate rows

/-- `append([]byte("["), b...)` followed by `append(b, ']')`. -/
def frame (b : Bytes) : Bytes := '[' :: (b ++ [']'])

@[simp] theorem frame_length (b : Bytes) : (frame b).length = b.length + 2 := by
  simp [frame]

theorem goSlice_frame (b : Bytes) :
    goSlice (frame b) 1 ((frame b).length - 1) = some b := by
  rw [goSlice_eq_some (by omega) (by rw [frame_length]; omega) (by omega)]
  simp [frame]

end AresBroker
