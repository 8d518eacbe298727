import AresBroker.Basic

/-! # Retrying a streaming scan

`StreamingScanNode.Execute` calls `QueryRaw` up to `rpcRetries` times and
stops at the first call that returns no error. The wrapped error of a failed
call survives into later iterations, and after the loop it is dropped as soon
as the last call returned a non-nil byte slice, whatever its error was.
-/

namespace AresBroker.Broker

variable {β : Type}

/-- `utils.StackError(fetchErr, "fetch from datanode failed")`. -/
def fetchFailed (e : Error) : Error := .stack e "fetch from datanode failed"

/-- The loop of `StreamingScanNode.Execute` from call number `trial`, with `k`
iterations left before `trial` reaches `rpcRetries`. `queryRaw t` is what call
number `t` of `QueryRaw` returns: the byte slice (`none` is nil) and the error.
The result is the number of calls made, then `bs` and `err`. -/
def retry (queryRaw : Nat → Option β × Option Error) :
    Nat → Nat → Option β → Option Error → Nat × Option β × Option Error
  | trial, 0, bs, err => (trial, bs, err)
  | trial, k + 1, _, err =>
    match queryRaw trial with
    | (bs, some fetchErr) => retry queryRaw (trial + 1) k bs (some (fetchFailed fetchErr))
    | (bs, none) => (trial + 1, bs, err)

/-- `StreamingScanNode.Execute`: the number of `QueryRaw` calls, and the
returned `(bs, err)`. `rpcRetries` is declared outside the modelled files. -/
def StreamingScanNode.execute (rpcRetries : Nat) (queryRaw : Nat → Option β × Option Error) :
    Nat × Option β × Option Error :=
  match retry queryRaw 0 rpcRetries none none with
  | (calls, bs, err) => (calls, bs, if bs.isSome then none else err)

theorem retry_eq (queryRaw : Nat → Option β × Option Error) :
    ∀ (k trial : Nat) (bs : Option β) (err : Option Error),
    retry queryRaw trial k bs err =
      match (List.range' trial k).find? (fun t => (queryRaw t).2.isNone) with
      | some t => (t + 1, (queryRaw t).1,
          if t = trial then err else (queryRaw (t - 1)).2.map fetchFailed)
      | none => (trial + k, if k = 0 then bs else (queryRaw (trial + k - 1)).1,
          if k = 0 then err else (queryRaw (trial + k - 1)).2.map fetchFailed) := by
  intro k
  induction k with
  | zero => intro trial bs err; rfl
  | succ k ih =>
    intro trial bs err
    rw [List.range'_succ, List.find?_cons]
    rcases hq : queryRaw trial with ⟨b, _ | e⟩
    · simp [retry, hq]
    · have hstep : retry queryRaw trial (k + 1) bs err =
          retry queryRaw (trial + 1) k b (some (fetchFailed e)) := by
        simp [retry, hq]
      rw [hstep, ih]
      simp only [hq, Option.isNone_some]
      cases hf : (List.range' (trial + 1) k).find? (fun t => (queryRaw t).2.isNone) with
      | some t =>
        have ht : trial + 1 ≤ t := (List.mem_range'_1.mp (List.mem_of_find?_eq_some hf)).1
        by_cases h : t = trial + 1
        · subst h; simp [hq]
        · simp [h, show t ≠ trial by omega]
      | none =>
        rcases k with _ | k
        · simp [hq]
        · simp only [Nat.add_right_comm trial 1, Nat.add_assoc]
          simp

/-- `Execute` makes calls up to the first successful one, or `rpcRetries`
calls, and returns the bytes of the last call made. Its error is nil whenever
those bytes are non-nil; otherwise it is the wrapped error of the most recent
failed call, nil if none failed. -/
theorem execute_eq (rpcRetries : Nat) (queryRaw : Nat → Option β × Option Error) :
    StreamingScanNode.execute rpcRetries queryRaw =
      match (List.range rpcRetries).find? (fun t => (queryRaw t).2.isNone) with
      | some t => (t + 1, (queryRaw t).1,
          if (queryRaw t).1.isSome ∨ t = 0 then none else (queryRaw (t - 1)).2.map fetchFailed)
      | none => (rpcRetries, if rpcRetries = 0 then none else (queryRaw (rpcRetries - 1)).1,
          if rpcRetries = 0 ∨ (queryRaw (rpcRetries - 1)).1.isSome then none
          else (queryRaw (rpcRetries - 1)).2.map fetchFailed) := by
  unfold StreamingScanNode.execute
  rw [retry_eq, List.range_eq_range']
  cases (List.range' 0 rpcRetries).find? (fun t => (queryRaw t).2.isNone) with
  | some t => by_cases h : (queryRaw t).1.isSome <;> simp [h]
  | none => by_cases h : rpcRetries = 0 <;> simp [h]

/-- One call that fails but still returns bytes: `Execute` returns the bytes
with a nil error. -/
theorem execute_failed_call_with_bytes :
    let queryRaw : Nat → Option Bytes × Option Error := fun _ => (some ['x'], some (.remote 0))
    (queryRaw 0).2 ≠ none ∧ StreamingScanNode.execute 1 queryRaw = (1, some ['x'], none) :=
  ⟨by simp, rfl⟩

end AresBroker.Broker
