import AresBroker.Broker.Fanout

/-! # Every interleaving of the goroutines ends

A goroutine of `NonAggQueryPlan.Execute` runs straight-line code up to its one
blocking operation: a worker blocks only at its send, the reducer only at its
receive, and the reducer receives only while some worker has not sent. So
every step brings the goroutines closer to the end (`Fanout.rank`), and the
states where none of them can move are those where `Execute` has returned,
with each worker either received or blocked at its send.
-/

namespace AresBroker.Broker

/-- The steps a worker has left. A completed send counts for the steps of the
loop body it hands the reducer. -/
def WorkerPc.rank : WorkerPc → Nat
  | .start => 7
  | .fetched _ => 6
  | .sending _ => 5
  | .sent => 0

/-- The steps the reducer has left outside its receives. -/
def ReducerPc.rank : ReducerPc → Nat
  | .received _ => 7
  | .unmarshalled _ => 6
  | .marshalling _ => 5
  | .marshalled _ => 4
  | .head => 3
  | .closing => 2
  | .returning => 1
  | .returned _ | .panicked => 0

/-- How far the goroutines are from the end. -/
def Fanout.rank (s : Fanout) : Nat := (s.workers.map WorkerPc.rank).sum + s.reducer.rank

theorem sum_map_set_of_eq_some {α : Type} (f : α → Nat) {l : List α} {j : Nat} {a b : α}
    (hj : l[j]? = some b) : ((l.set j a).map f).sum + f b = (l.map f).sum + f a := by
  induction l generalizing j with
  | nil => simp at hj
  | cons y l ih =>
    cases j with
    | zero =>
      obtain rfl : y = b := by simpa using hj
      simp only [List.set_cons_zero, List.map_cons, List.sum_cons]
      omega
    | succ j =>
      have := ih (by simpa using hj)
      simp only [List.set_cons_succ, List.map_cons, List.sum_cons]
      omega

theorem Fanout.rank_init (n : Nat) : (Fanout.init n).rank = 7 * n + 3 := by
  simp [Fanout.rank, Fanout.init, WorkerPc.rank, ReducerPc.rank, List.sum_replicate, mul_comm]

section
variable {Row : Type} (J : RowCodec Row) (limit : Int) (w : Nat → Option Error)
  (node : Nat → Option (List Bytes) × Option Error)

theorem reduce_rank_lt {s : Fanout} {pc : ReducerPc} {err : Option Error} {h : Head}
    (hs : s.reduce J limit w = some (pc, err, h)) : pc.rank < s.reducer.rank := by
  cases Fanout.reduces_of_reduce J limit w hs <;> simp_all [ReducerPc.rank]

theorem Step.rank_lt {s s' : Fanout} (h : Step J limit w node s s') : s'.rank < s.rank := by
  cases h with
  | @fetch k hk =>
    have := sum_map_set_of_eq_some WorkerPc.rank (a := .fetched (node k).1) hk
    simp only [Fanout.rank, WorkerPc.rank] at this ⊢
    omega
  | @prepare k bs hk =>
    have := sum_map_set_of_eq_some WorkerPc.rank (a := .sending ⟨bs, s.err⟩) hk
    simp only [Fanout.rank, WorkerPc.rank] at this ⊢
    omega
  | receive hr _ _ hk =>
    have := sum_map_set_of_eq_some WorkerPc.rank (a := .sent) hk
    simp only [Fanout.rank, WorkerPc.rank, ReducerPc.rank, hr] at this ⊢
    omega
  | exit hr _ => simp [Fanout.rank, hr, ReducerPc.rank]
  | reduce hs =>
    have := reduce_rank_lt J limit w hs
    simp only [Fanout.rank]
    omega

theorem StepsIn.add_rank_le {k : Nat} {s s' : Fanout} (h : StepsIn J limit w node k s s') :
    k + s'.rank ≤ s.rank := by
  induction h with
  | refl => omega
  | step hst _ ih =>
    have := hst.rank_lt J limit w node
    omega

/-- Every interleaving of the goroutines of `Execute` with `n` nodes ends
within `7 * n + 3` steps, whatever the nodes and the writer return: at most
seven steps per worker (its call, its message, its send, and the reducer's
loop body on it, which assigns and tests `err` twice when it re-encodes) and
three for the reducer (the loop's exit, the write of `]}`, the return). -/
theorem fanout_runs_end {n k : Nat} {s : Fanout}
    (h : StepsIn J limit w node k (Fanout.init n) s) : k ≤ 7 * n + 3 := by
  have := StepsIn.add_rank_le J limit w node h
  rw [Fanout.rank_init] at this
  omega

theorem fanout_runs_end_of_twoBodies :
    StepsIn verbatim (-1) (fun _ => none) twoBodies 11 (Fanout.init 2) twoBodiesReturned ∧
      11 ≤ 7 * 2 + 3 :=
  ⟨stepsIn_twoBodies, fanout_runs_end verbatim (-1) (fun _ => none) twoBodies stepsIn_twoBodies⟩

/-! ## Progress -/

/-- What each position of the reducer needs to move on: in a loop body it has
received one message more than it has finished iterations, at the head as
many; it unmarshals only under a limit; and it re-encodes only when more rows
were decoded than are wanted. -/
def Fanout.AtPc (s : Fanout) : Prop :=
  match s.reducer with
  | .head => s.head.i = s.received.length
  | .received _ => s.head.i + 1 = s.received.length
  | .unmarshalled _ => s.head.i + 1 = s.received.length ∧ 0 ≤ limit
  | .marshalling res | .marshalled res => s.head.i + 1 = s.received.length ∧ 0 ≤ limit ∧
      getRowsWanted limit s.head.flushed < (unmarshal J res.rows).1.length
  | .closing | .returning | .returned _ => True
  | .panicked => False

/-- What every interleaving keeps, whatever the nodes return: under a limit
no more than `limit` rows are flushed, and the reducer is where it can move
on. So no slice expression of the reducer is out of range. -/
structure Fanout.Sane (s : Fanout) : Prop where
  flushed : 0 ≤ limit → 0 ≤ getRowsWanted limit s.head.flushed
  at_pc : s.AtPc J limit

theorem Fanout.sane_init (n : Nat) : (Fanout.init n).Sane J limit where
  flushed hl := by simpa [Fanout.init, getRowsWanted] using hl
  at_pc := rfl

theorem Fanout.Sane.reduce {s : Fanout} {pc : ReducerPc} {err : Option Error} {h : Head}
    (hs : s.Sane J limit) (hr : s.reduce J limit w = some (pc, err, h)) :
    ({ s with reducer := pc, err := err, head := h } : Fanout).Sane J limit := by
  obtain ⟨hfl, hpc⟩ := hs
  unfold Fanout.AtPc at hpc
  cases Fanout.reduces_of_reduce J limit w hr with
  | resError | unmarshalError | marshalError | writeEnd | ret => exact ⟨hfl, trivial⟩
  | writeData hred _ hl =>
    simp only [hred] at hpc
    exact ⟨fun _ => by omega, by simp only [Fanout.AtPc, Head.next_i]; omega⟩
  | unmarshal hred _ hl => simp only [hred] at hpc; exact ⟨hfl, hpc, hl⟩
  | writeAll hred _ hle =>
    simp only [hred] at hpc
    refine ⟨fun _ => ?_, by simp only [Fanout.AtPc, Head.next_i]; omega⟩
    simp only [getRowsWanted, Head.next_flushed] at hle ⊢
    omega
  | cut hred _ hlt => simp only [hred] at hpc; exact ⟨hfl, hpc.1, hpc.2, hlt⟩
  | marshal hred => simp only [hred] at hpc; exact ⟨hfl, hpc⟩
  | writeCut hred =>
    simp only [hred] at hpc
    exact ⟨fun _ => by simp [getRowsWanted], by simp only [Fanout.AtPc, Head.next_i]; omega⟩
  | cutPanics hred _ hslice =>
    simp only [hred] at hpc
    rw [goSlice_eq_some (le_refl 0) (hfl hpc.2.1) (by omega)] at hslice
    cases hslice

theorem Fanout.Sane.step {s s' : Fanout} (hs : s.Sane J limit) (h : Step J limit w node s s') :
    s'.Sane J limit := by
  cases h with
  | fetch | prepare => exact ⟨hs.flushed, hs.at_pc⟩
  | exit hr _ => exact ⟨hs.flushed, trivial⟩
  | receive hr =>
    have := hs.at_pc
    simp only [Fanout.AtPc, hr] at this
    exact ⟨hs.flushed, by simp [Fanout.AtPc, this]⟩
  | reduce hr => exact hs.reduce J limit w hr

theorem Reachable.sane {n : Nat} {s : Fanout} (h : Reachable J limit w node n s) : s.Sane J limit := by
  induction h with
  | refl => exact Fanout.sane_init J limit n
  | tail _ hst ih => exact ih.step J limit w node hst

theorem exists_step_of_worker {s : Fanout} {k : Nat} {pc : WorkerPc} (hk : s.workers[k]? = some pc)
    (hpc : pc = .start ∨ ∃ bs, pc = .fetched bs) : ∃ s', Step J limit w node s s' := by
  rcases hpc with rfl | ⟨bs, rfl⟩
  · exact ⟨_, .fetch hk⟩
  · exact ⟨_, .prepare hk⟩

/-- Until `Execute` returns, some goroutine can move: in particular the
reducer never waits at its receive while every worker has sent. -/
theorem Fanout.Sane.exists_step {n : Nat} {s : Fanout} (hs : s.Sane J limit) (hc : s.Counts n)
    (hr : ∀ e, s.reducer ≠ .returned e) : ∃ s', Step J limit w node s s' := by
  have hpc := hs.at_pc
  cases hred : s.reducer with
  | head =>
    simp only [Fanout.AtPc, hred] at hpc
    by_cases hgo : s.head.i < s.workers.length ∧ getRowsWanted limit s.head.flushed ≠ 0
    · have hlt : s.workers.count .sent < s.workers.length := by
        rw [hc.count_sent, ← hpc]
        exact hgo.1
      obtain ⟨pc, hmem, hne⟩ : ∃ pc ∈ s.workers, pc ≠ .sent := by
        by_contra hall
        push_neg at hall
        exact hlt.ne (List.count_eq_length.mpr fun b hb => (hall b hb).symm)
      obtain ⟨k, hk⟩ := List.mem_iff_getElem?.mp hmem
      cases pc with
      | start => exact exists_step_of_worker J limit w node hk (.inl rfl)
      | fetched bs => exact exists_step_of_worker J limit w node hk (.inr ⟨bs, rfl⟩)
      | sending m => exact ⟨_, .receive hred hgo.1 hgo.2 hk⟩
      | sent => exact absurd rfl hne
    · exact ⟨_, .exit hred hgo⟩
  | returned e => exact absurd hred (hr e)
  | panicked => simp [Fanout.AtPc, hred] at hpc
  | _ =>
    obtain ⟨⟨pc, err, h⟩, hred'⟩ := Option.ne_none_iff_exists'.mp
      (reduce_ne_none J limit w (s := s) (by simp [hred]) (by simp [hred]) (by simp [hred]))
    exact ⟨_, .reduce hred'⟩

/-- In every interleaving, the goroutines are stuck exactly when `Execute` has
returned and every worker has either had its message received or is blocked
at its send: no interleaving deadlocks before `Execute` returns. -/
theorem fanout_stuck_iff_returned {n : Nat} {s : Fanout} (hs : Reachable J limit w node n s) :
    (∀ s', ¬ Step J limit w node s s') ↔
      (∃ e, s.reducer = .returned e) ∧ ∀ pc ∈ s.workers, pc = .sent ∨ ∃ m, pc = .sending m := by
  constructor
  · intro hstuck
    refine ⟨?_, fun pc hmem => ?_⟩
    · by_contra hne
      push_neg at hne
      obtain ⟨s', h⟩ := (Reachable.sane J limit w node hs).exists_step J limit w node
        (Reachable.counts J limit w node hs) hne
      exact hstuck s' h
    · obtain ⟨k, hk⟩ := List.mem_iff_getElem?.mp hmem
      cases pc with
      | start | fetched =>
        obtain ⟨s', h⟩ := exists_step_of_worker J limit w node hk (by simp)
        exact absurd h (hstuck s')
      | sending m => exact .inr ⟨m, rfl⟩
      | sent => exact .inl rfl
  · rintro ⟨⟨e, hr⟩, hw⟩ s' h
    cases h with
    | fetch hk | prepare hk =>
      rcases hw _ (List.mem_iff_getElem?.mpr ⟨_, hk⟩) with h | ⟨_, h⟩ <;> cases h
    | exit h | receive h => simp [hr] at h
    | reduce h => simp [Fanout.reduce, hr] at h

theorem fanout_stuck_iff_returned_of_twoBodies :
    Reachable verbatim (-1) (fun _ => none) twoBodies 2 twoBodiesReturned ∧
    ((∀ s', ¬ Step verbatim (-1) (fun _ => none) twoBodies twoBodiesReturned s') ↔
      (∃ e, twoBodiesReturned.reducer = .returned e) ∧
        ∀ pc ∈ twoBodiesReturned.workers, pc = .sent ∨ ∃ m, pc = .sending m) :=
  ⟨reachable_twoBodies, fanout_stuck_iff_returned verbatim (-1) (fun _ => none) twoBodies
    reachable_twoBodies⟩

end

end AresBroker.Broker
