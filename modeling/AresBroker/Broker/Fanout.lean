import AresBroker.Broker.Reducer

/-! # The goroutines of a non-aggregate query

After the prefix of the response is written, `NonAggQueryPlan.Execute` starts
one goroutine per scan node and receives their results on the unbuffered
`resultChan`. A worker runs its node's `Execute`, assigns the error to `err`,
the named result of the enclosing `Execute` that every worker and the reducer
share, and sends its bytes with the value `err` holds then. Every statement
that reads or assigns `err`, and every send and receive, is a step of its own;
the statements of the reducer between two of them touch only its own
variables and run as one step. A send completes only together with a
receive. Nothing cancels a worker.
-/

namespace AresBroker.Broker

/-- Where a worker goroutine is. -/
inductive WorkerPc where
  /-- Started, about to call its node's `Execute`. -/
  | start
  /-- After `bs, err = n.Execute(ctx)`. -/
  | fetched (bs : Option (List Bytes))
  /-- At the send, its message evaluated, until the reducer receives it. -/
  | sending (res : StreamingScanNoderesult)
  /-- Its message was received. -/
  | sent
  deriving Repr, DecidableEq

/-- Where the reducer is. -/
inductive ReducerPc where
  /-- The head of the receive loop. -/
  | head
  /-- After `res := <-nqp.resultChan`. -/
  | received (res : StreamingScanNoderesult)
  /-- After `err = json.Unmarshal(res.data, &resultData)`, at `if err != nil`. -/
  | unmarshalled (res : StreamingScanNoderesult)
  /-- More rows decoded than wanted: at `bs, err = json.Marshal(dataToFlush)`. -/
  | marshalling (res : StreamingScanNoderesult)
  /-- After `json.Marshal`, at `if err != nil`. -/
  | marshalled (res : StreamingScanNoderesult)
  /-- Past the loop, at `_, err = nqp.w.Write(...)`. -/
  | closing
  /-- At a `return`, which returns the value `err` holds when it runs. -/
  | returning
  /-- `Execute` has returned `err`. -/
  | returned (err : Option Error)
  | panicked
  deriving Repr, DecidableEq

/-- The goroutines of `Execute` after the prefix writes: the shared `err`, each
worker's position, the reducer's position and loop head, and, as ghost state,
the messages the reducer received, in order. -/
structure Fanout where
  err : Option Error
  workers : List WorkerPc
  reducer : ReducerPc
  head : Head
  received : List StreamingScanNoderesult
  deriving Repr, DecidableEq

/-- Right after the prefix writes succeeded, for `n` nodes. -/
def Fanout.init (n : Nat) : Fanout := ⟨none, List.replicate n .start, .head, ⟨0, 0, []⟩, []⟩

/-- The loop head after an iteration that wrote `out` and flushed `k` rows. -/
def Head.next (limit : Int) (n : Nat) (h : Head) (out : Bytes) (k : Int) : Head :=
  ⟨h.i + 1, h.flushed + k, h.writes ++ out :: separator limit (h.flushed + k) h.i n⟩

@[simp] theorem Head.next_i (limit : Int) (n : Nat) (h : Head) (out : Bytes) (k : Int) :
    (h.next limit n out k).i = h.i + 1 := rfl

@[simp] theorem Head.next_flushed (limit : Int) (n : Nat) (h : Head) (out : Bytes) (k : Int) :
    (h.next limit n out k).flushed = h.flushed + k := rfl

section
variable {Row : Type} (J : RowCodec Row) (limit : Int) (w : Nat → Option Error)
  (node : Nat → Option (List Bytes) × Option Error)

/-- `json.Unmarshal` of a framed body into `resultData`: the decoded rows and
no error, or `resultData` left nil and the error. -/
def unmarshal (rows : List Bytes) : List Row × Option Error :=
  match rows.mapM J.decodeRow with
  | .ok vs => (vs, none)
  | .error e => ([], some e)

/-- The reducer's next statement other than a receive or the loop's exit: its
position after it, the value `err` then holds, and its loop head. -/
def Fanout.reduce (s : Fanout) : Option (ReducerPc × Option Error × Head) :=
  let n := s.workers.length
  let h := s.head
  match s.reducer with
  | .received res =>
    match res.err with
    | some e => some (.returning, some e, h)
    | none =>
      if limit < 0 then some (.head, s.err, h.next limit n (joinRows res.rows) 0)
      else some (.unmarshalled res, (unmarshal J res.rows).2, h)
  | .unmarshalled res =>
    if s.err.isSome then some (.returning, s.err, h)
    else
      let resultData := (unmarshal J res.rows).1
      if (resultData.length : Int) ≤ getRowsWanted limit h.flushed then
        let data := frame (joinRows res.rows)
        match goSlice data 1 (data.length - 1) with
        | some out => some (.head, s.err, h.next limit n out resultData.length)
        | none => some (.panicked, s.err, h)
      else some (.marshalling res, s.err, h)
  | .marshalling res => some (.marshalled res, none, h)
  | .marshalled res =>
    if s.err.isSome then some (.returning, s.err, h)
    else
      let rowsToFlush := getRowsWanted limit h.flushed
      match goSlice (unmarshal J res.rows).1 0 rowsToFlush with
      | none => some (.panicked, s.err, h)
      | some dataToFlush =>
        let bs := frame (joinRows (dataToFlush.map J.marshalRow))
        match goSlice bs 1 (bs.length - 1) with
        | some out => some (.head, s.err, h.next limit n out rowsToFlush)
        | none => some (.panicked, s.err, h)
  | .closing => some (.returning, w (3 + h.writes.length), { h with writes := h.writes ++ [postamble] })
  | .returning => some (.returned s.err, s.err, h)
  | .head | .returned _ | .panicked => none

/-- One step of one goroutine. `node k` is what node `k`'s `Execute` returns,
and `w k` the error of the `k`-th call of `w.Write`. -/
inductive Step : Fanout → Fanout → Prop
  /-- Worker `k` runs its node's `Execute` and assigns `err`. -/
  | fetch {s : Fanout} {k : Nat} : s.workers[k]? = some .start →
      Step s { s with workers := s.workers.set k (.fetched (node k).1), err := (node k).2 }
  /-- Worker `k` evaluates its message, reading `err`, and waits at the send. -/
  | prepare {s : Fanout} {k : Nat} {bs : Option (List Bytes)} : s.workers[k]? = some (.fetched bs) →
      Step s { s with workers := s.workers.set k (.sending ⟨bs, s.err⟩) }
  /-- The loop ends: `i < len(nqp.nodes)` fails, or no rows are wanted. -/
  | exit {s : Fanout} : s.reducer = .head →
      ¬ (s.head.i < s.workers.length ∧ getRowsWanted limit s.head.flushed ≠ 0) →
      Step s { s with reducer := .closing }
  /-- The reducer receives worker `k`'s message. -/
  | receive {s : Fanout} {k : Nat} {res : StreamingScanNoderesult} : s.reducer = .head →
      s.head.i < s.workers.length → getRowsWanted limit s.head.flushed ≠ 0 →
      s.workers[k]? = some (.sending res) →
      Step s { s with
        workers := s.workers.set k .sent, reducer := .received res, received := s.received ++ [res] }
  /-- Any other statement of the reducer. -/
  | reduce {s : Fanout} {pc : ReducerPc} {err : Option Error} {h : Head} :
      s.reduce J limit w = some (pc, err, h) → Step s { s with reducer := pc, err := err, head := h }

/-- Runs of the goroutines. -/
def Steps : Fanout → Fanout → Prop := Relation.ReflTransGen (Step J limit w node)

/-- The states some interleaving reaches from the start with `n` nodes. -/
def Reachable (n : Nat) (s : Fanout) : Prop := Steps J limit w node (Fanout.init n) s

/-- Runs of exactly `k` steps. -/
inductive StepsIn : Nat → Fanout → Fanout → Prop
  | refl (s : Fanout) : StepsIn 0 s s
  | step {k : Nat} {s s' s'' : Fanout} : Step J limit w node s s' → StepsIn k s' s'' →
      StepsIn (k + 1) s s''

theorem StepsIn.steps {k : Nat} {s s' : Fanout} (h : StepsIn J limit w node k s s') :
    Steps J limit w node s s' := by
  induction h with
  | refl => exact .refl
  | step hst _ ih => exact .head hst ih

theorem getElem?_set_of_eq_some {α : Type} {l : List α} {j k : Nat} {a b : α}
    (hj : l[j]? = some b) : (l.set j a)[k]? = if j = k then some a else l[k]? := by
  have : j < l.length := (List.getElem?_eq_some_iff.mp hj).1
  rw [List.getElem?_set]
  split_ifs <;> rfl

theorem reduce_ne_none {s : Fanout} (hr : s.reducer ≠ .head) (hret : ∀ e, s.reducer ≠ .returned e)
    (hp : s.reducer ≠ .panicked) : s.reduce J limit w ≠ none := by
  intro h
  unfold Fanout.reduce at h
  dsimp only at h
  repeat' split at h
  all_goals simp_all

/-- The branches of `Fanout.reduce` that can be taken, one per statement of the
reducer: the slices `res.data[1:len(res.data)-1]` and `bs[1:len(bs)-1]` of a
framed body are never out of range. -/
inductive Fanout.Reduces (s : Fanout) : ReducerPc → Option Error → Head → Prop
  /-- `err = res.err` and `return`. -/
  | resError {res : StreamingScanNoderesult} {e : Error} : s.reducer = .received res →
      res.err = some e → Fanout.Reduces s .returning (some e) s.head
  /-- Without a limit, `nqp.w.Write(res.data)` and the rest of the body. -/
  | writeData {res : StreamingScanNoderesult} : s.reducer = .received res → res.err = none →
      limit < 0 → Fanout.Reduces s .head s.err (s.head.next limit s.workers.length (joinRows res.rows) 0)
  /-- `err = json.Unmarshal(res.data, &resultData)`. -/
  | unmarshal {res : StreamingScanNoderesult} : s.reducer = .received res → res.err = none →
      0 ≤ limit → Fanout.Reduces s (.unmarshalled res) (unmarshal J res.rows).2 s.head
  | unmarshalError {res : StreamingScanNoderesult} : s.reducer = .unmarshalled res →
      s.err ≠ none → Fanout.Reduces s .returning s.err s.head
  /-- Every decoded row is wanted: the body is written as it came. -/
  | writeAll {res : StreamingScanNoderesult} : s.reducer = .unmarshalled res → s.err = none →
      ((unmarshal J res.rows).1.length : Int) ≤ getRowsWanted limit s.head.flushed →
      Fanout.Reduces s .head s.err
        (s.head.next limit s.workers.length (joinRows res.rows) (unmarshal J res.rows).1.length)
  | cut {res : StreamingScanNoderesult} : s.reducer = .unmarshalled res → s.err = none →
      getRowsWanted limit s.head.flushed < (unmarshal J res.rows).1.length →
      Fanout.Reduces s (.marshalling res) s.err s.head
  /-- `bs, err = json.Marshal(dataToFlush)`, which never fails on decoded rows. -/
  | marshal {res : StreamingScanNoderesult} : s.reducer = .marshalling res →
      Fanout.Reduces s (.marshalled res) none s.head
  | marshalError {res : StreamingScanNoderesult} : s.reducer = .marshalled res →
      s.err ≠ none → Fanout.Reduces s .returning s.err s.head
  /-- The first `rowsToFlush` rows, re-encoded, are written. -/
  | writeCut {res : StreamingScanNoderesult} {d : List Row} : s.reducer = .marshalled res →
      s.err = none → goSlice (unmarshal J res.rows).1 0 (getRowsWanted limit s.head.flushed) = some d →
      Fanout.Reduces s .head s.err (s.head.next limit s.workers.length (joinRows (d.map J.marshalRow))
        (getRowsWanted limit s.head.flushed))
  /-- `resultData[:rowsToFlush]` is out of range. -/
  | cutPanics {res : StreamingScanNoderesult} : s.reducer = .marshalled res → s.err = none →
      goSlice (unmarshal J res.rows).1 0 (getRowsWanted limit s.head.flushed) = none →
      Fanout.Reduces s .panicked s.err s.head
  /-- `_, err = nqp.w.Write([]byte("]}"))`. -/
  | writeEnd : s.reducer = .closing → Fanout.Reduces s .returning (w (3 + s.head.writes.length))
      { s.head with writes := s.head.writes ++ [postamble] }
  | ret : s.reducer = .returning → Fanout.Reduces s (.returned s.err) s.err s.head

theorem Fanout.reduces_of_reduce {s : Fanout} {pc : ReducerPc} {err : Option Error} {h : Head}
    (hr : s.reduce J limit w = some (pc, err, h)) : s.Reduces J limit w pc err h := by
  unfold Fanout.reduce at hr
  dsimp only at hr
  split at hr <;> rename_i hred
  · -- after the receive
    split at hr <;> rename_i herr
    · cases hr; exact .resError hred herr
    · split at hr <;> cases hr
      · exact .writeData hred herr ‹_›
      · exact .unmarshal hred herr (not_lt.mp ‹_›)
  · -- the test after `json.Unmarshal`
    split at hr <;> rename_i herr
    · cases hr; exact .unmarshalError hred (Option.isSome_iff_ne_none.mp herr)
    · rw [Option.not_isSome_iff_eq_none] at herr
      split at hr
      · rw [goSlice_frame] at hr
        cases hr; exact .writeAll hred herr ‹_›
      · cases hr; exact .cut hred herr (not_le.mp ‹_›)
  · cases hr; exact .marshal hred
  · -- the test after `json.Marshal`
    split at hr <;> rename_i herr
    · cases hr; exact .marshalError hred (Option.isSome_iff_ne_none.mp herr)
    · rw [Option.not_isSome_iff_eq_none] at herr
      split at hr <;> rename_i hd
      · cases hr; exact .cutPanics hred herr hd
      · rw [goSlice_frame] at hr
        cases hr; exact .writeCut hred herr hd
  · cases hr; exact .writeEnd hred
  · cases hr; exact .ret hred
  all_goals cases hr

/-! ## Steps after `Execute` returns -/

/-- Once `Execute` has returned, a step can only move a worker on to its send:
the reducer stays returned, no send completes, and a worker at its send stays
there. -/
theorem step_after_return {s s' : Fanout} {e : Option Error} (hr : s.reducer = .returned e)
    (h : Step J limit w node s s') (k : Nat) :
    s'.reducer = .returned e ∧ (s.workers[k]? ≠ some .sent → s'.workers[k]? ≠ some .sent) ∧
      ∀ m, s.workers[k]? = some (.sending m) → s'.workers[k]? = some (.sending m) := by
  cases h with
  | fetch hj | prepare hj =>
    refine ⟨hr, ?_, ?_⟩ <;> rw [getElem?_set_of_eq_some hj] <;> split_ifs with hjk
    · simp
    · exact id
    · subst hjk; simp [hj]
    · exact fun _ => id
  | exit h | receive h => simp [hr] at h
  | reduce h => simp [Fanout.reduce, hr] at h

theorem steps_after_return {s s' : Fanout} {e : Option Error} (hr : s.reducer = .returned e)
    (h : Steps J limit w node s s') (k : Nat) :
    s'.reducer = .returned e ∧ (s.workers[k]? ≠ some .sent → s'.workers[k]? ≠ some .sent) ∧
      ∀ m, s.workers[k]? = some (.sending m) → s'.workers[k]? = some (.sending m) := by
  induction h with
  | refl => exact ⟨hr, id, fun _ => id⟩
  | tail _ hst ih =>
    obtain ⟨hr', hsent, hsend⟩ := ih
    obtain ⟨hr'', hsent', hsend'⟩ := step_after_return J limit w node hr' hst k
    exact ⟨hr'', hsent' ∘ hsent, fun m hm => hsend' m (hsend m hm)⟩

theorem steps_to_send {s : Fanout} {k : Nat} (hk : k < s.workers.length)
    (hsent : s.workers[k]? ≠ some .sent) :
    ∃ s' m, Steps J limit w node s s' ∧ s'.workers[k]? = some (.sending m) := by
  have hprep : ∀ (u : Fanout) bs, u.workers[k]? = some (.fetched bs) →
      ∃ s' m, Steps J limit w node u s' ∧ s'.workers[k]? = some (.sending m) := fun _ _ hb =>
    ⟨_, _, .single (.prepare hb), by rw [getElem?_set_of_eq_some hb, if_pos rfl]⟩
  obtain ⟨pc, hpc⟩ : ∃ pc, s.workers[k]? = some pc := ⟨_, List.getElem?_eq_getElem hk⟩
  cases pc with
  | start =>
    let u : Fanout := { s with workers := s.workers.set k (.fetched (node k).1), err := (node k).2 }
    obtain ⟨s', m, hs', hm⟩ := hprep u (node k).1 (by simp [u, getElem?_set_of_eq_some hpc])
    exact ⟨s', m, .head (.fetch hpc) hs', hm⟩
  | fetched bs => exact hprep s bs hpc
  | sending m => exact ⟨s, m, .refl, hpc⟩
  | sent => exact absurd hpc hsent

/-! ## The workers and the messages -/

theorem count_set_of_eq_some {α : Type} [DecidableEq α] {l : List α} {j : Nat} {a b : α} (x : α)
    (hj : l[j]? = some b) :
    (l.set j a).count x + (if b = x then 1 else 0) = l.count x + (if a = x then 1 else 0) := by
  obtain ⟨hlt, rfl⟩ := List.getElem?_eq_some_iff.mp hj
  have hmem : 0 < l.count l[j] := List.count_pos_iff.mpr (List.getElem_mem hlt)
  rw [List.count_set _ _ _ _ hlt]
  by_cases hb : l[j] = x <;> simp only [hb, beq_iff_eq, if_true, if_false] <;> subst_vars <;> omega

/-- `n` workers, and as many of them past their send as messages received. -/
structure Fanout.Counts (n : Nat) (s : Fanout) : Prop where
  length_workers : s.workers.length = n
  count_sent : s.workers.count .sent = s.received.length

theorem Fanout.counts_init (n : Nat) : (Fanout.init n).Counts n where
  length_workers := by simp [Fanout.init]
  count_sent := by simp [Fanout.init, List.count_replicate]

theorem Fanout.Counts.set_worker {n : Nat} {s : Fanout} {k : Nat} {pc pc' : WorkerPc}
    {err : Option Error} (hs : s.Counts n) (hk : s.workers[k]? = some pc) (hpc : pc ≠ .sent)
    (hpc' : pc' ≠ .sent) : ({ s with workers := s.workers.set k pc', err := err } : Fanout).Counts n where
  length_workers := by simpa using hs.length_workers
  count_sent := by
    have := count_set_of_eq_some WorkerPc.sent (a := pc') hk
    simp only [hpc, hpc', if_false, add_zero] at this
    exact this.trans hs.count_sent

theorem Fanout.Counts.step {n : Nat} {s s' : Fanout} (hs : s.Counts n)
    (h : Step J limit w node s s') : s'.Counts n := by
  cases h with
  | fetch hk | prepare hk => exact hs.set_worker hk (by simp) (by simp)
  | exit | reduce => exact ⟨hs.length_workers, hs.count_sent⟩
  | @receive k res _ _ _ hk =>
    have := count_set_of_eq_some WorkerPc.sent (a := .sent) hk
    simp only [if_true, reduceCtorEq, if_false, add_zero] at this
    exact ⟨by simpa using hs.length_workers, by simp [this, hs.count_sent]⟩

theorem Reachable.counts {n : Nat} {s : Fanout} (h : Reachable J limit w node n s) : s.Counts n := by
  induction h with
  | refl => exact Fanout.counts_init n
  | tail _ hst ih => exact ih.step J limit w node hst

/-! ## After `Execute` returns -/

/-- Nothing cancels a worker. When `Execute` has returned after receiving
`received.length` of the `n` messages, exactly the other workers have not
sent; each of them can still get to its send, and from then on it is blocked
there for ever, whatever the goroutines do. -/
theorem fanout_unreceived_workers_blocked {n : Nat} {s : Fanout} {e : Option Error}
    (hs : Reachable J limit w node n s) (hr : s.reducer = .returned e) :
    s.workers.length = n ∧ s.workers.count .sent = s.received.length ∧
    ∀ k < n, s.workers[k]? ≠ some .sent →
      (∃ s' m, Steps J limit w node s s' ∧ s'.workers[k]? = some (.sending m)) ∧
      ∀ s', Steps J limit w node s s' → s'.workers[k]? ≠ some .sent ∧
        ∀ m, s.workers[k]? = some (.sending m) → s'.workers[k]? = some (.sending m) := by
  have hc := Reachable.counts J limit w node hs
  refine ⟨hc.length_workers, hc.count_sent, fun k hk hsent => ⟨?_, fun s' h => ?_⟩⟩
  · exact steps_to_send J limit w node (hc.length_workers ▸ hk) hsent
  · obtain ⟨-, h1, h2⟩ := steps_after_return J limit w node hr h k
    exact ⟨h1 hsent, h2⟩

theorem reachable_limit_zero_returned :
    Reachable J 0 w node 1 ⟨w 3, [.start], .returned (w 3), ⟨0, 0, [postamble]⟩, []⟩ :=
  .head (.exit rfl (by decide)) <| .head (.reduce rfl) <| .head (.reduce rfl) .refl

theorem fanout_unreceived_workers_blocked_of_limit_zero :
    let s : Fanout := ⟨none, [.start], .returned none, ⟨0, 0, [postamble]⟩, []⟩
    Reachable verbatim 0 (fun _ => none) (fun _ => (none, none)) 1 s ∧ s.reducer = .returned none ∧
    s.workers.length = 1 ∧ s.workers.count .sent = s.received.length ∧
    ∀ k < 1, s.workers[k]? ≠ some .sent →
      (∃ s' m, Steps verbatim 0 (fun _ => none) (fun _ => (none, none)) s s' ∧
        s'.workers[k]? = some (.sending m)) ∧
      ∀ s', Steps verbatim 0 (fun _ => none) (fun _ => (none, none)) s s' →
        s'.workers[k]? ≠ some .sent ∧
        ∀ m, s.workers[k]? = some (.sending m) → s'.workers[k]? = some (.sending m) :=
  ⟨reachable_limit_zero_returned verbatim (fun _ => none) (fun _ => (none, none)), rfl,
    fanout_unreceived_workers_blocked verbatim 0 (fun _ => none) (fun _ => (none, none))
      (reachable_limit_zero_returned verbatim (fun _ => none) (fun _ => (none, none))) rfl⟩

/-- With `limit` 0 and one node that succeeds, `Execute` returns without
receiving anything; the worker gets to its send and is blocked there for ever. -/
theorem fanout_limit_zero_worker_blocked :
    let s : Fanout :=
      ⟨none, [.sending ⟨some ["[1]".toList], none⟩], .returned none, ⟨0, 0, [postamble]⟩, []⟩
    Reachable verbatim 0 (fun _ => none) (fun _ => (some ["[1]".toList], none)) 1 s ∧ s.received = [] ∧
    ∀ s', Steps verbatim 0 (fun _ => none) (fun _ => (some ["[1]".toList], none)) s s' →
      s'.workers[0]? = some (.sending ⟨some ["[1]".toList], none⟩) := by
  intro s
  let node : Nat → Option (List Bytes) × Option Error := fun _ => (some ["[1]".toList], none)
  have h1 : Step verbatim 0 (fun _ => none) node ⟨none, [.start], .returned none, ⟨0, 0, [postamble]⟩, []⟩
      ⟨none, [.fetched (some ["[1]".toList])], .returned none, ⟨0, 0, [postamble]⟩, []⟩ :=
    @Step.fetch _ verbatim 0 (fun _ => none) node _ 0 rfl
  have h2 : Step verbatim 0 (fun _ => none) node
      ⟨none, [.fetched (some ["[1]".toList])], .returned none, ⟨0, 0, [postamble]⟩, []⟩ s :=
    @Step.prepare _ verbatim 0 (fun _ => none) node _ 0 _ rfl
  refine ⟨.tail (.tail (reachable_limit_zero_returned verbatim (fun _ => none) node) h1) h2, rfl,
    fun s' h => ?_⟩
  exact (steps_after_return verbatim 0 (fun _ => none) node rfl h 0).2.2 _ rfl

/-- Two nodes that succeed, with bodies `[1]` and `[2]`. -/
def twoBodies (k : Nat) : Option (List Bytes) × Option Error :=
  (some [if k = 0 then "[1]".toList else "[2]".toList], none)

/-- Where the run `stepsIn_twoBodies` ends: `Execute` has returned nil after
receiving node 1's message, then node 0's. -/
def twoBodiesReturned : Fanout :=
  ⟨none, [.sent, .sent], .returned none, ⟨2, 0, ["[2]".toList, [','], "[1]".toList, postamble]⟩,
    [⟨some ["[2]".toList], none⟩, ⟨some ["[1]".toList], none⟩]⟩

theorem stepsIn_twoBodies :
    StepsIn verbatim (-1) (fun _ => none) twoBodies 11 (Fanout.init 2) twoBodiesReturned :=
  .step (.fetch (k := 1) rfl) <| .step (.prepare (k := 1) rfl) <| .step (.fetch (k := 0) rfl) <|
    .step (.prepare (k := 0) rfl) <| .step (.receive (k := 1) rfl (by decide) (by decide) rfl) <|
    .step (.reduce rfl) <| .step (.receive (k := 0) rfl (by decide) (by decide) rfl) <|
    .step (.reduce rfl) <| .step (.exit rfl (by decide)) <| .step (.reduce rfl) <|
    .step (.reduce rfl) (.refl _)

theorem reachable_twoBodies :
    Reachable verbatim (-1) (fun _ => none) twoBodies 2 twoBodiesReturned :=
  stepsIn_twoBodies.steps

end

end AresBroker.Broker
