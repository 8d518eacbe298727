import AresBroker.Broker.Liveness
import AresBroker.Broker.Delivery
import AresBroker.Broker.Response

/-! # The goroutines against the sequential reducer

In every interleaving, the reducer does what the sequential loop of
`NonAggQueryPlan.execute` does on the messages in the order received, with
one exception: under a limit, a worker whose node failed can assign `err`
between the reducer's `err = json.Unmarshal(...)` (or `json.Marshal`) and the
`if err != nil` after it, and the reducer then returns without writing the
message it is on. Without a limit, or when every node succeeds, `Execute`
writes exactly what the sequential model writes. Its return value is not the
model's either way: `err` is shared, and a worker still running can assign it
between the reducer's last assignment and its `return`.
-/

namespace AresBroker.Broker

section
variable {Row : Type} (J : RowCodec Row)

/-! ## The loop bound -/

theorem consume_congr {limit : Int} {n m : Nat} {s : Head} (res : StreamingScanNoderesult)
    (h : s.i ≠ n - 1 ↔ s.i ≠ m - 1) : consume J limit n s res = consume J limit m s res := by
  simp only [consume, separator, h]

theorem consume_last {limit : Int} {n m : Nat} {s t : Head} {res : StreamingScanNoderesult}
    (hmn : m ≤ n) (hm : s.i + 1 = m) (h : consume J limit n s res = .ok t)
    (hstop : ¬ (t.i < n ∧ getRowsWanted limit t.flushed ≠ 0)) :
    consume J limit m s res = .ok t := by
  obtain ⟨herr, out, k, hb, rfl⟩ := consume_ok J h
  have hsep : separator limit (s.flushed + k) s.i n = separator limit (s.flushed + k) s.i m := by
    simp only [separator]
    by_cases hw : getRowsWanted limit (s.flushed + k) = 0
    · simp [hw]
    · have : n = m := by simp only [hw, ne_eq, not_false_eq_true, and_true, not_lt] at hstop; omega
      rw [this]
  rw [hsep]
  simp only [consume, herr]
  split_ifs at hb ⊢
  · cases hb; rfl
  · rw [Result.bind_eq, hb]; rfl

theorem consume_error_congr {limit : Int} {n m : Nat} {s : Head} {res : StreamingScanNoderesult}
    {e : Error} (h : consume J limit n s res = .error e) : consume J limit m s res = .error e := by
  simp only [consume] at h ⊢
  cases herr : res.err with
  | some e' => simpa [herr] using h
  | none =>
    simp only [herr] at h ⊢
    split_ifs at h ⊢
    · simp at h
    · cases hf : flushLimited J (getRowsWanted limit s.flushed) res.rows <;>
        simp_all [Result.bind_eq]

theorem loop_error {limit : Int} {n : Nat} {s : Head} {res : StreamingScanNoderesult}
    (rest : List StreamingScanNoderesult) {e : Error} (hi : s.i < n)
    (hw : getRowsWanted limit s.flushed ≠ 0) (h : consume J limit n s res = .error e) :
    loop J limit n s (res :: rest) = (.returned e, s.i + 1, s) := by
  simp [loop, hi, hw, h]

theorem loop_of_le (limit : Int) {n m : Nat} (hmn : m ≤ n) :
    ∀ (rs : List StreamingScanNoderesult) (s : Head), s.i + rs.length = m →
    (∀ e c h, loop J limit n s rs = (.returned e, c, h) → loop J limit m s rs = (.returned e, c, h)) ∧
    (∀ c h, loop J limit n s rs = (.finished, c, h) → ¬ (h.i < n ∧ getRowsWanted limit h.flushed ≠ 0) →
      loop J limit m s rs = (.finished, c, h))
  | [], s, _ => ⟨fun _ _ _ h => by simp [loop] at h, fun _ _ h _ => by simpa [loop] using h⟩
  | r :: rest, s, hs => by
    simp only [List.length_cons] at hs
    by_cases hw : getRowsWanted limit s.flushed = 0
    · rw [loop_stop J r rest (fun h => h.2 hw), loop_stop J r rest (fun h => h.2 hw)]
      exact ⟨fun _ _ _ h => (by cases h), fun _ _ h _ => h⟩
    cases hc : consume J limit n s r with
    | error e =>
      rw [loop_error J rest (by omega) hw hc, loop_error J rest (by omega) hw (consume_error_congr J hc)]
      exact ⟨fun _ _ _ h => h, fun _ _ h => by cases h⟩
    | panic =>
      simp only [loop, show s.i < n by omega, hw, hc, ne_eq, not_false_eq_true, and_self, if_true]
      exact ⟨fun _ _ _ h => (by cases h), fun _ _ h => (by cases h)⟩
    | ok t =>
      rw [loop_step J rest (by omega) hw hc]
      have ht := consume_ok_i J hc
      rcases eq_or_ne rest [] with rfl | hrest
      · -- the `m`-th result: no comma follows it either way
        refine ⟨fun _ _ _ h => by simp [loop] at h, fun c h hl hstop => ?_⟩
        simp only [loop, Prod.mk.injEq] at hl
        obtain ⟨-, rfl, rfl⟩ := hl
        rw [loop_step J [] (by omega) hw (consume_last J hmn (by simpa using hs) hc hstop)]
        rfl
      · have hlen : rest.length ≠ 0 := by simpa using hrest
        have hm : consume J limit m s r = .ok t := by
          rw [← consume_congr J (n := n) (m := m) r (by omega), hc]
        rw [loop_step J rest (by omega) hw hm]
        exact loop_of_le limit hmn rest t (by omega)

end

/-! ## The reducer follows the sequential loop -/

section
variable {Row : Type} (J : RowCodec Row) (limit : Int) (w : Nat → Option Error)
  (node : Nat → Option (List Bytes) × Option Error)

/-- The reducer is in its loop body on `res`, the last message it received:
the loop's condition held, and the sequential loop on the messages before
`res` reaches the reducer's head, whatever messages follow. -/
def Fanout.Pending (n : Nat) (s : Fanout) (res : StreamingScanNoderesult) : Prop :=
  s.head.i < n ∧ getRowsWanted limit s.head.flushed ≠ 0 ∧ ∃ pre, s.received = pre ++ [res] ∧
    ∀ rest, Reaches J limit n ⟨0, 0, []⟩ (pre ++ res :: rest) s.head (res :: rest)

/-- The reducer is in the limited branch of its loop body on `res`, which
carried no error. -/
def Fanout.Decoding (n : Nat) (s : Fanout) (res : StreamingScanNoderesult) : Prop :=
  s.Pending J limit n res ∧ res.err = none ∧ 0 ≤ limit

/-- How the reducer left its loop: as the sequential loop on the messages
received ends, normally and with `]}` written after it, or by returning an
error at the last of them; or, under a limit, in the body on the last message
without writing it, by a `return` on an error that a worker assigned to `err`
between the reducer's assignment and its test. -/
def Fanout.Ended (n : Nat) (s : Fanout) : Prop :=
  (∃ h : Head, loop J limit n ⟨0, 0, []⟩ s.received = (.finished, s.received.length, h) ∧
      ¬ (h.i < n ∧ getRowsWanted limit h.flushed ≠ 0) ∧
      s.head = { h with writes := h.writes ++ [postamble] }) ∨
    (∃ e, loop J limit n ⟨0, 0, []⟩ s.received = (.returned e, s.received.length, s.head)) ∨
    ∃ res, s.Decoding J limit n res

/-- What the reducer has done so far is what the sequential loop does on the
messages it received, in the order it received them. -/
def Fanout.Follows (n : Nat) (s : Fanout) : Prop :=
  match s.reducer with
  | .head => ∀ rest, Reaches J limit n ⟨0, 0, []⟩ (s.received ++ rest) s.head rest
  | .received res => s.Pending J limit n res
  | .unmarshalled res | .marshalling res | .marshalled res => s.Decoding J limit n res
  | .closing => loop J limit n ⟨0, 0, []⟩ s.received = (.finished, s.received.length, s.head) ∧
      ¬ (s.head.i < n ∧ getRowsWanted limit s.head.flushed ≠ 0)
  | .returning | .returned _ => s.Ended J limit n
  | .panicked => False

theorem Fanout.follows_init (n : Nat) : (Fanout.init n).Follows J limit n :=
  fun _ => by simpa [Fanout.init] using Reaches.start

theorem Fanout.Pending.next {n : Nat} {s : Fanout} {res : StreamingScanNoderesult} {t : Head}
    (hp : s.Pending J limit n res) (hc : consume J limit n s.head res = .ok t) :
    ∀ rest, Reaches J limit n ⟨0, 0, []⟩ (s.received ++ rest) t rest := by
  obtain ⟨hi, hw, pre, hpre, hreach⟩ := hp
  intro rest
  simpa [hpre] using (hreach rest).next hi hw hc

theorem Fanout.Pending.mem {n : Nat} {s : Fanout} {res : StreamingScanNoderesult}
    (hp : s.Pending J limit n res) : res ∈ s.received := by
  obtain ⟨-, -, pre, hpre, -⟩ := hp
  simp [hpre]

theorem Fanout.Pending.loop_returned {n : Nat} {s : Fanout} {res : StreamingScanNoderesult} {e : Error}
    (hp : s.Pending J limit n res) (hi : s.head.i + 1 = s.received.length)
    (hc : consume J limit n s.head res = .error e) :
    loop J limit n ⟨0, 0, []⟩ s.received = (.returned e, s.received.length, s.head) := by
  obtain ⟨hi', hw, pre, hpre, hreach⟩ := hp
  rw [hpre] at hi ⊢
  rw [(hreach []).loop_eq J, loop_error J [] hi' hw hc, hi]

theorem consume_limited_eq {n : Nat} {h : Head} {res : StreamingScanNoderesult} {vs : List Row}
    (herr : res.err = none) (hl : 0 ≤ limit) (hw : 0 ≤ getRowsWanted limit h.flushed)
    (hvs : res.rows.mapM J.decodeRow = .ok vs) :
    consume J limit n h res = .ok (if (vs.length : Int) ≤ getRowsWanted limit h.flushed
      then h.next limit n (joinRows res.rows) vs.length
      else h.next limit n (joinRows ((vs.take (getRowsWanted limit h.flushed).toNat).map J.marshalRow))
        (getRowsWanted limit h.flushed)) := by
  simp only [consume, herr, flushLimited_eq J hw, hvs, show ¬ limit < 0 by omega, if_false]
  split_ifs <;> rfl

theorem unmarshal_of_mapM {rows : List Bytes} {vs : List Row} (hvs : rows.mapM J.decodeRow = .ok vs) :
    unmarshal J rows = (vs, none) := by
  unfold unmarshal
  rw [hvs]

/-- The reducer's statements keep `Follows`, when the message it is on decodes
under a limit. -/
theorem Fanout.Follows.reduce {n : Nat} {s : Fanout} {pc : ReducerPc} {err : Option Error} {h : Head}
    (hn : s.workers.length = n) (hsane : s.Sane J limit)
    (hdec : 0 ≤ limit → ∀ r ∈ s.received, ∃ vs, r.rows.mapM J.decodeRow = .ok vs)
    (hf : s.Follows J limit n) (hr : s.reduce J limit w = some (pc, err, h)) :
    ({ s with reducer := pc, err := err, head := h } : Fanout).Follows J limit n := by
  subst hn
  have hpc := hsane.at_pc
  unfold Fanout.Follows at hf
  unfold Fanout.AtPc at hpc
  cases Fanout.reduces_of_reduce J limit w hr with
  | @resError _ e hred herr =>
    simp only [hred] at hf hpc
    exact .inr (.inl ⟨e, hf.loop_returned J limit hpc (by simp [consume, herr])⟩)
  | writeData hred herr hl =>
    simp only [hred] at hf
    exact hf.next J limit (by simp [consume_unlimited J hl, herr, Head.next])
  | unmarshal hred herr hl => simp only [hred] at hf; exact ⟨hf, herr, hl⟩
  | unmarshalError hred | marshalError hred => simp only [hred] at hf; exact .inr (.inr ⟨_, hf⟩)
  | writeAll hred _ hle =>
    simp only [hred] at hf
    obtain ⟨hp, herr, hl⟩ := hf
    obtain ⟨vs, hvs⟩ := hdec hl _ (hp.mem J limit)
    simp only [unmarshal_of_mapM J hvs] at hle ⊢
    exact hp.next J limit (by rw [consume_limited_eq J limit herr hl (hsane.flushed hl) hvs, if_pos hle])
  | cut hred | marshal hred => simp only [hred] at hf; exact hf
  | writeCut hred _ hd =>
    simp only [hred] at hf hpc
    obtain ⟨hp, herr, hl⟩ := hf
    obtain ⟨vs, hvs⟩ := hdec hl _ (hp.mem J limit)
    simp only [unmarshal_of_mapM J hvs] at hd hpc ⊢
    rw [goSlice_eq_some (le_refl 0) (hsane.flushed hl) (by omega)] at hd
    simp only [Int.toNat_zero, List.drop_zero, sub_zero, Option.some.injEq] at hd
    subst hd
    exact hp.next J limit
      (by rw [consume_limited_eq J limit herr hl (hsane.flushed hl) hvs, if_neg (by omega)])
  | cutPanics => exact (hsane.reduce J limit w hr).at_pc
  | writeEnd hred => simp only [hred] at hf; exact .inl ⟨s.head, hf.1, hf.2, rfl⟩
  | ret hred => simp only [hred] at hf; exact hf

theorem Fanout.Follows.step {n : Nat} {s s' : Fanout} (hc : s.Counts n) (hsane : s.Sane J limit)
    (hdec : 0 ≤ limit → ∀ r ∈ s.received, ∃ vs, r.rows.mapM J.decodeRow = .ok vs)
    (hf : s.Follows J limit n) (h : Step J limit w node s s') : s'.Follows J limit n := by
  cases h with
  | fetch | prepare => exact hf
  | exit hr hstop =>
    simp only [Fanout.Follows, hr] at hf
    have hi := hsane.at_pc
    simp only [Fanout.AtPc, hr] at hi
    have hloop : loop J limit n ⟨0, 0, []⟩ s.received = (.finished, s.head.i, s.head) := by
      rw [← List.append_nil s.received, (hf []).loop_eq J]
      rfl
    exact ⟨by rw [hloop, hi], hc.length_workers ▸ hstop⟩
  | @receive k res hr hi hw hk =>
    simp only [Fanout.Follows, hr] at hf
    exact ⟨hc.length_workers ▸ hi, hw, s.received, rfl, fun rest => by simpa using hf (res :: rest)⟩
  | reduce hr => exact hf.reduce J limit w hc.length_workers hsane hdec hr

theorem Reachable.received_decode {n : Nat} {s : Fanout} (hs : Reachable J limit w node n s)
    (hdec : 0 ≤ limit → ∀ k < n, ∃ vs, ((node k).1.getD []).mapM J.decodeRow = .ok vs) :
    0 ≤ limit → ∀ r ∈ s.received, ∃ vs, r.rows.mapM J.decodeRow = .ok vs := by
  intro hl r hr
  obtain ⟨ks, -, hks, hdata⟩ := ((Fanout.delivered_init node n).steps J limit w node hs).received
  have hmem : r.data ∈ ks.map fun k => (node k).1 := hdata ▸ List.mem_map_of_mem _ hr
  obtain ⟨k, hk, hkr⟩ := List.mem_map.mp hmem
  have hlt : k < n :=
    (Reachable.counts J limit w node hs).length_workers ▸ (List.getElem?_eq_some_iff.mp ((hks k).mp hk)).1
  simpa [StreamingScanNoderesult.rows, hkr] using hdec hl k hlt

theorem Reachable.follows {n : Nat} {s : Fanout} (hs : Reachable J limit w node n s)
    (hdec : 0 ≤ limit → ∀ k < n, ∃ vs, ((node k).1.getD []).mapM J.decodeRow = .ok vs) :
    s.Follows J limit n := by
  induction hs with
  | refl => exact Fanout.follows_init J limit n
  | tail hb hst ih =>
    exact ih.step J limit w node (Reachable.counts J limit w node hb) (Reachable.sane J limit w node hb)
      (Reachable.received_decode J limit w node hb hdec) hst

end

/-- Two rows from each of two nodes. -/
def twoPairs (k : Nat) : Option (List Bytes) × Option Error :=
  (some (if k = 0 then ["[1]".toList, "[2]".toList] else ["[3]".toList, "[4]".toList]), none)

theorem twoPairs_decode : 0 ≤ (3 : Int) → ∀ k < 2,
    ∃ vs, (((twoPairs k).1.getD []).mapM verbatim.decodeRow) = .ok vs := by
  intro _ k _
  unfold twoPairs
  split <;> exact ⟨_, rfl⟩

theorem reachable_twoPairs_head :
    Reachable verbatim 3 (fun _ => none) twoPairs 2
      ⟨none, [.sent, .sent], .head, ⟨2, 3, ["[1],[2]".toList, [','], "[3]".toList]⟩,
        [⟨some ["[1]".toList, "[2]".toList], none⟩, ⟨some ["[3]".toList, "[4]".toList], none⟩]⟩ :=
  .head (.fetch (k := 0) rfl) <| .head (.prepare (k := 0) rfl) <| .head (.fetch (k := 1) rfl) <|
    .head (.prepare (k := 1) rfl) <| .head (.receive (k := 0) rfl (by decide) (by decide) rfl) <|
    .head (.reduce rfl) <| .head (.reduce rfl) <|
    .head (.receive (k := 1) rfl (by decide) (by decide) rfl) <| .head (.reduce rfl) <|
    .head (.reduce rfl) <| .head (.reduce rfl) <| .head (.reduce rfl) .refl

/-- Node 0 returns the row `[1]`, node 1 fails. -/
def failSecond (k : Nat) : Option (List Bytes) × Option Error :=
  if k = 0 then (some ["[1]".toList], none) else (none, some (.remote 0))

theorem failSecond_decode (limit : Int) : 0 ≤ limit → ∀ k < 2,
    ∃ vs, (((failSecond k).1.getD []).mapM verbatim.decodeRow) = .ok vs := by
  intro _ k _
  unfold failSecond
  split <;> exact ⟨_, rfl⟩

/-- With limit 5, the reducer receives node 0's message and assigns `err` the
nil error of `json.Unmarshal`; worker 1 then assigns its node's error, and the
reducer's `if err != nil` returns it without writing node 0's row. -/
theorem reachable_failSecond_race :
    Reachable verbatim 5 (fun _ => none) failSecond 2
      ⟨some (.remote 0), [.sent, .fetched none], .returned (some (.remote 0)), ⟨0, 0, []⟩,
        [⟨some ["[1]".toList], none⟩]⟩ :=
  .head (.fetch (k := 0) rfl) <| .head (.prepare (k := 0) rfl) <|
    .head (.receive (k := 0) rfl (by decide) (by decide) rfl) <| .head (.reduce rfl) <|
    .head (.fetch (k := 1) rfl) <| .head (.reduce rfl) <| .head (.reduce rfl) .refl

/-- Where the limited run on `twoPairs` ends: `Execute` has returned nil after
writing three rows and `]}`. -/
def twoPairsReturned : Fanout :=
  ⟨none, [.sent, .sent], .returned none, ⟨2, 3, ["[1],[2]".toList, [','], "[3]".toList, postamble]⟩,
    [⟨some ["[1]".toList, "[2]".toList], none⟩, ⟨some ["[3]".toList, "[4]".toList], none⟩]⟩

theorem reachable_twoPairs_returned : Reachable verbatim 3 (fun _ => none) twoPairs 2 twoPairsReturned :=
  .tail (.tail (.tail reachable_twoPairs_head (.exit rfl (by decide))) (.reduce rfl)) (.reduce rfl)

/-- Where the run without a limit on `failSecond` ends: node 0's body was
written with a comma after it, then node 1's error was received and returned. -/
def failSecondReturned : Fanout :=
  ⟨some (.remote 0), [.sent, .sent], .returned (some (.remote 0)), ⟨1, 0, ["[1]".toList, [',']]⟩,
    [⟨some ["[1]".toList], none⟩, ⟨none, some (.remote 0)⟩]⟩

theorem reachable_failSecond_returned :
    Reachable verbatim (-1) (fun _ => none) failSecond 2 failSecondReturned :=
  .head (.fetch (k := 0) rfl) <| .head (.prepare (k := 0) rfl) <| .head (.fetch (k := 1) rfl) <|
    .head (.prepare (k := 1) rfl) <| .head (.receive (k := 0) rfl (by decide) (by decide) rfl) <|
    .head (.reduce rfl) <| .head (.receive (k := 1) rfl (by decide) (by decide) rfl) <|
    .head (.reduce rfl) <| .head (.reduce rfl) .refl

/-! ## What `Execute` writes -/

section
variable {Row : Type} (J : RowCodec Row) (limit : Int) (w : Nat → Option Error)
  (node : Nat → Option (List Bytes) × Option Error)

theorem Fanout.Pending.eq {n : Nat} {s : Fanout} {res res' : StreamingScanNoderesult}
    (hp : s.Pending J limit n res) (hp' : s.Pending J limit n res') : res = res' := by
  obtain ⟨-, -, pre, hpre, -⟩ := hp
  obtain ⟨-, -, pre', hpre', -⟩ := hp'
  simpa using congrArg List.getLast? (hpre.symm.trans hpre')

/-- When no node fails, `err` is nil at the reducer's two tests in the
limited branch, so the reducer never leaves its loop on one of them. -/
structure Fanout.Calm (n : Nat) (s : Fanout) : Prop where
  err : ∀ res, s.reducer = .unmarshalled res ∨ s.reducer = .marshalled res → s.err = none
  ended : s.reducer = .returning ∨ (∃ e, s.reducer = .returned e) → ∀ res, ¬ s.Decoding J limit n res

theorem Fanout.calm_init (n : Nat) : (Fanout.init n).Calm J limit n where
  err res h := by simp [Fanout.init] at h
  ended h := by simp [Fanout.init] at h

theorem Fanout.Calm.reduce {n : Nat} {s : Fanout} {pc : ReducerPc} {err : Option Error} {h : Head}
    (hdec : 0 ≤ limit → ∀ r ∈ s.received, ∃ vs, r.rows.mapM J.decodeRow = .ok vs)
    (hf : s.Follows J limit n) (hcalm : s.Calm J limit n) (hr : s.reduce J limit w = some (pc, err, h)) :
    ({ s with reducer := pc, err := err, head := h } : Fanout).Calm J limit n := by
  unfold Fanout.Follows at hf
  cases Fanout.reduces_of_reduce J limit w hr with
  | resError hred herr =>
    simp only [hred] at hf
    refine ⟨by simp, fun _ res hd => ?_⟩
    obtain rfl := hf.eq J limit hd.1
    exact absurd (herr.symm.trans hd.2.1) (by simp)
  | writeData | writeAll | cut | writeCut | cutPanics => exact ⟨by simp, by simp⟩
  | unmarshal hred _ hl =>
    simp only [hred] at hf
    refine ⟨fun _ _ => ?_, by simp⟩
    obtain ⟨vs, hvs⟩ := hdec hl _ (hf.mem J limit)
    simp [unmarshal_of_mapM J hvs]
  | unmarshalError hred hne => exact absurd (hcalm.err _ (.inl hred)) hne
  | marshalError hred hne => exact absurd (hcalm.err _ (.inr hred)) hne
  | marshal => exact ⟨fun _ _ => rfl, by simp⟩
  | writeEnd hred =>
    simp only [hred] at hf
    exact ⟨by simp, fun _ res hd => hf.2 ⟨hd.1.1, hd.1.2.1⟩⟩
  | ret hred => exact ⟨by simp, fun _ => hcalm.ended (.inl hred)⟩

theorem Fanout.Calm.step {n : Nat} {s s' : Fanout} (hnode : ∀ k < n, (node k).2 = none)
    (hc : s.Counts n) (hdec : 0 ≤ limit → ∀ r ∈ s.received, ∃ vs, r.rows.mapM J.decodeRow = .ok vs)
    (hf : s.Follows J limit n) (hcalm : s.Calm J limit n) (h : Step J limit w node s s') :
    s'.Calm J limit n := by
  cases h with
  | @fetch k hk =>
    have hk' : k < n := hc.length_workers ▸ (List.getElem?_eq_some_iff.mp hk).1
    exact ⟨fun _ _ => hnode k hk', hcalm.ended⟩
  | prepare => exact ⟨hcalm.err, hcalm.ended⟩
  | exit | receive => exact ⟨by simp, by simp⟩
  | reduce hr => exact hcalm.reduce J limit w hdec hf hr

theorem Reachable.calm {n : Nat} {s : Fanout} (hs : Reachable J limit w node n s)
    (hdec : 0 ≤ limit → ∀ k < n, ∃ vs, ((node k).1.getD []).mapM J.decodeRow = .ok vs)
    (hnode : ∀ k < n, (node k).2 = none) : s.Calm J limit n := by
  induction hs with
  | refl => exact Fanout.calm_init J limit n
  | tail hb hst ih =>
    exact ih.step J limit w node hnode (Reachable.counts J limit w node hb)
      (Reachable.received_decode J limit w node hb hdec) (Reachable.follows J limit w node hb hdec) hst

theorem Reachable.received_le {n : Nat} {s : Fanout} (hs : Reachable J limit w node n s) :
    s.received.length ≤ n := by
  have hc := Reachable.counts J limit w node hs
  rw [← hc.count_sent, ← hc.length_workers]
  exact List.count_le_length _ _

/-- The concurrent `Execute` refines the sequential reducer: in every
interleaving, once `Execute` has returned after the prefix writes succeeded,
it has written what `NonAggQueryPlan.execute` writes on the messages it
received, in the order it received them, and received as many as that model
consumes. This holds without a limit, and under a limit when every node
succeeds with a body that decodes. -/
theorem fanout_refines_execute (headers : List String) {n : Nat} {s : Fanout} {e : Option Error}
    (hs : Reachable J limit w node n s)
    (hdec : 0 ≤ limit → ∀ k < n, ∃ vs, ((node k).1.getD []).mapM J.decodeRow = .ok vs)
    (hquiet : limit < 0 ∨ ∀ k < n, (node k).2 = none)
    (hr : s.reducer = .returned e) (hw : ∀ k < 3, w k = none) :
    (NonAggQueryPlan.execute J headers limit w s.received).writes = preamble headers ++ s.head.writes ∧
    (NonAggQueryPlan.execute J headers limit w s.received).consumed = s.received.length := by
  have hbound := loop_of_le J limit (Reachable.received_le J limit w node hs) s.received ⟨0, 0, []⟩ (by simp)
  have hf := Reachable.follows J limit w node hs hdec
  simp only [Fanout.Follows, hr, Fanout.Ended] at hf
  simp only [NonAggQueryPlan.execute, hw 0 (by decide), hw 1 (by decide), hw 2 (by decide)]
  rcases hf with ⟨h, hl, hstop, hhead⟩ | ⟨e', hl⟩ | ⟨res, hd⟩
  · rw [hbound.2 _ _ hl hstop, hhead]
    simp
  · rw [hbound.1 _ _ _ hl]
    simp
  · rcases hquiet with hl | hnode
    · exact absurd hd.2.2 (not_le.mpr hl)
    · exact absurd hd ((Reachable.calm J limit w node hs hdec hnode).ended (.inr ⟨e, hr⟩) res)

theorem fanout_refines_execute_of_twoPairs :
    Reachable verbatim 3 (fun _ => none) twoPairs 2 twoPairsReturned ∧
    (0 ≤ (3 : Int) → ∀ k < 2, ∃ vs, (((twoPairs k).1.getD []).mapM verbatim.decodeRow) = .ok vs) ∧
    ((3 : Int) < 0 ∨ ∀ k < 2, (twoPairs k).2 = none) ∧ twoPairsReturned.reducer = .returned none ∧
    (∀ k < 3, (fun _ => none : Nat → Option Error) k = none) ∧
    (NonAggQueryPlan.execute verbatim ["x"] 3 (fun _ => none) twoPairsReturned.received).writes =
      preamble ["x"] ++ twoPairsReturned.head.writes ∧
    (NonAggQueryPlan.execute verbatim ["x"] 3 (fun _ => none) twoPairsReturned.received).consumed =
      twoPairsReturned.received.length :=
  ⟨reachable_twoPairs_returned, twoPairs_decode, .inr fun _ _ => rfl, rfl, fun _ _ => rfl,
    fanout_refines_execute verbatim 3 (fun _ => none) twoPairs ["x"] reachable_twoPairs_returned
      twoPairs_decode (.inr fun _ _ => rfl) rfl fun _ _ => rfl⟩

/-- Without a limit, when a received message carries an error, it is the last
one received, and past the prefix `Execute` wrote only the bodies received
before it, each followed by a comma: the response stops after the prefix's
`[` or after a comma, without `]}`. -/
theorem fanout_datanode_error_writes {n : Nat} {s : Fanout} {e : Option Error}
    (hs : Reachable J limit w node n s) (hl : limit < 0) (hr : s.reducer = .returned e)
    {pre post : List StreamingScanNoderesult} {r : StreamingScanNoderesult}
    (hrec : s.received = pre ++ r :: post) (hpre : ∀ x ∈ pre, x.err = none) (herr : r.err ≠ none) :
    post = [] ∧ s.head.writes = pre.flatMap fun x => [joinRows x.rows, [',']] := by
  obtain ⟨e₀, he₀⟩ := Option.ne_none_iff_exists'.mp herr
  have hle := Reachable.received_le J limit w node hs
  rw [hrec] at hle
  have hloop := loop_unlimited_error J hl n he₀ post pre ⟨0, 0, []⟩
    (by simp only [List.length_append, List.length_cons] at hle ⊢; omega) rfl hpre
  have hf := Reachable.follows J limit w node hs (fun h => absurd h (not_le.mpr hl))
  simp only [Fanout.Follows, hr, Fanout.Ended, hrec, hloop] at hf
  rcases hf with ⟨h, hfin, -⟩ | ⟨e', hret⟩ | ⟨res, hd⟩
  · cases hfin
  · simp only [Prod.mk.injEq, List.length_append, List.length_cons] at hret
    obtain ⟨-, hlen, hhead⟩ := hret
    exact ⟨List.eq_nil_of_length_eq_zero (by omega), by simp [← hhead]⟩
  · exact absurd hd.2.2 (not_le.mpr hl)

theorem fanout_datanode_error_writes_of_failSecond :
    Reachable verbatim (-1) (fun _ => none) failSecond 2 failSecondReturned ∧ (-1 : Int) < 0 ∧
    failSecondReturned.reducer = .returned (some (.remote 0)) ∧
    failSecondReturned.received = [⟨some ["[1]".toList], none⟩] ++ ⟨none, some (.remote 0)⟩ :: [] ∧
    (∀ x ∈ [(⟨some ["[1]".toList], none⟩ : StreamingScanNoderesult)], x.err = none) ∧
    (⟨none, some (.remote 0)⟩ : StreamingScanNoderesult).err ≠ none ∧
    ([] : List StreamingScanNoderesult) = [] ∧
    failSecondReturned.head.writes =
      [(⟨some ["[1]".toList], none⟩ : StreamingScanNoderesult)].flatMap fun x => [joinRows x.rows, [',']] :=
  ⟨reachable_failSecond_returned, by decide, rfl, rfl, by simp, by simp,
    fanout_datanode_error_writes verbatim (-1) (fun _ => none) failSecond reachable_failSecond_returned
      (by decide) rfl (show failSecondReturned.received =
        [⟨some ["[1]".toList], none⟩] ++ ⟨none, some (.remote 0)⟩ :: [] from rfl) (by simp) (by simp)⟩

end

/-! ## Without failures -/

section
variable {Row : Type} (J : RowCodec Row) (limit : Int) (w : Nat → Option Error)
  (node : Nat → Option (List Bytes) × Option Error)

/-- No error anywhere: not in `err`, not in a message at a send or received,
and not in what `Execute` returned. -/
structure Fanout.NoError (s : Fanout) : Prop where
  err : s.err = none
  sending : ∀ (k : Nat) m, s.workers[k]? = some (.sending m) → m.err = none
  received : ∀ r ∈ s.received, r.err = none
  reducer : ∀ res, s.reducer = .received res → res.err = none
  returned : ∀ e, s.reducer = .returned e → e = none

theorem Fanout.noError_init (n : Nat) : (Fanout.init n).NoError where
  err := rfl
  sending k m h := by simp [Fanout.init, List.getElem?_replicate] at h
  received r h := by simp [Fanout.init] at h
  reducer res h := by cases h
  returned e h := by cases h

theorem Fanout.NoError.set_worker {s : Fanout} {k : Nat} {pc pc' : WorkerPc} {err : Option Error}
    (hs : s.NoError) (hk : s.workers[k]? = some pc) (herr : err = none)
    (hpc' : ∀ m, pc' = .sending m → m.err = none) :
    ({ s with workers := s.workers.set k pc', err := err } : Fanout).NoError := by
  refine ⟨herr, fun j m hj => ?_, hs.received, hs.reducer, hs.returned⟩
  rw [getElem?_set_of_eq_some hk] at hj
  split_ifs at hj
  · exact hpc' m (Option.some.inj hj)
  · exact hs.sending j m hj

theorem Fanout.NoError.reduce {s : Fanout} {pc : ReducerPc} {err : Option Error} {h : Head}
    (hl : limit < 0) (hw : ∀ k, w k = none) (hsane : s.Sane J limit) (hs : s.NoError)
    (hr : s.reduce J limit w = some (pc, err, h)) :
    ({ s with reducer := pc, err := err, head := h } : Fanout).NoError := by
  have hpc := hsane.at_pc
  unfold Fanout.AtPc at hpc
  cases Fanout.reduces_of_reduce J limit w hr with
  | resError hred herr => simp [hs.reducer _ hred] at herr
  | writeData => exact ⟨hs.err, hs.sending, hs.received, by simp, by simp⟩
  | unmarshal _ _ hl' => omega
  | unmarshalError hred | writeAll hred | cut hred | marshal hred | marshalError hred | writeCut hred
    | cutPanics hred => simp only [hred] at hpc; omega
  | writeEnd => exact ⟨hw _, hs.sending, hs.received, by simp, by simp⟩
  | ret => exact ⟨hs.err, hs.sending, hs.received, by simp, fun e he => by cases he; exact hs.err⟩

/-- Without a limit, when the nodes and the writes succeed, every step keeps
`NoError`: a message carries the `err` of the moment it is built. -/
theorem Fanout.NoError.step {n : Nat} {s s' : Fanout} (hl : limit < 0) (hw : ∀ k, w k = none)
    (hnode : ∀ k < n, (node k).2 = none) (hc : s.Counts n) (hsane : s.Sane J limit) (hs : s.NoError)
    (h : Step J limit w node s s') : s'.NoError := by
  cases h with
  | @fetch k hk =>
    have hk' : k < n := hc.length_workers ▸ (List.getElem?_eq_some_iff.mp hk).1
    exact hs.set_worker hk (hnode k hk') (by simp)
  | prepare hk => exact hs.set_worker hk hs.err fun m hm => by cases hm; exact hs.err
  | exit hr _ => exact ⟨hs.err, hs.sending, hs.received, by simp, by simp⟩
  | @receive k res _ _ _ hk =>
    have hres := hs.sending k res hk
    refine ⟨hs.err, (hs.set_worker hk hs.err (by simp)).sending, ?_, fun r hr => ?_, by simp⟩
    · simpa [or_imp, forall_and, hres] using hs.received
    · cases hr; exact hres
  | reduce hr => exact hs.reduce J limit w hl hw hsane hr

theorem Reachable.noError {n : Nat} {s : Fanout} (hl : limit < 0) (hw : ∀ k, w k = none)
    (hnode : ∀ k < n, (node k).2 = none) (hs : Reachable J limit w node n s) : s.NoError := by
  induction hs with
  | refl => exact Fanout.noError_init n
  | tail hb hst ih =>
    exact ih.step J limit w node hl hw hnode (Reachable.counts J limit w node hb)
      (Reachable.sane J limit w node hb) hst

/-- Without a limit, when every node and every write succeed, in every
interleaving in which `Execute` has returned, it returned nil after writing,
past the prefix, the body of every node exactly once, in the order received,
with commas between them, and then `]}`. -/
theorem fanout_unlimited_writes_every_body {n : Nat} {s : Fanout} {e : Option Error}
    (hs : Reachable J limit w node n s) (hl : limit < 0) (hr : s.reducer = .returned e)
    (hw : ∀ k, w k = none) (hnode : ∀ k < n, (node k).2 = none) :
    e = none ∧ ∃ ks : List Nat, ks.Perm (List.range n) ∧
      s.head.writes =
        (ks.map fun k => joinRows ((node k).1.getD [])).intersperse [','] ++ [postamble] := by
  have hc := Reachable.counts J limit w node hs
  have hne := Reachable.noError J limit w node hl hw hnode hs
  obtain ⟨ks, hnodup, hks, hdata⟩ := ((Fanout.delivered_init node n).steps J limit w node hs).received
  -- the sequential loop on the `m` messages received, for `n` nodes and for `m`
  have hle := Reachable.received_le J limit w node hs
  have hbound := loop_of_le J limit hle s.received ⟨0, 0, []⟩ (by simp)
  have hm := loop_unlimited J hl s.received.length s.received ⟨0, 0, []⟩ (by simp) rfl hne.received
  have hf := Reachable.follows J limit w node hs fun h => absurd h (not_le.mpr hl)
  simp only [Fanout.Follows, hr, Fanout.Ended] at hf
  rcases hf with ⟨h, hloop, hstop, hhead⟩ | ⟨e', hloop⟩ | ⟨res, hd⟩
  · rw [hbound.2 _ _ hloop hstop, Prod.mk.injEq, Prod.mk.injEq] at hm
    obtain ⟨-, -, rfl⟩ := hm
    -- every node's message was received
    have hall : s.received.length = n := by
      simp only [getRowsWanted, not_and, not_lt] at hstop
      omega
    have hlen : ks.length = n := by rw [← hall, ← List.length_map ks, ← hdata, List.length_map]
    have hsub : ks ⊆ List.range n := fun k hk => by
      rw [List.mem_range, ← hc.length_workers]
      exact (List.getElem?_eq_some_iff.mp ((hks k).mp hk)).1
    have hrows : s.received.map (fun r => joinRows r.rows) =
        ks.map fun k => joinRows ((node k).1.getD []) := by
      simpa [List.map_map, Function.comp_def, StreamingScanNoderesult.rows] using
        congrArg (List.map fun d => joinRows (d.getD [])) hdata
    refine ⟨hne.returned e hr, ks, (List.subperm_of_subset hnodup hsub).perm_of_length_le (by simp [hlen]),
      by rw [hhead, List.nil_append, hrows]⟩
  · rw [hbound.1 _ _ _ hloop] at hm
    cases hm
  · exact absurd hd.2.2 (not_le.mpr hl)

end

theorem fanout_unlimited_writes_every_body_of_twoBodies :
    Reachable verbatim (-1) (fun _ => none) twoBodies 2 twoBodiesReturned ∧ (-1 : Int) < 0 ∧
      twoBodiesReturned.reducer = .returned none ∧ (∀ k, (fun _ => none : Nat → Option Error) k = none) ∧
      (∀ k < 2, (twoBodies k).2 = none) ∧
      (none = (none : Option Error) ∧ ∃ ks : List Nat, ks.Perm (List.range 2) ∧
        twoBodiesReturned.head.writes =
          (ks.map fun k => joinRows ((twoBodies k).1.getD [])).intersperse [','] ++ [postamble]) :=
  ⟨reachable_twoBodies, by decide, rfl, fun _ => rfl, fun _ _ => rfl,
    fanout_unlimited_writes_every_body verbatim (-1) (fun _ => none) twoBodies reachable_twoBodies
      (by decide) rfl (fun _ => rfl) fun _ _ => rfl⟩

end AresBroker.Broker
