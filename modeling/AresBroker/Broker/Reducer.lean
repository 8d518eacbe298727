import AresBroker.Broker.Plan
import AresBroker.Broker.JsonNumber

/-! # The reducer of a non-aggregate query

`NonAggQueryPlan.Execute` writes the response prefix, starts one goroutine
per scan node, and then receives one result per node from `resultChan`. With
a negative limit it writes each result's bytes as they are; otherwise it
decodes them, writes them whole while they fit under the limit and re-encodes
the rows that do, stopping once `limit` rows are out. This module runs the
reducer on the results in the order they arrive; `Fanout` adds the
goroutines that deliver them.
-/

namespace AresBroker.Broker

/-- What the reducer uses of `encoding/json` on a row of `[][]interface{}`:
decoding a row text and encoding a decoded row, which decodes back to itself. -/
structure RowCodec (Row : Type) where
  decodeRow : Bytes → Except Error Row
  marshalRow : Row → Bytes
  decodeRow_marshalRow : ∀ v, decodeRow (marshalRow v) = .ok v

/-- `streamingScanNoderesult`. The datanode body `data` is kept as the texts of
its rows, which the body joins with commas; `none` is a nil slice. -/
structure StreamingScanNoderesult where
  data : Option (List Bytes)
  err : Option Error
  deriving Repr, DecidableEq

/-- The rows of a result's body. -/
def StreamingScanNoderesult.rows (res : StreamingScanNoderesult) : List Bytes :=
  res.data.getD []

/-- `nqp.getRowsWanted()`. -/
def getRowsWanted (limit flushed : Int) : Int := limit - flushed

section
variable {Row : Type} (J : RowCodec Row)

/-- The limited branch for one result's rows with `wanted` rows still wanted:
`json.Unmarshal` of the framed body, then either the body without its
brackets, or the first `wanted` decoded rows re-encoded by `json.Marshal`
without its brackets. Returns the bytes written and the rows flushed. -/
def flushLimited (wanted : Int) (rows : List Bytes) : Result (Bytes × Int) :=
  let data := frame (joinRows rows)
  match rows.mapM J.decodeRow with
  | .error e => .error e
  | .ok resultData =>
    if (resultData.length : Int) ≤ wanted then
      match goSlice data 1 (data.length - 1) with
      | some out => .ok (out, resultData.length)
      | none => .panic
    else
      let rowsToFlush := wanted
      match goSlice resultData 0 rowsToFlush with
      | none => .panic
      | some dataToFlush =>
        let bs := frame (joinRows (dataToFlush.map J.marshalRow))
        match goSlice bs 1 (bs.length - 1) with
        | some out => .ok (out, rowsToFlush)
        | none => .panic

/-- The reducer at the head of its loop: the index `i`, `nqp.flushed`, and the
arguments of the `w.Write` calls the loop made so far. -/
structure Head where
  i : Nat
  flushed : Int
  writes : List Bytes
  deriving Repr, DecidableEq

/-- The comma written after the `i`-th result of `n`: while rows are still
wanted and it was not the last. -/
def separator (limit flushed : Int) (i n : Nat) : List Bytes :=
  if getRowsWanted limit flushed ≠ 0 ∧ i ≠ n - 1 then [[',']] else []

/-- The loop body after `res := <-nqp.resultChan`, for `n` nodes. -/
def consume (limit : Int) (n : Nat) (s : Head) (res : StreamingScanNoderesult) : Result Head :=
  match res.err with
  | some e => .error e
  | none => do
    let (out, rows) ← if limit < 0 then pure (joinRows res.rows, 0)
      else flushLimited J (getRowsWanted limit s.flushed) res.rows
    let flushed := s.flushed + rows
    pure ⟨s.i + 1, flushed, s.writes ++ out :: separator limit flushed s.i n⟩

/-- How the loop ends. -/
inductive LoopExit where
  /-- `i < len(nqp.nodes)` failed, or the `break` on no rows wanted. -/
  | finished
  /-- A `return` in the loop body, with the error it returns. -/
  | returned (e : Error)
  /-- A slice expression out of range. -/
  | panicked
  deriving Repr, DecidableEq

/-- The reducer loop over `n` nodes whose results arrive as `results`. Returns
how it ended, the number of results received, and the head it ended at. -/
def loop (limit : Int) (n : Nat) (s : Head) :
    List StreamingScanNoderesult → LoopExit × Nat × Head
  | [] => (.finished, s.i, s)
  | res :: rest =>
    if s.i < n ∧ getRowsWanted limit s.flushed ≠ 0 then
      match consume J limit n s res with
      | .ok s' => loop limit n s' rest
      | .error e => (.returned e, s.i + 1, s)
      | .panic => (.panicked, s.i + 1, s)
    else (.finished, s.i, s)

/-- How `Execute` ends: by returning its named result `err`, or by a panic. -/
inductive Outcome where
  | returned (err : Option Error)
  | panicked
  deriving Repr, DecidableEq

/-- A run of `Execute`: the argument of every `w.Write` call in order, the
number of results received, and how it ended. -/
structure Run where
  writes : List Bytes
  consumed : Nat
  outcome : Outcome
  deriving Repr, DecidableEq

/-- The hex digit of `d < 16`, in lower case. -/
def hexDigit (d : Nat) : Char :=
  if d < 10 then Char.ofNat (48 + d) else Char.ofNat (87 + d)

/-- One character of a string as `encoding/json` escapes it, with HTML
escaping on: quote and backslash, the short escapes, `\u00XX` for the other
control characters and for `<`, `>`, `&`, and U+2028, U+2029. -/
def escapeChar (c : Char) : List Char :=
  if c = '"' then ['\\', '"']
  else if c = '\\' then ['\\', '\\']
  else if c = '\n' then ['\\', 'n']
  else if c = '\r' then ['\\', 'r']
  else if c = '\t' then ['\\', 't']
  else if c.toNat < 32 ∨ c = '<' ∨ c = '>' ∨ c = '&' then
    ['\\', 'u', '0', '0', hexDigit (c.toNat / 16), hexDigit (c.toNat % 16)]
  else if c.toNat = 0x2028 ∨ c.toNat = 0x2029 then
    ['\\', 'u', '2', '0', '2', hexDigit (c.toNat % 16)]
  else [c]

/-- A JSON string literal. -/
def quote (str : String) : Bytes :=
  '"' :: (str.toList.flatMap escapeChar ++ ['"'])

/-- `json.Marshal(nqp.headers)` for the non-nil `[]string` the plan holds. -/
def marshalHeaders (headers : List String) : Bytes :=
  frame (joinRows (headers.map quote))

/-- The three writes before the rows. -/
def preamble (headers : List String) : List Bytes :=
  ["\x7b\"headers\":".toList, marshalHeaders headers, ",\"matrixData\":[".toList]

/-- The write after the rows. -/
def postamble : Bytes := "]\x7d".toList

/-- `NonAggQueryPlan.Execute` on the results in the order they arrive, one per
node. `w k` is the error the `k`-th call of `w.Write` returns. The three
prefix writes are checked; the writes in the loop are not; the error of the
final write is returned. This is the reducer alone: it returns the value it
last assigned to `err`, where the code returns the shared `err`, which a
worker can assign in between (`Broker/Fanout.lean` models that). -/
def NonAggQueryPlan.execute (headers : List String) (limit : Int) (w : Nat → Option Error)
    (results : List StreamingScanNoderesult) : Run :=
  match w 0, w 1, w 2 with
  | some e, _, _ => ⟨(preamble headers).take 1, 0, .returned (some e)⟩
  | none, some e, _ => ⟨(preamble headers).take 2, 0, .returned (some e)⟩
  | none, none, some e => ⟨preamble headers, 0, .returned (some e)⟩
  | none, none, none =>
    match loop J limit results.length ⟨0, 0, []⟩ results with
    | (.finished, consumed, s) =>
      ⟨preamble headers ++ s.writes ++ [postamble], consumed,
        .returned (w (3 + s.writes.length))⟩
    | (.returned e, consumed, s) => ⟨preamble headers ++ s.writes, consumed, .returned (some e)⟩
    | (.panicked, consumed, s) => ⟨preamble headers ++ s.writes, consumed, .panicked⟩

/-! ## One iteration -/

/-- Two row texts decode to the same value: equal as JSON values to the reducer. -/
def SameRow (a b : Bytes) : Prop := J.decodeRow a = J.decodeRow b

theorem forall₂_of_mapM_ok {rows : List Bytes} {vs : List Row}
    (h : rows.mapM J.decodeRow = .ok vs) :
    List.Forall₂ (fun t v => J.decodeRow t = .ok v) rows vs := by
  induction rows generalizing vs with
  | nil => cases h; exact .nil
  | cons t rows ih =>
    rw [List.mapM_cons] at h
    cases ht : J.decodeRow t with
    | error e => rw [ht] at h; cases h
    | ok v =>
      cases hr : rows.mapM J.decodeRow with
      | error e => rw [ht, hr] at h; cases h
      | ok vs' =>
        rw [ht, hr] at h
        cases h
        exact .cons ht (ih hr)

theorem sameRow_reencode {rows : List Bytes} {vs : List Row}
    (h : rows.mapM J.decodeRow = .ok vs) (k : Nat) :
    List.Forall₂ (SameRow J) ((vs.take k).map J.marshalRow) (rows.take k) := by
  have := List.forall₂_take k (forall₂_of_mapM_ok J h)
  rw [List.forall₂_map_left_iff]
  exact List.Forall₂.flip (this.imp fun t v ht => by rw [flip, SameRow, ht, J.decodeRow_marshalRow])

theorem flushLimited_eq {wanted : Int} (hw : 0 ≤ wanted) (rows : List Bytes) :
    flushLimited J wanted rows =
      match rows.mapM J.decodeRow with
      | .error e => .error e
      | .ok vs => if (vs.length : Int) ≤ wanted then .ok (joinRows rows, vs.length)
          else .ok (joinRows ((vs.take wanted.toNat).map J.marshalRow), wanted) := by
  unfold flushLimited
  cases rows.mapM J.decodeRow with
  | error e => rfl
  | ok vs =>
    dsimp only
    split_ifs with h
    · rw [goSlice_frame]
    · have hk : wanted.toNat ≤ vs.length := by omega
      rw [show wanted = (wanted.toNat : Int) by omega, goSlice_prefix vs _ hk]
      dsimp only
      rw [goSlice_frame]
      simp [hw]

/-- A result as a datanode that succeeded sends it: no error, and every row
text decodes. -/
def StreamingScanNoderesult.Decodes (res : StreamingScanNoderesult) : Prop :=
  res.err = none ∧ ∃ vs, res.rows.mapM J.decodeRow = .ok vs

theorem consume_unlimited {limit : Int} (hl : limit < 0) (n : Nat) (s : Head)
    {res : StreamingScanNoderesult} (herr : res.err = none) :
    consume J limit n s res =
      .ok ⟨s.i + 1, s.flushed, s.writes ++ joinRows res.rows :: separator limit s.flushed s.i n⟩ := by
  simp [consume, herr, hl]

theorem consume_limited {limit : Int} (hl : 0 ≤ limit) (n : Nat) {s : Head}
    (hw : 0 ≤ getRowsWanted limit s.flushed) {res : StreamingScanNoderesult}
    (hres : res.Decodes J) :
    ∃ frag : List Bytes,
      consume J limit n s res = .ok ⟨s.i + 1, s.flushed + frag.length,
        s.writes ++ joinRows frag :: separator limit (s.flushed + frag.length) s.i n⟩ ∧
      (frag.length : Int) = min (getRowsWanted limit s.flushed) res.rows.length ∧
      List.Forall₂ (SameRow J) frag (res.rows.take (getRowsWanted limit s.flushed).toNat) := by
  obtain ⟨herr, vs, hvs⟩ := hres
  have hlen : vs.length = res.rows.length := (forall₂_of_mapM_ok J hvs).length_eq.symm
  simp only [consume, herr, show ¬ limit < 0 by omega, if_false, flushLimited_eq J hw, hvs]
  split_ifs with h
  · refine ⟨res.rows, ?_, by simp only [getRowsWanted] at h ⊢; omega, ?_⟩
    · simp [hlen]
    · rw [List.take_of_length_le (by omega)]
      exact List.forall₂_same.mpr fun _ _ => rfl
  · refine ⟨(vs.take (getRowsWanted limit s.flushed).toNat).map J.marshalRow, ?_, ?_,
      sameRow_reencode J hvs _⟩
    · have hk : ((min (getRowsWanted limit s.flushed).toNat vs.length : Nat) : Int) =
          getRowsWanted limit s.flushed := by omega
      simp [hk]
    · simp only [List.length_map, List.length_take]
      omega

/-! ## The loop over all results -/

theorem loop_step {limit : Int} {n : Nat} {s s' : Head} {res : StreamingScanNoderesult}
    (rest : List StreamingScanNoderesult) (hi : s.i < n)
    (hw : getRowsWanted limit s.flushed ≠ 0) (h : consume J limit n s res = .ok s') :
    loop J limit n s (res :: rest) = loop J limit n s' rest := by
  simp [loop, hi, hw, h]

theorem loop_stop {limit : Int} {n : Nat} {s : Head} (res : StreamingScanNoderesult)
    (rest : List StreamingScanNoderesult) (h : ¬ (s.i < n ∧ getRowsWanted limit s.flushed ≠ 0)) :
    loop J limit n s (res :: rest) = (.finished, s.i, s) := by
  simp [loop, h]

theorem separator_eq {limit flushed : Int} {i n : Nat} {rest : List StreamingScanNoderesult}
    (hn : i + (rest.length + 1) = n) :
    separator limit flushed i n = if getRowsWanted limit flushed ≠ 0 ∧ rest ≠ [] then [[',']] else [] := by
  have : i ≠ n - 1 ↔ rest ≠ [] := by
    rw [Ne, Ne, ← List.length_eq_zero]; omega
  simp only [separator, this]

theorem intersperse_cons {α : Type} [DecidableEq α] (sep f : α) (fs : List α) :
    (f :: fs).intersperse sep = f :: ((if fs = [] then [] else [sep]) ++ fs.intersperse sep) := by
  cases fs <;> simp

/-- The rows of the results, in arrival order. -/
def allRows (results : List StreamingScanNoderesult) : List Bytes :=
  results.flatMap StreamingScanNoderesult.rows

/-- Without a limit, every result is received and its body written as it
came, with commas between bodies. -/
theorem loop_unlimited {limit : Int} (hl : limit < 0) (n : Nat) :
    ∀ (results : List StreamingScanNoderesult) (s : Head),
    s.i + results.length = n → s.flushed = 0 → (∀ r ∈ results, r.err = none) →
    loop J limit n s results =
      (.finished, n, ⟨n, 0, s.writes ++ (results.map fun r => joinRows r.rows).intersperse [',']⟩) := by
  intro results
  induction results with
  | nil =>
    intro s hn h0 _
    obtain ⟨i, f, ws⟩ := s
    simp_all [loop]
  | cons res rest ih =>
    intro s hn h0 herr
    have hw : getRowsWanted limit s.flushed ≠ 0 := by simp [getRowsWanted, h0]; omega
    rw [loop_step J rest (by simp at hn; omega) hw
      (consume_unlimited J hl n s (herr res (List.mem_cons_self _ _))),
      ih ⟨s.i + 1, s.flushed, _⟩ (by simp at hn ⊢; omega) h0
        fun r hr => herr r (List.mem_cons_of_mem _ hr)]
    simp only [List.map_cons, intersperse_cons, separator_eq (by simpa using hn : s.i + (rest.length + 1) = n),
      hw, true_and, List.map_eq_nil_iff, List.append_assoc, List.cons_append]
    by_cases h : rest = [] <;> simp [h, hw]

/-- With a limit, results are received while rows are still wanted. The
bodies written, one fragment per result received, hold the first `wanted`
rows of the results in arrival order, with their values; no fragment is
written once no rows are wanted; and each result was received while fewer
than `wanted` rows had arrived before it. -/
theorem loop_limited {limit : Int} (hl : 0 ≤ limit) (n : Nat) :
    ∀ (results : List StreamingScanNoderesult) (s : Head),
    s.i + results.length = n → 0 ≤ getRowsWanted limit s.flushed →
    (∀ r ∈ results, r.Decodes J) →
    ∃ frags : List (List Bytes),
      loop J limit n s results = (.finished, s.i + frags.length,
        ⟨s.i + frags.length, s.flushed + frags.flatten.length,
          s.writes ++ (frags.map joinRows).intersperse [',']⟩) ∧
      List.Forall₂ (SameRow J) frags.flatten
        ((allRows results).take (getRowsWanted limit s.flushed).toNat) ∧
      (frags = [] ↔ getRowsWanted limit s.flushed = 0 ∨ results = []) ∧
      ∀ j < frags.length,
        ((allRows (results.take j)).length : Int) < getRowsWanted limit s.flushed := by
  intro results
  induction results with
  | nil => intro s _ _ _; exact ⟨[], by simp [loop], by simp [allRows], by simp, by simp⟩
  | cons res rest ih =>
    intro s hn hw hres
    by_cases hb : getRowsWanted limit s.flushed = 0
    · exact ⟨[], by rw [loop_stop J res rest (by simp [hb])]; simp, by simp [hb], by simp [hb],
        by simp⟩
    obtain ⟨frag, hcons, hlen, hsame⟩ :=
      consume_limited J hl n hw (hres res (List.mem_cons_self _ _))
    have hw' : 0 ≤ getRowsWanted limit (s.flushed + frag.length) := by
      simp only [getRowsWanted] at hlen ⊢; omega
    obtain ⟨frags, hloop, hsame', hnil, hbefore⟩ :=
      ih ⟨s.i + 1, s.flushed + frag.length, _⟩ (by simp at hn ⊢; omega) hw'
        fun r hr => hres r (List.mem_cons_of_mem _ hr)
    dsimp only at hloop hsame' hnil hbefore
    -- rows are wanted after this result only if all of its rows were written
    have hall : frags ≠ [] → frag.length = res.rows.length := by
      intro hf
      have : getRowsWanted limit (s.flushed + frag.length) ≠ 0 := fun h0 => hf (hnil.mpr (.inl h0))
      simp only [getRowsWanted] at this hlen; omega
    refine ⟨frag :: frags, ?_, ?_, by simp [hb], ?_⟩
    · rw [loop_step J rest (by simp at hn; omega) hb hcons, hloop]
      simp only [List.map_cons, intersperse_cons, List.map_eq_nil_iff, List.flatten_cons,
        List.length_cons, List.length_append, List.append_assoc, List.cons_append,
        separator_eq (by simpa using hn : s.i + (rest.length + 1) = n)]
      have hsep : (getRowsWanted limit (s.flushed + frag.length) ≠ 0 ∧ rest ≠ []) ↔ frags ≠ [] := by
        rw [ne_eq frags, hnil, not_or]
      simp only [hsep, ne_eq, ite_not]
      rw [show s.i + 1 + frags.length = s.i + (frags.length + 1) by omega, Nat.cast_add, add_assoc]
    · rw [List.flatten_cons, allRows, List.flatMap_cons, List.take_append_eq_append_take]
      have hk : (getRowsWanted limit (s.flushed + frag.length)).toNat =
          (getRowsWanted limit s.flushed).toNat - res.rows.length := by
        simp only [getRowsWanted] at hlen ⊢; omega
      exact List.rel_append hsame (hk ▸ hsame')
    · intro j hj
      cases j with
      | zero => simp [allRows]; omega
      | succ j =>
        have hj' : j < frags.length := by simpa using hj
        have := hbefore j hj'
        rw [hall (List.ne_nil_of_length_pos (by omega))] at this
        simp only [List.take_succ_cons, allRows, List.flatMap_cons, List.length_append] at this ⊢
        simp only [getRowsWanted] at this ⊢
        push_cast; omega

/-! ## Execute -/

theorem preamble_length (headers : List String) : (preamble headers).length = 3 := rfl

/-- A codec under which a row text is its own value. -/
def verbatim : RowCodec Bytes := ⟨.ok, id, fun _ => rfl⟩

/-- Two partial results, of three rows and of two. -/
def threeAndTwo : List StreamingScanNoderesult :=
  [⟨some ["[1]".toList, "[2]".toList, "[3]".toList], none⟩, ⟨some ["[4]".toList, "[5]".toList], none⟩]

theorem threeAndTwo_decode : ∀ r ∈ threeAndTwo, r.Decodes verbatim := by
  simp only [threeAndTwo, List.mem_cons, List.mem_singleton, List.not_mem_nil, or_false]
  rintro r (rfl | rfl) <;> exact ⟨rfl, _, rfl⟩

/-- `encoding/json` on rows of one integer: decoded to the nearest `float64`,
printed back in full. -/
def float64IntRows : RowCodec Float64Int := ⟨decodeIntRow, marshalIntRow, decodeIntRow_marshalIntRow⟩

/-- Without a limit, a node whose body is empty still gets a comma after it,
and the response reads `"matrixData":[,[1]]`. -/
theorem execute_empty_body_comma :
    (NonAggQueryPlan.execute J [] (-1) (fun _ => none) [⟨some [], none⟩, ⟨some ["[1]".toList], none⟩]).writes.flatten =
      "\x7b\"headers\":[],\"matrixData\":[,[1]]\x7d".toList := by
  rfl

/-- The writes in the loop are not checked: without a limit, the write of a
node's body fails, yet `Execute` goes on to write `]}` and returns nil. -/
theorem execute_ignores_failed_body_write :
    let w : Nat → Option Error := fun k => if k = 3 then some (.remote 0) else none
    w 3 = some (.remote 0) ∧
    NonAggQueryPlan.execute J [] (-1) w [⟨some ["[1]".toList], none⟩] =
      ⟨preamble [] ++ ["[1]".toList, postamble], 1, .returned none⟩ :=
  ⟨rfl, rfl⟩

/-! ## The head of every iteration -/

theorem flushLimited_ok {wanted : Int} (hw : 0 ≤ wanted) {rows : List Bytes} {out : Bytes}
    {k : Int} (h : flushLimited J wanted rows = .ok (out, k)) : k = min wanted rows.length := by
  cases hvs : rows.mapM J.decodeRow with
  | error e => simp only [flushLimited_eq J hw, hvs] at h; cases h
  | ok vs =>
    have hlen : vs.length = rows.length := (forall₂_of_mapM_ok J hvs).length_eq.symm
    simp only [flushLimited_eq J hw, hvs] at h
    split_ifs at h <;> (cases h; omega)

theorem flushLimited_ne_panic {wanted : Int} (hw : 0 ≤ wanted) (rows : List Bytes) :
    flushLimited J wanted rows ≠ .panic := by
  cases hvs : rows.mapM J.decodeRow with
  | error e => simp only [flushLimited_eq J hw, hvs]; simp
  | ok vs =>
    simp only [flushLimited_eq J hw, hvs]
    split_ifs <;> simp

theorem consume_ok {limit : Int} {n : Nat} {s s' : Head} {res : StreamingScanNoderesult}
    (h : consume J limit n s res = .ok s') :
    res.err = none ∧ ∃ out k,
      (if limit < 0 then pure (joinRows res.rows, 0)
        else flushLimited J (getRowsWanted limit s.flushed) res.rows) = .ok (out, k) ∧
      s' = ⟨s.i + 1, s.flushed + k, s.writes ++ out :: separator limit (s.flushed + k) s.i n⟩ := by
  simp only [consume] at h
  cases herr : res.err with
  | some e => simp [herr] at h
  | none =>
    simp only [herr] at h
    refine ⟨rfl, ?_⟩
    split_ifs at h ⊢
    · cases h; exact ⟨_, _, rfl, rfl⟩
    · obtain ⟨⟨out, k⟩, hb, hs⟩ := Result.bind_eq_ok.mp h
      exact ⟨out, k, hb, by cases hs; rfl⟩

theorem consume_ok_i {limit : Int} {n : Nat} {s s' : Head} {res : StreamingScanNoderesult}
    (h : consume J limit n s res = .ok s') : s'.i = s.i + 1 := by
  obtain ⟨-, _, _, -, rfl⟩ := consume_ok J h
  rfl

theorem consume_ok_flushed {limit : Int} {n : Nat} {s s' : Head} {res : StreamingScanNoderesult}
    (hw : 0 ≤ limit → 0 ≤ getRowsWanted limit s.flushed) (h : consume J limit n s res = .ok s') :
    s'.flushed = s.flushed +
      if limit < 0 then 0 else min (getRowsWanted limit s.flushed) res.rows.length := by
  obtain ⟨-, out, k, hb, rfl⟩ := consume_ok J h
  split_ifs at hb ⊢ with hl
  · cases hb; rfl
  · rw [flushLimited_ok J (hw (by omega)) hb]

theorem consume_ne_panic {limit : Int} {n : Nat} {s : Head} (res : StreamingScanNoderesult)
    (hw : 0 ≤ limit → 0 ≤ getRowsWanted limit s.flushed) : consume J limit n s res ≠ .panic := by
  simp only [consume]
  cases res.err with
  | some e => simp
  | none =>
    dsimp only
    split_ifs with hl
    · simp
    · rw [ne_eq, Result.bind_eq, Result.bind_eq_panic, not_or]
      exact ⟨flushLimited_ne_panic J (hw (by omega)) _, by rintro ⟨⟨_, _⟩, _, h⟩; cases h⟩

/-- The loop started at `s` on `results` comes to the head of an iteration at
`t`, with `rest` still to arrive. -/
inductive Reaches (limit : Int) (n : Nat) (s : Head) (results : List StreamingScanNoderesult) :
    Head → List StreamingScanNoderesult → Prop
  | start : Reaches limit n s results s results
  | next {t t' : Head} {res : StreamingScanNoderesult} {rest : List StreamingScanNoderesult} :
      Reaches limit n s results t (res :: rest) → t.i < n → getRowsWanted limit t.flushed ≠ 0 →
      consume J limit n t res = .ok t' → Reaches limit n s results t' rest

theorem Reaches.rest_eq {limit : Int} {n : Nat} {s t : Head}
    {results rest : List StreamingScanNoderesult} (h : Reaches J limit n s results t rest) :
    s.i ≤ t.i ∧ t.i - s.i ≤ results.length ∧ rest = results.drop (t.i - s.i) := by
  induction h with
  | start => simp
  | @next u _ _ _ _ _ _ hc ih =>
    obtain ⟨hle, -, hrest⟩ := ih
    have hlen := congrArg List.length hrest
    simp only [List.length_cons, List.length_drop] at hlen
    rw [consume_ok_i J hc, show u.i + 1 - s.i = u.i - s.i + 1 by omega, ← List.drop_drop, ← hrest]
    exact ⟨by omega, by omega, rfl⟩

theorem Reaches.cons {limit : Int} {n : Nat} {s s' t : Head} {res : StreamingScanNoderesult}
    {rest rest' : List StreamingScanNoderesult} (hi : s.i < n)
    (hw : getRowsWanted limit s.flushed ≠ 0) (hc : consume J limit n s res = .ok s')
    (h : Reaches J limit n s' rest t rest') : Reaches J limit n s (res :: rest) t rest' := by
  induction h with
  | start => exact .next .start hi hw hc
  | next _ hi' hw' hc' ih => exact .next ih hi' hw' hc'

theorem Reaches.loop_eq {limit : Int} {n : Nat} {s t : Head}
    {results rest : List StreamingScanNoderesult} (h : Reaches J limit n s results t rest) :
    loop J limit n s results = loop J limit n t rest := by
  induction h with
  | start => rfl
  | next _ hi hw hc ih => rw [ih, loop_step J _ hi hw hc]

theorem loop_panicked {limit : Int} {n : Nat} :
    ∀ {s : Head} {results : List StreamingScanNoderesult},
    (loop J limit n s results).1 = .panicked →
    ∃ t res rest, Reaches J limit n s results t (res :: rest) ∧ consume J limit n t res = .panic
  | s, [], h => by simp [loop] at h
  | s, res :: rest, h => by
    unfold loop at h
    split_ifs at h with hc
    · cases hcons : consume J limit n s res with
      | ok s' =>
        rw [hcons] at h
        obtain ⟨t, r, rs, hr, hp⟩ := loop_panicked h
        exact ⟨t, r, rs, hr.cons J hc.1 hc.2 hcons, hp⟩
      | error e => simp [hcons] at h
      | panic => exact ⟨s, res, rest, .start, hcons⟩

theorem take_succ_of_drop_eq {α : Type} {l rest : List α} {a : α} {i : Nat}
    (h : l.drop i = a :: rest) : l.take (i + 1) = l.take i ++ [a] := by
  rw [List.take_succ, ← List.head?_drop, h]
  rfl

/-- From the plan's initial state, `flushed` is at every head the number of
rows arrived so far, capped at `limit`; without a limit it stays `0`. -/
theorem Reaches.flushed_eq {limit : Int} {n : Nat} {results rest : List StreamingScanNoderesult}
    {t : Head} (h : Reaches J limit n ⟨0, 0, []⟩ results t rest) :
    t.flushed = if limit < 0 then 0 else min limit (allRows (results.take t.i)).length := by
  induction h with
  | start => split_ifs <;> simp [allRows]; omega
  | @next t t' res rest hr _ hw hc ih =>
    have hw' : 0 ≤ limit → 0 ≤ getRowsWanted limit t.flushed := by
      intro hl; rw [ih, if_neg (show ¬ limit < 0 by omega)]; simp only [getRowsWanted]; omega
    have hdrop : results.drop t.i = res :: rest := by simpa using (hr.rest_eq J).2.2.symm
    rw [consume_ok_flushed J hw' hc, consume_ok_i J hc, take_succ_of_drop_eq hdrop, ih]
    simp only [allRows, List.flatMap_append, List.flatMap_singleton, List.length_append] at hw ⊢
    simp only [getRowsWanted] at hw ⊢
    split_ifs at hw ⊢ <;> omega

/-- At the head of every iteration from the plan's initial state, with a
limit, `0 ≤ flushed ≤ limit` and `flushed` is the number of rows arrived so
far capped at `limit`; without a limit `flushed` is `0` and rows are always
wanted. The slice expressions of the iteration are in range, and the loop
never panics. -/
theorem loop_head_flushed {limit : Int} {n : Nat} {results rest : List StreamingScanNoderesult}
    {t : Head} (h : Reaches J limit n ⟨0, 0, []⟩ results t rest) :
    (0 ≤ limit → 0 ≤ t.flushed ∧ t.flushed ≤ limit ∧
      t.flushed = min limit (allRows (results.take t.i)).length) ∧
    (limit < 0 → t.flushed = 0 ∧ getRowsWanted limit t.flushed ≠ 0) ∧
    (∀ res, consume J limit n t res ≠ .panic) ∧
    (loop J limit n ⟨0, 0, []⟩ results).1 ≠ .panicked := by
  have hw : ∀ {u : Head} {rs}, Reaches J limit n ⟨0, 0, []⟩ results u rs →
      0 ≤ limit → 0 ≤ getRowsWanted limit u.flushed := by
    intro u rs hu hl
    rw [hu.flushed_eq, if_neg (show ¬ limit < 0 by omega), getRowsWanted]; omega
  have ht := h.flushed_eq
  refine ⟨fun hl => ?_, fun hl => ?_, fun res => consume_ne_panic J res (hw h), fun hp => ?_⟩
  · rw [if_neg (show ¬ limit < 0 by omega)] at ht; omega
  · rw [if_pos hl] at ht
    exact ⟨ht, by simp only [getRowsWanted, ht]; omega⟩
  · obtain ⟨u, res, rs, hu, hc⟩ := loop_panicked J hp
    exact consume_ne_panic J res (hw hu) hc

theorem loop_head_flushed_of_threeAndTwo :
    Reaches verbatim 2 2 ⟨0, 0, []⟩ threeAndTwo ⟨1, 2, ["[1],[2]".toList]⟩ (threeAndTwo.drop 1) ∧
    ((0 : Int) ≤ 2 → (0 : Int) ≤ 2 ∧ (2 : Int) ≤ 2 ∧
      (2 : Int) = min 2 (allRows (threeAndTwo.take 1)).length) ∧
    ((2 : Int) < 0 → (2 : Int) = 0 ∧ getRowsWanted 2 2 ≠ 0) ∧
    (∀ res, consume verbatim 2 2 ⟨1, 2, ["[1],[2]".toList]⟩ res ≠ .panic) ∧
    (loop verbatim 2 2 ⟨0, 0, []⟩ threeAndTwo).1 ≠ .panicked :=
  have h : Reaches verbatim 2 2 ⟨0, 0, []⟩ threeAndTwo ⟨1, 2, ["[1],[2]".toList]⟩ (threeAndTwo.drop 1) :=
    .next .start (by decide) (by decide) rfl
  ⟨h, loop_head_flushed verbatim h⟩

end

end AresBroker.Broker
