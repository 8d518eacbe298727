import AresBroker.Broker.Reducer

/-! # The text of the response

`Execute` writes a JSON object by hand: the headers as `json.Marshal` encodes
a `[]string`, then the datanode bodies between `"matrixData":[` and `]}`,
with a comma after each body but the last. This module reads the headers
back with a reader of JSON arrays of strings, and says exactly when the
matrix part is the comma-separated list of all rows received.
-/

namespace AresBroker.Broker

/-! ## Reading the headers back -/

/-- The value of a hex digit, in either case. -/
def hexValue (c : Char) : Option Nat :=
  if '0' ≤ c ∧ c ≤ '9' then some (c.toNat - 48)
  else if 'a' ≤ c ∧ c ≤ 'f' then some (c.toNat - 87)
  else if 'A' ≤ c ∧ c ≤ 'F' then some (c.toNat - 55)
  else none

/-- The character that a backslash and `c` stand for, other than `\u`. -/
def shortEscape (c : Char) : Option Char :=
  if c = '"' then some '"'
  else if c = '\\' then some '\\'
  else if c = '/' then some '/'
  else if c = 'b' then some (Char.ofNat 8)
  else if c = 'f' then some (Char.ofNat 12)
  else if c = 'n' then some '\n'
  else if c = 'r' then some '\r'
  else if c = 't' then some '\t'
  else none

/-- Where a reader of a JSON array of strings is, after some characters.
Whitespace between tokens and surrogate pairs are not read. -/
inductive Reader where
  | start
  /-- After `[`: a string or `]` follows. -/
  | opened (done : List String)
  /-- After a `,`: a string follows. -/
  | comma (done : List String)
  /-- Inside a string, whose characters so far are `cur`. -/
  | str (done : List String) (cur : List Char)
  /-- After a backslash inside a string. -/
  | escape (done : List String) (cur : List Char)
  /-- Inside `\uXXXX`, with `k` digits of value `v` read. -/
  | unicode (done : List String) (cur : List Char) (k v : Nat)
  /-- After a string: `,` or `]` follows. -/
  | after (done : List String)
  | closed (done : List String)
  | fail
  deriving Repr, DecidableEq

/-- The reader on one more character. -/
def Reader.step : Reader → Char → Reader
  | .start, c => if c = '[' then .opened [] else .fail
  | .opened done, c =>
    if c = ']' then .closed done else if c = '"' then .str done [] else .fail
  | .comma done, c => if c = '"' then .str done [] else .fail
  | .str done cur, c =>
    if c = '"' then .after (done ++ [⟨cur⟩])
    else if c = '\\' then .escape done cur
    else if c.toNat < 32 then .fail
    else .str done (cur ++ [c])
  | .escape done cur, c =>
    if c = 'u' then .unicode done cur 0 0
    else match shortEscape c with
      | some e => .str done (cur ++ [e])
      | none => .fail
  | .unicode done cur k v, c =>
    match hexValue c with
    | none => .fail
    | some d =>
      if k < 3 then .unicode done cur (k + 1) (16 * v + d)
      else if 0xD800 ≤ 16 * v + d ∧ 16 * v + d < 0xE000 then .fail
      else .str done (cur ++ [Char.ofNat (16 * v + d)])
  | .after done, c => if c = ',' then .comma done else if c = ']' then .closed done else .fail
  | .closed _, _ | .fail, _ => .fail

/-- The strings of a JSON array of strings, `none` if the text is not one. -/
def readStrings (b : Bytes) : Option (List String) :=
  match b.foldl Reader.step .start with
  | .closed done => some done
  | _ => none

theorem hexValue_hexDigit : ∀ d, d < 16 → hexValue (hexDigit d) = some d := by
  decide

theorem foldl_escapeChar (done : List String) (cur : List Char) (c : Char) :
    (escapeChar c).foldl Reader.step (.str done cur) = .str done (cur ++ [c]) := by
  have hhex := hexValue_hexDigit (c.toNat % 16) (Nat.mod_lt _ (by decide))
  unfold escapeChar
  split_ifs with h₁ h₂ h₃ h₄ h₅ h₆ h₇
  · subst h₁; rfl
  · subst h₂; rfl
  · subst h₃; rfl
  · subst h₄; rfl
  · subst h₅; rfl
  · -- `\u00XX`: the two digits give back the code point, below the surrogates
    have hc : c.toNat < 256 := by
      rcases h₆ with h | rfl | rfl | rfl <;> first | omega | decide
    have hhi := hexValue_hexDigit (c.toNat / 16) (by omega)
    have h0 : hexValue '0' = some 0 := by decide
    simp [Reader.step, h0, hhi, hhex]
    rw [Nat.div_add_mod, if_neg (by omega), Char.ofNat_toNat]
  · -- `\u202X` for U+2028 and U+2029
    have h0 : hexValue '0' = some 0 := by decide
    have h2 : hexValue '2' = some 2 := by decide
    simp [Reader.step, h0, h2, hhex]
    rw [show 8224 + c.toNat % 16 = c.toNat by omega, if_neg (by omega), Char.ofNat_toNat]
  · have hc : ¬ c.toNat < 32 := fun h => h₆ (.inl h)
    simp [Reader.step, h₁, h₂, hc]

theorem foldl_escaped (done : List String) (cur cs : List Char) :
    (cs.flatMap escapeChar).foldl Reader.step (.str done cur) = .str done (cur ++ cs) := by
  induction cs generalizing cur with
  | nil => simp
  | cons c cs ih =>
    rw [List.flatMap_cons, List.foldl_append, foldl_escapeChar, ih, List.append_assoc,
      List.singleton_append]

theorem foldl_quote {r : Reader} {done : List String} (hr : r.step '"' = .str done [])
    (str : String) : (quote str).foldl Reader.step r = .after (done ++ [str]) := by
  simp only [quote, List.foldl_cons, hr, List.foldl_append, foldl_escaped, List.nil_append]
  rfl

theorem joinRows_cons_cons (a b : Bytes) (l : List Bytes) :
    joinRows (a :: b :: l) = a ++ ',' :: joinRows (b :: l) := rfl

@[simp] theorem joinRows_nil : joinRows [] = [] := rfl

@[simp] theorem joinRows_singleton (a : Bytes) : joinRows [a] = a := by
  simp [joinRows, List.intercalate]

theorem foldl_joinRows_quote {r : Reader} {done : List String} (hr : r.step '"' = .str done [])
    (h : String) (hs : List String) :
    (joinRows ((h :: hs).map quote)).foldl Reader.step r = .after (done ++ h :: hs) := by
  induction hs generalizing r done h with
  | nil => simpa using foldl_quote hr h
  | cons h' hs ih =>
    rw [List.map_cons, List.map_cons, joinRows_cons_cons, List.foldl_append, foldl_quote hr,
      List.foldl_cons, ← List.map_cons]
    exact (@ih (.comma (done ++ [h])) (done ++ [h]) rfl h').trans (by simp)

/-- `json.Marshal` of the headers reads back as the headers: the prefix of the
response holds a JSON array of exactly the plan's header strings. -/
theorem readStrings_marshalHeaders (headers : List String) :
    readStrings (marshalHeaders headers) = some headers := by
  cases headers with
  | nil => rfl
  | cons h hs =>
    have hbody := foldl_joinRows_quote (r := .opened []) rfl h hs
    simp only [readStrings, marshalHeaders, frame, List.foldl_cons, List.foldl_append, List.nil_append]
    erw [hbody]
    rfl

/-! ## The rows between the brackets -/

theorem joinRows_cons (x : Bytes) (xs : List Bytes) :
    joinRows (x :: xs) = x ++ if xs = [] then [] else ',' :: joinRows xs := by
  cases xs <;> simp [joinRows_cons_cons]

theorem joinRows_append {a b : List Bytes} (ha : a ≠ []) (hb : b ≠ []) :
    joinRows (a ++ b) = joinRows a ++ ',' :: joinRows b := by
  induction a with
  | nil => exact absurd rfl ha
  | cons x a ih =>
    rcases eq_or_ne a [] with rfl | ha'
    · obtain ⟨y, b, rfl⟩ := List.exists_cons_of_ne_nil hb
      rw [joinRows_singleton]
      rfl
    · obtain ⟨y, a, rfl⟩ := List.exists_cons_of_ne_nil ha'
      rw [List.cons_append, List.cons_append, joinRows_cons_cons, ← List.cons_append, ih ha',
        joinRows_cons_cons, List.append_assoc, List.cons_append]

theorem length_joinRows_add (l : List Bytes) :
    (joinRows l).length + (if l = [] then 0 else 1) = (l.map List.length).sum + l.length := by
  induction l with
  | nil => rfl
  | cons x xs ih =>
    rw [joinRows_cons]
    by_cases hxs : xs = [] <;> simp [hxs] at ih ⊢
    omega

theorem joinRows_map_length (frags : List (List Bytes)) :
    (joinRows (frags.map joinRows)).length + (if frags = [] then 0 else 1) =
      (joinRows frags.flatten).length + (if frags.flatten = [] then 0 else 1) + frags.count [] := by
  have hsum : ((frags.map joinRows).map List.length).sum + frags.length =
      (frags.flatten.map List.length).sum + frags.flatten.length + frags.count [] := by
    induction frags with
    | nil => rfl
    | cons f fs ih =>
      have hf := length_joinRows_add f
      by_cases h : f = [] <;> simp [h, List.count_cons] at hf ih ⊢ <;> omega
  have h1 := length_joinRows_add (frags.map joinRows)
  have h2 := length_joinRows_add frags.flatten
  simp only [List.map_eq_nil_iff, List.length_map] at h1
  omega

theorem joinRows_map_joinRows_iff (frags : List (List Bytes)) :
    joinRows (frags.map joinRows) = joinRows frags.flatten ↔ frags.length ≤ 1 ∨ [] ∉ frags := by
  constructor
  · intro h
    by_contra hne
    push_neg at hne
    obtain ⟨hlen, hmem⟩ := hne
    have hlen' := joinRows_map_length frags
    rw [h] at hlen'
    have hcount : 0 < frags.count [] := List.count_pos_iff.mpr hmem
    have hfrags : frags ≠ [] := List.ne_nil_of_mem hmem
    by_cases hflat : frags.flatten = []
    · have hall : frags.count [] = frags.length :=
        List.count_eq_length.mpr fun b hb => (List.flatten_eq_nil_iff.mp hflat b hb).symm
      simp only [hfrags, hflat, if_false, if_true] at hlen'
      omega
    · simp only [hfrags, hflat, if_false] at hlen'
      omega
  · rintro (hlen | hmem)
    · match frags, hlen with
      | [], _ => rfl
      | [f], _ => simp
    · induction frags with
      | nil => rfl
      | cons f fs ih =>
        have hf : f ≠ [] := fun h => hmem (h ▸ List.mem_cons_self _ _)
        have ih := ih fun h => hmem (List.mem_cons_of_mem _ h)
        rcases eq_or_ne fs [] with rfl | hfs
        · simp
        · have hflat : fs.flatten ≠ [] := by
            obtain ⟨g, gs, rfl⟩ := List.exists_cons_of_ne_nil hfs
            have hg : g ≠ [] := fun h => hmem (h ▸ List.mem_cons_of_mem _ (List.mem_cons_self _ _))
            simp [hg]
          rw [List.map_cons, joinRows_cons, if_neg (by simpa using hfs), ih, List.flatten_cons,
            joinRows_append hf hflat]

section
variable {Row : Type} (J : RowCodec Row)

/-- Without a limit, with the prefix written and no result carrying an error,
`Execute` writes the prefix, every body as it came with commas between
bodies, and `]}`, and returns the error of that last write. -/
theorem execute_unlimited (headers : List String) {limit : Int} (hl : limit < 0)
    (w : Nat → Option Error) (results : List StreamingScanNoderesult) (hw : ∀ k < 3, w k = none)
    (herr : ∀ r ∈ results, r.err = none) :
    NonAggQueryPlan.execute J headers limit w results =
      ⟨preamble headers ++ (results.map fun r => joinRows r.rows).intersperse [','] ++ [postamble],
        results.length,
        .returned (w (3 + ((results.map fun r => joinRows r.rows).intersperse [',']).length))⟩ := by
  simp only [NonAggQueryPlan.execute, hw 0 (by decide), hw 1 (by decide), hw 2 (by decide),
    loop_unlimited J hl results.length results ⟨0, 0, []⟩ (by simp) rfl herr, List.nil_append]

/-- Without a limit, the matrix part of the response is the comma-separated
rows received exactly when at most one node answered or no node's body is
empty; otherwise an empty body leaves a comma too many. -/
theorem execute_matrix_joins_rows_iff (headers : List String) {limit : Int} (hl : limit < 0)
    (w : Nat → Option Error) (results : List StreamingScanNoderesult) (hw : ∀ k < 3, w k = none)
    (herr : ∀ r ∈ results, r.err = none) :
    (NonAggQueryPlan.execute J headers limit w results).writes.flatten =
        (preamble headers).flatten ++ joinRows (allRows results) ++ postamble ↔
      results.length ≤ 1 ∨ ∀ r ∈ results, r.rows ≠ [] := by
  have hbodies : ((results.map fun r => joinRows r.rows).intersperse [',']).flatten =
      joinRows ((results.map StreamingScanNoderesult.rows).map joinRows) := by
    rw [List.map_map]
    rfl
  rw [execute_unlimited J headers hl w results hw herr]
  simp only [List.flatten_append, hbodies, List.flatten_cons, List.flatten_nil, List.append_nil,
    allRows, List.flatMap_def, List.append_cancel_left_eq, List.append_cancel_right_eq,
    joinRows_map_joinRows_iff, List.length_map, List.mem_map, not_exists, not_and]

theorem execute_matrix_joins_rows_iff_of_two :
    (-1 : Int) < 0 ∧ (∀ k < 3, (fun _ => none : Nat → Option Error) k = none) ∧
    (∀ r ∈ ([⟨some ["[1]".toList], none⟩, ⟨some [], none⟩] : List StreamingScanNoderesult),
      r.err = none) ∧
    ((NonAggQueryPlan.execute verbatim ["x"] (-1) (fun _ => none)
        [⟨some ["[1]".toList], none⟩, ⟨some [], none⟩]).writes.flatten =
        (preamble ["x"]).flatten ++ joinRows (allRows [⟨some ["[1]".toList], none⟩, ⟨some [], none⟩]) ++
          postamble ↔
      [(⟨some ["[1]".toList], none⟩ : StreamingScanNoderesult), ⟨some [], none⟩].length ≤ 1 ∨
        ∀ r ∈ ([⟨some ["[1]".toList], none⟩, ⟨some [], none⟩] : List StreamingScanNoderesult),
          r.rows ≠ []) :=
  have herr : ∀ r ∈ ([⟨some ["[1]".toList], none⟩, ⟨some [], none⟩] : List StreamingScanNoderesult),
      r.err = none := by simp
  ⟨by decide, fun _ _ => rfl, herr,
    execute_matrix_joins_rows_iff verbatim ["x"] (by decide) (fun _ => none) _ (fun _ _ => rfl) herr⟩

theorem loop_unlimited_error {limit : Int} (hl : limit < 0) (n : Nat)
    {r : StreamingScanNoderesult} {e : Error} (hr : r.err = some e)
    (post : List StreamingScanNoderesult) :
    ∀ (pre : List StreamingScanNoderesult) (s : Head), s.i + pre.length + 1 ≤ n →
    s.flushed = 0 → (∀ x ∈ pre, x.err = none) →
    loop J limit n s (pre ++ r :: post) = (.returned e, s.i + pre.length + 1,
      ⟨s.i + pre.length, 0, s.writes ++ pre.flatMap fun x => [joinRows x.rows, [',']]⟩)
  | [], ⟨i, f, ws⟩, hn, h0, _ => by
    dsimp only at hn h0
    subst h0
    have hw : getRowsWanted limit 0 ≠ 0 := by simp only [getRowsWanted]; omega
    simp [loop, consume, hr, hw, show i < n by omega]
  | x :: pre, s, hn, h0, hpre => by
    have hw : getRowsWanted limit s.flushed ≠ 0 := by simp only [getRowsWanted, h0]; omega
    have hsep : separator limit s.flushed s.i n = [[',']] := by
      simp only [separator, hw, ne_eq, not_false_eq_true, true_and, List.length_cons] at hn ⊢
      rw [if_pos (by omega)]
    rw [List.cons_append, loop_step J _ (by simp only [List.length_cons] at hn; omega) hw
      (consume_unlimited J hl n s (hpre x (List.mem_cons_self _ _))), hsep,
      loop_unlimited_error hl n hr post pre ⟨s.i + 1, s.flushed, s.writes ++ [joinRows x.rows, [',']]⟩
        (by simp only [List.length_cons] at hn ⊢; omega) h0 fun y hy => hpre y (List.mem_cons_of_mem _ hy)]
    simp only [List.length_cons, List.flatMap_cons, List.append_assoc, List.cons_append,
      List.singleton_append, List.nil_append]
    rw [show s.i + 1 + pre.length = s.i + (pre.length + 1) by omega]

end

end AresBroker.Broker
