import AresBroker.Basic

/-! # Building a non-aggregate query plan

`NewNonAggQueryPlan` makes one scan node per host of the shard assignment,
copying the query and appending the host's shards to the copy's `Shards`.
The copy `q := *qc.AQLQuery` copies the slice header only, so every copy's
`Shards` starts on the caller's backing array, and `append` writes into that
array while it has room. Backing arrays live in a heap.
-/

namespace AresBroker.Broker

/-- A Go slice header: the first `len` elements of the backing array at
address `array`, with room for `cap`. -/
structure SliceHeader where
  array : Nat
  len : Nat
  cap : Nat
  deriving Repr, DecidableEq

/-- Backing arrays by address. -/
abbrev Heap := List (List Int)

/-- The elements a slice shows. -/
def Heap.read (h : Heap) (s : SliceHeader) : List Int :=
  (h.getD s.array []).take s.len

/-- The capacity `growslice` gives a full slice for one more element, before
rounding up to an allocation size class. Only `cap < grow cap` matters here:
a grown array belongs to a single slice. -/
def grow (cap : Nat) : Nat :=
  if cap < 256 then max 1 (2 * cap) else cap + (cap + 3 * 256) / 4

theorem lt_grow (cap : Nat) : cap < grow cap := by
  unfold grow; split <;> omega

/-- `append(s, x)`: in place while `len < cap`, otherwise into a new array. -/
def append (h : Heap) (s : SliceHeader) (x : Int) : Heap × SliceHeader :=
  if s.len < s.cap then
    (h.set s.array ((h.getD s.array []).set s.len x), { s with len := s.len + 1 })
  else
    let c := grow s.cap
    (h ++ [h.read s ++ [x] ++ List.replicate (c - s.len - 1) 0], ⟨h.length, s.len + 1, c⟩)

/-- The fields of `AQLQuery` that the plan reads or writes: the `Expr` of each
dimension, `Limit`, and the shard restriction `Shards`. -/
structure AQLQuery where
  dimensions : List String
  limit : Int
  shards : SliceHeader
  deriving Repr, DecidableEq

/-- A `StreamingScanNode`; its `dataNodeClient` is the same for every node. -/
structure StreamingScanNode where
  query : AQLQuery
  host : Host
  deriving Repr, DecidableEq

/-- The fields of `NonAggQueryPlan` that `NewNonAggQueryPlan` sets; `none` in
`nodes` is a nil pointer. -/
structure NonAggQueryPlan where
  headers : List String
  nodes : List (Option StreamingScanNode)
  limit : Int
  flushed : Int
  deriving Repr, DecidableEq

/-- `for _, shard := range shards { q.Shards = append(q.Shards, int(shard)) }`. -/
def appendShards : Heap → SliceHeader → List UInt32 → Heap × SliceHeader
  | h, s, [] => (h, s)
  | h, s, shard :: rest =>
    let (h, s) := append h s shard.toNat
    appendShards h s rest

/-- The `range` loop over the assignment: the entries in the order `range`
visits them, writing `plan.nodes[i]`. -/
def buildNodes (q : AQLQuery) :
    Heap → Nat → List (Option StreamingScanNode) → List (Host × List UInt32) →
      Heap × List (Option StreamingScanNode)
  | h, _, nodes, [] => (h, nodes)
  | h, i, nodes, (host, shards) :: rest =>
    let (h, s) := appendShards h q.shards shards
    buildNodes q h (i + 1) (nodes.set i (some ⟨{ q with shards := s }, host⟩)) rest

/-- `NewNonAggQueryPlan(qc, topo, client, w)`. `assignment` is what
`util.CalculateShardAssignment(topo)` returns, its entries in `range` order. -/
def newNonAggQueryPlan (q : AQLQuery) (assignment : Except Error (List (Host × List UInt32)))
    (h : Heap) : Heap × NonAggQueryPlan × Option Error :=
  let plan : NonAggQueryPlan := ⟨q.dimensions, [], q.limit, 0⟩
  match assignment with
  | .error e => (h, plan, some e)
  | .ok entries =>
    match buildNodes q h 0 (List.replicate entries.length none) entries with
    | (h, nodes) => (h, { plan with nodes := nodes }, none)

/-- A query whose `Shards` is empty with room for one element, as
`make([]int, 0, 1)` gives it, planned over two hosts holding shards 1 and 2:
both sub-queries end up restricted to shard 2, and none to shard 1. -/
theorem newNonAggQueryPlan_spare_capacity_aliases :
    let q : AQLQuery := ⟨[], -1, ⟨0, 0, 1⟩⟩
    let r := newNonAggQueryPlan q (.ok [(⟨"h1", "h1:9374"⟩, [1]), (⟨"h2", "h2:9374"⟩, [2])]) [[0]]
    r.2.1.nodes.map (Option.map fun n => (n.host.id, r.1.read n.query.shards)) =
      [some ("h1", [2]), some ("h2", [2])] := by
  decide

/-! ## Plans over a query whose `Shards` has no room -/

/-- The slice lies in an array of the heap with room for `cap` elements. -/
def Fits (h : Heap) (s : SliceHeader) : Prop :=
  s.array < h.length ∧ s.len ≤ s.cap ∧ s.cap ≤ (h.getD s.array []).length

instance (h : Heap) (s : SliceHeader) : Decidable (Fits h s) :=
  inferInstanceAs (Decidable (_ ∧ _ ∧ _))

theorem read_length {h : Heap} {s : SliceHeader} (hs : Fits h s) : (h.read s).length = s.len := by
  rw [Heap.read, List.length_take, Nat.min_eq_left (hs.2.1.trans hs.2.2)]

theorem read_of_agree {h h' : Heap} {s : SliceHeader} {a : Nat} (hs : s.array < a)
    (hag : ∀ b < a, h'.getD b [] = h.getD b []) : h'.read s = h.read s := by
  rw [Heap.read, Heap.read, hag _ hs]

theorem take_succ_set {l : List Int} {i : Nat} (hi : i < l.length) (x : Int) :
    (l.set i x).take (i + 1) = l.take i ++ [x] := by
  rw [List.take_succ, List.set_take, List.set_eq_of_length_le (by simp),
    List.getElem?_set_self (by simpa using hi)]
  rfl

theorem append_spec {h : Heap} {s : SliceHeader} (hs : Fits h s) (x : Int) :
    Fits (append h s x).1 (append h s x).2 ∧
    (append h s x).1.read (append h s x).2 = h.read s ++ [x] ∧
    h.length ≤ (append h s x).1.length ∧
    ((s.len < s.cap ∧ (append h s x).2.array = s.array ∧
        ∀ b < h.length, b ≠ s.array → (append h s x).1.getD b [] = h.getD b []) ∨
      ((append h s x).2.array = h.length ∧
        ∀ b < h.length, (append h s x).1.getD b [] = h.getD b [])) := by
  obtain ⟨ha, hlc, hca⟩ := hs
  unfold append
  split_ifs with hlt
  · have hget : (h.set s.array ((h.getD s.array []).set s.len x)).getD s.array [] =
        (h.getD s.array []).set s.len x := by
      simp [List.getElem?_set_self ha]
    refine ⟨⟨by simpa using ha, by simp only; omega, by simp only [hget, List.length_set]; omega⟩,
      ?_, by simp, .inl ⟨hlt, rfl, fun b _ hb => ?_⟩⟩
    · simp only [Heap.read, hget]
      exact take_succ_set (by omega) x
    · simp [List.getElem?_set_ne (Ne.symm hb)]
  · have hr := read_length ⟨ha, hlc, hca⟩
    have hg := lt_grow s.cap
    have hget : (h ++ [h.read s ++ [x] ++ List.replicate (grow s.cap - s.len - 1) 0]).getD h.length [] =
        h.read s ++ [x] ++ List.replicate (grow s.cap - s.len - 1) 0 := by
      rw [List.getD_append_right _ _ _ _ le_rfl]; simp
    refine ⟨⟨by simp, by simp only; omega, by simp only [hget, List.length_append, hr,
      List.length_replicate, List.length_singleton]; omega⟩, ?_, by simp,
      .inr ⟨rfl, fun b hb => List.getD_append _ _ _ _ hb⟩⟩
    show ((h ++ [h.read s ++ [x] ++ List.replicate (grow s.cap - s.len - 1) 0]).getD h.length []).take
      (s.len + 1) = h.read s ++ [x]
    rw [hget, List.take_append_eq_append_take, List.take_of_length_le (by simp [hr]),
      List.length_append, hr, List.length_singleton, Nat.sub_self, List.take_zero, List.append_nil]

theorem appendShards_spec (a : Nat) :
    ∀ (xs : List UInt32) (h : Heap) (s : SliceHeader), Fits h s → a ≤ h.length →
    (s.len = s.cap ∨ a ≤ s.array) →
    Fits (appendShards h s xs).1 (appendShards h s xs).2 ∧
    (appendShards h s xs).1.read (appendShards h s xs).2 = h.read s ++ xs.map (fun x => (x.toNat : Int)) ∧
    a ≤ (appendShards h s xs).1.length ∧
    (∀ b < a, (appendShards h s xs).1.getD b [] = h.getD b []) ∧
    ((appendShards h s xs).2 = s ∨ a ≤ (appendShards h s xs).2.array)
  | [], h, s, hs, ha, _ => ⟨hs, by simp [appendShards], ha, fun _ _ => rfl, .inl rfl⟩
  | x :: xs, h, s, hs, ha, hsa => by
    obtain ⟨hfit, hread, hlen, hcases⟩ := append_spec hs x.toNat
    -- the appended slice lies at or above `a`, and the arrays below `a` are kept
    have hkeep : a ≤ (append h s x.toNat).2.array ∧
        ∀ b < a, (append h s x.toNat).1.getD b [] = h.getD b [] := by
      rcases hcases with ⟨hlt, harr, hsame⟩ | ⟨harr, hsame⟩
      · have : a ≤ s.array := hsa.resolve_left (by omega)
        exact ⟨harr ▸ this, fun b hb => hsame b (by omega) (by omega)⟩
      · exact ⟨harr ▸ ha, fun b hb => hsame b (by omega)⟩
    obtain ⟨hfit', hread', hlen', hsame', hout⟩ :=
      appendShards_spec a xs _ _ hfit (ha.trans hlen) (.inr hkeep.1)
    refine ⟨hfit', ?_, hlen', fun b hb => (hsame' b hb).trans (hkeep.2 b hb), .inr ?_⟩
    · simp only [appendShards, hread', hread, List.map_cons, List.append_assoc, List.singleton_append]
    · rcases hout with h' | h'
      · simp only [appendShards, h']; exact hkeep.1
      · exact h'

theorem buildNodes_cons {q : AQLQuery} {h h' : Heap} {s : SliceHeader} {shards : List UInt32}
    (hr : appendShards h q.shards shards = (h', s)) (done : List StreamingScanNode) (host : Host)
    (rest : List (Host × List UInt32)) :
    buildNodes q h done.length (done.map some ++ List.replicate ((host, shards) :: rest).length none)
        ((host, shards) :: rest) =
      buildNodes q h' (done ++ [StreamingScanNode.mk { q with shards := s } host]).length
        ((done ++ [StreamingScanNode.mk { q with shards := s } host]).map some ++
          List.replicate rest.length none) rest := by
  have hset : (done.map some ++ List.replicate (rest.length + 1) none).set done.length
      (some (StreamingScanNode.mk { q with shards := s } host)) =
      (done ++ [StreamingScanNode.mk { q with shards := s } host]).map some ++
        List.replicate rest.length none := by
    rw [List.set_append_right _ _ (by simp)]
    simp [List.replicate_succ]
  simp only [buildNodes, hr, List.length_cons, List.length_append, List.length_singleton, hset,
    List.length_nil]

theorem buildNodes_full {q : AQLQuery} {h₀ : Heap} (hq : Fits h₀ q.shards)
    (hfull : q.shards.len = q.shards.cap) :
    ∀ (entries : List (Host × List UInt32)) (h : Heap) (done : List StreamingScanNode),
    h₀.length ≤ h.length → (∀ b < h₀.length, h.getD b [] = h₀.getD b []) →
    let r := buildNodes q h done.length (done.map some ++ List.replicate entries.length none) entries
    ∃ new : List StreamingScanNode, r.2 = (done ++ new).map some ∧
      new.map (fun n => (n.host, { n.query with shards := q.shards }, r.1.read n.query.shards)) =
        entries.map (fun e => (e.1, q, h₀.read q.shards ++ e.2.map fun x => (x.toNat : Int))) ∧
      ∀ b < h.length, r.1.getD b [] = h.getD b []
  | [], h, done, _, _ => ⟨[], by simp [buildNodes], by simp, fun _ _ => by simp [buildNodes]⟩
  | (host, shards) :: rest, h, done, hlen, hag => by
    have hfit : Fits h q.shards := by
      obtain ⟨ha, hlc, hca⟩ := hq
      exact ⟨by omega, hlc, by rw [hag _ ha]; exact hca⟩
    obtain ⟨hfit1, hread1, hlen1, hsame1, -⟩ :=
      appendShards_spec h.length shards h q.shards hfit le_rfl (.inl hfull)
    rcases hr : appendShards h q.shards shards with ⟨h1, s1⟩
    rw [hr] at hfit1 hread1 hlen1 hsame1
    dsimp only at hfit1 hread1 hlen1 hsame1
    let n : StreamingScanNode := ⟨{ q with shards := s1 }, host⟩
    obtain ⟨new, hnodes, hmap, hsame⟩ := buildNodes_full hq hfull rest h1 (done ++ [n])
      (hlen.trans hlen1) fun b hb => (hsame1 b (by omega)).trans (hag b hb)
    dsimp only
    rw [buildNodes_cons hr]
    refine ⟨n :: new, by simpa using hnodes, ?_, fun b hb => (hsame b (by omega)).trans (hsame1 b hb)⟩
    rw [List.map_cons, hmap, List.map_cons, read_of_agree hfit1.1 hsame, hread1,
      read_of_agree hq.1 hag]

theorem newNonAggQueryPlan_ok (q : AQLQuery) (entries : List (Host × List UInt32)) (h : Heap) :
    newNonAggQueryPlan q (.ok entries) h =
      ((buildNodes q h 0 (List.replicate entries.length none) entries).1,
        ⟨q.dimensions, (buildNodes q h 0 (List.replicate entries.length none) entries).2, q.limit, 0⟩,
        none) := rfl

/-- When the query's `Shards` has no room left (as a nil slice has none), the
plan has one node per assignment entry, in `range` order, and none is nil;
each node's query is `q` but for `Shards`, which reads `q.Shards` followed by
the entry's shards; and the caller's arrays are unchanged. -/
theorem newNonAggQueryPlan_full_shards (q : AQLQuery) (entries : List (Host × List UInt32))
    (h : Heap) (hq : Fits h q.shards) (hfull : q.shards.len = q.shards.cap) :
    let r := newNonAggQueryPlan q (.ok entries) h
    r.2.2 = none ∧ r.2.1.headers = q.dimensions ∧ r.2.1.limit = q.limit ∧ r.2.1.flushed = 0 ∧
    r.2.1.nodes.map (Option.map fun n => (n.host, { n.query with shards := q.shards },
        r.1.read n.query.shards)) =
      entries.map (fun e => some (e.1, q, h.read q.shards ++ e.2.map fun x => (x.toNat : Int))) ∧
    ∀ b < h.length, r.1.getD b [] = h.getD b [] := by
  obtain ⟨new, hnodes, hmap, hsame⟩ := buildNodes_full hq hfull entries h [] le_rfl (fun _ _ => rfl)
  simp only [List.length_nil, List.map_nil, List.nil_append] at hnodes hmap hsame
  rw [newNonAggQueryPlan_ok]
  refine ⟨rfl, rfl, rfl, rfl, ?_, hsame⟩
  rw [hnodes, List.map_map]
  simpa only [List.map_map] using congrArg (List.map some) hmap

theorem newNonAggQueryPlan_full_shards_of_nil :
    let q : AQLQuery := ⟨["d"], 10, ⟨0, 0, 0⟩⟩
    let entries : List (Host × List UInt32) := [(⟨"h1", "h1:9374"⟩, [1]), (⟨"h2", "h2:9374"⟩, [2])]
    let r := newNonAggQueryPlan q (.ok entries) [[]]
    Fits [[]] q.shards ∧ q.shards.len = q.shards.cap ∧
    r.2.2 = none ∧ r.2.1.headers = q.dimensions ∧ r.2.1.limit = q.limit ∧ r.2.1.flushed = 0 ∧
    r.2.1.nodes.map (Option.map fun n => (n.host, { n.query with shards := q.shards },
        r.1.read n.query.shards)) =
      entries.map (fun e => some (e.1, q, Heap.read [[]] q.shards ++ e.2.map fun x => (x.toNat : Int))) ∧
    ∀ b < List.length [([] : List Int)], r.1.getD b [] = List.getD [[]] b [] :=
  ⟨by decide, rfl, newNonAggQueryPlan_full_shards _ _ _ (by decide) rfl⟩

/-! ## Plans over a query whose `Shards` has room -/

/-- `l` with `xs` written from index `i` on. -/
def writeAt (l : List Int) (i : Nat) (xs : List Int) : List Int :=
  l.take i ++ xs ++ l.drop (i + xs.length)

theorem writeAt_nil (l : List Int) (i : Nat) : writeAt l i [] = l := by
  simp [writeAt]

theorem writeAt_cons {l : List Int} {i : Nat} (hi : i < l.length) (x : Int) (xs : List Int) :
    writeAt (l.set i x) (i + 1) xs = writeAt l i (x :: xs) := by
  simp only [writeAt, take_succ_set hi, List.drop_set_of_lt _ _ (show i < i + 1 + xs.length by omega),
    List.length_cons, List.append_assoc, List.singleton_append, List.cons_append, List.nil_append]
  rw [Nat.add_right_comm, Nat.add_assoc]

theorem length_writeAt {l : List Int} {i : Nat} {xs : List Int} (h : i + xs.length ≤ l.length) :
    (writeAt l i xs).length = l.length := by
  simp only [writeAt, List.length_append, List.length_take, List.length_drop]
  omega

theorem take_writeAt {l : List Int} {i : Nat} (h : i ≤ l.length) (xs : List Int) :
    (writeAt l i xs).take i = l.take i := by
  rw [writeAt, List.append_assoc, List.take_append_of_le_length (by simp; omega),
    List.take_of_length_le (by simp)]

theorem getD_set_of_lt {h : Heap} {a : Nat} (ha : a < h.length) (v : List Int) (b : Nat) :
    (h.set a v).getD b [] = if b = a then v else h.getD b [] := by
  by_cases hb : b = a
  · subst hb; simp [ha]
  · simp [hb, Ne.symm hb, List.getD_eq_getElem?_getD]

theorem appendShards_room :
    ∀ (xs : List UInt32) (h : Heap) (s : SliceHeader), Fits h s → s.len + xs.length ≤ s.cap →
    (appendShards h s xs).2 = { s with len := s.len + xs.length } ∧
    (appendShards h s xs).1.length = h.length ∧
    ∀ b, (appendShards h s xs).1.getD b [] = if b = s.array then
      writeAt (h.getD s.array []) s.len (xs.map fun x => (x.toNat : Int)) else h.getD b []
  | [], h, s, _, _ => ⟨rfl, rfl, fun b => by split_ifs with hb <;> simp [appendShards, hb, writeAt_nil]⟩
  | x :: xs, h, s, hs, hroom => by
    obtain ⟨ha, hlc, hca⟩ := hs
    have hlt : s.len < s.cap := by simp only [List.length_cons] at hroom; omega
    have hget := getD_set_of_lt ha ((h.getD s.array []).set s.len x.toNat)
    have hfit : Fits (h.set s.array ((h.getD s.array []).set s.len x.toNat)) { s with len := s.len + 1 } :=
      ⟨by simpa using ha, by simp only; omega, by simp only [hget, if_true, List.length_set]; omega⟩
    obtain ⟨h₁, h₂, h₃⟩ := appendShards_room xs _ _ hfit (by simp only [List.length_cons] at hroom ⊢; omega)
    simp only [appendShards, append, hlt, if_true] at h₁ h₂ h₃ ⊢
    refine ⟨by rw [h₁]; simp only [List.length_cons]; congr 1; omega, by rw [h₂]; simp, fun b => ?_⟩
    rw [h₃ b]
    split_ifs with hb
    · rw [hget, if_pos rfl, writeAt_cons (by omega), List.map_cons]
    · rw [hget, if_neg hb]

theorem buildNodes_room {q : AQLQuery} :
    ∀ (entries : List (Host × List UInt32)) (h : Heap) (done : List StreamingScanNode),
    Fits h q.shards → (∀ e ∈ entries, q.shards.len + e.2.length ≤ q.shards.cap) →
    let r := buildNodes q h done.length (done.map some ++ List.replicate entries.length none) entries
    ∃ new : List StreamingScanNode, r.2 = (done ++ new).map some ∧
      new.map (fun n => (n.host, n.query)) = entries.map (fun e =>
        (e.1, { q with shards := { q.shards with len := q.shards.len + e.2.length } })) ∧
      r.1.getD q.shards.array [] = entries.foldl (fun arr e =>
        writeAt arr q.shards.len (e.2.map fun x => (x.toNat : Int))) (h.getD q.shards.array [])
  | [], h, done, _, _ => ⟨[], by simp [buildNodes], by simp, by simp [buildNodes]⟩
  | (host, shards) :: rest, h, done, hq, hroom => by
    have hroom₁ := hroom (host, shards) (List.mem_cons_self _ _)
    obtain ⟨h₁, h₂, h₃⟩ := appendShards_room shards h q.shards hq hroom₁
    rcases hr : appendShards h q.shards shards with ⟨h1, s1⟩
    rw [hr] at h₁ h₂ h₃
    dsimp only at h₁ h₂ h₃
    subst h₁
    have hfit : Fits h1 q.shards := by
      obtain ⟨ha, hlc, hca⟩ := hq
      refine ⟨h₂ ▸ ha, hlc, ?_⟩
      rw [h₃, if_pos rfl, length_writeAt (by rw [List.length_map]; exact hroom₁.trans hca)]
      exact hca
    let n : StreamingScanNode :=
      ⟨{ q with shards := { q.shards with len := q.shards.len + shards.length } }, host⟩
    obtain ⟨new, hnodes, hmap, harr⟩ := buildNodes_room rest h1 (done ++ [n]) hfit
      fun e he => hroom e (List.mem_cons_of_mem _ he)
    dsimp only
    rw [buildNodes_cons hr]
    refine ⟨n :: new, by simpa using hnodes, ?_, ?_⟩
    · rw [List.map_cons, hmap, List.map_cons]
    · rw [harr, h₃, if_pos rfl, List.foldl_cons]

theorem foldl_writeAt {len : Nat} :
    ∀ (entries : List (Host × List UInt32)) (arr : List Int),
    (∀ e ∈ entries, len + e.2.length ≤ arr.length) →
    let final := entries.foldl (fun arr e => writeAt arr len (e.2.map fun x => (x.toNat : Int))) arr
    final.length = arr.length ∧ final.take len = arr.take len
  | [], arr, _ => ⟨rfl, rfl⟩
  | e :: rest, arr, hroom => by
    have he := hroom e (List.mem_cons_self _ _)
    have hlen : (writeAt arr len (e.2.map fun x => (x.toNat : Int))).length = arr.length :=
      length_writeAt (by rw [List.length_map]; exact he)
    obtain ⟨h₁, h₂⟩ := foldl_writeAt rest (writeAt arr len (e.2.map fun x => (x.toNat : Int)))
      fun e' he' => hlen ▸ hroom e' (List.mem_cons_of_mem _ he')
    exact ⟨h₁.trans hlen, h₂.trans (take_writeAt (by omega) _)⟩

/-- When `q.Shards` has room for every host's shards, as `make([]int, 0, c)`
with `c` large enough gives, every node's `Shards` lies on the caller's array,
which the appends of all hosts overwrite in turn after its first `len`
elements: each node reads `q.Shards` followed by what the last host to write
each position left there, not its own shards. -/
theorem newNonAggQueryPlan_shared_shards (q : AQLQuery) (entries : List (Host × List UInt32))
    (h : Heap) (hq : Fits h q.shards)
    (hroom : ∀ e ∈ entries, q.shards.len + e.2.length ≤ q.shards.cap) :
    let r := newNonAggQueryPlan q (.ok entries) h
    let final := entries.foldl (fun arr e => writeAt arr q.shards.len (e.2.map fun x => (x.toNat : Int)))
      (h.getD q.shards.array [])
    final.take q.shards.len = h.read q.shards ∧
    r.2.1.nodes.map (Option.map fun n => (n.host, n.query.shards.array, r.1.read n.query.shards)) =
      entries.map (fun e => some (e.1, q.shards.array, final.take (q.shards.len + e.2.length))) := by
  obtain ⟨new, hnodes, hmap, harr⟩ := buildNodes_room entries h [] hq hroom
  simp only [List.length_nil, List.map_nil, List.nil_append] at hnodes harr
  refine ⟨(foldl_writeAt entries _ fun e he => (hroom e he).trans hq.2.2).2, ?_⟩
  rw [newNonAggQueryPlan_ok, hnodes, List.map_map]
  have := congrArg (List.map fun (p : Host × AQLQuery) =>
    some (p.1, p.2.shards.array, (Heap.read (buildNodes q h 0 (List.replicate entries.length none) entries).1
      p.2.shards))) hmap
  simp only [List.map_map] at this
  refine (List.map_congr_left fun n _ => rfl).trans (this.trans (List.map_congr_left fun e _ => ?_))
  simp only [Function.comp, Heap.read, harr]

theorem newNonAggQueryPlan_shared_shards_of_two :
    let q : AQLQuery := ⟨[], -1, ⟨0, 0, 2⟩⟩
    let entries : List (Host × List UInt32) := [(⟨"h1", "h1:9374"⟩, [1]), (⟨"h2", "h2:9374"⟩, [2])]
    let r := newNonAggQueryPlan q (.ok entries) [[0, 0]]
    let final := entries.foldl (fun arr e => writeAt arr q.shards.len (e.2.map fun x => (x.toNat : Int)))
      (List.getD [[0, 0]] q.shards.array [])
    Fits [[0, 0]] q.shards ∧ (∀ e ∈ entries, q.shards.len + e.2.length ≤ q.shards.cap) ∧
    final.take q.shards.len = Heap.read [[0, 0]] q.shards ∧
    r.2.1.nodes.map (Option.map fun n => (n.host, n.query.shards.array, r.1.read n.query.shards)) =
      entries.map (fun e => some (e.1, q.shards.array, final.take (q.shards.len + e.2.length))) :=
  ⟨by decide, by decide, newNonAggQueryPlan_shared_shards _ _ _ (by decide) (by decide)⟩

end AresBroker.Broker
