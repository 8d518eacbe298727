import AresBroker.Broker.Fanout

/-! # Every message is delivered once

Each worker sends one message, built from what its own node returned, and the
unbuffered `resultChan` hands it to the reducer at most once. So in every
interleaving the bodies the reducer has received are those of distinct nodes,
one per worker past its send, in the order received: nothing is lost
between a completed send and the reducer, and nothing is received twice.
-/

namespace AresBroker.Broker

section
variable {Row : Type} (J : RowCodec Row) (limit : Int) (w : Nat → Option Error)
  (node : Nat → Option (List Bytes) × Option Error)

/-- The body a worker holds or sends is its node's, and the bodies received
are those of the workers past their send, each once, in the order received. -/
structure Fanout.Delivered (s : Fanout) : Prop where
  fetched : ∀ k bs, s.workers[k]? = some (.fetched bs) → bs = (node k).1
  sending : ∀ k m, s.workers[k]? = some (.sending m) → m.data = (node k).1
  received : ∃ ks : List Nat, ks.Nodup ∧ (∀ k, k ∈ ks ↔ s.workers[k]? = some .sent) ∧
    s.received.map (·.data) = ks.map fun k => (node k).1

theorem Fanout.delivered_init (n : Nat) : (Fanout.init n).Delivered node where
  fetched k bs h := by simp [Fanout.init, List.getElem?_replicate] at h
  sending k m h := by simp [Fanout.init, List.getElem?_replicate] at h
  received := ⟨[], List.nodup_nil, fun k => by simp [Fanout.init, List.getElem?_replicate], rfl⟩

theorem Fanout.Delivered.workers_set {s : Fanout} {k : Nat} {pc : WorkerPc} (hs : s.Delivered node)
    (hk : s.workers[k]? = some pc) (pc' : WorkerPc)
    (hfetched : ∀ bs, pc' = .fetched bs → bs = (node k).1)
    (hsending : ∀ m, pc' = .sending m → m.data = (node k).1) :
    (∀ j bs, (s.workers.set k pc')[j]? = some (.fetched bs) → bs = (node j).1) ∧
      ∀ j m, (s.workers.set k pc')[j]? = some (.sending m) → m.data = (node j).1 := by
  refine ⟨fun j bs hj => ?_, fun j m hj => ?_⟩ <;> rw [getElem?_set_of_eq_some hk] at hj <;>
    split_ifs at hj with hjk
  · subst hjk; exact hfetched bs (Option.some.inj hj)
  · exact hs.fetched j bs hj
  · subst hjk; exact hsending m (Option.some.inj hj)
  · exact hs.sending j m hj

theorem Fanout.Delivered.set_worker {s : Fanout} {k : Nat} {pc pc' : WorkerPc}
    {err : Option Error} (hs : s.Delivered node) (hk : s.workers[k]? = some pc)
    (hpc : pc ≠ .sent) (hpc' : pc' ≠ .sent)
    (hfetched : ∀ bs, pc' = .fetched bs → bs = (node k).1)
    (hsending : ∀ m, pc' = .sending m → m.data = (node k).1) :
    ({ s with workers := s.workers.set k pc', err := err } : Fanout).Delivered node := by
  obtain ⟨hf, hsd⟩ := hs.workers_set node hk pc' hfetched hsending
  obtain ⟨ks, hnodup, hks, hdata⟩ := hs.received
  refine ⟨hf, hsd, ks, hnodup, fun j => ?_, hdata⟩
  rw [getElem?_set_of_eq_some hk, hks]
  split_ifs with hjk
  · subst hjk; simp [hk, hpc, hpc']
  · rfl

/-- Every step keeps `Delivered`. -/
theorem Fanout.Delivered.step {s s' : Fanout} (hs : s.Delivered node)
    (h : Step J limit w node s s') : s'.Delivered node := by
  cases h with
  | fetch hk => exact hs.set_worker node hk (by simp) (by simp) (by simp) (by simp)
  | @prepare k bs hk =>
    exact hs.set_worker node hk (by simp) (by simp) (by simp) fun m hm => by
      cases hm; exact hs.fetched k bs hk
  | @receive k res _ _ _ hk =>
    obtain ⟨hf, hsd⟩ := hs.workers_set node hk .sent (by simp) (by simp)
    obtain ⟨ks, hnodup, hks, hdata⟩ := hs.received
    have hnew : k ∉ ks := by rw [hks, hk]; simp
    refine ⟨hf, hsd, ks ++ [k], hnodup.append (List.nodup_singleton k) (List.disjoint_singleton.mpr hnew),
      fun j => ?_, by simp [hdata, hs.sending k res hk]⟩
    rw [getElem?_set_of_eq_some hk, List.mem_append, List.mem_singleton, hks]
    split_ifs with hjk
    · simp [hjk]
    · simp [Ne.symm hjk]
  | exit | reduce => exact ⟨hs.fetched, hs.sending, hs.received⟩

theorem Fanout.Delivered.steps {s s' : Fanout} (hs : s.Delivered node)
    (h : Steps J limit w node s s') : s'.Delivered node := by
  induction h with
  | refl => exact hs
  | tail _ hst ih => exact ih.step J limit w node hst

/-- In every interleaving, the bodies the reducer has received are, in the
order received, the bodies of distinct nodes, exactly those of the workers
past their send: a completed send is never lost and no body is received
twice. -/
theorem fanout_received_distinct_nodes {n : Nat} {s : Fanout} (hs : Reachable J limit w node n s) :
    ∃ ks : List Nat, ks.Nodup ∧ (∀ k, k ∈ ks ↔ s.workers[k]? = some .sent) ∧
      s.received.map (·.data) = ks.map fun k => (node k).1 :=
  ((Fanout.delivered_init node n).steps J limit w node hs).received

theorem fanout_received_distinct_nodes_of_twoBodies :
    Reachable verbatim (-1) (fun _ => none) twoBodies 2 twoBodiesReturned ∧
    ∃ ks : List Nat, ks.Nodup ∧ (∀ k, k ∈ ks ↔ twoBodiesReturned.workers[k]? = some .sent) ∧
      twoBodiesReturned.received.map (·.data) = ks.map fun k => (twoBodies k).1 :=
  ⟨reachable_twoBodies, fanout_received_distinct_nodes verbatim (-1) (fun _ => none) twoBodies
    reachable_twoBodies⟩

end

end AresBroker.Broker
