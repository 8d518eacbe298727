import AresBroker.Topology.Validate

/-! # The dynamic topology watcher

`newDynamicTopology` blocks on the first placement value and fails unless it
is accepted; the goroutine running `run` then consumes watch notifications,
publishing the map of every accepted value and keeping the previous map
otherwise. The watcher is a state machine over the events it observes:
`run`'s test of `isClosed()`, the notifications and the closing of the watch
channel, and `Close()` from another goroutine, which can come between the
test and the receive.
-/

namespace AresBroker.Topology

/-- What happens to a dynamic topology after initialization. -/
inductive WatchEvent where
  /-- `run` tests `!t.isClosed()` and, when it holds, goes on to its receive. -/
  | check
  /-- A notification on `watch.C()`, after which `watch.Get()` returns `value`. -/
  | update (value : Option Service)
  /-- `watch.C()` is closed. -/
  | channelClosed
  /-- Another goroutine calls `Close()`. -/
  | close
  deriving Repr, DecidableEq

/-- Where the goroutine running `run` is. -/
inductive LoopStatus where
  /-- At the loop's test `!t.isClosed()`. -/
  | head
  /-- Past the test, at the receive `<-t.watch.C()`. -/
  | waiting
  | stopped
  /-- A panic escaped `run`, which ends the process. -/
  | crashed
  deriving Repr, DecidableEq

/-- `dynamicTopology`: the value held by `watchable`, the `closed` flag, and
where its `run` goroutine is. -/
structure DynamicTopology where
  watchable : StaticMap
  closed : Bool
  status : LoopStatus
  deriving Repr, DecidableEq

section
variable (newHostShardSet : ServiceInstance → Except Error HostShardSet)

/-- `newDynamicTopology`, from the first value the watch delivers. -/
def newDynamicTopology (initial : Option Service) : Result DynamicTopology :=
  (getMapFromUpdate newHostShardSet initial).bind fun m => .ok ⟨m, false, .head⟩

/-- The body of `run`'s loop after a value was received: `getMapFromUpdate`,
then `watchable.Update(m)` on success; on an error the value is logged and
skipped. -/
def update (t : DynamicTopology) (v : Option Service) : DynamicTopology :=
  match getMapFromUpdate newHostShardSet v with
  | .ok m => { t with watchable := m }
  | .error _ => t
  | .panic => { t with status := .crashed }

/-- The next notification is read: `run` waits at its receive, or is at its
test and `Close()` has not run. -/
def DynamicTopology.Observing (t : DynamicTopology) : Prop :=
  t.status = .waiting ∨ (t.status = .head ∧ t.closed = false)

instance (t : DynamicTopology) : Decidable t.Observing :=
  inferInstanceAs (Decidable (_ ∨ _))

/-- One event. A notification while `run` is at its test is the test, the
receive and the loop body in a row; `check` is the test alone, after which a
`Close()` no longer stops the receive. -/
def step (t : DynamicTopology) : WatchEvent → DynamicTopology
  | .close => { t with closed := true }
  | .check =>
    if t.status = .head then { t with status := if t.closed then .stopped else .waiting } else t
  | .update v =>
    if t.Observing then update newHostShardSet { t with status := .head } v
    else if t.status = .head then { t with status := .stopped } else t
  | .channelClosed =>
    if t.status = .head ∨ t.status = .waiting then { t with closed := true, status := .stopped }
    else t

/-- `run`'s loop, with the other goroutines' `Close()` calls, over a sequence
of events. -/
def run (t : DynamicTopology) (events : List WatchEvent) : DynamicTopology :=
  events.foldl (step newHostShardSet) t

/-- The values the loop reads through `watch.Get()`, in order. -/
def observed : DynamicTopology → List WatchEvent → List (Option Service)
  | _, [] => []
  | t, e :: es =>
    (match e with
      | .update v => if t.Observing then [v] else []
      | _ => []) ++ observed (step newHostShardSet t e) es

/-- The map of the last of `vs` that `getMapFromUpdate` accepts, `m` if none. -/
def lastAccepted (m : StaticMap) (vs : List (Option Service)) : StaticMap :=
  vs.foldl (fun m v => match getMapFromUpdate newHostShardSet v with
    | .ok m' => m'
    | _ => m) m

theorem lastAccepted_append (m : StaticMap) (vs ws : List (Option Service)) :
    lastAccepted newHostShardSet m (vs ++ ws) =
      lastAccepted newHostShardSet (lastAccepted newHostShardSet m vs) ws :=
  List.foldl_append _ _ _ _

theorem update_watchable (t : DynamicTopology) (v : Option Service) :
    (update newHostShardSet t v).watchable = lastAccepted newHostShardSet t.watchable [v] := by
  unfold update lastAccepted
  split <;> simp_all

theorem step_watchable (t : DynamicTopology) (e : WatchEvent) :
    (step newHostShardSet t e).watchable =
      lastAccepted newHostShardSet t.watchable (observed newHostShardSet t [e]) := by
  cases e with
  | update v =>
    by_cases h : t.Observing
    · simp [step, observed, h, update_watchable]
    · unfold step observed
      split_ifs <;> rfl
  | check | channelClosed => unfold step; split_ifs <;> rfl
  | close => rfl

theorem observed_cons (t : DynamicTopology) (e : WatchEvent) (es : List WatchEvent) :
    observed newHostShardSet t (e :: es) =
      observed newHostShardSet t [e] ++ observed newHostShardSet (step newHostShardSet t e) es := by
  simp [observed]

/-- Over a whole run, the published map is the last accepted value among all
the values the loop observed, or the map it started with. -/
theorem run_watchable (t : DynamicTopology) (events : List WatchEvent) :
    (run newHostShardSet t events).watchable =
      lastAccepted newHostShardSet t.watchable (observed newHostShardSet t events) := by
  induction events generalizing t with
  | nil => rfl
  | cons e es ih =>
    rw [observed_cons, lastAccepted_append, ← step_watchable]
    exact ih (step newHostShardSet t e)

theorem step_rejected {t : DynamicTopology} {v : Option Service} {e : Error}
    (hv : getMapFromUpdate newHostShardSet v = .error e) (ht : t.Observing) :
    step newHostShardSet t (.update v) = { t with status := .head } := by
  simp [step, ht, update, hv]

theorem lastAccepted_mem (m : StaticMap) (vs : List (Option Service)) :
    lastAccepted newHostShardSet m vs = m ∨
      ∃ v ∈ vs, getMapFromUpdate newHostShardSet v = .ok (lastAccepted newHostShardSet m vs) := by
  induction vs generalizing m with
  | nil => exact .inl rfl
  | cons v vs ih =>
    simp only [lastAccepted, List.foldl_cons] at ih ⊢
    cases hv : getMapFromUpdate newHostShardSet v with
    | ok m' =>
      rcases ih m' with h | ⟨w, hw, hw'⟩
      · exact .inr ⟨v, List.mem_cons_self _ _, by simpa [h] using hv⟩
      · exact .inr ⟨w, List.mem_cons_of_mem _ hw, hw'⟩
    | error | panic =>
      rcases ih m with h | ⟨w, hw, hw'⟩
      · exact .inl h
      · exact .inr ⟨w, List.mem_cons_of_mem _ hw, hw'⟩

/-- The placement with no shards and no instances, which is accepted. -/
def emptyPlacement : Option Service := some ⟨some 1, some 0, some []⟩

/-- A placement of one shard that no instance holds, rejected with
`errMissingShard`. -/
def missingPlacement : Option Service := some ⟨some 1, some 1, some []⟩

/-- A `NewHostShardSetFromServiceInstance` that takes the host from the
instance's id and endpoint and marks its shards available. -/
def availableHostShardSet (i : ServiceInstance) : Except Error HostShardSet :=
  .ok ⟨⟨i.instanceID, i.endpoint⟩, (i.shards.getD []).map fun id => ⟨id, .available⟩⟩

/-- A rejected value, then a `Close()` that comes after `run`'s test: the loop
still reads the next value and publishes it. -/
def closeRace : List WatchEvent := [.update missingPlacement, .check, .close, .update emptyPlacement]

/-- How many more values a closed loop can read: the one it waits for. -/
def LoopStatus.pending : LoopStatus → Nat
  | .waiting => 1
  | _ => 0

theorem step_closed {t : DynamicTopology} (h : t.closed = true) (e : WatchEvent) :
    (step newHostShardSet t e).closed = true ∧
      (observed newHostShardSet t [e]).length + (step newHostShardSet t e).status.pending ≤
        t.status.pending := by
  cases e with
  | update v =>
    cases hs : t.status <;> simp [step, observed, DynamicTopology.Observing, h, hs, LoopStatus.pending]
    -- waiting: the value is read, and `run` is back at its test or crashed
    unfold update
    split <;> simp [h, LoopStatus.pending]
  | check | channelClosed | close =>
    cases hs : t.status <;> simp [step, observed, h, hs, LoopStatus.pending]

/-- `dynamicInitializer`: the topology a successful `Init()` stored. -/
structure DynamicInitializer where
  topo : Option DynamicTopology
  deriving Repr, DecidableEq

/-- `NewDynamicInitializer(opts)`. -/
def newDynamicInitializer : DynamicInitializer := ⟨none⟩

/-- `Init()`, which holds the initializer's mutex throughout; `initial` is the
first value the watch delivers to the `newDynamicTopology` it would start.
A panic in `newDynamicTopology` unwinds through the deferred `Unlock`. -/
def DynamicInitializer.init (i : DynamicInitializer) (initial : Option Service) :
    Result DynamicTopology × DynamicInitializer :=
  match i.topo with
  | some t => (.ok t, i)
  | none =>
    match newDynamicTopology newHostShardSet initial with
    | .ok t => (.ok t, ⟨some t⟩)
    | .error e => (.error e, i)
    | .panic => (.panic, i)

/-- `Init()` called once per value, one after the other as the mutex orders
them; the results in order and the initializer after the last. -/
def initAll (i : DynamicInitializer) : List (Option Service) →
    List (Result DynamicTopology) × DynamicInitializer
  | [] => ([], i)
  | v :: vs =>
    let (r, i') := i.init newHostShardSet v
    let (rs, i'') := initAll i' vs
    (r :: rs, i'')

/-- `newDynamicTopology` succeeded on `v`. -/
def Succeeds (v : Option Service) : Prop := ∃ t, newDynamicTopology newHostShardSet v = .ok t

theorem initAll_set {t : DynamicTopology} (vs : List (Option Service)) :
    initAll newHostShardSet ⟨some t⟩ vs = (List.replicate vs.length (.ok t), ⟨some t⟩) := by
  induction vs with
  | nil => rfl
  | cons v vs ih => simp [initAll, DynamicInitializer.init, ih, List.replicate_succ]

theorem initAll_new_cons {v : Option Service} (hv : ¬ Succeeds newHostShardSet v)
    (vs : List (Option Service)) :
    initAll newHostShardSet newDynamicInitializer (v :: vs) =
      (newDynamicTopology newHostShardSet v :: (initAll newHostShardSet newDynamicInitializer vs).1,
        (initAll newHostShardSet newDynamicInitializer vs).2) := by
  cases h : newDynamicTopology newHostShardSet v with
  | ok t => exact absurd ⟨t, h⟩ hv
  | error | panic => simp [initAll, DynamicInitializer.init, newDynamicInitializer, h]

/-- Over any sequence of `Init()` calls on a new initializer, each call runs
`newDynamicTopology` until one succeeds: the calls before it return their
own error or panic and store nothing, and that call and every later one
return the topology it created, which the initializer keeps; later values
are never read. -/
theorem init_returns_first_topology (calls : List (Option Service)) :
    (∀ v ∈ calls, ¬ Succeeds newHostShardSet v) ∧
      initAll newHostShardSet newDynamicInitializer calls =
        (calls.map (newDynamicTopology newHostShardSet), newDynamicInitializer) ∨
    ∃ pre v rest t, calls = pre ++ v :: rest ∧ (∀ u ∈ pre, ¬ Succeeds newHostShardSet u) ∧
      newDynamicTopology newHostShardSet v = .ok t ∧
      initAll newHostShardSet newDynamicInitializer calls =
        (pre.map (newDynamicTopology newHostShardSet) ++ List.replicate (rest.length + 1) (.ok t),
          ⟨some t⟩) := by
  induction calls with
  | nil => exact .inl ⟨by simp, rfl⟩
  | cons v vs ih =>
    by_cases hv : Succeeds newHostShardSet v
    · obtain ⟨t, ht⟩ := hv
      refine .inr ⟨[], v, vs, t, rfl, by simp, ht, ?_⟩
      simp [initAll, DynamicInitializer.init, newDynamicInitializer, ht, initAll_set,
        List.replicate_succ]
    · rw [initAll_new_cons newHostShardSet hv]
      rcases ih with ⟨hall, hrun⟩ | ⟨pre, u, rest, t, rfl, hpre, hu, hrun⟩
      · exact .inl ⟨List.forall_mem_cons.mpr ⟨hv, hall⟩, by simp [hrun]⟩
      · exact .inr ⟨v :: pre, u, rest, t, rfl, List.forall_mem_cons.mpr ⟨hv, hpre⟩, hu,
          by simp [hrun]⟩

/-- A placement whose shard count is negative: `validateInstances` reaches
`make([]uint32, numShards)` with a negative length. -/
def negativePlacement : Option Service := some ⟨some 1, some (-1), some []⟩

theorem getMapFromUpdate_negativePlacement :
    getMapFromUpdate newHostShardSet negativePlacement = .panic := rfl

theorem run_crashed {t : DynamicTopology} (h : t.status = .crashed) (events : List WatchEvent) :
    (run newHostShardSet t events).status = .crashed ∧ observed newHostShardSet t events = [] := by
  induction events generalizing t with
  | nil => exact ⟨h, rfl⟩
  | cons e es ih =>
    have hs : (step newHostShardSet t e).status = .crashed := by
      cases e <;> simp [step, h, DynamicTopology.Observing]
    have ho : observed newHostShardSet t [e] = [] := by
      cases e <;> simp [observed, h, DynamicTopology.Observing]
    rw [observed_cons, ho]
    exact ih hs

theorem run_negativePlacement {t : DynamicTopology} (ht : t.Observing)
    (events : List WatchEvent) :
    (run newHostShardSet t (.update negativePlacement :: events)).status = .crashed ∧
    observed newHostShardSet t (.update negativePlacement :: events) = [negativePlacement] := by
  have hstep : step newHostShardSet t (.update negativePlacement) =
      { t with status := .crashed } := by
    simp [step, ht, update, getMapFromUpdate_negativePlacement]
  obtain ⟨hs, ho⟩ := run_crashed newHostShardSet (t := { t with status := .crashed }) rfl events
  rw [observed_cons]
  simp only [run, List.foldl_cons] at hs ⊢
  rw [hstep]
  exact ⟨hs, by rw [ho]; simp [observed, ht]⟩

theorem topology_crashes_on_negative_shard_count :
    ∃ t₀, newDynamicTopology newHostShardSet emptyPlacement = .ok t₀ ∧
      (run newHostShardSet t₀ [.update negativePlacement, .update emptyPlacement]).status =
        .crashed ∧
      observed newHostShardSet t₀ [.update negativePlacement, .update emptyPlacement] =
        [negativePlacement] :=
  ⟨_, rfl, run_negativePlacement newHostShardSet (.inr ⟨rfl, rfl⟩) _⟩

end

end AresBroker.Topology
