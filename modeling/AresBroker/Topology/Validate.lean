import AresBroker.Basic

/-! # Validation of a placement

`validateInstances` counts every shard ID across the instances of a placement,
then walks the shard IDs `0, 1, …, numShards - 1`, requiring each to be held
often enough and deleting it from the count map; whatever is left over was
never expected. `getStaticOptions` wraps it with the nil checks on the
service, and `getMapFromUpdate` turns the options into a topology map.
-/

namespace AresBroker.Topology

/-- A `services.ServiceInstance`, as far as the topology package reads it.
`shards` is `Shards().All()` by ID, `none` when `Shards()` is nil. -/
structure ServiceInstance where
  instanceID : String
  endpoint : String
  shards : Option (List UInt32)
  deriving Repr, DecidableEq

/-- A `services.Service`: `Replication().Replicas()`, `Sharding().NumShards()`
and `Instances()`, each `none` when the accessor returns nil. -/
structure Service where
  replication : Option Int
  sharding : Option Int
  instances : Option (List ServiceInstance)
  deriving Repr, DecidableEq

/-- The count map `m := make(map[uint32]int)`. -/
abbrev CountMap := AList (fun _ : UInt32 => Nat)

/-- `m[id] = m[id] + 1`, a missing key reading as zero. -/
def bump (m : CountMap) (id : UInt32) : CountMap :=
  m.insert id ((m.lookup id).getD 0 + 1)

/-- The first loop of `validateInstances`; `none` is the early return on an
instance whose shard list is nil. -/
def countShards : List ServiceInstance → CountMap → Option CountMap
  | [], m => some m
  | i :: rest, m =>
    match i.shards with
    | none => none
    | some ids => countShards rest (ids.foldl bump m)

/-- The second loop of `validateInstances` from index `i`, with `k` iterations
left; `s` holds the entries `s[0..i)` written so far. -/
def checkShards (replicas : Int) : Nat → Nat → CountMap → List UInt32 →
    Except Error (CountMap × List UInt32)
  | _, 0, m, s => .ok (m, s)
  | i, k + 1, m, s =>
    let expectShard := UInt32.ofNat i
    match m.lookup expectShard with
    | none => .error .errMissingShard
    | some count =>
      if (count : Int) < replicas then .error .errNotEnoughReplicasForShard
      else checkShards replicas (i + 1) k (m.erase expectShard) (s ++ [expectShard])

/-- `runtime.maxAlloc` on 64-bit Linux: `make` panics with "len out of range"
when the slice would take more bytes than this. -/
def maxAlloc : Int := 2 ^ 48

/-- `validateInstances(instances, replicas, numShards)`. `make([]uint32,
numShards)` panics on a negative length and on one of more than
`maxAlloc / 4` elements. -/
def validateInstances (instances : List ServiceInstance) (replicas numShards : Int) :
    Result (List UInt32) :=
  match countShards instances ∅ with
  | none => .error .errInstanceHasNoShardsAssignment
  | some m =>
    if numShards < 0 ∨ maxAlloc < 4 * numShards then .panic
    else
      match checkShards replicas 0 numShards.toNat m [] with
      | .error e => .error e
      | .ok (m, s) => if 0 < m.keys.length then .error .errUnexpectedShard else .ok s

/-! ## The count map -/

/-- `m` holds, under every key, its count `f k`, and holds no key of count zero. -/
def Holds (m : CountMap) (f : UInt32 → Nat) : Prop :=
  ∀ k, m.lookup k = if f k = 0 then none else some (f k)

theorem holds_empty : Holds ∅ (fun _ => 0) := fun _ => rfl

theorem holds_bump {m : CountMap} {f : UInt32 → Nat} (h : Holds m f) (id : UInt32) :
    Holds (bump m id) (fun k => f k + if id = k then 1 else 0) := by
  intro k
  by_cases hk : k = id
  · subst hk
    cases hf : f k <;> simp [bump, h k, hf]
  · simp [bump, AList.lookup_insert_ne hk, h k, Ne.symm hk]

theorem holds_foldl {m : CountMap} {f : UInt32 → Nat} (h : Holds m f) (ids : List UInt32) :
    Holds (ids.foldl bump m) (fun k => f k + ids.count k) := by
  induction ids generalizing m f with
  | nil => simpa using h
  | cons id ids ih =>
    have := ih (holds_bump h id)
    simpa only [List.foldl_cons, List.count_cons, beq_iff_eq, Nat.add_assoc,
      Nat.add_comm (if id = _ then 1 else 0)] using this

/-- Every shard ID the instances list, `none` when some shard list is nil. -/
def allShardIDs (instances : List ServiceInstance) : Option (List UInt32) :=
  (instances.mapM ServiceInstance.shards).map List.flatten

theorem countShards_eq (instances : List ServiceInstance) (m : CountMap) :
    countShards instances m = (allShardIDs instances).map (·.foldl bump m) := by
  induction instances generalizing m with
  | nil => rfl
  | cons i rest ih =>
    cases hi : i.shards with
    | none => rw [allShardIDs, List.mapM_cons, hi]; simp [countShards, hi]
    | some ids =>
      simp only [countShards, hi, ih, allShardIDs, List.mapM_cons, Option.map_map]
      cases (rest.mapM ServiceInstance.shards) <;> simp [List.foldl_append]

/-- `c(i)`: how often the natural number `i` occurs among the shard IDs. -/
def occurrences (ids : List UInt32) (i : Nat) : Nat :=
  ids.countP (fun id => id.toNat = i)

@[simp] theorem toNat_ofNat (n : Nat) : (UInt32.ofNat n).toNat = n % 2 ^ 32 := by
  simp [UInt32.toNat, UInt32.ofNat]

theorem toNat_ofNat_of_lt {n : Nat} (h : n < 2 ^ 32) : (UInt32.ofNat n).toNat = n := by
  rw [toNat_ofNat, Nat.mod_eq_of_lt h]

theorem count_eq_occurrences (ids : List UInt32) (k : UInt32) :
    ids.count k = occurrences ids k.toNat := by
  simp only [List.count, occurrences]
  congr
  funext id
  exact Bool.eq_iff_iff.mpr (by simpa using ⟨congrArg UInt32.toNat, UInt32.toNat.inj⟩)

theorem occurrences_of_large {ids : List UInt32} {i : Nat} (hi : 2 ^ 32 ≤ i) :
    occurrences ids i = 0 :=
  List.countP_eq_zero.mpr fun id _ h => by
    have := id.toNat_lt_size
    simp only [decide_eq_true_eq] at h
    simp only [UInt32.size] at this
    omega

theorem holds_erase {m : CountMap} {f : UInt32 → Nat} (h : Holds m f) (k₀ : UInt32) :
    Holds (m.erase k₀) (fun k => if k = k₀ then 0 else f k) := by
  intro k
  by_cases hk : k = k₀
  · subst hk; simp [AList.lookup_erase]
  · simp [hk, AList.lookup_erase_ne hk, h k]

/-! ## The shard walk -/

/-- Whether shard `i` stops the second loop: not listed, or listed fewer than
`replicas` times. -/
def shortOf (ids : List UInt32) (replicas : Int) (i : Nat) : Bool :=
  occurrences ids i = 0 || decide ((occurrences ids i : Int) < replicas)

/-- The error the second loop returns at a shard that stops it. -/
def shortError (ids : List UInt32) (i : Nat) : Error :=
  if occurrences ids i = 0 then .errMissingShard else .errNotEnoughReplicasForShard

/-- The counts left in `m` once the shards below `i` have been deleted. -/
def remaining (ids : List UInt32) (i : Nat) (k : UInt32) : Nat :=
  if k.toNat < i then 0 else occurrences ids k.toNat

theorem remaining_succ {ids : List UInt32} {i : Nat} (hi : i < 2 ^ 32) :
    remaining ids (i + 1) = fun k => if k = UInt32.ofNat i then 0 else remaining ids i k := by
  funext k
  have hk : k = UInt32.ofNat i ↔ k.toNat = i :=
    ⟨fun h => by rw [h, toNat_ofNat_of_lt hi],
      fun h => UInt32.toNat.inj (by rw [toNat_ofNat_of_lt hi, h])⟩
  by_cases h : k.toNat = i
  · simp [remaining, hk, h]
  · simp only [remaining, hk, h, if_false]
    split_ifs <;> omega

/-- The second loop from shard `i` for `k` iterations stops at the first short
shard with its error, and otherwise deletes shards `i, …, i + k - 1` and
records them in `s`. Past `2 ^ 32` the IDs wrap onto deleted keys, so the walk
never gets beyond shard `2 ^ 32`. -/
theorem checkShards_eq (ids : List UInt32) (replicas : Int) :
    ∀ (k i : Nat) (m : CountMap) (s : List UInt32), i ≤ 2 ^ 32 → Holds m (remaining ids i) →
    match (List.range' i k).find? (shortOf ids replicas) with
    | some j => checkShards replicas i k m s = .error (shortError ids j)
    | none => ∃ m', Holds m' (remaining ids (i + k)) ∧
        checkShards replicas i k m s = .ok (m', s ++ (List.range' i k).map UInt32.ofNat) := by
  intro k
  induction k with
  | zero => exact fun i m s _ hm => ⟨m, hm, by simp [checkShards]⟩
  | succ k ih =>
    intro i m s hi hm
    rw [List.range'_succ, List.find?_cons]
    rcases Nat.lt_or_ge i (2 ^ 32) with hlt | hge
    · have hlook : m.lookup (UInt32.ofNat i) =
          if occurrences ids i = 0 then none else some (occurrences ids i) := by
        rw [hm]; simp only [remaining, toNat_ofNat_of_lt hlt, lt_irrefl, if_false]
      by_cases h0 : occurrences ids i = 0
      · simp [shortOf, h0, checkShards, hlook, shortError]
      by_cases hr : (occurrences ids i : Int) < replicas
      · simp [shortOf, hr, checkShards, hlook, h0, shortError]
      have hnext := ih (i + 1) (m.erase (UInt32.ofNat i)) (s ++ [UInt32.ofNat i]) (by omega)
        (by rw [remaining_succ hlt]; exact holds_erase hm _)
      have hshort : shortOf ids replicas i = false := by simp [shortOf, h0, hr]
      simp only [hshort, checkShards, hlook, h0, hr, if_false, Nat.add_right_comm i 1 k,
        List.map_cons, List.append_assoc, List.singleton_append] at hnext ⊢
      exact hnext
    · obtain rfl : i = 2 ^ 32 := by omega
      have h0 : occurrences ids (2 ^ 32) = 0 := occurrences_of_large (le_refl _)
      have hlook : m.lookup (UInt32.ofNat (2 ^ 32)) = none := by rw [hm]; simp [remaining]
      have hshort : shortOf ids replicas (2 ^ 32) = true := by rw [shortOf, h0]; rfl
      rw [hshort, checkShards]
      dsimp only
      rw [hlook, shortError, if_pos h0]

theorem keys_pos_iff {m : CountMap} {ids : List UInt32} {n : Nat}
    (h : Holds m (remaining ids n)) :
    0 < m.keys.length ↔ ids.any (fun id => n ≤ id.toNat) = true := by
  have hmem : ∀ k, k ∈ m.keys ↔ n ≤ k.toNat ∧ 0 < occurrences ids k.toNat := by
    intro k
    rw [← AList.mem_keys, ← @not_not (k ∈ m), ← AList.lookup_eq_none, h k]
    by_cases hk : k.toNat < n
    · simp [remaining, hk]
    · simp [remaining, hk, Nat.pos_iff_ne_zero]
      omega
  simp only [List.length_pos_iff_exists_mem, hmem, List.any_eq_true, decide_eq_true_eq,
    occurrences, List.countP_pos_iff]
  exact ⟨fun ⟨_, hn, id, hid, he⟩ => ⟨id, hid, he ▸ hn⟩,
    fun ⟨id, hid, hn⟩ => ⟨id, hn, id, hid, rfl⟩⟩

/-- `validateInstances` described by its outcome: a nil shard list first; then
the panic of `make` on too large a shard count; then the least shard below
`numShards` that is missing or short of replicas; then any ID at or above
`numShards`; otherwise the IDs `0, …, numShards - 1`. -/
def validateSpec (instances : List ServiceInstance) (replicas : Int) (numShards : Nat) :
    Result (List UInt32) :=
  match allShardIDs instances with
  | none => .error .errInstanceHasNoShardsAssignment
  | some ids =>
    if maxAlloc < 4 * (numShards : Int) then .panic
    else
      match (List.range numShards).find? (shortOf ids replicas) with
      | some i => .error (shortError ids i)
      | none =>
        if ids.any (fun id => numShards ≤ id.toNat) then .error .errUnexpectedShard
        else .ok ((List.range numShards).map UInt32.ofNat)

theorem validateInstances_eq_spec (instances : List ServiceInstance) (replicas : Int)
    (numShards : Nat) :
    validateInstances instances replicas numShards = validateSpec instances replicas numShards := by
  unfold validateInstances validateSpec
  rw [countShards_eq]
  cases hids : allShardIDs instances with
  | none => rfl
  | some ids =>
    have hm : Holds (ids.foldl bump ∅) (remaining ids 0) := by
      simpa [remaining, count_eq_occurrences] using holds_foldl holds_empty ids
    have hwalk := checkShards_eq ids replicas numShards 0 _ [] (Nat.zero_le _) hm
    simp only [Option.map_some', Int.ofNat_eq_coe, Int.toNat_ofNat, List.range_eq_range',
      show ¬ (numShards : Int) < 0 by omega, false_or]
    by_cases hbig : maxAlloc < 4 * (numShards : Int)
    · simp only [hbig, if_true]
    simp only [hbig, if_false]
    split at hwalk
    · rename_i j hj
      simp [hj, hwalk]
    · rename_i hj
      obtain ⟨m', hm', heq⟩ := hwalk
      simp [hj, heq, keys_pos_iff hm']

theorem shortOf_eq_false {ids : List UInt32} {replicas : Int} {i : Nat} :
    shortOf ids replicas i = false ↔ max replicas 1 ≤ occurrences ids i := by
  simp only [shortOf, Bool.or_eq_false_iff, decide_eq_false_iff_not, Int.max_le]
  omega

theorem validateSpec_ok_iff (instances : List ServiceInstance) (replicas : Int)
    (numShards : Nat) :
    (∃ s, validateSpec instances replicas numShards = .ok s) ↔
      4 * (numShards : Int) ≤ maxAlloc ∧ ∃ ids, allShardIDs instances = some ids ∧
        (∀ i < numShards, max replicas 1 ≤ occurrences ids i) ∧
        ∀ id ∈ ids, id.toNat < numShards := by
  unfold validateSpec
  cases allShardIDs instances with
  | none => simp
  | some ids =>
    by_cases hbig : maxAlloc < 4 * (numShards : Int)
    · simp [hbig]
    simp only [hbig, if_false, not_lt.mp hbig, true_and]
    have hall : (∀ i < numShards, max replicas 1 ≤ occurrences ids i) ↔
        (List.range numShards).find? (shortOf ids replicas) = none := by
      simp [List.find?_eq_none, shortOf_eq_false]
    cases hfind : (List.range numShards).find? (shortOf ids replicas) with
    | some i =>
      refine iff_of_false (by simp [hfind]) ?_
      rintro ⟨_, h, hP, -⟩
      cases h
      simp [hall.mp hP] at hfind
    | none =>
      have hbelow : (ids.any fun id => numShards ≤ id.toNat) = false ↔
          ∀ id ∈ ids, id.toNat < numShards := by
        simp [List.any_eq_false]
      simp only [hfind]
      cases hany : ids.any (fun id => numShards ≤ id.toNat)
      · simpa [← hbelow, hany] using fun i hi => Int.max_le.mp (hall.mpr hfind i hi)
      · simp [hbelow.symm, hany]

/-- `validateInstances` for a shard count `numShards ≥ 0` is `validateSpec`, and it
accepts exactly the placements with no nil shard list in which every shard
below `numShards` is held at least `max replicas 1` times and no ID at or
above `numShards` occurs, when `make` can allocate the `numShards` IDs. -/
theorem validateInstances_characterization (instances : List ServiceInstance)
    (replicas : Int) (numShards : Nat) :
    validateInstances instances replicas numShards = validateSpec instances replicas numShards ∧
    ((∃ s, validateInstances instances replicas numShards = .ok s) ↔
      4 * (numShards : Int) ≤ maxAlloc ∧ ∃ ids, allShardIDs instances = some ids ∧
        (∀ i < numShards, max replicas 1 ≤ occurrences ids i) ∧
        ∀ id ∈ ids, id.toNat < numShards) := by
  rw [validateInstances_eq_spec]
  exact ⟨rfl, validateSpec_ok_iff instances replicas numShards⟩

/-- With no instance, shard `0` is missing for every positive shard count, yet
for `2 ^ 47` shards `make([]uint32, numShards)` panics before the walk. -/
theorem validateInstances_large_panics :
    occurrences [] 0 = 0 ∧ validateInstances [] 1 (2 ^ 47) = .panic := by
  refine ⟨rfl, ?_⟩
  simp [validateInstances, countShards, maxAlloc]

/-! ## Static options from a service -/

/-- The state of a shard, as far as `getStaticOptions` sets it: every shard is
`shard.Available`. -/
inductive ShardState where
  | available
  deriving Repr, DecidableEq

structure Shard where
  id : UInt32
  state : ShardState
  deriving Repr, DecidableEq

/-- `HostShardSet`: a host and the shards it holds. -/
structure HostShardSet where
  host : Host
  shardSet : List Shard
  deriving Repr, DecidableEq

/-- `StaticOptions` as `getStaticOptions` sets them. -/
structure StaticOptions where
  replicas : Int
  shardSet : List Shard
  hostShardSets : List HostShardSet
  deriving Repr, DecidableEq

/-- The topology `Map` that `NewStaticMap(to)` builds: it is determined by its
options. -/
structure StaticMap where
  options : StaticOptions
  deriving Repr, DecidableEq

section
variable (newHostShardSet : ServiceInstance → Except Error HostShardSet)

/-- `getStaticOptions(service)`. `newHostShardSet` is
`NewHostShardSetFromServiceInstance`, declared outside the modelled files. -/
def getStaticOptions : Option Service → Result StaticOptions
  | some ⟨some replicas, some numShards, some instances⟩ => do
    let allShardIDs ← validateInstances instances replicas numShards
    let hostShardSets ← instances.mapM fun i => Result.ofExcept (newHostShardSet i)
    pure ⟨replicas, allShardIDs.map fun id => ⟨id, .available⟩, hostShardSets⟩
  | _ => .error .errInvalidService

/-- `getMapFromUpdate(service)`. -/
def getMapFromUpdate (service : Option Service) : Result StaticMap :=
  (getStaticOptions newHostShardSet service).bind fun opts => .ok ⟨opts⟩

/-- A map accepted from a service: the service has all its parts,
`validateInstances` accepted its instances, the shard set is
`0, …, numShards - 1`, all available, and every shard is held at least
`max replicas 1` times while no other shard is listed. -/
def Accepted (service : Option Service) (m : StaticMap) : Prop :=
  ∃ replicas numShards instances ids,
    service = some ⟨some replicas, some (numShards : Nat), some instances⟩ ∧
    allShardIDs instances = some ids ∧
    m.options.replicas = replicas ∧
    m.options.shardSet = (List.range numShards).map (fun i => ⟨UInt32.ofNat i, .available⟩) ∧
    (∀ i < numShards, max replicas 1 ≤ occurrences ids i) ∧
    ∀ id ∈ ids, id.toNat < numShards

theorem validateInstances_ok_nonneg {instances : List ServiceInstance} {replicas numShards : Int}
    {s : List UInt32} (h : validateInstances instances replicas numShards = .ok s) :
    0 ≤ numShards := by
  unfold validateInstances at h
  split at h
  · cases h
  · split at h
    · cases h
    · omega

theorem validateSpec_value {instances : List ServiceInstance} {replicas : Int} {numShards : Nat}
    {s : List UInt32} (h : validateSpec instances replicas numShards = .ok s) :
    s = (List.range numShards).map UInt32.ofNat := by
  unfold validateSpec at h
  split at h
  · cases h
  · split at h
    · cases h
    split at h
    · cases h
    · split at h
      · cases h
      · exact (Result.ok.inj h).symm

theorem getMapFromUpdate_accepted {service : Option Service} {m : StaticMap}
    (h : getMapFromUpdate newHostShardSet service = .ok m) : Accepted service m := by
  unfold getMapFromUpdate getStaticOptions at h
  split at h
  · rename_i replicas numShards instances
    cases hv : validateInstances instances replicas numShards with
    | panic | error => simp [hv] at h
    | ok ids =>
      cases hh : instances.mapM fun i => Result.ofExcept (newHostShardSet i) with
      | panic | error => simp only [Result.bind_eq, hv, hh, Result.bind_ok, Result.bind_error, Result.bind_panic, reduceCtorEq] at h
      | ok hosts =>
        simp only [Result.bind_eq, Result.bind_ok, hv, hh, Result.pure_eq] at h
        obtain rfl := (Result.ok.inj h).symm
        obtain ⟨n, rfl⟩ := Int.eq_ofNat_of_zero_le (validateInstances_ok_nonneg hv)
        have hspec := validateInstances_eq_spec instances replicas n ▸ hv
        obtain ⟨-, shardIDs, hall, hrep, hbelow⟩ := (validateSpec_ok_iff instances replicas n).mp ⟨ids, hspec⟩
        have hids := validateSpec_value hspec
        exact ⟨replicas, n, instances, shardIDs, rfl, hall, rfl, by simp [hids], hrep, hbelow⟩
  · cases h

end

end AresBroker.Topology
