import GasPool.Types
import Mathlib.Data.List.Perm.Subperm
import Mathlib.Data.List.Dedup

/-!
# `get_latest_gas_objects`

`SuiClient::get_latest_gas_objects` (`sui_client.rs:93-147`) splits the ids into chunks of 50,
fetches each chunk with one `multi_get_object_with_options` task, and collects the
`(id, try_get_sui_coin_balance(response))` pairs of all chunks into a `HashMap`. The chunk tasks
run concurrently (`FuturesUnordered`), so their results arrive in any order; `order` lists the
chunk indices in completion order.

A `HashMap` is an association list with distinct keys here: `collect` inserts the pairs in
turn, and an insert on a present key replaces its value. Its iteration order (`into_values`)
is unspecified in Rust; the model takes the order of first insertion, and every result below
is about membership and size only.

The lookup as a whole is the per-id lookup: whatever order the chunk tasks complete in, the map
has one entry per requested id, and that entry is the decoded response for the id
(`getLatestGasObjects_graph`, from `mem_getLatestGasObjects` and
`mem_getLatestGasObjects_of_perm`). The results used by the core: every coin of
`latestGasCoins` is the decoded response for one of the requested ids (`mem_latestGasCoins`);
when every chunk completes, every requested id whose response decodes is present
(`mem_latestGasCoins_of_perm`); and there are never more coins than requested ids
(`length_latestGasCoins_le`).
-/

namespace GasPool

/-! ## Object responses -/

/-- `sui_types::object::Owner`. -/
inductive Owner
  | addressOwner (address : SuiAddress)
  | objectOwner (address : SuiAddress)
  | shared
  | immutable
deriving DecidableEq, Repr

/-- `Owner::get_address_owner_address(..).ok()`. -/
def Owner.getAddressOwnerAddress : Owner → Option SuiAddress
  | .addressOwner address => some address
  | _ => none

/-- A Move object's BCS data as the pool reads it: whether its type is
`sui_types::gas_coin::GasCoin::type_()`, and the coin value that
`bcs::from_bytes::<GasCoin>(..).ok()` decodes, if any. -/
structure MoveObject where
  isGasCoin : Bool
  value : Option U64
deriving DecidableEq, Repr

/-- `SuiRawData`: a Move object or a package. -/
inductive RawData
  | moveObject (o : MoveObject)
  | package
deriving DecidableEq, Repr

/-- `SuiRawData::try_as_move`. -/
def RawData.tryAsMove : RawData → Option MoveObject
  | .moveObject o => some o
  | .package => none

/-- `SuiObjectData`, with the `owner` and `bcs` fields requested by `with_owner().with_bcs()`. -/
structure SuiObjectData where
  objectRef : ObjectRef
  owner : Option Owner
  bcs : Option RawData
deriving DecidableEq, Repr

/-- `SuiObjectResponse`; `data` is absent when the object does not exist. -/
structure SuiObjectResponse where
  data : Option SuiObjectData
deriving DecidableEq, Repr

/-- `SuiClient::try_get_sui_coin_balance` (`sui_client.rs:257-271`). -/
def tryGetSuiCoinBalance (object : SuiObjectResponse) : Option GasCoin := do
  let data ← object.data
  let owner ← (← data.owner).getAddressOwnerAddress
  let moveObj ← (← data.bcs).tryAsMove
  if moveObj.isGasCoin then
    let value ← moveObj.value
    some { owner, objectRef := data.objectRef, balance := value }
  else none

/-- The fullnode's response for an object whose current state is `coin` (none: deleted). -/
def GasCoin.toResponse : Option GasCoin → SuiObjectResponse
  | none => ⟨none⟩
  | some c => ⟨some ⟨c.objectRef, some (.addressOwner c.owner),
      some (.moveObject ⟨true, some c.balance⟩)⟩⟩

@[simp] theorem tryGetSuiCoinBalance_toResponse (c : Option GasCoin) :
    tryGetSuiCoinBalance (GasCoin.toResponse c) = c := by
  cases c <;> rfl

/-! ## `HashMap` -/

section HashMap

variable {K V : Type} [DecidableEq K]

/-- `HashMap::insert`: replace the value of a present key, else add the pair. -/
def mapInsert (m : List (K × V)) (k : K) (v : V) : List (K × V) :=
  if k ∈ m.map Prod.fst then m.map (fun p => if p.1 = k then (k, v) else p) else m ++ [(k, v)]

/-- `collect::<HashMap<_, _>>()`: insert the pairs in order. -/
def collectMap (l : List (K × V)) : List (K × V) :=
  l.foldl (fun m p => mapInsert m p.1 p.2) []

theorem keys_mapInsert (m : List (K × V)) (k : K) (v : V) :
    (mapInsert m k v).map Prod.fst = if k ∈ m.map Prod.fst then m.map Prod.fst
      else m.map Prod.fst ++ [k] := by
  unfold mapInsert
  split_ifs with h
  · simp only [List.map_map]
    exact List.map_congr_left fun p _ => by by_cases hp : p.1 = k <;> simp [hp]
  · simp

theorem nodup_keys_mapInsert {m : List (K × V)} (h : (m.map Prod.fst).Nodup) (k : K) (v : V) :
    ((mapInsert m k v).map Prod.fst).Nodup := by
  rw [keys_mapInsert]
  split_ifs with hk
  · exact h
  · exact h.append (List.nodup_singleton k) (by simpa using hk)

theorem mem_mapInsert {m : List (K × V)} {k : K} {v : V} {p : K × V}
    (hp : p ∈ mapInsert m k v) : p ∈ m ∨ p = (k, v) := by
  unfold mapInsert at hp
  split_ifs at hp
  · obtain ⟨q, hq, rfl⟩ := List.mem_map.1 hp
    by_cases h : q.1 = k <;> simp [h, hq]
  · simpa using hp

theorem mem_foldl_mapInsert {p : K × V} :
    ∀ (l m : List (K × V)), p ∈ l.foldl (fun m q => mapInsert m q.1 q.2) m → p ∈ m ∨ p ∈ l
  | [], _, h => .inl h
  | q :: l, m, h => by
    rcases mem_foldl_mapInsert l _ h with h | h
    · rcases mem_mapInsert h with h | rfl
      · exact .inl h
      · exact .inr (List.mem_cons_self _ _)
    · exact .inr (List.mem_cons_of_mem _ h)

/-- Every pair of the collected map is one of the collected pairs. -/
theorem mem_collectMap {l : List (K × V)} {p : K × V} (hp : p ∈ collectMap l) : p ∈ l :=
  (mem_foldl_mapInsert l [] hp).resolve_left (List.not_mem_nil p)

/-- The keys of the collected map are distinct. -/
theorem nodup_keys_collectMap (l : List (K × V)) : ((collectMap l).map Prod.fst).Nodup := by
  suffices ∀ m : List (K × V), (m.map Prod.fst).Nodup →
      ((l.foldl (fun m q => mapInsert m q.1 q.2) m).map Prod.fst).Nodup from
    this [] List.nodup_nil
  induction l with
  | nil => exact fun m h => h
  | cons q l ih => exact fun m h => ih _ (nodup_keys_mapInsert h _ _)

theorem key_mem_foldl_mapInsert {k : K} :
    ∀ (l m : List (K × V)), k ∈ m.map Prod.fst ∨ k ∈ l.map Prod.fst →
      k ∈ (l.foldl (fun m q => mapInsert m q.1 q.2) m).map Prod.fst
  | [], _, h => by simpa using h
  | q :: l, m, h => by
    refine key_mem_foldl_mapInsert l _ ?_
    rw [keys_mapInsert]
    rw [List.map_cons, List.mem_cons] at h
    rcases h with h | rfl | h
    · split_ifs <;> simp [h]
    · split_ifs with h' <;> simp [h']
    · exact .inr h

/-- Every collected key has an entry in the map. -/
theorem key_mem_collectMap {l : List (K × V)} {k : K} (hk : k ∈ l.map Prod.fst) :
    k ∈ (collectMap l).map Prod.fst :=
  key_mem_foldl_mapInsert l [] (.inr hk)

/-- A map collected from pairs has no more entries than pairs. -/
theorem length_collectMap_le (l : List (K × V)) : (collectMap l).length ≤ l.length := by
  have hsub : List.Subperm ((collectMap l).map Prod.fst) (l.map Prod.fst) :=
    List.subperm_of_subset (nodup_keys_collectMap l) fun k hk => by
      obtain ⟨p, hp, rfl⟩ := List.mem_map.1 hk
      exact List.mem_map_of_mem _ (mem_collectMap hp)
  simpa using hsub.length_le

end HashMap

/-! ## Chunks -/

/-- `chunksAux n fuel l`: `l` cut into chunks of `n`, for `fuel` chunks at most. -/
def chunksAux {α : Type} (n : ℕ) : ℕ → List α → List (List α)
  | 0, _ => []
  | _ + 1, [] => []
  | fuel + 1, x :: xs => (x :: xs).take n :: chunksAux n fuel ((x :: xs).drop n)

/-- `Itertools::chunks(n)`: consecutive chunks of `n` elements, the last one shorter. -/
def chunks {α : Type} (n : ℕ) (l : List α) : List (List α) := chunksAux n l.length l

theorem flatten_chunksAux {α : Type} {n : ℕ} (hn : 0 < n) :
    ∀ (fuel : ℕ) (l : List α), l.length ≤ fuel → (chunksAux n fuel l).flatten = l
  | 0, l, h => by simp_all [chunksAux]
  | _ + 1, [], _ => rfl
  | fuel + 1, x :: xs, h => by
    have : ((x :: xs).drop n).length ≤ fuel := by
      simp only [List.length_drop, List.length_cons] at h ⊢; omega
    simp only [chunksAux, List.flatten_cons, flatten_chunksAux hn fuel _ this,
      List.take_append_drop]

/-- The chunks, put back together, are the list. -/
theorem flatten_chunks {α : Type} {n : ℕ} (hn : 0 < n) (l : List α) : (chunks n l).flatten = l :=
  flatten_chunksAux hn _ l le_rfl

/-! ## The lookup -/

/-- One chunk task's result: each requested id with the response for it (`sui_client.rs:104-125`;
the task retries until the fullnode answers one response per id). -/
def fetchChunk (snapshot : ObjectID → SuiObjectResponse) (chunk : List ObjectID) :
    List (ObjectID × SuiObjectResponse) :=
  chunk.zip (chunk.map snapshot)

/-- The chunk tasks' results, flattened in the completion order `order`
(`sui_client.rs:129-130`). -/
def completedObjects (snapshot : ObjectID → SuiObjectResponse) (order : List ℕ)
    (objectIds : List ObjectID) : List (ObjectID × SuiObjectResponse) :=
  (order.filterMap (((chunks 50 objectIds).map (fetchChunk snapshot))[·]?)).flatten

/-- `SuiClient::get_latest_gas_objects` (`sui_client.rs:93-147`): the chunk tasks' results, in
the completion order `order`, decoded and collected into a map. -/
def getLatestGasObjects (snapshot : ObjectID → SuiObjectResponse) (order : List ℕ)
    (objectIds : List ObjectID) : List (ObjectID × Option GasCoin) :=
  collectMap ((completedObjects snapshot order objectIds).map
    fun p => (p.1, tryGetSuiCoinBalance p.2))

/-- `get_latest_gas_objects(ids).into_values().flatten().collect()`: the coins that still
exist (`gas_pool_core.rs:162-167, 327-333`). -/
def latestGasCoins (snapshot : ObjectID → SuiObjectResponse) (order : List ℕ)
    (objectIds : List ObjectID) : List GasCoin :=
  (getLatestGasObjects snapshot order objectIds).filterMap Prod.snd

/-- Completion orders of the chunk tasks of a lookup: every chunk exactly once. -/
def IsCompletionOrder (objectIds : List ObjectID) (order : List ℕ) : Prop :=
  order.Perm (List.range (chunks 50 objectIds).length)

instance (objectIds : List ObjectID) (order : List ℕ) :
    Decidable (IsCompletionOrder objectIds order) := by
  unfold IsCompletionOrder; infer_instance

theorem fetchChunk_eq (snapshot : ObjectID → SuiObjectResponse) :
    ∀ chunk : List ObjectID, fetchChunk snapshot chunk = chunk.map fun id => (id, snapshot id)
  | [] => rfl
  | id :: chunk => by
    simp only [fetchChunk, List.map_cons, List.zip_cons_cons] at *
    rw [← fetchChunk, fetchChunk_eq snapshot chunk]

theorem mem_fetchChunk {snapshot : ObjectID → SuiObjectResponse} {chunk : List ObjectID}
    {id : ObjectID} {r : SuiObjectResponse} :
    (id, r) ∈ fetchChunk snapshot chunk ↔ id ∈ chunk ∧ r = snapshot id := by
  rw [fetchChunk_eq, List.mem_map]
  constructor
  · rintro ⟨a, ha, h⟩
    cases h
    exact ⟨ha, rfl⟩
  · rintro ⟨h, rfl⟩
    exact ⟨id, h, rfl⟩

/-- Every pair the chunk tasks return is a requested id with the snapshot's response for it. -/
theorem mem_completedObjects {snapshot : ObjectID → SuiObjectResponse} {order : List ℕ}
    {objectIds : List ObjectID} {id : ObjectID} {r : SuiObjectResponse}
    (hp : (id, r) ∈ completedObjects snapshot order objectIds) :
    id ∈ objectIds ∧ r = snapshot id := by
  obtain ⟨l, hl, hpl⟩ := List.mem_flatten.1 hp
  obtain ⟨i, -, hi⟩ := List.mem_filterMap.1 hl
  obtain ⟨chunk, hchunk, rfl⟩ := List.mem_map.1 (List.getElem?_mem hi)
  obtain ⟨h1, rfl⟩ := mem_fetchChunk.1 hpl
  refine ⟨?_, rfl⟩
  rw [← flatten_chunks (show 0 < 50 by decide) objectIds]
  exact List.mem_flatten.2 ⟨chunk, hchunk, h1⟩

/-- With every chunk completed, every requested id comes back with its response. -/
theorem mem_completedObjects_of_perm {snapshot : ObjectID → SuiObjectResponse}
    {order : List ℕ} {objectIds : List ObjectID} (horder : IsCompletionOrder objectIds order)
    {id : ObjectID} (hid : id ∈ objectIds) :
    (id, snapshot id) ∈ completedObjects snapshot order objectIds := by
  rw [← flatten_chunks (show 0 < 50 by decide) objectIds] at hid
  obtain ⟨chunk, hchunk, hid⟩ := List.mem_flatten.1 hid
  obtain ⟨i, hi, rfl⟩ := List.getElem_of_mem hchunk
  refine List.mem_flatten.2 ⟨fetchChunk snapshot (chunks 50 objectIds)[i], ?_, ?_⟩
  · exact List.mem_filterMap.2 ⟨i, horder.mem_iff.2 (List.mem_range.2 hi), by simp [hi]⟩
  · exact mem_fetchChunk.2 ⟨hid, rfl⟩

/-- Every entry of a lookup's map is a requested id with the decoded response for it. -/
theorem mem_getLatestGasObjects {snapshot : ObjectID → SuiObjectResponse} {order : List ℕ}
    {objectIds : List ObjectID} {k : ObjectID} {v : Option GasCoin}
    (h : (k, v) ∈ getLatestGasObjects snapshot order objectIds) :
    k ∈ objectIds ∧ v = tryGetSuiCoinBalance (snapshot k) := by
  obtain ⟨⟨k', r⟩, hr, hkv⟩ := List.mem_map.1 (mem_collectMap h)
  obtain ⟨rfl, rfl⟩ := Prod.mk.inj hkv
  obtain ⟨hk, rfl⟩ := mem_completedObjects hr
  exact ⟨hk, rfl⟩

/-- With every chunk completed, every requested id has its decoded response in a lookup's map:
the map holds the id (`key_mem_collectMap`), and its only possible value is that response. -/
theorem mem_getLatestGasObjects_of_perm {snapshot : ObjectID → SuiObjectResponse}
    {order : List ℕ} {objectIds : List ObjectID} (horder : IsCompletionOrder objectIds order)
    {k : ObjectID} (hk : k ∈ objectIds) :
    (k, tryGetSuiCoinBalance (snapshot k)) ∈ getLatestGasObjects snapshot order objectIds := by
  have hkey : k ∈ (getLatestGasObjects snapshot order objectIds).map Prod.fst :=
    key_mem_collectMap (List.mem_map.2 ⟨_, List.mem_map_of_mem _
      (mem_completedObjects_of_perm horder hk), rfl⟩)
  obtain ⟨⟨k, v⟩, hp, rfl⟩ := List.mem_map.1 hkey
  exact (mem_getLatestGasObjects hp).2 ▸ hp

/-- The chunked lookup is the per-id lookup: whatever order the chunk tasks complete in, and for
any ids (a last chunk shorter than 50, an id repeated within or across chunks), the map's keys
are distinct and are exactly the requested ids, and the entry of each id is the decoded
snapshot response for it. -/
theorem getLatestGasObjects_graph (snapshot : ObjectID → SuiObjectResponse) (order : List ℕ)
    (objectIds : List ObjectID) (horder : IsCompletionOrder objectIds order) :
    ((getLatestGasObjects snapshot order objectIds).map Prod.fst).Nodup ∧
      (∀ k, k ∈ (getLatestGasObjects snapshot order objectIds).map Prod.fst ↔ k ∈ objectIds) ∧
      ∀ k v, (k, v) ∈ getLatestGasObjects snapshot order objectIds ↔
        k ∈ objectIds ∧ v = tryGetSuiCoinBalance (snapshot k) := by
  refine ⟨nodup_keys_collectMap _, fun k => ⟨fun hk => ?_, fun hk => ?_⟩,
    fun k v => ⟨mem_getLatestGasObjects, ?_⟩⟩
  · obtain ⟨⟨k, v⟩, hp, rfl⟩ := List.mem_map.1 hk
    exact (mem_getLatestGasObjects hp).1
  · exact List.mem_map_of_mem Prod.fst (mem_getLatestGasObjects_of_perm horder hk)
  · rintro ⟨hk, rfl⟩
    exact mem_getLatestGasObjects_of_perm horder hk

/-- Fifty-two ids, so a full chunk and a chunk of two, with id 0 in both; the second chunk
completes first. -/
theorem getLatestGasObjects_graph_overlappingChunks :
    IsCompletionOrder (List.range 51 ++ [0]) [1, 0] ∧
      ((getLatestGasObjects (fun x => GasCoin.toResponse (some ⟨0, (x, 1, 0), x⟩)) [1, 0]
        (List.range 51 ++ [0])).map Prod.fst).Nodup ∧
      (∀ k, k ∈ (getLatestGasObjects (fun x => GasCoin.toResponse (some ⟨0, (x, 1, 0), x⟩))
        [1, 0] (List.range 51 ++ [0])).map Prod.fst ↔ k ∈ List.range 51 ++ [0]) ∧
      ∀ k v, (k, v) ∈ getLatestGasObjects (fun x => GasCoin.toResponse (some ⟨0, (x, 1, 0), x⟩))
        [1, 0] (List.range 51 ++ [0]) ↔ k ∈ List.range 51 ++ [0] ∧
          v = tryGetSuiCoinBalance (GasCoin.toResponse (some ⟨0, (k, 1, 0), k⟩)) :=
  ⟨by decide, getLatestGasObjects_graph _ [1, 0] _ (by decide)⟩

/-- Every coin a lookup returns is the decoded response for one of the requested ids. -/
theorem mem_latestGasCoins {snapshot : ObjectID → SuiObjectResponse} {order : List ℕ}
    {objectIds : List ObjectID} {c : GasCoin} (hc : c ∈ latestGasCoins snapshot order objectIds) :
    ∃ id ∈ objectIds, tryGetSuiCoinBalance (snapshot id) = some c := by
  obtain ⟨⟨id, v⟩, hp, rfl : v = some c⟩ := List.mem_filterMap.1 hc
  obtain ⟨hid, hc⟩ := mem_getLatestGasObjects hp
  exact ⟨id, hid, hc.symm⟩

/-- With every chunk completed, every requested id whose response decodes gives its coin. -/
theorem mem_latestGasCoins_of_perm {snapshot : ObjectID → SuiObjectResponse} {order : List ℕ}
    {objectIds : List ObjectID} (horder : IsCompletionOrder objectIds order) {id : ObjectID}
    (hid : id ∈ objectIds) {c : GasCoin} (hc : tryGetSuiCoinBalance (snapshot id) = some c) :
    c ∈ latestGasCoins snapshot order objectIds :=
  List.mem_filterMap.2 ⟨_, mem_getLatestGasObjects_of_perm horder hid, hc⟩

/-- A lookup returns no more coins than it was asked for ids. -/
theorem length_latestGasCoins_le (snapshot : ObjectID → SuiObjectResponse) (order : List ℕ)
    (objectIds : List ObjectID) :
    (latestGasCoins snapshot order objectIds).length ≤ objectIds.length := by
  set m := getLatestGasObjects snapshot order objectIds
  have hkeys : List.Subperm (m.map Prod.fst) objectIds :=
    List.subperm_of_subset (nodup_keys_collectMap _) fun k hk => by
      obtain ⟨⟨k, v⟩, hp, rfl⟩ := List.mem_map.1 hk
      exact (mem_getLatestGasObjects hp).1
  calc (latestGasCoins snapshot order objectIds).length
      ≤ m.length := List.length_filterMap_le _ _
    _ = (m.map Prod.fst).length := (List.length_map _ _).symm
    _ ≤ objectIds.length := hkeys.length_le

/-- A map whose value at each key is a coin of that id yields coins of distinct ids, in key
order. -/
theorem ids_filterMap_sublist {m : List (ObjectID × Option GasCoin)}
    (h : ∀ p ∈ m, ∀ c, p.2 = some c → c.id = p.1) :
    List.Sublist (ids (m.filterMap Prod.snd)) (m.map Prod.fst) := by
  induction m with
  | nil => exact List.Sublist.slnil
  | cons p m ih =>
    have ih := ih fun q hq => h q (List.mem_cons_of_mem _ hq)
    rcases hp : p.2 with _ | c
    · simpa [List.filterMap_cons, hp] using ih.cons p.1
    · simpa [List.filterMap_cons, hp, h p (List.mem_cons_self _ _) c hp] using ih.cons₂ p.1

/-- Against a fullnode that answers each id with the object of that id, a lookup returns coins
of distinct ids, each one of those requested. -/
theorem ids_latestGasCoins {objects : ObjectID → Option GasCoin}
    (hwf : ∀ x c, objects x = some c → c.id = x) (order : List ℕ) (objectIds : List ObjectID) :
    (ids (latestGasCoins (fun x => GasCoin.toResponse (objects x)) order objectIds)).Nodup ∧
      ids (latestGasCoins (fun x => GasCoin.toResponse (objects x)) order objectIds) ⊆
        objectIds := by
  have hm : ∀ p ∈ getLatestGasObjects (fun x => GasCoin.toResponse (objects x)) order objectIds,
      p.1 ∈ objectIds ∧ p.2 = objects p.1 := fun p hp => by
    simpa using mem_getLatestGasObjects hp
  have hsub := ids_filterMap_sublist fun p hp c hc => hwf _ _ ((hm p hp).2 ▸ hc)
  refine ⟨hsub.nodup (nodup_keys_collectMap _), fun x hx => ?_⟩
  obtain ⟨p, hp, rfl⟩ := List.mem_map.1 (hsub.subset hx)
  exact (hm p hp).1

/-- When every chunk completes, against a fullnode that answers each id with the object of that
id, a lookup of distinct ids returns exactly the coins the fullnode has for them, in some
order. -/
theorem latestGasCoins_perm {objects : ObjectID → Option GasCoin}
    (hwf : ∀ x c, objects x = some c → c.id = x) {order : List ℕ} {objectIds : List ObjectID}
    (horder : IsCompletionOrder objectIds order) (hnd : objectIds.Nodup) :
    (latestGasCoins (fun x => GasCoin.toResponse (objects x)) order objectIds).Perm
      (objectIds.filterMap objects) := by
  have hsub : List.Sublist (ids (objectIds.filterMap objects)) objectIds := by
    simpa [Function.comp_def] using
      ids_filterMap_sublist (m := objectIds.map fun x => (x, objects x))
        (by simpa using fun x _ c hc => hwf x c hc)
  refine (List.perm_ext_iff_of_nodup
    (List.Nodup.of_map GasCoin.id (ids_latestGasCoins hwf order objectIds).1)
    (List.Nodup.of_map GasCoin.id (hsub.nodup hnd))).2 fun c => ?_
  constructor
  · intro hc
    obtain ⟨x, hx, hxc⟩ := mem_latestGasCoins hc
    exact List.mem_filterMap.2 ⟨x, hx, by simpa using hxc⟩
  · intro hc
    obtain ⟨x, hx, hxc⟩ := List.mem_filterMap.1 hc
    exact mem_latestGasCoins_of_perm horder hx (by simpa using hxc)

/-- When every chunk completes, against a fullnode that answers each id with the object of that
id, a lookup finds every id the fullnode has an object for. -/
theorem mem_ids_latestGasCoins {objects : ObjectID → Option GasCoin}
    (hwf : ∀ x c, objects x = some c → c.id = x) {order : List ℕ} {objectIds : List ObjectID}
    (horder : IsCompletionOrder objectIds order) {x : ObjectID} (hx : x ∈ objectIds)
    (hsome : (objects x).isSome) :
    x ∈ ids (latestGasCoins (fun x => GasCoin.toResponse (objects x)) order objectIds) := by
  obtain ⟨c, hc⟩ := Option.isSome_iff_exists.1 hsome
  rw [← hwf x c hc]
  exact List.mem_map_of_mem _ (mem_latestGasCoins_of_perm horder hx (by simpa using hc))

end GasPool
