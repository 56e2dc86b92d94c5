import Libpomelo.MapOrder
import Libpomelo.JsonReread
import Libpomelo.System

/-!
# The request map of a client

The client model keeps its request map as a list, with functions that say what `pc_map_get`,
`pc_map_set`, `pc_map_del` and `pc_map_clear` do to it. This module is the proof that they do: a
pointer map that lists the requests of a client (`Mirrors`) gives the same answers, lists the
requests after each call, releases the same requests in the same order, and hangs where the model
does.
-/

namespace Libpomelo

/-! ## Keys -/

/-- The key that `sprintf("%u", id)` makes. -/
def idKey (id : ℕ) : CString where
  bytes := utf8Bytes (decimal id)
  noNul hzero := absurd ((decimal_digits id).all_digits 0 hzero) (by decide)

/-- Different ids have different keys. -/
theorem idKey_inj {id id' : ℕ} : idKey id = idKey id' ↔ id = id' := by
  refine ⟨fun h => ?_, congrArg idKey⟩
  have hbytes : utf8Bytes (decimal id) = utf8Bytes (decimal id') := congrArg CString.bytes h
  rw [← (decimal_digits id).value, hbytes, (decimal_digits id').value]

theorem toNat_lt_of_lIsDigit {b : UInt8} (h : lIsDigit b = true) : b.toNat < 128 := by
  simp only [lIsDigit, Bool.and_eq_true, decide_eq_true_eq, UInt8.le_iff_toNat_le] at h
  exact Nat.lt_of_le_of_lt h.2 (by decide)

/-- Without bytes from 128 up, the hash is the sum of the bytes, as far as 256 buckets see it. -/
theorem foldl_hash : ∀ (bytes : Bytes) (hash : ℕ), (∀ b ∈ bytes, b.toNat < 128) →
    bytes.foldl (fun hash c => (hash + charToSize c) % 2 ^ 64) hash % 256 =
      (hash + (bytes.map UInt8.toNat).sum) % 256
  | [], _, _ => rfl
  | b :: bytes, hash, hsmall => by
    have hb : charToSize b = b.toNat := if_pos (hsmall b (List.mem_cons_self ..))
    rw [List.foldl_cons, foldl_hash bytes _ fun c hc => hsmall c (List.mem_cons_of_mem _ hc), hb,
      List.map_cons, List.sum_cons]
    omega

/-- The bucket of a key is the bucket of its id. -/
theorem hash_idKey (id : ℕ) : (idKey id).hash % requestsCapacity = requestBucket id := by
  have hsmall : ∀ b ∈ utf8Bytes (decimal id), b.toNat < 128 :=
    fun b hb => toNat_lt_of_lIsDigit ((decimal_digits id).all_digits b hb)
  have hsum := foldl_hash (utf8Bytes (decimal id)) 0 hsmall
  rwa [Nat.zero_add] at hsum

/-! ## The list of the client -/

/-- A request as the map holds it. -/
def requestPair (kv : ℕ × TcpReq) : MapPair TcpReq := ⟨idKey kv.1, some kv.2⟩

/-- The requests in the order in which `pc_map_clear` releases them. -/
def releaseOrder (requests : List (ℕ × TcpReq)) : List (ℕ × TcpReq) :=
  (List.range requestsCapacity).flatMap fun i => requests.filter fun kv => requestBucket kv.1 = i

section Requests

variable {requests : List (ℕ × TcpReq)} {id : ℕ}

theorem lookup_eq_find? : ∀ requests : List (ℕ × TcpReq),
    requests.lookup id = (requests.find? fun kv => kv.1 = id).map Prod.snd
  | [] => rfl
  | (id', req) :: requests => by
    rw [List.lookup_cons, List.find?_cons]
    by_cases h : id' = id
    · simp [h]
    · have hne : (id == id') = false := by simpa using Ne.symm h
      simp [h, hne, lookup_eq_find? requests]

theorem key_requestPair :
    (fun p : MapPair TcpReq => decide (p.key = idKey id)) ∘ requestPair =
      fun kv => decide (kv.1 = id) := by
  funext kv
  exact decide_eq_decide.mpr idKey_inj

theorem pairOf_requests :
    pairOf (idKey id) (requests.map requestPair) =
      (requests.lookup id).map fun req => requestPair (id, req) := by
  rw [pairOf, List.find?_map, key_requestPair, lookup_eq_find?]
  cases hfind : requests.find? fun kv => kv.1 = id with
  | none => rfl
  | some kv =>
    obtain rfl : kv.1 = id := by simpa using List.find?_some hfind
    rfl

theorem without_requests :
    without (idKey id) (requests.map requestPair) =
      (requests.eraseP fun kv => kv.1 = id).map requestPair := by
  rw [without, List.eraseP_map, key_requestPair]

theorem bucketOf_requests (i : ℕ) :
    bucketOf requestsCapacity i (requests.map requestPair) =
      (requests.filter fun kv => requestBucket kv.1 = i).map requestPair := by
  have hbucket : (fun p : MapPair TcpReq => decide (p.key.hash % requestsCapacity = i)) ∘ requestPair =
      fun kv => decide (requestBucket kv.1 = i) := by
    funext kv
    rw [Function.comp_apply, requestPair, hash_idKey]
  rw [bucketOf, List.filter_map, hbucket]

theorem bucketOrder_requests :
    bucketOrder requestsCapacity requestsCapacity (requests.map requestPair) =
      (releaseOrder requests).map requestPair := by
  rw [bucketOrder, releaseOrder, List.map_flatMap]
  exact List.flatMap_congr fun i _ => bucketOf_requests i

/-- A request that another one stands in the way of. -/
theorem jams_requests :
    PcMap.Jams requestsCapacity (idKey id) (requests.map requestPair) ↔
      requests.lookup id ≠ none ∧
        ((requests.eraseP fun kv => kv.1 = id).any fun kv => requestBucket kv.1 = requestBucket id) =
          true := by
  rw [PcMap.Jams, pairOf_requests, without_requests, hash_idKey, bucketOf_requests]
  refine and_congr (by simp) ?_
  rw [ne_eq, List.map_eq_nil_iff, List.filter_eq_nil_iff, List.any_eq_true]
  simp

end Requests

/-! ## Clearing -/

section Clearing

variable {w : World}

/-- Erasing from a list of lists, where only one of them holds what is erased. -/
theorem eraseP_flatMap {ι β : Type} {p : β → Bool} {g : ι → List β} {j : ι}
    (h : ∀ i, i ≠ j → ∀ x ∈ g i, ¬ p x = true) : ∀ is : List ι, is.Nodup →
      (is.flatMap g).eraseP p = is.flatMap fun i => (g i).eraseP p
  | [], _ => rfl
  | i :: is, hnd => by
    obtain ⟨hnot, hnd⟩ := List.nodup_cons.mp hnd
    rw [List.flatMap_cons, List.flatMap_cons, List.eraseP_append]
    split
    · next hany =>
      obtain ⟨x, hx, hpx⟩ := List.any_eq_true.mp hany
      obtain rfl : i = j := by
        by_contra hne
        exact h i hne x hx hpx
      -- the other lists keep what they have
      refine congrArg _ (List.flatMap_congr fun k hk => (List.eraseP_of_forall_not ?_).symm)
      refine h k ?_
      rintro rfl
      exact hnot hk
    · next hany =>
      have hsame : (g i).eraseP p = g i :=
        List.eraseP_of_forall_not fun x hx hpx => hany (List.any_eq_true.mpr ⟨x, hx, hpx⟩)
      rw [hsame, eraseP_flatMap h is hnd]

theorem releaseOrder_del (id : ℕ) :
    releaseOrder (requestsDel id w).requests = (releaseOrder w.requests).eraseP fun kv => kv.1 = id := by
  have honly : ∀ i, i ≠ requestBucket id →
      ∀ kv ∈ w.requests.filter (fun kv => requestBucket kv.1 = i), ¬ decide (kv.1 = id) = true := by
    intro i hne kv hkv hid
    obtain ⟨-, hbucket⟩ := List.mem_filter.mp hkv
    rw [of_decide_eq_true hid] at hbucket
    exact hne (of_decide_eq_true hbucket).symm
  rw [releaseOrder, releaseOrder, eraseP_flatMap honly _ List.nodup_range]
  refine List.flatMap_congr fun i _ => ?_
  by_cases hi : requestBucket id = i
  · refine filter_eraseP_of_imp (fun kv hid => ?_) w.requests
    rw [of_decide_eq_true hid]
    exact decide_eq_true hi
  · rw [List.eraseP_of_forall_not (honly i (Ne.symm hi))]
    refine filter_eraseP_of_disjoint (fun kv hid => ?_) w.requests
    rw [of_decide_eq_true hid]
    exact decide_eq_false hi

theorem requestsFirst_eq_head? : requestsFirst w = (releaseOrder w.requests).head? := by
  rw [requestsFirst, releaseOrder, List.head?_flatMap]
  exact congrArg (List.findSome? · _) (funext fun i => List.head?_filter.symm)

theorem releaseOrder_del_first {id : ℕ} {req : TcpReq} {rest : List (ℕ × TcpReq)}
    (h : releaseOrder w.requests = (id, req) :: rest) :
    releaseOrder (requestsDel id w).requests = rest := by
  rw [releaseOrder_del, h]
  exact List.eraseP_cons_of_pos (decide_eq_true rfl)

theorem mem_of_mem_releaseOrder {requests : List (ℕ × TcpReq)} {kv : ℕ × TcpReq}
    (h : kv ∈ releaseOrder requests) : kv ∈ requests := by
  obtain ⟨i, -, hkv⟩ := List.mem_flatMap.mp h
  exact (List.mem_filter.mp hkv).1

/-- What `pc_map_clear` does to a client, request by request: unlink, then release. -/
def releaseAll (release : TcpReq → World → World) (requests : List (ℕ × TcpReq)) (w : World) : World :=
  requests.foldl (fun w kv => w.andThen fun w => release kv.2 (requestsDel kv.1 w)) w

theorem releaseAll_halted {release : TcpReq → World → World} (hhalt : w.halted.isSome = true) :
    ∀ requests, releaseAll release requests w = w
  | [] => rfl
  | kv :: requests => by
    have hstay : (w.andThen fun w => release kv.2 (requestsDel kv.1 w)) = w :=
      World.andThen_of_some hhalt
    rw [releaseAll, List.foldl_cons, hstay]
    exact releaseAll_halted hhalt requests

/-- **Clearing** goes through the buckets in their order, if the callbacks leave the map alone. -/
theorem requestsClear_eq {release : TcpReq → World → World}
    (hkeeps : ∀ req w, (release req w).requests = w.requests) :
    ∀ (n : ℕ) (w : World), w.halted = none → w.requests.length ≤ n →
      requestsClear release n w = releaseAll release (releaseOrder w.requests) w
  | 0, w, _, hlen => by
    have hnone : releaseOrder w.requests = [] := by
      refine List.eq_nil_iff_forall_not_mem.mpr fun kv hkv => ?_
      have hmem := mem_of_mem_releaseOrder hkv
      rw [List.length_eq_zero_iff.mp (Nat.le_zero.mp hlen)] at hmem
      exact List.not_mem_nil hmem
    rw [hnone]
    rfl
  | n + 1, w, hrun, hlen => by
    rw [requestsClear, requestsFirst_eq_head?]
    cases horder : releaseOrder w.requests with
    | nil => rfl
    | cons kv rest =>
      obtain ⟨id, req⟩ := kv
      have hrest : releaseOrder (release req (requestsDel id w)).requests = rest := by
        rw [hkeeps]
        exact releaseOrder_del_first horder
      have hless : (release req (requestsDel id w)).requests.length ≤ n := by
        have hmem : (id, req) ∈ w.requests := mem_of_mem_releaseOrder (horder ▸ List.mem_cons_self ..)
        have herase := List.length_eraseP_of_mem (p := fun kv => decide (kv.1 = id)) hmem (by simp)
        rw [hkeeps, requestsDel, herase]
        exact Nat.sub_le_of_le_add hlen
      have hfirst : (w.andThen fun w => release req (requestsDel id w)) =
          release req (requestsDel id w) := World.andThen_of_none hrun
      rw [List.head?_cons, releaseAll, List.foldl_cons, hfirst]
      dsimp only
      by_cases hhalt : (release req (requestsDel id w)).halted = none
      · rw [World.andThen_of_none hhalt, requestsClear_eq hkeeps n _ hhalt hless, hrest]
        rfl
      · rw [World.andThen_of_some (Option.isSome_iff_ne_none.mpr hhalt)]
        exact (releaseAll_halted (Option.isSome_iff_ne_none.mpr hhalt) rest).symm

end Clearing

/-! ## The refinement -/

/-- **The pointer map of a client**: it has the capacity that the client asks for, and lists the
requests of the model. -/
structure PcMap.Mirrors (map : PcMap TcpReq) (w : World) : Prop where
  /-- 256 buckets -/
  capacity : map.capacity = requestsCapacity
  /-- the requests -/
  lists : map.Lists (w.requests.map requestPair)

section Refinement

variable {cfg : Config} {map : PcMap TcpReq} {w : World}

/-- A new client has a new map. -/
theorem mirrors_init {links : Pointers MapNode} {reqId : ℕ} {files : ProtoFiles}
    (h : mapInit requestsCapacity links = some map) : map.Mirrors (.init reqId files) := by
  obtain ⟨hlists, hcap, -⟩ := PcMap.lists_init h
  exact ⟨hcap, hlists⟩

theorem PcMap.Mirrors.get (h : map.Mirrors w) (id : ℕ) :
    (∃ fuel value, map.get fuel (idKey id) = some value) ∧
      ∀ fuel value, map.get fuel (idKey id) = some value → value = requestsGet w id := by
  obtain ⟨hreturns, hgives⟩ := h.lists.get (idKey id)
  refine ⟨hreturns, fun fuel value hget => ?_⟩
  rw [hgives fuel value hget, pairOf_requests, requestsGet]
  cases w.requests.lookup id <;> rfl

theorem PcMap.Mirrors.del (h : map.Mirrors w) (id : ℕ) :
    (∃ fuel result, map.del fuel (idKey id) = some result) ∧
      ∀ fuel map' value, map.del fuel (idKey id) = some (map', value) →
        value = requestsGet w id ∧ map'.Mirrors (requestsDel id w) ∧ map'.released = map.released := by
  obtain ⟨hreturns, hgives⟩ := h.lists.del (idKey id)
  refine ⟨hreturns, fun fuel map' value hdel => ?_⟩
  obtain ⟨hvalue, hlists, hcap, hreleased⟩ := hgives fuel map' value hdel
  rw [without_requests] at hlists
  refine ⟨?_, ⟨hcap.trans h.capacity, hlists⟩, hreleased⟩
  rw [hvalue, pairOf_requests, requestsGet]
  cases w.requests.lookup id <;> rfl

/-- The client with a request in its map, in the place of an older one under the same id. -/
def requestsPut (req : TcpReq) (w : World) : World :=
  { w with requests := (requestsDel req.id w).requests ++ [(req.id, req)] }

/-- `pc_map_set` of the model, where both of its allocations succeed: it hangs, or it puts the
request into the map and releases an older one. -/
theorem requestsSet_eq (req : TcpReq) (hpair : w.outcome = true) (hkey : w.called.outcome = true) :
    (PcMap.Jams requestsCapacity (idKey req.id) (w.requests.map requestPair) →
      (requestsSet cfg req w).halted = some .hang) ∧
    (¬ PcMap.Jams requestsCapacity (idKey req.id) (w.requests.map requestPair) →
      requestsSet cfg req w =
        (requestsGet w req.id).elim id (releaseRequest cfg) (requestsPut req w.called.called)) := by
  rw [jams_requests, requestsSet, if_neg (by simp [hpair]), if_neg (by simp [hkey])]
  dsimp only
  have hlookup : requestsGet w.called.called req.id = w.requests.lookup req.id := rfl
  rw [hlookup, requestsGet]
  cases hget : w.requests.lookup req.id with
  | none =>
    -- nothing is erased
    have hsame : (w.requests.eraseP fun kv => kv.1 = req.id) = w.requests := by
      refine List.eraseP_of_forall_not fun kv hkv hid => ?_
      have hother := List.lookup_eq_none_iff.mp hget kv hkv
      rw [of_decide_eq_true hid] at hother
      simp at hother
    refine ⟨fun hjams => absurd rfl hjams.1, fun _ => ?_⟩
    rw [requestsPut, requestsDel]
    exact congrArg (fun rest => { w.called.called with requests := rest ++ [(req.id, req)] }) hsame.symm
  | some old =>
    constructor
    · intro hjams
      have hany : ((requestsDel req.id w.called.called).requests.any fun kv =>
          requestBucket kv.1 = requestBucket req.id) = true := hjams.2
      dsimp only
      rw [if_pos hany]
      rfl
    · intro hfree
      have hany : ¬ ((requestsDel req.id w.called.called).requests.any fun kv =>
          requestBucket kv.1 = requestBucket req.id) = true :=
        fun hany => hfree ⟨Option.some_ne_none old, hany⟩
      dsimp only
      rw [if_neg hany]
      rfl

/-- **`pc_map_set`.** -/
theorem PcMap.Mirrors.set (h : map.Mirrors w) (req : TcpReq) (hpair : w.outcome = true)
    (hkey : w.called.outcome = true) :
    ((∀ fuel, map.set fuel (idKey req.id) (some req) = none) ∧
      (requestsSet cfg req w).halted = some .hang) ∨
    ((∃ fuel map', map.set fuel (idKey req.id) (some req) = some map') ∧
      requestsSet cfg req w =
        (requestsGet w req.id).elim id (releaseRequest cfg) (requestsPut req w.called.called) ∧
      ∀ fuel map', map.set fuel (idKey req.id) (some req) = some map' →
        map'.Mirrors (requestsPut req w.called.called) ∧
          map'.released.map Prod.snd =
            ((requestsGet w req.id).map fun old => requestPair (req.id, old)).toList ++
              map.released.map Prod.snd) := by
  obtain ⟨hhangs, hputs⟩ := @requestsSet_eq cfg w req hpair hkey
  by_cases hjams : PcMap.Jams requestsCapacity (idKey req.id) (w.requests.map requestPair)
  · refine .inl ⟨fun fuel => ?_, hhangs hjams⟩
    rcases hset : map.set fuel (idKey req.id) (some req) with _ | map'
    · rfl
    · obtain ⟨-, hfree, -⟩ := h.lists.set hset
      rw [h.capacity] at hfree
      exact absurd hjams hfree
  · refine .inr ⟨h.lists.set_returns _ (by rw [h.capacity]; exact hjams), hputs hjams, ?_⟩
    intro fuel map' hset
    obtain ⟨hlists, -, hcap, hreleased⟩ := h.lists.set hset
    rw [without_requests] at hlists
    refine ⟨⟨hcap.trans h.capacity, ?_⟩, ?_⟩
    · rw [requestsPut, List.map_append]
      exact hlists
    · rw [hreleased, pairOf_requests]
      rfl

/-- **`pc_map_clear`.** -/
theorem PcMap.Mirrors.clear (h : map.Mirrors w) :
    (∃ fuel map', map.clear fuel = some map') ∧
      ∀ fuel map', map.clear fuel = some map' →
        map'.Mirrors { w with requests := [] } ∧
          map'.released.map Prod.snd =
            ((releaseOrder w.requests).map requestPair).reverse ++ map.released.map Prod.snd := by
  obtain ⟨hreturns, hgives⟩ := h.lists.clear
  refine ⟨hreturns, fun fuel map' hclear => ?_⟩
  obtain ⟨hlists, hcap, hreleased⟩ := hgives fuel map' hclear
  rw [h.capacity, bucketOrder_requests] at hreleased
  exact ⟨⟨hcap.trans h.capacity, hlists⟩, hreleased⟩

/-- **The pointer map serves the client**: what the model says about a call is what the call does.
-/
structure PcMap.Serves (map : PcMap TcpReq) (w : World) : Prop where
  /-- `pc_map_get` -/
  get : ∀ id, (∃ fuel value, map.get fuel (idKey id) = some value) ∧
    ∀ fuel value, map.get fuel (idKey id) = some value → value = requestsGet w id
  /-- `pc_map_del` -/
  del : ∀ id, (∃ fuel result, map.del fuel (idKey id) = some result) ∧
    ∀ fuel map' value, map.del fuel (idKey id) = some (map', value) →
      value = requestsGet w id ∧ map'.Mirrors (requestsDel id w) ∧ map'.released = map.released
  /-- `pc_map_set`, with allocations that succeed -/
  set : ∀ cfg req, w.outcome = true → w.called.outcome = true →
    ((∀ fuel, map.set fuel (idKey req.id) (some req) = none) ∧
      (requestsSet cfg req w).halted = some .hang) ∨
    ((∃ fuel map', map.set fuel (idKey req.id) (some req) = some map') ∧
      requestsSet cfg req w =
        (requestsGet w req.id).elim id (releaseRequest cfg) (requestsPut req w.called.called) ∧
      ∀ fuel map', map.set fuel (idKey req.id) (some req) = some map' →
        map'.Mirrors (requestsPut req w.called.called) ∧
          map'.released.map Prod.snd =
            ((requestsGet w req.id).map fun old => requestPair (req.id, old)).toList ++
              map.released.map Prod.snd)
  /-- `pc_map_clear` -/
  clear : (∃ fuel map', map.clear fuel = some map') ∧
    ∀ fuel map', map.clear fuel = some map' →
      map'.Mirrors { w with requests := [] } ∧
        map'.released.map Prod.snd =
          ((releaseOrder w.requests).map requestPair).reverse ++ map.released.map Prod.snd
  /-- the model clears in the same order -/
  order : ∀ release : TcpReq → World → World, (∀ req w, (release req w).requests = w.requests) →
    w.halted = none →
    requestsClear release w.requests.length w = releaseAll release (releaseOrder w.requests) w

/-- **The request map of the client model is the hash map of `map.c`.** -/
theorem request_map_refines (h : map.Mirrors w) : map.Serves w where
  get := h.get
  del := h.del
  set _ req hpair hkey := h.set req hpair hkey
  clear := h.clear
  order _ hkeeps hrun := requestsClear_eq hkeeps _ w hrun (Nat.le_refl _)

end Refinement

/-- A new request finds its place. -/
theorem PcMap.Mirrors.put {map : PcMap TcpReq} {w : World} (h : map.Mirrors w) (req : TcpReq)
    (hnew : requestsGet w req.id = none) (hpair : w.outcome = true) (hkey : w.called.outcome = true) :
    ∃ map' : PcMap TcpReq, map'.Mirrors (requestsPut req w.called.called) := by
  have hfree : ¬ PcMap.Jams map.capacity (idKey req.id) (w.requests.map requestPair) := by
    rw [h.capacity]
    exact fun hjams => (jams_requests.mp hjams).1 hnew
  obtain ⟨fuel, map', hset⟩ := h.lists.set_returns (some req) hfree
  rcases @PcMap.Mirrors.set (plainConfig true) map w h req hpair hkey with ⟨hhangs, -⟩ | ⟨-, -, hgives⟩
  · rw [hhangs fuel] at hset
    exact absurd hset (by simp)
  · exact ⟨map', (hgives fuel map' hset).1⟩

/-- Two requests in one bucket. -/
theorem request_map_refines_crowded :
    ∃ (map : PcMap TcpReq) (w : World), map.Serves w ∧ w.requests.map Prod.fst = [12, 21] ∧
      requestBucket 12 = requestBucket 21 := by
  obtain ⟨map₀, hinit⟩ : ∃ map₀ : PcMap TcpReq, mapInit requestsCapacity ⟨id, id⟩ = some map₀ :=
    ⟨_, rfl⟩
  have hmirrors : map₀.Mirrors plainInit := mirrors_init hinit
  obtain ⟨map₁, h₁⟩ := hmirrors.put ⟨0, .request, 12, 0, [97], none⟩ rfl rfl rfl
  obtain ⟨map₂, h₂⟩ := h₁.put ⟨1, .request, 21, 0, [97], none⟩ rfl rfl rfl
  exact ⟨map₂, _, request_map_refines h₂, rfl, by decide +kernel⟩

end Libpomelo
