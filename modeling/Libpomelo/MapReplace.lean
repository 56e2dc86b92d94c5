import Libpomelo.MapRefinement

/-!
# When `pc_map_set` returns

`pc_map_set` is documented as "add or modify". Its loop unlinks a pair with the key and
re-initialises the node it stands on before `ngx_queue_foreach` asks that node for its
successor:

* a key that is not in the map is added after one walk over its bucket;
* a key that is alone in its bucket is replaced, since the bucket is then empty and the
  loop ends at its second test;
* a key that shares its bucket with another is never replaced: the walk stands on a
  node that points to itself.
-/

namespace Libpomelo

variable {α : Type}

namespace PcMap

/-- **Crowded.** After the calls the key has a value, and so has another key of the same
bucket. -/
def Crowded (calls : List (MapCall α)) (capacity : ℕ) (key : CString) : Prop :=
  ∃ p p' : MapPair α, (p, .present) ∈ history calls ∧ (p', .present) ∈ history calls ∧
    p.key = key ∧ p'.key ≠ key ∧ p'.key.hash % capacity = key.hash % capacity

/-- `pc_map_set`, `pc_map_get`, `pc_map_del` and `pc_map_clear` keep the bucket array. -/
theorem call_buckets {map map' : PcMap α} {book : MapBook α} {fuel : ℕ} {call : MapCall α}
    {result : Option α} (h : map.Keeps book) (hcall : map.call fuel call = some (map', result))
    (hopen : call ≠ .close) : map'.buckets = map.buckets := by
  cases call with
  | set key value =>
    obtain ⟨map₁, hset, he⟩ := Option.map_eq_some_iff.mp hcall
    obtain ⟨rfl, -⟩ := Prod.mk.inj he
    rw [set] at hset
    split at hset
    · obtain ⟨⟨links, old⟩, -, hend⟩ := Option.bind_eq_some_iff.mp hset
      rcases old with _ | ⟨n, pair⟩
      · obtain rfl := Option.some.inj hend
        rfl
      · obtain rfl := Option.some.inj hend
        rfl
    · cases hset
  | get key =>
    obtain ⟨value, -, he⟩ := Option.map_eq_some_iff.mp hcall
    obtain ⟨rfl, -⟩ := Prod.mk.inj he
    rfl
  | del key =>
    rw [call, del] at hcall
    split at hcall
    · obtain ⟨found, -, hend⟩ := Option.bind_eq_some_iff.mp hcall
      rcases found with _ | ⟨n, pair⟩
      · obtain ⟨rfl, -⟩ := Prod.mk.inj (Option.some.inj hend)
        rfl
      · obtain ⟨rfl, -⟩ := Prod.mk.inj (Option.some.inj hend)
        rfl
    · cases hcall
  | clear =>
    obtain ⟨map₁, hclear, he⟩ := Option.map_eq_some_iff.mp hcall
    obtain ⟨rfl, -⟩ := Prod.mk.inj he
    rw [clear] at hclear
    split at hclear
    · obtain ⟨-, -, -, ⟨-, hbuckets, -⟩, -⟩ := clearBuckets_spec h (Nat.le_refl _) hclear
      exact hbuckets
    · obtain rfl := Option.some.inj hclear
      rfl
  | close => exact absurd rfl hopen

/-- A map that was not closed has its buckets. -/
theorem run_buckets {capacity : ℕ} {links : Pointers MapNode} {map₀ map : PcMap α}
    {calls : List (MapCall α)} {results : List (Option α)}
    (hinit : mapInit capacity links = some map₀) (hrun : map₀.Run calls results map)
    (hopen : .close ∉ calls) : map.buckets = true := by
  induction hrun with
  | nil =>
    unfold mapInit at hinit
    dsimp only at hinit
    generalize (if capacity < mapDefaultCapacity then mapDefaultCapacity else capacity) = buckets
      at hinit
    split at hinit
    · cases hinit
    · obtain rfl := Option.some.inj hinit
      rfl
  | snoc hrun hcall ih =>
    obtain ⟨hkeeps, -⟩ := run_keeps hinit hrun
    rw [List.mem_append, List.mem_singleton, not_or] at hopen
    rw [call_buckets hkeeps hcall (Ne.symm hopen.2), ih hopen.1]

/-- In the ledger of a run, "no other pair in the bucket" is "not crowded": a present pair
with the same key is the same pair. -/
theorem free_book_iff {capacity : ℕ} {links : Pointers MapNode} {map₀ map : PcMap α}
    {calls : List (MapCall α)} {results : List (Option α)}
    (hinit : mapInit capacity links = some map₀) (hrun : map₀.Run calls results map)
    (hopen : .close ∉ calls) (key : CString) (value : Option α) :
    map.Free (book calls) (.set key value) ↔ ¬ Crowded calls map.capacity key := by
  obtain ⟨⟨⟨table, hH⟩, -⟩, -⟩ := run_keeps hinit hrun
  constructor
  · rintro ⟨-, hfree⟩ ⟨p, p', hp, hp', hkey, hkey', hb⟩
    obtain ⟨n, hn⟩ := List.mem_iff_getElem?.mp hp
    obtain ⟨n', hn'⟩ := List.mem_iff_getElem?.mp hp'
    obtain rfl := hfree n p n' p' hn hn' hkey hb
    obtain rfl := (Prod.mk.inj (Option.some.inj (hn.symm.trans hn'))).1
    exact hkey' hkey
  · intro hcrowded
    refine ⟨run_buckets hinit hrun hopen, fun n p n' p' hn hn' hkey hb => ?_⟩
    by_cases hkey' : p'.key = key
    · exact hH.unique n' n p' p hn' hn (hkey'.trans hkey.symm)
    · exact absurd ⟨p, p', List.mem_of_getElem? hn, List.mem_of_getElem? hn', hkey, hkey', hb⟩
        hcrowded

end PcMap

/-- **When a set returns.** On a map of any capacity, after any run of calls other than
`pc_map_close`, `pc_map_set` of a key returns if and only if the key is not crowded. -/
theorem set_terminates_iff {capacity : ℕ} {links : Pointers MapNode} {map₀ map : PcMap α}
    {calls : List (MapCall α)} {results : List (Option α)}
    (hinit : mapInit capacity links = some map₀) (hrun : map₀.Run calls results map)
    (hopen : .close ∉ calls) (key : CString) (value : Option α) :
    (∃ fuel, (map.set fuel key value).isSome) ↔ ¬ PcMap.Crowded calls map.capacity key := by
  obtain ⟨hkeeps, -⟩ := PcMap.run_keeps hinit hrun
  rw [PcMap.set_returns_iff hkeeps key value, PcMap.free_book_iff hinit hrun hopen]

/-- Two keys that share a bucket. -/
def crowdingCalls : List (MapCall ℕ) := [.set keyAB (some 1), .set keyBA (some 2)]

theorem crowdingCalls_run : ∃ map₀ map : PcMap ℕ, mapInit 1 ⟨id, id⟩ = some map₀ ∧
    map₀.Run crowdingCalls [none, none] map ∧ map.capacity = 64 := by
  have hrun : ((mapInit 1 ⟨id, id⟩).bind fun map₀ : PcMap ℕ => map₀.runCalls 2 crowdingCalls).map
      (fun r => (r.2, r.1.capacity)) = some ([none, none], 64) := by
    decide +kernel
  obtain ⟨⟨map, results⟩, hcalls, he⟩ := Option.map_eq_some_iff.mp hrun
  obtain ⟨map₀, hinit, hcalls⟩ := Option.bind_eq_some_iff.mp hcalls
  obtain ⟨rfl, hcapacity⟩ := Prod.mk.inj he
  exact ⟨map₀, map, hinit, run_of_runCalls PcMap.Run.nil hcalls, hcapacity⟩

/-- In the map with these two keys a third one can be set. -/
theorem set_terminates_third : ∃ map₀ map : PcMap ℕ, mapInit 1 ⟨id, id⟩ = some map₀ ∧
    map₀.Run crowdingCalls [none, none] map ∧
      ∃ fuel, (map.set fuel ⟨[97], by decide⟩ (some 3)).isSome := by
  obtain ⟨map₀, map, hinit, hrun, hcapacity⟩ := crowdingCalls_run
  refine ⟨map₀, map, hinit, hrun,
    (set_terminates_iff hinit hrun (by simp [crowdingCalls]) _ _).mpr ?_⟩
  rintro ⟨p, p', hp, -, hkey, -⟩
  simp [crowdingCalls, history, fate, Fate.after] at hp
  rcases hp with ⟨rfl, -⟩ | ⟨rfl, -⟩
  · cases hkey
  · cases hkey

/-- Neither of the two can be replaced: the call of `pc_map_set` has no result for any
number of rounds. -/
theorem not_set_terminates_anagram : ∃ map₀ map : PcMap ℕ, mapInit 1 ⟨id, id⟩ = some map₀ ∧
    map₀.Run crowdingCalls [none, none] map ∧
      ¬ ∃ fuel, (map.set fuel keyAB (some 3)).isSome := by
  obtain ⟨map₀, map, hinit, hrun, hcapacity⟩ := crowdingCalls_run
  obtain ⟨hkeeps, -⟩ := PcMap.run_keeps hinit hrun
  refine ⟨map₀, map, hinit, hrun, fun hset => ?_⟩
  obtain ⟨-, hfree⟩ := (PcMap.set_returns_iff hkeeps keyAB (some 3)).mp hset
  have hone := hfree 0 ⟨keyAB, some 1⟩ 1 ⟨keyBA, some 2⟩ rfl rfl rfl (by rw [hcapacity]; rfl)
  exact absurd hone (by decide)

end Libpomelo
