import Libpomelo.MapReplace

/-!
# The map as its caller sees it

A caller that stores no `NULL` and sets no key that has a value sees a function from keys to
values (`PcMap.Stores`). For such a caller every `pc_map_get`, `pc_map_set` and `pc_map_del`
returns, with one round more than pairs were made, and does to the function what its name
says.
-/

namespace Libpomelo

variable {α : Type}

/-- The map is open and holds the values `f`; no `NULL` was stored. -/
def PcMap.Stores (map : PcMap α) (f : CString → Option α) : Prop :=
  ∃ capacity links map₀ calls results, mapInit capacity links = some map₀ ∧
    PcMap.Run map₀ calls results map ∧ .close ∉ calls ∧ (∀ key, lastValue key calls = f key) ∧
    ∀ p, (p, .present) ∈ history calls → p.value ≠ none

/-- A new map holds nothing. -/
theorem stores_init {capacity : ℕ} {links : Pointers MapNode} {map : PcMap α}
    (h : mapInit capacity links = some map) : map.Stores fun _ => none :=
  ⟨capacity, links, map, [], [], h, .nil, List.not_mem_nil, fun _ => rfl,
    fun _ hp => absurd hp List.not_mem_nil⟩

namespace PcMap

variable {map map' : PcMap α} {f : CString → Option α}

theorem Stores.keeps (h : map.Stores f) : ∃ book, map.Keeps book ∧ map.buckets = true := by
  obtain ⟨capacity, links, map₀, calls, results, hinit, hrun, hopen, -⟩ := h
  exact ⟨_, (run_keeps hinit hrun).1, run_buckets hinit hrun hopen⟩

/-- **One call** changes the function, and answers from it. -/
theorem Stores.call {call : MapCall α} {fuel : ℕ} {result : Option α} (h : map.Stores f)
    (hcall : map.call fuel call = some (map', result)) (hopen : call ≠ .close)
    (hsome : ∀ key, call ≠ .set key none) :
    (map'.Stores fun key => call.valueAfter key (f key)) ∧
      ∀ key, call = .get key ∨ call = .del key → result = f key := by
  obtain ⟨capacity, links, map₀, calls, results, hinit, hrun, hclosed, hvalues, hstored⟩ := h
  constructor
  · refine ⟨capacity, links, map₀, calls ++ [call], results ++ [result], hinit, hrun.snoc hcall,
      ?_, fun key => ?_, fun p hp => ?_⟩
    · rw [List.mem_append, List.mem_singleton, not_or]
      exact ⟨hclosed, Ne.symm hopen⟩
    · rw [lastValue_snoc, hvalues]
    · rw [history_snoc] at hp
      rcases List.mem_append.mp hp with hold | hnew
      · obtain ⟨e, he, hsettled⟩ := List.mem_map.mp hold
        exact hstored p ((settle_eq_present hsettled).1 ▸ he)
      · cases call with
        | set key value =>
          obtain ⟨rfl, -⟩ := Prod.mk.inj (List.mem_singleton.mp hnew)
          exact fun hnone => hsome key (congrArg _ hnone)
        | get => exact absurd hnew List.not_mem_nil
        | del => exact absurd hnew List.not_mem_nil
        | clear => exact absurd hnew List.not_mem_nil
        | close => exact absurd hnew List.not_mem_nil
  · intro key hkey
    obtain ⟨-, -, hanswer⟩ := call_spec (run_keeps hinit hrun).1 hcall
    rw [← hvalues]
    exact (hanswer key hkey).lastValue

/-- `pc_map_get` gives the value. -/
theorem Stores.get (h : map.Stores f) (key : CString) :
    map.get (map.made + 1) key = some (f key) := by
  obtain ⟨book, hkeeps, hopen⟩ := h.keeps
  obtain ⟨value, hget⟩ := Option.isSome_iff_exists.mp (get_returns hkeeps hopen key)
  have hcall : map.call (map.made + 1) (.get key) = some (map, value) := by
    rw [PcMap.call, hget]
    rfl
  obtain ⟨-, hanswer⟩ := h.call hcall (by simp) (by simp)
  rw [hget, hanswer key (.inl rfl)]

/-- `pc_map_del` gives the value and takes it out. -/
theorem Stores.del (h : map.Stores f) (key : CString) :
    ∃ map', map.del (map.made + 1) key = some (map', f key) ∧
      map'.Stores (Function.update f key none) := by
  obtain ⟨book, hkeeps, hopen⟩ := h.keeps
  obtain ⟨⟨map', value⟩, hdel⟩ := Option.isSome_iff_exists.mp (del_returns hkeeps hopen key)
  have hcall : map.call (map.made + 1) (.del key) = some (map', value) := hdel
  obtain ⟨hstores, hanswer⟩ := h.call hcall (by simp) (by simp)
  have hupdate : (fun key' => (MapCall.del key).valueAfter key' (f key')) =
      Function.update f key none := by
    funext key'
    rcases eq_or_ne key' key with rfl | hne
    · rw [Function.update_self, MapCall.valueAfter, if_pos rfl]
    · rw [Function.update_of_ne hne, MapCall.valueAfter, if_neg hne.symm]
  exact ⟨map', by rw [hdel, hanswer key (.inr rfl)], hupdate ▸ hstores⟩

/-- A key without a value is not there: no value is `NULL`. -/
theorem Stores.absent (h : map.Stores f) {key : CString} (hkey : f key = none) :
    ∃ table book, map.Holds table book ∧ ∀ n p, book n = some (p, .present) → p.key ≠ key := by
  obtain ⟨capacity, links, map₀, calls, results, hinit, hrun, -, hvalues, hstored⟩ := h
  obtain ⟨⟨⟨table, hH⟩, -⟩, -⟩ := run_keeps hinit hrun
  refine ⟨table, _, hH, ?_⟩
  rintro n ⟨key', value⟩ hp rfl
  have hmem := List.mem_of_getElem? hp
  apply hstored _ hmem
  rw [← (lastValue_history key' calls).1 value hmem, hvalues]
  exact hkey

/-- `pc_map_set` of a key without a value gives it one. -/
theorem Stores.set (h : map.Stores f) {key : CString} (hkey : f key = none) (value : α) :
    ∃ map', map.set (map.made + 1) key (some value) = some map' ∧
      map'.Stores (Function.update f key (some value)) := by
  obtain ⟨-, -, hopen⟩ := h.keeps
  obtain ⟨table, book, hH, habsent⟩ := h.absent hkey
  have hH₁ := hH.alloc ⟨key, some value⟩
  have hlen := hH.length_le (hH.bucket_lt key)
  have hloop := hH₁.unlinkOld_returns habsent (map.made + 1) [] _ rfl (Nat.lt_succ_of_le hlen)
  rw [← hH₁.walk_start (hH₁.bucket_lt key)] at hloop
  obtain ⟨map', hset⟩ := Option.isSome_iff_exists.mp (set_returns_of_loop hopen hloop)
  have hcall : map.call (map.made + 1) (.set key (some value)) = some (map', none) := by
    rw [PcMap.call, hset]
    rfl
  obtain ⟨hstores, -⟩ := h.call hcall (by simp) (by simp)
  have hupdate : (fun key' => (MapCall.set key (some value)).valueAfter key' (f key')) =
      Function.update f key (some value) := by
    funext key'
    rcases eq_or_ne key' key with rfl | hne
    · rw [Function.update_self, MapCall.valueAfter, if_pos rfl]
    · rw [Function.update_of_ne hne, MapCall.valueAfter, if_neg hne.symm]
  exact ⟨map', hset, hupdate ▸ hstores⟩

end PcMap

end Libpomelo
