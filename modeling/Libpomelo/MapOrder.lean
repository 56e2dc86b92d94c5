import Libpomelo.MapRefinement

/-!
# The order of the hash map

`map_refines` says which values a map has. Which of them `pc_map_clear` releases first, and which of
two keys `pc_map_set` walks past, depends on the order in the buckets. `PcMap.Lists map pairs` is
the finer view: the map holds the pairs of an ordinary list, each bucket its own in the order of the
list. A `pc_map_del` erases from the list, a `pc_map_set` erases and appends, and a `pc_map_clear`
releases bucket by bucket and in each bucket from the front (`bucketOrder`).
-/

namespace Libpomelo

variable {α : Type}

/-! ## The list -/

/-- The first pair with the key. -/
def pairOf (key : CString) (pairs : List (MapPair α)) : Option (MapPair α) :=
  pairs.find? fun p => p.key = key

/-- The list without the first pair with the key. -/
def without (key : CString) (pairs : List (MapPair α)) : List (MapPair α) :=
  pairs.eraseP fun p => p.key = key

/-- The pairs of one bucket. -/
def bucketOf (capacity i : ℕ) (pairs : List (MapPair α)) : List (MapPair α) :=
  pairs.filter fun p => p.key.hash % capacity = i

/-- The pairs of the first `k` buckets, one bucket after the other. -/
def bucketOrder (capacity k : ℕ) (pairs : List (MapPair α)) : List (MapPair α) :=
  (List.range k).flatMap fun i => bucketOf capacity i pairs

section Lists

variable {key : CString} {pairs : List (MapPair α)} {capacity i : ℕ}

/-- Erasing what a filter drops anyway. -/
theorem filter_eraseP_of_disjoint {β : Type} {p q : β → Bool} (h : ∀ x, p x = true → q x = false) :
    ∀ l : List β, (l.eraseP p).filter q = l.filter q
  | [] => rfl
  | x :: l => by
    by_cases hx : p x = true
    · rw [List.eraseP_cons_of_pos hx, List.filter_cons_of_neg (by rw [h x hx]; decide)]
    · rw [List.eraseP_cons_of_neg hx, List.filter_cons, List.filter_cons,
        filter_eraseP_of_disjoint h l]

/-- Erasing what a filter keeps. -/
theorem filter_eraseP_of_imp {β : Type} {p q : β → Bool} (h : ∀ x, p x = true → q x = true)
    (l : List β) : (l.eraseP p).filter q = (l.filter q).eraseP p := by
  have hand : (fun x => p x && q x) = p := by
    funext x
    cases hx : p x with
    | false => rfl
    | true => rw [h x hx]; rfl
  rw [List.eraseP_filter, hand]

/-- Another bucket keeps its pairs. -/
theorem bucketOf_without_of_ne (h : key.hash % capacity ≠ i) :
    bucketOf capacity i (without key pairs) = bucketOf capacity i pairs := by
  refine filter_eraseP_of_disjoint (fun p hp => ?_) pairs
  rw [of_decide_eq_true hp]
  exact decide_eq_false h

/-- The bucket of the key loses the pair. -/
theorem bucketOf_without_self :
    bucketOf capacity (key.hash % capacity) (without key pairs) =
      without key (bucketOf capacity (key.hash % capacity) pairs) := by
  refine filter_eraseP_of_imp (fun p hp => ?_) pairs
  rw [of_decide_eq_true hp]
  exact decide_eq_true rfl

theorem bucketOf_append (pairs' : List (MapPair α)) :
    bucketOf capacity i (pairs ++ pairs') = bucketOf capacity i pairs ++ bucketOf capacity i pairs' :=
  List.filter_append ..

theorem bucketOf_singleton_self (p : MapPair α) :
    bucketOf capacity (p.key.hash % capacity) [p] = [p] :=
  List.filter_cons_of_pos (decide_eq_true rfl)

theorem bucketOf_singleton_of_ne {p : MapPair α} (h : p.key.hash % capacity ≠ i) :
    bucketOf capacity i [p] = [] :=
  List.filter_cons_of_neg (by simpa using h)

/-- A key without a pair. -/
theorem without_of_pairOf_eq_none (h : pairOf key pairs = none) : without key pairs = pairs :=
  List.eraseP_of_forall_not (List.find?_eq_none.mp h)

/-- Where the pair with the key comes first, the rest is left. -/
theorem without_cons (p : MapPair α) : without p.key (p :: pairs) = pairs :=
  List.eraseP_cons_of_pos (decide_eq_true rfl)

theorem without_append_right {before : List (MapPair α)} (h : ∀ p ∈ before, p.key ≠ key) :
    without key (before ++ pairs) = before ++ without key pairs :=
  List.eraseP_append_right _ fun p hp => by simpa using h p hp

end Lists

/-! ## The view -/

/-- The buckets, read with what is allocated, show these pairs. -/
def Shows (capacity : ℕ) (memory : ℕ → Option (MapPair α)) (table : ℕ → List ℕ)
    (pairs : List (MapPair α)) : Prop :=
  ∀ i, (table i).map memory = (bucketOf capacity i pairs).map some

/-- **The ordered view.** The map is open, and each of its buckets holds its own of these pairs, in
their order. -/
structure PcMap.Lists (map : PcMap α) (pairs : List (MapPair α)) : Prop where
  /-- it is open -/
  isOpen : map.buckets = true
  /-- the pairs -/
  shows : ∃ table book, map.Holds table book ∧ Shows map.capacity map.pairs table pairs

section Shows

variable {map : PcMap α} {memory : ℕ → Option (MapPair α)} {table : ℕ → List ℕ} {book : MapBook α}
  {pairs : List (MapPair α)} {key : CString} {n : ℕ} {p : MapPair α}

/-- What is listed is present. -/
theorem Shows.mem_iff (h : map.Holds table book) (hs : Shows map.capacity map.pairs table pairs) :
    p ∈ pairs ↔ ∃ n, book n = some (p, .present) := by
  constructor
  · intro hp
    have hmem : some p ∈ (table (p.key.hash % map.capacity)).map map.pairs := by
      rw [hs]
      exact List.mem_map_of_mem (List.mem_filter.mpr ⟨hp, decide_eq_true rfl⟩)
    obtain ⟨n, hn, hpair⟩ := List.mem_map.mp hmem
    obtain ⟨p', hp', -⟩ := (h.mem_table _ n).mp hn
    rw [h.allocated n p' hp'] at hpair
    obtain rfl := Option.some.inj hpair
    exact ⟨n, hp'⟩
  · rintro ⟨n, hn⟩
    have hmem : map.pairs n ∈ (table (p.key.hash % map.capacity)).map map.pairs :=
      List.mem_map_of_mem (h.mem_own hn)
    rw [hs, h.allocated n p hn] at hmem
    obtain ⟨p', hp', heq⟩ := List.mem_map.mp hmem
    obtain rfl := Option.some.inj heq
    exact (List.mem_filter.mp hp').1

/-- An empty bucket shows nothing. -/
theorem Shows.bucketOf_eq_nil {capacity i : ℕ} (hs : Shows capacity memory table pairs)
    (hnil : table i = []) : bucketOf capacity i pairs = [] := by
  have hbucket := hs i
  rw [hnil] at hbucket
  exact List.map_eq_nil_iff.mp hbucket.symm

/-- The bucket of the first pair that is shown. -/
theorem Shows.bucketOf_eq_cons {capacity i : ℕ} {ns : List ℕ}
    (hs : Shows capacity memory table pairs) (hcons : table i = n :: ns) (hn : memory n = some p) :
    ∃ rest, bucketOf capacity i pairs = p :: rest := by
  have hbucket := hs i
  rw [hcons, List.map_cons, hn] at hbucket
  obtain ⟨p', rest, hrest, hp', -⟩ := List.map_eq_cons_iff.mp hbucket.symm
  obtain rfl := Option.some.inj hp'
  exact ⟨rest, hrest⟩

/-- **A walk through the bucket** finds the pair that is listed. -/
theorem Shows.pairOf (h : map.Holds table book) (hs : Shows map.capacity map.pairs table pairs)
    {found : Option (ℕ × MapPair α)}
    (hfound : PcMap.Holds.Found book key (table (key.hash % map.capacity)) found) :
    Libpomelo.pairOf key pairs = found.map Prod.snd := by
  cases found with
  | none =>
    refine List.find?_eq_none.mpr fun p hp => ?_
    obtain ⟨n, hn⟩ := (hs.mem_iff h).mp hp
    simpa using h.absent hfound n p hn
  | some found =>
    obtain ⟨n, p⟩ := found
    obtain ⟨hn, hkey⟩ := hfound
    have hmem : p ∈ pairs := (hs.mem_iff h).mpr ⟨n, hn⟩
    cases hfind : Libpomelo.pairOf key pairs with
    | none => exact absurd hkey (by simpa using List.find?_eq_none.mp hfind p hmem)
    | some p' =>
      -- the keys of present pairs are different
      have hkey' : p'.key = key := by simpa using List.find?_some hfind
      obtain ⟨n', hn'⟩ := (hs.mem_iff h).mp (List.mem_of_find?_eq_some hfind)
      obtain rfl := h.unique n n' p p' hn hn' (hkey.trans hkey'.symm)
      rw [hn] at hn'
      obtain ⟨rfl, -⟩ := Prod.mk.inj (Option.some.inj hn')
      rfl

/-- What is not present may come and go. -/
theorem Shows.congr (h : map.Holds table book) (hs : Shows map.capacity map.pairs table pairs)
    (hpairs : ∀ n p, book n = some (p, .present) → memory n = map.pairs n) :
    Shows map.capacity memory table pairs := by
  intro i
  rw [← hs i]
  refine List.map_congr_left fun n hn => ?_
  obtain ⟨p, hp, -⟩ := (h.mem_table i n).mp hn
  exact hpairs n p hp

/-- **Unlinking** a pair erases it from the list. -/
theorem Shows.unlink (h : map.Holds table book) (hs : Shows map.capacity map.pairs table pairs)
    (hn : book n = some (p, .present)) {xs ys : List ℕ}
    (hxy : table (p.key.hash % map.capacity) = xs ++ n :: ys)
    (hpairs : ∀ m, m ≠ n → memory m = map.pairs m) :
    Shows map.capacity memory (Function.update table (p.key.hash % map.capacity) (xs ++ ys))
      (without p.key pairs) := by
  intro i
  by_cases hi : p.key.hash % map.capacity = i
  · subst hi
    have hnd : (xs ++ n :: ys).Nodup := by
      rw [← hxy]
      exact ((List.nodup_cons.mp (h.ring _ (h.bucket_lt p.key)).nodup).2).of_map _
    have hnot : n ∉ xs ++ ys := (List.nodup_cons.mp (List.nodup_middle.mp hnd)).1
    have hsplit := hs (p.key.hash % map.capacity)
    rw [hxy, List.map_append, List.map_cons, h.allocated n p hn] at hsplit
    obtain ⟨before, rest, hbucket, hbefore, hrest⟩ := List.map_eq_append_iff.mp hsplit.symm
    obtain ⟨p', after, rfl, hp', hafter⟩ := List.map_eq_cons_iff.mp hrest
    obtain rfl := Option.some.inj hp'
    -- the pair is the first of the bucket with its key
    have hfirst : ∀ r ∈ before, r.key ≠ p'.key := by
      intro r hr hkey
      have hmem : some r ∈ xs.map map.pairs := by
        rw [← hbefore]
        exact List.mem_map_of_mem hr
      obtain ⟨m, hm, hpair⟩ := List.mem_map.mp hmem
      obtain ⟨q, hq, -⟩ := (h.mem_table _ m).mp (hxy ▸ List.mem_append_left _ hm)
      rw [h.allocated m q hq] at hpair
      obtain rfl := Option.some.inj hpair
      obtain rfl := h.unique m n q p' hq hn hkey
      exact hnot (List.mem_append_left _ hm)
    rw [Function.update_self, bucketOf_without_self, hbucket, without_append_right hfirst,
      without_cons, @List.map_append _ _ some before after, hbefore, hafter, ← List.map_append]
    refine List.map_congr_left fun m hm => hpairs m ?_
    rintro rfl
    exact hnot hm
  · rw [Function.update_of_ne (Ne.symm hi), bucketOf_without_of_ne hi, ← hs i]
    refine List.map_congr_left fun m hm => hpairs m ?_
    rintro rfl
    obtain ⟨q, hq, hown⟩ := (h.mem_table i m).mp hm
    rw [hn] at hq
    obtain ⟨rfl, -⟩ := Prod.mk.inj (Option.some.inj hq)
    exact hi hown

/-- **Inserting** a pair appends it to the list. -/
theorem Shows.insert (h : map.Holds table book) (hs : Shows map.capacity map.pairs table pairs)
    (hfresh : ∀ p, book n ≠ some (p, .present)) (hpair : memory n = some p)
    (hpairs : ∀ m, m ≠ n → memory m = map.pairs m) :
    Shows map.capacity memory (Function.update table (p.key.hash % map.capacity)
      (table (p.key.hash % map.capacity) ++ [n])) (pairs ++ [p]) := by
  have hold : ∀ i, (table i).map memory = (bucketOf map.capacity i pairs).map some := by
    intro i
    rw [← hs i]
    refine List.map_congr_left fun m hm => hpairs m ?_
    rintro rfl
    obtain ⟨q, hq, -⟩ := (h.mem_table i m).mp hm
    exact hfresh q hq
  intro i
  rw [bucketOf_append, List.map_append]
  by_cases hi : p.key.hash % map.capacity = i
  · subst hi
    rw [Function.update_self, List.map_append, hold, List.map_singleton, hpair,
      bucketOf_singleton_self]
    rfl
  · rw [Function.update_of_ne (Ne.symm hi), hold, bucketOf_singleton_of_ne hi]
    exact (List.append_nil _).symm

end Shows

/-! ## The calls -/

namespace PcMap

section Calls

variable {map map' : PcMap α} {pairs : List (MapPair α)} {key : CString} {fuel : ℕ}

/-- A new map lists nothing. -/
theorem lists_init {capacity : ℕ} {links : Pointers MapNode} (h : mapInit capacity links = some map) :
    map.Lists [] ∧ map.capacity = max capacity mapDefaultCapacity ∧ map.released = [] := by
  obtain ⟨⟨⟨table, hH⟩, -⟩, -⟩ := keeps_init h
  have hempty : ∀ i, table i = [] := by
    intro i
    refine List.eq_nil_iff_forall_not_mem.mpr fun n hn => ?_
    obtain ⟨p, hp, -⟩ := (hH.mem_table i n).mp hn
    cases hp
  have hshows : Shows map.capacity map.pairs table [] := by
    intro i
    rw [hempty]
    rfl
  have hmax : (if capacity < mapDefaultCapacity then mapDefaultCapacity else capacity) =
      max capacity mapDefaultCapacity := by
    split
    · next hsmall => exact (Nat.max_eq_right (Nat.le_of_lt hsmall)).symm
    · next hlarge => exact (Nat.max_eq_left (Nat.not_lt.mp hlarge)).symm
  unfold mapInit at h
  dsimp only at h
  rw [hmax] at h
  split at h
  · cases h
  · obtain rfl := Option.some.inj h
    exact ⟨⟨rfl, table, _, hH, hshows⟩, rfl, rfl⟩

/-- **`pc_map_get`** returns, and reads the list. -/
theorem Lists.get (h : map.Lists pairs) (key : CString) :
    (∃ fuel value, map.get fuel key = some value) ∧
      ∀ fuel value, map.get fuel key = some value → value = (pairOf key pairs).bind MapPair.value := by
  obtain ⟨hopen, table, book, hH, hs⟩ := h
  constructor
  · obtain ⟨found, hfind⟩ := Option.isSome_iff_exists.mp (hH.find_returns key)
    refine ⟨map.made + 1, found.bind fun r => r.2.value, ?_⟩
    rw [PcMap.get, if_pos hopen]
    cases found with
    | none => simp [hfind]
    | some r => simp [hfind]
  · intro fuel value hget
    rw [PcMap.get, if_pos hopen] at hget
    obtain ⟨found, hfind, hget⟩ := Option.bind_eq_some_iff.mp hget
    rw [hs.pairOf hH (hH.find_head hfind)]
    cases found with
    | none => exact (Option.some.inj hget).symm
    | some r => exact (Option.some.inj hget).symm

/-- **`pc_map_del`** returns, and erases from the list. -/
theorem Lists.del (h : map.Lists pairs) (key : CString) :
    (∃ fuel result, map.del fuel key = some result) ∧
      ∀ fuel map' value, map.del fuel key = some (map', value) →
        value = (pairOf key pairs).bind MapPair.value ∧ map'.Lists (without key pairs) ∧
          map'.capacity = map.capacity ∧ map'.released = map.released := by
  obtain ⟨hopen, table, book, hH, hs⟩ := h
  constructor
  · obtain ⟨found, hfind⟩ := Option.isSome_iff_exists.mp (hH.find_returns key)
    refine ⟨map.made + 1, ?_⟩
    rw [PcMap.del, if_pos hopen]
    cases found with
    | none => simp [hfind]
    | some r => simp [hfind]
  · intro fuel map' value hdel
    rw [PcMap.del, if_pos hopen] at hdel
    obtain ⟨found, hfind, hdel⟩ := Option.bind_eq_some_iff.mp hdel
    have hfound := hH.find_head hfind
    have hpair := hs.pairOf hH hfound
    rw [hpair]
    cases found with
    | none =>
      obtain ⟨rfl, rfl⟩ := Prod.mk.inj (Option.some.inj hdel)
      rw [without_of_pairOf_eq_none hpair]
      exact ⟨rfl, ⟨hopen, table, book, hH, hs⟩, rfl, rfl⟩
    | some r =>
      obtain ⟨n, p⟩ := r
      obtain ⟨rfl, rfl⟩ := Prod.mk.inj (Option.some.inj hdel)
      obtain ⟨hn, rfl⟩ := hfound
      obtain ⟨xs, ys, hxy⟩ := List.append_of_mem (hH.mem_own hn)
      have hfree := (hH.unlink (f := .returned) hn (by decide) hxy).free (n := n) (by simp)
        map.released
      refine ⟨rfl, ⟨hopen, _, _, hfree, ?_⟩, rfl, rfl⟩
      exact hs.unlink hH hn hxy fun m hm => Function.update_of_ne hm ..

/-- A `pc_map_set` of the key does not end: the key has a pair, and its bucket another one. -/
def Jams (capacity : ℕ) (key : CString) (pairs : List (MapPair α)) : Prop :=
  pairOf key pairs ≠ none ∧ bucketOf capacity (key.hash % capacity) (without key pairs) ≠ []

/-- **`pc_map_set`** erases from the list, appends to it and releases what it erased, if it
returns. -/
theorem Lists.set {value : Option α} (h : map.Lists pairs) (hset : map.set fuel key value = some map') :
    map'.Lists (without key pairs ++ [⟨key, value⟩]) ∧ ¬ Jams map.capacity key pairs ∧
      map'.capacity = map.capacity ∧
      map'.released.map Prod.snd = (pairOf key pairs).toList ++ map.released.map Prod.snd := by
  obtain ⟨hopen, table, book, hH, hs⟩ := h
  rw [PcMap.set, if_pos hopen] at hset
  obtain ⟨⟨links, old⟩, hloop, hset⟩ := Option.bind_eq_some_iff.mp hset
  have hfresh := hH.fresh map.made (Nat.le_refl _)
  have hH₁ := hH.alloc ⟨key, value⟩
  have hs₁ : Shows (map.alloc ⟨key, value⟩).capacity (map.alloc ⟨key, value⟩).pairs table pairs :=
    @Shows.congr _ map _ _ _ _ hH hs fun n p hp => Function.update_of_ne (hH.ne_made hp) ..
  have hpair : (map.alloc ⟨key, value⟩).pairs map.made = some ⟨key, value⟩ :=
    Function.update_self ..
  have hmade : map.made < (map.alloc ⟨key, value⟩).made := Nat.lt_succ_self _
  rw [head, hH₁.walk_start (hH₁.bucket_lt key)] at hloop
  rcases hH₁.unlinkOld key fuel [] _ rfl (fun n hn => absurd hn List.not_mem_nil) hloop with
    ⟨rfl, rfl, habsent⟩ | ⟨n, p, rfl, hn, rfl, halone, rfl⟩
  · -- no pair has the key
    obtain rfl := Option.some.inj hset
    have hfound : Holds.Found book key (table (key.hash % map.capacity)) none :=
      fun n _ p hp => habsent n p hp
    have hnone : pairOf key pairs = none := hs.pairOf hH hfound
    have hinsert := hH₁.insert (p := ⟨key, value⟩) hopen hmade hfresh hpair habsent
    have hs₂ := Shows.insert hH₁ hs₁ (fun p hp => hH.ne_made hp rfl) hpair fun _ _ => rfl
    rw [without_of_pairOf_eq_none hnone, hnone]
    exact ⟨⟨hopen, _, _, hinsert, hs₂⟩, fun hjams => hjams.1 hnone, rfl, rfl⟩
  · -- the only pair of the bucket has it
    obtain rfl := Option.some.inj hset
    have hfound : Holds.Found book p.key (table (p.key.hash % map.capacity)) (some (n, p)) :=
      ⟨hn, rfl⟩
    have hsome : pairOf p.key pairs = some p := hs.pairOf hH hfound
    have hne := hH.ne_made hn
    have hH₂ := hH₁.unlink (f := .owed) hn (by decide) (show _ = [] ++ n :: [] from halone)
    have hs₂ := Shows.unlink hH₁ hs₁ hn (show _ = [] ++ n :: [] from halone) fun _ _ => rfl
    have hfresh₂ : Function.update book n (some (p, .owed)) map.made = none := by
      rw [Function.update_of_ne (Ne.symm hne)]
      exact hfresh
    have hinsert := hH₂.insert (p := ⟨p.key, value⟩) hopen hmade hfresh₂ hpair
      (hH₁.absent_of_unlink hn (by decide))
    have hs₃ := Shows.insert hH₂ hs₂ (fun q hq => by rw [hfresh₂] at hq; cases hq) hpair
      fun _ _ => rfl
    have hgone : ∀ q, Function.update (Function.update book n (some (p, .owed))) map.made
        (some (⟨p.key, value⟩, .present)) n ≠ some (q, .present) := by
      simp [Function.update_of_ne hne]
    have hfree := hinsert.free hgone ((n, p) :: map.released)
    have hkept : ∀ m q, Function.update (Function.update book n (some (p, .owed))) map.made
        (some (⟨p.key, value⟩, .present)) m = some (q, .present) →
        Function.update (map.alloc ⟨p.key, value⟩).pairs n none m =
          (map.alloc ⟨p.key, value⟩).pairs m := by
      intro m q hq
      apply Function.update_of_ne
      rintro rfl
      exact hgone q hq
    have hs₄ := Shows.congr hinsert hs₃ hkept
    rw [hsome]
    refine ⟨⟨hopen, _, _, hfree, hs₄⟩, fun hjams => hjams.2 ?_, rfl, rfl⟩
    · exact hs₂.bucketOf_eq_nil (Function.update_self ..)

/-- And it returns, if the key does not jam. -/
theorem Lists.set_returns (h : map.Lists pairs) (value : Option α)
    (hfree : ¬ Jams map.capacity key pairs) : ∃ fuel map', map.set fuel key value = some map' := by
  obtain ⟨hopen, table, book, hH, hs⟩ := h
  have hH₁ := hH.alloc ⟨key, value⟩
  have hstart := hH₁.walk_start (hH₁.bucket_lt key)
  cases hpair : pairOf key pairs with
  | none =>
    have habsent : ∀ n p, book n = some (p, .present) → p.key ≠ key := by
      intro n p hp
      simpa using List.find?_eq_none.mp hpair p ((hs.mem_iff hH).mpr ⟨n, hp⟩)
    have hlen := hH.length_le (hH.bucket_lt key)
    have hloop := hH₁.unlinkOld_returns habsent (map.made + 1) [] _ rfl (Nat.lt_succ_of_le hlen)
    rw [← hstart] at hloop
    obtain ⟨map', hset⟩ := Option.isSome_iff_exists.mp (set_returns_of_loop hopen hloop)
    exact ⟨_, map', hset⟩
  | some p =>
    obtain rfl : p.key = key := by simpa using List.find?_some hpair
    obtain ⟨n, hn⟩ := (hs.mem_iff hH).mp (List.mem_of_find?_eq_some hpair)
    obtain ⟨xs, ys, hxy⟩ := List.append_of_mem (hH.mem_own hn)
    have hempty : bucketOf map.capacity (p.key.hash % map.capacity) (without p.key pairs) = [] := by
      by_contra hne
      exact hfree ⟨by rw [hpair]; simp, hne⟩
    -- the bucket has no other pair
    have hleft := Shows.unlink hH hs hn hxy (fun _ _ => rfl) (p.key.hash % map.capacity)
    rw [Function.update_self, hempty] at hleft
    obtain ⟨rfl, rfl⟩ : xs = [] ∧ ys = [] := by simpa using hleft
    have hloop : ((map.alloc ⟨p.key, value⟩).unlinkOld p.key ((map.alloc ⟨p.key, value⟩).head p.key)
        2 (map.alloc ⟨p.key, value⟩).links ((map.alloc ⟨p.key, value⟩).links.next
          ((map.alloc ⟨p.key, value⟩).head p.key)) none).isSome := by
      rw [show (map.alloc ⟨p.key, value⟩).links.next ((map.alloc ⟨p.key, value⟩).head p.key) = _ from
        hstart, show table (p.key.hash % (map.alloc ⟨p.key, value⟩).capacity) = [n] from hxy]
      exact hH₁.unlinkOld_alone hn hxy
    obtain ⟨map', hset⟩ := Option.isSome_iff_exists.mp (set_returns_of_loop hopen hloop)
    exact ⟨_, map', hset⟩

/-- **One bucket** is released from its front. -/
theorem Lists.clearBucket {i : ℕ} : ∀ {fuel : ℕ} {map map' : PcMap α} {pairs : List (MapPair α)},
    map.Lists pairs → i < map.capacity → clearBucket i fuel map = some map' →
      map'.Lists (pairs.filter fun p => p.key.hash % map.capacity ≠ i) ∧ SameShape map map' ∧
        map'.released.map Prod.snd =
          (bucketOf map.capacity i pairs).reverse ++ map.released.map Prod.snd
  | 0, _, _, _, _, _, hclear => by cases hclear
  | fuel + 1, map, map', pairs, h, hi, hclear => by
    obtain ⟨hopen, table, book, hH, hs⟩ := h
    have hring := hH.ring i hi
    cases htable : table i with
    | nil =>
      have hempty := hring.empty_iff.mpr (by rw [htable]; rfl)
      obtain rfl : map = map' := by simpa [PcMap.clearBucket, hempty] using hclear
      have hnone := hs.bucketOf_eq_nil htable
      have hall : (pairs.filter fun p => p.key.hash % map.capacity ≠ i) = pairs := by
        refine List.filter_eq_self.mpr fun p hp => ?_
        simpa using List.filter_eq_nil_iff.mp hnone p hp
      rw [hall, hnone]
      exact ⟨⟨hopen, table, book, hH, hs⟩, ⟨rfl, rfl, rfl⟩, rfl⟩
    | cons n ns =>
      obtain ⟨hempty, -, p, hn, rfl, hpair⟩ := hH.walk hi (show table i = [] ++ n :: ns from htable)
      have hstart := hH.walk_start hi
      rw [htable, Holds.walkAt] at hstart
      have hround : PcMap.clearBucket (p.key.hash % map.capacity) fuel
          (releasePair { map with links := (map.links.remove (.pair n)).init (.pair n) } n p) =
            some map' := by
        simpa [PcMap.clearBucket, hempty, hstart, hpair] using hclear
      have hxy : table (p.key.hash % map.capacity) = [] ++ n :: ns := htable
      have hfree := (hH.unlink (f := .owed) hn (by decide) hxy).free (n := n) (by simp)
        ((n, p) :: map.released)
      have hs₁ := Shows.unlink hH hs hn hxy fun m hm => Function.update_of_ne hm none map.pairs
      have hless : (releasePair { map with links := (map.links.remove (.pair n)).init (.pair n) }
          n p).Lists (without p.key pairs) := ⟨hopen, _, _, hfree, hs₁⟩
      obtain ⟨hlists, hshape, hreleased⟩ := Lists.clearBucket hless hi hround
      -- the pair was the first of its bucket
      obtain ⟨rest, hrest⟩ := hs.bucketOf_eq_cons htable (hH.allocated n p hn)
      have hothers : (without p.key pairs).filter
          (fun q => q.key.hash % map.capacity ≠ p.key.hash % map.capacity) =
            pairs.filter fun q => q.key.hash % map.capacity ≠ p.key.hash % map.capacity := by
        refine filter_eraseP_of_disjoint (fun q hq => ?_) pairs
        rw [of_decide_eq_true hq]
        exact decide_eq_false (not_not.mpr rfl)
      have hrest' : bucketOf map.capacity (p.key.hash % map.capacity) (without p.key pairs) = rest := by
        rw [bucketOf_without_self, hrest, without_cons]
      refine ⟨hothers ▸ hlists, hshape, ?_⟩
      rw [hreleased, hrest, List.reverse_cons, List.append_assoc]
      exact congrArg (·.reverse ++ _) hrest'

/-- **The first `k` buckets**, one after the other. -/
theorem Lists.clearBuckets (h : map.Lists pairs) : ∀ {k : ℕ} {map' : PcMap α}, k ≤ map.capacity →
    map.clearBuckets fuel k = some map' →
      map'.Lists (pairs.filter fun p => k ≤ p.key.hash % map.capacity) ∧ SameShape map map' ∧
        map'.released.map Prod.snd =
          (bucketOrder map.capacity k pairs).reverse ++ map.released.map Prod.snd
  | 0, map', _, hclear => by
    obtain rfl := Option.some.inj hclear
    have hall : (pairs.filter fun p => 0 ≤ p.key.hash % map.capacity) = pairs := by simp
    rw [hall]
    exact ⟨h, ⟨rfl, rfl, rfl⟩, rfl⟩
  | k + 1, map', hk, hclear => by
    obtain ⟨map₁, hclear₁, hclear₂⟩ := Option.bind_eq_some_iff.mp hclear
    obtain ⟨h₁, ⟨hcap, hopen, hmade⟩, hreleased⟩ := h.clearBuckets (Nat.le_of_succ_le hk) hclear₁
    obtain ⟨h₂, ⟨hcap₂, hopen₂, hmade₂⟩, hreleased₂⟩ := h₁.clearBucket (hcap ▸ hk) hclear₂
    rw [hcap] at h₂ hreleased₂
    have hleft : ((pairs.filter fun p => k ≤ p.key.hash % map.capacity).filter fun p =>
        p.key.hash % map.capacity ≠ k) = pairs.filter fun p => k + 1 ≤ p.key.hash % map.capacity := by
      rw [List.filter_filter]
      refine List.filter_congr fun p _ => ?_
      simp only [← Bool.decide_and]
      exact decide_eq_decide.mpr (by omega)
    have hbucket : bucketOf map.capacity k (pairs.filter fun p => k ≤ p.key.hash % map.capacity) =
        bucketOf map.capacity k pairs := by
      rw [bucketOf, List.filter_filter]
      refine List.filter_congr fun p _ => ?_
      simp only [← Bool.decide_and]
      exact decide_eq_decide.mpr (by omega)
    refine ⟨hleft ▸ h₂, ⟨hcap₂.trans hcap, hopen₂.trans hopen, hmade₂.trans hmade⟩, ?_⟩
    rw [hreleased₂, hbucket, hreleased, bucketOrder, bucketOrder, List.range_succ,
      List.flatMap_append, List.reverse_append, List.append_assoc]
    simp

theorem Lists.clearBuckets_returns (h : map.Lists pairs) : ∀ {k : ℕ}, k ≤ map.capacity →
    ∃ map', map.clearBuckets (map.made + 1) k = some map'
  | 0, _ => ⟨map, rfl⟩
  | k + 1, hk => by
    obtain ⟨map₁, hclear⟩ := h.clearBuckets_returns (Nat.le_of_succ_le hk)
    obtain ⟨⟨-, table, book, hH, -⟩, ⟨hcap, -, hmade⟩, -⟩ := h.clearBuckets (Nat.le_of_succ_le hk) hclear
    have hlen := hH.length_le (hcap ▸ hk)
    have hlast := Holds.clearBucket_returns hH (hcap ▸ hk) (Nat.lt_succ_of_le hlen)
    rw [hmade] at hlast
    obtain ⟨map', hclear'⟩ := Option.isSome_iff_exists.mp hlast
    refine ⟨map', ?_⟩
    rw [PcMap.clearBuckets, hclear]
    exact hclear'

/-- **`pc_map_clear`** returns, empties the list and releases what was on it, bucket by bucket. -/
theorem Lists.clear (h : map.Lists pairs) :
    (∃ fuel map', map.clear fuel = some map') ∧
      ∀ fuel map', map.clear fuel = some map' →
        map'.Lists [] ∧ map'.capacity = map.capacity ∧
          map'.released.map Prod.snd =
            (bucketOrder map.capacity map.capacity pairs).reverse ++ map.released.map Prod.snd := by
  constructor
  · obtain ⟨map', hclear⟩ := h.clearBuckets_returns (Nat.le_refl _)
    exact ⟨map.made + 1, map', by rw [PcMap.clear, if_pos h.isOpen]; exact hclear⟩
  · intro fuel map' hclear
    rw [PcMap.clear, if_pos h.isOpen] at hclear
    obtain ⟨hlists, ⟨hcap, -, -⟩, hreleased⟩ := h.clearBuckets (Nat.le_refl _) hclear
    obtain ⟨-, table, book, hH, -⟩ := h
    have hempty : (pairs.filter fun p => map.capacity ≤ p.key.hash % map.capacity) = [] := by
      refine List.filter_eq_nil_iff.mpr fun p _ => ?_
      rw [decide_eq_true_eq, Nat.not_le]
      exact hH.bucket_lt p.key
    exact ⟨hempty ▸ hlists, hcap, hreleased⟩

end Calls

end PcMap

end Libpomelo
