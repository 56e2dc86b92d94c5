import Libpomelo.Map

/-!
# The hash map refines a finite map

`PcMap.Holds map table book` is the representation invariant. `table i` lists the
pairs on the list of bucket `i`; `book` is the ledger, the pair and the fate of every
`pc_map_set` so far. A pair is on the list of its bucket exactly when the ledger says
that its value is present, and two present pairs have different keys.

The operations change map and ledger together: `Holds.alloc`, `Holds.unlink`,
`Holds.insert` and `Holds.free` are the four moves the calls are made of. What a loop
does is read off the ring it walks. `pc_map_set` is the one call that may not return:
when the bucket of a key that is already present holds another pair, the walk never
leaves the node it has just unlinked.
-/

namespace Libpomelo

variable {α : Type}

/-! ## Histories -/

/-- What a call adds to the history. -/
def MapCall.added : MapCall α → List (MapPair α × Fate)
  | .set key value => [(⟨key, value⟩, .present)]
  | _ => []

/-- An entry of the history after one more call. -/
def MapCall.settle (call : MapCall α) (e : MapPair α × Fate) : MapPair α × Fate :=
  (e.1, e.2.after e.1.key call)

theorem fate_snoc (key : CString) (later : List (MapCall α)) (call : MapCall α) :
    fate key (later ++ [call]) = (fate key later).after key call := by
  simp [fate]

/-- **One more call** settles the entries there are and may add one. -/
theorem history_snoc (call : MapCall α) :
    ∀ calls : List (MapCall α),
      history (calls ++ [call]) = (history calls).map call.settle ++ call.added
  | [] => by cases call <;> rfl
  | c :: calls => by
    have ih := history_snoc call calls
    cases c with
    | set key value => simp [history, ih, fate_snoc, MapCall.settle]
    | get key => simp [history, ih]
    | del key => simp [history, ih]
    | clear => simp [history, ih]
    | close => simp [history, ih]

theorem lastValue_snoc (key : CString) (calls : List (MapCall α)) (call : MapCall α) :
    lastValue key (calls ++ [call]) = call.valueAfter key (lastValue key calls) := by
  simp [lastValue]

/-- A fate is settled as present only by a call that leaves the key alone. -/
theorem settle_eq_present {call : MapCall α} {e : MapPair α × Fate} {p : MapPair α}
    (h : call.settle e = (p, .present)) :
    e = (p, .present) ∧ call ≠ .clear ∧ call ≠ .close ∧ (∀ v, call ≠ .set p.key v) ∧
      call ≠ .del p.key := by
  obtain ⟨q, f⟩ := e
  obtain ⟨rfl, hf⟩ := Prod.mk.inj h
  cases f with
  | owed => cases hf
  | returned => cases hf
  | present =>
    refine ⟨rfl, ?_, ?_, ?_, ?_⟩
    · rintro rfl
      cases hf
    · rintro rfl
      cases hf
    · rintro v rfl
      simp [Fate.after] at hf
    · rintro rfl
      simp [Fate.after] at hf

/-- **Present and last.** When the ledger says a pair is present, its value is the last
value of its key; when no pair with a key is present, the key has no value. -/
theorem lastValue_history (key : CString) (calls : List (MapCall α)) :
    (∀ v, (⟨key, v⟩, .present) ∈ history calls → lastValue key calls = v) ∧
      ((∀ v, (⟨key, v⟩, .present) ∉ history calls) → lastValue key calls = none) := by
  induction calls using List.reverseRecOn with
  | nil => exact ⟨fun v h => absurd h (List.not_mem_nil), fun _ => rfl⟩
  | append_singleton calls call ih =>
    obtain ⟨ihsome, ihnone⟩ := ih
    rw [history_snoc, lastValue_snoc]
    constructor
    · intro v hv
      rcases List.mem_append.mp hv with hv | hv
      · obtain ⟨e, he, hset⟩ := List.mem_map.mp hv
        obtain ⟨rfl, hclear, hclose, hnoset, hnodel⟩ := settle_eq_present hset
        cases call with
        | set key' v' =>
          have hne : key' ≠ key := by
            rintro rfl
            exact hnoset v' rfl
          rw [MapCall.valueAfter, if_neg hne]
          exact ihsome v he
        | del key' =>
          have hne : key' ≠ key := by
            rintro rfl
            exact hnodel rfl
          rw [MapCall.valueAfter, if_neg hne]
          exact ihsome v he
        | get key' => exact ihsome v he
        | clear => exact absurd rfl hclear
        | close => exact absurd rfl hclose
      · cases call with
        | set key' v' =>
          obtain ⟨⟨rfl, rfl⟩, -⟩ : (key = key' ∧ v = v') ∧ True := by
            simpa [MapCall.added] using hv
          exact if_pos rfl
        | _ => exact absurd hv (List.not_mem_nil)
    · intro hnone
      have hold : ∀ v, (call.settle (⟨key, v⟩, .present)) = (⟨key, v⟩, .present) →
          (⟨key, v⟩, .present) ∉ history calls := by
        intro v hs hmem
        exact hnone v (List.mem_append_left _ (List.mem_map.mpr ⟨_, hmem, hs⟩))
      cases call with
      | set key' v' =>
        have hne : key' ≠ key := by
          rintro rfl
          exact hnone v' (List.mem_append_right _ (by simp [MapCall.added]))
        rw [MapCall.valueAfter, if_neg hne]
        exact ihnone (fun v => hold v (by simp [MapCall.settle, Fate.after, hne]))
      | del key' =>
        by_cases hne : key' = key
        · exact if_pos hne
        · rw [MapCall.valueAfter, if_neg hne]
          exact ihnone (fun v => hold v (by simp [MapCall.settle, Fate.after, hne]))
      | get key' => exact ihnone (fun v => hold v rfl)
      | clear => rfl
      | close => rfl

/-! ## The representation invariant -/

/-- Different numbers below a bound are no more than the bound. -/
theorem length_le_of_nodup_of_lt {l : List ℕ} {k : ℕ} (hnd : l.Nodup) (hlt : ∀ n ∈ l, n < k) :
    l.length ≤ k := by
  have hle := (List.subperm_of_subset hnd fun n hn => List.mem_range.mpr (hlt n hn)).length_le
  rwa [List.length_range] at hle

/-- The ledger: what the `n`-th `pc_map_set` stored and what became of it. -/
abbrev MapBook (α : Type) : Type := ℕ → Option (MapPair α × Fate)

/-- **The representation invariant.** -/
structure PcMap.Holds (map : PcMap α) (table : ℕ → List ℕ) (book : MapBook α) : Prop where
  /-- there is a bucket for every hash -/
  capacity_pos : 0 < map.capacity
  /-- every bucket is a ring through its pairs -/
  ring : ∀ i < map.capacity, IsRing map.links (.bucket i) ((table i).map .pair)
  /-- a pair is in a bucket exactly when it is present and the bucket is its own -/
  mem_table : ∀ i n, n ∈ table i ↔
    ∃ p, book n = some (p, .present) ∧ p.key.hash % map.capacity = i
  /-- what is present is allocated -/
  allocated : ∀ n p, book n = some (p, .present) → map.pairs n = some p
  /-- one pair for each key -/
  unique : ∀ n n' p p', book n = some (p, .present) → book n' = some (p', .present) →
    p.key = p'.key → n = n'
  /-- pairs that are not made yet are not in the ledger -/
  fresh : ∀ n, map.made ≤ n → book n = none
  /-- a closed map is empty -/
  closed : map.buckets = false → ∀ n p, book n ≠ some (p, .present)

namespace PcMap

namespace Holds

variable {map : PcMap α} {table : ℕ → List ℕ} {book : MapBook α}

/-- The bucket of a key exists. -/
theorem bucket_lt (h : map.Holds table book) (key : CString) :
    key.hash % map.capacity < map.capacity :=
  Nat.mod_lt _ h.capacity_pos

/-- A present pair is on the list of its own bucket. -/
theorem mem_own (h : map.Holds table book) {n : ℕ} {p : MapPair α}
    (hn : book n = some (p, .present)) : n ∈ table (p.key.hash % map.capacity) :=
  (h.mem_table _ n).mpr ⟨p, hn, rfl⟩

/-- Two buckets share no node. -/
theorem disjoint (h : map.Holds table book) {i j : ℕ} (hij : i ≠ j) :
    ∀ y ∈ MapNode.bucket j :: (table j).map .pair,
      y ∉ MapNode.bucket i :: (table i).map .pair := by
  intro y hy hy'
  rcases List.mem_cons.mp hy with rfl | hy
  · rcases List.mem_cons.mp hy' with he | hy'
    · exact hij (MapNode.bucket.inj he).symm
    · obtain ⟨n, -, he⟩ := List.mem_map.mp hy'
      cases he
  · obtain ⟨n, hn, rfl⟩ := List.mem_map.mp hy
    rcases List.mem_cons.mp hy' with he | hy'
    · cases he
    · obtain ⟨n', hn', he⟩ := List.mem_map.mp hy'
      obtain rfl := MapNode.pair.inj he
      obtain ⟨p, hp, hi⟩ := (h.mem_table i _).mp hn'
      obtain ⟨p', hp', hj⟩ := (h.mem_table j _).mp hn
      obtain ⟨rfl, -⟩ := Prod.mk.inj (Option.some.inj (hp.symm.trans hp'))
      exact hij (hi.symm.trans hj)

/-- A pair that is not present is on no list. -/
theorem not_mem_ring (h : map.Holds table book) {n : ℕ}
    (hn : ∀ p, book n ≠ some (p, .present)) (i : ℕ) :
    MapNode.pair n ∉ MapNode.bucket i :: (table i).map .pair := by
  intro hmem
  rcases List.mem_cons.mp hmem with he | hmem
  · cases he
  · obtain ⟨n', hn', he⟩ := List.mem_map.mp hmem
    obtain rfl := MapNode.pair.inj he
    obtain ⟨p, hp, -⟩ := (h.mem_table i _).mp hn'
    exact hn p hp

/-- **Allocating** a pair changes nothing the lists can see. -/
theorem alloc (h : map.Holds table book) (pair : MapPair α) :
    (map.alloc pair).Holds table book where
  capacity_pos := h.capacity_pos
  ring i hi := (h.ring i hi).init_other
    (h.not_mem_ring (fun p hp => by simp [h.fresh map.made (Nat.le_refl _)] at hp) i)
  mem_table := h.mem_table
  allocated n p hp := by
    have hne : n ≠ map.made := by
      rintro rfl
      simp [h.fresh map.made (Nat.le_refl _)] at hp
    show Function.update map.pairs map.made (some pair) n = some p
    rw [Function.update_of_ne hne]
    exact h.allocated n p hp
  unique := h.unique
  fresh n hn := h.fresh n (Nat.le_of_succ_le hn)
  closed := h.closed

/-- **Freeing** a pair that is not present, whether its value was released or not. -/
theorem free (h : map.Holds table book) {n : ℕ} (hn : ∀ p, book n ≠ some (p, .present))
    (released : List (ℕ × MapPair α)) :
    { map with pairs := Function.update map.pairs n none, released := released }.Holds
      table book where
  capacity_pos := h.capacity_pos
  ring := h.ring
  mem_table := h.mem_table
  allocated n' p hp := by
    have hne : n' ≠ n := by
      rintro rfl
      exact hn p hp
    show Function.update map.pairs n none n' = some p
    rw [Function.update_of_ne hne]
    exact h.allocated n' p hp
  unique := h.unique
  fresh := h.fresh
  closed := h.closed

/-- **Unlinking** a present pair. Its bucket keeps the others in their order; in the
ledger it is no longer present. -/
theorem unlink (h : map.Holds table book) {n : ℕ} {p : MapPair α} {f : Fate}
    {xs ys : List ℕ} (hn : book n = some (p, .present)) (hf : f ≠ .present)
    (hxy : table (p.key.hash % map.capacity) = xs ++ n :: ys) :
    { map with links := (map.links.remove (.pair n)).init (.pair n) }.Holds
      (Function.update table (p.key.hash % map.capacity) (xs ++ ys))
      (Function.update book n (some (p, f))) := by
  have hi := h.bucket_lt p.key
  have hring := h.ring _ hi
  rw [hxy, List.map_append, List.map_cons] at hring
  have hpresent : ∀ n' p', Function.update book n (some (p, f)) n' = some (p', .present) →
      n' ≠ n ∧ book n' = some (p', .present) := by
    intro n' p' hp'
    by_cases hne : n' = n
    · subst hne
      rw [Function.update_self] at hp'
      exact absurd (Prod.mk.inj (Option.some.inj hp')).2 hf
    · rw [Function.update_of_ne hne] at hp'
      exact ⟨hne, hp'⟩
  have hnot : n ∉ xs ++ ys := by
    have hnd : (MapNode.pair n :: .bucket (p.key.hash % map.capacity) ::
        (xs.map .pair ++ ys.map .pair)).Nodup :=
      ((List.Perm.cons _ List.perm_middle).trans (List.Perm.swap _ _ _)).nodup hring.nodup
    intro hmem
    refine (List.nodup_cons.mp hnd).1 (List.mem_cons_of_mem _ ?_)
    rw [← List.map_append]
    exact List.mem_map_of_mem hmem
  constructor
  case capacity_pos => exact h.capacity_pos
  case ring =>
    intro j hj
    by_cases hij : j = p.key.hash % map.capacity
    · subst hij
      rw [Function.update_self, List.map_append]
      exact hring.unlink
    · rw [Function.update_of_ne hij]
      apply hring.unlink_other (h.ring j hj)
      have hd := h.disjoint (Ne.symm hij)
      rwa [hxy, List.map_append, List.map_cons] at hd
  case mem_table =>
    intro j n'
    by_cases hij : j = p.key.hash % map.capacity
    · subst hij
      rw [Function.update_self]
      constructor
      · intro hmem
        have hne : n' ≠ n := fun he => hnot (he ▸ hmem)
        have hold : n' ∈ table (p.key.hash % map.capacity) := by
          rw [hxy]
          simp only [List.mem_append, List.mem_cons] at hmem ⊢
          rcases hmem with hmem | hmem
          · exact .inl hmem
          · exact .inr (.inr hmem)
        rw [Function.update_of_ne hne]
        exact (h.mem_table _ n').mp hold
      · rintro ⟨p', hp', hb⟩
        obtain ⟨hne, hp'⟩ := hpresent n' p' hp'
        have hold := (h.mem_table _ n').mpr ⟨p', hp', hb⟩
        rw [hxy] at hold
        simp only [List.mem_append, List.mem_cons] at hold ⊢
        rcases hold with hold | hold | hold
        · exact .inl hold
        · exact absurd hold hne
        · exact .inr hold
    · rw [Function.update_of_ne hij, h.mem_table j n']
      constructor
      · rintro ⟨p', hp', hb⟩
        have hne : n' ≠ n := by
          rintro rfl
          obtain ⟨rfl, -⟩ := Prod.mk.inj (Option.some.inj (hn.symm.trans hp'))
          exact hij hb.symm
        exact ⟨p', by rwa [Function.update_of_ne hne], hb⟩
      · rintro ⟨p', hp', hb⟩
        exact ⟨p', (hpresent n' p' hp').2, hb⟩
  case allocated => exact fun n' p' hp' => h.allocated n' p' (hpresent n' p' hp').2
  case unique =>
    intro n₁ n₂ p₁ p₂ h₁ h₂
    exact h.unique n₁ n₂ p₁ p₂ (hpresent n₁ p₁ h₁).2 (hpresent n₂ p₂ h₂).2
  case fresh =>
    intro n' hn'
    have hne : n' ≠ n := by
      rintro rfl
      rw [h.fresh n' hn'] at hn
      cases hn
    rw [Function.update_of_ne hne]
    exact h.fresh n' hn'
  case closed => exact fun hb n' p' hp' => h.closed hb n' p' (hpresent n' p' hp').2

/-- Without its pair, a key is not present. -/
theorem absent_of_unlink (h : map.Holds table book) {n : ℕ} {p : MapPair α} {f : Fate}
    (hn : book n = some (p, .present)) (hf : f ≠ .present) :
    ∀ n' p', Function.update book n (some (p, f)) n' = some (p', .present) → p'.key ≠ p.key := by
  intro n' p' hp' hkey
  by_cases heq : n' = n
  · subst heq
    rw [Function.update_self] at hp'
    exact hf (Prod.mk.inj (Option.some.inj hp')).2
  · rw [Function.update_of_ne heq] at hp'
    exact heq (h.unique n' n p' p hp' hn hkey)

/-- The next allocation is none of the pairs that are present. -/
theorem ne_made (h : map.Holds table book) {n : ℕ} {p : MapPair α}
    (hn : book n = some (p, .present)) : n ≠ map.made := by
  rintro rfl
  rw [h.fresh _ (Nat.le_refl _)] at hn
  cases hn

/-- **Inserting** an allocated pair whose key is not present. -/
theorem insert (h : map.Holds table book) {n : ℕ} {p : MapPair α}
    (hbuckets : map.buckets = true) (hmade : n < map.made) (hn : book n = none)
    (halloc : map.pairs n = some p)
    (habsent : ∀ n' p', book n' = some (p', .present) → p'.key ≠ p.key) :
    { map with links := map.links.insertTail (map.head p.key) (.pair n) }.Holds
      (Function.update table (p.key.hash % map.capacity)
        (table (p.key.hash % map.capacity) ++ [n]))
      (Function.update book n (some (p, .present))) := by
  have hi := h.bucket_lt p.key
  have hring := h.ring _ hi
  have hoff := h.not_mem_ring (n := n) (by simp [hn])
  have hpresent : ∀ n' p', Function.update book n (some (p, .present)) n' = some (p', .present) →
      (n' = n ∧ p' = p) ∨ (n' ≠ n ∧ book n' = some (p', .present)) := by
    intro n' p' hp'
    by_cases hne : n' = n
    · subst hne
      rw [Function.update_self] at hp'
      exact .inl ⟨rfl, (Prod.mk.inj (Option.some.inj hp')).1.symm⟩
    · rw [Function.update_of_ne hne] at hp'
      exact .inr ⟨hne, hp'⟩
  constructor
  case capacity_pos => exact h.capacity_pos
  case ring =>
    intro j hj
    by_cases hij : j = p.key.hash % map.capacity
    · subst hij
      rw [Function.update_self, List.map_append]
      exact hring.insertTail (hoff _)
    · rw [Function.update_of_ne hij]
      exact hring.insertTail_other (h.ring j hj) (hoff j) (h.disjoint (Ne.symm hij))
  case mem_table =>
    intro j n'
    by_cases hij : j = p.key.hash % map.capacity
    · subst hij
      rw [Function.update_self, List.mem_append, List.mem_singleton, h.mem_table]
      constructor
      · rintro (⟨p', hp', hb⟩ | rfl)
        · have hne : n' ≠ n := by
            rintro rfl
            rw [hn] at hp'
            cases hp'
          exact ⟨p', by rwa [Function.update_of_ne hne], hb⟩
        · exact ⟨p, by rw [Function.update_self], rfl⟩
      · rintro ⟨p', hp', hb⟩
        rcases hpresent n' p' hp' with ⟨rfl, -⟩ | ⟨-, hp'⟩
        · exact .inr rfl
        · exact .inl ⟨p', hp', hb⟩
    · rw [Function.update_of_ne hij, h.mem_table j n']
      constructor
      · rintro ⟨p', hp', hb⟩
        have hne : n' ≠ n := by
          rintro rfl
          rw [hn] at hp'
          cases hp'
        exact ⟨p', by rwa [Function.update_of_ne hne], hb⟩
      · rintro ⟨p', hp', hb⟩
        rcases hpresent n' p' hp' with ⟨-, rfl⟩ | ⟨-, hp'⟩
        · exact absurd hb.symm hij
        · exact ⟨p', hp', hb⟩
  case allocated =>
    intro n' p' hp'
    rcases hpresent n' p' hp' with ⟨rfl, rfl⟩ | ⟨-, hp'⟩
    · exact halloc
    · exact h.allocated n' p' hp'
  case unique =>
    intro n₁ n₂ p₁ p₂ h₁ h₂ hkey
    rcases hpresent n₁ p₁ h₁ with ⟨rfl, rfl⟩ | ⟨-, hold₁⟩
    · rcases hpresent n₂ p₂ h₂ with ⟨rfl, -⟩ | ⟨-, hold₂⟩
      · rfl
      · exact absurd hkey.symm (habsent n₂ p₂ hold₂)
    · rcases hpresent n₂ p₂ h₂ with ⟨rfl, rfl⟩ | ⟨-, hold₂⟩
      · exact absurd hkey (habsent n₁ p₁ hold₁)
      · exact h.unique n₁ n₂ p₁ p₂ hold₁ hold₂ hkey
  case fresh =>
    intro n' hn'
    have hne : n' ≠ n := fun he => absurd hmade (Nat.not_lt.mpr (he ▸ hn'))
    rw [Function.update_of_ne hne]
    exact h.fresh n' hn'
  case closed =>
    intro hb
    rw [hbuckets] at hb
    cases hb

/-! ## The loops -/

/-- The node a walk is at when it has `ys` still before it. -/
def walkAt (i : ℕ) : List ℕ → MapNode
  | [] => .bucket i
  | n :: _ => .pair n

/-- A walk that has passed `xs` and is at the first of `n :: ys` reads the pair `n`, is
not at the end, and goes on to the first of `ys`. -/
theorem walk (h : map.Holds table book) {i n : ℕ} {xs ys : List ℕ} (hi : i < map.capacity)
    (hxy : table i = xs ++ n :: ys) :
    map.links.empty (.bucket i) = false ∧ map.links.next (.pair n) = walkAt i ys ∧
      ∃ p, book n = some (p, .present) ∧ p.key.hash % map.capacity = i ∧
        map.pairAt (.pair n) = some (n, p) := by
  have hring := h.ring i hi
  have hempty : map.links.empty (.bucket i) = false := by
    rw [Bool.eq_false_iff]
    intro he
    have := hring.empty_iff.mp he
    simp [hxy] at this
  rw [hxy, List.map_append, List.map_cons] at hring
  have hnext := hring.next_of_append
  obtain ⟨p, hp, hb⟩ := (h.mem_table i n).mp (by simp [hxy])
  refine ⟨hempty, ?_, p, hp, hb, ?_⟩
  · rw [hnext]
    cases ys <;> rfl
  · simp [pairAt, h.allocated n p hp]

/-- A walk starts at the first pair of the bucket. -/
theorem walk_start (h : map.Holds table book) {i : ℕ} (hi : i < map.capacity) :
    map.links.next (.bucket i) = walkAt i (table i) := by
  rw [(h.ring i hi).next_head]
  cases table i <;> rfl

/-- What `find` gives: a present pair with the key, or the news that there is none among
the pairs it had before it. -/
def Found (book : MapBook α) (key : CString) (ys : List ℕ) : Option (ℕ × MapPair α) → Prop
  | none => ∀ n ∈ ys, ∀ p, book n = some (p, .present) → p.key ≠ key
  | some (n, p) => book n = some (p, .present) ∧ p.key = key

/-- **The loop of `pc_map_get` and `pc_map_del`** ends within one round more than there
are pairs, with the right answer. -/
theorem find (h : map.Holds table book) (key : CString) {i : ℕ} (hi : i < map.capacity) :
    ∀ (fuel : ℕ) (xs ys : List ℕ), table i = xs ++ ys →
      (∀ found, map.find key (.bucket i) fuel (walkAt i ys) = some found →
        Found book key ys found) ∧
      (ys.length < fuel → (map.find key (.bucket i) fuel (walkAt i ys)).isSome)
  | 0, _, _, _ => ⟨fun _ hfound => (by cases hfound), fun hlt => absurd hlt (Nat.not_lt_zero _)⟩
  | fuel + 1, xs, [], _ => by
    have hend : map.find key (.bucket i) (fuel + 1) (walkAt i []) = some none := by
      simp [PcMap.find, walkAt]
    rw [hend]
    refine ⟨fun found hfound => ?_, fun _ => rfl⟩
    obtain rfl := Option.some.inj hfound
    exact fun n hn => absurd hn (List.not_mem_nil)
  | fuel + 1, xs, n :: ys, hxy => by
    obtain ⟨hempty, hnext, p, hp, -, hpair⟩ := h.walk hi hxy
    have hround : map.find key (.bucket i) (fuel + 1) (walkAt i (n :: ys)) =
        if p.key = key then some (some (n, p))
        else map.find key (.bucket i) fuel (walkAt i ys) := by
      simp [PcMap.find, walkAt, hempty, hpair, hnext]
    rw [hround]
    by_cases hkey : p.key = key
    · rw [if_pos hkey]
      refine ⟨fun found hfound => ?_, fun _ => rfl⟩
      obtain rfl := Option.some.inj hfound
      exact ⟨hp, hkey⟩
    · rw [if_neg hkey]
      obtain ⟨ihfound, ihtotal⟩ := find h key hi fuel (xs ++ [n]) ys (by simp [hxy])
      refine ⟨fun found hfound => ?_, fun hlt => ihtotal (Nat.lt_of_succ_lt_succ hlt)⟩
      have hrest := ihfound found hfound
      cases found with
      | some r => exact hrest
      | none =>
        intro n' hn' p' hp'
        rcases List.mem_cons.mp hn' with rfl | hn'
        · obtain ⟨rfl, -⟩ := Prod.mk.inj (Option.some.inj (hp.symm.trans hp'))
          exact hkey
        · exact hrest n' hn' p' hp'

/-- The same for the walk that starts at the head. When nothing is found, no present
pair has the key. -/
theorem find_head (h : map.Holds table book) {key : CString} {fuel : ℕ}
    {found : Option (ℕ × MapPair α)}
    (hfind : map.find key (map.head key) fuel (map.links.next (map.head key)) = some found) :
    Found book key (table (key.hash % map.capacity)) found := by
  have hi := h.bucket_lt key
  rw [PcMap.head, h.walk_start hi] at hfind
  exact (h.find key hi fuel [] _ rfl).1 found hfind

/-- A key that no pair of its bucket has is not present. -/
theorem absent (h : map.Holds table book) {key : CString}
    (hnone : ∀ n ∈ table (key.hash % map.capacity), ∀ p, book n = some (p, .present) →
      p.key ≠ key) : ∀ n p, book n = some (p, .present) → p.key ≠ key := by
  intro n p hp hkey
  refine hnone n ?_ p hp hkey
  have hmem := h.mem_own hp
  rwa [hkey] at hmem

end Holds

/-- The walk of `pc_map_set` never leaves a node that it has unlinked from a list that
still has other nodes. -/
theorem unlinkOld_hangs {map : PcMap α} {links : Pointers MapNode} {head q : MapNode} {n : ℕ}
    {p : MapPair α} (hq : q ≠ head) (hempty : links.empty head = false)
    (hpair : map.pairAt q = some (n, p)) (hnext : links.next q = q) (hprev : links.prev q = q) :
    ∀ (fuel : ℕ) (old : Option (ℕ × MapPair α)),
      map.unlinkOld p.key head fuel links q old = none
  | 0, _ => rfl
  | fuel + 1, old => by
    have ih := unlinkOld_hangs hq hempty hpair hnext hprev fuel (some (n, p))
    simp [unlinkOld, hq, hempty, hpair, Pointers.unlink_self hnext hprev, hnext, ih]

namespace Holds

variable {map : PcMap α} {table : ℕ → List ℕ} {book : MapBook α}

/-- What the loop of `pc_map_set` leaves behind when it ends: the lists as they were and
no present pair with the key, or the only pair of the bucket unlinked. -/
def Unlinked (map : PcMap α) (table : ℕ → List ℕ) (book : MapBook α) (key : CString)
    (links : Pointers MapNode) (old : Option (ℕ × MapPair α)) : Prop :=
  (old = none ∧ links = map.links ∧ ∀ n p, book n = some (p, .present) → p.key ≠ key) ∨
    ∃ n p, old = some (n, p) ∧ book n = some (p, .present) ∧ p.key = key ∧
      table (key.hash % map.capacity) = [n] ∧
      links = (map.links.remove (.pair n)).init (.pair n)

/-- **The loop of `pc_map_set`.** -/
theorem unlinkOld (h : map.Holds table book) (key : CString) {links : Pointers MapNode}
    {old : Option (ℕ × MapPair α)} :
    ∀ (fuel : ℕ) (xs ys : List ℕ), table (key.hash % map.capacity) = xs ++ ys →
      (∀ n ∈ xs, ∀ p, book n = some (p, .present) → p.key ≠ key) →
      map.unlinkOld key (map.head key) fuel map.links (walkAt (key.hash % map.capacity) ys) none =
        some (links, old) →
      Unlinked map table book key links old
  | 0, _, _, _, _, hloop => by cases hloop
  | fuel + 1, xs, [], hxy, hxs, hloop => by
    have hend : (map.links, none) = (links, old) := by
      simpa [PcMap.unlinkOld, walkAt, PcMap.head] using hloop
    obtain ⟨rfl, rfl⟩ := Prod.mk.inj hend
    rw [List.append_nil] at hxy
    exact .inl ⟨rfl, rfl, h.absent (hxy ▸ hxs)⟩
  | fuel + 1, xs, n :: ys, hxy, hxs, hloop => by
    obtain ⟨hempty, hnext, p, hp, -, hpair⟩ := h.walk (h.bucket_lt key) hxy
    by_cases hkey : p.key = key
    · subst hkey
      have hround : map.unlinkOld p.key (map.head p.key) fuel
          ((map.links.remove (.pair n)).init (.pair n)) (.pair n) (some (n, p)) =
            some (links, old) := by
        simpa [PcMap.unlinkOld, walkAt, PcMap.head, hempty, hpair, Pointers.init,
          Pointers.setNext] using hloop
      have hring := h.ring _ (h.bucket_lt p.key)
      rw [hxy, List.map_append, List.map_cons] at hring
      have hring' := hring.unlink
      by_cases halone : xs ++ ys = []
      · obtain ⟨rfl, rfl⟩ := List.append_eq_nil_iff.mp halone
        have hempty' := hring'.empty_iff.mpr rfl
        cases fuel with
        | zero => cases hround
        | succ fuel =>
          have hend : ((map.links.remove (.pair n)).init (.pair n), some (n, p)) =
              (links, old) := by
            simpa [PcMap.unlinkOld, PcMap.head, hempty'] using hround
          obtain ⟨rfl, rfl⟩ := Prod.mk.inj hend
          exact .inr ⟨n, p, rfl, hp, rfl, hxy, rfl⟩
      · have hempty' : ((map.links.remove (.pair n)).init (.pair n)).empty (map.head p.key) =
            false := by
          rw [Bool.eq_false_iff]
          intro he
          have := hring'.empty_iff.mp he
          rw [← List.map_append, List.map_eq_nil_iff] at this
          exact halone this
        rw [unlinkOld_hangs (by simp [PcMap.head]) hempty' hpair (by simp [Pointers.init,
          Pointers.setNext]) (by simp [Pointers.init, Pointers.setNext, Pointers.setPrev])]
          at hround
        cases hround
    · have hround : map.unlinkOld key (map.head key) fuel map.links
          (walkAt (key.hash % map.capacity) ys) none = some (links, old) := by
        simpa [PcMap.unlinkOld, walkAt, PcMap.head, hempty, hpair, hkey, hnext] using hloop
      refine unlinkOld h key fuel (xs ++ [n]) ys (by simp [hxy]) ?_ hround
      intro n' hn' p' hp'
      rcases List.mem_append.mp hn' with hn' | hn'
      · exact hxs n' hn' p' hp'
      · obtain rfl := List.mem_singleton.mp hn'
        obtain ⟨rfl, -⟩ := Prod.mk.inj (Option.some.inj (hp.symm.trans hp'))
        exact hkey

end Holds

/-! ## The ledger -/

/-- The entry of the release log that the ledger asks for. -/
def owedTo (n : ℕ) : Option (MapPair α × Fate) → List (ℕ × MapPair α)
  | some (p, .owed) => [(n, p)]
  | _ => []

/-- **Release accounting.** `release_value` was called once for every value the ledger
says is owed, and for no other. -/
def Accounts (map : PcMap α) (book : MapBook α) : Prop :=
  ∀ n, map.released.filter (fun r => r.1 = n) = owedTo n (book n)

/-- The ledger after a call; `made` is the number the next pair gets. -/
def after (book : MapBook α) (made : ℕ) (call : MapCall α) : MapBook α := fun n =>
  if n = made then call.added.head? else (book n).map call.settle

/-- Releasing a pair that was present. -/
theorem Accounts.release {map map' : PcMap α} {book : MapBook α} {n : ℕ} {p : MapPair α}
    (h : map.Accounts book) (hn : book n = some (p, .present))
    (hrel : map'.released = (n, p) :: map.released) :
    map'.Accounts (Function.update book n (some (p, .owed))) := by
  intro n'
  rw [hrel]
  by_cases hne : n' = n
  · subst hne
    have hnone : map.released.filter (fun r => r.1 = n') = [] := by
      rw [h n', hn]
      rfl
    rw [List.filter_cons_of_pos (by simp), hnone, Function.update_self]
    rfl
  · rw [List.filter_cons_of_neg (by simpa using Ne.symm hne), Function.update_of_ne hne]
    exact h n'

/-- A change of the ledger that makes nothing owed. -/
theorem Accounts.update {map map' : PcMap α} {book : MapBook α} {n : ℕ}
    {e : Option (MapPair α × Fate)} (h : map.Accounts book)
    (hn : owedTo n e = owedTo n (book n)) (hrel : map'.released = map.released) :
    map'.Accounts (Function.update book n e) := by
  intro n'
  rw [hrel, h n']
  by_cases hne : n' = n
  · subst hne
    rw [Function.update_self, hn]
  · rw [Function.update_of_ne hne]

/-- An entry that a call does not concern stays. -/
theorem settle_eq_self {call : MapCall α} {e : MapPair α × Fate}
    (h : e.2 = .present → e.2.after e.1.key call = .present) : call.settle e = e := by
  obtain ⟨p, f⟩ := e
  cases f with
  | present => exact Prod.ext rfl (h rfl)
  | owed => rfl
  | returned => rfl

/-- The ledger after a call that concerns no present pair and adds none. -/
theorem after_eq_self {book : MapBook α} {made : ℕ} {call : MapCall α}
    (hfresh : book made = none) (hadded : call.added = [])
    (hkeep : ∀ n p, book n = some (p, .present) → Fate.present.after p.key call = .present) :
    after book made call = book := by
  funext n
  by_cases hne : n = made
  · subst hne
    simp [after, hadded, hfresh]
  · rw [after, if_neg hne]
    cases he : book n with
    | none => rfl
    | some e =>
      refine congrArg some (settle_eq_self fun hpresent => ?_)
      obtain ⟨p, f⟩ := e
      obtain rfl : f = .present := hpresent
      exact hkeep n p he

/-- The ledger after a call that concerns exactly one present pair and adds none. -/
theorem after_eq_update {map : PcMap α} {table : ℕ → List ℕ} {book : MapBook α}
    {call : MapCall α} {n : ℕ} {p : MapPair α} {f : Fate} (h : map.Holds table book)
    (hadded : call.added = []) (hn : book n = some (p, .present))
    (hf : Fate.present.after p.key call = f)
    (hkeep : ∀ p' : MapPair α, p'.key ≠ p.key → Fate.present.after p'.key call = .present) :
    after book map.made call = Function.update book n (some (p, f)) := by
  have hfresh := h.fresh map.made (Nat.le_refl _)
  have hnm : n ≠ map.made := by
    rintro rfl
    rw [hfresh] at hn
    cases hn
  funext n'
  by_cases hne : n' = n
  · subst hne
    rw [after, if_neg hnm, Function.update_self, hn, ← hf]
    rfl
  · rw [Function.update_of_ne hne]
    by_cases hm : n' = map.made
    · subst hm
      simp [after, hadded, hfresh]
    · rw [after, if_neg hm]
      cases he : book n' with
      | none => rfl
      | some e =>
        refine congrArg some (settle_eq_self fun hpresent => ?_)
        obtain ⟨p', f'⟩ := e
        obtain rfl : f' = .present := hpresent
        exact hkeep p' fun hkey => hne (h.unique n' n p' p he hn hkey)

/-- The two sides kept together: some table represents the ledger, and the releases are
accounted for. -/
def Keeps (map : PcMap α) (book : MapBook α) : Prop :=
  (∃ table, map.Holds table book) ∧ map.Accounts book

/-! ## The calls -/

/-- **`pc_map_get`** changes nothing and gives the value of the present pair with the key. -/
theorem get_spec {map : PcMap α} {table : ℕ → List ℕ} {book : MapBook α} {fuel : ℕ}
    {key : CString} {value : Option α} (h : map.Holds table book)
    (hget : map.get fuel key = some value) :
    (∃ n p, book n = some (p, .present) ∧ p.key = key ∧ p.value = value) ∨
      (value = none ∧ ∀ n p, book n = some (p, .present) → p.key ≠ key) := by
  unfold get at hget
  split at hget
  · obtain ⟨found, hfind, hget⟩ := Option.bind_eq_some_iff.mp hget
    have hfound := h.find_head hfind
    cases found with
    | none => exact .inr ⟨(Option.some.inj hget).symm, h.absent hfound⟩
    | some r => exact .inl ⟨r.1, r.2, hfound.1, hfound.2, Option.some.inj hget⟩
  · cases hget

/-- **`pc_map_del`** takes the present pair with the key out of the map and gives its
value; nothing is released. -/
theorem del_spec {map map' : PcMap α} {book : MapBook α} {fuel : ℕ} {key : CString}
    {value : Option α} (h : map.Keeps book) (hdel : map.del fuel key = some (map', value)) :
    map'.Keeps (after book map.made (.del key)) ∧ map'.made = map.made ∧
      ((∃ n p, book n = some (p, .present) ∧ p.key = key ∧ p.value = value) ∨
        (value = none ∧ ∀ n p, book n = some (p, .present) → p.key ≠ key)) := by
  obtain ⟨⟨table, hH⟩, hA⟩ := h
  unfold del at hdel
  split at hdel
  · obtain ⟨found, hfind, hdel⟩ := Option.bind_eq_some_iff.mp hdel
    have hfound := hH.find_head hfind
    cases found with
    | none =>
      obtain ⟨rfl, rfl⟩ := Prod.mk.inj (Option.some.inj hdel)
      have habsent := hH.absent hfound
      have hbook : after book map.made (.del key) = book :=
        after_eq_self (hH.fresh _ (Nat.le_refl _)) rfl
          (fun n p hp => if_neg (Ne.symm (habsent n p hp)))
      rw [hbook]
      exact ⟨⟨⟨table, hH⟩, hA⟩, rfl, .inr ⟨rfl, habsent⟩⟩
    | some r =>
      obtain ⟨n, p⟩ := r
      obtain ⟨rfl, rfl⟩ := Prod.mk.inj (Option.some.inj hdel)
      obtain ⟨hn, rfl⟩ := hfound
      have hbook : after book map.made (.del p.key) =
          Function.update book n (some (p, .returned)) :=
        after_eq_update hH rfl hn (if_pos rfl) (fun p' hne => if_neg (Ne.symm hne))
      obtain ⟨xs, ys, hxy⟩ := List.append_of_mem (hH.mem_own hn)
      have hfree := (hH.unlink (f := .returned) hn (by decide) hxy).free (n := n) (by simp)
        map.released
      rw [hbook]
      refine ⟨⟨⟨_, hfree⟩, hA.update ?_ rfl⟩, rfl, .inl ⟨n, p, hn, rfl, rfl⟩⟩
      rw [hn]
      rfl
  · cases hdel

/-- The new pair of `pc_map_set` is present, and only the pair it replaces is concerned. -/
theorem after_set {book book' : MapBook α} {made : ℕ} {key : CString} {value : Option α}
    (hmade : book' made = some (⟨key, value⟩, .present))
    (hother : ∀ n, n ≠ made → book' n = (book n).map (MapCall.set key value).settle) :
    after book made (.set key value) = book' := by
  funext n
  by_cases hne : n = made
  · subst hne
    simp [after, MapCall.added, hmade]
  · rw [after, if_neg hne, hother n hne]

/-- **`pc_map_set`** adds its pair. A pair with the same key is taken out first and its
value is released. -/
theorem set_spec {map map' : PcMap α} {book : MapBook α} {fuel : ℕ} {key : CString}
    {value : Option α} (h : map.Keeps book) (hset : map.set fuel key value = some map') :
    map'.Keeps (after book map.made (.set key value)) ∧ map'.made = map.made + 1 := by
  obtain ⟨⟨table, hH⟩, hA⟩ := h
  unfold set at hset
  split at hset
  case isFalse => cases hset
  case isTrue hbuckets =>
  obtain ⟨⟨links, old⟩, hloop, hset⟩ := Option.bind_eq_some_iff.mp hset
  have hfresh := hH.fresh map.made (Nat.le_refl _)
  have hH₁ := hH.alloc ⟨key, value⟩
  have hpair : (map.alloc ⟨key, value⟩).pairs map.made = some ⟨key, value⟩ :=
    Function.update_self ..
  have hmade : map.made < (map.alloc ⟨key, value⟩).made := Nat.lt_succ_self _
  have hstart := hH₁.walk_start (hH₁.bucket_lt key)
  rw [head, hstart] at hloop
  rcases hH₁.unlinkOld key fuel [] _ rfl (fun n hn => absurd hn (List.not_mem_nil)) hloop with
    ⟨rfl, rfl, habsent⟩ | ⟨n, p, rfl, hn, rfl, halone, rfl⟩
  · -- no pair has the key: the new one goes to the end of its bucket
    obtain rfl := Option.some.inj hset
    have hbook : after book map.made (.set key value) =
        Function.update book map.made (some (⟨key, value⟩, .present)) := by
      refine after_set (Function.update_self ..) (fun n hne => ?_)
      rw [Function.update_of_ne hne]
      cases he : book n with
      | none => rfl
      | some e =>
        refine congrArg some (settle_eq_self fun hpresent => ?_).symm
        obtain ⟨p, f⟩ := e
        obtain rfl : f = .present := hpresent
        exact if_neg (Ne.symm (habsent n p he))
    have hinsert := hH₁.insert (p := ⟨key, value⟩) hbuckets hmade hfresh hpair habsent
    have howed : owedTo map.made (some ((⟨key, value⟩ : MapPair α), .present)) =
        owedTo map.made (book map.made) := by
      rw [hfresh]
      rfl
    rw [hbook]
    exact ⟨⟨⟨_, hinsert⟩, hA.update howed rfl⟩, rfl⟩
  · -- the only pair of the bucket is replaced
    obtain rfl := Option.some.inj hset
    have hH₂ := hH₁.unlink (f := .owed) hn (by decide) (show _ = [] ++ n :: [] from halone)
    have hne := hH.ne_made hn
    have hbook : after book map.made (.set p.key value) =
        Function.update (Function.update book n (some (p, .owed))) map.made
          (some (⟨p.key, value⟩, .present)) := by
      refine after_set (Function.update_self ..) (fun n' hne' => ?_)
      rw [Function.update_of_ne hne']
      by_cases heq : n' = n
      · subst heq
        rw [Function.update_self, hn]
        exact congrArg some (Prod.ext rfl (if_pos rfl).symm)
      · rw [Function.update_of_ne heq]
        cases he : book n' with
        | none => rfl
        | some e =>
          refine congrArg some (settle_eq_self fun hpresent => ?_).symm
          obtain ⟨p', f⟩ := e
          obtain rfl : f = .present := hpresent
          exact if_neg fun hkey => heq (hH.unique n' n p' p he hn hkey.symm)
    have hfresh₂ : Function.update book n (some (p, .owed)) map.made = none := by
      rw [Function.update_of_ne (Ne.symm hne)]
      exact hfresh
    have hinsert := hH₂.insert (p := ⟨p.key, value⟩) hbuckets hmade hfresh₂ hpair
      (hH₁.absent_of_unlink hn (by decide))
    have hfree := hinsert.free (n := n) (by simp [Function.update_of_ne hne])
      ((n, p) :: map.released)
    have hA₁ : (releasePair map n p).Accounts (Function.update book n (some (p, .owed))) :=
      hA.release hn rfl
    have howed : owedTo map.made (some ((⟨p.key, value⟩ : MapPair α), .present)) =
        owedTo map.made (Function.update book n (some (p, .owed)) map.made) := by
      rw [hfresh₂]
      rfl
    rw [hbook]
    exact ⟨⟨⟨_, hfree⟩, hA₁.update howed rfl⟩, rfl⟩

/-- From one ledger to another by releasing present pairs only. -/
def Cleared (book book' : MapBook α) : Prop :=
  ∀ n, book' n = book n ∨ ∃ p, book n = some (p, .present) ∧ book' n = some (p, .owed)

theorem Cleared.trans {book₁ book₂ book₃ : MapBook α} (h₁ : Cleared book₁ book₂)
    (h₂ : Cleared book₂ book₃) : Cleared book₁ book₃ := by
  intro n
  rcases h₁ n with h₁ | ⟨p, hp, h₁⟩
  · rw [← h₁]
    exact h₂ n
  · rcases h₂ n with h₂ | ⟨p', hp', -⟩
    · exact .inr ⟨p, hp, h₂.trans h₁⟩
    · rw [h₁] at hp'
      cases hp'

theorem Cleared.present {book book' : MapBook α} (h : Cleared book book') {n : ℕ}
    {p : MapPair α} (hp : book' n = some (p, .present)) : book n = some (p, .present) := by
  rcases h n with h | ⟨p', -, h⟩
  · rwa [h] at hp
  · rw [h] at hp
    cases hp

/-- What clearing leaves as it is. -/
def SameShape (map map' : PcMap α) : Prop :=
  map'.capacity = map.capacity ∧ map'.buckets = map.buckets ∧ map'.made = map.made

/-- **One bucket cleared**: its pairs are released and none of them is present any more. -/
theorem clearBucket_spec {i : ℕ} :
    ∀ {fuel : ℕ} {map map' : PcMap α} {book : MapBook α}, map.Keeps book → i < map.capacity →
      clearBucket i fuel map = some map' →
      ∃ book', map'.Keeps book' ∧ Cleared book book' ∧ SameShape map map' ∧
        ∀ n p, book' n = some (p, .present) → p.key.hash % map.capacity ≠ i
  | 0, _, _, _, _, _, hclear => by cases hclear
  | fuel + 1, map, map', book, h, hi, hclear => by
    obtain ⟨⟨table, hH⟩, hA⟩ := h
    have hring := hH.ring i hi
    cases htable : table i with
    | nil =>
      have hempty := hring.empty_iff.mpr (by rw [htable]; rfl)
      have hend : map = map' := by simpa [clearBucket, hempty] using hclear
      subst hend
      refine ⟨book, ⟨⟨table, hH⟩, hA⟩, fun _ => .inl rfl, ⟨rfl, rfl, rfl⟩, ?_⟩
      intro n p hp hb
      have hmem := (hH.mem_table i n).mpr ⟨p, hp, hb⟩
      rw [htable] at hmem
      exact absurd hmem (List.not_mem_nil)
    | cons n ns =>
      obtain ⟨hempty, -, p, hn, rfl, hpair⟩ := hH.walk hi (show table i = [] ++ n :: ns from htable)
      have hstart := hH.walk_start hi
      rw [htable, Holds.walkAt] at hstart
      have hround : clearBucket (p.key.hash % map.capacity) fuel
          (releasePair { map with links := (map.links.remove (.pair n)).init (.pair n) } n p) =
            some map' := by
        simpa [clearBucket, hempty, hstart, hpair] using hclear
      have hfree := (hH.unlink (f := .owed) hn (by decide)
        (show _ = [] ++ n :: ns from htable)).free (n := n) (by simp) ((n, p) :: map.released)
      have hkeeps : (releasePair { map with links := (map.links.remove (.pair n)).init (.pair n) }
          n p).Keeps (Function.update book n (some (p, .owed))) :=
        ⟨⟨_, hfree⟩, hA.release hn rfl⟩
      obtain ⟨book', hkeeps', hcleared, hshape, hnone⟩ := clearBucket_spec hkeeps hi hround
      refine ⟨book', hkeeps', Cleared.trans (fun n' => ?_) hcleared, hshape, hnone⟩
      by_cases hne : n' = n
      · subst hne
        exact .inr ⟨p, hn, Function.update_self ..⟩
      · exact .inl (Function.update_of_ne hne ..)

/-- **The first `k` buckets cleared.** -/
theorem clearBuckets_spec {map : PcMap α} {book : MapBook α} {fuel : ℕ} (h : map.Keeps book) :
    ∀ {k : ℕ} {map' : PcMap α}, k ≤ map.capacity → map.clearBuckets fuel k = some map' →
      ∃ book', map'.Keeps book' ∧ Cleared book book' ∧ SameShape map map' ∧
        ∀ n p, book' n = some (p, .present) → k ≤ p.key.hash % map.capacity
  | 0, map', _, hclear => by
    obtain rfl := Option.some.inj hclear
    exact ⟨book, h, fun _ => .inl rfl, ⟨rfl, rfl, rfl⟩, fun _ _ _ => Nat.zero_le _⟩
  | k + 1, map', hk, hclear => by
    obtain ⟨map₁, hclear₁, hclear₂⟩ := Option.bind_eq_some_iff.mp hclear
    obtain ⟨book₁, h₁, hcleared₁, ⟨hcap, hbuckets, hmade⟩, hnone₁⟩ :=
      clearBuckets_spec h (Nat.le_of_succ_le hk) hclear₁
    obtain ⟨book₂, h₂, hcleared₂, ⟨hcap', hbuckets', hmade'⟩, hnone₂⟩ :=
      clearBucket_spec h₁ (hcap ▸ hk) hclear₂
    refine ⟨book₂, h₂, hcleared₁.trans hcleared₂,
      ⟨hcap'.trans hcap, hbuckets'.trans hbuckets, hmade'.trans hmade⟩, fun n p hp => ?_⟩
    have hle := hnone₁ n p (hcleared₂.present hp)
    have hne := hnone₂ n p hp
    rw [hcap] at hne
    exact Nat.lt_of_le_of_ne hle (Ne.symm hne)

/-- When nothing is present any more, every value that was present is owed. -/
theorem after_clear {map : PcMap α} {table : ℕ → List ℕ} {book book' : MapBook α}
    {call : MapCall α} (h : map.Holds table book) (hadded : call.added = [])
    (hcall : ∀ key, Fate.present.after key call = .owed) (hcleared : Cleared book book')
    (hnone : ∀ n p, book' n ≠ some (p, .present)) : after book map.made call = book' := by
  funext n
  have hentry : (book n).map call.settle = book' n := by
    rcases hcleared n with hsame | ⟨p, hp, howed⟩
    · cases he : book n with
      | none => rw [hsame, he]; rfl
      | some e =>
        rw [hsame, he]
        refine congrArg some (settle_eq_self fun hpresent => ?_)
        obtain ⟨p, f⟩ := e
        obtain rfl : f = .present := hpresent
        exact absurd (hsame.trans he) (hnone n p)
    · rw [hp, howed]
      exact congrArg some (Prod.ext rfl (hcall p.key))
  by_cases hne : n = map.made
  · subst hne
    have hfresh := h.fresh map.made (Nat.le_refl _)
    rw [hfresh] at hentry
    rw [← hentry]
    simp [after, hadded]
  · rw [after, if_neg hne, hentry]

/-- **`pc_map_clear`** releases every value that is present. -/
theorem clear_spec {map map' : PcMap α} {book : MapBook α} {fuel : ℕ} {call : MapCall α}
    (h : map.Keeps book) (hadded : call.added = [])
    (hcall : ∀ key, Fate.present.after key call = .owed) (hclear : map.clear fuel = some map') :
    map'.Keeps (after book map.made call) ∧ map'.made = map.made ∧
      ∀ n p, after book map.made call n ≠ some (p, .present) := by
  obtain ⟨table, hH⟩ := h.1
  unfold clear at hclear
  split at hclear
  · obtain ⟨book', hkeeps, hcleared, ⟨-, -, hmade⟩, hnone⟩ :=
      clearBuckets_spec h (Nat.le_refl _) hclear
    have hgone : ∀ n p, book' n ≠ some (p, .present) := fun n p hp =>
      absurd (hH.bucket_lt p.key) (Nat.not_lt.mpr (hnone n p hp))
    rw [after_clear hH hadded hcall hcleared hgone]
    exact ⟨hkeeps, hmade, hgone⟩
  case isFalse hclosed =>
    -- a closed map is empty already
    obtain rfl := Option.some.inj hclear
    have hgone := hH.closed (Bool.eq_false_iff.mpr hclosed)
    rw [after_clear hH hadded hcall (fun _ => .inl rfl) hgone]
    exact ⟨h, rfl, hgone⟩

/-- **`pc_map_close`** clears the map and lets go of the buckets. -/
theorem close_spec {map map' : PcMap α} {book : MapBook α} {fuel : ℕ} (h : map.Keeps book)
    (hclose : map.close fuel = some map') :
    map'.Keeps (after book map.made .close) ∧ map'.made = map.made := by
  obtain ⟨map₁, hclear, hclose⟩ := Option.bind_eq_some_iff.mp hclose
  obtain rfl := Option.some.inj hclose
  have hadded : (MapCall.close : MapCall α).added = [] := rfl
  obtain ⟨⟨⟨table, hH⟩, hA⟩, hmade, hgone⟩ := clear_spec h hadded (fun _ => rfl) hclear
  exact ⟨⟨⟨table, { hH with closed := fun _ => hgone }⟩, hA⟩, hmade⟩

/-- What the pointer given by a call says about the ledger before it. -/
def Answers (book : MapBook α) (key : CString) (result : Option α) : Prop :=
  (∃ n p, book n = some (p, .present) ∧ p.key = key ∧ p.value = result) ∨
    (result = none ∧ ∀ n p, book n = some (p, .present) → p.key ≠ key)

/-- **One call** keeps map and ledger together. -/
theorem call_spec {map map' : PcMap α} {book : MapBook α} {fuel : ℕ} {call : MapCall α}
    {result : Option α} (h : map.Keeps book) (hcall : map.call fuel call = some (map', result)) :
    map'.Keeps (after book map.made call) ∧ map'.made = map.made + call.added.length ∧
      ∀ key, call = .get key ∨ call = .del key → Answers book key result := by
  cases call with
  | set key value =>
    obtain ⟨map₁, hset, he⟩ := Option.map_eq_some_iff.mp hcall
    obtain ⟨rfl, rfl⟩ := Prod.mk.inj he
    obtain ⟨hkeeps, hmade⟩ := set_spec h hset
    refine ⟨hkeeps, hmade, ?_⟩
    rintro key' (hc | hc) <;> cases hc
  | get key =>
    obtain ⟨value, hget, he⟩ := Option.map_eq_some_iff.mp hcall
    obtain ⟨rfl, rfl⟩ := Prod.mk.inj he
    obtain ⟨table, hH⟩ := h.1
    have hbook : after book map.made (.get key) = book :=
      after_eq_self (hH.fresh _ (Nat.le_refl _)) rfl (fun _ _ _ => rfl)
    rw [hbook]
    refine ⟨h, rfl, ?_⟩
    rintro key' (hc | hc) <;> cases hc
    exact get_spec hH hget
  | del key =>
    obtain ⟨hkeeps, hmade, hanswer⟩ := del_spec h hcall
    refine ⟨hkeeps, hmade, ?_⟩
    rintro key' (hc | hc) <;> cases hc
    exact hanswer
  | clear =>
    obtain ⟨map₁, hclear, he⟩ := Option.map_eq_some_iff.mp hcall
    obtain ⟨rfl, rfl⟩ := Prod.mk.inj he
    have hadded : (MapCall.clear : MapCall α).added = [] := rfl
    obtain ⟨hkeeps, hmade, -⟩ := clear_spec h hadded (fun _ => rfl) hclear
    refine ⟨hkeeps, hmade, ?_⟩
    rintro key' (hc | hc) <;> cases hc
  | close =>
    obtain ⟨map₁, hclose, he⟩ := Option.map_eq_some_iff.mp hcall
    obtain ⟨rfl, rfl⟩ := Prod.mk.inj he
    obtain ⟨hkeeps, hmade⟩ := close_spec h hclose
    refine ⟨hkeeps, hmade, ?_⟩
    rintro key' (hc | hc) <;> cases hc

/-! ## Runs -/

/-- The ledger that a history is. -/
def book (calls : List (MapCall α)) : MapBook α := fun n => (history calls)[n]?

/-- One more call on the history is one more call on the ledger. -/
theorem after_book (calls : List (MapCall α)) (call : MapCall α) :
    after (book calls) (history calls).length call = book (calls ++ [call]) := by
  funext n
  rw [book, history_snoc, List.getElem?_append, List.length_map]
  by_cases hlt : n < (history calls).length
  · rw [if_pos hlt, after, if_neg (Nat.ne_of_lt hlt), List.getElem?_map]
    rfl
  · rw [if_neg hlt]
    by_cases heq : n = (history calls).length
    · subst heq
      cases call <;> simp [after, MapCall.added]
    · have hnone : book calls n = none :=
        List.getElem?_eq_none_iff.mpr (Nat.not_lt.mp hlt)
      rw [after, if_neg heq, hnone]
      have hlong : call.added.length ≤ n - (history calls).length := by
        have hone : call.added.length ≤ 1 := by cases call <;> simp [MapCall.added]
        omega
      exact (List.getElem?_eq_none_iff.mpr hlong).symm

/-- Every head initialised is a ring of its own. -/
theorem ring_initBuckets (links : Pointers MapNode) :
    ∀ {k i : ℕ}, i < k → IsRing (initBuckets links k) (.bucket i) []
  | k + 1, i, hi => by
    by_cases heq : i = k
    · subst heq
      exact ring_init _ _
    · have hlt : i < k := Nat.lt_of_le_of_ne (Nat.le_of_lt_succ hi) heq
      exact (ring_initBuckets links hlt).init_other (by simpa using Ne.symm heq)

/-- A new map holds nothing. -/
theorem keeps_init {capacity : ℕ} {links : Pointers MapNode} {map : PcMap α}
    (hinit : mapInit capacity links = some map) : map.Keeps (book []) ∧ map.made = 0 := by
  have hpos : 0 < if capacity < mapDefaultCapacity then mapDefaultCapacity else capacity := by
    split
    · decide
    · exact Nat.lt_of_lt_of_le (by decide : 0 < mapDefaultCapacity) (Nat.not_lt.mp ‹_›)
  unfold mapInit at hinit
  dsimp only at hinit
  generalize (if capacity < mapDefaultCapacity then mapDefaultCapacity else capacity) = buckets
    at hinit hpos
  split at hinit
  · cases hinit
  · obtain rfl := Option.some.inj hinit
    refine ⟨⟨⟨fun _ => [], ?_⟩, fun _ => rfl⟩, rfl⟩
    refine ⟨hpos, fun i hi => ring_initBuckets links hi, fun i n => ?_, ?_, ?_, fun _ _ => rfl, ?_⟩
    · constructor
      · exact fun hmem => absurd hmem (List.not_mem_nil)
      · rintro ⟨p, hp, -⟩
        cases hp
    · intro n p hp
      cases hp
    · intro n n' p p' hp
      cases hp
    · intro hb
      cases hb

/-- **Every run** keeps map and history together. -/
theorem run_keeps {capacity : ℕ} {links : Pointers MapNode} {map₀ map : PcMap α}
    {calls : List (MapCall α)} {results : List (Option α)}
    (hinit : mapInit capacity links = some map₀) (hrun : map₀.Run calls results map) :
    map.Keeps (book calls) ∧ map.made = (history calls).length := by
  induction hrun with
  | nil => exact keeps_init hinit
  | snoc hrun hcall ih =>
    obtain ⟨hkeeps, hmade⟩ := ih
    obtain ⟨hkeeps', hmade', -⟩ := call_spec hkeeps hcall
    rw [hmade, after_book] at hkeeps'
    refine ⟨hkeeps', ?_⟩
    rw [hmade', hmade, history_snoc, List.length_append, List.length_map]

/-- What a ledger answers is the last value of the key. -/
theorem Answers.lastValue {calls : List (MapCall α)} {key : CString} {result : Option α}
    (h : Answers (book calls) key result) : result = lastValue key calls := by
  obtain ⟨hsome, hnone⟩ := lastValue_history key calls
  rcases h with ⟨n, ⟨key', value⟩, hp, rfl, rfl⟩ | ⟨rfl, habsent⟩
  · exact (hsome value (List.mem_of_getElem? hp)).symm
  · refine (hnone fun v hv => ?_).symm
    obtain ⟨n, hn⟩ := List.mem_iff_getElem?.mp hv
    exact habsent n _ hn rfl

/-- **Every answer** in a run is the last value of its key. -/
theorem run_answers {capacity : ℕ} {links : Pointers MapNode} {map₀ map : PcMap α}
    {calls : List (MapCall α)} {results : List (Option α)}
    (hinit : mapInit capacity links = some map₀) (hrun : map₀.Run calls results map) :
    results.length = calls.length ∧
      ∀ i key, calls[i]? = some (.get key) ∨ calls[i]? = some (.del key) →
        results[i]? = some (lastValue key (calls.take i)) := by
  induction hrun with
  | nil => exact ⟨rfl, fun i key hc => by rcases hc with hc | hc <;> simp at hc⟩
  | @snoc calls results map₁ call fuel map₂ result hrun hcall ih =>
    obtain ⟨hlen, ih⟩ := ih
    obtain ⟨hkeeps, -⟩ := run_keeps hinit hrun
    obtain ⟨-, -, hanswer⟩ := call_spec hkeeps hcall
    refine ⟨by simp [hlen], fun i key hc => ?_⟩
    rcases Nat.lt_trichotomy i calls.length with hlt | rfl | hgt
    · rw [List.getElem?_append_left hlt] at hc
      rw [List.getElem?_append_left (hlen ▸ hlt), List.take_append_of_le_length (Nat.le_of_lt hlt)]
      exact ih i key hc
    · rw [List.getElem?_concat_length, Option.some_inj, Option.some_inj] at hc
      rw [List.take_left, ← hlen, List.getElem?_concat_length, (hanswer key hc).lastValue]
    · have hnone : (calls ++ [call])[i]? = none := by
        rw [List.getElem?_eq_none_iff, List.length_append]
        exact hgt
      rw [hnone] at hc
      rcases hc with hc | hc <;> cases hc

/-! ## Which calls return -/

namespace Holds

variable {map : PcMap α} {table : ℕ → List ℕ} {book : MapBook α}

/-- A bucket is no longer than the number of pairs made. -/
theorem length_le (h : map.Holds table book) {i : ℕ} (hi : i < map.capacity) :
    (table i).length ≤ map.made := by
  have hnd : (table i).Nodup :=
    ((List.nodup_cons.mp (h.ring i hi).nodup).2).of_map _
  refine length_le_of_nodup_of_lt hnd fun n hn => ?_
  obtain ⟨p, hp, -⟩ := (h.mem_table i n).mp hn
  refine Nat.lt_of_not_le fun hle => ?_
  rw [h.fresh n hle] at hp
  cases hp

/-- The loop of `pc_map_get` and `pc_map_del` ends. -/
theorem find_returns (h : map.Holds table book) (key : CString) :
    (map.find key (map.head key) (map.made + 1) (map.links.next (map.head key))).isSome := by
  have hi := h.bucket_lt key
  rw [PcMap.head, h.walk_start hi]
  exact (h.find key hi _ [] _ rfl).2 (Nat.lt_succ_of_le (h.length_le hi))

/-- The loop of `pc_map_set` ends when no pair has the key. -/
theorem unlinkOld_returns (h : map.Holds table book) {key : CString}
    (habsent : ∀ n p, book n = some (p, .present) → p.key ≠ key) :
    ∀ (fuel : ℕ) (xs ys : List ℕ), table (key.hash % map.capacity) = xs ++ ys →
      ys.length < fuel →
      (map.unlinkOld key (map.head key) fuel map.links (walkAt (key.hash % map.capacity) ys)
        none).isSome
  | 0, _, _, _, hlt => absurd hlt (Nat.not_lt_zero _)
  | fuel + 1, xs, [], _, _ => by simp [PcMap.unlinkOld, walkAt, PcMap.head]
  | fuel + 1, xs, n :: ys, hxy, hlt => by
    obtain ⟨hempty, hnext, p, hp, -, hpair⟩ := h.walk (h.bucket_lt key) hxy
    have ih := unlinkOld_returns h habsent fuel (xs ++ [n]) ys (by simp [hxy])
      (Nat.lt_of_succ_lt_succ hlt)
    simpa [PcMap.unlinkOld, walkAt, PcMap.head, hempty, hpair, habsent n p hp, hnext] using ih

/-- The loop of `pc_map_set` ends in two rounds when the only pair of the bucket has the
key. -/
theorem unlinkOld_alone (h : map.Holds table book) {n fuel : ℕ} {p : MapPair α}
    (hn : book n = some (p, .present)) (halone : table (p.key.hash % map.capacity) = [n]) :
    (map.unlinkOld p.key (map.head p.key) (fuel + 2) map.links
      (walkAt (p.key.hash % map.capacity) [n]) none).isSome := by
  obtain ⟨hempty, -, p', hp', -, hpair⟩ :=
    h.walk (h.bucket_lt p.key) (show _ = [] ++ n :: [] from halone)
  obtain ⟨rfl, -⟩ := Prod.mk.inj (Option.some.inj (hn.symm.trans hp'))
  have hring := h.ring _ (h.bucket_lt p.key)
  rw [halone, show [n].map MapNode.pair = [] ++ .pair n :: [] from rfl] at hring
  have hempty' := hring.unlink.empty_iff.mpr rfl
  simp [PcMap.unlinkOld, walkAt, PcMap.head, hempty, hpair, hempty']

/-- One bucket is cleared in as many rounds as it has pairs. -/
theorem clearBucket_returns {i : ℕ} :
    ∀ {fuel : ℕ} {map : PcMap α} {table : ℕ → List ℕ} {book : MapBook α},
      map.Holds table book → i < map.capacity → (table i).length < fuel →
      (clearBucket i fuel map).isSome
  | 0, _, _, _, _, _, hlt => absurd hlt (Nat.not_lt_zero _)
  | fuel + 1, map, table, book, h, hi, hlt => by
    cases htable : table i with
    | nil =>
      have hempty := (h.ring i hi).empty_iff.mpr (by rw [htable]; rfl)
      simp [clearBucket, hempty]
    | cons n ns =>
      obtain ⟨hempty, -, p, hn, rfl, hpair⟩ := h.walk hi (show table i = [] ++ n :: ns from htable)
      have hstart := h.walk_start hi
      rw [htable, walkAt] at hstart
      have hfree := (h.unlink (f := .owed) hn (by decide)
        (show _ = [] ++ n :: ns from htable)).free (n := n) (by simp) ((n, p) :: map.released)
      have hshort : ns.length < fuel := by
        rw [htable, List.length_cons] at hlt
        exact Nat.lt_of_succ_lt_succ hlt
      have ih := clearBucket_returns hfree hi (by rw [Function.update_self]; exact hshort)
      simpa [clearBucket, hempty, hstart, hpair, releasePair] using ih

end Holds

/-- The calls the model promises to return: on an open map every `pc_map_get` and
`pc_map_del`, and every `pc_map_set` whose key is new or alone in its bucket; every
`pc_map_clear` and `pc_map_close`. -/
def Free (map : PcMap α) (book : MapBook α) : MapCall α → Prop
  | .set key _ => map.buckets = true ∧ ∀ n p n' p', book n = some (p, .present) →
      book n' = some (p', .present) → p.key = key →
      p'.key.hash % map.capacity = key.hash % map.capacity → n' = n
  | .get _ => map.buckets = true
  | .del _ => map.buckets = true
  | .clear => True
  | .close => True

/-- A list without duplicates whose only member is `n`. -/
theorem eq_singleton {l : List ℕ} {n : ℕ} (hnd : l.Nodup) (hmem : n ∈ l)
    (honly : ∀ m ∈ l, m = n) : l = [n] := by
  obtain ⟨xs, ys, rfl⟩ := List.append_of_mem hmem
  have hnot := List.nodup_middle.mp hnd
  have hnil : xs ++ ys = [] := by
    refine List.eq_nil_iff_forall_not_mem.mpr fun m hm => ?_
    have heq := honly m (by
      rcases List.mem_append.mp hm with hm | hm
      · exact List.mem_append_left _ hm
      · exact List.mem_append_right _ (List.mem_cons_of_mem n hm))
    exact (List.nodup_cons.mp hnot).1 (heq ▸ hm)
  obtain ⟨rfl, rfl⟩ := List.append_eq_nil_iff.mp hnil
  rfl

/-- `pc_map_set` returns when its loop does. -/
theorem set_returns_of_loop {map : PcMap α} {key : CString} {value : Option α} {fuel : ℕ}
    (hopen : map.buckets = true)
    (hloop : ((map.alloc ⟨key, value⟩).unlinkOld key ((map.alloc ⟨key, value⟩).head key) fuel
      (map.alloc ⟨key, value⟩).links
      ((map.alloc ⟨key, value⟩).links.next ((map.alloc ⟨key, value⟩).head key)) none).isSome) :
    (map.set fuel key value).isSome := by
  obtain ⟨⟨links, old⟩, hloop⟩ := Option.isSome_iff_exists.mp hloop
  unfold set
  rw [if_pos hopen]
  show (Option.bind _ _).isSome
  rw [hloop]
  cases old <;> rfl

/-- `pc_map_set` returns exactly when no other pair shares the bucket of a pair it would
replace. -/
theorem set_returns_iff {map : PcMap α} {book : MapBook α} (h : map.Keeps book) (key : CString)
    (value : Option α) :
    (∃ fuel, (map.set fuel key value).isSome) ↔ map.Free book (.set key value) := by
  obtain ⟨⟨table, hH⟩, -⟩ := h
  have hH₁ := hH.alloc ⟨key, value⟩
  have hi := hH.bucket_lt key
  have hstart := hH₁.walk_start (hH₁.bucket_lt key)
  constructor
  · rintro ⟨fuel, hset⟩
    obtain ⟨map', hset⟩ := Option.isSome_iff_exists.mp hset
    unfold set at hset
    split at hset
    case isFalse => cases hset
    case isTrue hbuckets =>
    obtain ⟨⟨links, old⟩, hloop, -⟩ := Option.bind_eq_some_iff.mp hset
    rw [head, hstart] at hloop
    refine ⟨hbuckets, fun n p n' p' hp hp' hkey hb => ?_⟩
    rcases hH₁.unlinkOld key fuel [] _ rfl (fun n hn => absurd hn (List.not_mem_nil)) hloop with
      ⟨-, -, habsent⟩ | ⟨m, q, -, hm, hq, halone, -⟩
    · exact absurd hkey (habsent n p hp)
    · obtain rfl := hH.unique n m p q hp hm (hkey.trans hq.symm)
      have hmem : n' ∈ table (key.hash % map.capacity) := (hH.mem_table _ n').mpr ⟨p', hp', hb⟩
      rw [show table (key.hash % map.capacity) = [n] from halone] at hmem
      exact List.mem_singleton.mp hmem
  · rintro ⟨hbuckets, hfree⟩
    refine ⟨map.made + 2, ?_⟩
    have hloop : ((map.alloc ⟨key, value⟩).unlinkOld key ((map.alloc ⟨key, value⟩).head key)
        (map.made + 2) (map.alloc ⟨key, value⟩).links
        ((map.alloc ⟨key, value⟩).links.next ((map.alloc ⟨key, value⟩).head key))
        none).isSome := by
      rw [show (map.alloc ⟨key, value⟩).links.next ((map.alloc ⟨key, value⟩).head key) = _ from
        hstart]
      by_cases hany : ∃ n p, book n = some (p, .present) ∧ p.key = key
      · obtain ⟨n, p, hn, rfl⟩ := hany
        have hnd : (table (p.key.hash % map.capacity)).Nodup :=
          ((List.nodup_cons.mp (hH.ring _ hi).nodup).2).of_map _
        have halone := eq_singleton hnd (hH.mem_own hn) (fun m hm => by
          obtain ⟨p', hp', hb⟩ := (hH.mem_table _ m).mp hm
          exact hfree n p m p' hn hp' rfl hb)
        rw [show table (p.key.hash % (map.alloc ⟨p.key, value⟩).capacity) = [n] from halone]
        exact hH₁.unlinkOld_alone hn halone
      · have hlen := hH.length_le hi
        exact hH₁.unlinkOld_returns (fun n p hp hkey => hany ⟨n, p, hp, hkey⟩) _ [] _ rfl
          (Nat.lt_succ_of_le (Nat.le_succ_of_le hlen))
    exact set_returns_of_loop hbuckets hloop

/-- On an open map `pc_map_get` returns. -/
theorem get_returns {map : PcMap α} {book : MapBook α} (h : map.Keeps book)
    (hopen : map.buckets = true) (key : CString) : (map.get (map.made + 1) key).isSome := by
  obtain ⟨table, hH⟩ := h.1
  obtain ⟨found, hfind⟩ := Option.isSome_iff_exists.mp (hH.find_returns key)
  unfold get
  rw [if_pos hopen]
  show (Option.bind _ _).isSome
  rw [hfind]
  cases found <;> rfl

/-- On an open map `pc_map_del` returns. -/
theorem del_returns {map : PcMap α} {book : MapBook α} (h : map.Keeps book)
    (hopen : map.buckets = true) (key : CString) : (map.del (map.made + 1) key).isSome := by
  obtain ⟨table, hH⟩ := h.1
  obtain ⟨found, hfind⟩ := Option.isSome_iff_exists.mp (hH.find_returns key)
  unfold del
  rw [if_pos hopen]
  show (Option.bind _ _).isSome
  rw [hfind]
  cases found <;> rfl

/-! ## The refinement -/

/-- **The map refines a finite map with release accounting.** `map` is the map after the
calls, `results` what they gave. -/
structure Refines (map : PcMap α) (calls : List (MapCall α)) (results : List (Option α)) :
    Prop where
  /-- `pc_map_get` gives the last value of its key -/
  get : ∀ i key, calls[i]? = some (.get key) → results[i]? = some (lastValue key (calls.take i))
  /-- `pc_map_del` gives the last value of its key -/
  del : ∀ i key, calls[i]? = some (.del key) → results[i]? = some (lastValue key (calls.take i))
  /-- each bucket of an open map is a list of exactly the present pairs whose hash leads
  to it -/
  buckets : map.buckets = true → ∀ i < map.capacity, ∃ ns : List ℕ,
    IsRing map.links (.bucket i) (ns.map .pair) ∧
      ∀ n, n ∈ ns ↔ ∃ p, map.pairs n = some p ∧ (history calls)[n]? = some (p, .present) ∧
        p.key.hash % map.capacity = i
  /-- at most one pair for each key -/
  one : ∀ (n n' : ℕ) (p p' : MapPair α), (history calls)[n]? = some (p, .present) →
    (history calls)[n']? = some (p', .present) → p.key = p'.key → n = n'
  /-- one release for each value that was replaced or cleared, none for the others -/
  released : ∀ n, map.released.filter (fun r => r.1 = n) = owedTo n (history calls)[n]?

end PcMap

/-- **Refinement.** A map of any capacity, after any run in which every call returns. -/
theorem map_refines {capacity : ℕ} {links : Pointers MapNode} {map₀ map : PcMap α}
    {calls : List (MapCall α)} {results : List (Option α)}
    (hinit : mapInit capacity links = some map₀) (hrun : map₀.Run calls results map) :
    map.Refines calls results := by
  obtain ⟨⟨⟨table, hH⟩, hA⟩, -⟩ := PcMap.run_keeps hinit hrun
  obtain ⟨-, hanswers⟩ := PcMap.run_answers hinit hrun
  refine ⟨fun i key hc => hanswers i key (.inl hc), fun i key hc => hanswers i key (.inr hc),
    fun _ i hi => ⟨table i, hH.ring i hi, fun n => ?_⟩, hH.unique, hA⟩
  rw [hH.mem_table i n]
  constructor
  · rintro ⟨p, hp, hb⟩
    exact ⟨p, hH.allocated n p hp, hp, hb⟩
  · rintro ⟨p, -, hp, hb⟩
    exact ⟨p, hp, hb⟩

/-! ## A run -/

/-- The calls one after the other, each loop with `fuel` rounds. -/
def PcMap.runCalls (fuel : ℕ) (map : PcMap α) :
    List (MapCall α) → Option (PcMap α × List (Option α))
  | [] => some (map, [])
  | call :: calls => do
    let (map, result) ← map.call fuel call
    let (map, results) ← map.runCalls fuel calls
    some (map, result :: results)

/-- What `runCalls` computes is a run. -/
theorem run_of_runCalls {fuel : ℕ} {map₀ : PcMap α} :
    ∀ {after before : List (MapCall α)} {results results' : List (Option α)} {map map' : PcMap α},
      map₀.Run before results map → map.runCalls fuel after = some (map', results') →
      map₀.Run (before ++ after) (results ++ results') map'
  | [], before, results, results', map, map', hrun, hcalls => by
    obtain ⟨rfl, rfl⟩ := Prod.mk.inj (Option.some.inj hcalls)
    simpa using hrun
  | call :: after, before, results, results', map, map', hrun, hcalls => by
    obtain ⟨⟨map₁, result⟩, hcall, hcalls⟩ := Option.bind_eq_some_iff.mp hcalls
    obtain ⟨⟨map₂, results₂⟩, hrest, hcalls⟩ := Option.bind_eq_some_iff.mp hcalls
    obtain ⟨rfl, rfl⟩ := Prod.mk.inj (Option.some.inj hcalls)
    simpa using run_of_runCalls (hrun.snoc hcall) hrest

/-- Two anagrams: they share a bucket in every map. -/
def keyAB : CString := ⟨[97, 98], by decide⟩

/-- The other one. -/
def keyBA : CString := ⟨[98, 97], by decide⟩

/-- A replaced value, a colliding key, a deletion, a clear and the end. -/
def mapCalls : List (MapCall ℕ) :=
  [.set keyAB (some 1), .set keyAB (some 2), .set keyBA (some 3), .get keyAB, .get keyBA,
    .del keyBA, .get keyBA, .clear, .get keyAB, .close]

/-- The run on a map of capacity 1, that is 64: the first value is replaced and the second
cleared, so both are released, and the third is returned by the deletion. -/
theorem map_refines_anagrams :
    ∃ map₀ map : PcMap ℕ, mapInit 1 ⟨id, id⟩ = some map₀ ∧
      map₀.Run mapCalls [none, none, none, some 2, some 3, some 3, none, none, none, none] map ∧
      map.released.map (fun r => (r.1, r.2.value)) = [(1, some 2), (0, some 1)] ∧
      map.Refines mapCalls
        [none, none, none, some 2, some 3, some 3, none, none, none, none] := by
  have hrun : ((mapInit 1 ⟨id, id⟩).bind fun map₀ : PcMap ℕ => map₀.runCalls 4 mapCalls).map
      (fun r => (r.2, r.1.released.map fun e => (e.1, e.2.value))) =
      some ([none, none, none, some 2, some 3, some 3, none, none, none, none],
        [(1, some 2), (0, some 1)]) := by
    decide +kernel
  obtain ⟨⟨map, results⟩, hcalls, he⟩ := Option.map_eq_some_iff.mp hrun
  obtain ⟨map₀, hinit, hcalls⟩ := Option.bind_eq_some_iff.mp hcalls
  obtain ⟨rfl, hreleased⟩ := Prod.mk.inj he
  have hrun := run_of_runCalls PcMap.Run.nil hcalls
  exact ⟨map₀, map, hinit, hrun, hreleased, map_refines hinit hrun⟩

end Libpomelo
