import Libpomelo.PbSync
import Libpomelo.PbStores

/-!
# What is kept of the values read

The decoder hands every value that it reads to a constructor of the JSON library and stores
what comes back, without looking at it. A constructor that fails gives `NULL`, and storing
`NULL` has no effect: the value is lost and the buffer is accepted all the same.

`Lossless` says that nothing was lost on the way from the buffer to the result, at any depth;
`Storable` is the condition on the values of the buffer.
-/

namespace Libpomelo

open BinaryFloat (Datum double)

/-! ## Primitive values -/

/-- The JSON value is the one that was read. -/
def Wire.Stands : Wire → Json → Prop
  | .int i, j => j = .int i
  | .real x, j => ∃ h : x.Finite, j = .real ⟨x, h⟩
  | .text bytes, j => ∃ s, j = .str s ∧ utf8Bytes s = bytes

/-- A JSON value can hold it: a finite number, or UTF-8 text without a zero byte. -/
def Wire.Storable : Wire → Prop
  | .int _ => True
  | .real x => x.Finite
  | .text bytes => 0 ∉ bytes ∧ ∃ s, utf8Bytes s = bytes

theorem zero_not_mem_takeWhile (text : List UInt8) : 0 ∉ text.takeWhile (· ≠ 0) := by
  intro hmem
  simpa using List.mem_takeWhile_imp hmem

/-- No string of the library has a zero byte. -/
theorem Wire.json_zero {w : Wire} {s : String} (h : w.json = some (.str s)) :
    0 ∉ utf8Bytes s := by
  cases w with
  | int i => simp [Wire.json] at h
  | real x =>
    rw [Wire.json, jsonReal] at h
    split at h <;> simp at h
  | text bytes =>
    obtain ⟨s', hs', htext⟩ := jsonString_text h
    obtain rfl := Json.str.inj hs'
    rw [htext]
    exact zero_not_mem_takeWhile bytes

/-- What can be stored comes back as it was read. -/
theorem Wire.Storable.json {w : Wire} (h : w.Storable) : ∃ j, w.json = some j ∧ w.Stands j := by
  cases w with
  | int i => exact ⟨_, rfl, rfl⟩
  | real x =>
    have hfinite : x.Finite := h
    exact ⟨.real ⟨x, hfinite⟩, by rw [Wire.json, jsonReal, dif_pos hfinite], hfinite, rfl⟩
  | text bytes =>
    obtain ⟨hzero, s, rfl⟩ := h
    exact ⟨.str s, jsonString_utf8Bytes hzero, s, rfl, rfl⟩

/-! ## Occurrences of one field -/

/-- The last value that was read for a single field. -/
def lastSingle (name : String) : List Item → Option Reading
  | [] => none
  | .single n v :: items => (lastSingle name items).or (if n = name then some v else none)
  | .elements _ _ :: items => lastSingle name items

/-- All values that were read for a repeated field, in the order of the buffer. -/
def elementsOf (name : String) : List Item → Option (List Reading)
  | [] => none
  | .single _ _ :: items => elementsOf name items
  | .elements n vs :: items =>
    if n = name then some (vs ++ (elementsOf name items).getD []) else elementsOf name items

section Occurrences

variable {buf : Bytes} {gprotos protos : Json} {name : String} {items : List Item}
  {acc : List (String × Json)} {v : Reading} {j : Json}

theorem lastSingle_mem (h : lastSingle name items = some v) : .single name v ∈ items := by
  induction items with
  | nil => cases h
  | cons item items ih =>
    cases item with
    | single n v' =>
      rw [lastSingle, Option.or_eq_some_iff] at h
      obtain h | ⟨-, h⟩ := h
      · exact List.mem_cons_of_mem _ (ih h)
      · split at h
        · next heq =>
          obtain rfl := Option.some.inj h
          rw [heq]
          exact List.mem_cons_self
        · cases h
    | elements n vs => exact List.mem_cons_of_mem _ (ih h)

theorem lastSingle_eq_none (h : lastSingle name items = none) (v : Reading) :
    .single name v ∉ items := by
  induction items with
  | nil => exact List.not_mem_nil
  | cons item items ih =>
    cases item with
    | single n v' =>
      rw [lastSingle, Option.or_eq_none_iff] at h
      obtain ⟨hrest, hne⟩ := h
      rw [List.mem_cons, not_or]
      refine ⟨?_, ih hrest⟩
      rintro ⟨⟩
      simp at hne
    | elements n vs =>
      rw [List.mem_cons, not_or]
      exact ⟨by simp, ih h⟩

/-- Every value of a repeated field was read in one of its occurrences. -/
theorem mem_elementsOf {vs : List Reading} (h : elementsOf name items = some vs) (hv : v ∈ vs) :
    ∃ vs', .elements name vs' ∈ items ∧ v ∈ vs' := by
  induction items generalizing vs with
  | nil => cases h
  | cons item items ih =>
    have hlater : ∀ {us}, elementsOf name items = some us → v ∈ us →
        ∃ vs', .elements name vs' ∈ item :: items ∧ v ∈ vs' := by
      intro us hus hmem
      obtain ⟨vs', hmem', hv'⟩ := ih hus hmem
      exact ⟨vs', List.mem_cons_of_mem _ hmem', hv'⟩
    cases item with
    | single n v' => exact hlater h hv
    | elements n vs' =>
      rw [elementsOf] at h
      split at h
      · next heq =>
        subst heq
        obtain rfl := Option.some.inj h
        obtain hmem | hmem := List.mem_append.mp hv
        · exact ⟨vs', List.mem_cons_self, hmem⟩
        · rcases hrest : elementsOf n items with _ | us
          · simp [hrest] at hmem
          · rw [hrest] at hmem
            exact hlater hrest hmem
      · exact hlater h hv

theorem elementsOf_of_mem {vs : List Reading} (h : .elements name vs ∈ items) :
    ∃ us, elementsOf name items = some us := by
  induction items with
  | nil => cases h
  | cons item items ih =>
    obtain rfl | hmem := List.mem_cons.mp h
    · exact ⟨_, by rw [elementsOf, if_pos rfl]⟩
    · obtain ⟨us, hus⟩ := ih hmem
      cases item with
      | single n v => exact ⟨us, hus⟩
      | elements n ws =>
        rw [elementsOf]
        split
        · exact ⟨_, rfl⟩
        · exact ⟨us, hus⟩

theorem elementsOf_mem {vs : List Reading} (h : elementsOf name items = some vs) :
    ∃ vs', .elements name vs' ∈ items := by
  induction items generalizing vs with
  | nil => cases h
  | cons item items ih =>
    cases item with
    | single n v' =>
      obtain ⟨vs', hmem⟩ := ih h
      exact ⟨vs', List.mem_cons_of_mem _ hmem⟩
    | elements n us =>
      rw [elementsOf] at h
      split at h
      · next heq =>
        subst heq
        exact ⟨us, List.mem_cons_self⟩
      · obtain ⟨vs', hmem⟩ := ih h
        exact ⟨vs', List.mem_cons_of_mem _ hmem⟩

/-! ## Members of the result -/

theorem built_cons (item : Item) (items : List Item) (acc : List (String × Json)) :
    built buf gprotos (item :: items) acc =
      built buf gprotos items (item.put buf gprotos acc) := rfl

/-- A field that does not occur is left alone. -/
theorem lookup_put_of_ne {item : Item} (hsingle : ∀ v, item ≠ .single name v)
    (helements : ∀ vs, item ≠ .elements name vs) :
    (item.put buf gprotos acc).lookup name = acc.lookup name := by
  cases item with
  | single n v =>
    have hne : name ≠ n := by
      rintro rfl
      exact hsingle v rfl
    rw [Item.put]
    cases v.json buf gprotos with
    | none => rfl
    | some j => exact lookup_setMember_of_ne hne j acc
  | elements n vs =>
    have hne : name ≠ n := by
      rintro rfl
      exact helements vs rfl
    exact lookup_setMember_of_ne hne _ acc

theorem lookup_built_of_absent (hsingle : ∀ v, .single name v ∉ items)
    (helements : ∀ vs, .elements name vs ∉ items) :
    (built buf gprotos items acc).lookup name = acc.lookup name := by
  induction items generalizing acc with
  | nil => rfl
  | cons item items ih =>
    simp only [List.mem_cons, not_or] at hsingle helements
    rw [built_cons, ih (fun v => (hsingle v).2) fun vs => (helements vs).2]
    exact lookup_put_of_ne (fun v heq => (hsingle v).1 heq.symm)
      fun vs heq => (helements vs).1 heq.symm

/-- The member of a single field is its last value, if that has a JSON value. -/
theorem lookup_built_last (helements : ∀ vs, .elements name vs ∉ items)
    (h : lastSingle name items = some v) (hj : v.json buf gprotos = some j) :
    (built buf gprotos items acc).lookup name = some j := by
  induction items generalizing acc with
  | nil => cases h
  | cons item items ih =>
    simp only [List.mem_cons, not_or] at helements
    have helements' : ∀ vs, .elements name vs ∉ items := fun vs => (helements vs).2
    rw [built_cons]
    cases item with
    | single n v' =>
      rw [lastSingle, Option.or_eq_some_iff] at h
      obtain h | ⟨hnone, h⟩ := h
      · exact ih helements' h
      · rw [lookup_built_of_absent (lastSingle_eq_none hnone) helements']
        split at h
        · next heq =>
          obtain rfl := Option.some.inj h
          subst heq
          rw [Item.put, hj]
          exact lookup_setMember_self n j acc
        · cases h
    | elements n vs => exact ih helements' h

/-- It is some value that was read for it. -/
theorem lookup_built_single (helements : ∀ vs, .elements name vs ∉ items)
    (h : (built buf gprotos items acc).lookup name = some j) :
    acc.lookup name = some j ∨ ∃ v, .single name v ∈ items ∧ v.json buf gprotos = some j := by
  induction items generalizing acc with
  | nil => exact .inl h
  | cons item items ih =>
    simp only [List.mem_cons, not_or] at helements
    rw [built_cons] at h
    obtain hput | ⟨v, hmem, hv⟩ := ih (fun vs => (helements vs).2) h
    · by_cases hitem : ∃ v, item = .single name v
      · obtain ⟨v, rfl⟩ := hitem
        rw [Item.put] at hput
        rcases hv : v.json buf gprotos with _ | j'
        · rw [hv] at hput
          exact .inl hput
        · rw [hv] at hput
          have hself := lookup_setMember_self name j' acc
          obtain rfl := Option.some.inj (hself.symm.trans hput)
          exact .inr ⟨v, List.mem_cons_self, hv⟩
      · rw [lookup_put_of_ne (fun v heq => hitem ⟨v, heq⟩)
          fun vs heq => (helements vs).1 heq.symm] at hput
        exact .inl hput
    · exact .inr ⟨v, List.mem_cons_of_mem _ hmem, hv⟩

theorem putElement_arr (name : String) (xs : List Json) (v : Reading) :
    putElement buf gprotos name (.arr xs) v = .arr (xs ++ (v.json buf gprotos).toList) := by
  have happend : ∀ o : Option Json, jsonArrayAppend (.arr xs) o = .arr (xs ++ o.toList) := by
    intro o
    cases o <;> simp [jsonArrayAppend]
  cases v with
  | scalar w => exact happend w.json
  | message level turns s => exact happend _
  | blank => exact happend (some (.obj []))

theorem foldl_putElement (name : String) (vs : List Reading) (xs : List Json) :
    vs.foldl (putElement buf gprotos name) (.arr xs) =
      .arr (xs ++ vs.filterMap (Reading.json buf gprotos)) := by
  induction vs generalizing xs with
  | nil => simp
  | cons v vs ih =>
    rw [List.foldl_cons, putElement_arr, ih, List.append_assoc, List.filterMap_cons]
    cases v.json buf gprotos <;> rfl

/-- The member of a repeated field holds the JSON values of all its elements. -/
theorem lookup_built_elements {vs : List Reading} {xs : List Json}
    (hsingle : ∀ v, .single name v ∉ items) (h : elementsOf name items = some vs)
    (hacc : (acc.lookup name).getD (.arr []) = .arr xs) :
    (built buf gprotos items acc).lookup name =
      some (.arr (xs ++ vs.filterMap (Reading.json buf gprotos))) := by
  induction items generalizing acc vs xs with
  | nil => cases h
  | cons item items ih =>
    simp only [List.mem_cons, not_or] at hsingle
    have hsingle' : ∀ v, .single name v ∉ items := fun v => (hsingle v).2
    rw [built_cons]
    cases item with
    | single n v =>
      apply ih hsingle' h
      rw [lookup_put_of_ne (fun v heq => (hsingle v).1 heq.symm) (by simp)]
      exact hacc
    | elements n us =>
      rw [elementsOf] at h
      split at h
      · next heq =>
        subst heq
        have hput : ((Item.elements n us).put buf gprotos acc).lookup n =
            some (.arr (xs ++ us.filterMap (Reading.json buf gprotos))) := by
          rw [Item.put, lookup_setMember_self, hacc, foldl_putElement]
        -- is this the last occurrence of the field?
        rcases hrest : elementsOf n items with _ | ws
        · have habsent : ∀ vs, .elements n vs ∉ items := by
            intro ws hmem
            obtain ⟨vs', hvs'⟩ := elementsOf_of_mem hmem
            rw [hrest] at hvs'
            cases hvs'
          rw [hrest] at h
          obtain rfl := Option.some.inj h
          rw [lookup_built_of_absent hsingle' habsent, hput]
          simp
        · rw [hrest] at h
          obtain rfl := Option.some.inj h
          rw [ih hsingle' hrest (by rw [hput]; rfl)]
          simp
      · next hne =>
        apply ih hsingle' h
        rw [lookup_put_of_ne (by simp) fun vs heq => hne (Item.elements.inj heq).1]
        exact hacc

/-- The same in a result that starts empty. -/
theorem lookup_built_array {vs : List Reading} (hsingle : ∀ v, .single name v ∉ items)
    (h : elementsOf name items = some vs) :
    (built buf gprotos items []).lookup name =
      some (.arr (vs.filterMap (Reading.json buf gprotos))) := by
  have hempty : (([] : List (String × Json)).lookup name).getD (.arr []) = .arr [] := rfl
  rw [lookup_built_elements hsingle h hempty, List.nil_append]

end Occurrences

/-! ## Single and repeated fields -/

/-- The fields occur as the level defines them. -/
structure AsDefined (protos : Json) (items : List Item) : Prop where
  /-- a single value is one of a single field -/
  single : ∀ name v, .single name v ∈ items → ∃ proto option,
    jsonObjectGet (some protos) name = some proto ∧ fieldOption proto = some option ∧
      IsSingle option
  /-- elements are those of a repeated field -/
  elements : ∀ name vs, .elements name vs ∈ items → ∃ proto,
    jsonObjectGet (some protos) name = some proto ∧ fieldOption proto = some "repeated"

section Defined

variable {buf : Bytes} {gprotos protos : Json} {name : String} {items : List Item}

theorem AsDefined.disjoint (h : AsDefined protos items) {v : Reading} {vs : List Reading}
    (hv : .single name v ∈ items) : .elements name vs ∉ items := by
  intro hvs
  obtain ⟨proto, option, hproto, hopt, hsingle⟩ := h.single name v hv
  obtain ⟨proto', hproto', hopt'⟩ := h.elements name vs hvs
  obtain rfl := Option.some.inj (hproto.symm.trans hproto')
  exact hsingle.not_repeated (Option.some.inj (hopt.symm.trans hopt'))

theorem AsDefined.append {rest : List Item} (h : AsDefined protos items)
    (h' : AsDefined protos rest) : AsDefined protos (items ++ rest) where
  single name v hmem := (List.mem_append.mp hmem).elim (h.single name v) (h'.single name v)
  elements name vs hmem := (List.mem_append.mp hmem).elim (h.elements name vs) (h'.elements name vs)

theorem AsDefined.nil : AsDefined protos [] := ⟨by simp, by simp⟩

theorem fieldOfTag_get {n : ℕ} {proto : Json} (h : fieldOfTag protos n = some (name, proto)) :
    jsonObjectGet (some protos) name = some proto := by
  obtain ⟨tags, -, h⟩ := Option.bind_eq_some_iff.mp h
  obtain ⟨name', -, h⟩ := Option.bind_eq_some_iff.mp h
  obtain ⟨proto', hproto, heq⟩ := Option.map_eq_some_iff.mp h
  obtain ⟨rfl, rfl⟩ := Prod.mk.inj heq
  exact hproto

theorem readField_asDefined {read : Json → IStream → Option (List Item × IStream)}
    {turns tag : ℕ} {s s' : IStream}
    (h : readField buf gprotos protos read turns tag s = some (items, s')) :
    AsDefined protos items := by
  obtain ⟨⟨name, proto⟩, hfield, h⟩ := Option.bind_eq_some_iff.mp h
  obtain ⟨option, hopt, h⟩ := Option.bind_eq_some_iff.mp h
  have hproto := fieldOfTag_get hfield
  dsimp only at h
  split at h
  · next hsingle =>
    obtain ⟨⟨v, s₁⟩, -, heq⟩ := Option.map_eq_some_iff.mp h
    obtain ⟨rfl, -⟩ := Prod.mk.inj heq
    have hitems : v.items name = [] ∨ v.items name = [.single name v] := by
      cases v <;> simp [Reading.items]
    obtain hnil | hone := hitems
    · rw [hnil]
      exact .nil
    · rw [hone]
      refine ⟨?_, by simp⟩
      intro n u hmem
      obtain ⟨rfl, rfl⟩ := Item.single.inj (List.mem_singleton.mp hmem)
      exact ⟨proto, option, hproto, hopt, hsingle⟩
  · split at h
    · next hrep =>
      obtain ⟨⟨vs, s₁⟩, -, heq⟩ := Option.map_eq_some_iff.mp h
      obtain ⟨rfl, -⟩ := Prod.mk.inj heq
      refine ⟨by simp, ?_⟩
      intro n us hmem
      obtain ⟨rfl, rfl⟩ := Item.elements.inj (List.mem_singleton.mp hmem)
      exact ⟨proto, hproto, hrep ▸ hopt⟩
    · obtain ⟨rfl, -⟩ := Prod.mk.inj (Option.some.inj h)
      exact .nil

theorem readItems_asDefined {turns : ℕ} {s s' : IStream}
    (h : readItems buf gprotos turns protos s = some (items, s')) : AsDefined protos items := by
  induction turns generalizing items s with
  | zero =>
    rw [readItems] at h
    split at h
    · obtain ⟨rfl, -⟩ := Prod.mk.inj (Option.some.inj h)
      exact .nil
    · cases h
  | succ turns ih =>
    rw [readItems] at h
    split at h
    · obtain ⟨rfl, -⟩ := Prod.mk.inj (Option.some.inj h)
      exact .nil
    · split at h
      · obtain ⟨rfl, -⟩ := Prod.mk.inj (Option.some.inj h)
        exact .nil
      · cases h
      · obtain ⟨⟨first, s₁⟩, hfield, h⟩ := Option.bind_eq_some_iff.mp h
        obtain ⟨⟨rest, s₂⟩, hrest, heq⟩ := Option.map_eq_some_iff.mp h
        obtain ⟨rfl, rfl⟩ := Prod.mk.inj heq
        exact (readField_asDefined hfield).append (ih hrest)

/-- **A message and what was read for it.** -/
theorem message_json {turns : ℕ} {s : IStream} {j : Json}
    (h : (Reading.message protos turns s).json buf gprotos = some j) :
    ∃ items s', readItems buf gprotos turns protos s = some (items, s') ∧
      j = .obj (built buf gprotos items []) ∧ AllRan buf gprotos items ∧
      AsDefined protos items := by
  rw [Reading.json] at h
  split at h
  · next j' s' hrun =>
    obtain rfl := Option.some.inj h
    obtain ⟨items, hitems, hbuilt, hran⟩ := pbDecode_reads buf gprotos turns _ _ _ _ _ hrun
    exact ⟨items, s', hitems, hbuilt [] rfl, hran, readItems_asDefined hitems⟩
  · cases h

end Defined

/-! ## Nothing is lost -/

/-- **Lossless**: the JSON value is what was read. A message has, for each single field that was
read, a member that is its last value, and for each repeated field an array of as many elements
as were read, in the order of the buffer. -/
inductive Lossless (buf : Bytes) (gprotos : Json) : Reading → Json → Prop
  /-- a primitive value -/
  | scalar {w : Wire} {j : Json} : w.Stands j → Lossless buf gprotos (.scalar w) j
  /-- a message -/
  | message {level : Json} {turns : ℕ} {s s' : IStream} {items : List Item}
      {kvs : List (String × Json)} :
      readItems buf gprotos turns level s = some (items, s') →
      (∀ name v, lastSingle name items = some v → ∃ j, kvs.lookup name = some j) →
      (∀ name v j, lastSingle name items = some v → kvs.lookup name = some j →
        Lossless buf gprotos v j) →
      (∀ name vs, elementsOf name items = some vs →
        ∃ js, kvs.lookup name = some (.arr js) ∧ js.length = vs.length) →
      (∀ name vs js (i : ℕ) v j, elementsOf name items = some vs →
        kvs.lookup name = some (.arr js) → vs[i]? = some v → js[i]? = some j →
        Lossless buf gprotos v j) →
      Lossless buf gprotos (.message level turns s) (.obj kvs)
  /-- nothing was read -/
  | blank : Lossless buf gprotos .blank (.obj [])

/-- **Storable**: JSON values can hold what was read, the last value of each single field and
all elements of each repeated one, at every depth. -/
inductive Storable (buf : Bytes) (gprotos : Json) : Reading → Prop
  /-- a primitive value -/
  | scalar {w : Wire} : w.Storable → Storable buf gprotos (.scalar w)
  /-- a message -/
  | message {level : Json} {turns : ℕ} {s s' : IStream} {items : List Item} :
      readItems buf gprotos turns level s = some (items, s') →
      (∀ name v, lastSingle name items = some v → Storable buf gprotos v) →
      (∀ name vs v, elementsOf name items = some vs → v ∈ vs → Storable buf gprotos v) →
      Storable buf gprotos (.message level turns s)
  /-- nothing was read -/
  | blank : Storable buf gprotos .blank

section Lossless

variable {buf : Bytes} {gprotos : Json} {v : Reading} {j : Json}

theorem Reading.Ran.json {level : Json} {turns : ℕ} {s : IStream}
    (h : (Reading.message level turns s).Ran buf gprotos) :
    ∃ j, (Reading.message level turns s).json buf gprotos = some j := by
  obtain ⟨j, s', hrun⟩ := h
  exact ⟨j, by rw [Reading.json, hrun]⟩

/-- What can be stored has a JSON value. -/
theorem Storable.json (h : Storable buf gprotos v) (hran : v.Ran buf gprotos) :
    ∃ j, v.json buf gprotos = some j := by
  cases h with
  | scalar hw =>
    obtain ⟨j, hj, -⟩ := hw.json
    exact ⟨j, hj⟩
  | message => exact hran.json
  | blank => exact ⟨_, rfl⟩

/-- The JSON values of elements that all have one. -/
theorem map_json {vs : List Reading} (h : ∀ v ∈ vs, (v.json buf gprotos).isSome) :
    vs.map (Reading.json buf gprotos) =
      (vs.filterMap (Reading.json buf gprotos)).map some := by
  rw [List.map_filterMap_some_eq_filter_map_isSome, eq_comm, List.filter_eq_self]
  intro o ho
  obtain ⟨v, hv, rfl⟩ := List.mem_map.mp ho
  exact h v hv

/-- An element that has a JSON value stands at its place. -/
theorem json_getElem {vs : List Reading} {i : ℕ} (h : ∀ v ∈ vs, (v.json buf gprotos).isSome)
    (hv : vs[i]? = some v)
    (hj : (vs.filterMap (Reading.json buf gprotos))[i]? = some j) :
    v.json buf gprotos = some j := by
  have hget := congrArg (fun l => l[i]?) (map_json h)
  simpa [List.getElem?_map, hv, hj] using hget

/-- **What can be stored is kept.** -/
theorem Storable.lossless (h : Storable buf gprotos v) (hran : v.Ran buf gprotos)
    (hj : v.json buf gprotos = some j) : Lossless buf gprotos v j := by
  induction h generalizing j with
  | scalar hw =>
    obtain ⟨j', hj', hstands⟩ := hw.json
    obtain rfl := Option.some.inj (hj'.symm.trans hj)
    exact .scalar hstands
  | @message level turns s s' items hitems hlast helems ihlast ihelems =>
    obtain ⟨items', s'', hitems', rfl, hrans, hdef⟩ := message_json hj
    obtain ⟨rfl, -⟩ := Prod.mk.inj (Option.some.inj (hitems.symm.trans hitems'))
    -- the member of a single field is its last value
    have hmember : ∀ name v, lastSingle name items = some v → v.Ran buf gprotos ∧
        ∃ j, v.json buf gprotos = some j ∧
          (built buf gprotos items []).lookup name = some j := by
      intro name v hv
      have hmem := lastSingle_mem hv
      have hvran : v.Ran buf gprotos := hrans _ hmem v (List.mem_singleton.mpr rfl)
      obtain ⟨j, hj⟩ := (hlast name v hv).json hvran
      exact ⟨hvran, j, hj, lookup_built_last (fun vs => hdef.disjoint hmem) hv hj⟩
    -- the array of a repeated field has all elements
    have harray : ∀ name vs, elementsOf name items = some vs →
        (∀ v ∈ vs, v.Ran buf gprotos ∧ (v.json buf gprotos).isSome) ∧
        (built buf gprotos items []).lookup name =
          some (.arr (vs.filterMap (Reading.json buf gprotos))) := by
      intro name vs hvs
      refine ⟨fun v hv => ?_, ?_⟩
      · obtain ⟨us, hmem, hv'⟩ := mem_elementsOf hvs hv
        have hvran : v.Ran buf gprotos := hrans _ hmem v hv'
        obtain ⟨j, hj⟩ := (helems name vs v hvs hv).json hvran
        exact ⟨hvran, by rw [hj]; rfl⟩
      · obtain ⟨us, hmem⟩ := elementsOf_mem hvs
        exact lookup_built_array (fun v hv => hdef.disjoint hv hmem) hvs
    refine .message hitems ?_ ?_ ?_ ?_
    · intro name v hv
      obtain ⟨-, j, -, hget⟩ := hmember name v hv
      exact ⟨j, hget⟩
    · intro name v j hv hget
      obtain ⟨hvran, j', hj', hget'⟩ := hmember name v hv
      obtain rfl := Option.some.inj (hget'.symm.trans hget)
      exact ihlast name v hv hvran hj'
    · intro name vs hvs
      obtain ⟨hall, hget⟩ := harray name vs hvs
      refine ⟨_, hget, ?_⟩
      rw [List.length_filterMap_eq_countP, List.countP_eq_length]
      exact fun v hv => (hall v hv).2
    · intro name vs js i v j hvs hget hv hj
      obtain ⟨hall, hget'⟩ := harray name vs hvs
      obtain rfl := Json.arr.inj (Option.some.inj (hget'.symm.trans hget))
      have hmem := List.mem_of_getElem? hv
      exact ihelems name vs v hvs hmem (hall v hmem).1
        (json_getElem (fun v hv => (hall v hv).2) hv hj)
  | blank =>
    obtain rfl := Option.some.inj hj
    exact .blank

/-- No string in a result has a zero byte. -/
theorem Reading.json_zero {s : String} (h : v.json buf gprotos = some (.str s)) :
    0 ∉ utf8Bytes s := by
  cases v with
  | scalar w => exact Wire.json_zero h
  | message level turns s₁ =>
    obtain ⟨items, s', -, hobj, -⟩ := message_json h
    cases hobj
  | blank => cases h

/-- A value of a result is what was read only if that could be stored. -/
theorem Wire.Stands.storable {w : Wire} (h : w.Stands j) (hj : v.json buf gprotos = some j) :
    w.Storable := by
  cases w with
  | int i => trivial
  | real x => exact h.1
  | text bytes =>
    obtain ⟨s, rfl, rfl⟩ := h
    exact ⟨Reading.json_zero hj, s, rfl⟩

/-- **What is kept could be stored.** The value may come from another occurrence of the field,
if that of `v` itself was lost. -/
theorem Lossless.storable (h : Lossless buf gprotos v j) (hran : v.Ran buf gprotos)
    (hj : v.json buf gprotos = some j ∨
      v.json buf gprotos = none ∧ ∃ u : Reading, u.json buf gprotos = some j) :
    Storable buf gprotos v := by
  induction h with
  | scalar hstands =>
    obtain hj | ⟨-, u, hu⟩ := hj
    · exact .scalar (hstands.storable hj)
    · exact .scalar (hstands.storable hu)
  | @message level turns s s' items kvs hitems hpresent _ hlength _ ihlast ihelems =>
    obtain hj | ⟨hnone, -⟩ := hj
    · obtain ⟨items', s'', hitems', hobj, hrans, hdef⟩ := message_json hj
      obtain ⟨rfl, -⟩ := Prod.mk.inj (Option.some.inj (hitems.symm.trans hitems'))
      obtain rfl := Json.obj.inj hobj
      refine .message hitems ?_ ?_
      · intro name v hv
        have hmem := lastSingle_mem hv
        obtain ⟨j, hget⟩ := hpresent name v hv
        apply ihlast name v j hv hget (hrans _ hmem v (List.mem_singleton.mpr rfl))
        -- a value that was lost leaves the member to an earlier occurrence
        rcases hvj : v.json buf gprotos with _ | j'
        · obtain hempty | ⟨u, -, hu⟩ := lookup_built_single (fun vs => hdef.disjoint hmem) hget
          · cases hempty
          · exact .inr ⟨rfl, u, hu⟩
        · have hget' : (built buf gprotos items []).lookup name = some j' :=
            lookup_built_last (fun vs => hdef.disjoint hmem) hv hvj
          obtain rfl := Option.some.inj (hget'.symm.trans hget)
          exact .inl rfl
      · intro name vs v hvs hv
        obtain ⟨js, hget, hlen⟩ := hlength name vs hvs
        obtain ⟨us, hmem⟩ := elementsOf_mem hvs
        obtain ⟨us', hmem', hv'⟩ := mem_elementsOf hvs hv
        have hget' : (built buf gprotos items []).lookup name =
            some (.arr (vs.filterMap (Reading.json buf gprotos))) :=
          lookup_built_array (fun v hv => hdef.disjoint hv hmem) hvs
        obtain rfl := Json.arr.inj (Option.some.inj (hget'.symm.trans hget))
        -- an array of full length has every element in its place
        have hall : ∀ v ∈ vs, (v.json buf gprotos).isSome := by
          rw [List.length_filterMap_eq_countP, List.countP_eq_length] at hlen
          exact hlen
        obtain ⟨i, hi⟩ := List.mem_iff_getElem?.mp hv
        obtain ⟨j, hj⟩ := Option.isSome_iff_exists.mp (hall v hv)
        have hji : (vs.filterMap (Reading.json buf gprotos))[i]? = some j := by
          have hmap := congrArg (fun l => l[i]?) (map_json hall)
          simpa [List.getElem?_map, hi, hj, eq_comm] using hmap
        exact ihelems name vs _ i v j hvs hget hi hji (hrans _ hmem' v hv') (.inl hj)
    · obtain ⟨j, hj⟩ := hran.json
      rw [hnone] at hj
      cases hj
  | blank => exact .blank

end Lossless

/-! ## Accepted buffers -/

/-- **When nothing is lost**, for every buffer that `pc_pb_decode` accepts and every schema: the
result holds all values that were read if and only if JSON values can hold them. -/
theorem lossless_iff {buf : Bytes} {gprotos protos r : Json}
    (h : pcPbDecode buf gprotos protos (.obj []) = .ok r) :
    Lossless buf gprotos (.message protos buf.length (pbIstreamFromBuffer buf.length)) r ↔
      Storable buf gprotos (.message protos buf.length (pbIstreamFromBuffer buf.length)) := by
  obtain ⟨s', hrun⟩ := pcPbDecode_run h
  have hjson : (Reading.message protos buf.length (pbIstreamFromBuffer buf.length)).json buf
      gprotos = some r := by
    rw [Reading.json, hrun]
  exact ⟨fun hlossless => hlossless.storable ⟨r, s', hrun⟩ (.inl hjson),
    fun hstorable => hstorable.lossless ⟨r, s', hrun⟩ hjson⟩

/-- A note of two letters. -/
theorem lossless_iff_ab :
    Lossless [10, 2, 97, 98] (.obj []) (.message noteLevel 4 (pbIstreamFromBuffer 4))
        (.obj [("note", .str "ab")]) ↔
      Storable [10, 2, 97, 98] (.obj []) (.message noteLevel 4 (pbIstreamFromBuffer 4)) :=
  have haccepted : pcPbDecode [10, 2, 97, 98] (.obj []) noteLevel (.obj []) =
    .ok (.obj [("note", .str "ab")]) := rfl
  lossless_iff haccepted

theorem conforming_noteLevel (gprotos : Json) : ConformingSchema gprotos noteLevel := by
  refine ⟨fun level => level = noteLevel, rfl, ?_⟩
  rintro _ rfl
  refine ⟨⟨.obj [], rfl⟩, .obj [("1", .str "note")], rfl, ?_⟩
  intro key proto hkey
  obtain ⟨rfl, rfl⟩ := isField_single hkey
  exact ⟨.inr (.inl rfl), ⟨1, le_rfl, by decide, rfl, rfl⟩, "string", rfl,
    fun hnone => absurd hnone (by decide)⟩

/-- A note of one byte that is not UTF-8: the buffer is accepted, the result is empty. -/
theorem not_lossless_note :
    ¬ ∀ (buf : Bytes) (gprotos protos r : Json), ConformingSchema gprotos protos →
      pcPbDecode buf gprotos protos (.obj []) = .ok r →
      Lossless buf gprotos (.message protos buf.length (pbIstreamFromBuffer buf.length)) r := by
  intro hall
  have hlossless := hall [10, 1, 0xff] (.obj []) noteLevel (.obj []) (conforming_noteLevel _) rfl
  have hread : readItems [10, 1, 0xff] (.obj []) 3 noteLevel (pbIstreamFromBuffer 3) =
      some ([.single "note" (.scalar (.text [0xff]))], ⟨3, 0, 3⟩) := rfl
  cases hlossless with
  | message hitems hpresent =>
    obtain ⟨rfl, -⟩ := Prod.mk.inj (Option.some.inj (hread.symm.trans hitems))
    obtain ⟨j, hj⟩ := hpresent "note" _ rfl
    cases hj

end Libpomelo
