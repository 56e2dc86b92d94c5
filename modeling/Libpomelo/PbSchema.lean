import Libpomelo.PbWire

/-!
# Protobuf schemas and the messages that conform to them

The abstract side of the protobuf codec, in its own terms:

* `ConformingSchema`: every level has its bookkeeping entries, every field an
  option, a tag that `__tags` maps back to its name, and a type that is primitive
  or resolves to a conforming level. Levels may refer to each other in cycles, so
  this is a greatest fixed point: *some* set of levels is closed under it.
* `ConformsMsg`: which JSON values are messages of a level.
* `wireMsg`: the bytes of a message, as a function of message and schema alone.
* `stripMsg`: what a round trip may change. An unpacked repeated field puts
  nothing on the wire when it is empty, so its empty array cannot come back.
* `FitsMsg`: the counts and lengths that the decoder reads as 32-bit numbers are
  32-bit numbers.
-/

namespace Libpomelo

/-! ## Fields of a level -/

/-- `key` is a field of the level, not one of its bookkeeping entries. -/
def IsField (protos : Json) (key : String) (proto : Json) : Prop :=
  jsonObjectGet (some protos) key = some proto ∧ key ≠ "__messages" ∧ key ≠ "__tags"

/-- The field of a level that has only one. -/
theorem isField_single {messages tags field proto : Json} {name key : String}
    (h : IsField (.obj [("__messages", messages), ("__tags", tags), (name, field)]) key proto) :
    key = name ∧ proto = field := by
  obtain ⟨hget, hmessages, htags⟩ := h
  simp only [jsonObjectGet_obj, List.lookup_cons, beq_eq_false_iff_ne.mpr hmessages,
    beq_eq_false_iff_ne.mpr htags, List.lookup_nil] at hget
  split at hget
  · next heq => exact ⟨beq_iff_eq.mp heq, (Option.some.inj hget).symm⟩
  · cases hget

/-- The `type` text of a field. -/
def fieldType (proto : Json) : Option String :=
  jsonStringValue (jsonObjectGet (some proto) "type")

/-- The `option` text of a field. -/
def fieldOption (proto : Json) : Option String :=
  jsonStringValue (jsonObjectGet (some proto) "option")

/-- Repeated fields of this type are packed. -/
def fieldPacked (proto : Json) : Bool := ((fieldType proto).map pbIsPacked).getD false

/-- The schema level a message type stands for. -/
def resolveType (gprotos protos : Json) (type : String) : Option Json :=
  (jsonObjectGet (some protos) "__messages").bind fun messages =>
    resolveMessage gprotos messages type

/-- One field of a conforming level, with `P` the levels its type may name. That
tags are distinct is part of it: `__tags` has one name for each. -/
structure ConformingField (P : Json → Prop) (gprotos protos tags : Json) (key : String)
    (proto : Json) : Prop where
  /-- the option is one of the three -/
  option : fieldOption proto = some "required" ∨ fieldOption proto = some "optional" ∨
    fieldOption proto = some "repeated"
  /-- the tag is in range and `__tags` maps its decimal text to the field -/
  tag : ∃ n : ℕ, 1 ≤ n ∧ n < 2 ^ 29 ∧ jsonObjectGet (some proto) "tag" = some (.int n) ∧
    jsonObjectGet (some tags) (decimal n) = some (.str key)
  /-- the type is primitive or names a level -/
  type : ∃ type, fieldType proto = some type ∧
    (pbGetType type = none → ∃ sub, resolveType gprotos protos type = some sub ∧ P sub)

/-- One conforming level. -/
def ConformingLevel (P : Json → Prop) (gprotos protos : Json) : Prop :=
  (∃ messages, jsonObjectGet (some protos) "__messages" = some messages) ∧
    ∃ tags, jsonObjectGet (some protos) "__tags" = some tags ∧
      ∀ key proto, IsField protos key proto → ConformingField P gprotos protos tags key proto

/-- A conforming schema: the level lies in a set of levels that refer to each other. -/
def ConformingSchema (gprotos protos : Json) : Prop :=
  ∃ P : Json → Prop, P protos ∧ ∀ level, P level → ConformingLevel P gprotos level

/-- Conforming schemas are themselves such a set. -/
theorem ConformingSchema.level {gprotos protos : Json} (h : ConformingSchema gprotos protos) :
    ConformingLevel (ConformingSchema gprotos) gprotos protos := by
  obtain ⟨P, hP, hclosed⟩ := h
  obtain ⟨hmsgs, tags, htags, hfields⟩ := hclosed protos hP
  refine ⟨hmsgs, tags, htags, fun key proto hkey => ?_⟩
  obtain ⟨hopt, htag, type, htype, hsub⟩ := hfields key proto hkey
  refine ⟨hopt, htag, type, htype, fun hnone => ?_⟩
  obtain ⟨sub, hres, hPsub⟩ := hsub hnone
  exact ⟨sub, hres, P, hPsub, hclosed⟩

/-! ## Conforming messages -/

/-- The values of a primitive type: integers a double holds exactly, reals that are
floats for `float`, text without zero bytes. -/
def ConformsScalar : PbType → Json → Prop
  | .uInt32, v => ∃ i : ℤ, v = .int i ∧ i.natAbs ≤ 2 ^ 53
  | .int32, v => ∃ i : ℤ, v = .int i ∧ i.natAbs ≤ 2 ^ 53
  | .sInt32, v => ∃ i : ℤ, v = .int i ∧ i.natAbs ≤ 2 ^ 53
  | .float, v => ∃ x : FiniteDouble, v = .real x ∧
      ∃ f : BinaryFloat.Datum BinaryFloat.single, f.Finite ∧ x.1 = BinaryFloat.widen f
  | .double, v => ∃ x : FiniteDouble, v = .real x
  | .string, v => ∃ s : String, v = .str s ∧ 0 ∉ utf8Bytes s ∧ (utf8Bytes s).length < 2 ^ 31

mutual

/-- A message of the level `protos`. -/
inductive ConformsMsg (gprotos : Json) : Json → Json → Prop
  /-- an object with distinct keys -/
  | obj {protos : Json} {kvs : List (String × Json)} : (kvs.map Prod.fst).Nodup →
      ConformsMembers gprotos protos kvs → ConformsMsg gprotos protos (.obj kvs)

/-- Every member is a field of the level. -/
inductive ConformsMembers (gprotos : Json) : Json → List (String × Json) → Prop
  /-- no member -/
  | nil {protos : Json} : ConformsMembers gprotos protos []
  /-- one more member -/
  | cons {protos proto v : Json} {key : String} {kvs : List (String × Json)} :
      IsField protos key proto → ConformsField gprotos protos proto v →
      ConformsMembers gprotos protos kvs → ConformsMembers gprotos protos ((key, v) :: kvs)

/-- The value of a member: an array exactly for the repeated fields. -/
inductive ConformsField (gprotos : Json) : Json → Json → Json → Prop
  /-- a required or optional field -/
  | single {protos proto v : Json} : fieldOption proto ≠ some "repeated" →
      ConformsValue gprotos protos proto v → ConformsField gprotos protos proto v
  /-- a repeated field -/
  | repeated {protos proto : Json} {xs : List Json} : fieldOption proto = some "repeated" →
      ConformsElems gprotos protos proto xs → ConformsField gprotos protos proto (.arr xs)

/-- The elements of a repeated field. -/
inductive ConformsElems (gprotos : Json) : Json → Json → List Json → Prop
  /-- no element -/
  | nil {protos proto : Json} : ConformsElems gprotos protos proto []
  /-- one more element -/
  | cons {protos proto x : Json} {xs : List Json} : ConformsValue gprotos protos proto x →
      ConformsElems gprotos protos proto xs → ConformsElems gprotos protos proto (x :: xs)

/-- One value of a field's type. -/
inductive ConformsValue (gprotos : Json) : Json → Json → Json → Prop
  /-- a primitive value -/
  | scalar {protos proto v : Json} {type : String} {t : PbType} : fieldType proto = some type →
      pbGetType type = some t → ConformsScalar t v → ConformsValue gprotos protos proto v
  /-- a nested message -/
  | message {protos proto v sub : Json} {type : String} : fieldType proto = some type →
      pbGetType type = none → resolveType gprotos protos type = some sub →
      ConformsMsg gprotos sub v → ConformsValue gprotos protos proto v

end

/-! ## The bytes of a message -/

/-- The tag in front of a field. -/
def wireTag (proto : Json) : Bytes :=
  varintBytes (tagKey (pbGetConstantType ((fieldType proto).getD ""))
    (cvtUInt32 (jsonNumberValue (jsonObjectGet (some proto) "tag"))) % 2 ^ 64)

/-- A byte string behind its length. -/
def wirePrefixed (w : Bytes) : Bytes := varintBytes (w.length % 2 ^ 64) ++ w

/-- The bytes of a primitive value. -/
def wireScalar : PbType → Json → Bytes
  | .uInt32, .int i => varintBytes (asUInt64 i)
  | .int32, .int i => varintBytes (zigzag i)
  | .sInt32, .int i => varintBytes (zigzag i)
  | .float, .real x => leBytes 4 (BinaryFloat.narrow x.1).toNat
  | .double, .real x => leBytes 8 x.1.toNat
  | .string, .str s => wirePrefixed (utf8Bytes s)
  | _, _ => []

/-- The bytes of one value, with `sub` the bytes of the value as a message. -/
def wireValue (gprotos protos proto v : Json) (sub : Json → Bytes) : Bytes :=
  match fieldType proto with
  | none => []
  | some type =>
    match pbGetType type with
    | some t => wireScalar t v
    | none =>
      match resolveType gprotos protos type with
      | none => []
      | some level => wirePrefixed (sub level)

mutual

/-- The bytes of a message at the level `protos`. -/
def wireMsg (gprotos : Json) : Json → Json → Bytes
  | .obj kvs, protos => wireMembers gprotos kvs protos
  | _, _ => []
termination_by structural x => x

/-- The bytes of some members, one field after another. -/
def wireMembers (gprotos : Json) : List (String × Json) → Json → Bytes
  | [], _ => []
  | (key, v) :: kvs, protos =>
    (match jsonObjectGet (some protos) key with
      | none => []
      | some proto =>
        if fieldOption proto = some "repeated" then wireArray gprotos v protos proto
        else
          wireTag proto ++ wireValue gprotos protos proto v fun level => wireMsg gprotos v level) ++
      wireMembers gprotos kvs protos
termination_by structural x => x

/-- The bytes of a repeated field; packed ones have one tag and a count. -/
def wireArray (gprotos : Json) : Json → Json → Json → Bytes
  | .arr xs, protos, proto =>
    (if fieldPacked proto then wireTag proto ++ varintBytes (xs.length % 2 ^ 64) else []) ++
      wireElems gprotos xs protos proto
  | _, _, _ => []
termination_by structural x => x

/-- The bytes of the elements of a repeated field; unpacked ones have a tag each. -/
def wireElems (gprotos : Json) : List Json → Json → Json → Bytes
  | [], _, _ => []
  | x :: xs, protos, proto =>
    (if fieldPacked proto then [] else wireTag proto) ++
      (wireValue gprotos protos proto x fun level => wireMsg gprotos x level) ++
      wireElems gprotos xs protos proto
termination_by structural x => x

end

/-! ## What a round trip returns -/

/-- A value with its nested message stripped. -/
def stripValue (gprotos protos proto v : Json) (strip : Json → Json) : Json :=
  match (fieldType proto).bind fun type =>
    if pbGetType type = none then resolveType gprotos protos type else none with
  | none => v
  | some level => strip level

mutual

/-- A message without the empty arrays of unpacked repeated fields, at every depth. -/
def stripMsg (gprotos : Json) : Json → Json → Json
  | .obj kvs, protos => .obj (stripMembers gprotos kvs protos)
  | v, _ => v
termination_by structural x => x

/-- The members that remain. -/
def stripMembers (gprotos : Json) : List (String × Json) → Json → List (String × Json)
  | [], _ => []
  | (key, v) :: kvs, protos =>
    (match jsonObjectGet (some protos) key with
      | none => [(key, v)]
      | some proto =>
        if fieldOption proto = some "repeated" then stripArray gprotos v protos proto key
        else [(key, stripValue gprotos protos proto v fun level => stripMsg gprotos v level)]) ++
      stripMembers gprotos kvs protos
termination_by structural x => x

/-- A repeated field: an unpacked one vanishes with its last element. -/
def stripArray (gprotos : Json) : Json → Json → Json → String → List (String × Json)
  | .arr xs, protos, proto, key =>
    if xs.isEmpty ∧ ¬ fieldPacked proto then []
    else [(key, .arr (stripElems gprotos xs protos proto))]
  | v, _, _, key => [(key, v)]
termination_by structural x => x

/-- The elements, each stripped. -/
def stripElems (gprotos : Json) : List Json → Json → Json → List Json
  | [], _, _ => []
  | x :: xs, protos, proto =>
    (stripValue gprotos protos proto x fun level => stripMsg gprotos x level) ::
      stripElems gprotos xs protos proto
termination_by structural x => x

end

/-! ## What the decoder's 32-bit counters can hold -/

/-- A nested message is shorter than `2 ^ 32` bytes, and so are those inside it. -/
def FitsValue (gprotos protos proto v : Json) (fits : Json → Prop) : Prop :=
  ∀ type level, fieldType proto = some type → pbGetType type = none →
    resolveType gprotos protos type = some level →
    (wireMsg gprotos v level).length < 2 ^ 32 ∧ fits level

mutual

/-- Every packed array of the message has fewer than `2 ^ 32` elements, and every
nested message fewer than `2 ^ 32` bytes. -/
def FitsMsg (gprotos : Json) : Json → Json → Prop
  | .obj kvs, protos => FitsMembers gprotos kvs protos
  | _, _ => True
termination_by structural x => x

/-- `FitsMsg` member by member. -/
def FitsMembers (gprotos : Json) : List (String × Json) → Json → Prop
  | [], _ => True
  | (key, v) :: kvs, protos =>
    (match jsonObjectGet (some protos) key with
      | none => True
      | some proto =>
        if fieldOption proto = some "repeated" then FitsArray gprotos v protos proto
        else FitsValue gprotos protos proto v fun level => FitsMsg gprotos v level) ∧
      FitsMembers gprotos kvs protos
termination_by structural x => x

/-- The count of a packed array and the elements of an unpacked one. -/
def FitsArray (gprotos : Json) : Json → Json → Json → Prop
  | .arr xs, protos, proto =>
    (fieldPacked proto = true → xs.length < 2 ^ 32) ∧ FitsElems gprotos xs protos proto
  | _, _, _ => True
termination_by structural x => x

/-- `FitsMsg` element by element. -/
def FitsElems (gprotos : Json) : List Json → Json → Json → Prop
  | [], _, _ => True
  | x :: xs, protos, proto =>
    (FitsValue gprotos protos proto x fun level => FitsMsg gprotos x level) ∧
      FitsElems gprotos xs protos proto
termination_by structural x => x

end

/-! ## Sizes, for inductions over nested values -/

theorem sizeOf_lt_of_mem_obj {key : String} {v : Json} {kvs : List (String × Json)}
    (h : (key, v) ∈ kvs) : sizeOf v < sizeOf (Json.obj kvs) := by
  have := List.sizeOf_lt_of_mem h
  simp only [Prod.mk.sizeOf_spec] at this
  simp only [Json.obj.sizeOf_spec]
  omega

theorem sizeOf_lt_of_mem_arr {x : Json} {xs : List Json} (h : x ∈ xs) :
    sizeOf x < sizeOf (Json.arr xs) := by
  have := List.sizeOf_lt_of_mem h
  simp only [Json.arr.sizeOf_spec]
  omega

end Libpomelo
