import Libpomelo.PbGrammar

/-!
# What the decoder reads

The decoder does two things at once: it finds values in the buffer, and it puts what the JSON
library makes of each into the result. This module takes the two apart. The readers below walk
the buffer like the decoder and return what they find, as it lies on the wire; `built` puts the
findings into an object. The decoder is one after the other (`pbDecode_reads`).

A nested message is not read twice: its `Reading` is the place where it begins, and its JSON
value is what the decoder makes of that place.
-/

namespace Libpomelo

open BinaryFloat (Datum double)

/-! ## Findings -/

/-- A primitive value as it lies on the wire. -/
inductive Wire : Type where
  /-- the number of a varint -/
  | int (i : ℤ)
  /-- the bit pattern of a `float` or `double` -/
  | real (x : Datum double)
  /-- the bytes of a string -/
  | text (bytes : Bytes)

/-- What the JSON constructor of its kind makes of it; `none` is `NULL`. -/
def Wire.json : Wire → Option Json
  | .int i => some (.int i)
  | .real x => jsonReal x
  | .text bytes => jsonString bytes

/-- One value of a field. -/
inductive Reading : Type where
  /-- a primitive value -/
  | scalar (w : Wire)
  /-- a message of this level, which begins at `s` -/
  | message (level : Json) (turns : ℕ) (s : IStream)
  /-- no message is known at the level of the field -/
  | blank

/-- An occurrence of a field. -/
inductive Item : Type where
  /-- a single field and its value -/
  | single (name : String) (v : Reading)
  /-- a repeated field and the values of this occurrence -/
  | elements (name : String) (vs : List Reading)

/-- The values of an occurrence. -/
def Item.readings : Item → List Reading
  | .single _ v => [v]
  | .elements _ vs => vs

/-- A single field; a blank value leaves no trace in the result. -/
def Reading.items (name : String) : Reading → List Item
  | .blank => []
  | v => [.single name v]

section Buffer

variable (buf : Bytes)

/-! ## Readers -/

/-- A value that was read, as a finding. -/
def found {α : Type} (f : α → Wire) (r : Option α × IStream) : Option (Wire × IStream) :=
  r.1.map fun a => (f a, r.2)

/-- A primitive value. -/
def readScalar (s : IStream) : PbType → Option (Wire × IStream)
  | .uInt32 => found (fun n => .int (asInt64 n)) (pbDecodeVarint buf s)
  | .int32 | .sInt32 => found .int (pbDecodeSvarint buf s)
  | .float => found (fun x => .real (BinaryFloat.widen x)) (pbDecodeFixed32 buf s)
  | .double => found .real (pbDecodeFixed64 buf s)
  | .string =>
    match pbDecodeStringValue buf s with
    | .ok (text, s) => some (.text text, s)
    | .error _ => none

/-- A nested message, with `read` the readers of its fields. -/
def readMessage (read : Json → IStream → Option (List Item × IStream)) (turns : ℕ) (level : Json)
    (s : IStream) : Option (Reading × IStream) :=
  match pbDecodeVarint32 buf s with
  | (none, _) => none
  | (some size, s) =>
    if s.bytesLeft < size then none
    else
      (read level { s with bytesLeft := size }).map fun (_, sub) =>
        (.message level turns { s with bytesLeft := size },
          ⟨sub.pos, s.bytesLeft - size, sub.reach⟩)

/-- One value of a field. -/
def readValue (gprotos proto protos : Json) (read : Json → IStream → Option (List Item × IStream))
    (turns : ℕ) (s : IStream) : Option (Reading × IStream) :=
  (fieldType proto).bind fun type =>
    match pbGetType type with
    | some t => (readScalar buf s t).map fun (w, s) => (.scalar w, s)
    | none =>
      match jsonObjectGet (some protos) "__messages" with
      | none => some (.blank, s)
      | some messages =>
        (resolveMessage gprotos messages type).bind fun sub => readMessage buf read turns sub s

/-- The values of a packed array. -/
def readPacked (value : IStream → Option (Reading × IStream)) :
    ℕ → IStream → Option (List Reading × IStream)
  | 0, s => some ([], s)
  | n + 1, s =>
    (value s).bind fun (v, s) => (readPacked value n s).map fun (vs, s) => (v :: vs, s)

/-- The values of one occurrence of a repeated field. -/
def readArray (gprotos proto protos : Json) (read : Json → IStream → Option (List Item × IStream))
    (turns : ℕ) (s : IStream) : Option (List Reading × IStream) :=
  if fieldPacked proto then
    match pbDecodeVarint32 buf s with
    | (none, _) => none
    | (some size, s) => readPacked (readValue buf gprotos proto protos read turns) size s
  else (readValue buf gprotos proto protos read turns s).map fun (v, s) => ([v], s)

/-- What stands behind a tag. -/
def readField (gprotos protos : Json) (read : Json → IStream → Option (List Item × IStream))
    (turns tag : ℕ) (s : IStream) : Option (List Item × IStream) :=
  (fieldOfTag protos tag).bind fun (name, proto) =>
    (fieldOption proto).bind fun option =>
      if option = "optional" ∨ option = "required" then
        (readValue buf gprotos proto protos read turns s).map fun (v, s) => (v.items name, s)
      else if option = "repeated" then
        (readArray buf gprotos proto protos read turns s).map fun (vs, s) =>
          ([.elements name vs], s)
      else some ([], s)

/-- The occurrences of a message, in the order of the buffer. -/
def readItems (gprotos : Json) : ℕ → Json → IStream → Option (List Item × IStream)
  | 0, _, s => if s.bytesLeft = 0 then some ([], s) else none
  | turns + 1, protos, s =>
    if s.bytesLeft = 0 then some ([], s)
    else
      match pbDecodeTag buf s with
      | (.eof, s) => some ([], s)
      | (.fail, _) => none
      | (.tag tag, s) =>
        (readField buf gprotos protos (readItems gprotos turns) turns tag s).bind fun (items, s) =>
          (readItems gprotos turns protos s).map fun (rest, s) => (items ++ rest, s)

/-! ## Building the result -/

variable (gprotos : Json)

/-- The JSON value of a reading. -/
def Reading.json : Reading → Option Json
  | .scalar w => w.json
  | .message level turns s =>
    match pbDecode buf gprotos turns level (.obj []) s with
    | .ok (j, _) => some j
    | .error _ => none
  | .blank => some (.obj [])

/-- The decoder gets through the message. -/
def Reading.Ran : Reading → Prop
  | .message level turns s => ∃ j s', pbDecode buf gprotos turns level (.obj []) s = .ok (j, s')
  | _ => True

/-- One more element of the array of a repeated field. -/
def putElement (name : String) (array : Json) : Reading → Json
  | .scalar w => putValue array (some name) w.json
  | v => jsonArrayAppend array (v.json buf gprotos)

/-- The members of the result behind one more occurrence. -/
def Item.put (acc : List (String × Json)) : Item → List (String × Json)
  | .single name v => ((v.json buf gprotos).map fun j => setMember name j acc).getD acc
  | .elements name vs =>
    setMember name (vs.foldl (putElement buf gprotos name) ((acc.lookup name).getD (.arr []))) acc

/-- The members of the result behind all of them. -/
def built (items : List Item) (acc : List (String × Json)) : List (String × Json) :=
  items.foldl (Item.put buf gprotos) acc

end Buffer

/-! ## What each reader can have read -/

section Cases

variable {buf : Bytes} {gprotos proto protos : Json} {turns : ℕ} {s s' : IStream} {v : Reading}
  {read : Json → IStream → Option (List Item × IStream)}

theorem readMessage_cases {level : Json}
    (h : readMessage buf read turns level s = some (v, s')) :
    ∃ size s₁ items sub, pbDecodeVarint32 buf s = (some size, s₁) ∧ size ≤ s₁.bytesLeft ∧
      read level { s₁ with bytesLeft := size } = some (items, sub) ∧
      v = .message level turns { s₁ with bytesLeft := size } ∧
      s' = ⟨sub.pos, s₁.bytesLeft - size, sub.reach⟩ := by
  rw [readMessage] at h
  generalize pbDecodeVarint32 buf s = len at h ⊢
  obtain ⟨_ | size, s₁⟩ := len
  · cases h
  · dsimp only at h
    split at h
    · cases h
    · next hroom =>
      obtain ⟨⟨items, sub⟩, hread, heq⟩ := Option.map_eq_some_iff.mp h
      obtain ⟨rfl, rfl⟩ := Prod.mk.inj heq
      exact ⟨size, s₁, items, sub, rfl, Nat.not_lt.mp hroom, hread, rfl, rfl⟩

theorem readValue_cases (h : readValue buf gprotos proto protos read turns s = some (v, s')) :
    ∃ type, fieldType proto = some type ∧
      ((∃ t w, pbGetType type = some t ∧ readScalar buf s t = some (w, s') ∧ v = .scalar w) ∨
        (pbGetType type = none ∧ jsonObjectGet (some protos) "__messages" = none ∧
          v = .blank ∧ s' = s) ∨
        (pbGetType type = none ∧ ∃ sub, resolveType gprotos protos type = some sub ∧
          readMessage buf read turns sub s = some (v, s'))) := by
  rw [readValue] at h
  obtain ⟨type, htype, h⟩ := Option.bind_eq_some_iff.mp h
  refine ⟨type, htype, ?_⟩
  rcases ht : pbGetType type with _ | t
  · rw [ht] at h
    dsimp only at h
    rcases hmsgs : jsonObjectGet (some protos) "__messages" with _ | messages
    · rw [hmsgs] at h
      obtain ⟨rfl, rfl⟩ := Prod.mk.inj (Option.some.inj h)
      exact .inr (.inl ⟨rfl, rfl, rfl, rfl⟩)
    · rw [hmsgs] at h
      obtain ⟨sub, hres, hread⟩ := Option.bind_eq_some_iff.mp h
      exact .inr (.inr ⟨rfl, sub, by rw [resolveType, hmsgs]; exact hres, hread⟩)
  · rw [ht] at h
    obtain ⟨⟨w, s₁⟩, hw, heq⟩ := Option.map_eq_some_iff.mp h
    obtain ⟨rfl, rfl⟩ := Prod.mk.inj heq
    exact .inl ⟨t, w, rfl, hw, rfl⟩

/-- A field of a primitive type has primitive values. -/
theorem readValue_scalar {type : String} (htype : fieldType proto = some type)
    (ht : pbGetType type ≠ none)
    (h : readValue buf gprotos proto protos read turns s = some (v, s')) :
    ∃ w, v = .scalar w := by
  obtain ⟨type', htype', ⟨t, w, -, -, rfl⟩ | ⟨hnone, -⟩ | ⟨hnone, -⟩⟩ := readValue_cases h
  · exact ⟨w, rfl⟩
  · obtain rfl := Option.some.inj (htype.symm.trans htype')
    exact absurd hnone ht
  · obtain rfl := Option.some.inj (htype.symm.trans htype')
    exact absurd hnone ht

/-- A field of another type has none. -/
theorem readValue_not_scalar {type : String} (htype : fieldType proto = some type)
    (hnone : pbGetType type = none)
    (h : readValue buf gprotos proto protos read turns s = some (v, s')) (w : Wire) :
    v ≠ .scalar w := by
  obtain ⟨type', htype', ⟨t, w', ht, -⟩ | ⟨-, -, rfl, -⟩ | ⟨-, sub, -, hread⟩⟩ := readValue_cases h
  · obtain rfl := Option.some.inj (htype.symm.trans htype')
    rw [hnone] at ht
    cases ht
  · nofun
  · obtain ⟨size, s₁, items, sub', -, -, -, rfl, -⟩ := readMessage_cases hread
    nofun

end Cases

/-! ## The decoder reads, then builds -/

section Decoder

variable {buf : Bytes} {gprotos proto protos : Json} {turns : ℕ}

/-- The decoder gets through all messages that were read. -/
def AllRan (buf : Bytes) (gprotos : Json) (items : List Item) : Prop :=
  ∀ item ∈ items, ∀ v ∈ item.readings, v.Ran buf gprotos

theorem AllRan.append {items rest : List Item} (h : AllRan buf gprotos items)
    (h' : AllRan buf gprotos rest) : AllRan buf gprotos (items ++ rest) :=
  fun item hitem => (List.mem_append.mp hitem).elim (h item) (h' item)

/-- What `pb_decode` is to the functions that it calls. -/
def ReadsItems (buf : Bytes) (gprotos : Json) (turns : ℕ) : Prop :=
  ∀ protos result s r s', pbDecode buf gprotos turns protos result s = .ok (r, s') →
    ∃ items, readItems buf gprotos turns protos s = some (items, s') ∧
      (∀ acc, result = .obj acc → r = .obj (built buf gprotos items acc)) ∧
      AllRan buf gprotos items

theorem putScalar_reads {α : Type} {f : α → Wire} {x : Option α × IStream} {result r : Json}
    {key : Option String} {s' : IStream}
    (h : putScalar result key (x.1.map fun a => (f a).json, x.2) = .ok (r, s')) :
    ∃ w, found f x = some (w, s') ∧ r = putValue result key w.json := by
  obtain ⟨_ | a, s⟩ := x
  · cases h
  · obtain ⟨rfl, rfl⟩ := Prod.mk.inj (Except.ok.inj h)
    exact ⟨f a, rfl, rfl⟩

theorem pbDecodeSubmessage_reads {sub result r : Json} {s s' : IStream}
    (hdec : ReadsItems buf gprotos turns)
    (h : pbDecodeSubmessage buf (pbDecode buf gprotos turns sub result) s = .ok (r, s')) :
    ∃ s₁ s₂, readMessage buf (readItems buf gprotos turns) turns sub s =
        some (.message sub turns s₁, s') ∧
      pbDecode buf gprotos turns sub result s₁ = .ok (r, s₂) := by
  rw [pbDecodeSubmessage] at h
  rw [readMessage]
  generalize pbDecodeVarint32 buf s = len at h ⊢
  obtain ⟨_ | size, s₁⟩ := len
  · cases h
  · dsimp only at h ⊢
    split at h
    · cases h
    · next hroom =>
      rw [if_neg hroom]
      rcases hd : pbDecode buf gprotos turns sub result { s₁ with bytesLeft := size } with
        ⟨stop, s₂⟩ | ⟨dest, s₂⟩
      · rw [hd] at h
        cases h
      · rw [hd] at h
        obtain ⟨rfl, rfl⟩ := Prod.mk.inj (Except.ok.inj h)
        obtain ⟨items, hitems, -⟩ := hdec _ _ _ _ _ hd
        exact ⟨_, s₂, by rw [hitems]; rfl, hd⟩

/-- What `pb_decode_proto` does to the result, given what it reads. -/
inductive Puts (buf : Bytes) (gprotos : Json) (turns : ℕ) (key : Option String) (result : Json) :
    Reading → Json → Prop
  /-- a primitive value is set or appended -/
  | scalar (w : Wire) : Puts buf gprotos turns key result (.scalar w) (putValue result key w.json)
  /-- the message of a single field -/
  | single {level j : Json} {name : String} {s s' : IStream} : key = some name →
      pbDecode buf gprotos turns level (.obj []) s = .ok (j, s') →
      Puts buf gprotos turns key result (.message level turns s)
        (jsonObjectSet result name (some j))
  /-- the message of an element is decoded in place -/
  | element {level j : Json} {s s' : IStream} : key = none →
      pbDecode buf gprotos turns level result s = .ok (j, s') →
      Puts buf gprotos turns key result (.message level turns s) j
  /-- nothing happens -/
  | blank : Puts buf gprotos turns key result .blank result

theorem pbDecodeProto_reads {key : Option String} {result r : Json} {s s' : IStream}
    (hdec : ReadsItems buf gprotos turns)
    (h : pbDecodeProto buf gprotos proto protos (pbDecode buf gprotos turns) key result s =
      .ok (r, s')) :
    ∃ v, readValue buf gprotos proto protos (readItems buf gprotos turns) turns s = some (v, s') ∧
      Puts buf gprotos turns key result v r := by
  -- the five primitive types are read alike
  have hscalar : ∀ {t w}, readScalar buf s t = some (w, s') →
      r = putValue result key w.json → ∃ v, (readScalar buf s t).map
        (fun (w, s) => (Reading.scalar w, s)) = some (v, s') ∧
        Puts buf gprotos turns key result v r := by
    rintro t w hw rfl
    exact ⟨.scalar w, by rw [hw]; rfl, .scalar w⟩
  rw [pbDecodeProto] at h
  rw [readValue, fieldType]
  generalize jsonStringValue (jsonObjectGet (some proto) "type") = type at h ⊢
  obtain _ | type := type
  · cases h
  rw [Option.bind_some]
  dsimp only at h
  generalize pbGetType type = t at h ⊢
  obtain _ | t := t
  · -- a message type, or a name that no level knows
    dsimp only at h ⊢
    generalize jsonObjectGet (some protos) "__messages" = messages at h ⊢
    obtain _ | messages := messages
    · obtain ⟨rfl, rfl⟩ := Prod.mk.inj (Except.ok.inj h)
      exact ⟨.blank, rfl, .blank⟩
    · dsimp only at h ⊢
      generalize resolveMessage gprotos messages type = sub at h ⊢
      obtain _ | sub := sub
      · cases h
      · cases key with
        | none =>
          obtain ⟨s₁, s₂, hread, hsub⟩ := pbDecodeSubmessage_reads hdec h
          exact ⟨_, hread, .element rfl hsub⟩
        | some name =>
          obtain ⟨⟨j, s₁⟩, hsub, heq⟩ := bind_eq_ok.mp h
          obtain ⟨s₂, s₃, hread, hsub⟩ := pbDecodeSubmessage_reads hdec hsub
          obtain ⟨rfl, rfl⟩ := Prod.mk.inj (Except.ok.inj heq)
          exact ⟨_, hread, .single rfl hsub⟩
  · cases t with
    | uInt32 =>
      obtain ⟨w, hw, hr⟩ := putScalar_reads (f := fun n => .int (asInt64 n)) h
      exact hscalar (t := .uInt32) hw hr
    | int32 =>
      obtain ⟨w, hw, hr⟩ := putScalar_reads (f := .int) h
      exact hscalar (t := .int32) hw hr
    | sInt32 =>
      obtain ⟨w, hw, hr⟩ := putScalar_reads (f := .int) h
      exact hscalar (t := .sInt32) hw hr
    | float =>
      obtain ⟨w, hw, hr⟩ := putScalar_reads (f := fun x => .real (BinaryFloat.widen x)) h
      exact hscalar (t := .float) hw hr
    | double =>
      obtain ⟨w, hw, hr⟩ := putScalar_reads (f := .real) h
      exact hscalar (t := .double) hw hr
    | string =>
      obtain ⟨⟨text, s₁⟩, htext, heq⟩ := bind_eq_ok.mp h
      obtain ⟨rfl, rfl⟩ := Prod.mk.inj (Except.ok.inj heq)
      exact hscalar (t := .string) (w := .text text) (by rw [readScalar, htext]) rfl

/-- A value of a primitive type, as an element of the array `result`. -/
theorem pbDecodeProto_reads_primitive {type name : String} {result r : Json} {s s' : IStream}
    (hdec : ReadsItems buf gprotos turns) (htype : fieldType proto = some type)
    (ht : pbGetType type ≠ none)
    (h : pbDecodeProto buf gprotos proto protos (pbDecode buf gprotos turns) (some name) result s =
      .ok (r, s')) :
    ∃ v, readValue buf gprotos proto protos (readItems buf gprotos turns) turns s = some (v, s') ∧
      r = putElement buf gprotos name result v ∧ v.Ran buf gprotos := by
  obtain ⟨v, hread, hputs⟩ := pbDecodeProto_reads hdec h
  obtain ⟨w, rfl⟩ := readValue_scalar htype ht hread
  cases hputs
  exact ⟨_, hread, rfl, trivial⟩

/-- A value of another type, as a new element. -/
theorem pbDecodeProto_reads_message {type : String} {r : Json} {s s' : IStream}
    (hdec : ReadsItems buf gprotos turns) (htype : fieldType proto = some type)
    (hnone : pbGetType type = none)
    (h : pbDecodeProto buf gprotos proto protos (pbDecode buf gprotos turns) none (.obj []) s =
      .ok (r, s')) :
    ∃ v, readValue buf gprotos proto protos (readItems buf gprotos turns) turns s = some (v, s') ∧
      (∀ name array, jsonArrayAppend array (some r) = putElement buf gprotos name array v) ∧
      v.Ran buf gprotos := by
  obtain ⟨v, hread, hputs⟩ := pbDecodeProto_reads hdec h
  refine ⟨v, hread, ?_⟩
  cases hputs with
  | scalar w => exact absurd rfl (readValue_not_scalar htype hnone hread w)
  | single hkey => cases hkey
  | element _ hsub => exact ⟨fun _ _ => by simp [putElement, Reading.json, hsub], _, _, hsub⟩
  | blank => exact ⟨fun _ _ => by simp [putElement, Reading.json], trivial⟩

theorem pbDecodePacked_reads {type name : String} {n : ℕ} (hdec : ReadsItems buf gprotos turns)
    (htype : fieldType proto = some type) (ht : pbGetType type ≠ none) :
    ∀ {array r : Json} {s s' : IStream},
      pbDecodePacked (pbDecodeProto buf gprotos proto protos (pbDecode buf gprotos turns)
        (some name)) n array s = .ok (r, s') →
      ∃ vs, readPacked (readValue buf gprotos proto protos (readItems buf gprotos turns) turns) n
          s = some (vs, s') ∧ r = vs.foldl (putElement buf gprotos name) array ∧
        ∀ v ∈ vs, v.Ran buf gprotos := by
  induction n with
  | zero =>
    intro array r s s' h
    obtain ⟨rfl, rfl⟩ := Prod.mk.inj (Except.ok.inj h)
    exact ⟨[], rfl, rfl, by simp⟩
  | succ n ih =>
    intro array r s s' h
    obtain ⟨⟨array', s₁⟩, helem, hrest⟩ := bind_eq_ok.mp h
    obtain ⟨v, hv, rfl, hran⟩ := pbDecodeProto_reads_primitive hdec htype ht helem
    obtain ⟨vs, hvs, rfl, hrans⟩ := ih hrest
    exact ⟨v :: vs, by simp only [readPacked, hv, hvs, Option.bind_some, Option.map_some], rfl,
      List.forall_mem_cons.mpr ⟨hran, hrans⟩⟩

/-- The field that `pb_decode` looks up for a tag. -/
theorem pbDecodeField_cases {dec : Json → Json → IStream → Dec} {tag : ℕ} {result r : Json}
    {s s' : IStream} (h : pbDecodeField buf gprotos protos dec tag result s = .ok (r, s')) :
    ∃ name proto option, fieldOfTag protos tag = some (name, proto) ∧
      fieldOption proto = some option ∧
      (if option = "optional" ∨ option = "required" then
        pbDecodeProto buf gprotos proto protos dec (some name) result s
      else if option = "repeated" then pbDecodeArray buf gprotos proto protos dec name result s
      else .ok (result, s)) = .ok (r, s') := by
  rw [pbDecodeField] at h
  rw [fieldOfTag]
  generalize jsonObjectGet (some protos) "__tags" = tags at h ⊢
  obtain _ | tags := tags
  · cases h
  dsimp only at h
  rw [Option.bind_some]
  generalize jsonObjectGet (some tags) (decimal tag) = entry at h ⊢
  obtain _ | entry := entry
  · cases h
  dsimp only at h
  generalize jsonStringValue (some entry) = name at h ⊢
  obtain _ | name := name
  · cases h
  dsimp only at h
  rw [Option.bind_some]
  rcases hproto : jsonObjectGet (some protos) name with _ | proto
  · rw [hproto] at h
    cases h
  rw [hproto] at h
  dsimp only at h
  rcases hopt : jsonStringValue (jsonObjectGet (some proto) "option") with _ | option
  · rw [hopt] at h
    cases h
  rw [hopt] at h
  exact ⟨name, proto, option, rfl, hopt, h⟩

theorem pbDecodeArray_reads {name : String} {result r : Json} {s s' : IStream}
    (hdec : ReadsItems buf gprotos turns)
    (h : pbDecodeArray buf gprotos proto protos (pbDecode buf gprotos turns) name result s =
      .ok (r, s')) :
    ∃ vs, readArray buf gprotos proto protos (readItems buf gprotos turns) turns s =
        some (vs, s') ∧
      r = jsonObjectSet result name (some (vs.foldl (putElement buf gprotos name)
        ((jsonObjectGet (some result) name).getD (.arr [])))) ∧
      ∀ v ∈ vs, v.Ran buf gprotos := by
  rw [pbDecodeArray] at h
  rcases htype : fieldType proto with _ | type
  · rw [fieldType] at htype
    rw [htype] at h
    cases h
  · have htype' := htype
    rw [fieldType] at htype'
    rw [htype'] at h
    obtain ⟨⟨array, s₁⟩, harray, heq⟩ := bind_eq_ok.mp h
    obtain ⟨rfl, rfl⟩ := Prod.mk.inj (Except.ok.inj heq)
    rw [readArray, fieldPacked, htype, Option.map_some, Option.getD_some]
    split at harray
    · -- behind a length, the elements follow one another
      next hpacked =>
      have hprim : pbGetType type ≠ none := by
        intro hnone
        simp [pbIsPacked, hnone] at hpacked
      rw [if_pos hpacked]
      generalize pbDecodeVarint32 buf s = len at harray ⊢
      obtain ⟨_ | size, s₂⟩ := len
      · cases harray
      · obtain ⟨vs, hvs, rfl, hran⟩ := pbDecodePacked_reads hdec htype hprim harray
        exact ⟨vs, hvs, rfl, hran⟩
    · -- one element; the strings are decoded like a field, the messages in place
      next hpacked =>
      rw [if_neg hpacked]
      split at harray
      · next hstring =>
        have hprim : pbGetType type ≠ none := by
          rw [hstring]
          exact Option.some_ne_none _
        obtain ⟨v, hv, rfl, hran⟩ := pbDecodeProto_reads_primitive hdec htype hprim harray
        exact ⟨[v], by rw [hv]; rfl, rfl, List.forall_mem_singleton.mpr hran⟩
      · next hstring =>
        have hnone : pbGetType type = none := by
          by_contra hsome
          obtain ⟨t, ht⟩ := Option.ne_none_iff_exists'.mp hsome
          cases t <;> simp_all [pbIsPacked]
        obtain ⟨⟨value, s₂⟩, hvalue, heq'⟩ := bind_eq_ok.mp harray
        obtain ⟨rfl, rfl⟩ := Prod.mk.inj (Except.ok.inj heq')
        obtain ⟨v, hv, hput, hran⟩ := pbDecodeProto_reads_message hdec htype hnone hvalue
        exact ⟨[v], by rw [hv]; rfl, by rw [hput name]; rfl, List.forall_mem_singleton.mpr hran⟩

/-- A single field: `json_object_set` of its value. -/
theorem obj_built_single (name : String) (v : Reading) (acc : List (String × Json)) :
    jsonObjectSet (.obj acc) name (v.json buf gprotos) =
      .obj (built buf gprotos [.single name v] acc) := by
  simp only [built, List.foldl_cons, List.foldl_nil, Item.put]
  cases v.json buf gprotos <;> rfl

theorem pbDecodeField_reads {tag : ℕ} {result r : Json} {s s' : IStream}
    (hdec : ReadsItems buf gprotos turns)
    (h : pbDecodeField buf gprotos protos (pbDecode buf gprotos turns) tag result s =
      .ok (r, s')) :
    ∃ items, readField buf gprotos protos (readItems buf gprotos turns) turns tag s =
        some (items, s') ∧
      (∀ acc, result = .obj acc → r = .obj (built buf gprotos items acc)) ∧
      AllRan buf gprotos items := by
  obtain ⟨name, proto, option, hfield, hopt, h⟩ := pbDecodeField_cases h
  rw [readField, hfield, Option.bind_some]
  dsimp only
  rw [hopt, Option.bind_some]
  split at h
  · next hsingle =>
    obtain ⟨v, hv, hputs⟩ := pbDecodeProto_reads hdec h
    refine ⟨v.items name, by rw [if_pos hsingle, hv]; rfl, ?_⟩
    cases hputs with
    | scalar w =>
      refine ⟨?_, by simp [AllRan, Reading.items, Item.readings, Reading.Ran]⟩
      rintro acc rfl
      exact obj_built_single name (.scalar w) acc
    | @single level j _ s₁ s₂ hkey hsub =>
      obtain rfl := Option.some.inj hkey
      have hran : (Reading.message level turns s₁).Ran buf gprotos := ⟨j, s₂, hsub⟩
      have hjson : (Reading.message level turns s₁).json buf gprotos = some j := by
        rw [Reading.json, hsub]
      refine ⟨?_, by simpa [AllRan, Reading.items, Item.readings] using hran⟩
      rintro acc rfl
      rw [← hjson]
      exact obj_built_single name (.message level turns s₁) acc
    | element hkey => cases hkey
    | blank => exact ⟨fun acc hr => hr, by simp [AllRan, Reading.items]⟩
  · next hsingle =>
    rw [if_neg hsingle]
    split at h
    · next hrep =>
      obtain ⟨vs, hvs, rfl, hran⟩ := pbDecodeArray_reads hdec h
      refine ⟨[.elements name vs], by rw [if_pos hrep, hvs]; rfl, ?_, ?_⟩
      · rintro acc rfl
        rfl
      · simpa [AllRan, Item.readings] using hran
    · next hrep =>
      obtain ⟨rfl, rfl⟩ := Prod.mk.inj (Except.ok.inj h)
      exact ⟨[], by rw [if_neg hrep], fun acc hr => hr, by simp [AllRan]⟩

theorem built_append (items rest : List Item) (acc : List (String × Json)) :
    built buf gprotos (items ++ rest) acc =
      built buf gprotos rest (built buf gprotos items acc) :=
  List.foldl_append

/-- **The decoder is a reader and a builder**: it stops where the reader stops, and its result is
built of what was read. -/
theorem pbDecode_reads (buf : Bytes) (gprotos : Json) (turns : ℕ) :
    ReadsItems buf gprotos turns := by
  induction turns with
  | zero =>
    intro protos result s r s' h
    rw [pbDecode] at h
    split at h
    · next hleft =>
      obtain ⟨rfl, rfl⟩ := Prod.mk.inj (Except.ok.inj h)
      exact ⟨[], by rw [readItems, if_pos hleft], fun acc hr => hr, by simp [AllRan]⟩
    · cases h
  | succ turns ih =>
    intro protos result s r s' h
    rw [pbDecode] at h
    rw [readItems]
    split at h
    · next hleft =>
      obtain ⟨rfl, rfl⟩ := Prod.mk.inj (Except.ok.inj h)
      exact ⟨[], by rw [if_pos hleft], fun acc hr => hr, by simp [AllRan]⟩
    · next hleft =>
      rw [if_neg hleft]
      generalize pbDecodeTag buf s = t at h ⊢
      obtain ⟨tag | _ | _, s₁⟩ := t
      · -- one field, and the rest with one turn less
        obtain ⟨⟨r₁, s₂⟩, hfield, hrest⟩ := bind_eq_ok.mp h
        obtain ⟨items, hitems, hbuilt, hran⟩ := pbDecodeField_reads ih hfield
        obtain ⟨rest, hread, hrests, hrans⟩ := ih _ _ _ _ _ hrest
        refine ⟨items ++ rest, ?_, ?_, hran.append hrans⟩
        · simp only [hitems, Option.bind_some, hread, Option.map_some]
        · intro acc hr
          rw [built_append]
          exact hrests _ (hbuilt acc hr)
      · obtain ⟨rfl, rfl⟩ := Prod.mk.inj (Except.ok.inj h)
        exact ⟨[], rfl, fun acc hr => hr, by simp [AllRan]⟩
      · cases h

/-! ## What the readers get through

The readers look at all that the decoder stops for, so that conversely what they read is
decoded, whatever the result holds so far. -/

/-- What the readers are to `pb_decode`. -/
def DecodesItems (buf : Bytes) (gprotos : Json) (turns : ℕ) : Prop :=
  ∀ protos result s items s', readItems buf gprotos turns protos s = some (items, s') →
    ∃ r, pbDecode buf gprotos turns protos result s = .ok (r, s')

section Through

variable {s s' : IStream} {v : Reading}

theorem putScalar_of_found {α : Type} {f : α → Wire} {g : α → Option Json} {x : Option α × IStream}
    {w : Wire} (h : found f x = some (w, s')) (key : Option String) (result : Json) :
    ∃ r, putScalar result key (x.1.map g, x.2) = .ok (r, s') := by
  obtain ⟨_ | a, s₁⟩ := x
  · cases h
  · obtain ⟨-, rfl⟩ := Prod.mk.inj (Option.some.inj h)
    exact ⟨_, rfl⟩

theorem pbDecodeSubmessage_of_read {sub : Json} (hdec : DecodesItems buf gprotos turns)
    (h : readMessage buf (readItems buf gprotos turns) turns sub s = some (v, s'))
    (result : Json) :
    ∃ r, pbDecodeSubmessage buf (pbDecode buf gprotos turns sub result) s = .ok (r, s') := by
  obtain ⟨size, s₁, items, s₂, hlen, hroom, hitems, -, rfl⟩ := readMessage_cases h
  obtain ⟨r, hr⟩ := hdec sub result _ items s₂ hitems
  exact ⟨r, by simp only [pbDecodeSubmessage, hlen, if_neg (Nat.not_lt.mpr hroom), hr]⟩

theorem pbDecodeProto_of_read (hdec : DecodesItems buf gprotos turns)
    (h : readValue buf gprotos proto protos (readItems buf gprotos turns) turns s = some (v, s'))
    (key : Option String) (result : Json) :
    ∃ r, pbDecodeProto buf gprotos proto protos (pbDecode buf gprotos turns) key result s =
      .ok (r, s') := by
  obtain ⟨type, htype, hcases⟩ := readValue_cases h
  rw [fieldType] at htype
  rw [pbDecodeProto, htype]
  dsimp only
  rcases hcases with ⟨t, w, ht, hw, -⟩ | ⟨hnone, hmsgs, -, rfl⟩ | ⟨hnone, sub, hsub, hread⟩
  · rw [ht]
    cases t with
    | uInt32 => exact putScalar_of_found hw key result
    | int32 => exact putScalar_of_found hw key result
    | sInt32 => exact putScalar_of_found hw key result
    | float => exact putScalar_of_found hw key result
    | double => exact putScalar_of_found hw key result
    | string =>
      rw [readScalar] at hw
      rcases htext : pbDecodeStringValue buf s with _ | ⟨text, s₁⟩
      · rw [htext] at hw
        cases hw
      · rw [htext] at hw
        obtain ⟨-, rfl⟩ := Prod.mk.inj (Option.some.inj hw)
        exact ⟨_, rfl⟩
  · rw [hnone, hmsgs]
    exact ⟨result, rfl⟩
  · obtain ⟨messages, hmsgs, hresolve⟩ := Option.bind_eq_some_iff.mp hsub
    rw [hnone, hmsgs]
    dsimp only
    rw [hresolve]
    cases key with
    | none => exact pbDecodeSubmessage_of_read hdec hread result
    | some name =>
      obtain ⟨r, hr⟩ := pbDecodeSubmessage_of_read hdec hread (.obj [])
      dsimp only
      exact ⟨_, bind_eq_ok.mpr ⟨_, hr, rfl⟩⟩

theorem pbDecodePacked_of_read {n : ℕ} (hdec : DecodesItems buf gprotos turns)
    (key : Option String) :
    ∀ (array : Json) {s : IStream} {vs : List Reading},
      readPacked (readValue buf gprotos proto protos (readItems buf gprotos turns) turns) n s =
        some (vs, s') →
      ∃ r, pbDecodePacked (pbDecodeProto buf gprotos proto protos (pbDecode buf gprotos turns) key)
        n array s = .ok (r, s') := by
  induction n with
  | zero =>
    intro array s vs h
    obtain ⟨-, rfl⟩ := Prod.mk.inj (Option.some.inj h)
    exact ⟨array, rfl⟩
  | succ n ih =>
    intro array s vs h
    rw [readPacked] at h
    obtain ⟨⟨v, s₁⟩, hv, h⟩ := Option.bind_eq_some_iff.mp h
    obtain ⟨⟨vs', s₂⟩, hvs, heq⟩ := Option.map_eq_some_iff.mp h
    obtain ⟨-, rfl⟩ := Prod.mk.inj heq
    obtain ⟨array', helem⟩ := pbDecodeProto_of_read hdec hv key array
    obtain ⟨r, hr⟩ := ih array' hvs
    exact ⟨r, bind_eq_ok.mpr ⟨_, helem, hr⟩⟩

theorem pbDecodeArray_of_read {vs : List Reading} (hdec : DecodesItems buf gprotos turns)
    (h : readArray buf gprotos proto protos (readItems buf gprotos turns) turns s = some (vs, s'))
    (key : String) (result : Json) :
    ∃ r, pbDecodeArray buf gprotos proto protos (pbDecode buf gprotos turns) key result s =
      .ok (r, s') := by
  have hstore : ∀ {d : Dec}, (∃ r, d = .ok (r, s')) →
      ∃ r, (d >>= fun x => .ok (jsonObjectSet result key (some x.1), x.2)) = .ok (r, s') :=
    fun ⟨r, hr⟩ => ⟨_, bind_eq_ok.mpr ⟨_, hr, rfl⟩⟩
  rcases htype : fieldType proto with _ | type
  · simp [readArray, fieldPacked, readValue, htype] at h
  rw [readArray, fieldPacked, htype, Option.map_some, Option.getD_some] at h
  rw [fieldType] at htype
  rw [pbDecodeArray, htype]
  dsimp only
  refine hstore ?_
  split at h
  · next hpacked =>
    rw [if_pos hpacked]
    generalize pbDecodeVarint32 buf s = len at h ⊢
    obtain ⟨_ | size, s₁⟩ := len
    · cases h
    · exact pbDecodePacked_of_read hdec _ _ h
  · next hpacked =>
    rw [if_neg hpacked]
    obtain ⟨⟨v, s₁⟩, hv, heq⟩ := Option.map_eq_some_iff.mp h
    obtain ⟨-, rfl⟩ := Prod.mk.inj heq
    split
    · exact pbDecodeProto_of_read hdec hv _ _
    · obtain ⟨r, hr⟩ := pbDecodeProto_of_read hdec hv none (.obj [])
      exact ⟨_, bind_eq_ok.mpr ⟨_, hr, rfl⟩⟩

theorem pbDecodeField_of_read {tag : ℕ} {items : List Item} (hdec : DecodesItems buf gprotos turns)
    (h : readField buf gprotos protos (readItems buf gprotos turns) turns tag s =
      some (items, s')) (result : Json) :
    ∃ r, pbDecodeField buf gprotos protos (pbDecode buf gprotos turns) tag result s =
      .ok (r, s') := by
  rw [readField] at h
  obtain ⟨⟨name, proto⟩, hfield, h⟩ := Option.bind_eq_some_iff.mp h
  obtain ⟨option, hopt, h⟩ := Option.bind_eq_some_iff.mp h
  obtain ⟨tags, htags, hfield⟩ := Option.bind_eq_some_iff.mp hfield
  obtain ⟨name', hname, hfield⟩ := Option.bind_eq_some_iff.mp hfield
  obtain ⟨proto', hproto, heq⟩ := Option.map_eq_some_iff.mp hfield
  obtain ⟨rfl, rfl⟩ := Prod.mk.inj heq
  rcases hentry : jsonObjectGet (some tags) (decimal tag) with _ | entry
  · rw [hentry] at hname
    cases hname
  rw [hentry] at hname
  rw [fieldOption] at hopt
  simp only [pbDecodeField, htags, hentry, hname, hproto, hopt]
  dsimp only at h
  split at h
  · next hsingle =>
    obtain ⟨⟨v, s₁⟩, hv, heq⟩ := Option.map_eq_some_iff.mp h
    obtain ⟨-, rfl⟩ := Prod.mk.inj heq
    rw [if_pos hsingle]
    exact pbDecodeProto_of_read hdec hv _ result
  · next hsingle =>
    rw [if_neg hsingle]
    split at h
    · next hrep =>
      obtain ⟨⟨vs, s₁⟩, hvs, heq⟩ := Option.map_eq_some_iff.mp h
      obtain ⟨-, rfl⟩ := Prod.mk.inj heq
      rw [if_pos hrep]
      exact pbDecodeArray_of_read hdec hvs name' result
    · next hrep =>
      obtain ⟨-, rfl⟩ := Prod.mk.inj (Option.some.inj h)
      rw [if_neg hrep]
      exact ⟨result, rfl⟩

end Through

/-- **What was read is decoded.** -/
theorem pbDecode_of_reads (buf : Bytes) (gprotos : Json) (turns : ℕ) :
    DecodesItems buf gprotos turns := by
  induction turns with
  | zero =>
    intro protos result s items s' h
    rw [readItems] at h
    rw [pbDecode]
    split at h
    · next hleft =>
      obtain ⟨-, rfl⟩ := Prod.mk.inj (Option.some.inj h)
      exact ⟨result, if_pos hleft⟩
    · cases h
  | succ turns ih =>
    intro protos result s items s' h
    rw [readItems] at h
    rw [pbDecode]
    split at h
    · next hleft =>
      obtain ⟨-, rfl⟩ := Prod.mk.inj (Option.some.inj h)
      exact ⟨result, if_pos hleft⟩
    · next hleft =>
      rw [if_neg hleft]
      generalize pbDecodeTag buf s = t at h ⊢
      obtain ⟨tag | _ | _, s₁⟩ := t
      · obtain ⟨⟨field, s₂⟩, hfield, h⟩ := Option.bind_eq_some_iff.mp h
        obtain ⟨⟨rest, s₃⟩, hrest, heq⟩ := Option.map_eq_some_iff.mp h
        obtain ⟨-, rfl⟩ := Prod.mk.inj heq
        obtain ⟨r₁, hr₁⟩ := pbDecodeField_of_read ih hfield result
        obtain ⟨r, hr⟩ := ih protos r₁ s₂ rest s₃ hrest
        exact ⟨r, bind_eq_ok.mpr ⟨_, hr₁, hr⟩⟩
      · obtain ⟨-, rfl⟩ := Prod.mk.inj (Option.some.inj h)
        exact ⟨result, rfl⟩
      · cases h

end Decoder

end Libpomelo
