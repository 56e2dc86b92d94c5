import Libpomelo.PbBounds
import Libpomelo.PbReading
import Libpomelo.PbStores

/-!
# Where the protobuf decoder leaves its memory

The decoder goes out of bounds at two kinds of places. Where the definition of a field lacks a
string that is looked up or compared (its name in `__tags`, its option or its type), it works
on `NULL`; and where a string is `2 ^ 32 - 1` bytes long, it stores behind an allocation of no
bytes. `Stumbles` says of the bytes that such a place is reached: the readers get to it, field by
field and into the nested messages.

`pcPbDecode_faults_iff` is the connection: a decoder of enough turns goes out of bounds just
where the bytes stumble.
-/

namespace Libpomelo

section Buffer

variable (buf : Bytes)

/-! ## The places -/

/-- A string that is too long for its allocation is next. -/
def StumblesText (s : IStream) : Prop := ∃ s₁, pbDecodeVarint32 buf s = (some (2 ^ 32 - 1), s₁)

/-- A value at which the decoder stumbles: its field has no type, it is a string that is too
long, or a message whose body stumbles. -/
def StumblesValue (gprotos proto protos : Json) (inner : Json → IStream → Prop) (s : IStream) :
    Prop :=
  fieldType proto = none ∨ ∃ type, fieldType proto = some type ∧
    ((pbGetType type = some .string ∧ StumblesText buf s) ∨
      (pbGetType type = none ∧ ∃ sub size s₁, resolveType gprotos protos type = some sub ∧
        pbDecodeVarint32 buf s = (some size, s₁) ∧ size ≤ s₁.bytesLeft ∧
        inner sub { s₁ with bytesLeft := size }))

/-- The name that a level has for a tag is not a string. -/
def Nameless (protos : Json) (tag : ℕ) : Prop :=
  ∃ tags entry, jsonObjectGet (some protos) "__tags" = some tags ∧
    jsonObjectGet (some tags) (decimal tag) = some entry ∧ jsonStringValue (some entry) = none

/-- A field at which the decoder stumbles: one without a name or an option, or with a value at
which it does. A field of an unknown option is passed over. -/
def StumblesField (gprotos protos : Json) (inner : Json → IStream → Prop) (tag : ℕ)
    (s : IStream) : Prop :=
  Nameless protos tag ∨ ∃ name proto, fieldOfTag protos tag = some (name, proto) ∧
    (fieldOption proto = none ∨ ∃ option, fieldOption proto = some option ∧
      (IsSingle option ∨ option = "repeated") ∧ StumblesValue buf gprotos proto protos inner s)

/-- **Stumbles.** The first field of the bytes does, or what stands behind it. -/
def Stumbles (gprotos : Json) : ℕ → Json → IStream → Prop
  | 0, _, _ => False
  | turns + 1, protos, s =>
    s.bytesLeft ≠ 0 ∧ ∃ tag s₁, pbDecodeTag buf s = (.tag tag, s₁) ∧
      (StumblesField buf gprotos protos (Stumbles gprotos turns) tag s₁ ∨
        ∃ items s₂, readField buf gprotos protos (readItems buf gprotos turns) turns tag s₁ =
            some (items, s₂) ∧ Stumbles gprotos turns protos s₂)

end Buffer

/-! ## Faults -/

/-- The decoder function went out of bounds. -/
def Faults {α : Type} (d : Except (PbDecStop × IStream) α) : Prop :=
  ∃ stop s, d = .error (stop, s) ∧ (stop = .nullString ∨ stop = .badStore)

section Faults

variable {α β : Type} {d : Except (PbDecStop × IStream) α}

theorem not_faults_ok (a : α) : ¬ Faults (.ok a) := by
  rintro ⟨stop, s, h, -⟩
  cases h

theorem faults_error_iff {stop : PbDecStop} {s : IStream} :
    Faults (.error (stop, s) : Except (PbDecStop × IStream) α) ↔
      stop = .nullString ∨ stop = .badStore := by
  constructor
  · rintro ⟨stop', s', h, hstop⟩
    obtain ⟨rfl, -⟩ := Prod.mk.inj (Except.error.inj h)
    exact hstop
  · exact fun hstop => ⟨stop, s, rfl, hstop⟩

/-- One function after another. -/
theorem faults_bind_iff {f : α → Except (PbDecStop × IStream) β} :
    Faults (d >>= f) ↔ Faults d ∨ ∃ a, d = .ok a ∧ Faults (f a) := by
  rcases d with ⟨stop, s⟩ | a
  · have hbind : Faults (Except.error (stop, s) >>= f) ↔
        Faults (.error (stop, s) : Except (PbDecStop × IStream) α) := by
      rw [faults_error_iff]
      exact faults_error_iff
    rw [hbind]
    refine ⟨.inl, fun h => h.resolve_right ?_⟩
    rintro ⟨a, ha, -⟩
    cases ha
  · rw [ok_bind]
    refine ⟨fun h => .inr ⟨a, rfl, h⟩, fun h => ?_⟩
    rcases h with h | ⟨a', ha, h⟩
    · exact absurd h (not_faults_ok a)
    · obtain rfl := Except.ok.inj ha
      exact h

/-- What follows can only succeed. -/
theorem faults_bind_pure_iff {f : α → β} : Faults (d >>= fun a => pure (f a)) ↔ Faults d := by
  rw [faults_bind_iff]
  refine ⟨fun h => h.resolve_right ?_, .inl⟩
  rintro ⟨a, -, h⟩
  exact not_faults_ok _ h

end Faults

section Decoder

variable {buf : Bytes} {gprotos proto protos result : Json} {turns : ℕ} {s : IStream}
  {dec : Json → Json → IStream → Dec} {inner : Json → IStream → Prop}

theorem not_faults_putScalar (key : Option String) (r : Option (Option Json) × IStream) :
    ¬ Faults (putScalar result key r) := by
  obtain ⟨_ | v, s⟩ := r
  · rw [putScalar, faults_error_iff]
    decide
  · exact not_faults_ok _

/-- The string branch of `pb_decode_proto`. -/
theorem faults_stringValue_iff : Faults (pbDecodeStringValue buf s) ↔ StumblesText buf s := by
  rcases hread : pbDecodeVarint32 buf s with ⟨_ | strLen, s₁⟩
  · rw [pbDecodeStringValue, StumblesText, hread]
    exact iff_of_false (by simp [faults_error_iff]) (by simp)
  -- the text is never read at `NULL`, so that the only fault is the store
  have hbad : Faults (pbDecodeStringValue buf s) ↔
      ∃ s', pbDecodeStringValue buf s = .error (.badStore, s') := by
    constructor
    · rintro ⟨stop, s', h, rfl | rfl⟩
      · rw [pbDecodeStringValue, hread] at h
        dsimp only at h
        split at h
        · cases h
        · split at h <;> cases h
      · exact ⟨s', h⟩
    · rintro ⟨s', h⟩
      exact ⟨.badStore, s', h, .inr rfl⟩
  have hstr : stringDecode buf false s = some ⟨strLen, (strLen + 1) % 2 ^ 32, []⟩ := by
    rw [stringDecode, hread]
    rfl
  rw [hbad, pbDecodeStringValue_badStore hstr, StumblesText, hread]
  simp

/-- `pb_decode_submessage`: only the body can fault. -/
theorem faults_submessage_iff {d : IStream → Dec} :
    Faults (pbDecodeSubmessage buf d s) ↔
      ∃ size s₁, pbDecodeVarint32 buf s = (some size, s₁) ∧ size ≤ s₁.bytesLeft ∧
        Faults (d { s₁ with bytesLeft := size }) := by
  rw [pbDecodeSubmessage]
  generalize pbDecodeVarint32 buf s = len
  obtain ⟨_ | size, s₁⟩ := len
  · exact iff_of_false (by simp [faults_error_iff]) (by simp)
  have hspread : (∃ size' s', ((some size, s₁) : Option ℕ × IStream) = (some size', s') ∧
      size' ≤ s'.bytesLeft ∧ Faults (d { s' with bytesLeft := size' })) ↔
        size ≤ s₁.bytesLeft ∧ Faults (d { s₁ with bytesLeft := size }) := by
    constructor
    · rintro ⟨size', s', heq, h⟩
      obtain ⟨hsize, rfl⟩ := Prod.mk.inj heq
      obtain rfl := Option.some.inj hsize
      exact h
    · exact fun h => ⟨size, s₁, rfl, h⟩
  rw [hspread]
  dsimp only
  by_cases hroom : s₁.bytesLeft < size
  · rw [if_pos hroom]
    exact iff_of_false (by simp [faults_error_iff]) fun h => Nat.not_le.mpr hroom h.1
  · rw [if_neg hroom, and_iff_right (Nat.not_lt.mp hroom)]
    rcases d { s₁ with bytesLeft := size } with ⟨stop, sub⟩ | ⟨dest, sub⟩
    · exact faults_error_iff.trans faults_error_iff.symm
    · exact iff_of_false (not_faults_ok _) (not_faults_ok _)

/-- One value, with `inner` the bodies at which `dec` faults. -/
theorem faults_proto_iff (hdec : ∀ level dest s, Faults (dec level dest s) ↔ inner level s)
    (key : Option String) :
    Faults (pbDecodeProto buf gprotos proto protos dec key result s) ↔
      StumblesValue buf gprotos proto protos inner s := by
  have hsub : ∀ sub dest, Faults (pbDecodeSubmessage buf (dec sub dest) s) ↔
      ∃ size s₁, pbDecodeVarint32 buf s = (some size, s₁) ∧ size ≤ s₁.bytesLeft ∧
        inner sub { s₁ with bytesLeft := size } := by
    intro sub dest
    simp only [faults_submessage_iff, hdec]
  rw [pbDecodeProto, StumblesValue, fieldType]
  rcases jsonStringValue (jsonObjectGet (some proto) "type") with _ | type
  · exact iff_of_true (faults_error_iff.mpr (.inl rfl)) (.inl rfl)
  simp only [reduceCtorEq, false_or, Option.some.injEq, exists_eq_left']
  rcases hkind : pbGetType type with _ | kind
  · -- a message, or a name that no level knows
    rw [resolveType]
    simp only [reduceCtorEq, false_and, false_or, true_and]
    rcases jsonObjectGet (some protos) "__messages" with _ | messages
    · exact iff_of_false (not_faults_ok _) (by simp)
    dsimp only
    rw [Option.bind_some]
    rcases resolveMessage gprotos messages type with _ | sub
    · exact iff_of_false (by simp [faults_error_iff]) (by simp)
    simp only [Option.some.injEq, exists_and_left, exists_eq_left']
    cases key with
    | none => exact hsub sub result
    | some name =>
      dsimp only
      rw [faults_bind_pure_iff]
      exact hsub sub (.obj [])
  · cases kind with
    | string =>
      dsimp only
      rw [faults_bind_pure_iff, faults_stringValue_iff]
      simp
    | _ => exact iff_of_false (not_faults_putScalar _ _) (by simp)

/-- The elements of a packed array are numbers. -/
theorem not_stumblesValue_of_packed {type : String} (htype : fieldType proto = some type)
    (hpacked : pbIsPacked type = true) : ¬ StumblesValue buf gprotos proto protos inner s := by
  rw [StumblesValue, htype]
  rintro (hnone | ⟨type', htype', ⟨hstring, -⟩ | ⟨hnone, -⟩⟩)
  · cases hnone
  · obtain rfl := Option.some.inj htype'
    simp [pbIsPacked, hstring] at hpacked
  · obtain rfl := Option.some.inj htype'
    simp [pbIsPacked, hnone] at hpacked

/-- Elements that do not fault, whatever their number. -/
theorem not_faults_packed {read : Json → IStream → Dec} (hread : ∀ array s, ¬ Faults (read array s))
    (n : ℕ) : ∀ array s, ¬ Faults (pbDecodePacked read n array s) := by
  induction n with
  | zero => exact fun array s => not_faults_ok _
  | succ n ih =>
    intro array s
    rw [pbDecodePacked, faults_bind_iff]
    rintro (h | ⟨⟨array', s₁⟩, -, h⟩)
    · exact hread array s h
    · exact ih array' s₁ h

/-- A repeated field: of the packed types none can fault. -/
theorem faults_array_iff (hdec : ∀ level dest s, Faults (dec level dest s) ↔ inner level s)
    (key : String) :
    Faults (pbDecodeArray buf gprotos proto protos dec key result s) ↔
      StumblesValue buf gprotos proto protos inner s := by
  rcases htype : fieldType proto with _ | type
  · rw [fieldType] at htype
    rw [pbDecodeArray, htype]
    exact iff_of_true (faults_error_iff.mpr (.inl rfl)) (.inl htype)
  have htype' := htype
  rw [fieldType] at htype'
  rw [pbDecodeArray, htype']
  dsimp only
  rw [faults_bind_pure_iff]
  by_cases hpacked : pbIsPacked type = true
  · rw [if_pos hpacked]
    refine iff_of_false ?_ (not_stumblesValue_of_packed htype hpacked)
    generalize pbDecodeVarint32 buf s = len
    obtain ⟨_ | size, s₁⟩ := len
    · simp [faults_error_iff]
    · refine not_faults_packed (fun array s => ?_) _ _ _
      rw [faults_proto_iff hdec]
      exact not_stumblesValue_of_packed htype hpacked
  · rw [if_neg hpacked]
    split
    · exact faults_proto_iff hdec _
    · rw [faults_bind_pure_iff]
      exact faults_proto_iff hdec _

/-- The lookups behind a tag, and the values. -/
theorem faults_field_iff (hdec : ∀ level dest s, Faults (dec level dest s) ↔ inner level s)
    (tag : ℕ) :
    Faults (pbDecodeField buf gprotos protos dec tag result s) ↔
      StumblesField buf gprotos protos inner tag s := by
  rw [pbDecodeField, StumblesField, Nameless, fieldOfTag]
  rcases jsonObjectGet (some protos) "__tags" with _ | tags
  · exact iff_of_false (by simp [faults_error_iff]) (by simp)
  simp only [Option.some.injEq, exists_and_left, exists_eq_left', Option.bind_some]
  rcases jsonObjectGet (some tags) (decimal tag) with _ | entry
  · exact iff_of_false (by simp [faults_error_iff]) (by simp [jsonStringValue])
  simp only [Option.some.injEq, exists_eq_left']
  rcases jsonStringValue (some entry) with _ | name
  · exact iff_of_true (faults_error_iff.mpr (.inl rfl)) (.inl rfl)
  simp only [reduceCtorEq, false_or, Option.bind_some]
  rcases jsonObjectGet (some protos) name with _ | proto
  · exact iff_of_false (by simp [faults_error_iff]) (by simp)
  simp only [Option.map_some, Option.some.injEq, Prod.mk.injEq, exists_and_left, and_assoc,
    exists_eq_left', fieldOption]
  rcases jsonStringValue (jsonObjectGet (some proto) "option") with _ | option
  · exact iff_of_true (faults_error_iff.mpr (.inl rfl)) (.inl rfl)
  simp only [reduceCtorEq, false_or, Option.some.injEq, exists_eq_left']
  split
  · next hsingle => rw [faults_proto_iff hdec, and_iff_right (.inl hsingle)]
  · next hsingle =>
    split
    · next hrep => rw [faults_array_iff hdec, and_iff_right (.inr hrep)]
    · next hrep => exact iff_of_false (not_faults_ok _) fun h => h.1.elim hsingle hrep

/-- **The decoder goes out of bounds where its bytes stumble**, at every level of every schema and
for every number of turns. -/
theorem pbDecode_faults_iff (buf : Bytes) (gprotos : Json) (turns : ℕ) :
    ∀ protos result s, Faults (pbDecode buf gprotos turns protos result s) ↔
      Stumbles buf gprotos turns protos s := by
  induction turns with
  | zero =>
    intro protos result s
    rw [pbDecode, Stumbles]
    refine iff_of_false ?_ id
    split
    · exact not_faults_ok _
    · simp [faults_error_iff]
  | succ turns ih =>
    intro protos result s
    rw [pbDecode, Stumbles]
    by_cases hleft : s.bytesLeft = 0
    · rw [if_pos hleft]
      exact iff_of_false (not_faults_ok _) fun h => h.1 hleft
    rw [if_neg hleft, and_iff_right hleft]
    generalize pbDecodeTag buf s = t
    obtain ⟨tag | _ | _, s₁⟩ := t
    · -- behind the field, the decoder goes on where the readers do
      have hthrough : (∃ a, pbDecodeField buf gprotos protos (pbDecode buf gprotos turns) tag result
          s₁ = .ok a ∧ Faults (pbDecode buf gprotos turns protos a.1 a.2)) ↔
          ∃ items s₂, readField buf gprotos protos (readItems buf gprotos turns) turns tag s₁ =
            some (items, s₂) ∧ Stumbles buf gprotos turns protos s₂ := by
        constructor
        · rintro ⟨⟨r, s₂⟩, hfield, hfault⟩
          obtain ⟨items, hread, -⟩ := pbDecodeField_reads (pbDecode_reads buf gprotos turns) hfield
          exact ⟨items, s₂, hread, (ih protos r s₂).mp hfault⟩
        · rintro ⟨items, s₂, hread, hstumbles⟩
          obtain ⟨r, hfield⟩ := pbDecodeField_of_read (pbDecode_of_reads buf gprotos turns) hread
            result
          exact ⟨(r, s₂), hfield, (ih protos r s₂).mpr hstumbles⟩
      dsimp only
      rw [faults_bind_iff, hthrough, faults_field_iff ih]
      constructor
      · exact fun h => ⟨tag, s₁, rfl, h⟩
      · rintro ⟨tag', s', heq, h⟩
        obtain ⟨htag, rfl⟩ := Prod.mk.inj heq
        obtain rfl := TagResult.tag.inj htag
        exact h
    · exact iff_of_false (not_faults_ok _) (by simp)
    · exact iff_of_false (by simp [faults_error_iff]) (by simp)

/-- `pc_pb_decode` as a whole: its turns suffice, so that a stop is a refusal or a fault. -/
theorem pcPbDecode_faults_iff (buf : Bytes) (gprotos protos result : Json) :
    (∃ stop, pcPbDecode buf gprotos protos result = .error stop ∧ stop ≠ .refused) ↔
      Stumbles buf gprotos buf.length protos (pbIstreamFromBuffer buf.length) := by
  rw [← pbDecode_faults_iff buf gprotos buf.length protos result, pcPbDecode]
  have hturns := (pbDecode_bounded buf gprotos buf.length protos result
    (pbIstreamFromBuffer buf.length)).returns le_rfl
  generalize pbDecode buf gprotos buf.length protos result (pbIstreamFromBuffer buf.length) = d
    at hturns ⊢
  rcases d with ⟨stop, s⟩ | ⟨r, s⟩
  · rw [faults_error_iff]
    cases stop with
    | outOfTurns => exact absurd rfl (hturns s)
    | _ => simp
  · exact iff_of_false (by simp) (not_faults_ok _)

end Decoder

end Libpomelo
