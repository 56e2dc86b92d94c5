import Libpomelo.PbSchema

/-!
# Decoding undoes encoding

The two halves of the protobuf codec against the wire format:

* `emits_pbEncode`: on a conforming message the encoder writes `wireMsg`;
* `pbDecode_wireMsg`: the decoder, fed `wireMsg` of a message whose counts and
  lengths fit in 32 bits, returns `stripMsg`.

Both go by induction on the size of the message; inside, the members and the
elements are consumed from the front.
-/

namespace Libpomelo

open BinaryFloat (Datum double single)

/-! ## The encoder writes the wire format -/

section Encode

variable {gprotos protos proto v : Json}

/-- The tag of a field is its number and its wire type. -/
theorem emits_pbEncodeTagForField {type : String} (htype : fieldType proto = some type) :
    Emits (fun s => pbEncodeTagForField s proto) (wireTag proto) := by
  have htype' : jsonStringValue (jsonObjectGet (some proto) "type") = some type := htype
  refine (emits_pbEncodeVarint _).congr fun s => ?_
  simp only [pbEncodeTagForField, htype', htype, Option.getD_some]

/-- A scalar is written as its kind is. -/
theorem emits_pbEncodeProto_scalar {enc : Json → OStream → Enc} {type : String} {t : PbType}
    (htype : fieldType proto = some type) (ht : pbGetType type = some t)
    (hv : ConformsScalar t v) :
    Emits (fun s => pbEncodeProto gprotos protos proto v enc s) (wireScalar t v) := by
  have htype' : jsonStringValue (jsonObjectGet (some proto) "type") = some type := htype
  have hzigzag : ∀ i : ℤ, Emits (fun s => pbEncodeSvarint s i) (varintBytes (zigzag i)) := fun i => by
    have := emits_pbEncodeVarint (zigzag i)
    rwa [Nat.mod_eq_of_lt (zigzag_lt i)] at this
  simp only [pbEncodeProto, htype', ht]
  cases t with
  | uInt32 =>
    obtain ⟨i, rfl, hi⟩ := hv
    have := emits_pbEncodeVarint (asUInt64 i)
    rw [Nat.mod_eq_of_lt (asUInt64_lt i)] at this
    simp only [cvtInt64_int hi, wireScalar]
    exact this
  | int32 | sInt32 =>
    obtain ⟨i, rfl, hi⟩ := hv
    simp only [cvtInt64_int hi, wireScalar]
    exact hzigzag i
  | float =>
    obtain ⟨x, rfl, -⟩ := hv
    exact emits_pbEncodeFixed32 _
  | double =>
    obtain ⟨x, rfl⟩ := hv
    exact emits_pbEncodeFixed64 _
  | string =>
    obtain ⟨str, rfl, -, hlen⟩ := hv
    simp only [jsonStringValue, stringLength_of_lt hlen, wireScalar, wirePrefixed]
    exact emits_pbEncodeString (utf8Bytes str)

/-- The encoder writes the wire format of `v`, at every level it conforms to. -/
def EncodesMsg (gprotos v : Json) : Prop :=
  ∀ level, ConformingSchema gprotos level → ConformsMsg gprotos level v →
    Emits (fun s => pbEncode gprotos v level s) (wireMsg gprotos v level)

/-- A conforming field of a conforming level, with its type's level conforming too. -/
theorem ConformingSchema.sub {key type : String} {sub : Json}
    (h : ConformingSchema gprotos protos) (hkey : IsField protos key proto)
    (htype : fieldType proto = some type) (hnone : pbGetType type = none)
    (hres : resolveType gprotos protos type = some sub) : ConformingSchema gprotos sub := by
  obtain ⟨-, tags, -, hfields⟩ := h.level
  obtain ⟨type', htype', hsub⟩ := (hfields key proto hkey).type
  obtain rfl : type = type' := Option.some.inj (htype.symm.trans htype')
  obtain ⟨sub', hres', hconf⟩ := hsub hnone
  obtain rfl : sub = sub' := Option.some.inj (hres.symm.trans hres')
  exact hconf

/-- One value, scalar or message: `ih` is what the encoder writes for the message. -/
theorem emits_pbEncodeProto {key : String} (h : ConformingSchema gprotos protos)
    (hkey : IsField protos key proto) (hv : ConformsValue gprotos protos proto v)
    (ih : EncodesMsg gprotos v) :
    Emits (fun s => pbEncodeProto gprotos protos proto v (fun sub s => pbEncode gprotos v sub s) s)
      (wireValue gprotos protos proto v fun level => wireMsg gprotos v level) := by
  cases hv with
  | scalar htype ht hv =>
    simp only [wireValue, htype, ht]
    exact emits_pbEncodeProto_scalar htype ht hv
  | message htype hnone hres hmsg =>
    have hsub := ih _ (h.sub hkey htype hnone hres) hmsg
    have htype' : jsonStringValue (jsonObjectGet (some proto) "type") = some _ := htype
    obtain ⟨messages, hmsgs⟩ := h.level.1
    have hres' := hres
    simp only [resolveType, hmsgs, Option.bind_some] at hres'
    simp only [wireValue, htype, hnone, hres]
    refine hsub.submessage.congr fun s => ?_
    simp only [pbEncodeProto, htype', hnone, hmsgs, hres']

/-- The `packed` test looks at the type only. -/
theorem fieldPacked_eq {type : String} (htype : fieldType proto = some type) :
    fieldPacked proto = pbIsPacked type := by
  simp [fieldPacked, htype]

/-- The elements one after another, with a tag each where they are not packed. -/
theorem emits_pbEncodeElems {key type : String} {xs : List Json}
    (h : ConformingSchema gprotos protos) (hkey : IsField protos key proto)
    (htype : fieldType proto = some type) (hxs : ConformsElems gprotos protos proto xs)
    (ih : ∀ x ∈ xs, EncodesMsg gprotos x) :
    Emits (fun s => pbEncodeElems gprotos xs protos proto (pbIsPacked type) s)
      (wireElems gprotos xs protos proto) := by
  induction xs with
  | nil =>
    simp only [pbEncodeElems, wireElems]
    exact emits_nil
  | cons x xs ihxs =>
    cases hxs with
    | cons hx hxs =>
      have hhead : Emits (fun s => if pbIsPacked type then .ok s else pbEncodeTagForField s proto)
          (if fieldPacked proto then [] else wireTag proto) := by
        rw [fieldPacked_eq htype]
        cases pbIsPacked type
        · exact emits_pbEncodeTagForField htype
        · exact emits_nil
      have hval := emits_pbEncodeProto h hkey hx (ih x (List.mem_cons_self ..))
      have htail := ihxs hxs fun y hy => ih y (List.mem_cons_of_mem _ hy)
      rw [wireElems, List.append_assoc]
      refine (hhead.bind (hval.bind htail)).congr fun s => ?_
      rw [pbEncodeElems]

/-- The wire format of the first member. -/
def wireField (gprotos : Json) (key : String) (v protos : Json) : Bytes :=
  wireMembers gprotos [(key, v)] protos

theorem wireMembers_cons (key : String) (kvs : List (String × Json)) :
    wireMembers gprotos ((key, v) :: kvs) protos =
      wireField gprotos key v protos ++ wireMembers gprotos kvs protos := by
  simp only [wireField, wireMembers, List.append_nil]

/-- The text of a single field: the tag and the value. -/
theorem wireField_single {key : String} (hkey : jsonObjectGet (some protos) key = some proto)
    (hopt : fieldOption proto ≠ some "repeated") :
    wireField gprotos key v protos =
      wireTag proto ++ wireValue gprotos protos proto v fun level => wireMsg gprotos v level := by
  simp only [wireField, wireMembers, hkey, hopt, if_false, List.append_nil]

/-- The text of a repeated field: the elements, with one tag and their number in front where they
are packed. -/
theorem wireField_repeated {key : String} {xs : List Json}
    (hkey : jsonObjectGet (some protos) key = some proto)
    (hopt : fieldOption proto = some "repeated") :
    wireField gprotos key (.arr xs) protos =
      (if fieldPacked proto then wireTag proto ++ varintBytes (xs.length % 2 ^ 64) else []) ++
        wireElems gprotos xs protos proto := by
  simp only [wireField, wireMembers, wireArray, hkey, hopt, if_true, List.append_nil]

/-- That tag and number. -/
theorem emits_pbEncodeArrayHead {type : String} (htype : fieldType proto = some type) (n : ℕ) :
    Emits (fun s => pbEncodeArrayHead proto (pbIsPacked type) n s)
      (if fieldPacked proto then wireTag proto ++ varintBytes (n % 2 ^ 64) else []) := by
  rw [fieldPacked_eq htype]
  cases pbIsPacked type
  · exact emits_nil
  · exact (emits_pbEncodeTagForField htype).bind (emits_pbEncodeVarint n)

/-- The members one after another, by induction on their list. -/
theorem emits_pbEncodeFields {kvs : List (String × Json)} (h : ConformingSchema gprotos protos)
    (hkvs : ConformsMembers gprotos protos kvs)
    (ih : ∀ v, sizeOf v < sizeOf (Json.obj kvs) → EncodesMsg gprotos v) :
    Emits (fun s => pbEncodeFields gprotos kvs protos s) (wireMembers gprotos kvs protos) := by
  induction kvs with
  | nil =>
    simp only [pbEncodeFields, wireMembers]
    exact emits_nil
  | cons kv kvs ihkvs =>
    obtain ⟨key, v⟩ := kv
    cases hkvs with
    | @cons _ proto _ _ _ hkey hfield hkvs =>
      have htail := ihkvs hkvs fun w hw => ih w (by
        simp only [Json.obj.sizeOf_spec, List.cons.sizeOf_spec] at hw ⊢
        omega)
      have hv : sizeOf v < sizeOf (Json.obj ((key, v) :: kvs)) :=
        sizeOf_lt_of_mem_obj (List.mem_cons_self ..)
      obtain ⟨-, tags, -, hfields⟩ := h.level
      obtain ⟨hopts, -, type, htype, -⟩ := hfields key proto hkey
      have hget := hkey.1
      rw [wireMembers_cons]
      cases hfield with
      | single hopt hval =>
        rw [wireField_single hget hopt]
        have hemit := (emits_pbEncodeTagForField htype).bind
          (emits_pbEncodeProto h hkey hval (ih v hv))
        refine (hemit.bind htail).congr fun s => ?_
        -- the option is one of the two that are written as a single value
        obtain ⟨option, hoption, hor⟩ : ∃ option,
            jsonStringValue (jsonObjectGet (some proto) "option") = some option ∧
              (option = "required" ∨ option = "optional") := by
          rcases hopts with ho | ho | ho
          · exact ⟨_, ho, .inl rfl⟩
          · exact ⟨_, ho, .inr rfl⟩
          · exact absurd ho hopt
        simp only [pbEncodeFields, hget, hoption, hor, if_true]
      | @repeated _ _ xs hopt hxs =>
        rw [wireField_repeated hget hopt]
        have hemit := (emits_pbEncodeArrayHead htype xs.length).bind
          (emits_pbEncodeElems h hkey htype hxs fun x hx =>
            ih x ((sizeOf_lt_of_mem_arr hx).trans hv))
        refine (hemit.bind htail).congr fun s => ?_
        have hopt' : jsonStringValue (jsonObjectGet (some proto) "option") = some "repeated" := hopt
        have htype' : jsonStringValue (jsonObjectGet (some proto) "type") = some type := htype
        simp only [pbEncodeFields, pbEncodeArray, hget, hopt', htype', String.reduceEq, or_self,
          if_false, if_true]

/-- **The encoder writes the wire format** of every conforming message. -/
theorem emits_pbEncode (gprotos msg : Json) : EncodesMsg gprotos msg := by
  induction msg using (measure (sizeOf : Json → ℕ)).wf.induction with
  | _ msg ih =>
    intro level h hmsg
    cases hmsg with
    | obj _ hkvs =>
      simp only [pbEncode, wireMsg]
      exact emits_pbEncodeFields h hkvs ih

end Encode

/-! ## The decoder reads one value back -/

section Decode

variable {buf : Bytes} {gprotos protos proto v : Json} {s : IStream}

/-- Behind its length lies what it is the length of. -/
theorem At.prefixed {w : Bytes} (h : At buf s (wirePrefixed w)) (hlen : w.length < 2 ^ 32) :
    pbDecodeVarint32 buf s =
        (some w.length, s.advance (varintBytes (w.length % 2 ^ 64)).length) ∧
      At buf (s.advance (varintBytes (w.length % 2 ^ 64)).length) w := by
  have hmod : w.length % 2 ^ 64 = w.length := Nat.mod_eq_of_lt (hlen.trans (by decide))
  refine ⟨?_, At.right h⟩
  rw [pbDecodeVarint32_at (Nat.mod_lt _ (by decide)) h.left, hmod, Nat.mod_eq_of_lt hlen]

/-- A string is read back as its bytes. -/
theorem pbDecodeStringValue_at {w : Bytes} (h : At buf s (wirePrefixed w))
    (hlen : w.length < 2 ^ 31) :
    pbDecodeStringValue buf s = .ok (w, s.advance (wirePrefixed w).length) := by
  obtain ⟨hread, hbody⟩ := h.prefixed (hlen.trans (by decide))
  have hstore : ¬ (w.length + 1) % 2 ^ 32 ≤ w.length := by omega
  simp only [pbDecodeStringValue, hread, hstore, if_false, pbRead_at hbody,
    IStream.advance_advance, wirePrefixed, List.length_append]

/-- A scalar is read back as the value that was written. -/
theorem pbDecodeProto_scalar {dec : Json → Json → IStream → Dec} {key : Option String}
    {result : Json} {type : String} {t : PbType} (htype : fieldType proto = some type)
    (ht : pbGetType type = some t) (hv : ConformsScalar t v) (h : At buf s (wireScalar t v)) :
    pbDecodeProto buf gprotos proto protos dec key result s =
      .ok (putValue result key (some v), s.advance (wireScalar t v).length) := by
  have htype' : jsonStringValue (jsonObjectGet (some proto) "type") = some type := htype
  simp only [pbDecodeProto, htype', ht]
  cases t with
  | uInt32 =>
    obtain ⟨i, rfl, hi⟩ := hv
    have hback : asInt64 (asUInt64 i) = i := asInt64_asUInt64 (by omega) (by omega)
    have hread := pbDecodeVarint_at (asUInt64_lt i) h
    simp only [hread, Option.map_some, hback, putScalar, wireScalar]
  | int32 | sInt32 =>
    obtain ⟨i, rfl, hi⟩ := hv
    have hback : unzigzag (zigzag i) = i := unzigzag_zigzag (by omega) (by omega)
    have hread := pbDecodeVarint_at (zigzag_lt i) h
    simp only [pbDecodeSvarint, hread, Option.map_some, hback, putScalar, wireScalar]
  | float =>
    obtain ⟨x, rfl, f, hf, hx⟩ := hv
    have hread := pbDecodeFixed32_at h
    have hreal : jsonReal (BinaryFloat.widen (BinaryFloat.narrow x.1)) = some (.real x) := by
      rw [hx, BinaryFloat.narrow_widen hf, ← hx, jsonReal, dif_pos x.2]
    simp only [hread, Option.map_some, hreal, putScalar, wireScalar, length_leBytes]
  | double =>
    obtain ⟨x, rfl⟩ := hv
    have hread := pbDecodeFixed64_at h
    have hreal : jsonReal x.1 = some (.real x) := by rw [jsonReal, dif_pos x.2]
    simp only [hread, Option.map_some, hreal, putScalar, wireScalar, length_leBytes]
  | string =>
    obtain ⟨str, rfl, hzero, hlen⟩ := hv
    have hread := pbDecodeStringValue_at h hlen
    simp only [hread, ok_bind, jsonString_utf8Bytes hzero, wireScalar]
    rfl

/-- The decoder returns `v` stripped when it finds the bytes of `v` and nothing else. -/
def DecodesMsg (gprotos v : Json) : Prop :=
  ∀ level, ConformingSchema gprotos level → ConformsMsg gprotos level v →
    FitsMsg gprotos v level → ∀ (buf : Bytes) (s : IStream) (turns : ℕ),
    At buf s (wireMsg gprotos v level) → s.bytesLeft = (wireMsg gprotos v level).length →
    s.bytesLeft ≤ turns →
    pbDecode buf gprotos turns level (.obj []) s =
      .ok (stripMsg gprotos v level, s.advance (wireMsg gprotos v level).length)

/-- A submessage is read back by a decoder that reads its body, wherever the body lies. -/
theorem pbDecodeSubmessage_at {dec : IStream → Dec} {w : Bytes} {r : Json}
    (hlen : w.length < 2 ^ 32) (h : At buf s (wirePrefixed w))
    (hdec : ∀ s', At buf s' w → s'.bytesLeft = w.length → s'.bytesLeft < s.bytesLeft →
      dec s' = .ok (r, s'.advance w.length)) :
    pbDecodeSubmessage buf dec s = .ok (r, s.advance (wirePrefixed w).length) := by
  obtain ⟨hread, hbody⟩ := h.prefixed hlen
  have hroom : ¬ (s.advance (varintBytes (w.length % 2 ^ 64)).length).bytesLeft < w.length :=
    not_lt.2 hbody.2
  have hshort : w.length < s.bytesLeft := by
    have hle := h.2
    have hpos : 0 < (varintBytes (w.length % 2 ^ 64)).length := by
      rw [varintBytes_eq (Nat.mod_lt _ (by decide))]
      exact Leb128.length_encode_pos _
    rw [wirePrefixed, List.length_append] at hle
    omega
  simp only [pbDecodeSubmessage, hread, hroom, if_false,
    hdec _ (hbody.of_bytesLeft le_rfl) rfl hshort, wirePrefixed, List.length_append,
    ← IStream.advance_advance]
  rfl

/-- A message value, into a fresh object. -/
theorem pbDecodeSubmessage_value {sub : Json} {turns : ℕ} (hconf : ConformingSchema gprotos sub)
    (hmsg : ConformsMsg gprotos sub v) (hlen : (wireMsg gprotos v sub).length < 2 ^ 32)
    (hfits : FitsMsg gprotos v sub) (ih : DecodesMsg gprotos v) (hturns : s.bytesLeft ≤ turns)
    (h : At buf s (wirePrefixed (wireMsg gprotos v sub))) :
    pbDecodeSubmessage buf (pbDecode buf gprotos turns sub (.obj [])) s =
      .ok (stripMsg gprotos v sub, s.advance (wirePrefixed (wireMsg gprotos v sub)).length) :=
  pbDecodeSubmessage_at hlen h fun s' hat hleft hlt =>
    ih sub hconf hmsg hfits buf s' turns hat hleft (by omega)

/-! ## The decoder reads one field back -/

/-- A scalar loses nothing on the wire. -/
theorem stripValue_scalar {type : String} {t : PbType} {strip : Json → Json}
    (htype : fieldType proto = some type) (ht : pbGetType type = some t) :
    stripValue gprotos protos proto v strip = v := by
  simp [stripValue, htype, ht]

/-- A message loses what its own level does not keep. -/
theorem stripValue_message {type : String} {sub : Json} {strip : Json → Json}
    (htype : fieldType proto = some type) (hnone : pbGetType type = none)
    (hres : resolveType gprotos protos type = some sub) :
    stripValue gprotos protos proto v strip = strip sub := by
  simp [stripValue, htype, hnone, hres]

/-- A value of any type, stored under its key. -/
theorem pbDecodeProto_member {key : String} {acc : List (String × Json)} {turns : ℕ}
    (hconf : ConformingSchema gprotos protos) (hkey : IsField protos key proto)
    (hv : ConformsValue gprotos protos proto v) (ih : DecodesMsg gprotos v)
    (hfits : FitsValue gprotos protos proto v fun level => FitsMsg gprotos v level)
    (hturns : s.bytesLeft ≤ turns)
    (h : At buf s (wireValue gprotos protos proto v fun level => wireMsg gprotos v level)) :
    pbDecodeProto buf gprotos proto protos (pbDecode buf gprotos turns) (some key) (.obj acc) s =
      .ok (.obj (setMember key
          (stripValue gprotos protos proto v fun level => stripMsg gprotos v level) acc),
        s.advance
          (wireValue gprotos protos proto v fun level => wireMsg gprotos v level).length) := by
  cases hv with
  | scalar htype ht hv =>
    simp only [wireValue, htype, ht] at h ⊢
    rw [pbDecodeProto_scalar htype ht hv h, stripValue_scalar htype ht]
    rfl
  | message htype hnone hres hmsg =>
    obtain ⟨hlen, hfits⟩ := hfits _ _ htype hnone hres
    obtain ⟨messages, hmsgs⟩ := hconf.level.1
    have htype' : jsonStringValue (jsonObjectGet (some proto) "type") = some _ := htype
    have hres' := hres
    simp only [resolveType, hmsgs, Option.bind_some] at hres'
    simp only [wireValue, htype, hnone, hres] at h ⊢
    have hsub := pbDecodeSubmessage_value (hconf.sub hkey htype hnone hres) hmsg hlen hfits ih
      hturns h
    rw [stripValue_message htype hnone hres]
    simp only [pbDecodeProto, htype', hnone, hmsgs, hres', hsub, ok_bind]
    rfl

/-- A message value as an array element: decoded into a fresh object without a key. -/
theorem pbDecodeProto_element {key type : String} {turns : ℕ}
    (hconf : ConformingSchema gprotos protos) (hkey : IsField protos key proto)
    (htype : fieldType proto = some type) (hnone : pbGetType type = none)
    (hv : ConformsValue gprotos protos proto v) (ih : DecodesMsg gprotos v)
    (hfits : FitsValue gprotos protos proto v fun level => FitsMsg gprotos v level)
    (hturns : s.bytesLeft ≤ turns)
    (h : At buf s (wireValue gprotos protos proto v fun level => wireMsg gprotos v level)) :
    pbDecodeProto buf gprotos proto protos (pbDecode buf gprotos turns) none (.obj []) s =
      .ok (stripValue gprotos protos proto v fun level => stripMsg gprotos v level,
        s.advance
          (wireValue gprotos protos proto v fun level => wireMsg gprotos v level).length) := by
  cases hv with
  | scalar htype' ht _ =>
    obtain rfl : type = _ := Option.some.inj (htype.symm.trans htype')
    rw [hnone] at ht
    simp at ht
  | message htype'' _ hres hmsg =>
    obtain rfl : type = _ := Option.some.inj (htype.symm.trans htype'')
    obtain ⟨hlen, hfits⟩ := hfits _ _ htype hnone hres
    obtain ⟨messages, hmsgs⟩ := hconf.level.1
    have htype' : jsonStringValue (jsonObjectGet (some proto) "type") = some _ := htype
    have hres' := hres
    simp only [resolveType, hmsgs, Option.bind_some] at hres'
    simp only [wireValue, htype, hnone, hres] at h ⊢
    have hsub := pbDecodeSubmessage_value (hconf.sub hkey htype hnone hres) hmsg hlen hfits ih
      hturns h
    rw [stripValue_message htype hnone hres]
    simp only [pbDecodeProto, htype', hnone, hmsgs, hres', hsub]

/-- The bytes of the elements of a packed field are those of its scalars. -/
theorem pbDecodePacked_at {dec : Json → Json → IStream → Dec} {key type : String} {t : PbType}
    {xs ys : List Json} (htype : fieldType proto = some type) (ht : pbGetType type = some t)
    (hpacked : fieldPacked proto = true) (hxs : ConformsElems gprotos protos proto xs)
    (h : At buf s (wireElems gprotos xs protos proto)) :
    pbDecodePacked (pbDecodeProto buf gprotos proto protos dec (some key)) xs.length (.arr ys) s =
      .ok (.arr (ys ++ stripElems gprotos xs protos proto),
        s.advance (wireElems gprotos xs protos proto).length) := by
  induction xs generalizing ys s with
  | nil => simp [pbDecodePacked, wireElems, stripElems]
  | cons x xs ih =>
    cases hxs with
    | cons hx hxs =>
      have hscalar : ConformsScalar t x := by
        cases hx with
        | scalar htype' ht' hx =>
          obtain rfl : type = _ := Option.some.inj (htype.symm.trans htype')
          obtain rfl : t = _ := Option.some.inj (ht.symm.trans ht')
          exact hx
        | message htype' hnone _ _ =>
          obtain rfl : type = _ := Option.some.inj (htype.symm.trans htype')
          rw [ht] at hnone
          simp at hnone
      have hwire : wireElems gprotos (x :: xs) protos proto =
          wireScalar t x ++ wireElems gprotos xs protos proto := by
        simp [wireElems, hpacked, wireValue, htype, ht]
      rw [hwire] at h ⊢
      rw [List.length_cons, pbDecodePacked, pbDecodeProto_scalar htype ht hscalar h.left]
      simp only [ok_bind, putValue, jsonIsObject, Bool.false_eq_true, if_false, jsonArrayAppend]
      rw [ih hxs h.right, IStream.advance_advance, List.length_append, stripElems,
        stripValue_scalar htype ht, List.append_assoc]
      rfl

/-! ## Tags -/

/-- A wire type has three bits. -/
theorem pbGetConstantType_lt (type : String) : pbGetConstantType type < 8 := by
  unfold pbGetConstantType
  split_ifs <;> decide

/-- The bits of the number and of the wire type do not overlap. -/
theorem tagKey_eq {w n : ℕ} (hw : w < 8) (hn : n < 2 ^ 29) : tagKey w n = 2 ^ 3 * n + w := by
  have hmod : n <<< 3 % 2 ^ 32 = 2 ^ 3 * n := by
    rw [Nat.shiftLeft_eq, Nat.mul_comm]
    exact Nat.mod_eq_of_lt (by omega)
  rw [tagKey, hmod, Nat.or_comm, ← Nat.two_pow_add_eq_or_of_lt hw]

/-- A tag is at least one byte. -/
theorem wireTag_length_pos (proto : Json) : 0 < (wireTag proto).length := by
  rw [wireTag, varintBytes_eq (Nat.mod_lt _ (by decide))]
  exact Leb128.length_encode_pos _

/-- The tag of a field comes back as its number. -/
theorem pbDecodeTag_at {n : ℕ} (hpos : 1 ≤ n) (hn : n < 2 ^ 29)
    (htag : jsonObjectGet (some proto) "tag" = some (.int n)) (h : At buf s (wireTag proto)) :
    pbDecodeTag buf s = (.tag n, s.advance (wireTag proto).length) := by
  have hw := pbGetConstantType_lt ((fieldType proto).getD "")
  have hkey : cvtUInt32 (jsonNumberValue (jsonObjectGet (some proto) "tag")) = n := by
    rw [htag]
    exact cvtUInt32_int (by omega)
  have hlt : tagKey (pbGetConstantType ((fieldType proto).getD "")) n < 2 ^ 32 := by
    rw [tagKey_eq hw hn]
    omega
  have hread := pbDecodeVarint32_at (Nat.mod_lt _ (by decide)) h
  rw [hkey, Nat.mod_eq_of_lt (hlt.trans (by decide)), Nat.mod_eq_of_lt hlt] at hread
  have hlen : (wireTag proto).length =
      (varintBytes (tagKey (pbGetConstantType ((fieldType proto).getD "")) n)).length := by
    rw [wireTag, hkey, Nat.mod_eq_of_lt (hlt.trans (by decide))]
  have hne : 2 ^ 3 * n + pbGetConstantType ((fieldType proto).getD "") ≠ 0 := by omega
  have hshift : (2 ^ 3 * n + pbGetConstantType ((fieldType proto).getD "")) >>> 3 = n := by
    rw [Nat.shiftRight_eq_div_pow]
    omega
  simp only [pbDecodeTag, hread, tagKey_eq hw hn, hne, if_false, hshift, hlen]

/-- One turn of the loop at the tag of the field `key`. -/
theorem pbDecode_turn {key : String} {turns : ℕ} {result : Json} {rest : Bytes}
    (hconf : ConformingSchema gprotos protos) (hkey : IsField protos key proto)
    (h : At buf s (wireTag proto ++ rest)) :
    pbDecode buf gprotos (turns + 1) protos result s =
      (if fieldOption proto = some "repeated" then
          pbDecodeArray buf gprotos proto protos (pbDecode buf gprotos turns) key result
            (s.advance (wireTag proto).length)
        else
          pbDecodeProto buf gprotos proto protos (pbDecode buf gprotos turns) (some key) result
            (s.advance (wireTag proto).length)) >>=
        fun r => pbDecode buf gprotos turns protos r.1 r.2 := by
  obtain ⟨-, tags, htags, hfields⟩ := hconf.level
  obtain ⟨hopts, ⟨n, hpos, hn, htag, hname⟩, -⟩ := hfields key proto hkey
  have hleft : s.bytesLeft ≠ 0 := by
    have hle := h.left.2
    have := wireTag_length_pos proto
    omega
  have hget := hkey.1
  rw [pbDecode, if_neg hleft, pbDecodeTag_at hpos hn htag h.left]
  rcases hopts with ho | ho | ho
  all_goals
    have ho' := ho
    unfold fieldOption at ho'
    simp only [pbDecodeField, htags, hname, jsonStringValue_str, hget, ho, ho', true_or, or_true,
      if_true, Option.some.injEq, String.reduceEq, or_self, if_false]

/-! ## Arrays -/

/-- The member an unpacked array has grown to: none as long as it is empty. -/
def arrayMember (key : String) (ys : List Json) : List (String × Json) :=
  if ys.isEmpty then [] else [(key, .arr ys)]

/-- The array that the decoder finds for an unpacked field. -/
theorem getD_arrayMember {key : String} {acc : List (String × Json)} (hacc : key ∉ acc.map Prod.fst)
    (ys : List Json) :
    ((acc ++ arrayMember key ys).lookup key).getD (.arr []) = .arr ys := by
  cases ys with
  | nil => simp [arrayMember, lookup_of_not_mem hacc]
  | cons y ys => simp [arrayMember, lookup_append_self hacc]

/-- And what it puts in its place. -/
theorem setMember_arrayMember {key : String} {acc : List (String × Json)}
    (hacc : key ∉ acc.map Prod.fst) (ys : List Json) (v : Json) :
    setMember key v (acc ++ arrayMember key ys) = acc ++ [(key, v)] := by
  cases ys with
  | nil => simp [arrayMember, setMember_of_not_mem hacc]
  | cons y ys => simp [arrayMember, setMember_append_self hacc]

/-- A packed type is primitive. -/
theorem exists_of_pbIsPacked {type : String} (h : pbIsPacked type = true) :
    ∃ t, pbGetType type = some t := by
  unfold pbIsPacked at h
  split at h
  · simp at h
  · simp at h
  · next t _ ht => exact ⟨t, ht⟩

/-- One packed array. -/
theorem pbDecodeArray_packed {dec : Json → Json → IStream → Dec} {key : String} {xs : List Json}
    {acc : List (String × Json)} (hconf : ConformingSchema gprotos protos)
    (hkey : IsField protos key proto) (hpacked : fieldPacked proto = true)
    (hxs : ConformsElems gprotos protos proto xs) (hlen : xs.length < 2 ^ 32)
    (hacc : key ∉ acc.map Prod.fst)
    (h : At buf s (varintBytes (xs.length % 2 ^ 64) ++ wireElems gprotos xs protos proto)) :
    pbDecodeArray buf gprotos proto protos dec key (.obj acc) s =
      .ok (.obj (acc ++ [(key, .arr (stripElems gprotos xs protos proto))]),
        s.advance (varintBytes (xs.length % 2 ^ 64) ++
          wireElems gprotos xs protos proto).length) := by
  obtain ⟨-, tags, -, hfields⟩ := hconf.level
  obtain ⟨-, -, type, htype, -⟩ := hfields key proto hkey
  have htype' : jsonStringValue (jsonObjectGet (some proto) "type") = some type := htype
  have hpacked' : pbIsPacked type = true := by rwa [fieldPacked_eq htype] at hpacked
  obtain ⟨t, ht⟩ := exists_of_pbIsPacked hpacked'
  have hread := pbDecodeVarint32_at (Nat.mod_lt _ (by decide)) h.left
  rw [Nat.mod_eq_of_lt (a := xs.length) (hlen.trans (by decide)), Nat.mod_eq_of_lt hlen] at hread
  have hmod : xs.length % 2 ^ 64 = xs.length := Nat.mod_eq_of_lt (hlen.trans (by decide))
  have helems := h.right
  rw [hmod] at helems
  have hdone : pbDecodePacked (pbDecodeProto buf gprotos proto protos dec (some key)) xs.length
      (.arr []) _ = _ := pbDecodePacked_at htype ht hpacked hxs helems
  simp only [pbDecodeArray, htype', hpacked', if_true, hread, jsonObjectGet_obj,
    lookup_of_not_mem hacc, Option.getD_none, ok_bind, hmod, hdone, List.nil_append, jsonObjectSet,
    setMember_of_not_mem hacc, IStream.advance_advance, List.length_append]
  rfl

/-- One element of an unpacked array. -/
theorem pbDecodeArray_unpacked {key : String} {x : Json} {ys : List Json} {turns : ℕ}
    {acc : List (String × Json)} (hconf : ConformingSchema gprotos protos)
    (hkey : IsField protos key proto) (hpacked : fieldPacked proto = false)
    (hx : ConformsValue gprotos protos proto x) (ih : DecodesMsg gprotos x)
    (hfits : FitsValue gprotos protos proto x fun level => FitsMsg gprotos x level)
    (hacc : key ∉ acc.map Prod.fst) (hturns : s.bytesLeft ≤ turns)
    (h : At buf s (wireValue gprotos protos proto x fun level => wireMsg gprotos x level)) :
    pbDecodeArray buf gprotos proto protos (pbDecode buf gprotos turns) key
        (.obj (acc ++ arrayMember key ys)) s =
      .ok (.obj (acc ++ arrayMember key (ys ++
            [stripValue gprotos protos proto x fun level => stripMsg gprotos x level])),
        s.advance
          (wireValue gprotos protos proto x fun level => wireMsg gprotos x level).length) := by
  obtain ⟨-, tags, -, hfields⟩ := hconf.level
  obtain ⟨-, -, type, htype, -⟩ := hfields key proto hkey
  have htype' : jsonStringValue (jsonObjectGet (some proto) "type") = some type := htype
  have hpacked' : pbIsPacked type = false := by rwa [fieldPacked_eq htype] at hpacked
  have hmember : ∀ v, arrayMember key (ys ++ [v]) = [(key, .arr (ys ++ [v]))] := by
    simp [arrayMember]
  cases ht : pbGetType type with
  | none =>
    have hval := pbDecodeProto_element hconf hkey htype ht hx ih hfits hturns h
    simp only [pbDecodeArray, htype', hpacked', Bool.false_eq_true, if_false, ht, reduceCtorEq,
      jsonObjectGet_obj, getD_arrayMember hacc, hval, ok_bind, hmember]
    simp only [jsonArrayAppend, jsonObjectSet, setMember_arrayMember hacc]
    rfl
  | some t =>
    obtain rfl : t = .string := by
      cases t <;> simp [pbIsPacked, ht] at hpacked' ⊢
    cases hx with
    | message htype'' hnone _ _ =>
      obtain rfl : type = _ := Option.some.inj (htype.symm.trans htype'')
      rw [ht] at hnone
      simp at hnone
    | scalar htype'' ht' hx =>
      obtain rfl : type = _ := Option.some.inj (htype.symm.trans htype'')
      obtain rfl : PbType.string = _ := Option.some.inj (ht.symm.trans ht')
      simp only [wireValue, htype, ht] at h ⊢
      have hval : pbDecodeProto buf gprotos proto protos (pbDecode buf gprotos turns) (some key)
          (.arr ys) s = _ := pbDecodeProto_scalar htype ht hx h
      simp only [pbDecodeArray, htype', hpacked', Bool.false_eq_true, if_false, ht, if_true,
        jsonObjectGet_obj, getD_arrayMember hacc, hval, ok_bind, hmember,
        stripValue_scalar htype ht]
      simp only [putValue, jsonIsObject, Bool.false_eq_true, if_false, jsonArrayAppend,
        jsonObjectSet, setMember_arrayMember hacc]
      rfl

/-! ## The loop -/

/-- From here the decoder turns `result` into `r` by reading exactly `w`. -/
def Reads (buf : Bytes) (gprotos protos result : Json) (w : Bytes) (r : Json) : Prop :=
  ∀ (s : IStream) (turns : ℕ), At buf s w → s.bytesLeft = w.length → s.bytesLeft ≤ turns →
    pbDecode buf gprotos turns protos result s = .ok (r, s.advance w.length)

/-- Of no bytes, nothing is decoded. -/
theorem reads_nil {result : Json} : Reads buf gprotos protos result [] result := by
  intro s turns _ hleft _
  cases turns <;> simp [pbDecode, hleft]

/-- One turn at the field `key`, then the rest. -/
theorem Reads.turn {key : String} {result next r : Json} {w rest : Bytes}
    (hconf : ConformingSchema gprotos protos) (hkey : IsField protos key proto)
    (hstep : ∀ (s : IStream) (turns : ℕ), At buf s w → s.bytesLeft ≤ turns →
      (if fieldOption proto = some "repeated" then
          pbDecodeArray buf gprotos proto protos (pbDecode buf gprotos turns) key result s
        else
          pbDecodeProto buf gprotos proto protos (pbDecode buf gprotos turns) (some key) result s)
        = .ok (next, s.advance w.length))
    (hrest : Reads buf gprotos protos next rest r) :
    Reads buf gprotos protos result (wireTag proto ++ w ++ rest) r := by
  intro s turns h hleft hturns
  have hpos := wireTag_length_pos proto
  simp only [List.length_append] at hleft
  obtain ⟨turns, rfl⟩ : ∃ t, turns = t + 1 := ⟨turns - 1, by omega⟩
  have h' := h
  rw [List.append_assoc] at h'
  rw [pbDecode_turn hconf hkey h',
    hstep _ turns h'.right.left (by simp only [IStream.advance_bytesLeft]; omega), ok_bind]
  have hlast := h.right
  rw [List.length_append, ← IStream.advance_advance] at hlast
  rw [hrest _ turns hlast (by simp only [IStream.advance_bytesLeft]; omega)
      (by simp only [IStream.advance_bytesLeft]; omega),
    IStream.advance_advance, IStream.advance_advance, List.length_append, List.length_append,
    Nat.add_assoc]

/-- The elements of an unpacked array: each occurrence appends one to the array so far. -/
theorem reads_elems {key : String} {xs ys : List Json} {acc : List (String × Json)} {r : Json}
    {rest : Bytes} (hconf : ConformingSchema gprotos protos) (hkey : IsField protos key proto)
    (hopt : fieldOption proto = some "repeated") (hpacked : fieldPacked proto = false)
    (hxs : ConformsElems gprotos protos proto xs) (ih : ∀ x ∈ xs, DecodesMsg gprotos x)
    (hfits : FitsElems gprotos xs protos proto) (hacc : key ∉ acc.map Prod.fst)
    (hrest : Reads buf gprotos protos
      (.obj (acc ++ arrayMember key (ys ++ stripElems gprotos xs protos proto))) rest r) :
    Reads buf gprotos protos (.obj (acc ++ arrayMember key ys))
      (wireElems gprotos xs protos proto ++ rest) r := by
  induction xs generalizing ys with
  | nil => simpa [wireElems, stripElems] using hrest
  | cons x xs ihxs =>
    cases hxs with
    | cons hx hxs =>
      rw [FitsElems] at hfits
      rw [stripElems, List.append_cons] at hrest
      have htail := ihxs hxs (fun y hy => ih y (List.mem_cons_of_mem _ hy)) hfits.2 hrest
      rw [wireElems, hpacked, if_neg Bool.false_ne_true, List.append_assoc]
      refine Reads.turn hconf hkey (fun s turns hat hturns => ?_) htail
      rw [if_pos hopt]
      exact pbDecodeArray_unpacked hconf hkey hpacked hx (ih x (List.mem_cons_self ..)) hfits.1 hacc
        hturns hat

/-- What remains of the first member. -/
def stripField (gprotos : Json) (key : String) (v protos : Json) : List (String × Json) :=
  stripMembers gprotos [(key, v)] protos

theorem stripMembers_cons (key : String) (kvs : List (String × Json)) :
    stripMembers gprotos ((key, v) :: kvs) protos =
      stripField gprotos key v protos ++ stripMembers gprotos kvs protos := by
  simp only [stripField, stripMembers, List.append_nil]

/-- What is left of a single field. -/
theorem stripField_single {key : String} (hkey : jsonObjectGet (some protos) key = some proto)
    (hopt : fieldOption proto ≠ some "repeated") :
    stripField gprotos key v protos =
      [(key, stripValue gprotos protos proto v fun level => stripMsg gprotos v level)] := by
  simp only [stripField, stripMembers, hkey, hopt, if_false, List.append_nil]

/-- No element is lost. -/
theorem stripElems_isEmpty (xs : List Json) :
    (stripElems gprotos xs protos proto).isEmpty = xs.isEmpty := by
  cases xs <;> simp [stripElems]

/-- A packed array is always there after decoding. -/
theorem stripField_packed {key : String} {xs : List Json}
    (hkey : jsonObjectGet (some protos) key = some proto)
    (hopt : fieldOption proto = some "repeated") (hpacked : fieldPacked proto = true) :
    stripField gprotos key (.arr xs) protos =
      [(key, .arr (stripElems gprotos xs protos proto))] := by
  simp [stripField, stripMembers, stripArray, hkey, hopt, hpacked]

/-- An unpacked array without elements is not. -/
theorem stripField_unpacked {key : String} {xs : List Json}
    (hkey : jsonObjectGet (some protos) key = some proto)
    (hopt : fieldOption proto = some "repeated") (hpacked : fieldPacked proto = false) :
    stripField gprotos key (.arr xs) protos =
      arrayMember key (stripElems gprotos xs protos proto) := by
  simp [stripField, stripMembers, stripArray, hkey, hopt, hpacked, arrayMember, stripElems_isEmpty]

/-- Stripping never invents a key. -/
theorem stripField_keys {key : String} :
    ∀ k ∈ (stripField gprotos key v protos).map Prod.fst, k = key := by
  intro k hk
  rw [stripField, stripMembers, stripMembers, List.append_nil] at hk
  split at hk
  · simpa using hk
  · split at hk
    · unfold stripArray at hk
      split at hk
      · split at hk <;> simp at hk
        exact hk
      · simpa using hk
    · simpa using hk

/-- The members of a message: each occurrence sets its key, which no earlier one has set. -/
theorem reads_members {kvs acc : List (String × Json)} (hconf : ConformingSchema gprotos protos)
    (hkvs : ConformsMembers gprotos protos kvs)
    (hnd : (kvs.map Prod.fst).Nodup) (hacc : ∀ key ∈ kvs.map Prod.fst, key ∉ acc.map Prod.fst)
    (hfits : FitsMembers gprotos kvs protos)
    (ih : ∀ v, sizeOf v < sizeOf (Json.obj kvs) → DecodesMsg gprotos v) :
    Reads buf gprotos protos (.obj acc) (wireMembers gprotos kvs protos)
      (.obj (acc ++ stripMembers gprotos kvs protos)) := by
  induction kvs generalizing acc with
  | nil =>
    simp only [wireMembers, stripMembers, List.append_nil]
    exact reads_nil
  | cons kv kvs ihkvs =>
    obtain ⟨key, v⟩ := kv
    cases hkvs with
    | @cons _ proto _ _ _ hkey hfield hkvs =>
      rw [List.map_cons, List.nodup_cons] at hnd
      have hget := hkey.1
      have hkeyacc : key ∉ acc.map Prod.fst := hacc key (List.mem_cons_self ..)
      have hv : sizeOf v < sizeOf (Json.obj ((key, v) :: kvs)) :=
        sizeOf_lt_of_mem_obj (List.mem_cons_self ..)
      -- the keys read so far stay apart from those to come
      have hacc' : ∀ k ∈ kvs.map Prod.fst,
          k ∉ (acc ++ stripField gprotos key v protos).map Prod.fst := by
        intro k hk hmem
        rw [List.map_append, List.mem_append] at hmem
        rcases hmem with hmem | hmem
        · exact hacc k (List.mem_cons_of_mem _ hk) hmem
        · rw [stripField_keys k hmem] at hk
          exact hnd.1 hk
      have htail := ihkvs hkvs hnd.2 hacc' (by rw [FitsMembers] at hfits; exact hfits.2)
        fun w hw => ih w (by
          simp only [Json.obj.sizeOf_spec, List.cons.sizeOf_spec] at hw ⊢
          omega)
      rw [wireMembers_cons, stripMembers_cons, ← List.append_assoc]
      cases hfield with
      | single hopt hval =>
        rw [FitsMembers, hget] at hfits
        simp only [hopt, if_false] at hfits
        rw [stripField_single hget hopt] at htail ⊢
        rw [wireField_single hget hopt]
        refine Reads.turn hconf hkey (fun s turns hat hturns => ?_) htail
        rw [if_neg hopt, pbDecodeProto_member hconf hkey hval (ih v hv) hfits.1 hturns hat,
          setMember_of_not_mem hkeyacc]
      | @repeated _ _ xs hopt hxs =>
        rw [FitsMembers, hget] at hfits
        simp only [hopt, if_true, FitsArray] at hfits
        obtain ⟨⟨hlen, hfits⟩, -⟩ := hfits
        rw [wireField_repeated hget hopt]
        cases hpacked : fieldPacked proto with
        | true =>
          rw [stripField_packed hget hopt hpacked] at htail ⊢
          rw [if_pos rfl, List.append_assoc (wireTag proto)]
          refine Reads.turn hconf hkey (fun s turns hat hturns => ?_) htail
          rw [if_pos hopt]
          exact pbDecodeArray_packed hconf hkey hpacked hxs (hlen hpacked) hkeyacc hat
        | false =>
          rw [stripField_unpacked hget hopt hpacked] at htail ⊢
          simp only [Bool.false_eq_true, if_false, List.nil_append]
          have hreads : Reads buf gprotos protos (.obj (acc ++ arrayMember key []))
              (wireElems gprotos xs protos proto ++ wireMembers gprotos kvs protos) _ :=
            reads_elems hconf hkey hopt hpacked hxs
              (fun x hx => ih x ((sizeOf_lt_of_mem_arr hx).trans hv)) hfits hkeyacc htail
          simpa [arrayMember] using hreads

/-- **The decoder reads the wire format back** when its counts and lengths fit. -/
theorem pbDecode_wireMsg (gprotos msg : Json) : DecodesMsg gprotos msg := by
  induction msg using (measure (sizeOf : Json → ℕ)).wf.induction with
  | _ msg ih =>
    intro level hconf hmsg hfits buf s turns hat hleft hturns
    cases hmsg with
    | obj hnd hkvs =>
      rw [FitsMsg] at hfits
      rw [wireMsg] at hat hleft ⊢
      have hreads : Reads buf gprotos level (.obj []) _ _ :=
        reads_members hconf hkvs hnd (by simp) hfits ih
      rw [stripMsg, hreads s turns hat hleft hturns, List.nil_append]

end Decode

/-! ## The round trip -/

/-- Encoding fails exactly on buffers that are too short, whatever `size_t` their length
is, gives the same bytes in all others, and decoding the `written` bytes into an empty
object gives the message back, stripped. -/
def RoundTrips (gprotos protos msg : Json) : Prop :=
  ∃ bytes : Bytes,
    (∀ len < 2 ^ 64, ∀ w, pcPbEncode len gprotos protos msg = .ok w ↔
      w = bytes ∧ bytes.length ≤ len) ∧
      pcPbDecode bytes gprotos protos (.obj []) = .ok (stripMsg gprotos msg protos)

/-- There is a buffer that the message is encoded into. -/
def Encodable (gprotos protos msg : Json) : Prop :=
  ∃ len < 2 ^ 64, ∃ bytes, pcPbEncode len gprotos protos msg = .ok bytes

/-- **What `pc_pb_encode` returns**: the text of the message, if the buffer has room for it. -/
theorem pcPbEncode_eq_ok_iff {gprotos protos msg : Json} (hconf : ConformingSchema gprotos protos)
    (hmsg : ConformsMsg gprotos protos msg) {len : ℕ} {bytes : Bytes} (hlen : len < 2 ^ 64) :
    pcPbEncode len gprotos protos msg = .ok bytes ↔
      bytes = wireMsg gprotos msg protos ∧ (wireMsg gprotos msg protos).length ≤ len := by
  obtain ⟨hok, hno⟩ :=
    emits_pbEncode gprotos msg protos hconf hmsg (pbOstreamFromBuffer len) (.fromBuffer hlen)
  by_cases hroom : (wireMsg gprotos msg protos).length ≤ len
  · have henc : pbEncode gprotos msg protos (pbOstreamFromBuffer len) = _ :=
      hok (room_fromBuffer.mpr hroom)
    rw [pcPbEncode, henc]
    simp [take_emit_fromBuffer (hroom.trans_lt hlen), hroom, eq_comm]
  · obtain ⟨e, he⟩ := hno fun hr => hroom (room_fromBuffer.mp hr)
    simp [pcPbEncode, he, hroom]

/-- The decoder on the whole wire format. -/
theorem pcPbDecode_wireMsg {gprotos protos msg : Json} (hconf : ConformingSchema gprotos protos)
    (hmsg : ConformsMsg gprotos protos msg) (hfits : FitsMsg gprotos msg protos) :
    pcPbDecode (wireMsg gprotos msg protos) gprotos protos (.obj []) =
      .ok (stripMsg gprotos msg protos) := by
  rw [pcPbDecode, pbDecode_wireMsg gprotos msg protos hconf hmsg hfits]
  · exact ⟨by simp [pbIstreamFromBuffer], le_rfl⟩
  · rfl
  · exact le_rfl

/-- **Decoding undoes encoding** whenever the counts and lengths fit. -/
theorem roundTrips_of_fits {gprotos protos msg : Json} (hconf : ConformingSchema gprotos protos)
    (hmsg : ConformsMsg gprotos protos msg) (hfits : FitsMsg gprotos msg protos) :
    RoundTrips gprotos protos msg := by
  exact ⟨_, fun len hlen w => pcPbEncode_eq_ok_iff hconf hmsg hlen,
    pcPbDecode_wireMsg hconf hmsg hfits⟩

/-- What comes back is the wire format, when there is a buffer for it. -/
theorem RoundTrips.decodes {gprotos protos msg : Json} (hconf : ConformingSchema gprotos protos)
    (hmsg : ConformsMsg gprotos protos msg) (hencodable : Encodable gprotos protos msg)
    (h : RoundTrips gprotos protos msg) :
    pcPbDecode (wireMsg gprotos msg protos) gprotos protos (.obj []) =
      .ok (stripMsg gprotos msg protos) := by
  obtain ⟨len, hlen, w, hw⟩ := hencodable
  obtain ⟨bytes, henc, hdec⟩ := h
  obtain ⟨rfl, -⟩ := (pcPbEncode_eq_ok_iff hconf hmsg hlen).mp hw
  obtain ⟨rfl, -⟩ := (henc len hlen _).mp hw
  exact hdec

end Libpomelo
