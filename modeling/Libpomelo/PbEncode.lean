import Libpomelo.Json
import Libpomelo.Package

/-!
# The protobuf encoder (`pb-util.c`, `pb-encode.c`)

A message is encoded field by field against a schema that is itself a JSON
value: `protos` is the level of the schema in force, `gprotos` the root where
`message T` entries are looked up.

An output stream either stores bytes (`writing`) or only counts them. The length
prefix of a submessage comes from a counting run over it, so every submessage is
encoded twice.

`Enc` is the outcome of an encoder function: the stream it leaves, or why it
stopped together with the stream at that point. C's `return 0` is `refused`;
`nullString` is `strcmp` or `strlen` applied to `NULL`, and `overrun` a `memcpy`
beyond one of its buffers. The code guards against neither: a sum of two `size_t`
is compared with the limit, and it may have wrapped around.
-/

namespace Libpomelo

open BinaryFloat (Datum double)

/-! ## Types and wire types -/

/-- `pb_wire_type_t`: the primitive field types. -/
inductive PbType : Type where
  | uInt32 | int32 | sInt32 | float | double | string
  deriving DecidableEq, Repr

/-- `pb__get_type`; `none` is `0`, the name of a message type. -/
def pbGetType (type : String) : Option PbType :=
  if type = "uInt32" then some .uInt32
  else if type = "int32" then some .int32
  else if type = "sInt32" then some .sInt32
  else if type = "float" then some .float
  else if type = "double" then some .double
  else if type = "string" then some .string
  else none

/-- `pb__get_constant_type`: the wire type that goes into a tag. -/
def pbGetConstantType (type : String) : ℕ :=
  if type = "uInt32" ∨ type = "sInt32" ∨ type = "int32" then 0
  else if type = "double" then 1
  else if type = "string" then 2
  else if type = "float" then 5
  else 2

/-- The types whose repeated fields are packed: `pb__get_type(t)` is not `0` and
not `PB_string`. -/
def pbIsPacked (type : String) : Bool :=
  match pbGetType type with
  | none => false
  | some .string => false
  | some _ => true

/-- The conversion of a `double` to `json_int_t`: truncation, with the processor's
out-of-range answer. -/
def cvtInt64 (x : Datum double) : ℤ :=
  let i := BinaryFloat.toInt x
  if -2 ^ 63 ≤ i ∧ i < 2 ^ 63 then i else -2 ^ 63

/-- An `int64_t` reinterpreted as `uint64_t`. -/
def asUInt64 (i : ℤ) : ℕ := (i % 2 ^ 64).toNat

/-- The conversion of a `double` to `uint32_t`: the low half of the 64-bit one. -/
def cvtUInt32 (x : Datum double) : ℕ := (cvtInt64 x % 2 ^ 32).toNat

/-! ## The output stream -/

/-- `pb_ostream_t`. -/
structure OStream : Type where
  /-- `callback` is `buf_write`; it is `NULL` on a counting stream -/
  writing : Bool
  /-- the bytes stored below the `state` pointer, from the start of the buffer -/
  out : Bytes
  /-- the size of the block that `state` points into -/
  capacity : ℕ
  /-- `max_size` -/
  maxSize : ℕ
  /-- `bytes_written` -/
  bytesWritten : ℕ
  deriving DecidableEq, Repr

/-- Why an encoder function did not return `1`. -/
inductive PbStop : Type where
  /-- `return 0` -/
  | refused
  /-- `strcmp` or `strlen` of `NULL` -/
  | nullString
  /-- `memcpy` leaves the buffer, or the block it copies from -/
  | overrun
  deriving DecidableEq, Repr

/-- The outcome of an encoder function. -/
abbrev Enc : Type := Except (PbStop × OStream) OStream

/-- `pb_ostream_from_buffer`; `pc_pb_encode` is given the size of its buffer. -/
def pbOstreamFromBuffer (bufsize : ℕ) : OStream := ⟨true, [], bufsize, bufsize, 0⟩

/-- The counting stream `{ 0, 0, 0, 0 }` of `pb_encode_submessage`. -/
def pbSizingStream : OStream := ⟨false, [], 0, 0, 0⟩

/-- `pb_write` of `count` bytes of `buf`. The sum is one of `size_t`, and `buf_write`
copies whatever passes the test. -/
def pbWrite (s : OStream) (buf : Bytes) (count : ℕ) : Enc :=
  let sum := (s.bytesWritten + count) % 2 ^ 64
  if s.writing then
    if s.maxSize < sum then .error (.refused, s)
    else if s.capacity < s.out.length + count ∨ buf.length < count then .error (.overrun, s)
    else .ok { s with out := s.out ++ buf.take count, bytesWritten := sum }
  else .ok { s with bytesWritten := sum }

/-! ## Scalars -/

/-- The `while (value)` loop of `pb_encode_varint`: every group gets the
continuation bit. Ten turns are enough for 64 bits. -/
def varintLoop : ℕ → ℕ → Bytes
  | 0, _ => []
  | n + 1, value =>
    if value = 0 then []
    else UInt8.ofNat ((value &&& 0x7f) ||| 0x80) :: varintLoop n (value >>> 7)

/-- `buffer[i - 1] &= 0x7F`. -/
def clearLastTopBit : Bytes → Bytes
  | [] => []
  | [b] => [b &&& 0x7f]
  | b :: bs => b :: clearLastTopBit bs

/-- The buffer `pb_encode_varint` writes for a 64-bit value. -/
def varintBytes (value : ℕ) : Bytes :=
  if value = 0 then [0] else clearLastTopBit (varintLoop 10 value)

/-- `pb_encode_varint`. -/
def pbEncodeVarint (s : OStream) (value : ℕ) : Enc :=
  let buffer := varintBytes (value % 2 ^ 64)
  pbWrite s buffer buffer.length

/-- The zig-zag map of `pb_encode_svarint`: `~(value << 1)` below zero. -/
def zigzag (value : ℤ) : ℕ :=
  if value < 0 then 2 ^ 64 - 1 - asUInt64 (2 * value) else asUInt64 (2 * value)

/-- `pb_encode_svarint`. -/
def pbEncodeSvarint (s : OStream) (value : ℤ) : Enc := pbEncodeVarint s (zigzag value)

/-- The `k` low bytes of `n`, lowest first. -/
def leBytes : ℕ → ℕ → Bytes
  | 0, _ => []
  | k + 1, n => UInt8.ofNat (n % 0x100) :: leBytes k (n / 0x100)

/-- `pb_encode_fixed32` of a float. -/
def pbEncodeFixed32 (s : OStream) (x : Datum BinaryFloat.single) : Enc :=
  pbWrite s (leBytes 4 x.toNat) 4

/-- `pb_encode_fixed64` of a double. -/
def pbEncodeFixed64 (s : OStream) (x : Datum double) : Enc :=
  pbWrite s (leBytes 8 x.toNat) 8

/-- `pb_encode_string`. -/
def pbEncodeString (s : OStream) (buffer : Bytes) (size : ℕ) : Enc := do
  let s ← pbEncodeVarint s size
  pbWrite s buffer size

/-- `int length = strlen(str)`, passed on as a `size_t`. -/
def stringLength (n : ℕ) : ℕ := asUInt64 (Int.bmod n (2 ^ 32))

/-! ## Tags -/

/-- The number `pb_encode_tag` writes. -/
def tagKey (wiretype fieldNumber : ℕ) : ℕ := wiretype ||| fieldNumber <<< 3 % 2 ^ 32

/-- `pb_encode_tag_for_field`. -/
def pbEncodeTagForField (s : OStream) (field : Json) : Enc :=
  match jsonStringValue (jsonObjectGet (some field) "type") with
  | none => .error (.nullString, s)
  | some type =>
    pbEncodeVarint s
      (tagKey (pbGetConstantType type)
        (cvtUInt32 (jsonNumberValue (jsonObjectGet (some field) "tag"))))

/-! ## Fields, arrays and submessages -/

/-- The lookup of a message type: in the level's `__messages`, else in `gprotos`. -/
def resolveMessage (gprotos messages : Json) (type : String) : Option Json :=
  match jsonObjectGet (some messages) type with
  | some sub => some sub
  | none => jsonObjectGet (some gprotos) ("message " ++ type)

/-- The stream behind a substream: its bytes are counted, its pointer taken over. -/
def mergeSub (s sub : OStream) : OStream :=
  { s with out := sub.out, bytesWritten := (s.bytesWritten + sub.bytesWritten) % 2 ^ 64 }

/-- `pb_encode_submessage`, with `enc` the run of `pb_encode` over the value. -/
def pbEncodeSubmessage (s : OStream) (enc : OStream → Enc) : Enc := do
  let size ← (match enc pbSizingStream with
    | .ok sub => .ok sub.bytesWritten
    | .error (stop, _) => .error (stop, s))
  let s ← pbEncodeVarint s size
  if ¬ s.writing then pbWrite s [] size
  else if s.maxSize < (s.bytesWritten + size) % 2 ^ 64 then .error (.refused, s)
  else
    match enc ⟨true, s.out, s.capacity, size, 0⟩ with
    | .error (stop, sub) => .error (stop, mergeSub s sub)
    | .ok sub =>
      if sub.bytesWritten ≠ size then .error (.refused, mergeSub s sub) else .ok (mergeSub s sub)

/-- `pb_encode_proto`, with `enc sub` the run of `pb_encode` over `value` at the
schema level `sub`. -/
def pbEncodeProto (gprotos protos proto value : Json) (enc : Json → OStream → Enc)
    (s : OStream) : Enc :=
  match jsonStringValue (jsonObjectGet (some proto) "type") with
  | none => .error (.nullString, s)
  | some type =>
    match pbGetType type with
    | some .uInt32 => pbEncodeVarint s (asUInt64 (cvtInt64 (jsonNumberValue (some value))))
    | some .int32 => pbEncodeSvarint s (cvtInt64 (jsonNumberValue (some value)))
    | some .sInt32 => pbEncodeSvarint s (cvtInt64 (jsonNumberValue (some value)))
    | some .float => pbEncodeFixed32 s (BinaryFloat.narrow (jsonNumberValue (some value)))
    | some .double => pbEncodeFixed64 s (jsonNumberValue (some value))
    | some .string =>
      match jsonStringValue (some value) with
      | none => .error (.nullString, s)
      | some str =>
        let buffer := utf8Bytes str
        pbEncodeString s buffer (stringLength buffer.length)
    | none =>
      match jsonObjectGet (some protos) "__messages" with
      | none => .ok s
      | some messages =>
        match resolveMessage gprotos messages type with
        | none => .error (.refused, s)
        | some sub => pbEncodeSubmessage s (enc sub)

/-- What `pb_encode_array` writes before the first element: the tag and the
element count of a packed array, nothing otherwise. -/
def pbEncodeArrayHead (proto : Json) (packed : Bool) (len : ℕ) (s : OStream) : Enc :=
  if packed then do
    let s ← pbEncodeTagForField s proto
    pbEncodeVarint s len
  else .ok s

mutual

/-- `pb_encode`. -/
def pbEncode (gprotos : Json) : Json → Json → OStream → Enc
  | .obj kvs, protos, s => pbEncodeFields gprotos kvs protos s
  | _, _, s => .ok s
termination_by structural x => x

/-- The iterator loop of `pb_encode`. -/
def pbEncodeFields (gprotos : Json) : List (String × Json) → Json → OStream → Enc
  | [], _, s => .ok s
  | (key, value) :: kvs, protos, s => do
    let s ← (match jsonObjectGet (some protos) key with
      | none => .error (.refused, s)
      | some proto =>
        match jsonStringValue (jsonObjectGet (some proto) "option") with
        | none => .error (.nullString, s)
        | some option =>
          if option = "required" ∨ option = "optional" then do
            let s ← pbEncodeTagForField s proto
            pbEncodeProto gprotos protos proto value (fun sub s => pbEncode gprotos value sub s) s
          else if option = "repeated" then pbEncodeArray gprotos value protos proto s
          else .ok s)
    pbEncodeFields gprotos kvs protos s
termination_by structural x => x

/-- `pb_encode_array`, behind the `json_is_array` test of its caller. -/
def pbEncodeArray (gprotos : Json) : Json → Json → Json → OStream → Enc
  | .arr xs, protos, proto, s =>
    match jsonStringValue (jsonObjectGet (some proto) "type") with
    | none => .error (.nullString, s)
    | some type => do
      let s ← pbEncodeArrayHead proto (pbIsPacked type) xs.length s
      pbEncodeElems gprotos xs protos proto (pbIsPacked type) s
  | _, _, _, s => .ok s
termination_by structural x => x

/-- The element loop of `pb_encode_array`: unpacked elements get a tag each. -/
def pbEncodeElems (gprotos : Json) : List Json → Json → Json → Bool → OStream → Enc
  | [], _, _, _, s => .ok s
  | x :: xs, protos, proto, packed, s => do
    let s ← (if packed then .ok s else pbEncodeTagForField s proto)
    let s ← pbEncodeProto gprotos protos proto x (fun sub s => pbEncode gprotos x sub s) s
    pbEncodeElems gprotos xs protos proto packed s
termination_by structural x => x

end

/-- `pc_pb_encode` into a buffer of `len` bytes: the `written` bytes, or why it
returned `0` and what the buffer then holds. -/
def pcPbEncode (len : ℕ) (gprotos protos msg : Json) : Except (PbStop × OStream) Bytes :=
  match pbEncode gprotos msg protos (pbOstreamFromBuffer len) with
  | .ok s => .ok (s.out.take s.bytesWritten)
  | .error e => .error e

end Libpomelo
