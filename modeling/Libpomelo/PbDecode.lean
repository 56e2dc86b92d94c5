import Libpomelo.PbEncode

/-!
# The protobuf decoder (`pb-decode.c`)

The decoder walks one buffer with a read pointer and a count of bytes it may
still read; a submessage gets a copy of both with the count cut down to its
length prefix. Wire types are read and ignored: the schema alone decides how the
payload of a tag is read.

Two details of the loop in `pb_decode` are visible in everything above it: a zero
tag ends a message, and so does a tag that cannot be read once no byte is left.

`pbDecode` takes a bound on its turns (loop turns and nested messages together);
the number of bytes is always enough, since each turn reads at least one.
-/

namespace Libpomelo

open BinaryFloat (Datum double single)

/-! ## The input stream -/

/-- `pb_istream_t` over a fixed buffer. -/
structure IStream : Type where
  /-- offset of the `state` pointer in the buffer -/
  pos : ℕ
  /-- `bytes_left` -/
  bytesLeft : ℕ
  /-- one past the highest offset read so far -/
  reach : ℕ
  deriving DecidableEq, Repr

/-- The stream after `count` more bytes. -/
def IStream.advance (s : IStream) (count : ℕ) : IStream :=
  ⟨s.pos + count, s.bytesLeft - count, if count = 0 then s.reach else max s.reach (s.pos + count)⟩

/-- `pb_istream_from_buffer`. -/
def pbIstreamFromBuffer (bufsize : ℕ) : IStream := ⟨0, bufsize, 0⟩

/-- Why a decoder function did not return `1`. -/
inductive PbDecStop : Type where
  /-- `return 0` -/
  | refused
  /-- `strcmp` of `NULL`, or a lookup with the key `NULL` -/
  | nullString
  /-- a store behind the end of an allocation -/
  | badStore
  /-- the bound on the turns was hit -/
  | outOfTurns
  deriving DecidableEq, Repr

/-- The outcome of a decoder function: the filled result and the stream, or why it
stopped and the stream at that point. -/
abbrev Dec : Type := Except (PbDecStop × IStream) (Json × IStream)

section Buffer

variable (buf : Bytes)

/-- `pb_read` with `buf_read`; `none` is `end-of-stream`. -/
def pbRead (s : IStream) (count : ℕ) : Option Bytes × IStream :=
  if s.bytesLeft < count then (none, s)
  else (some ((buf.drop s.pos).take count), s.advance count)

/-! ## Scalars -/

/-- The loop of `pb_decode_varint`, with the turns it has left below 64 bits. -/
def varintRead : ℕ → ℕ → ℕ → IStream → Option ℕ × IStream
  | 0, _, _, s => (none, s)
  | n + 1, bitpos, dest, s =>
    match pbRead buf s 1 with
    | (none, s) => (none, s)
    | (some bytes, s) =>
      let byte := (bytes.headD 0).toNat
      let dest := dest ||| (byte &&& 0x7f) <<< bitpos % 2 ^ 64
      if byte &&& 0x80 = 0 then (some dest, s) else varintRead n (bitpos + 7) dest s

/-- `pb_decode_varint`. -/
def pbDecodeVarint (s : IStream) : Option ℕ × IStream := varintRead buf 10 0 0 s

/-- `pb_decode_varint32`: the low half of the 64-bit value. -/
def pbDecodeVarint32 (s : IStream) : Option ℕ × IStream :=
  ((pbDecodeVarint buf s).1.map (· % 2 ^ 32), (pbDecodeVarint buf s).2)

/-- The inverse zig-zag of `pb_decode_svarint`. -/
def unzigzag (value : ℕ) : ℤ :=
  if value &&& 1 = 1 then -((value >>> 1 : ℕ) : ℤ) - 1 else (value >>> 1 : ℕ)

/-- `pb_decode_svarint`. -/
def pbDecodeSvarint (s : IStream) : Option ℤ × IStream :=
  ((pbDecodeVarint buf s).1.map unzigzag, (pbDecodeVarint buf s).2)

/-- A `uint64_t` reinterpreted as `json_int_t`. -/
def asInt64 (n : ℕ) : ℤ := Int.bmod n (2 ^ 64)

/-- The number whose bytes are given lowest first. -/
def leValue : Bytes → ℕ
  | [] => 0
  | b :: bs => b.toNat + 0x100 * leValue bs

/-- `pb_decode_fixed32` into a float. -/
def pbDecodeFixed32 (s : IStream) : Option (Datum single) × IStream :=
  ((pbRead buf s 4).1.map fun bytes => BinaryFloat.ofNat single (leValue bytes),
    (pbRead buf s 4).2)

/-- `pb_decode_fixed64` into a double. -/
def pbDecodeFixed64 (s : IStream) : Option (Datum double) × IStream :=
  ((pbRead buf s 8).1.map fun bytes => BinaryFloat.ofNat double (leValue bytes),
    (pbRead buf s 8).2)

/-- The string branch of `pb_decode_proto`: `pb_decode_strlen`, `malloc(str_len + 1)`
with the sum in `uint32_t`, and `pb_decode_string`, which stores the terminating
zero at `str_len` whether or not the read succeeded. -/
def pbDecodeStringValue (s : IStream) : Except (PbDecStop × IStream) (Bytes × IStream) :=
  match pbDecodeVarint32 buf s with
  | (none, s) => .error (.refused, s)
  | (some len, s) =>
    if (len + 1) % 2 ^ 32 ≤ len then .error (.badStore, s)
    else
      match pbRead buf s len with
      | (none, s) => .error (.refused, s)
      | (some text, s) => .ok (text, s)

/-! ## Tags -/

/-- The three ways `pb_decode_tag` returns. -/
inductive TagResult : Type where
  /-- a tag number -/
  | tag (n : ℕ)
  /-- `0` with `eof` set -/
  | eof
  /-- `0` with `eof` clear -/
  | fail
  deriving DecidableEq, Repr

/-- `pb_decode_tag`. -/
def pbDecodeTag (s : IStream) : TagResult × IStream :=
  match pbDecodeVarint32 buf s with
  | (none, s) => (if s.bytesLeft = 0 then .eof else .fail, s)
  | (some temp, s) => (if temp = 0 then .eof else .tag (temp >>> 3), s)

/-! ## Fields, arrays and submessages -/

/-- `json_is_object(result) ? set : append`. -/
def putValue (result : Json) (key : Option String) (v : Option Json) : Json :=
  if jsonIsObject result then
    match key with
    | some key => jsonObjectSet result key v
    | none => result
  else jsonArrayAppend result v

/-- Store a scalar that was read, or give up if it could not be. -/
def putScalar (result : Json) (key : Option String) (r : Option (Option Json) × IStream) : Dec :=
  match r with
  | (none, s) => .error (.refused, s)
  | (some v, s) => .ok (putValue result key v, s)

/-- `pb_decode_submessage`, with `dec` the run of `pb_decode` into `dest`. -/
def pbDecodeSubmessage (dec : IStream → Dec) (s : IStream) : Dec :=
  match pbDecodeVarint32 buf s with
  | (none, s) => .error (.refused, s)
  | (some size, s) =>
    if s.bytesLeft < size then .error (.refused, s)
    else
      match dec { s with bytesLeft := size } with
      | .error (stop, sub) => .error (stop, ⟨sub.pos, s.bytesLeft - size, sub.reach⟩)
      | .ok (dest, sub) => .ok (dest, ⟨sub.pos, s.bytesLeft - size, sub.reach⟩)

/-- `pb_decode_proto`, with `dec sub dest` the run of `pb_decode` at the schema
level `sub` into `dest`. -/
def pbDecodeProto (gprotos proto protos : Json) (dec : Json → Json → IStream → Dec)
    (key : Option String) (result : Json) (s : IStream) : Dec :=
  match jsonStringValue (jsonObjectGet (some proto) "type") with
  | none => .error (.nullString, s)
  | some type =>
    match pbGetType type with
    | some .uInt32 =>
      putScalar result key
        ((pbDecodeVarint buf s).1.map (fun n => some (.int (asInt64 n))), (pbDecodeVarint buf s).2)
    | some .int32 | some .sInt32 =>
      putScalar result key
        ((pbDecodeSvarint buf s).1.map (fun i => some (.int i)), (pbDecodeSvarint buf s).2)
    | some .float =>
      putScalar result key
        ((pbDecodeFixed32 buf s).1.map (fun x => jsonReal (BinaryFloat.widen x)),
          (pbDecodeFixed32 buf s).2)
    | some .double =>
      putScalar result key ((pbDecodeFixed64 buf s).1.map jsonReal, (pbDecodeFixed64 buf s).2)
    | some .string => do
      let (text, s) ← pbDecodeStringValue buf s
      pure (putValue result key (jsonString text), s)
    | none =>
      match jsonObjectGet (some protos) "__messages" with
      | none => .ok (result, s)
      | some messages =>
        match resolveMessage gprotos messages type with
        | none => .error (.refused, s)
        | some sub =>
          match key with
          | none => pbDecodeSubmessage buf (dec sub result) s
          | some key => do
            let (value, s) ← pbDecodeSubmessage buf (dec sub (.obj [])) s
            pure (jsonObjectSet result key (some value), s)

/-- The element loop of a packed array. -/
def pbDecodePacked (read : Json → IStream → Dec) : ℕ → Json → IStream → Dec
  | 0, array, s => .ok (array, s)
  | n + 1, array, s => do
    let (array, s) ← read array s
    pbDecodePacked read n array s

/-- `pb_decode_array`. -/
def pbDecodeArray (gprotos proto protos : Json) (dec : Json → Json → IStream → Dec)
    (key : String) (result : Json) (s : IStream) : Dec :=
  match jsonStringValue (jsonObjectGet (some proto) "type") with
  | none => .error (.nullString, s)
  | some type => do
    let array := (jsonObjectGet (some result) key).getD (.arr [])
    let (array, s) ←
      (if pbIsPacked type then
        match pbDecodeVarint32 buf s with
        | (none, s) => .error (.refused, s)
        | (some size, s) =>
          pbDecodePacked (pbDecodeProto buf gprotos proto protos dec (some key)) size array s
      else if pbGetType type = some .string then
        pbDecodeProto buf gprotos proto protos dec (some key) array s
      else do
        let (value, s) ← pbDecodeProto buf gprotos proto protos dec none (.obj []) s
        pure (jsonArrayAppend array (some value), s))
    pure (jsonObjectSet result key (some array), s)

/-- The body of the loop in `pb_decode`, after the tag. -/
def pbDecodeField (gprotos protos : Json) (dec : Json → Json → IStream → Dec) (tag : ℕ)
    (result : Json) (s : IStream) : Dec :=
  match jsonObjectGet (some protos) "__tags" with
  | none => .error (.refused, s)
  | some tags =>
    match jsonObjectGet (some tags) (decimal tag) with
    | none => .error (.refused, s)
    | some entry =>
      match jsonStringValue (some entry) with
      | none => .error (.nullString, s)
      | some name =>
        match jsonObjectGet (some protos) name with
        | none => .error (.refused, s)
        | some proto =>
          match jsonStringValue (jsonObjectGet (some proto) "option") with
          | none => .error (.nullString, s)
          | some option =>
            if option = "optional" ∨ option = "required" then
              pbDecodeProto buf gprotos proto protos dec (some name) result s
            else if option = "repeated" then
              pbDecodeArray buf gprotos proto protos dec name result s
            else .ok (result, s)

/-- `pb_decode`, for at most `turns` loop turns and nested messages. -/
def pbDecode (gprotos : Json) : ℕ → Json → Json → IStream → Dec
  | 0, _, result, s => if s.bytesLeft = 0 then .ok (result, s) else .error (.outOfTurns, s)
  | turns + 1, protos, result, s =>
    if s.bytesLeft = 0 then .ok (result, s)
    else
      match pbDecodeTag buf s with
      | (.eof, s) => .ok (result, s)
      | (.fail, s) => .error (.refused, s)
      | (.tag tag, s) => do
        let (result, s) ←
          pbDecodeField buf gprotos protos (pbDecode gprotos turns) tag result s
        pbDecode gprotos turns protos result s

end Buffer

/-- `pc_pb_decode` into `result`. -/
def pcPbDecode (buf : Bytes) (gprotos protos result : Json) : Except PbDecStop Json :=
  match pbDecode buf gprotos buf.length protos result (pbIstreamFromBuffer buf.length) with
  | .ok (result, _) => .ok result
  | .error (stop, _) => .error stop

end Libpomelo
