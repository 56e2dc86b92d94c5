import Libpomelo.Package

/-!
# The message layer (`message.c`)

Inside a data package sits one message: a flag byte (type and whether the route is
a code), the id for requests and responses, the route as a string or as a 16-bit
code, and the body.

The encoders compute the size of the buffer first and then store piece after piece
at a running offset; `MsgBuf` keeps the two apart, the allocated length and the
bytes that were stored.

The decoder checks its input length in some places only. Reads outside the data,
shifts by the width of an `int` or more and copies into `NULL` are outcomes of the
model (`MsgStop`), not excluded by it. `char` is signed: a route length byte from
128 up is sign-extended to a `size_t`.
-/

namespace Libpomelo

/-! ## Types -/

/-- `pc_msg_type`. -/
inductive MsgType : Type where
  | request | notify | response | push
  deriving DecidableEq, Repr

/-- The number of a type. -/
def MsgType.code : MsgType → ℕ
  | .request => 0
  | .notify => 1
  | .response => 2
  | .push => 3

/-- `PC_MSG_VALIDATE` and the cast to `pc_msg_type`. -/
def MsgType.ofCode : ℕ → Option MsgType
  | 0 => some .request
  | 1 => some .notify
  | 2 => some .response
  | 3 => some .push
  | _ => none

/-- `PC_MSG_HAS_ID`. -/
def MsgType.hasId (type : MsgType) : Bool := type = .request ∨ type = .response

/-- `PC_MSG_HAS_ROUTE`. -/
def MsgType.hasRoute (type : MsgType) : Bool := type ≠ .response

/-- `malloc(size)`; sizes beyond `PTRDIFF_MAX` always fail. -/
def mallocSize (ms : List Bool) (size : ℕ) : Bool × List Bool :=
  ((malloc ms).1 && decide (size < 2 ^ 63), (malloc ms).2)

/-! ## Encoding -/

/-- A `pc_buf_t` in the making: the size of the allocation and the bytes stored from
its start on. -/
structure MsgBuf : Type where
  /-- `len` -/
  len : ℕ
  /-- the stored bytes -/
  base : Bytes
  deriving DecidableEq, Repr

/-- The loop of `pc__msg_id_length`; a `uint32_t` takes at most five turns. -/
def msgIdLengthLoop : ℕ → ℕ → ℕ
  | 0, _ => 0
  | n + 1, id => 1 + if 0 < id >>> 7 then msgIdLengthLoop n (id >>> 7) else 0

/-- `pc__msg_id_length`. -/
def msgIdLength (id : ℕ) : ℕ := msgIdLengthLoop 5 id

/-- `pc__msg_encode_flag`. -/
def msgEncodeFlag (type : MsgType) (compressRoute : Bool) : Bytes :=
  [UInt8.ofNat (type.code <<< 1 ||| compressRoute.toNat)]

/-- The loop of `pc__msg_encode_id`. -/
def msgEncodeIdLoop : ℕ → ℕ → Bytes
  | 0, _ => []
  | n + 1, id =>
    if id / 128 ≠ 0 then UInt8.ofNat (id % 128 + 128) :: msgEncodeIdLoop n (id / 128)
    else [UInt8.ofNat (id % 128)]

/-- `pc__msg_encode_id`. -/
def msgEncodeId (id : ℕ) : Bytes := msgEncodeIdLoop 5 id

/-- `pc__msg_encode_route`: one length byte, then `route_len` bytes of the text. -/
def msgEncodeRouteText (route : Bytes) (routeLen : ℕ) : Bytes :=
  UInt8.ofNat (routeLen &&& 0xff) :: route.take routeLen

/-- `pc_msg_encode_route`. -/
def msgEncodeRoute (ms : List Bool) (id : ℕ) (type : MsgType) (route msg : Bytes) :
    Option MsgBuf × List Bool :=
  let idLen := if type.hasId then msgIdLength id else 0
  let routeLen := if type.hasRoute then route.length % 2 ^ 16 else 0
  let msgLen := 1 + idLen + 1 + routeLen + msg.length
  let (ok, ms) := mallocSize ms msgLen
  if ok then
    (some ⟨msgLen, msgEncodeFlag type false ++ (if type.hasId then msgEncodeId id else []) ++
      (if type.hasRoute then msgEncodeRouteText route routeLen else []) ++ msg⟩, ms)
  else (none, ms)

/-- The two bytes of a route code. -/
def msgRouteCode (routeCode : ℤ) : Bytes :=
  [UInt8.ofNat (routeCode / 0x100 % 0x100).toNat, UInt8.ofNat (routeCode % 0x100).toNat]

/-- `pc_msg_encode_code`. -/
def msgEncodeCode (ms : List Bool) (id : ℕ) (type : MsgType) (routeCode : ℤ) (msg : Bytes) :
    Option MsgBuf × List Bool :=
  let idLen := if type.hasId then msgIdLength id else 0
  let routeLen := if type.hasRoute then 2 else 0
  let msgLen := 1 + idLen + routeLen + msg.length
  let (ok, ms) := mallocSize ms msgLen
  if ok then
    (some ⟨msgLen, msgEncodeFlag type true ++ (if type.hasId then msgEncodeId id else []) ++
      (if type.hasRoute then msgRouteCode routeCode else []) ++ msg⟩, ms)
  else (none, ms)

/-! ## Decoding -/

/-- Why `pc_msg_decode` did not return a message. -/
inductive MsgStop : Type where
  /-- `NULL` -/
  | null
  /-- a read behind the data -/
  | overread
  /-- a shift by 32 or more -/
  | badShift
  /-- a copy into `NULL` -/
  | badCopy
  deriving DecidableEq, Repr

/-- `pc__msg_raw_t`; the two readings of the `route` union are two fields. -/
structure RawMsg : Type where
  /-- `id` -/
  id : ℕ
  /-- `type` -/
  type : MsgType
  /-- `compressRoute` -/
  compressRoute : Bool
  /-- `route.route_code` -/
  routeCode : ℕ
  /-- `route.route_str`, `none` for `NULL` -/
  routeStr : Option Bytes
  /-- `body` -/
  body : Bytes
  deriving DecidableEq, Repr

/-- The id loop of `pc_msg_decode` in turn `i`: the id and the unread bytes. No length
is checked. -/
def msgDecodeId : Bytes → ℕ → ℕ → Except MsgStop (ℕ × Bytes)
  | [], _, _ => .error .overread
  | m :: rest, i, id =>
    if 32 ≤ 7 * i then .error .badShift
    else
      let id := (id + (m.toNat &&& 0x7f) * 2 ^ (7 * i)) % 2 ^ 32
      if 128 ≤ m.toNat then msgDecodeId rest (i + 1) id else .ok (id, rest)

/-- The route of `pc_msg_decode`: code, string, unread bytes, rest of the supply. -/
def msgDecodeRoute (ms : List Bool) (compressRoute : Bool) (len : ℕ) (rest : Bytes) :
    Except MsgStop (ℕ × Option Bytes × Bytes × List Bool) :=
  if compressRoute then
    match rest with
    | hi :: lo :: rest => .ok (hi.toNat <<< 8 ||| lo.toNat, none, rest, ms)
    | _ => .error .null
  else
    match rest with
    | [] => .error .null
    | b :: rest =>
      let routeLen := charToSize b
      let offset := len - rest.length
      if routeLen = 0 then .ok (0, none, rest, ms)
      else
        let (ok, ms) := mallocSize ms ((routeLen + 1) % 2 ^ 64)
        if ¬ ok then .error .null
        else if len < (offset + routeLen) % 2 ^ 64 then .error .null
        else if rest.length < routeLen then .error .overread
        else .ok (0, some (rest.take routeLen), rest.drop routeLen, ms)

/-- `pc_msg_decode`. -/
def msgDecode (ms : List Bool) (data : Bytes) : Except MsgStop (RawMsg × List Bool) := do
  let (ok, ms) := malloc ms
  if ¬ ok then .error .null
  else
    match data with
    | [] => .error .null
    | flag :: rest =>
      match MsgType.ofCode (flag.toNat >>> 1) with
      | none => .error .null
      | some type => do
        let compressRoute := decide (flag.toNat &&& 1 = 1)
        let (id, rest) ←
          (if type.hasId then if rest = [] then .error .null else msgDecodeId rest 0 0
           else .ok (0, rest))
        let (routeCode, routeStr, rest, ms) ←
          (if type.hasRoute then msgDecodeRoute ms compressRoute data.length rest
           else .ok (0, none, rest, ms))
        if rest = [] then .ok (⟨id, type, compressRoute, routeCode, routeStr, rest⟩, ms)
        else
          let (ok, ms) := malloc ms
          if ok then .ok (⟨id, type, compressRoute, routeCode, routeStr, rest⟩, ms)
          else .error .badCopy

/-- Only a message whose type has an id carries one. -/
theorem msgDecode_hasId {ms ms' : List Bool} {data : Bytes} {raw : RawMsg}
    (h : msgDecode ms data = .ok (raw, ms')) (hid : 0 < raw.id) : raw.type.hasId = true := by
  rw [msgDecode] at h
  by_contra hno
  rcases hm : malloc ms with ⟨ok, ms₁⟩
  rw [hm] at h
  dsimp only at h
  split at h
  · exact absurd h (by simp)
  rcases data with _ | ⟨flag, rest⟩
  · exact absurd h (by simp)
  dsimp only at h
  split at h
  · exact absurd h (by simp)
  next type htype =>
    simp only [bind, Except.bind] at h
    split at h
    · exact absurd h (by simp)
    next idr hidr =>
    split at h
    · exact absurd h (by simp)
    next rr hrr =>
    have hraw : raw.type = type ∧ raw.id = idr.1 := by
      split at h
      · obtain ⟨rfl, -⟩ := Prod.mk.inj (Except.ok.inj h)
        exact ⟨rfl, rfl⟩
      · split at h
        · obtain ⟨rfl, -⟩ := Prod.mk.inj (Except.ok.inj h)
          exact ⟨rfl, rfl⟩
        · exact absurd h (by simp)
    rw [hraw.1] at hno
    rw [if_neg hno] at hidr
    obtain rfl := Except.ok.inj hidr
    exact absurd hraw.2 (Nat.ne_of_gt hid)

end Libpomelo
