import Libpomelo.Leb128
import Libpomelo.Outcome
import Libpomelo.PbDecode

/-!
# The protobuf wire format, one value at a time

What the encoder puts on the wire for one scalar, and that the decoder reads it
back, whatever stands before and behind it in the buffer.

* `Emits enc w`: the encoder function `enc` appends exactly `w`, on a counting
  stream as on a storing one, and fails when `w` does not fit.
* `At buf s w`: the bytes `w` lie at the read pointer, within what may be read.

Both compose along `++`, and every function of the two files gets one lemma in
these terms.
-/

namespace Libpomelo

open BinaryFloat (Datum double single)

/-- The last step of a decoder function. -/
theorem pure_pair_eq_ok {ε α β : Type} {a : α × β} {b : α} {c : β} :
    (pure a : Except ε (α × β)) = .ok (b, c) ↔ a.1 = b ∧ a.2 = c := by
  obtain ⟨a₁, a₂⟩ := a
  constructor
  · intro h
    exact Prod.mk.inj (Except.ok.inj h)
  · rintro ⟨rfl, rfl⟩
    rfl

/-- The submessage that was decoded, when one was. -/
theorem pbDecodeSubmessage_eq_ok {buf : Bytes} {dec : IStream → Dec} {s s' : IStream} {r : Json} :
    pbDecodeSubmessage buf dec s = .ok (r, s') ↔
      ∃ size s₁ sub, pbDecodeVarint32 buf s = (some size, s₁) ∧ size ≤ s₁.bytesLeft ∧
        dec { s₁ with bytesLeft := size } = .ok (r, sub) ∧
        s' = ⟨sub.pos, s₁.bytesLeft - size, sub.reach⟩ := by
  rw [pbDecodeSubmessage]
  rcases pbDecodeVarint32 buf s with ⟨_ | size, s₁⟩
  · simp
  · by_cases hroom : s₁.bytesLeft < size
    · simp [hroom, Nat.not_le.mpr hroom]
    · rcases hdec : dec { s₁ with bytesLeft := size } with ⟨stop, sub⟩ | ⟨dest, sub⟩
      · simp [hroom, hdec]
      · simp only [hroom, if_false, hdec, Except.ok.injEq, Prod.mk.injEq]
        constructor
        · rintro ⟨rfl, rfl⟩
          exact ⟨size, s₁, sub, ⟨rfl, rfl⟩, Nat.not_lt.mp hroom, hdec, rfl⟩
        · rintro ⟨size', s₁', sub', ⟨hsize, rfl⟩, -, hdec', rfl⟩
          obtain rfl := Option.some.inj hsize
          obtain ⟨rfl, rfl⟩ := Prod.mk.inj (Except.ok.inj (hdec.symm.trans hdec'))
          exact ⟨rfl, rfl⟩

/-- The result of `pc_pb_decode` is that of its loop. -/
theorem pcPbDecode_eq_ok {buf : Bytes} {gprotos protos result r : Json} :
    pcPbDecode buf gprotos protos result = .ok r ↔
      ∃ s, pbDecode buf gprotos buf.length protos result (pbIstreamFromBuffer buf.length) =
        .ok (r, s) := by
  rw [pcPbDecode]
  rcases pbDecode buf gprotos buf.length protos result (pbIstreamFromBuffer buf.length) with
    ⟨stop, s⟩ | ⟨r', s⟩
  · simp
  · simp

/-! ## Varints -/

/-- A byte is a number below 256. -/
theorem toNat_ofNat_of_lt {n : ℕ} (h : n < 256) : (UInt8.ofNat n).toNat = n := by
  simp [UInt8.toNat_ofNat', Nat.mod_eq_of_lt h]

/-- The mask of a group. -/
theorem and_127 (n : ℕ) : n &&& 0x7f = n % 128 := Nat.and_two_pow_sub_one_eq_mod n 7

/-- The mask of the continuation bit, set and clear. -/
theorem and_128_of_lt {n : ℕ} (h : n < 128) : (n + 128) &&& 0x80 = 128 ∧ n &&& 0x80 = 0 := by
  have hall : ∀ m < 128, (m + 128) &&& 0x80 = 128 ∧ m &&& 0x80 = 0 := by decide
  exact hall n h

/-- Setting the continuation bit of a group adds it. -/
theorem or_128_of_lt {n : ℕ} (h : n < 128) : n ||| 0x80 = n + 128 := by
  have hall : ∀ m < 128, m ||| 0x80 = m + 128 := by decide
  exact hall n h

/-- Only the last byte is touched. -/
theorem clearLastTopBit_cons {b : UInt8} {bs : Bytes} (h : bs ≠ []) :
    clearLastTopBit (b :: bs) = b :: clearLastTopBit bs := by
  cases bs with
  | nil => exact absurd rfl h
  | cons b' bs => rfl

/-- The loop of `pb_encode_varint`, with the last byte's top bit cleared. -/
theorem clearLastTopBit_varintLoop {k n : ℕ} (hpos : 0 < n) (h : n < 128 ^ k) :
    clearLastTopBit (varintLoop k n) = Leb128.encode n := by
  induction k generalizing n with
  | zero => simp at h; omega
  | succ k ih =>
    have hmod : n % 128 < 128 := Nat.mod_lt _ (by decide)
    have hshift : n >>> 7 = n / 128 := Nat.shiftRight_eq_div_pow n 7
    rw [varintLoop, if_neg (by omega), and_127, or_128_of_lt hmod, hshift]
    rcases lt_or_ge n 128 with hn | hn
    · -- the only group: nothing is left for another turn
      have hdiv : n / 128 = 0 := Nat.div_eq_of_lt hn
      have hnil : varintLoop k (n / 128) = [] := by
        rw [hdiv]
        cases k <;> simp [varintLoop]
      have hclear : UInt8.ofNat (n % 128 + 128) &&& 0x7f = UInt8.ofNat n := by
        rw [Nat.mod_eq_of_lt hn, ← UInt8.toNat_inj, UInt8.toNat_and,
          toNat_ofNat_of_lt (by omega), toNat_ofNat_of_lt (by omega)]
        have hall : ∀ m < 128, (m + 128) &&& (0x7f : UInt8).toNat = m := by decide
        exact hall n hn
      rw [hnil, Leb128.encode_of_lt hn, clearLastTopBit, hclear]
    · have hdiv : n / 128 < 128 ^ k := by
        rw [Nat.div_lt_iff_lt_mul (by decide)]
        rwa [pow_succ] at h
      have hpos' : 0 < n / 128 := Nat.div_pos hn (by decide)
      have hne : varintLoop k (n / 128) ≠ [] := by
        intro hnil
        have := ih hpos' hdiv
        rw [hnil] at this
        exact Leb128.encode_ne_nil _ this.symm
      rw [clearLastTopBit_cons hne, ih hpos' hdiv, Leb128.encode_of_le hn]

/-- `pb_encode_varint` writes the shortest text. -/
theorem varintBytes_eq {n : ℕ} (h : n < 2 ^ 64) : varintBytes n = Leb128.encode n := by
  unfold varintBytes
  split
  · next h0 =>
    subst h0
    rw [Leb128.encode_of_lt (by decide)]
    rfl
  · next h0 =>
    exact clearLastTopBit_varintLoop (by omega) (h.trans (by decide))

/-! ## Reading what lies at the pointer -/

/-- The bytes `w` lie at the read pointer of `s` and may all be read. -/
def At (buf : Bytes) (s : IStream) (w : Bytes) : Prop :=
  w <+: buf.drop s.pos ∧ w.length ≤ s.bytesLeft

@[simp] theorem IStream.advance_zero (s : IStream) : s.advance 0 = s := by
  simp [IStream.advance]

@[simp] theorem IStream.advance_pos (s : IStream) (k : ℕ) : (s.advance k).pos = s.pos + k := rfl

@[simp] theorem IStream.advance_bytesLeft (s : IStream) (k : ℕ) :
    (s.advance k).bytesLeft = s.bytesLeft - k := rfl

/-- Two advances in a row are one. -/
theorem IStream.advance_advance (s : IStream) (j k : ℕ) :
    (s.advance j).advance k = s.advance (j + k) := by
  rcases Nat.eq_zero_or_pos j with rfl | hj
  · simp
  rcases Nat.eq_zero_or_pos k with rfl | hk
  · simp
  have hj0 : j ≠ 0 := hj.ne'
  have hk0 : k ≠ 0 := hk.ne'
  simp only [IStream.advance, hj0, hk0, if_false, Nat.add_eq_zero_iff, false_and]
  congr 1
  all_goals omega

/-- The first part of what lies at the pointer lies there. -/
theorem At.left {buf : Bytes} {s : IStream} {v w : Bytes} (h : At buf s (v ++ w)) : At buf s v :=
  ⟨(List.prefix_append v w).trans h.1, by
    have := h.2
    rw [List.length_append] at this
    omega⟩

/-- The second part lies behind the first. -/
theorem At.right {buf : Bytes} {s : IStream} {v w : Bytes} (h : At buf s (v ++ w)) :
    At buf (s.advance v.length) w := by
  obtain ⟨⟨r, hr⟩, hlen⟩ := h
  rw [List.length_append] at hlen
  refine ⟨⟨r, ?_⟩, by simp only [IStream.advance_bytesLeft]; omega⟩
  rw [IStream.advance_pos, ← List.drop_drop, ← hr, List.append_assoc, List.drop_left]

/-- The bytes stay readable on a stream that is cut down, but not too far. -/
theorem At.of_bytesLeft {buf : Bytes} {s : IStream} {w : Bytes} (h : At buf s w) {k : ℕ}
    (hk : w.length ≤ k) : At buf { s with bytesLeft := k } w := ⟨h.1, hk⟩

/-- `pb_read` finds them. -/
theorem pbRead_at {buf : Bytes} {s : IStream} {w : Bytes} (h : At buf s w) :
    pbRead buf s w.length = (some w, s.advance w.length) := by
  have htake : (buf.drop s.pos).take w.length = w := (List.prefix_iff_eq_take.1 h.1).symm
  rw [pbRead, if_neg (not_lt.2 h.2), htake]

/-- A group that is put above the earlier ones adds its power. -/
theorem or_shiftLeft {d b k : ℕ} (hd : d < 2 ^ k) : d ||| b <<< k = d + b * 2 ^ k := by
  rw [Nat.shiftLeft_eq, Nat.or_comm, mul_comm, ← Nat.two_pow_add_eq_or_of_lt hd, Nat.add_comm]

/-- The loop of `pb_decode_varint` on a text that still fits below 64 bits. -/
theorem varintRead_at {buf : Bytes} {t k d n : ℕ} {s : IStream} (hlen : (Leb128.encode n).length ≤ t)
    (hd : d < 2 ^ k) (hn : d + n * 2 ^ k < 2 ^ 64) (h : At buf s (Leb128.encode n)) :
    varintRead buf t k d s =
      (some (d + n * 2 ^ k), s.advance (Leb128.encode n).length) := by
  induction t generalizing k d n s with
  | zero => exact absurd hlen (not_le.2 (Leb128.length_encode_pos n))
  | succ t ih =>
    have hmod : n % 128 < 128 := Nat.mod_lt _ (by decide)
    rcases lt_or_ge n 128 with hlt | hge
    · -- last byte
      rw [Leb128.encode_of_lt hlt] at h ⊢
      have hread := pbRead_at h
      simp only [List.length_singleton] at hread ⊢
      have hshift : n <<< k % 2 ^ 64 = n <<< k := by
        rw [Nat.shiftLeft_eq]
        exact Nat.mod_eq_of_lt (by omega)
      simp only [varintRead, hread, List.headD_cons, toNat_ofNat_of_lt (n := n) (by omega), and_127,
        Nat.mod_eq_of_lt hlt, (and_128_of_lt hlt).2, if_true, hshift, or_shiftLeft hd]
    · rw [Leb128.encode_of_le hge] at h hlen ⊢
      have hread := pbRead_at (At.left (v := [_]) h)
      have hrest := At.right (v := [_]) h
      simp only [List.length_singleton] at hread hrest
      have hsplit : n * 2 ^ k = n % 128 * 2 ^ k + n / 128 * 2 ^ (k + 7) := by
        conv_lhs => rw [← Nat.mod_add_div n 128]
        ring
      have hshift : (n % 128) <<< k % 2 ^ 64 = (n % 128) <<< k := by
        rw [Nat.shiftLeft_eq]
        exact Nat.mod_eq_of_lt (by omega)
      have hd' : d + n % 128 * 2 ^ k < 2 ^ (k + 7) := by
        have : n % 128 * 2 ^ k ≤ 127 * 2 ^ k := Nat.mul_le_mul_right _ (by omega)
        rw [pow_add]
        omega
      have hne : (n % 128 + 128) &&& 0x80 ≠ 0 := by
        rw [(and_128_of_lt hmod).1]
        decide
      have hgroup : (n % 128 + 128) % 128 = n % 128 := by omega
      simp only [varintRead, hread, List.headD_cons,
        toNat_ofNat_of_lt (n := n % 128 + 128) (by omega), and_127, hgroup, hne, if_false,
        hshift, or_shiftLeft hd]
      rw [List.length_cons, Nat.succ_le_succ_iff] at hlen
      rw [ih hlen hd' (by omega) hrest, hsplit, IStream.advance_advance, List.length_cons,
        Nat.add_comm 1, ← Nat.add_assoc]

/-- `pb_decode_varint` reads back what `pb_encode_varint` wrote. -/
theorem pbDecodeVarint_at {buf : Bytes} {s : IStream} {n : ℕ} (hn : n < 2 ^ 64)
    (h : At buf s (varintBytes n)) :
    pbDecodeVarint buf s = (some n, s.advance (varintBytes n).length) := by
  rw [varintBytes_eq hn] at h ⊢
  have hlen : (Leb128.encode n).length ≤ 10 :=
    Leb128.length_encode_le (by decide) (hn.trans (by decide))
  have := varintRead_at hlen (k := 0) (d := 0) (by decide) (by simpa using hn) h
  simpa [pbDecodeVarint] using this

/-- `pb_decode_varint32` does so only below `2 ^ 32`. -/
theorem pbDecodeVarint32_at {buf : Bytes} {s : IStream} {n : ℕ} (hn : n < 2 ^ 64)
    (h : At buf s (varintBytes n)) :
    pbDecodeVarint32 buf s = (some (n % 2 ^ 32), s.advance (varintBytes n).length) := by
  simp [pbDecodeVarint32, pbDecodeVarint_at hn h]

/-! ## Conversions -/

/-- A cast to `uint64_t` is in range. -/
theorem asUInt64_lt (i : ℤ) : asUInt64 i < 2 ^ 64 := by
  unfold asUInt64
  omega

/-- There and back, the number of a `json_int_t` is the same. -/
theorem asInt64_asUInt64 {i : ℤ} (hlo : -2 ^ 63 ≤ i) (hhi : i < 2 ^ 63) :
    asInt64 (asUInt64 i) = i := by
  unfold asInt64 asUInt64
  rw [Int.bmod_def]
  split <;> omega

/-- A zig-zag code is a `uint64_t`. -/
theorem zigzag_lt (i : ℤ) : zigzag i < 2 ^ 64 := by
  unfold zigzag
  have := asUInt64_lt (2 * i)
  split <;> omega

/-- The decoder undoes the zig-zag of the encoder. -/
theorem unzigzag_zigzag {i : ℤ} (hlo : -2 ^ 63 ≤ i) (hhi : i < 2 ^ 63) :
    unzigzag (zigzag i) = i := by
  unfold unzigzag
  rw [Nat.and_one_is_mod, Nat.shiftRight_eq_div_pow]
  unfold zigzag asUInt64
  split <;> split <;> omega

/-- Up to `2 ^ 53` a `double` holds every integer. -/
theorem cvtInt64_ofInt {i : ℤ} (h : i.natAbs ≤ 2 ^ 53) : cvtInt64 (BinaryFloat.ofInt i) = i := by
  unfold cvtInt64
  rw [BinaryFloat.toInt_ofInt h]
  exact if_pos ⟨by omega, by omega⟩

theorem cvtInt64_int {i : ℤ} (h : i.natAbs ≤ 2 ^ 53) :
    cvtInt64 (jsonNumberValue (some (.int i))) = i := cvtInt64_ofInt h

/-- The cast of an integer in range to `uint32_t` is exact. -/
theorem cvtUInt32_int {n : ℕ} (h : n < 2 ^ 32) :
    cvtUInt32 (jsonNumberValue (some (.int n))) = n := by
  unfold cvtUInt32
  rw [cvtInt64_int (by omega)]
  omega

/-- Below `2 ^ 31` the length of a string survives the cast to `int`. -/
theorem stringLength_of_lt {n : ℕ} (h : n < 2 ^ 31) : stringLength n = n := by
  unfold stringLength asUInt64
  rw [Int.bmod_def]
  split <;> omega

theorem length_leBytes (k n : ℕ) : (leBytes k n).length = k := by
  induction k generalizing n with
  | zero => rfl
  | succ k ih => rw [leBytes, List.length_cons, ih]

/-- The bytes of a fixed-width number are read back. -/
theorem leValue_leBytes {k n : ℕ} (h : n < 256 ^ k) : leValue (leBytes k n) = n := by
  induction k generalizing n with
  | zero => simp at h; simp [leBytes, leValue, h]
  | succ k ih =>
    have hdiv : n / 256 < 256 ^ k := by
      rw [Nat.div_lt_iff_lt_mul (by decide)]
      rwa [pow_succ] at h
    have hmod : n % 256 < 256 := Nat.mod_lt _ (by decide)
    rw [leBytes, leValue, toNat_ofNat_of_lt hmod, ih hdiv]
    omega

/-- A `float` is read back bit by bit. -/
theorem pbDecodeFixed32_at {buf : Bytes} {s : IStream} {x : Datum single}
    (h : At buf s (leBytes 4 x.toNat)) : pbDecodeFixed32 buf s = (some x, s.advance 4) := by
  have hread := pbRead_at h
  have hlt : x.toNat < 256 ^ 4 := x.toNat_lt
  rw [length_leBytes] at hread
  simp [pbDecodeFixed32, hread, leValue_leBytes hlt, BinaryFloat.ofNat_toNat]

/-- And so is a `double`. -/
theorem pbDecodeFixed64_at {buf : Bytes} {s : IStream} {x : Datum double}
    (h : At buf s (leBytes 8 x.toNat)) : pbDecodeFixed64 buf s = (some x, s.advance 8) := by
  have hread := pbRead_at h
  have hlt : x.toNat < 256 ^ 8 := x.toNat_lt
  rw [length_leBytes] at hread
  simp [pbDecodeFixed64, hread, leValue_leBytes hlt, BinaryFloat.ofNat_toNat]

/-! ## What an encoder function writes -/

/-- The stream after the bytes `w`. -/
def OStream.emit (s : OStream) (w : Bytes) : OStream :=
  { s with
    out := if s.writing then s.out ++ w else s.out
    bytesWritten := (s.bytesWritten + w.length) % 2 ^ 64 }

/-- There is room for `k` more bytes, below the limit and in the buffer. A counting
stream has room for everything. -/
def OStream.Room (s : OStream) (k : ℕ) : Prop :=
  s.writing = true → s.bytesWritten + k ≤ s.maxSize ∧ s.out.length + k ≤ s.capacity

/-- A stream as the encoder keeps it: the count is a `size_t`, and a storing stream has
stored what it counts, within the limit and within a buffer whose size is one too. -/
structure OStream.Sound (s : OStream) : Prop where
  /-- the count is a `size_t` -/
  counted : s.bytesWritten < 2 ^ 64
  /-- what is counted is stored -/
  stored : s.writing = true → s.bytesWritten ≤ s.out.length
  /-- what is counted is below the limit -/
  limited : s.writing = true → s.bytesWritten ≤ s.maxSize
  /-- what is stored is in the buffer -/
  inside : s.writing = true → s.out.length ≤ s.capacity
  /-- the size of the buffer is a `size_t` -/
  sized : s.writing = true → s.capacity < 2 ^ 64

/-- From a sound stream, `enc` appends `w` if there is room for it and fails otherwise. -/
def Emits (enc : OStream → Enc) (w : Bytes) : Prop :=
  ∀ s : OStream, s.Sound → (s.Room w.length → enc s = .ok (s.emit w)) ∧
    (¬ s.Room w.length → ∃ e, enc s = .error e)

/-- The fields that writing does not change. -/
@[simp] theorem OStream.emit_writing (s : OStream) (w : Bytes) : (s.emit w).writing = s.writing := rfl

@[simp] theorem OStream.emit_capacity (s : OStream) (w : Bytes) :
    (s.emit w).capacity = s.capacity := rfl

@[simp] theorem OStream.emit_maxSize (s : OStream) (w : Bytes) : (s.emit w).maxSize = s.maxSize := rfl

theorem OStream.emit_out {s : OStream} (hw : s.writing = true) (w : Bytes) :
    (s.emit w).out = s.out ++ w := if_pos hw

/-- Below the limit of a buffer, no sum wraps around. -/
theorem OStream.emit_bytesWritten {s : OStream} {w : Bytes} (h : s.bytesWritten + w.length < 2 ^ 64) :
    (s.emit w).bytesWritten = s.bytesWritten + w.length := Nat.mod_eq_of_lt h

/-- Where there is room, the count does not wrap around. -/
theorem OStream.Sound.room_lt {s : OStream} (h : s.Sound) (hw : s.writing = true) {k : ℕ}
    (hk : s.Room k) : s.bytesWritten + k < 2 ^ 64 := by
  have hstored := h.stored hw
  have hsized := h.sized hw
  obtain ⟨-, hroom⟩ := hk hw
  omega

/-- There is always room for nothing. -/
theorem OStream.Sound.room_zero {s : OStream} (h : s.Sound) : s.Room 0 := fun hw =>
  ⟨h.limited hw, h.inside hw⟩

/-- Writing where there is room keeps a stream sound. -/
theorem OStream.Sound.emit {s : OStream} {w : Bytes} (h : s.Sound) (hr : s.Room w.length) :
    (s.emit w).Sound where
  counted := Nat.mod_lt _ (by decide)
  stored hw := by
    rw [emit_bytesWritten (h.room_lt hw hr), emit_out (s := s) hw, List.length_append]
    exact Nat.add_le_add_right (h.stored hw) _
  limited hw := by
    rw [emit_bytesWritten (h.room_lt hw hr)]
    exact (hr hw).1
  inside hw := by
    rw [emit_out (s := s) hw, List.length_append]
    exact (hr hw).2
  sized := h.sized

/-- The stream over a buffer is sound at first. -/
theorem OStream.Sound.fromBuffer {len : ℕ} (h : len < 2 ^ 64) : (pbOstreamFromBuffer len).Sound where
  counted := Nat.two_pow_pos 64
  stored _ := le_rfl
  limited _ := Nat.zero_le len
  inside _ := Nat.zero_le len
  sized _ := h

/-- The counting stream is, since it stores nothing. -/
theorem OStream.Sound.sizing : pbSizingStream.Sound where
  counted := Nat.two_pow_pos 64
  stored hw := Bool.noConfusion hw
  limited hw := Bool.noConfusion hw
  inside hw := Bool.noConfusion hw
  sized hw := Bool.noConfusion hw

/-- The stream over a buffer. -/
theorem room_fromBuffer {len k : ℕ} : (pbOstreamFromBuffer len).Room k ↔ k ≤ len := by
  simp [OStream.Room, pbOstreamFromBuffer]

theorem room_sizing (k : ℕ) : pbSizingStream.Room k := fun hw => Bool.noConfusion hw

theorem OStream.emit_nil {s : OStream} (h : s.Sound) : s.emit [] = s := by
  have hcount : (s.bytesWritten + ([] : Bytes).length) % 2 ^ 64 = s.bytesWritten :=
    Nat.mod_eq_of_lt h.counted
  simp only [OStream.emit, List.append_nil, ite_self, hcount]

/-- Two texts in a row are one. -/
theorem OStream.emit_append (s : OStream) (v w : Bytes) : s.emit (v ++ w) = (s.emit v).emit w := by
  cases hw : s.writing <;> simp [OStream.emit, hw, Nat.add_assoc]

/-- There is room for two texts if there is for the first, and for the second behind it. -/
theorem OStream.room_append {s : OStream} (h : s.Sound) {v w : Bytes} :
    s.Room (v ++ w).length ↔ s.Room v.length ∧ (s.emit v).Room w.length := by
  cases hw : s.writing
  · simp [OStream.Room, hw]
  · constructor
    · intro hr
      have hboth := hr hw
      rw [List.length_append] at hboth
      have hv : s.Room v.length := fun _ => by omega
      refine ⟨hv, fun _ => ?_⟩
      rw [emit_bytesWritten (h.room_lt hw hv), emit_out hw, List.length_append, emit_maxSize,
        emit_capacity]
      omega
    · rintro ⟨hv, hr⟩ -
      have hboth := hr hw
      rw [emit_bytesWritten (h.room_lt hw hv), emit_out hw, List.length_append, emit_maxSize,
        emit_capacity] at hboth
      rw [List.length_append]
      omega

/-- A buffer holds what was written into it, and `bytes_written` is its length. -/
theorem take_emit_fromBuffer {len : ℕ} {w : Bytes} (h : w.length < 2 ^ 64) :
    ((pbOstreamFromBuffer len).emit w).out.take ((pbOstreamFromBuffer len).emit w).bytesWritten =
      w := by
  have hcount : ((pbOstreamFromBuffer len).emit w).bytesWritten = w.length := by
    simp only [OStream.emit, pbOstreamFromBuffer, Nat.zero_add, Nat.mod_eq_of_lt h]
  rw [hcount, OStream.emit_out rfl, pbOstreamFromBuffer, List.nil_append, List.take_length]

/-- Doing nothing appends nothing. -/
theorem emits_nil : Emits (fun s => .ok s) [] := fun _ hs =>
  ⟨fun _ => by rw [OStream.emit_nil hs], fun h => absurd hs.room_zero h⟩

/-- One function after another. -/
theorem Emits.bind {f g : OStream → Enc} {v w : Bytes} (hf : Emits f v) (hg : Emits g w) :
    Emits (fun s => f s >>= g) (v ++ w) := by
  intro s hs
  obtain ⟨hok, hno⟩ := hf s hs
  rw [OStream.room_append hs]
  show (_ → (f s >>= g) = _) ∧ (_ → ∃ e, (f s >>= g) = _)
  by_cases hv : s.Room v.length
  · obtain ⟨hok', hno'⟩ := hg (s.emit v) (hs.emit hv)
    have hstep : (f s >>= g) = g (s.emit v) := by
      rw [hok hv]
      rfl
    refine ⟨fun h => ?_, fun h => ?_⟩
    · rw [hstep, hok' h.2, OStream.emit_append]
    · rw [hstep]
      exact hno' fun hw => h ⟨hv, hw⟩
  · refine ⟨fun h => absurd h.1 hv, fun _ => ?_⟩
    obtain ⟨e, he⟩ := hno hv
    exact ⟨e, by rw [he]; rfl⟩

/-- Only what the function does counts. -/
theorem Emits.congr {f g : OStream → Enc} {w : Bytes} (hf : Emits f w) (h : ∀ s, g s = f s) :
    Emits g w := by
  have : g = f := funext h
  rwa [this]

/-- With room, `pb_write` stores what it is given. -/
theorem pbWrite_of_room {s : OStream} {source : Bytes} {count : ℕ} (hs : s.Sound)
    (hw : s.writing = true) (hr : s.Room count) (hle : count ≤ source.length) :
    pbWrite s source count = .ok (s.emit (source.take count)) := by
  have hlt := hs.room_lt hw hr
  obtain ⟨hlimit, hroom⟩ := hr hw
  have hsum : ¬ s.maxSize < (s.bytesWritten + count) % 2 ^ 64 := by
    rw [Nat.mod_eq_of_lt hlt]
    exact not_lt.mpr hlimit
  have hboth : ¬ (s.capacity < s.out.length + count ∨ source.length < count) := by omega
  have htake : (source.take count).length = count := List.length_take_of_le hle
  simp only [pbWrite, hw, if_true, hsum, hboth, if_false, OStream.emit, htake]

/-- Without room, `pb_write` fails: it is refused, or it runs out of the buffer. -/
theorem pbWrite_of_not_room {s : OStream} {source : Bytes} {count : ℕ} (hs : s.Sound)
    (hr : ¬ s.Room count) : pbWrite s source count =
      .error (if s.maxSize < (s.bytesWritten + count) % 2 ^ 64 then .refused else .overrun, s) := by
  obtain ⟨hw, hr⟩ := Classical.not_imp.mp hr
  have hstored := hs.stored hw
  have hsized := hs.sized hw
  by_cases hlt : s.maxSize < (s.bytesWritten + count) % 2 ^ 64
  · simp only [pbWrite, hw, if_true, hlt]
  · -- the sum has wrapped around, or the buffer ends below the limit
    have hover : s.capacity < s.out.length + count := by
      by_contra hroom
      rw [Nat.mod_eq_of_lt (by omega)] at hlt
      exact hr ⟨not_lt.mp hlt, not_lt.mp hroom⟩
    simp only [pbWrite, hw, if_true, hlt, if_false, hover, true_or]

/-- A counting stream counts. -/
theorem pbWrite_of_counting {s : OStream} (hw : s.writing = false) (source w : Bytes) :
    pbWrite s source w.length = .ok (s.emit w) := by
  simp [pbWrite, OStream.emit, hw]

/-- `pb_write` appends the bytes it is given. -/
theorem emits_pbWrite (w : Bytes) : Emits (fun s => pbWrite s w w.length) w := by
  intro s hs
  refine ⟨fun hr => ?_, fun hr => ⟨_, pbWrite_of_not_room hs hr⟩⟩
  cases hw : s.writing with
  | false => exact pbWrite_of_counting hw w w
  | true =>
    have hok := pbWrite_of_room hs hw hr (le_refl w.length)
    rwa [List.take_length] at hok

/-- `pb_encode_varint`, on the low 64 bits of its number. -/
theorem emits_pbEncodeVarint (n : ℕ) :
    Emits (fun s => pbEncodeVarint s n) (varintBytes (n % 2 ^ 64)) :=
  emits_pbWrite _

theorem emits_pbEncodeFixed32 (x : Datum single) :
    Emits (fun s => pbEncodeFixed32 s x) (leBytes 4 x.toNat) := by
  have := emits_pbWrite (leBytes 4 x.toNat)
  rwa [length_leBytes] at this

theorem emits_pbEncodeFixed64 (x : Datum double) :
    Emits (fun s => pbEncodeFixed64 s x) (leBytes 8 x.toNat) := by
  have := emits_pbWrite (leBytes 8 x.toNat)
  rwa [length_leBytes] at this

/-- `pb_encode_string` puts the length in front. -/
theorem emits_pbEncodeString (w : Bytes) :
    Emits (fun s => pbEncodeString s w w.length) (varintBytes (w.length % 2 ^ 64) ++ w) :=
  (emits_pbEncodeVarint w.length).bind (emits_pbWrite w)

/-! ## Submessages -/

/-- What `pb_encode_submessage` does once it knows the length and has written it. -/
def submessageBody (enc : OStream → Enc) (length : ℕ) (s : OStream) : Enc :=
  if ¬ s.writing then pbWrite s [] length
  else if s.maxSize < (s.bytesWritten + length) % 2 ^ 64 then .error (.refused, s)
  else
    match enc ⟨true, s.out, s.capacity, length, 0⟩ with
    | .error (stop, sub) => .error (stop, mergeSub s sub)
    | .ok sub =>
      if sub.bytesWritten ≠ length then .error (.refused, mergeSub s sub) else .ok (mergeSub s sub)

/-- The substream that stores a body of `length` bytes. -/
def OStream.sub (s : OStream) (length : ℕ) : OStream := ⟨true, s.out, s.capacity, length, 0⟩

/-- The substream is as sound as the stream. -/
theorem OStream.Sound.sub {s : OStream} (h : s.Sound) (hw : s.writing = true) (length : ℕ) :
    (s.sub length).Sound where
  counted := Nat.two_pow_pos 64
  stored _ := Nat.zero_le _
  limited _ := Nat.zero_le _
  inside _ := h.inside hw
  sized _ := h.sized hw

/-- Where the stream has room for the body, the substream has it. -/
theorem OStream.Sound.room_sub {s : OStream} (h : s.Sound) (hw : s.writing = true) {w : Bytes}
    (hr : s.Room w.length) : (s.sub (w.length % 2 ^ 64)).Room w.length := by
  intro _
  have hlt := h.room_lt hw hr
  refine ⟨?_, (hr hw).2⟩
  show 0 + w.length ≤ w.length % 2 ^ 64
  rw [Nat.mod_eq_of_lt (by omega), Nat.zero_add]

/-- Once the length has passed the test, the converse holds. -/
theorem OStream.Sound.room_of_sub {s : OStream} (h : s.Sound) (hw : s.writing = true) {w : Bytes}
    (hlimit : ¬ s.maxSize < (s.bytesWritten + w.length % 2 ^ 64) % 2 ^ 64)
    (hr : (s.sub (w.length % 2 ^ 64)).Room w.length) : s.Room w.length := by
  intro _
  have hstored := h.stored hw
  have hsized := h.sized hw
  have hroom : s.out.length + w.length ≤ s.capacity := (hr rfl).2
  have hlength : w.length % 2 ^ 64 = w.length := Nat.mod_eq_of_lt (by omega)
  rw [hlength, Nat.mod_eq_of_lt (by omega)] at hlimit
  exact ⟨not_lt.mp hlimit, hroom⟩

/-- What the substream has stored is what the stream has. -/
theorem mergeSub_emit {s : OStream} (hw : s.writing = true) (length : ℕ) (w : Bytes) :
    mergeSub s ((s.sub length).emit w) = s.emit w := by
  simp [mergeSub, OStream.emit, OStream.sub, hw]

/-- The test in front of the substream. -/
theorem submessageBody_storing {enc : OStream → Enc} {s : OStream} (hw : s.writing = true)
    (length : ℕ) : submessageBody enc length s =
      if s.maxSize < (s.bytesWritten + length) % 2 ^ 64 then .error (.refused, s)
      else
        match enc (s.sub length) with
        | .error (stop, sub) => .error (stop, mergeSub s sub)
        | .ok sub =>
          if sub.bytesWritten ≠ length then .error (.refused, mergeSub s sub)
          else .ok (mergeSub s sub) := if_neg (not_not.mpr hw)

/-- With room for the body, the substream stores it all. -/
theorem submessageBody_of_ok {enc : OStream → Enc} {s : OStream} {w : Bytes} (hs : s.Sound)
    (hw : s.writing = true) (hr : s.Room w.length)
    (hsub : enc (s.sub (w.length % 2 ^ 64)) = .ok ((s.sub (w.length % 2 ^ 64)).emit w)) :
    submessageBody enc (w.length % 2 ^ 64) s = .ok (s.emit w) := by
  have hlt := hs.room_lt hw hr
  have hlength : w.length % 2 ^ 64 = w.length := Nat.mod_eq_of_lt (by omega)
  have hlimit : ¬ s.maxSize < (s.bytesWritten + w.length % 2 ^ 64) % 2 ^ 64 := by
    rw [hlength, Nat.mod_eq_of_lt hlt]
    exact not_lt.mpr (hr hw).1
  have hcount : ((s.sub (w.length % 2 ^ 64)).emit w).bytesWritten = w.length % 2 ^ 64 := by
    simp [OStream.emit, OStream.sub]
  rw [submessageBody_storing hw, if_neg hlimit, hsub]
  simp only [hcount, ne_eq, not_true_eq_false, if_false, mergeSub_emit hw]

/-- Once the length is right, the body is appended, or there was no room for it. -/
theorem emits_submessageBody {enc : OStream → Enc} {w : Bytes} (h : Emits enc w) :
    Emits (submessageBody enc (w.length % 2 ^ 64)) w := by
  intro s hs
  cases hw : s.writing with
  | false =>
    refine ⟨fun _ => ?_, fun hno => absurd (fun hs => by simp [hw] at hs) hno⟩
    simp [submessageBody, pbWrite, OStream.emit, hw]
  | true =>
    obtain ⟨hok, hno⟩ := h _ (hs.sub hw (w.length % 2 ^ 64))
    refine ⟨fun hr => submessageBody_of_ok hs hw hr (hok (hs.room_sub hw hr)), fun hr => ?_⟩
    · rw [submessageBody_storing hw]
      split
      · exact ⟨_, rfl⟩
      · next hlimit =>
        obtain ⟨e, he⟩ := hno fun hsub => hr (hs.room_of_sub hw hlimit hsub)
        exact ⟨_, by rw [he]⟩

/-- `pb_encode_submessage` puts the length in front: the counting run sees the same
bytes as the storing one. -/
theorem Emits.submessage {enc : OStream → Enc} {w : Bytes} (h : Emits enc w) :
    Emits (fun s => pbEncodeSubmessage s enc) (varintBytes (w.length % 2 ^ 64) ++ w) := by
  have hsize : enc pbSizingStream = .ok (pbSizingStream.emit w) :=
    (h pbSizingStream .sizing).1 (room_sizing _)
  have hwritten : (pbSizingStream.emit w).bytesWritten = w.length % 2 ^ 64 := by
    simp [OStream.emit, pbSizingStream]
  have hlength : Emits (fun s => pbEncodeVarint s (w.length % 2 ^ 64))
      (varintBytes (w.length % 2 ^ 64)) := by
    have hvarint := emits_pbEncodeVarint (w.length % 2 ^ 64)
    rwa [Nat.mod_mod] at hvarint
  refine Emits.congr (hlength.bind (emits_submessageBody h)) fun s => ?_
  simp only [pbEncodeSubmessage, hsize, hwritten]
  rfl

end Libpomelo
