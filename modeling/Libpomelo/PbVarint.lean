import Libpomelo.PbSync

/-!
# Varints, exactly

A varint denotes a natural number of any size (`Leb128.value`), and the two sides keep it
in words of 64 and 32 bits.

* What `pb_encode_varint` writes is the shortest text of its value, and `pb_decode_varint`
  gives the value back and leaves what stands behind (`varint_comes_back`); the zig-zag map
  carries this over to the signed numbers.
* What `pb_decode_varint` makes of *any* text is its value modulo `2 ^ 64`: of a tenth byte
  it shifts all bits but the lowest out of the word, and reports nothing. `pb_decode_varint32`
  cuts that down once more, so that a tag, a length or a count is reduced modulo `2 ^ 32`
  (`varint_exact_iff`).
-/

namespace Libpomelo

/-! ## Reading a text -/

/-- One group is added. -/
theorem or_group {d k : ℕ} (g : ℕ) (hk : d < 2 ^ k) (hd : d < 2 ^ 64) :
    d ||| g <<< k % 2 ^ 64 = (d + g * 2 ^ k) % 2 ^ 64 := by
  rw [Nat.shiftLeft_eq]
  rcases le_or_gt k 64 with hle | hgt
  · have hsplit : 2 ^ 64 = 2 ^ (64 - k) * 2 ^ k := by
      rw [← pow_add, Nat.sub_add_cancel hle]
    have hlow : g * 2 ^ k % 2 ^ 64 = g % 2 ^ (64 - k) * 2 ^ k := by
      rw [hsplit, Nat.mul_mod_mul_right]
    have hgroup : g % 2 ^ (64 - k) + 1 ≤ 2 ^ (64 - k) := Nat.mod_lt _ (Nat.two_pow_pos _)
    have hroom : d + g % 2 ^ (64 - k) * 2 ^ k < 2 ^ 64 := by
      calc d + g % 2 ^ (64 - k) * 2 ^ k < (g % 2 ^ (64 - k) + 1) * 2 ^ k := by
            rw [Nat.add_one_mul]
            omega
        _ ≤ 2 ^ (64 - k) * 2 ^ k := Nat.mul_le_mul_right _ hgroup
        _ = 2 ^ 64 := hsplit.symm
    have hor : d ||| g % 2 ^ (64 - k) * 2 ^ k = d + g % 2 ^ (64 - k) * 2 ^ k := by
      have hshift := or_shiftLeft (b := g % 2 ^ (64 - k)) hk
      rwa [Nat.shiftLeft_eq] at hshift
    rw [← Nat.add_mod_mod, hlow, hor, Nat.mod_eq_of_lt hroom]
  · -- all bits are shifted out of the word
    have hgone : g * 2 ^ k % 2 ^ 64 = 0 :=
      Nat.mod_eq_zero_of_dvd ((Nat.pow_dvd_pow 2 hgt.le).mul_left g)
    rw [← Nat.add_mod_mod, hgone, Nat.or_zero, Nat.add_zero, Nat.mod_eq_of_lt hd]

/-- **What the bytes add up to** is the value of the text, modulo `2 ^ 64`. -/
theorem varintSum_eq (bs : Bytes) : ∀ {k d : ℕ}, d < 2 ^ k → d < 2 ^ 64 →
    varintSum k d bs = (d + Leb128.value bs * 2 ^ k) % 2 ^ 64 := by
  induction bs with
  | nil =>
    intro k d _ hd
    rw [varintSum, Leb128.value, Nat.zero_mul, Nat.add_zero, Nat.mod_eq_of_lt hd]
  | cons b bs ih =>
    intro k d hk hd
    have hgroup : b.toNat % 128 < 128 := Nat.mod_lt _ (by decide)
    have hnext : (d + b.toNat % 128 * 2 ^ k) % 2 ^ 64 < 2 ^ (k + 7) := by
      apply (Nat.mod_le _ _).trans_lt
      have hle : b.toNat % 128 * 2 ^ k ≤ 127 * 2 ^ k := Nat.mul_le_mul_right _ (by omega)
      rw [pow_add]
      omega
    rw [varintSum, and_127, or_group _ hk hd, ih hnext (Nat.mod_lt _ (by decide)), Nat.mod_add_mod,
      Leb128.value, pow_add]
    congr 1
    ring

theorem varintSum_zero (bs : Bytes) : varintSum 0 0 bs = Leb128.value bs % 2 ^ 64 := by
  rw [varintSum_eq bs (by decide) (by decide), Nat.zero_add, pow_zero, Nat.mul_one]

section Reading

variable {buf : Bytes} {s : IStream} {text rest : Bytes}

/-- A text that is complete within the turns of the loop is read to its end. -/
theorem varintRead_text {n bitpos dest : ℕ} {front : Bytes} {last : UInt8} (hs : s.Inside buf)
    (hfront : Continued front) (hlast : last.toNat < 128) (hlen : front.length < n)
    (hahead : s.ahead buf = front ++ last :: rest) :
    ∃ s', varintRead buf n bitpos dest s =
      (some (varintSum bitpos dest (front ++ [last])), s') ∧ Takes buf s s' (front ++ [last]) := by
  induction front generalizing n bitpos dest s with
  | nil =>
    obtain ⟨n, rfl⟩ := Nat.exists_eq_add_of_lt hlen
    obtain ⟨-, hnone⟩ | ⟨b, s₁, htakes, heq⟩ :=
      varintRead_succ hs (Eq.refl (varintRead buf (0 + n + 1) bitpos dest s))
    · have hempty := IStream.ahead_length hs
      rw [hahead, hnone] at hempty
      exact absurd hempty (by simp)
    · have hbytes := htakes.bytes
      rw [hahead] at hbytes
      obtain ⟨rfl, -⟩ := List.cons.inj hbytes
      rw [if_pos hlast] at heq
      exact ⟨s₁, heq.symm, htakes⟩
  | cons c front ih =>
    obtain ⟨m, rfl⟩ := Nat.exists_eq_add_of_lt hlen
    have hc : ¬ c.toNat < 128 := Nat.not_lt.mpr (hfront c List.mem_cons_self)
    obtain ⟨-, hnone⟩ | ⟨b, s₁, htakes, heq⟩ :=
      varintRead_succ hs (Eq.refl (varintRead buf ((c :: front).length + m + 1) bitpos dest s))
    · have hempty := IStream.ahead_length hs
      rw [hahead, hnone] at hempty
      exact absurd hempty (by simp)
    · have hbytes := htakes.bytes
      rw [hahead] at hbytes
      obtain ⟨rfl, hrest⟩ := List.cons.inj hbytes
      rw [if_neg hc] at heq
      have hlong : front.length < (c :: front).length + m := by
        rw [List.length_cons]
        omega
      obtain ⟨s', hread, hbehind⟩ := ih (htakes.inside hs)
        (fun b hb => hfront b (List.mem_cons_of_mem c hb)) hlong hrest.symm
      exact ⟨s', heq.symm.trans hread, htakes.trans hbehind⟩

/-- **`pb_decode_varint`** on a varint of any value. -/
theorem pbDecodeVarint_text (hs : s.Inside buf) (htext : IsVarint text)
    (hahead : s.ahead buf = text ++ rest) :
    ∃ s', pbDecodeVarint buf s = (some (Leb128.value text % 2 ^ 64), s') ∧ Takes buf s s' text ∧
      s'.ahead buf = rest := by
  obtain ⟨front, last, rfl, hlen, hfront, hlast⟩ := htext
  rw [List.length_append, List.length_singleton] at hlen
  have hstart : s.ahead buf = front ++ last :: rest := by
    rw [hahead, List.append_assoc, List.singleton_append]
  have hfew : front.length < 10 := by omega
  obtain ⟨s', hread, htakes⟩ := varintRead_text hs hfront hlast hfew hstart
  rw [varintSum_zero] at hread
  refine ⟨s', hread, htakes, ?_⟩
  exact List.append_cancel_left (htakes.bytes.symm.trans hahead)

/-- **`pb_decode_varint32`** likewise. -/
theorem pbDecodeVarint32_text (hs : s.Inside buf) (htext : IsVarint text)
    (hahead : s.ahead buf = text ++ rest) :
    ∃ s', pbDecodeVarint32 buf s = (some (Leb128.value text % 2 ^ 32), s') ∧
      Takes buf s s' text ∧ s'.ahead buf = rest := by
  obtain ⟨s', hread, htakes, hrest⟩ := pbDecodeVarint_text hs htext hahead
  have hlow : Leb128.value text % 2 ^ 64 % 2 ^ 32 = Leb128.value text % 2 ^ 32 :=
    Nat.mod_mod_of_dvd _ (by decide)
  refine ⟨s', ?_, htakes, hrest⟩
  rw [pbDecodeVarint32, hread, Option.map_some, hlow]

end Reading

/-! ## What the writer stores -/

/-- However many turns the loop of `pb_encode_varint` is given, it stores at most as many bytes
as the value has groups. -/
theorem length_varintLoop {k n : ℕ} (turns : ℕ) (h : n < 128 ^ k) :
    (varintLoop turns n).length ≤ k := by
  induction turns generalizing k n with
  | zero => exact Nat.zero_le k
  | succ turns ih =>
    rw [varintLoop]
    split
    · exact Nat.zero_le k
    · next hne =>
      cases k with
      | zero => exact absurd (Nat.lt_one_iff.mp h) hne
      | succ k =>
        have hshift : n >>> 7 < 128 ^ k := by
          rw [Nat.shiftRight_eq_div_pow, Nat.div_lt_iff_lt_mul (by decide)]
          rwa [pow_succ] at h
        exact Nat.succ_le_succ (ih hshift)

/-- The text of `encode` is a text. -/
theorem encode_continued (n : ℕ) : ∃ front last, Leb128.encode n = front ++ [last] ∧
    Continued front ∧ last.toNat < 128 := by
  induction n using Leb128.encode.induct with
  | case1 n h =>
    refine ⟨[], UInt8.ofNat n, Leb128.encode_of_lt h, by simp [Continued], ?_⟩
    rwa [toNat_ofNat_of_lt (by omega)]
  | case2 n h ih =>
    obtain ⟨front, last, heq, hfront, hlast⟩ := ih
    refine ⟨UInt8.ofNat (n % 128 + 128) :: front, last, ?_, ?_, hlast⟩
    · rw [Leb128.encode_of_le (not_lt.mp h), heq, List.cons_append]
    · refine continued_cons ?_ hfront
      rw [toNat_ofNat_of_lt (by omega)]
      omega

theorem isVarint_varintBytes {n : ℕ} (h : n < 2 ^ 64) : IsVarint (varintBytes n) := by
  have hlen : (Leb128.encode n).length ≤ 10 :=
    Leb128.length_encode_le (by decide) (h.trans (by decide))
  obtain ⟨front, last, heq, hfront, hlast⟩ := encode_continued n
  rw [varintBytes_eq h]
  exact ⟨front, last, heq, hlen, hfront, hlast⟩

/-- **The shortest text**: `w` is a varint of the value `n`, and no varint that the decoder takes
for `n` is shorter. -/
structure ShortestText (n : ℕ) (w : Bytes) : Prop where
  /-- at most ten bytes, of which the last one ends it -/
  varint : IsVarint w
  /-- one byte at least -/
  pos : 1 ≤ w.length
  /-- the buffer of the writer -/
  le_ten : w.length ≤ 10
  /-- its value -/
  value : Leb128.value w = n
  /-- no other is shorter -/
  shortest : ∀ u, IsVarint u → varintSum 0 0 u = n → w.length ≤ u.length

theorem shortestText_varintBytes {n : ℕ} (h : n < 2 ^ 64) : ShortestText n (varintBytes n) := by
  have hvarint := isVarint_varintBytes h
  rw [varintBytes_eq h] at hvarint ⊢
  refine ⟨hvarint, Leb128.length_encode_pos n,
    Leb128.length_encode_le (by decide) (h.trans (by decide)), Leb128.value_encode n, ?_⟩
  rintro u ⟨front, last, rfl, -, -, -⟩ hu
  -- the value that is taken for `n` is at least `n`, reduced or not
  rw [varintSum_zero] at hu
  apply Leb128.length_encode_le (by simp)
  calc n = Leb128.value (front ++ [last]) % 2 ^ 64 := hu.symm
    _ ≤ Leb128.value (front ++ [last]) := Nat.mod_le _ _
    _ < 128 ^ (front ++ [last]).length := Leb128.value_lt _

/-- **A varint comes back.** For every 64-bit value `pb_encode_varint` writes the shortest text,
within its buffer of ten bytes, and whatever stands behind, `pb_decode_varint` gives the value
back and leaves exactly that. For every signed 64-bit number `pb_encode_svarint` and
`pb_decode_svarint` do the same. -/
theorem varint_comes_back :
    (∀ n < 2 ^ 64, ∃ w, Emits (fun s => pbEncodeVarint s n) w ∧ ShortestText n w ∧
      (∀ turns, (varintLoop turns n).length ≤ 10) ∧
      ∀ buf s rest, IStream.Inside buf s → s.ahead buf = w ++ rest →
        ∃ s', pbDecodeVarint buf s = (some n, s') ∧ s'.ahead buf = rest) ∧
    ∀ i : ℤ, -2 ^ 63 ≤ i → i < 2 ^ 63 → ∃ w, Emits (fun s => pbEncodeSvarint s i) w ∧
      ShortestText (zigzag i) w ∧ (∀ turns, (varintLoop turns (zigzag i)).length ≤ 10) ∧
      ∀ buf s rest, IStream.Inside buf s → s.ahead buf = w ++ rest →
        ∃ s', pbDecodeSvarint buf s = (some i, s') ∧ s'.ahead buf = rest := by
  have hback : ∀ n < 2 ^ 64, ∃ w, Emits (fun s => pbEncodeVarint s n) w ∧ ShortestText n w ∧
      (∀ turns, (varintLoop turns n).length ≤ 10) ∧
      ∀ buf s rest, IStream.Inside buf s → s.ahead buf = w ++ rest →
        ∃ s', pbDecodeVarint buf s = (some n, s') ∧ s'.ahead buf = rest := by
    intro n hn
    have hemits : Emits (fun s => pbEncodeVarint s n) (varintBytes (n % 2 ^ 64)) :=
      emits_pbEncodeVarint n
    rw [Nat.mod_eq_of_lt hn] at hemits
    have htext := shortestText_varintBytes hn
    refine ⟨varintBytes n, hemits, htext, fun turns => length_varintLoop turns (hn.trans (by decide)),
      fun buf s rest hs hahead => ?_⟩
    obtain ⟨s', hread, -, hrest⟩ := pbDecodeVarint_text hs htext.varint hahead
    rw [htext.value, Nat.mod_eq_of_lt hn] at hread
    exact ⟨s', hread, hrest⟩
  refine ⟨hback, fun i hlo hhi => ?_⟩
  obtain ⟨w, hemits, htext, hturns, hread⟩ := hback (zigzag i) (zigzag_lt i)
  refine ⟨w, hemits, htext, hturns, fun buf s rest hs hahead => ?_⟩
  obtain ⟨s', hs', hrest⟩ := hread buf s rest hs hahead
  refine ⟨s', ?_, hrest⟩
  rw [pbDecodeSvarint, hs', Option.map_some, unzigzag_zigzag hlo hhi]

/-- The smallest signed number takes all ten bytes. -/
theorem varint_comes_back_min : ∃ w, Emits (fun s => pbEncodeSvarint s (-2 ^ 63)) w ∧
    ShortestText (zigzag (-2 ^ 63)) w ∧
    (∀ turns, (varintLoop turns (zigzag (-2 ^ 63))).length ≤ 10) ∧
    ∀ buf s rest, IStream.Inside buf s → s.ahead buf = w ++ rest →
      ∃ s', pbDecodeSvarint buf s = (some (-2 ^ 63), s') ∧ s'.ahead buf = rest :=
  varint_comes_back.2 (-2 ^ 63) (by decide) (by decide)

/-! ## What the reader makes of a text -/

/-- A result that is exact: only a value below the bound is given, and it is given as it is. -/
def Exact (bound value : ℕ) (result : Option ℕ) : Prop :=
  ∀ n, result = some n → value < bound ∧ n = value

/-- A result that is reduced modulo the bound is exact just when there is nothing to reduce. -/
theorem exact_mod_iff (bound value : ℕ) :
    Exact bound value (some (value % bound)) ↔ value < bound := by
  constructor
  · exact fun hexact => (hexact _ rfl).1
  · rintro hlt n hn
    rw [Nat.mod_eq_of_lt hlt] at hn
    exact ⟨hlt, (Option.some.inj hn).symm⟩

/-- **When a varint is read exactly.** Wherever a varint of at most ten bytes stands,
`pb_decode_varint` is exact if and only if its value is below `2 ^ 64`, and `pb_decode_varint32`
if and only if it is below `2 ^ 32`. -/
theorem varint_exact_iff {buf : Bytes} {s : IStream} {text rest : Bytes} (hs : s.Inside buf)
    (htext : IsVarint text) (hahead : s.ahead buf = text ++ rest) :
    (Exact (2 ^ 64) (Leb128.value text) (pbDecodeVarint buf s).1 ↔ Leb128.value text < 2 ^ 64) ∧
      (Exact (2 ^ 32) (Leb128.value text) (pbDecodeVarint32 buf s).1 ↔
        Leb128.value text < 2 ^ 32) := by
  obtain ⟨s', hread, -⟩ := pbDecodeVarint_text hs htext hahead
  obtain ⟨s'', hread32, -⟩ := pbDecodeVarint32_text hs htext hahead
  rw [hread, hread32]
  exact ⟨exact_mod_iff _ _, exact_mod_iff _ _⟩

/-- The number 300, which takes two bytes. -/
theorem varint_exact_iff_300 :
    (Exact (2 ^ 64) (Leb128.value [172, 2]) (pbDecodeVarint [172, 2] ⟨0, 2, 0⟩).1 ↔
      Leb128.value [172, 2] < 2 ^ 64) ∧
    (Exact (2 ^ 32) (Leb128.value [172, 2]) (pbDecodeVarint32 [172, 2] ⟨0, 2, 0⟩).1 ↔
      Leb128.value [172, 2] < 2 ^ 32) := by
  have hs : IStream.Inside [172, 2] ⟨0, 2, 0⟩ := by decide
  have htext : IsVarint [172, 2] := ⟨[172], 2, rfl, by decide, by simp [Continued], by decide⟩
  have hahead : IStream.ahead [172, 2] ⟨0, 2, 0⟩ = [172, 2] ++ [] := rfl
  exact varint_exact_iff hs htext hahead

/-- **Five bytes for zero.** The varint of `2 ^ 32` is read as the tag `0`, which ends a message,
and the one of `2 ^ 64` as the value `0`. -/
theorem not_exact_zeroTag :
    IsVarint [128, 128, 128, 128, 16] ∧ Leb128.value [128, 128, 128, 128, 16] = 2 ^ 32 ∧
    (pbDecodeVarint32 [128, 128, 128, 128, 16] ⟨0, 5, 0⟩).1 = some 0 ∧
    (pbDecodeTag [128, 128, 128, 128, 16] ⟨0, 5, 0⟩).1 = .eof ∧
    ¬ Exact (2 ^ 32) (2 ^ 32) (pbDecodeVarint32 [128, 128, 128, 128, 16] ⟨0, 5, 0⟩).1 ∧
    (pbDecodeVarint [128, 128, 128, 128, 128, 128, 128, 128, 128, 2] ⟨0, 10, 0⟩).1 = some 0 ∧
    ¬ Exact (2 ^ 64) (2 ^ 64)
      (pbDecodeVarint [128, 128, 128, 128, 128, 128, 128, 128, 128, 2] ⟨0, 10, 0⟩).1 := by
  have hno : ∀ bound, 0 < bound → ¬ Exact bound bound (some 0) :=
    fun bound hpos hexact => absurd (hexact 0 rfl).2 hpos.ne
  have hshort : (pbDecodeVarint32 [128, 128, 128, 128, 16] ⟨0, 5, 0⟩).1 = some 0 := by decide
  have hlong : (pbDecodeVarint [128, 128, 128, 128, 128, 128, 128, 128, 128, 2] ⟨0, 10, 0⟩).1 =
    some 0 := by decide
  refine ⟨⟨[128, 128, 128, 128], 16, rfl, by decide, by simp [Continued], by decide⟩, by decide,
    hshort, by decide, ?_, hlong, ?_⟩
  · rw [hshort]
    exact hno _ (by decide)
  · rw [hlong]
    exact hno _ (by decide)

end Libpomelo
