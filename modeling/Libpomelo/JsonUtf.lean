import Libpomelo.Utf8
import Libpomelo.Package
import Mathlib.Algebra.Order.Ring.Nat

/-!
# UTF-8 in JSON texts (`utf.c` of jansson)

jansson checks the encoding of what it reads, byte by byte, and encodes the characters that
an escape names. Both are compared with the encoding that strings have here: what passes the
check are the characters (`utf8CheckFull_iff`), and what is written is one
(`utf8Encode_eq`).
-/

namespace Libpomelo

open Utf8 (encodeChar_eq)

/-- `utf8_encode`. -/
def utf8Encode (codepoint : ℕ) : Option Bytes :=
  if codepoint < 0x80 then some [UInt8.ofNat codepoint]
  else if codepoint < 0x800 then
    some [UInt8.ofNat (0xC0 + (codepoint &&& 0x7C0) >>> 6), UInt8.ofNat (0x80 + (codepoint &&& 0x03F))]
  else if codepoint < 0x10000 then
    some [UInt8.ofNat (0xE0 + (codepoint &&& 0xF000) >>> 12),
      UInt8.ofNat (0x80 + (codepoint &&& 0x0FC0) >>> 6), UInt8.ofNat (0x80 + (codepoint &&& 0x003F))]
  else if codepoint ≤ 0x10FFFF then
    some [UInt8.ofNat (0xF0 + (codepoint &&& 0x1C0000) >>> 18),
      UInt8.ofNat (0x80 + (codepoint &&& 0x03F000) >>> 12),
      UInt8.ofNat (0x80 + (codepoint &&& 0x000FC0) >>> 6),
      UInt8.ofNat (0x80 + (codepoint &&& 0x00003F))]
  else none

/-- `utf8_check_first`: how many bytes the character has that begins with this one, `0` when
none does. -/
def utf8CheckFirst (byte : UInt8) : ℕ :=
  let u := byte.toNat
  if u < 0x80 then 1
  else if 0x80 ≤ u ∧ u ≤ 0xBF then 0
  else if u = 0xC0 ∨ u = 0xC1 then 0
  else if 0xC2 ≤ u ∧ u ≤ 0xDF then 2
  else if 0xE0 ≤ u ∧ u ≤ 0xEF then 3
  else if 0xF0 ≤ u ∧ u ≤ 0xF4 then 4
  else 0

/-- The loop of `utf8_check_full` over the continuation bytes. -/
def utf8Continue (value : ℕ) : Bytes → Option ℕ
  | [] => some value
  | byte :: bytes =>
    let u := byte.toNat
    if u < 0x80 ∨ 0xBF < u then none else utf8Continue ((value <<< 6) + (u &&& 0x3F)) bytes

/-- What the first byte of a character of `size` bytes contributes. -/
def utf8Start (size u : ℕ) : Option ℕ :=
  if size = 2 then some (u &&& 0x1F)
  else if size = 3 then some (u &&& 0xF)
  else if size = 4 then some (u &&& 0x7)
  else none

/-- `utf8_check_full` on a buffer of `size` bytes: the code point, `none` for the result `0`. -/
def utf8CheckFull : Bytes → Option ℕ
  | [] => none
  | byte :: more => do
    let size := more.length + 1
    let value ← utf8Continue (← utf8Start size byte.toNat) more
    if 0x10FFFF < value then none
    else if 0xD800 ≤ value ∧ value ≤ 0xDFFF then none
    else if size = 2 ∧ value < 0x80 ∨ size = 3 ∧ value < 0x800 ∨ size = 4 ∧ value < 0x10000 then none
    else some value

/-! ## Characters -/

theorem utf8CheckFirst_le (byte : UInt8) : utf8CheckFirst byte ≤ 4 := by
  rw [utf8CheckFirst]
  repeat' split
  all_goals decide

/-- The number of a character, and that it is no half of a surrogate pair. -/
theorem toNat_char (c : Char) : c.toNat < 0xD800 ∨ 0xDFFF < c.toNat ∧ c.toNat < 0x110000 :=
  c.valid

/-- A number that is a character is the number of that character. -/
theorem toNat_ofNat {n : ℕ} (h : n < 0xD800 ∨ 0xDFFF < n ∧ n < 0x110000) :
    (Char.ofNat n).toNat = n := by
  rw [Char.ofNat, dif_pos h]
  rfl

/-- A mask of the lowest bits. -/
theorem and_mask (n k : ℕ) : n &&& (2 ^ k - 1) = n % 2 ^ k := Nat.and_two_pow_sub_one_eq_mod n k

/-- A mask of bits higher up, shifted down. -/
theorem and_mask_shift (n k i : ℕ) : (n &&& ((2 ^ k - 1) <<< i)) >>> i = n / 2 ^ i % 2 ^ k := by
  rw [Nat.shiftRight_and_distrib, Nat.shiftLeft_shiftRight, Nat.and_two_pow_sub_one_eq_mod,
    Nat.shiftRight_eq_div_pow]

/-- **The encoder** writes the character. -/
theorem utf8Encode_eq (c : Char) : utf8Encode c.toNat = some (String.utf8EncodeChar c) := by
  have hc := toNat_char c
  have h6 : c.toNat &&& 0x3F = c.toNat % 64 := and_mask c.toNat 6
  have h11 : (c.toNat &&& 0x7C0) >>> 6 = c.toNat / 64 % 32 := and_mask_shift c.toNat 5 6
  have h16 : (c.toNat &&& 0xF000) >>> 12 = c.toNat / 4096 % 16 := and_mask_shift c.toNat 4 12
  have h12 : (c.toNat &&& 0xFC0) >>> 6 = c.toNat / 64 % 64 := and_mask_shift c.toNat 6 6
  have h21 : (c.toNat &&& 0x1C0000) >>> 18 = c.toNat / 262144 % 8 := and_mask_shift c.toNat 3 18
  have h18 : (c.toNat &&& 0x3F000) >>> 12 = c.toNat / 4096 % 64 := and_mask_shift c.toNat 6 12
  rw [utf8Encode, encodeChar_eq, h6, h11, h16, h12, h21, h18]
  by_cases h1 : c.toNat ≤ 0x7f
  · rw [if_pos (by omega), if_pos h1]
  by_cases h2 : c.toNat ≤ 0x7ff
  · rw [if_neg (by omega), if_pos (by omega), if_neg h1, if_pos h2, Nat.add_comm 0xC0,
      Nat.add_comm 0x80]
  by_cases h3 : c.toNat ≤ 0xffff
  · rw [if_neg (by omega), if_neg (by omega), if_pos (by omega), if_neg h1, if_neg h2, if_pos h3,
      Nat.add_comm 0xE0, Nat.add_comm 0x80, Nat.add_comm 0x80]
  · rw [if_neg (by omega), if_neg (by omega), if_neg (by omega), if_pos (by omega), if_neg h1,
      if_neg h2, if_neg h3, Nat.add_comm 0xF0, Nat.add_comm 0x80, Nat.add_comm 0x80,
      Nat.add_comm 0x80]

/-- What the continuation bytes add up to. -/
theorem utf8Continue_eq_some {value v : ℕ} {bytes : Bytes} :
    utf8Continue value bytes = some v ↔
      (∀ b ∈ bytes, 0x80 ≤ b.toNat ∧ b.toNat ≤ 0xBF) ∧
        v = bytes.foldl (fun v b => v * 64 + b.toNat % 64) value := by
  induction bytes generalizing value with
  | nil => simp [utf8Continue, eq_comm]
  | cons b bytes ih =>
    have hmask : b.toNat &&& 0x3F = b.toNat % 64 := and_mask b.toNat 6
    rw [utf8Continue]
    split
    · next hbad =>
      refine iff_of_false (by simp) ?_
      rintro ⟨hall, -⟩
      have hb := hall b List.mem_cons_self
      omega
    · next hgood =>
      have hb : 0x80 ≤ b.toNat ∧ b.toNat ≤ 0xBF := by omega
      rw [ih, hmask, Nat.shiftLeft_eq, List.forall_mem_cons, List.foldl_cons]
      simp [hb]

/-- What the check asks for. -/
theorem utf8CheckFull_eq_some {byte : UInt8} {more : Bytes} {v : ℕ} :
    utf8CheckFull (byte :: more) = some v ↔
      ∃ start, utf8Start (more.length + 1) byte.toNat = some start ∧
        utf8Continue start more = some v ∧ (v < 0xD800 ∨ 0xDFFF < v ∧ v < 0x110000) ∧
        ¬ (more.length = 1 ∧ v < 0x80 ∨ more.length = 2 ∧ v < 0x800 ∨
          more.length = 3 ∧ v < 0x10000) := by
  rw [utf8CheckFull]
  cases utf8Start (more.length + 1) byte.toNat with
  | none => simp
  | some start =>
    cases hvalue : utf8Continue start more with
    | none => simp [hvalue]
    | some value =>
      simp only [bind, Option.bind_some, hvalue, Option.some.injEq, exists_eq_left',
        Nat.reduceEqDiff]
      split
      · refine iff_of_false (by simp) ?_
        omega
      split
      · refine iff_of_false (by simp) ?_
        omega
      split
      · refine iff_of_false (by simp) ?_
        omega
      · simp only [Option.some.injEq]
        omega

theorem ofNat_eq_iff {n : ℕ} {b : UInt8} (h : n < 256) : UInt8.ofNat n = b ↔ n = b.toNat := by
  rw [← UInt8.toNat_inj, UInt8.toNat_ofNat', Nat.mod_eq_of_lt h]

/-- A continuation byte. -/
theorem continue_byte (n : ℕ) :
    0x80 ≤ (UInt8.ofNat (n % 64 + 0x80)).toNat ∧ (UInt8.ofNat (n % 64 + 0x80)).toNat ≤ 0xBF := by
  rw [UInt8.toNat_ofNat']
  omega

/-- Which bytes begin a character of two bytes, of three and of four. -/
theorem utf8CheckFirst_eq (byte : UInt8) :
    (utf8CheckFirst byte = 1 ↔ byte.toNat < 0x80) ∧
      (utf8CheckFirst byte = 2 ↔ 0xC2 ≤ byte.toNat ∧ byte.toNat ≤ 0xDF) ∧
      (utf8CheckFirst byte = 3 ↔ 0xE0 ≤ byte.toNat ∧ byte.toNat ≤ 0xEF) ∧
      (utf8CheckFirst byte = 4 ↔ 0xF0 ≤ byte.toNat ∧ byte.toNat ≤ 0xF4) := by
  rw [utf8CheckFirst]
  repeat' split
  all_goals omega

/-- **The check passes** exactly the characters of more than one byte, with their numbers. -/
theorem utf8CheckFull_iff {byte : UInt8} {more : Bytes} {v : ℕ}
    (hfirst : utf8CheckFirst byte = more.length + 1) (hmore : more ≠ []) :
    utf8CheckFull (byte :: more) = some v ↔
      ∃ c : Char, c.toNat = v ∧ String.utf8EncodeChar c = byte :: more := by
  have h5 : byte.toNat &&& 0x1F = byte.toNat % 32 := and_mask byte.toNat 5
  have h4 : byte.toNat &&& 0xF = byte.toNat % 16 := and_mask byte.toNat 4
  have h3 : byte.toNat &&& 0x7 = byte.toNat % 8 := and_mask byte.toNat 3
  obtain ⟨-, htwo, hthree, hfour⟩ := utf8CheckFirst_eq byte
  rw [utf8CheckFull_eq_some]
  simp only [utf8Continue_eq_some]
  constructor
  · rintro ⟨start, hstart, ⟨hmem, hv⟩, hchar, hsize⟩
    refine ⟨Char.ofNat v, toNat_ofNat hchar, ?_⟩
    rw [encodeChar_eq, toNat_ofNat hchar]
    -- by the number of bytes
    rcases more with _ | ⟨x, _ | ⟨y, _ | ⟨z, _ | ⟨_, _⟩⟩⟩⟩
    · exact absurd rfl hmore
    · have hb := htwo.mp hfirst
      obtain rfl : byte.toNat % 32 = start := by simpa [utf8Start, h5] using hstart
      simp only [List.forall_mem_cons, List.foldl_cons, List.foldl_nil] at hmem hv
      rw [if_neg (by omega), if_pos (by omega)]
      simp only [List.cons.injEq, and_true]
      exact ⟨(ofNat_eq_iff (by omega)).mpr (by omega), (ofNat_eq_iff (by omega)).mpr (by omega)⟩
    · have hb := hthree.mp hfirst
      obtain rfl : byte.toNat % 16 = start := by simpa [utf8Start, h4] using hstart
      have hmin : 0x800 ≤ v := by simpa using hsize
      simp only [List.forall_mem_cons, List.foldl_cons, List.foldl_nil] at hmem hv
      rw [if_neg (by omega), if_neg (by omega), if_pos (by omega)]
      simp only [List.cons.injEq, and_true]
      exact ⟨(ofNat_eq_iff (by omega)).mpr (by omega), (ofNat_eq_iff (by omega)).mpr (by omega),
        (ofNat_eq_iff (by omega)).mpr (by omega)⟩
    · have hb := hfour.mp hfirst
      obtain rfl : byte.toNat % 8 = start := by simpa [utf8Start, h3] using hstart
      have hmin : 0x10000 ≤ v := by simpa using hsize
      simp only [List.forall_mem_cons, List.foldl_cons, List.foldl_nil] at hmem hv
      rw [if_neg (by omega), if_neg (by omega), if_neg (by omega)]
      simp only [List.cons.injEq, and_true]
      exact ⟨(ofNat_eq_iff (by omega)).mpr (by omega), (ofNat_eq_iff (by omega)).mpr (by omega),
        (ofNat_eq_iff (by omega)).mpr (by omega), (ofNat_eq_iff (by omega)).mpr (by omega)⟩
    · have hle := utf8CheckFirst_le byte
      simp only [List.length_cons] at hfirst
      omega
  · rintro ⟨c, rfl, hc⟩
    have hchar := toNat_char c
    rw [encodeChar_eq] at hc
    split at hc
    · simp only [List.cons.injEq] at hc
      exact absurd hc.2.symm hmore
    split at hc
    · obtain ⟨rfl, rfl⟩ := List.cons.inj hc
      simp only [UInt8.toNat_ofNat'] at h5 ⊢
      refine ⟨_, if_pos rfl, ⟨?_, ?_⟩, hchar, ?_⟩
      · exact List.forall_mem_cons.mpr ⟨continue_byte _, List.forall_mem_nil _⟩
      · simp only [List.foldl_cons, List.foldl_nil, UInt8.toNat_ofNat', h5]
        omega
      · simp
        omega
    split at hc
    · obtain ⟨rfl, rfl⟩ := List.cons.inj hc
      simp only [UInt8.toNat_ofNat'] at h4 ⊢
      refine ⟨_, rfl, ⟨?_, ?_⟩, hchar, ?_⟩
      · exact List.forall_mem_cons.mpr ⟨continue_byte _,
          List.forall_mem_cons.mpr ⟨continue_byte _, List.forall_mem_nil _⟩⟩
      · simp only [List.foldl_cons, List.foldl_nil, UInt8.toNat_ofNat', h4]
        omega
      · simp
        omega
    · obtain ⟨rfl, rfl⟩ := List.cons.inj hc
      simp only [UInt8.toNat_ofNat'] at h3 ⊢
      refine ⟨_, rfl, ⟨?_, ?_⟩, hchar, ?_⟩
      · exact List.forall_mem_cons.mpr ⟨continue_byte _,
          List.forall_mem_cons.mpr ⟨continue_byte _, List.forall_mem_cons.mpr ⟨continue_byte _, List.forall_mem_nil _⟩⟩⟩
      · simp only [List.foldl_cons, List.foldl_nil, UInt8.toNat_ofNat', h3]
        omega
      · simp
        omega

/-- The first byte of a character tells how many there are. -/
theorem utf8CheckFirst_encodeChar {c : Char} {byte : UInt8} {more : Bytes}
    (h : String.utf8EncodeChar c = byte :: more) : utf8CheckFirst byte = more.length + 1 := by
  have hchar := toNat_char c
  obtain ⟨hone, htwo, hthree, hfour⟩ := utf8CheckFirst_eq byte
  rw [encodeChar_eq] at h
  split at h
  · obtain ⟨rfl, rfl⟩ := List.cons.inj h
    refine hone.mpr ?_
    rw [UInt8.toNat_ofNat']
    omega
  split at h
  · obtain ⟨rfl, rfl⟩ := List.cons.inj h
    refine htwo.mpr ?_
    rw [UInt8.toNat_ofNat']
    omega
  split at h
  · obtain ⟨rfl, rfl⟩ := List.cons.inj h
    refine hthree.mpr ?_
    rw [UInt8.toNat_ofNat']
    omega
  · obtain ⟨rfl, rfl⟩ := List.cons.inj h
    refine hfour.mpr ?_
    rw [UInt8.toNat_ofNat']
    omega

end Libpomelo
