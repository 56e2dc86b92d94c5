import Mathlib.Data.List.Basic
import Mathlib.Data.List.TakeWhile

/-!
# Texts of encoded characters

A text is a list of bytes that is the encoding of some characters, one after the other
(`Utf8.Text`). Texts are what strings are made of (`text_iff`), and they can be put together.
-/

namespace Utf8

/-- The bytes encode characters. -/
def Text (bytes : List UInt8) : Prop := ∃ cs : List Char, bytes = cs.flatMap String.utf8EncodeChar

theorem Text.nil : Text [] := ⟨[], rfl⟩

theorem Text.char (c : Char) : Text (String.utf8EncodeChar c) := ⟨[c], by simp⟩

theorem Text.append {bytes bytes' : List UInt8} (h : Text bytes) (h' : Text bytes') :
    Text (bytes ++ bytes') := by
  obtain ⟨cs, rfl⟩ := h
  obtain ⟨cs', rfl⟩ := h'
  exact ⟨cs ++ cs', List.flatMap_append.symm⟩

/-- The bytes of a string encode its characters. -/
theorem toByteArray_toList (s : String) :
    s.toByteArray.data.toList = s.toList.flatMap String.utf8EncodeChar := by
  have h : s.toByteArray = s.toList.utf8Encode := (String.utf8Encode_toList).symm
  rw [h, List.utf8Encode]
  simp

/-- Texts are the bytes of strings. -/
theorem text_iff {bytes : List UInt8} :
    Text bytes ↔ ∃ s : String, String.fromUTF8? ⟨bytes.toArray⟩ = some s := by
  have hvalid : ByteArray.IsValidUTF8 ⟨bytes.toArray⟩ ↔ Text bytes := by
    constructor
    · rintro ⟨cs, hcs⟩
      refine ⟨cs, ?_⟩
      have hdata : bytes = cs.utf8Encode.data.toList := congrArg (fun b : ByteArray => b.data.toList) hcs
      rw [hdata, List.utf8Encode, List.data_toByteArray]
    · rintro ⟨cs, hcs⟩
      refine ⟨cs, ?_⟩
      rw [hcs, List.utf8Encode, ByteArray.ext_iff, List.data_toByteArray]
  rw [← hvalid, String.fromUTF8?]
  constructor
  · intro h
    exact ⟨_, dif_pos h⟩
  · rintro ⟨s, hs⟩
    split at hs
    · next h => exact h
    · exact absurd hs (by simp)

/-- The string of a text has the bytes of the text. -/
theorem toByteArray_of_fromUTF8? {bytes : List UInt8} {s : String}
    (h : String.fromUTF8? ⟨bytes.toArray⟩ = some s) : s.toByteArray.data.toList = bytes := by
  rw [String.fromUTF8?] at h
  split at h
  · rw [← Option.some.inj h]
    simp [String.fromUTF8]
  · exact absurd h (by simp)

/-- A byte below 128 is a character. -/
theorem encodeChar_of_lt {b : UInt8} (h : b.toNat < 128) :
    String.utf8EncodeChar (Char.ofNat b.toNat) = [b] := by
  have hval : (Char.ofNat b.toNat).val.toNat = b.toNat := by
    rw [Char.ofNat, dif_pos (.inl (by omega))]
    rfl
  rw [String.utf8EncodeChar]
  simp only [hval]
  rw [if_pos (by omega), UInt8.ofNat_toNat]

/-- The encoding of a character, by the number of its bytes. -/
theorem encodeChar_eq (c : Char) : String.utf8EncodeChar c =
    if c.toNat ≤ 0x7f then [UInt8.ofNat c.toNat]
    else if c.toNat ≤ 0x7ff then
      [UInt8.ofNat (c.toNat / 64 % 32 + 0xc0), UInt8.ofNat (c.toNat % 64 + 0x80)]
    else if c.toNat ≤ 0xffff then
      [UInt8.ofNat (c.toNat / 4096 % 16 + 0xe0), UInt8.ofNat (c.toNat / 64 % 64 + 0x80),
        UInt8.ofNat (c.toNat % 64 + 0x80)]
    else
      [UInt8.ofNat (c.toNat / 262144 % 8 + 0xf0), UInt8.ofNat (c.toNat / 4096 % 64 + 0x80),
        UInt8.ofNat (c.toNat / 64 % 64 + 0x80), UInt8.ofNat (c.toNat % 64 + 0x80)] := rfl

/-- A byte below 128 is a character of its own, wherever it stands. -/
theorem encodeChar_of_mem {b : UInt8} {c : Char} (hmem : b ∈ String.utf8EncodeChar c)
    (hb : b.toNat < 128) : String.utf8EncodeChar c = [b] := by
  have hhigh : ∀ n k, 128 ≤ n + k → n + k < 256 → b ≠ UInt8.ofNat (n + k) := by
    rintro n k hle hlt rfl
    rw [UInt8.toNat_ofNat', Nat.mod_eq_of_lt hlt] at hb
    omega
  rw [encodeChar_eq] at hmem ⊢
  split at hmem
  · next h =>
    rw [if_pos h, List.mem_singleton.mp hmem]
  · split at hmem
    · simp only [List.mem_cons, List.not_mem_nil, or_false] at hmem
      rcases hmem with hmem | hmem <;> exact absurd hmem (hhigh _ _ (by omega) (by omega))
    split at hmem
    · simp only [List.mem_cons, List.not_mem_nil, or_false] at hmem
      rcases hmem with hmem | hmem | hmem <;> exact absurd hmem (hhigh _ _ (by omega) (by omega))
    · simp only [List.mem_cons, List.not_mem_nil, or_false] at hmem
      rcases hmem with hmem | hmem | hmem | hmem <;>
        exact absurd hmem (hhigh _ _ (by omega) (by omega))

/-- A text begins with a character. -/
theorem Text.first {b : UInt8} {bytes : List UInt8} (h : Text (b :: bytes)) :
    ∃ c more rest, String.utf8EncodeChar c = b :: more ∧ bytes = more ++ rest ∧ Text rest := by
  obtain ⟨_ | ⟨c, cs⟩, hcs⟩ := h
  · exact absurd hcs (by simp)
  · rw [List.flatMap_cons] at hcs
    rcases hc : String.utf8EncodeChar c with _ | ⟨b', more⟩
    · have hlen := c.utf8Size_pos
      rw [← String.length_utf8EncodeChar, hc] at hlen
      exact absurd hlen (by simp)
    · rw [hc, List.cons_append] at hcs
      obtain ⟨rfl, rfl⟩ := List.cons.inj hcs
      exact ⟨c, more, _, hc, rfl, cs, rfl⟩

/-- A byte below 128 parts a text into two. -/
theorem Text.split {before after : List UInt8} {b : UInt8} (hb : b.toNat < 128)
    (h : Text (before ++ b :: after)) : Text before ∧ Text after := by
  obtain ⟨cs, hcs⟩ := h
  induction cs generalizing before with
  | nil => exact absurd hcs (by simp)
  | cons c cs ih =>
    rw [List.flatMap_cons] at hcs
    obtain ⟨t, hc, hrest⟩ | ⟨t, rfl, hrest⟩ := List.append_eq_append_iff.mp hcs
    · -- the first character ends behind `before`
      cases t with
      | nil =>
        rw [List.append_nil] at hc
        exact ⟨hc ▸ Text.char c, (@ih [] (by simpa using hrest)).2⟩
      | cons b' t =>
        obtain ⟨rfl, rfl⟩ := List.cons.inj hrest
        have hone := encodeChar_of_mem (c := c) (by rw [hc]; simp) hb
        rw [hone] at hc
        have hlen := congrArg List.length hc
        simp only [List.length_append, List.length_cons, List.length_nil] at hlen
        obtain rfl := List.eq_nil_of_length_eq_zero (by omega : before.length = 0)
        obtain rfl := List.eq_nil_of_length_eq_zero (by omega : t.length = 0)
        exact ⟨.nil, cs, rfl⟩
    · obtain ⟨hbefore, hafter⟩ := ih hrest.symm
      exact ⟨(Text.char c).append hbefore, hafter⟩

/-- Bytes below 128 may be taken off a text. -/
theorem Text.drop {before after : List UInt8} (hbefore : ∀ b ∈ before, b.toNat < 128)
    (h : Text (before ++ after)) : Text after := by
  induction before with
  | nil => exact h
  | cons b before ih =>
    rw [List.forall_mem_cons] at hbefore
    exact ih hbefore.2 (@Text.split [] _ _ hbefore.1 h).2

/-- A text that begins with a byte below 128 goes on with a text. -/
theorem Text.ascii {b : UInt8} {bytes : List UInt8} (hb : b.toNat < 128) (h : Text bytes) :
    Text (b :: bytes) := by
  have hchar := Text.char (Char.ofNat b.toNat)
  rw [encodeChar_of_lt hb] at hchar
  exact hchar.append h

end Utf8
