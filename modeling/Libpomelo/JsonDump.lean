import Libpomelo.Protocol

/-!
# The text of a JSON value (`dump.c` of jansson)

`json_dumps` with `JSON_COMPACT`, the flag the library uses: no blanks, `,` and `:` as
separators, control characters, quotes and backslashes escaped, everything else as it is.
The members of an object are printed in the order of the iterator.

What `printf` makes of a double under `%.17g`, as `jsonp_dtostr` completes it, is a
parameter.
-/

namespace Libpomelo

/-- A digit of `%04x`. -/
def hexDigit (n : ℕ) : UInt8 := UInt8.ofNat (if n < 10 then 48 + n else 87 + n)

/-- A byte of a string as `dump_string` prints it. -/
def dumpByte (b : UInt8) : Bytes :=
  if b = 92 then [92, 92]
  else if b = 34 then [92, 34]
  else if b = 8 then [92, 98]
  else if b = 12 then [92, 102]
  else if b = 10 then [92, 110]
  else if b = 13 then [92, 114]
  else if b = 9 then [92, 116]
  else if b < 0x20 then [92, 117, 48, 48, hexDigit (b.toNat / 16), hexDigit (b.toNat % 16)]
  else [b]

/-- `dump_string`. -/
def dumpString (s : String) : Bytes := 34 :: ((cString (utf8Bytes s)).flatMap dumpByte ++ [34])

/-- `%lld`. -/
def dumpInteger (i : ℤ) : Bytes :=
  if i < 0 then 45 :: utf8Bytes (decimal i.natAbs) else utf8Bytes (decimal i.natAbs)

/-- `int n = json_array_size(array)`, as the bound of the loop over the elements. -/
def dumpCount (len : ℕ) : ℕ := (Int.bmod len (2 ^ 32)).toNat

mutual

/-- `do_dump`. -/
def doDump (dtostr : FiniteDouble → Bytes) : Json → Bytes
  | .null => utf8Bytes "null"
  | .bool b => utf8Bytes (if b then "true" else "false")
  | .int i => dumpInteger i
  | .real x => dtostr x
  | .str s => dumpString s
  | .arr xs => 91 :: (dumpElems dtostr xs (dumpCount xs.length) ++ [93])
  | .obj kvs => 123 :: (dumpMembers dtostr kvs ++ [125])
termination_by structural x => x

/-- The loop over the elements, with `n` of them still to print. -/
def dumpElems (dtostr : FiniteDouble → Bytes) : List Json → ℕ → Bytes
  | [], _ => []
  | x :: xs, n =>
    if n = 0 then []
    else doDump dtostr x ++ (if n = 1 then [] else 44 :: dumpElems dtostr xs (n - 1))
termination_by structural x => x

/-- The loop over the members. -/
def dumpMembers (dtostr : FiniteDouble → Bytes) : List (String × Json) → Bytes
  | [] => []
  | (key, v) :: kvs =>
    dumpString key ++ 58 :: doDump dtostr v ++
      (if kvs.isEmpty then [] else 44 :: dumpMembers dtostr kvs)
termination_by structural x => x

end

/-- `json_dumps(_, JSON_COMPACT)`, which prints arrays and objects only. -/
def jsonDumps (dtostr : FiniteDouble → Bytes) : Json → Option Bytes
  | .arr xs => some (doDump dtostr (.arr xs))
  | .obj kvs => some (doDump dtostr (.obj kvs))
  | _ => none

/-! ## Lengths -/

theorem length_dumpByte_pos (b : UInt8) : 1 ≤ (dumpByte b).length := by
  unfold dumpByte
  repeat' split
  all_goals simp

theorem cString_of_not_mem {bytes : Bytes} (h : 0 ∉ bytes) : cString bytes = bytes := by
  refine List.takeWhile_eq_self_iff.mpr fun b hb => ?_
  rw [decide_eq_true_eq]
  rintro rfl
  exact h hb

theorem dumpCount_of_lt {n : ℕ} (h : n < 2 ^ 31) : dumpCount n = n := by
  have hbmod : Int.bmod (n : ℤ) (2 ^ 32) = n := by
    apply Int.bmod_eq_of_le
    · omega
    · omega
  unfold dumpCount
  rw [hbmod]
  exact Int.toNat_natCast n

/-- A string is printed with its quotes, and no byte of it vanishes. -/
theorem length_dumpString_ge (s : String) :
    (cString (utf8Bytes s)).length + 2 ≤ (dumpString s).length := by
  have hbytes : ∀ bytes : Bytes, bytes.length ≤ (bytes.flatMap dumpByte).length := by
    intro bytes
    induction bytes with
    | nil => exact le_rfl
    | cons b bytes ih =>
      have hb := length_dumpByte_pos b
      rw [List.flatMap_cons, List.length_append, List.length_cons]
      omega
  have h := hbytes (cString (utf8Bytes s))
  rw [dumpString, List.length_cons, List.length_append, List.length_singleton]
  omega

/-- No character takes less than a byte. -/
theorem length_le_utf8Bytes (s : String) : s.length ≤ (utf8Bytes s).length := by
  have hchars : ∀ chars : List Char, chars.length ≤ chars.utf8Encode.size := by
    intro chars
    induction chars with
    | nil => exact le_rfl
    | cons c chars ih =>
      have hc := c.utf8Size_pos
      rw [List.utf8Encode_cons, List.utf8Encode_singleton, ByteArray.size_append, List.length_cons,
        List.size_toByteArray, String.length_utf8EncodeChar]
      omega
  have h := hchars s.toList
  rw [String.utf8Encode_toList, String.length_toList] at h
  exact h

/-- A number is printed with enough digits, a negative one with a sign in front of them. -/
theorem length_dumpInteger (i : ℤ) : ∃ k, 0 < k ∧ i.natAbs < 10 ^ k ∧
    (dumpInteger i).length = if i < 0 then k + 1 else k := by
  have hle : (decimal i.natAbs).length ≤ (utf8Bytes (decimal i.natAbs)).length :=
    length_le_utf8Bytes _
  have hpos : 0 < (decimal i.natAbs).length := Nat.length_repr_pos
  refine ⟨(utf8Bytes (decimal i.natAbs)).length, hpos.trans_le hle, ?_, ?_⟩
  · exact (Nat.length_repr_le_iff (hpos.trans_le hle)).mp hle
  · rw [dumpInteger]
    split <;> rfl

end Libpomelo
