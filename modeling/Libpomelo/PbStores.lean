import Libpomelo.PbDecode

/-!
# What the protobuf decoder stores for a string

A string field is read into memory of its own: `pb_decode_strlen` reads the length `L`,
`malloc` gets `L + 1`, and `pb_decode_string` copies `L` bytes, if there are so many, and
stores a zero behind them in any case. The length is the low half of a 64-bit varint and the
sum is computed in `uint32_t`, so for one length the sum is `0` and the zero is stored
`2 ^ 32 - 1` bytes behind an allocation of no bytes.
-/

namespace Libpomelo

/-- A string on its way into memory. -/
structure StringDecode : Type where
  /-- `str_len` -/
  strLen : ℕ
  /-- the argument of `malloc` -/
  size : ℕ
  /-- the offsets in the allocation that are stored to -/
  stores : List ℕ
  deriving DecidableEq, Repr

/-- The string branch of `pb_decode_proto`, by its allocation; `none` when no length can be
read. `allocated` is the outcome of `malloc`. -/
def stringDecode (buf : Bytes) (allocated : Bool) (s : IStream) : Option StringDecode :=
  match pbDecodeVarint32 buf s with
  | (none, _) => none
  | (some strLen, s) =>
    let copied := if (pbRead buf s strLen).1.isSome then List.range strLen else []
    some ⟨strLen, (strLen + 1) % 2 ^ 32, if allocated then copied ++ [strLen] else []⟩

/-- More is allocated than the length, and nothing is stored elsewhere. -/
def StringDecode.InBounds (d : StringDecode) : Prop :=
  d.strLen < d.size ∧ ∀ offset ∈ d.stores, offset < d.size

instance : DecidablePred StringDecode.InBounds := fun _ => inferInstanceAs (Decidable (_ ∧ _))

section Strings

variable {buf : Bytes} {allocated : Bool} {s : IStream} {d : StringDecode}

/-- The length is one of 32 bits, and every store is at most at its offset. -/
theorem stringDecode_eq_some (h : stringDecode buf allocated s = some d) :
    d.strLen < 2 ^ 32 ∧ d.size = (d.strLen + 1) % 2 ^ 32 ∧ ∀ offset ∈ d.stores, offset ≤ d.strLen := by
  rw [stringDecode] at h
  split at h
  · exact absurd h (by simp)
  · next strLen s₁ hread =>
    obtain rfl := Option.some.inj h
    obtain ⟨n, -, hn⟩ := Option.map_eq_some_iff.mp (congrArg Prod.fst hread)
    refine ⟨hn ▸ Nat.mod_lt _ (by decide), rfl, fun offset hoffset => ?_⟩
    dsimp only at hoffset ⊢
    split at hoffset
    · rcases List.mem_append.mp hoffset with hcopied | hzero
      · split at hcopied
        · exact (List.mem_range.mp hcopied).le
        · exact absurd hcopied List.not_mem_nil
      · exact (List.mem_singleton.mp hzero).le
    · exact absurd hoffset List.not_mem_nil

/-- Only the last length of 32 bits leaves no room for the zero. -/
theorem StringDecode.inBounds_iff (hlen : d.strLen < 2 ^ 32) (hsize : d.size = (d.strLen + 1) % 2 ^ 32)
    (hstores : ∀ offset ∈ d.stores, offset ≤ d.strLen) : d.InBounds ↔ d.strLen ≠ 2 ^ 32 - 1 := by
  constructor
  · rintro ⟨hroom, -⟩ hlast
    rw [hsize, hlast] at hroom
    exact absurd hroom (by decide)
  · intro hne
    have hroom : d.size = d.strLen + 1 := by
      rw [hsize]
      exact Nat.mod_eq_of_lt (by omega)
    refine ⟨by omega, fun offset hoffset => ?_⟩
    have hle := hstores offset hoffset
    omega

/-- The decoder stops with a bad store exactly where the sum wraps. -/
theorem pbDecodeStringValue_badStore (h : stringDecode buf allocated s = some d) :
    (∃ s', pbDecodeStringValue buf s = .error (.badStore, s')) ↔ d.strLen = 2 ^ 32 - 1 := by
  obtain ⟨hlen, -, -⟩ := stringDecode_eq_some h
  rw [stringDecode] at h
  split at h
  · exact absurd h (by simp)
  · next strLen s₁ hread =>
    obtain rfl := Option.some.inj h
    rw [pbDecodeStringValue, hread]
    dsimp only at hlen ⊢
    by_cases hwrap : (strLen + 1) % 2 ^ 32 ≤ strLen
    · rw [if_pos hwrap]
      refine ⟨fun _ => ?_, fun _ => ⟨_, rfl⟩⟩
      by_contra hne
      rw [Nat.mod_eq_of_lt (by omega)] at hwrap
      omega
    · rw [if_neg hwrap]
      refine ⟨?_, fun hlast => absurd (by rw [hlast]; decide) hwrap⟩
      rintro ⟨s', hstop⟩
      split at hstop <;> exact absurd hstop (by simp)

/-- **A string fits into its allocation** exactly when the length that was read is not
`2 ^ 32 - 1`: for every buffer, wherever in it the string stands, whether or not the bytes of
the string are there and whether or not the memory is. Where it does not, the decoder stops with a
bad store. -/
theorem stringDecode_inBounds_iff (h : stringDecode buf allocated s = some d) :
    (d.InBounds ↔ d.strLen ≠ 2 ^ 32 - 1) ∧
      ((∃ s', pbDecodeStringValue buf s = .error (.badStore, s')) ↔ d.strLen = 2 ^ 32 - 1) := by
  obtain ⟨hlen, hsize, hstores⟩ := stringDecode_eq_some h
  exact ⟨StringDecode.inBounds_iff hlen hsize hstores, pbDecodeStringValue_badStore h⟩

end Strings

/-- The string `ab` in its field's payload. -/
theorem stringDecode_inBounds_ab :
    ∃ d, stringDecode [2, 97, 98] true ⟨0, 3, 0⟩ = some d ∧ (d.InBounds ↔ d.strLen ≠ 2 ^ 32 - 1) ∧
      ((∃ s', pbDecodeStringValue [2, 97, 98] ⟨0, 3, 0⟩ = .error (.badStore, s')) ↔
        d.strLen = 2 ^ 32 - 1) :=
  have hread : stringDecode [2, 97, 98] true ⟨0, 3, 0⟩ = some ⟨2, 3, [0, 1, 2]⟩ := by decide
  ⟨_, hread, stringDecode_inBounds_iff hread⟩

/-- A level with a string. -/
def noteLevel : Json :=
  .obj [("__messages", .obj []), ("__tags", .obj [("1", .str "note")]),
    ("note", .obj [("option", .str "optional"), ("type", .str "string"), ("tag", .int 1)])]

/-- **Six bytes** are enough: a tag, and `2 ^ 32 - 1` for the length. Nothing is allocated,
no byte can be read, and the zero is stored at the offset `2 ^ 32 - 1`. -/
theorem not_stringDecode_inBounds :
    ∃ d, stringDecode [10, 255, 255, 255, 255, 15] true ⟨1, 5, 1⟩ = some d ∧ d.size = 0 ∧
      d.stores = [2 ^ 32 - 1] ∧ ¬ d.InBounds ∧
      pcPbDecode [10, 255, 255, 255, 255, 15] (.obj []) noteLevel (.obj []) = .error .badStore := by
  refine ⟨⟨2 ^ 32 - 1, 0, [2 ^ 32 - 1]⟩, by decide, rfl, rfl, by decide, ?_⟩
  rfl

end Libpomelo
