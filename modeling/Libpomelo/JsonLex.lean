import Libpomelo.JsonUtf
import Libpomelo.Json
import Libpomelo.Outcome

/-!
# Tokens of a JSON text (`load.c` of jansson)

The lexer reads bytes from a stream that checks the encoding of each character before it
delivers the first byte of it. A byte can be given back; a zero byte that is given back is
lost, because the stream takes the empty buffer for a used up one.

What was read for a token is kept (`saved_text`), and strings and numbers are made from it
in a second pass. That pass relies on the first one, and a byte that is given back is to be the
one that was delivered last: the assertions, and the reads up to the closing quote, are outcomes
of the model (`JsonStop`).

`strtod` is a parameter. Memory is never short here.
-/

namespace Libpomelo

open BinaryFloat (Datum double)

/-- Why no value was loaded. -/
inductive JsonStop : Type where
  /-- `NULL` -/
  | refused
  /-- an assertion failed -/
  | assertion
  /-- a read behind the saved text -/
  | overread
  /-- a write behind the block of a string -/
  | overrun
  /-- a string that is not UTF-8 was built -/
  | badText
  /-- the recursion was not followed to its end -/
  | unfinished
  deriving DecidableEq, Repr

/-! ## The stream -/

/-- What `stream_get` returns. -/
inductive StreamChar : Type where
  /-- a byte -/
  | byte (b : UInt8)
  /-- `STREAM_STATE_EOF` -/
  | eof
  /-- `STREAM_STATE_ERROR` -/
  | error
  /-- nothing: the assertion of `stream_get` failed -/
  | aborted
  deriving DecidableEq, Repr

/-- `state` of a `stream_t`. -/
inductive StreamState : Type where
  | ok | eof | error
  deriving DecidableEq, Repr

/-- `stream_t`, without the position it keeps for error messages. -/
structure JsonStream : Type where
  /-- what `buffer` holds in front of `buffer_pos`, the last byte first -/
  behind : Bytes
  /-- what `buffer` holds from `buffer_pos` on, up to a zero byte -/
  ahead : Bytes
  /-- what `get` has not delivered yet -/
  rest : Bytes
  /-- `state` -/
  state : StreamState
  deriving DecidableEq, Repr

/-- `stream_init`. -/
def streamInit (data : Bytes) : JsonStream := ⟨[], [], data, .ok⟩

/-- The continuation bytes that `stream_get` reads; the `EOF` of an input that ends among them
is stored as a byte. -/
def streamContinue (count : ℕ) (rest : Bytes) : Bytes :=
  (rest ++ List.replicate count 0xFF).take count

/-- `stream_get`. The buffer of a stream in the state `STREAM_STATE_ERROR` is not looked at. -/
def streamGet (s : JsonStream) : StreamChar × JsonStream :=
  match s.state with
  | .eof => (.eof, s)
  | .error => (.error, s)
  | .ok =>
    match s.ahead, s.rest with
    | b :: ahead, _ => (.byte b, { s with behind := b :: s.behind, ahead := ahead })
    | [], [] => (.eof, { s with state := .eof })
    | [], b :: rest =>
      if b.toNat < 0x80 then (.byte b, { s with behind := [b], rest := rest })
      else
        let count := utf8CheckFirst b
        let more := streamContinue (count - 1) rest
        if count = 0 then (.error, { s with state := .error })
        else if count < 2 then (.aborted, s)
        else if utf8CheckFull (b :: more) = none then (.error, { s with state := .error })
        else (.byte b, { s with behind := [b], ahead := more, rest := rest.drop (count - 1) })

/-- `stream_unget`: the byte in front of `buffer_pos` is asserted to be there and to be `c`. A zero
byte in the buffer counts as no byte. -/
def streamUnget (c : StreamChar) (s : JsonStream) : Except JsonStop JsonStream :=
  match c with
  | .byte b =>
    if s.behind.head? = some b then
      .ok { s with behind := s.behind.tail, ahead := if b = 0 then [] else b :: s.ahead }
    else .error .assertion
  | .aborted => .error .assertion
  | _ => .ok s

/-! ## Saved text -/

/-- `lex_t`, without the token. -/
structure Lex : Type where
  /-- `stream` -/
  stream : JsonStream
  /-- `saved_text` -/
  savedText : Bytes
  deriving DecidableEq, Repr

/-- `lex_save`. -/
def lexSave (c : StreamChar) (lex : Lex) : Lex :=
  match c with
  | .byte b => { lex with savedText := lex.savedText ++ [b] }
  | _ => lex

/-- `lex_get`. -/
def lexGet (lex : Lex) : StreamChar × Lex :=
  ((streamGet lex.stream).1, { lex with stream := (streamGet lex.stream).2 })

/-- `lex_get_save`. -/
def lexGetSave (lex : Lex) : StreamChar × Lex := ((lexGet lex).1, lexSave (lexGet lex).1 (lexGet lex).2)

/-- `lex_unget`. -/
def lexUnget (c : StreamChar) (lex : Lex) : Except JsonStop Lex := do
  return { lex with stream := ← streamUnget c lex.stream }

/-- `strbuffer_pop`: the last byte, or zero, and what is left. -/
def strbufferPop (text : Bytes) : UInt8 × Bytes := (text.getLast?.getD 0, text.dropLast)

/-- `lex_unget_unsave`: the byte that is saved last is asserted to be `c`. -/
def lexUngetUnsave (c : StreamChar) (lex : Lex) : Except JsonStop Lex := do
  let lex' ← lexUnget c lex
  match c with
  | .byte b =>
    if (strbufferPop lex.savedText).1 = b then
      return { lex' with savedText := (strbufferPop lex.savedText).2 }
    else .error .assertion
  | _ => return lex'

/-- A token is given up at a character, which is given back before. -/
def lexGiveUp {α : Type} (c : StreamChar) (lex : Lex) : Except JsonStop α := do
  let _ ← lexUngetUnsave c lex
  .error .refused

/-- Why a token is given up at a character that is not given back. -/
def StreamChar.stop : StreamChar → JsonStop
  | .aborted => .assertion
  | _ => .refused

/-! ## Kinds of bytes -/

/-- `l_isdigit`. -/
def lIsDigit (b : UInt8) : Bool := 48 ≤ b && b ≤ 57

/-- `l_isupper`. -/
def lIsUpper (b : UInt8) : Bool := 65 ≤ b && b ≤ 90

/-- `l_islower`. -/
def lIsLower (b : UInt8) : Bool := 97 ≤ b && b ≤ 122

/-- `l_isalpha`. -/
def lIsAlpha (b : UInt8) : Bool := lIsUpper b || lIsLower b

/-- `l_isxdigit`. -/
def lIsXdigit (b : UInt8) : Bool := lIsDigit b || (65 ≤ b && b ≤ 70) || (97 ≤ b && b ≤ 102)

/-- A blank between tokens. -/
def lIsSpace (b : UInt8) : Bool := b = 32 || b = 9 || b = 10 || b = 13

/-- What was read is a byte of the given kind. -/
def StreamChar.is (p : UInt8 → Bool) : StreamChar → Bool
  | .byte b => p b
  | _ => false

/-! ## Progress -/

/-- Bytes the stream has still to deliver. -/
def JsonStream.left (s : JsonStream) : ℕ := s.ahead.length + s.rest.length

/-- One for a byte in hand. -/
def StreamChar.count : StreamChar → ℕ
  | .byte _ => 1
  | _ => 0

theorem length_streamContinue (count : ℕ) (rest : Bytes) :
    (streamContinue count rest).length = count := by
  rw [streamContinue, List.length_take, List.length_append, List.length_replicate]
  omega

/-- What passes the check was all there. -/
theorem streamContinue_eq {b : UInt8} {count v : ℕ} {rest : Bytes}
    (h : utf8CheckFull (b :: streamContinue count rest) = some v) :
    count ≤ rest.length ∧ streamContinue count rest = rest.take count := by
  have hle : count ≤ rest.length := by
    by_contra hshort
    obtain ⟨start, -, hall, -⟩ := utf8CheckFull_eq_some.mp h
    have hmem : (0xFF : UInt8) ∈ streamContinue count rest := by
      rw [streamContinue, List.take_append, List.mem_append]
      refine .inr ?_
      rw [List.take_replicate, List.mem_replicate]
      exact ⟨by omega, rfl⟩
    exact absurd ((utf8Continue_eq_some.mp hall).1 _ hmem).2 (by decide)
  exact ⟨hle, by rw [streamContinue, List.take_append_of_le_length hle]⟩

/-- What `stream_get` can do. -/
inductive Gets (s : JsonStream) : StreamChar × JsonStream → Prop
  /-- nothing is left, or nothing was left before -/
  | eof : s.state = .eof ∨ s.state = .ok ∧ s.ahead = [] ∧ s.rest = [] →
      Gets s (.eof, { s with state := .eof })
  /-- the encoding is broken, or it was broken before -/
  | error : Gets s (.error, { s with state := .error })
  /-- a byte that was held back -/
  | held {b : UInt8} {ahead : Bytes} : s.state = .ok → s.ahead = b :: ahead →
      Gets s (.byte b, { s with behind := b :: s.behind, ahead := ahead })
  /-- the first byte of a character, whose other bytes are held back -/
  | char {c : Char} {b : UInt8} {more rest : Bytes} : s.state = .ok → s.ahead = [] →
      String.utf8EncodeChar c = b :: more → s.rest = b :: (more ++ rest) →
      Gets s (.byte b, ⟨[b], more, rest, .ok⟩)

/-- A byte that begins a character is read with the others of it. -/
theorem streamContinue_char {b : UInt8} {rest : Bytes} (htwo : 2 ≤ utf8CheckFirst b)
    (hfull : utf8CheckFull (b :: streamContinue (utf8CheckFirst b - 1) rest) ≠ none) :
    ∃ c : Char, String.utf8EncodeChar c = b :: streamContinue (utf8CheckFirst b - 1) rest ∧
      rest = streamContinue (utf8CheckFirst b - 1) rest ++ rest.drop (utf8CheckFirst b - 1) := by
  obtain ⟨v, hv⟩ := Option.ne_none_iff_exists'.mp hfull
  obtain ⟨-, heq⟩ := streamContinue_eq hv
  have hlen : (streamContinue (utf8CheckFirst b - 1) rest).length + 1 = utf8CheckFirst b := by
    rw [length_streamContinue]
    omega
  have hmore : streamContinue (utf8CheckFirst b - 1) rest ≠ [] := by
    intro hnil
    rw [hnil, List.length_nil] at hlen
    omega
  obtain ⟨c, -, hc⟩ := (utf8CheckFull_iff hlen.symm hmore).mp hv
  exact ⟨c, hc, by rw [heq, List.take_append_drop]⟩

/-- **The assertion of `stream_get` holds**: a byte that is not ASCII begins no character, or one of
two bytes at least. -/
theorem two_le_utf8CheckFirst {b : UInt8} (hascii : ¬ b.toNat < 0x80)
    (hcount : utf8CheckFirst b ≠ 0) : 2 ≤ utf8CheckFirst b := by
  have hone : utf8CheckFirst b ≠ 1 := fun hone => hascii ((utf8CheckFirst_eq b).1.mp hone)
  omega

theorem streamGet_gets (s : JsonStream) : Gets s (streamGet s) := by
  obtain ⟨behind, ahead, rest, state⟩ := s
  rw [streamGet]
  cases state with
  | eof => exact .eof (.inl rfl)
  | error => exact .error
  | ok =>
    rcases ahead with _ | ⟨b, ahead⟩
    · rcases rest with _ | ⟨b, rest⟩
      · exact .eof (.inr ⟨rfl, rfl, rfl⟩)
      · dsimp only
        split
        · next hascii => exact .char rfl rfl (Utf8.encodeChar_of_lt hascii) rfl
        · next hascii =>
          split
          · exact .error
          next hcount =>
          have htwo := two_le_utf8CheckFirst hascii hcount
          rw [if_neg (by omega)]
          split
          · exact .error
          · next hfull =>
            obtain ⟨c, hc, hrest⟩ := streamContinue_char htwo hfull
            exact .char rfl rfl hc (congrArg (b :: ·) hrest)
    · exact .held rfl rfl

/-- **Reading** takes the byte that is read off the stream, and nothing else. -/
theorem streamGet_left (s : JsonStream) :
    (streamGet s).1.count + (streamGet s).2.left = s.left := by
  have h := streamGet_gets s
  generalize streamGet s = r at h
  cases h with
  | eof hend => exact Nat.zero_add _
  | error => exact Nat.zero_add _
  | held hok hahead =>
    simp only [StreamChar.count, JsonStream.left, hahead, List.length_cons]
    omega
  | char hok hahead hc hrest =>
    simp only [StreamChar.count, JsonStream.left, hahead, hrest, List.length_cons,
      List.length_append, List.length_nil]
    omega

theorem lexGet_left (lex : Lex) :
    (lexGet lex).1.count + (lexGet lex).2.stream.left = lex.stream.left := streamGet_left _

theorem lexSave_stream (c : StreamChar) (lex : Lex) : (lexSave c lex).stream = lex.stream := by
  cases c <;> rfl

theorem lexGetSave_left (lex : Lex) :
    (lexGetSave lex).1.count + (lexGetSave lex).2.stream.left = lex.stream.left := by
  rw [lexGetSave, lexSave_stream]
  exact lexGet_left lex

/-! ## Loops over bytes -/

theorem StreamChar.count_of_is {p : UInt8 → Bool} {c : StreamChar} (h : c.is p = true) :
    c.count = 1 := by
  cases c with
  | byte b => rfl
  | eof | error | aborted => exact absurd h (by simp [StreamChar.is])

/-- `while(p(c)) c = lex_get_save(lex)`. -/
def lexWhile (p : UInt8 → Bool) (c : StreamChar) (lex : Lex) : StreamChar × Lex :=
  if _h : c.is p = true then lexWhile p (lexGetSave lex).1 (lexGetSave lex).2 else (c, lex)
termination_by c.count + lex.stream.left
decreasing_by
  have hcount := StreamChar.count_of_is _h
  have hleft := lexGetSave_left lex
  omega

/-- The loop of `lex_scan` over blanks. -/
def lexBlanks (c : StreamChar) (lex : Lex) : StreamChar × Lex :=
  if _h : c.is lIsSpace = true then lexBlanks (lexGet lex).1 (lexGet lex).2 else (c, lex)
termination_by c.count + lex.stream.left
decreasing_by
  have hcount := StreamChar.count_of_is _h
  have hleft := lexGet_left lex
  omega

/-- The digits of a `\u` escape. -/
def lexHex : ℕ → StreamChar → Lex → Except JsonStop (StreamChar × Lex)
  | 0, c, lex => .ok (c, lex)
  | n + 1, c, lex =>
    if c.is lIsXdigit then lexHex n (lexGetSave lex).1 (lexGetSave lex).2 else .error c.stop

/-- The bytes that may follow a backslash, `u` apart. -/
def lIsEscape (b : UInt8) : Bool :=
  b = 34 || b = 92 || b = 47 || b = 98 || b = 102 || b = 110 || b = 114 || b = 116

/-- An escape of `lex_scan_string`, behind the backslash. -/
def lexEscape (lex : Lex) : Except JsonStop (StreamChar × Lex) :=
  let c := (lexGetSave lex).1
  let lex := (lexGetSave lex).2
  if c = .byte 117 then lexHex 4 (lexGetSave lex).1 (lexGetSave lex).2
  else if c.is lIsEscape then .ok (lexGetSave lex)
  else .error c.stop

theorem lexHex_left {n : ℕ} {c : StreamChar} {lex : Lex} {r : StreamChar × Lex}
    (h : lexHex n c lex = .ok r) :
    r.1.count + r.2.stream.left + n ≤ c.count + lex.stream.left := by
  induction n generalizing c lex with
  | zero =>
    obtain rfl := Except.ok.inj h
    exact le_rfl
  | succ n ih =>
    rw [lexHex] at h
    split at h
    · next hx =>
      have hcount := StreamChar.count_of_is hx
      have hleft := lexGetSave_left lex
      have hmore := ih h
      omega
    · exact absurd h (by simp)

theorem lexEscape_left {lex : Lex} {r : StreamChar × Lex} (h : lexEscape lex = .ok r) :
    r.1.count + r.2.stream.left < lex.stream.left + 1 := by
  have hleft := lexGetSave_left lex
  have hleft' := lexGetSave_left (lexGetSave lex).2
  rw [lexEscape] at h
  split at h
  · have hhex := lexHex_left h
    omega
  split at h
  · obtain rfl := Except.ok.inj h
    omega
  · exact absurd h (by simp)

/-- The first pass of `lex_scan_string`: up to the closing quote. A control character is given back
before the string is given up. -/
def lexScanText (c : StreamChar) (lex : Lex) : Except JsonStop Lex :=
  match c with
  | .byte b =>
    if b = 34 then .ok lex
    else if b ≤ 0x1F then lexGiveUp c lex
    else
      match _h : (if b = 92 then lexEscape lex else .ok (lexGetSave lex)) with
      | .ok r => lexScanText r.1 r.2
      | .error stop => .error stop
  | c => .error c.stop
termination_by c.count + lex.stream.left
decreasing_by
  have hleft := lexGetSave_left lex
  rw [StreamChar.count]
  split at _h
  · have hescape := lexEscape_left _h
    omega
  · obtain rfl := Except.ok.inj _h
    omega

/-! ## The second pass over a string -/

/-- A digit of a `\u` escape. -/
def hexValue (c : UInt8) : Except JsonStop ℕ :=
  if lIsDigit c then .ok (c.toNat - 48)
  else if lIsLower c then .ok (c.toNat - 97 + 10)
  else if lIsUpper c then .ok (c.toNat - 65 + 10)
  else .error .assertion

/-- `decode_unicode_escape`. -/
def decodeUnicodeEscape : Bytes → Except JsonStop ℕ
  | 117 :: a :: b :: c :: d :: _ =>
    [a, b, c, d].foldlM (fun value c => do return value <<< 4 + (← hexValue c)) 0
  | _ => .error .assertion

/-- The bytes of the character that an escape names. -/
def unescapeChar (value : ℕ) : Except JsonStop Bytes :=
  match utf8Encode value with
  | some bytes => .ok bytes
  | none => .error .assertion

/-- A `\u` escape, at the `u`: the bytes it stands for, and what is left. -/
def unescapeUnicode (p : Bytes) : Except JsonStop (Bytes × Bytes) := do
  let value ← decodeUnicodeEscape p
  let p := p.drop 5
  if 0xD800 ≤ value ∧ value ≤ 0xDBFF then
    if p.take 2 = [92, 117] then
      let value2 ← decodeUnicodeEscape (p.drop 1)
      if 0xDC00 ≤ value2 ∧ value2 ≤ 0xDFFF then
        return (← unescapeChar ((value - 0xD800) <<< 10 + (value2 - 0xDC00) + 0x10000), p.drop 6)
      else .error .refused
    else .error .refused
  else if 0xDC00 ≤ value ∧ value ≤ 0xDFFF then .error .refused
  else if value = 0 then .error .refused
  else return (← unescapeChar value, p)

/-- An escape, behind the backslash. -/
def unescapeOne : Bytes → Except JsonStop (Bytes × Bytes)
  | [] => .error .overread
  | c :: p =>
    if c = 117 then unescapeUnicode (c :: p)
    else if c = 34 ∨ c = 92 ∨ c = 47 then .ok ([c], p)
    else if c = 98 then .ok ([8], p)
    else if c = 102 then .ok ([12], p)
    else if c = 110 then .ok ([10], p)
    else if c = 114 then .ok ([13], p)
    else if c = 116 then .ok ([9], p)
    else .error .assertion

/-- A `\u` escape ends behind its digits, or behind those of the escape that follows it. -/
theorem unescapeUnicode_drop {p p' bytes : Bytes} (h : unescapeUnicode p = .ok (bytes, p')) :
    p' = p.drop 5 ∨ p' = p.drop 11 := by
  obtain ⟨value, -, h⟩ := bind_eq_ok.mp h
  dsimp only at h
  split at h
  · split at h
    · obtain ⟨value2, -, h⟩ := bind_eq_ok.mp h
      split at h
      · obtain ⟨bytes', -, h⟩ := bind_eq_ok.mp h
        cases h
        exact .inr (by rw [List.drop_drop])
      · exact absurd h (by simp)
    · exact absurd h (by simp)
  split at h
  · exact absurd h (by simp)
  split at h
  · exact absurd h (by simp)
  · obtain ⟨bytes', -, h⟩ := bind_eq_ok.mp h
    cases h
    exact .inl rfl

/-- Escapes are read off the text. -/
theorem unescapeOne_length {p p' bytes : Bytes} (h : unescapeOne p = .ok (bytes, p')) :
    p'.length < p.length := by
  cases p with
  | nil => exact absurd h (by simp [unescapeOne])
  | cons c p =>
    have hrest : ∀ {bytes'}, (Except.ok (bytes', p) : Except JsonStop _) = .ok (bytes, p') →
        p'.length < (c :: p).length := by
      rintro bytes' ⟨⟩
      exact Nat.lt_succ_self _
    rw [unescapeOne] at h
    split at h
    · obtain rfl | rfl := unescapeUnicode_drop h <;>
        simp only [List.length_drop, List.length_cons] <;> omega
    repeat' split at h
    all_goals first
      | exact hrest h
      | exact absurd h (by simp)

/-- The second pass of `lex_scan_string`: the string in front of the closing quote. -/
def unescape : Bytes → Except JsonStop Bytes
  | [] => .error .overread
  | b :: p =>
    if b = 34 then .ok []
    else if b = 92 then
      match _h : unescapeOne p with
      | .ok r => do return r.1 ++ (← unescape r.2)
      | .error stop => .error stop
    else do return b :: (← unescape p)
termination_by p => p.length
decreasing_by
  · have hless := unescapeOne_length _h
    simp only [List.length_cons]
    omega
  · simp

/-! ## Tokens -/

/-- `token` and `value` of a `lex_t`. `TOKEN_INVALID` is not among them: whoever meets it gives
up, so that scanning is refused at once. -/
inductive Token : Type where
  /-- `TOKEN_EOF` -/
  | eof
  /-- a bracket, a brace, a colon or a comma -/
  | punct (b : UInt8)
  /-- `TOKEN_STRING` -/
  | string (bytes : Bytes)
  /-- `TOKEN_INTEGER` -/
  | integer (i : ℤ)
  /-- `TOKEN_REAL` -/
  | real (x : Datum double)
  /-- `TOKEN_TRUE` and `TOKEN_FALSE` -/
  | bool (b : Bool)
  /-- `TOKEN_NULL` -/
  | null
  deriving DecidableEq

/-- `lex_scan_string`, behind the opening quote. The block that `jsonp_malloc` returns has one
byte more than the saved text. -/
def lexScanString (lex : Lex) : Except JsonStop (Token × Lex) := do
  let lex ← lexScanText (lexGetSave lex).1 (lexGetSave lex).2
  let string ← unescape (lex.savedText.drop 1)
  if lex.savedText.length + 1 < string.length + 1 then .error .overrun
  else return (.string string, lex)

/-- The number that decimal digits spell. -/
def digitsValue (digits : Bytes) : ℕ := digits.foldl (fun n b => 10 * n + (b.toNat - 48)) 0

/-- `strtoll(text, &end, 10)` on a text that starts with a minus sign or a digit: the number
that is spelled out, and the text from `end` on. -/
def strtoll (text : Bytes) : ℤ × Bytes :=
  let digits := if text.head? = some 45 then text.drop 1 else text
  if (digits.takeWhile lIsDigit).isEmpty then (0, text)
  else
    let n := (digitsValue (digits.takeWhile lIsDigit) : ℤ)
    (if text.head? = some 45 then -n else n, digits.dropWhile lIsDigit)

/-- The value of an integer token: refused on `ERANGE`. -/
def jsonStrtoint (text : Bytes) : Except JsonStop ℤ :=
  if (strtoll text).1 < -2 ^ 63 ∨ 2 ^ 63 ≤ (strtoll text).1 then .error .refused
  else if (strtoll text).2 ≠ [] then .error .assertion
  else .ok (strtoll text).1

/-- What `strtod(text, &end)` leaves. -/
structure Strtod : Type where
  /-- the value -/
  value : Datum double
  /-- how many bytes of the text stand in front of `end` -/
  used : ℕ
  /-- `errno` is `ERANGE` -/
  erange : Bool

/-- `jsonp_strtod`: a number that is too large, or too close to zero without being zero, is
refused. -/
def jsonpStrtod (strtod : Bytes → Strtod) (text : Bytes) : Except JsonStop (Datum double) :=
  if (strtod text).used ≠ text.length then .error .assertion
  else if (strtod text).erange = true ∧ ¬ (strtod text).value.IsZero then .error .refused
  else .ok (strtod text).value

/-- The digits behind the character in hand. -/
def lexDigits (lex : Lex) : StreamChar × Lex :=
  lexWhile lIsDigit (lexGetSave lex).1 (lexGetSave lex).2

/-- The sign and the integer digits of a number, up to the character behind them. -/
def lexIntegerPart (c : StreamChar) (lex : Lex) : Except JsonStop (StreamChar × Lex) :=
  let r := if c = .byte 45 then lexGetSave lex else (c, lex)
  if r.1 = .byte 48 then
    let next := lexGetSave r.2
    if next.1.is lIsDigit then lexGiveUp next.1 next.2 else .ok next
  else if r.1.is lIsDigit then .ok (lexDigits r.2)
  else lexGiveUp r.1 r.2

/-- The fraction of a number, whose first digit is saved after it was checked. -/
def lexFraction (c : StreamChar) (lex : Lex) : Except JsonStop (StreamChar × Lex) := do
  if c = .byte 46 then
    let r := lexGet lex
    if r.1.is lIsDigit then return lexDigits (lexSave r.1 r.2)
    else
      let _ ← lexUnget r.1 r.2
      .error .refused
  else return (c, lex)

/-- The exponent of a number. -/
def lexExponent (c : StreamChar) (lex : Lex) : Except JsonStop (StreamChar × Lex) :=
  if c = .byte 69 ∨ c = .byte 101 then
    let r := lexGetSave lex
    let r := if r.1 = .byte 43 ∨ r.1 = .byte 45 then lexGetSave r.2 else r
    if r.1.is lIsDigit then .ok (lexDigits r.2) else lexGiveUp r.1 r.2
  else .ok (c, lex)

/-- `lex_scan_number`. -/
def lexScanNumber (strtod : Bytes → Strtod) (c : StreamChar) (lex : Lex) :
    Except JsonStop (Token × Lex) := do
  let r ← lexIntegerPart c lex
  if r.1 ≠ .byte 46 ∧ r.1 ≠ .byte 69 ∧ r.1 ≠ .byte 101 then
    let lex ← lexUngetUnsave r.1 r.2
    return (.integer (← jsonStrtoint lex.savedText), lex)
  else
    let r ← lexFraction r.1 r.2
    let r ← lexExponent r.1 r.2
    let lex ← lexUngetUnsave r.1 r.2
    return (.real (← jsonpStrtod strtod lex.savedText), lex)

/-- `true`, `false` and `null`: the identifier as a whole is read. -/
def lexScanWord (lex : Lex) : Except JsonStop (Token × Lex) := do
  let r := lexWhile lIsAlpha (lexGetSave lex).1 (lexGetSave lex).2
  let lex ← lexUngetUnsave r.1 r.2
  if lex.savedText = utf8Bytes "true" then .ok (.bool true, lex)
  else if lex.savedText = utf8Bytes "false" then .ok (.bool false, lex)
  else if lex.savedText = utf8Bytes "null" then .ok (.null, lex)
  else .error .refused

/-- The bytes that are a token. -/
def lIsPunct (b : UInt8) : Bool :=
  b = 123 || b = 125 || b = 91 || b = 93 || b = 58 || b = 44

/-- `lex_scan`. -/
def lexScan (strtod : Bytes → Strtod) (lex : Lex) : Except JsonStop (Token × Lex) :=
  let lex := { lex with savedText := [] }
  let r := lexBlanks (lexGet lex).1 (lexGet lex).2
  match r.1 with
  | .eof => .ok (.eof, r.2)
  | .error => .error .refused
  | .aborted => .error .assertion
  | .byte b =>
    let lex := lexSave (.byte b) r.2
    if lIsPunct b then .ok (.punct b, lex)
    else if b = 34 then lexScanString lex
    else if lIsDigit b || b = 45 then lexScanNumber strtod (.byte b) lex
    else if lIsAlpha b then lexScanWord lex
    else .error .refused

end Libpomelo
