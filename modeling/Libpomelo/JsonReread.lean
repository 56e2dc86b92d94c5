import Libpomelo.JsonScan
import Libpomelo.JsonDump
import Mathlib.Tactic.IntervalCases

/-!
# Reading printed tokens

What the printer writes for a string, an integer, a real or a word, the lexer reads back as one
token, and it stops in front of what follows (`Rereads`).

* `Before` says that a stream has a text to deliver.
* `Front` says the same with its first byte in hand, and what was saved until then.
-/

namespace Libpomelo

open Utf8 (Text)

/-! ## A text on the stream -/

/-- The stream delivers the text, and then it ends. -/
structure Before (s : JsonStream) (text : Bytes) : Prop where
  bytes : s.ahead ++ s.rest = text
  rest : Text s.rest
  state : s.state = .ok ∨ s.state = .eof ∧ text = []

/-- The text is delivered with its first byte in hand. -/
def InHand (c : StreamChar) (s : JsonStream) : Bytes → Prop
  | [] => c = .eof ∧ Before s []
  | b :: text => c = .byte b ∧ s.behind.head? = some b ∧ s.state = .ok ∧ Before s text

theorem Before.init {data : Bytes} (h : Text data) : Before (streamInit data) data :=
  ⟨rfl, h, .inl rfl⟩

/-- **Reading** takes the first byte off the text. -/
theorem Before.get {s : JsonStream} {text : Bytes} (h : Before s text) :
    InHand (streamGet s).1 (streamGet s).2 text := by
  obtain ⟨rfl, hrest, hstate⟩ := h
  obtain ⟨behind, ahead, rest, state⟩ := s
  dsimp only at hrest hstate
  rcases ahead with _ | ⟨b, ahead⟩
  · rcases rest with _ | ⟨b, rest⟩
    · rcases hstate with rfl | ⟨rfl, -⟩
      · exact ⟨rfl, rfl, .nil, .inr ⟨rfl, rfl⟩⟩
      · exact ⟨rfl, rfl, .nil, .inr ⟨rfl, rfl⟩⟩
    · obtain rfl : state = .ok := hstate.resolve_right fun h => absurd h.2 (by simp)
      obtain ⟨c, more, rest, hc, rfl, hmore⟩ := hrest.first
      have hcount := utf8CheckFirst_encodeChar hc
      simp only [streamGet]
      split
      · next hascii =>
        have hone := (utf8CheckFirst_eq b).1.mpr hascii
        obtain rfl : more = [] := List.eq_nil_of_length_eq_zero (by omega)
        exact ⟨rfl, rfl, rfl, rfl, hmore, .inl rfl⟩
      · next hascii =>
        have hne : more ≠ [] := by
          rintro rfl
          exact hascii ((utf8CheckFirst_eq b).1.mp hcount)
        have hcontinue : streamContinue (utf8CheckFirst b - 1) (more ++ rest) = more := by
          rw [hcount, Nat.add_sub_cancel, streamContinue, List.append_assoc, List.take_left]
        have hfull := (utf8CheckFull_iff hcount hne).mpr ⟨c, rfl, hc⟩
        have hlen := List.length_pos_of_ne_nil hne
        rw [hcontinue, if_neg (by omega), if_neg (by omega), if_neg (by simp [hfull])]
        refine ⟨rfl, rfl, rfl, ?_, ?_, .inl rfl⟩
        · rw [hcount, Nat.add_sub_cancel, List.drop_left]
        · rw [hcount, Nat.add_sub_cancel, List.drop_left]
          exact hmore
  · obtain rfl : state = .ok := hstate.resolve_right fun h => absurd h.2 (by simp)
    exact ⟨rfl, rfl, rfl, rfl, hrest, .inl rfl⟩

/-- A byte that is given back is the first one of the text again. -/
theorem InHand.unget {c : StreamChar} {s s' : JsonStream} {text : Bytes} (h : InHand c s text)
    (hzero : text.head? ≠ some 0) (hback : GivenBack c s s') : Before s' text := by
  obtain ⟨hahead, hrest', hstate'⟩ := hback
  cases text with
  | nil =>
    obtain ⟨rfl, hbytes, hrest, hstate⟩ := h
    rw [if_neg (by simp)] at hahead
    exact ⟨by rw [hahead, hrest']; exact hbytes, hrest' ▸ hrest, hstate' ▸ hstate⟩
  | cons b text =>
    obtain ⟨rfl, -, hok, hbytes, hrest, -⟩ := h
    rw [if_neg (by simpa using hzero)] at hahead
    refine ⟨?_, hrest' ▸ hrest, .inl (hstate' ▸ hok)⟩
    rw [hahead, hrest']
    exact congrArg (b :: ·) hbytes

theorem InHand.delivered {c : StreamChar} {s : JsonStream} {text : Bytes} (h : InHand c s text) :
    c.Delivered s := by
  cases text with
  | nil =>
    obtain ⟨rfl, -⟩ := h
    trivial
  | cons b text =>
    obtain ⟨rfl, hhead, -⟩ := h
    exact hhead

/-- The text that is delivered with a byte in hand, and what was saved in front of it. -/
structure Front (r : StreamChar × Lex) (saved text : Bytes) : Prop where
  text : InHand r.1 r.2.stream text
  saved : r.2.savedText = saved ++ r.1.bytes

theorem Front.getSave {lex : Lex} {saved text : Bytes} (h : Before lex.stream text)
    (hsaved : lex.savedText = saved) : Front (lexGetSave lex) saved text := by
  constructor
  · rw [lexGetSave, lexSave_stream]
    exact h.get
  · rw [lexGetSave_savedText, hsaved]

/-- One more byte is read. -/
theorem Front.next {r : StreamChar × Lex} {saved text : Bytes} {b : UInt8}
    (h : Front r saved (b :: text)) : Front (lexGetSave r.2) (saved ++ [b]) text := by
  obtain ⟨⟨hc, -, -, hbefore⟩, hsaved⟩ := h
  refine .getSave hbefore ?_
  rw [hsaved, hc, StreamChar.bytes]

theorem Front.byte {r : StreamChar × Lex} {saved text : Bytes} {b : UInt8}
    (h : Front r saved (b :: text)) : r.1 = .byte b := h.text.1

/-- The byte in hand is of a kind, if the first byte of the text is. -/
theorem Front.is {r : StreamChar × Lex} {saved text : Bytes} (h : Front r saved text)
    (p : UInt8 → Bool) : r.1.is p = text.head?.any p := by
  cases text with
  | nil => simp [h.text.1, StreamChar.is]
  | cons b text => simp [h.byte, StreamChar.is]

theorem Front.ne_byte {r : StreamChar × Lex} {saved text : Bytes} {b : UInt8}
    (h : Front r saved text) (hne : text.head? ≠ some b) : r.1 ≠ .byte b := by
  cases text with
  | nil =>
    rw [h.text.1]
    simp
  | cons b' text =>
    rw [h.byte]
    simpa using hne

/-- A loop over bytes of a kind stops in front of the others. -/
theorem Front.while {p : UInt8 → Bool} {c : StreamChar} {lex : Lex} {saved run text : Bytes}
    (h : Front (c, lex) saved (run ++ text)) (hrun : ∀ b ∈ run, p b = true)
    (htext : text.head?.any p = false) : Front (lexWhile p c lex) (saved ++ run) text := by
  induction run generalizing c lex saved with
  | nil =>
    rw [lexWhile, dif_neg (by rw [h.is p]; simpa using htext)]
    simpa using h
  | cons b run ih =>
    rw [List.forall_mem_cons] at hrun
    rw [lexWhile, dif_pos (by rw [h.is p]; simpa using hrun.1)]
    have hmore := ih h.next hrun.2
    rwa [List.append_assoc] at hmore

/-- What is given back is neither read nor saved. -/
theorem Front.unget {r : StreamChar × Lex} {saved text : Bytes} (h : Front r saved text)
    (hzero : text.head? ≠ some 0) :
    ∃ lex', lexUngetUnsave r.1 r.2 = .ok lex' ∧ Before lex'.stream text ∧
      lex'.savedText = saved := by
  obtain ⟨s', hs', hback⟩ := h.text.delivered.ungetUnsave h.saved
  exact ⟨_, hs', h.text.unget hzero hback, rfl⟩

/-! ## Tokens -/

/-- The next token is read, up to the text behind it. -/
def Rereads (strtod : Bytes → Strtod) (lex : Lex) (token : Token) (text : Bytes) :
    Prop :=
  ∃ lex', lexScan strtod lex = .ok (token, lex') ∧ Before lex'.stream text

/-- A text that a value may stand in front of: it is empty, or it goes on with a punctuation
mark. -/
def TokenEnds (text : Bytes) : Prop := ∀ b, text.head? = some b → lIsPunct b = true

section

variable {strtod : Bytes → Strtod} {lex : Lex} {text : Bytes}

variable (strtod) in
/-- Where the kind of a token is decided. -/
theorem lexScan_front {b : UInt8} (h : Before lex.stream (b :: text)) (hspace : lIsSpace b = false) :
    ∃ lex', Front (.byte b, lex') [] (b :: text) ∧ lexScan strtod lex =
      if lIsPunct b then .ok (.punct b, lex')
      else if b = 34 then lexScanString lex'
      else if lIsDigit b || b = 45 then lexScanNumber strtod (.byte b) lex'
      else if lIsAlpha b then lexScanWord lex'
      else .error .refused := by
  have hget := h.get
  have hbyte : (lexGet { lex with savedText := [] }).1 = .byte b := hget.1
  have hblanks : lexBlanks (lexGet { lex with savedText := [] }).1
      (lexGet { lex with savedText := [] }).2 =
      (.byte b, (lexGet { lex with savedText := [] }).2) := by
    rw [lexBlanks, hbyte, dif_neg (by simp [StreamChar.is, hspace])]
  refine ⟨lexSave (.byte b) (lexGet { lex with savedText := [] }).2, ⟨?_, rfl⟩, ?_⟩
  · rw [lexSave_stream]
    exact ⟨rfl, hget.2⟩
  · rw [lexScan, hblanks]

variable (strtod) in
theorem reread_punct {b : UInt8} (h : Before lex.stream (b :: text)) (hb : lIsPunct b = true) :
    Rereads strtod lex (.punct b) text := by
  have hspace : lIsSpace b = false := by
    simp only [lIsPunct, Bool.or_eq_true, decide_eq_true_eq] at hb
    rcases hb with ((((rfl | rfl) | rfl) | rfl) | rfl) | rfl <;> decide
  obtain ⟨lex', hfront, hscan⟩ := lexScan_front strtod h hspace
  exact ⟨lex', by rw [hscan, if_pos hb], hfront.text.2.2.2⟩

theorem TokenEnds.any {p : UInt8 → Bool} (h : TokenEnds text) (hp : ∀ b, lIsPunct b = true → p b = false) :
    text.head?.any p = false := by
  cases text with
  | nil => rfl
  | cons b text => exact hp b (h b rfl)

theorem TokenEnds.ne {b : UInt8} (h : TokenEnds text) (hb : lIsPunct b = false) : text.head? ≠ some b := by
  intro hhead
  exact absurd (h b hhead) (by simp [hb])

theorem lIsPunct_cases {b : UInt8} (h : lIsPunct b = true) :
    b = 123 ∨ b = 125 ∨ b = 91 ∨ b = 93 ∨ b = 58 ∨ b = 44 := by
  simpa [lIsPunct, or_assoc] using h

/-- A word is read to its end. -/
theorem reread_word {b : UInt8} {word : Bytes} {token : Token}
    (h : Before lex.stream (b :: word ++ text)) (hword : ∀ c ∈ b :: word, lIsAlpha c = true)
    (hends : TokenEnds text) (htoken : ∀ lex : Lex, lex.savedText = b :: word →
      (if lex.savedText = utf8Bytes "true" then (.ok (.bool true, lex) : Except JsonStop _)
        else if lex.savedText = utf8Bytes "false" then .ok (.bool false, lex)
        else if lex.savedText = utf8Bytes "null" then .ok (.null, lex)
        else .error .refused) = .ok (token, lex)) : Rereads strtod lex token text := by
  rw [List.forall_mem_cons] at hword
  obtain ⟨hb, hword⟩ := hword
  have hkinds : lIsSpace b = false ∧ lIsPunct b = false ∧ b ≠ 34 ∧ (lIsDigit b || b = 45) = false := by
    simp only [lIsAlpha, lIsUpper, lIsLower, Bool.or_eq_true, Bool.and_eq_true, decide_eq_true_eq,
      UInt8.le_iff_toNat_le, UInt8.reduceToNat] at hb
    simp only [lIsSpace, lIsPunct, lIsDigit, Bool.or_eq_false_iff, Bool.and_eq_false_iff,
      decide_eq_false_iff_not, ← UInt8.toNat_inj, ne_eq, UInt8.le_iff_toNat_le, UInt8.reduceToNat]
    omega
  obtain ⟨hspace, hpunct, hquote, hdigit⟩ := hkinds
  obtain ⟨lex', hfront, hscan⟩ := lexScan_front strtod h hspace
  have hrun := hfront.next.while hword (hends.any fun c hc => by
    rcases lIsPunct_cases hc with rfl | rfl | rfl | rfl | rfl | rfl <;> decide)
  obtain ⟨lex'', hunget, hbefore, hsaved⟩ := hrun.unget (hends.ne (by decide))
  refine ⟨lex'', ?_, hbefore⟩
  rw [hscan, if_neg (by simp [hpunct]), if_neg hquote, if_neg (by simp [hdigit]), if_pos hb,
    lexScanWord]
  exact (congrArg (· >>= _) hunget).trans (htoken _ hsaved)

/-! ## Strings -/

theorem lexScanText_quote (lex : Lex) : lexScanText (.byte 34) lex = .ok lex := by
  rw [lexScanText, if_pos rfl]

theorem lexScanText_plain {b : UInt8} (lex : Lex) (hquote : b ≠ 34) (hback : b ≠ 92)
    (hcontrol : 0x1F < b) :
    lexScanText (.byte b) lex = lexScanText (lexGetSave lex).1 (lexGetSave lex).2 := by
  rw [lexScanText, if_neg hquote, if_neg (UInt8.not_le.mpr hcontrol)]
  split
  · next r hr =>
    rw [if_neg hback] at hr
    rw [← Except.ok.inj hr]
  · next stop hr =>
    rw [if_neg hback] at hr
    exact absurd hr (by simp)

theorem lexScanText_escape {lex : Lex} {r : StreamChar × Lex} (h : lexEscape lex = .ok r) :
    lexScanText (.byte 92) lex = lexScanText r.1 r.2 := by
  rw [lexScanText, if_neg (by decide), if_neg (by decide)]
  split
  · next r' hr' =>
    rw [if_pos rfl] at hr'
    rw [Except.ok.inj (h.symm.trans hr')]
  · next stop hr' =>
    rw [if_pos rfl] at hr'
    exact absurd (h.symm.trans hr') (by simp)

/-- An escape of two bytes is passed over. -/
theorem Front.escape {c : StreamChar} {lex : Lex} {saved text : Bytes} {e : UInt8}
    (h : Front (c, lex) saved (92 :: e :: text)) (he : lIsEscape e = true) :
    ∃ r, lexEscape lex = .ok r ∧ Front r (saved ++ [92, e]) text := by
  have hnext := h.next
  refine ⟨_, ?_, by simpa using hnext.next⟩
  have hu : (lexGetSave lex).1 ≠ .byte 117 := by
    rw [hnext.byte]
    simp only [ne_eq, StreamChar.byte.injEq]
    rintro rfl
    exact absurd he (by decide)
  rw [lexEscape, if_neg hu, if_pos (by rw [hnext.is]; simpa using he)]

/-- The digits of a `\u` escape are passed over. -/
theorem Front.hex {c : StreamChar} {lex : Lex} {saved digits text : Bytes}
    (h : Front (c, lex) saved (digits ++ text)) (hall : ∀ b ∈ digits, lIsXdigit b = true) :
    ∃ r, lexHex digits.length c lex = .ok r ∧ Front r (saved ++ digits) text := by
  induction digits generalizing c lex saved with
  | nil => exact ⟨(c, lex), rfl, by simpa using h⟩
  | cons b digits ih =>
    rw [List.forall_mem_cons] at hall
    obtain ⟨r, hr, hfront⟩ := ih h.next hall.2
    refine ⟨r, ?_, by rwa [List.append_assoc] at hfront⟩
    rw [List.length_cons, lexHex, if_pos (by rw [h.is]; simpa using hall.1)]
    exact hr

/-- A `\u` escape is passed over. -/
theorem Front.unicode {c : StreamChar} {lex : Lex} {saved text : Bytes} {x y z w : UInt8}
    (h : Front (c, lex) saved (92 :: 117 :: x :: y :: z :: w :: text))
    (hall : ∀ b ∈ [x, y, z, w], lIsXdigit b = true) :
    ∃ r, lexEscape lex = .ok r ∧ Front r (saved ++ [92, 117, x, y, z, w]) text := by
  have hnext := h.next
  obtain ⟨r, hr, hfront⟩ := @Front.hex _ _ _ [x, y, z, w] _ hnext.next hall
  refine ⟨r, ?_, by simpa using hfront⟩
  rw [lexEscape, if_pos hnext.byte]
  exact hr

theorem hexDigit_eq {n : ℕ} (h : n < 16) :
    lIsXdigit (hexDigit n) = true ∧ hexValue (hexDigit n) = .ok n := by
  interval_cases n <;> exact ⟨by decide, rfl⟩

/-- How a byte of a string is printed: as itself, or as an escape that stands for it. -/
theorem dumpByte_cases (b : UInt8) (hzero : b ≠ 0) :
    (dumpByte b = [b] ∧ b ≠ 34 ∧ b ≠ 92 ∧ 0x1F < b) ∨
      (∃ e, dumpByte b = [92, e] ∧ lIsEscape e = true ∧
        ∀ p, unescapeOne (e :: p) = .ok ([b], p)) ∨
      ∃ x y, dumpByte b = [92, 117, 48, 48, x, y] ∧ lIsXdigit x = true ∧ lIsXdigit y = true ∧
        ∀ p, unescapeOne (117 :: 48 :: 48 :: x :: y :: p) = .ok ([b], p) := by
  rw [dumpByte]
  split
  · next h => exact .inr (.inl ⟨92, rfl, by decide, fun p => by rw [h]; rfl⟩)
  split
  · next h => exact .inr (.inl ⟨34, rfl, by decide, fun p => by rw [h]; rfl⟩)
  split
  · next h => exact .inr (.inl ⟨98, rfl, by decide, fun p => by rw [h]; rfl⟩)
  split
  · next h => exact .inr (.inl ⟨102, rfl, by decide, fun p => by rw [h]; rfl⟩)
  split
  · next h => exact .inr (.inl ⟨110, rfl, by decide, fun p => by rw [h]; rfl⟩)
  split
  · next h => exact .inr (.inl ⟨114, rfl, by decide, fun p => by rw [h]; rfl⟩)
  split
  · next h => exact .inr (.inl ⟨116, rfl, by decide, fun p => by rw [h]; rfl⟩)
  split
  · next hlt =>
    have hb : b.toNat < 32 := UInt8.lt_iff_toNat_lt.mp hlt
    have hne : b.toNat ≠ 0 := fun h => hzero (UInt8.toNat_inj.mp h)
    obtain ⟨hx, hvx⟩ := hexDigit_eq (n := b.toNat / 16) (by omega)
    obtain ⟨hy, hvy⟩ := hexDigit_eq (n := b.toNat % 16) (by omega)
    refine .inr (.inr ⟨_, _, rfl, hx, hy, fun p => ?_⟩)
    have hdecode := decodeUnicodeEscape_eq p (show hexValue 48 = .ok 0 from rfl)
      (show hexValue 48 = .ok 0 from rfl) hvx hvy
    have hvalue : ((0 * 16 + 0) * 16 + b.toNat / 16) * 16 + b.toNat % 16 = b.toNat := by omega
    have hencode : utf8Encode b.toNat = some [b] := by
      rw [utf8Encode, if_pos (by omega), UInt8.ofNat_toNat]
    rw [hvalue] at hdecode
    rw [unescapeOne, if_pos rfl, unescapeUnicode, hdecode, ok_bind]
    rw [if_neg (by omega), if_neg (by omega), if_neg hne, unescapeChar, hencode]
    rfl
  · next h92 h34 _ _ _ _ _ h32 =>
    refine .inl ⟨rfl, h34, h92, ?_⟩
    rw [UInt8.lt_iff_toNat_lt] at h32 ⊢
    simp only [UInt8.reduceToNat] at h32 ⊢
    omega

/-- **The first pass** over a printed string. -/
theorem Front.scan {bytes : Bytes} (hzero : 0 ∉ bytes) {r : StreamChar × Lex}
    {saved text : Bytes} (h : Front r saved (bytes.flatMap dumpByte ++ 34 :: text)) :
    ∃ lex', lexScanText r.1 r.2 = .ok lex' ∧ Before lex'.stream text ∧
      lex'.savedText = saved ++ (bytes.flatMap dumpByte ++ [34]) := by
  induction bytes generalizing r saved with
  | nil =>
    refine ⟨r.2, ?_, h.text.2.2.2, ?_⟩
    · rw [h.byte, lexScanText_quote]
    · rw [h.saved, h.byte]
      rfl
  | cons b bytes ih =>
    rw [List.mem_cons, not_or] at hzero
    rw [List.flatMap_cons, List.append_assoc] at h
    rw [List.flatMap_cons]
    obtain ⟨hb, hquote, hback, hcontrol⟩ | ⟨e, hb, he, -⟩ | ⟨x, y, hb, hx, hy, -⟩ :=
      dumpByte_cases b (Ne.symm hzero.1)
    · rw [hb] at h
      obtain ⟨lex', hscan, hbefore, hsaved⟩ := ih hzero.2 h.next
      refine ⟨lex', by rw [h.byte, lexScanText_plain _ hquote hback hcontrol, hscan], hbefore, ?_⟩
      rw [hsaved, hb]
      simp
    · rw [hb] at h
      obtain ⟨r', hr, hfront⟩ := h.escape he
      obtain ⟨lex', hscan, hbefore, hsaved⟩ := ih hzero.2 hfront
      refine ⟨lex', by rw [h.byte, lexScanText_escape hr, hscan], hbefore, ?_⟩
      rw [hsaved, hb]
      simp
    · rw [hb] at h
      have hall : ∀ d ∈ [48, 48, x, y], lIsXdigit d = true := by
        simp only [List.forall_mem_cons]
        exact ⟨by decide, by decide, hx, hy, by simp⟩
      obtain ⟨r', hr, hfront⟩ := h.unicode hall
      obtain ⟨lex', hscan, hbefore, hsaved⟩ := ih hzero.2 hfront
      refine ⟨lex', by rw [h.byte, lexScanText_escape hr, hscan], hbefore, ?_⟩
      rw [hsaved, hb]
      simp

theorem unescape_plain {b : UInt8} {p bytes : Bytes} (hquote : b ≠ 34) (hback : b ≠ 92)
    (h : unescape p = .ok bytes) : unescape (b :: p) = .ok (b :: bytes) := by
  rw [unescape, if_neg hquote, if_neg hback, h]
  rfl

theorem unescape_escape {p p' bytes more : Bytes} (h : unescapeOne p = .ok (bytes, p'))
    (h' : unescape p' = .ok more) : unescape (92 :: p) = .ok (bytes ++ more) := by
  rw [unescape, if_neg (by decide), if_pos rfl]
  split
  · next r hr =>
    obtain rfl : r = (bytes, p') := Except.ok.inj (hr.symm.trans h)
    rw [h']
    rfl
  · next stop hr => exact absurd (hr.symm.trans h) (by simp)

/-- **The second pass** over a printed string gives the string. -/
theorem unescape_printed {bytes : Bytes} (hzero : 0 ∉ bytes) :
    unescape (bytes.flatMap dumpByte ++ [34]) = .ok bytes := by
  induction bytes with
  | nil =>
    rw [List.flatMap_nil, List.nil_append, unescape, if_pos rfl]
  | cons b bytes ih =>
    rw [List.mem_cons, not_or] at hzero
    have hmore := ih hzero.2
    rw [List.flatMap_cons, List.append_assoc]
    obtain ⟨hb, hquote, hback, -⟩ | ⟨e, hb, -, hun⟩ | ⟨x, y, hb, -, -, hun⟩ :=
      dumpByte_cases b (Ne.symm hzero.1)
    · rw [hb]
      exact unescape_plain hquote hback hmore
    · rw [hb]
      exact unescape_escape (hun _) hmore
    · rw [hb]
      exact unescape_escape (hun _) hmore

/-- **A printed string** is read back. -/
theorem reread_string {s : String} (hzero : 0 ∉ utf8Bytes s)
    (h : Before lex.stream (dumpString s ++ text)) :
    Rereads strtod lex (.string (utf8Bytes s)) text := by
  rw [dumpString, cString_of_not_mem hzero, List.cons_append, List.append_assoc] at h
  obtain ⟨lex', hfront, hscan⟩ := lexScan_front strtod h (by decide)
  obtain ⟨lex'', htext, hbefore, hsaved⟩ := hfront.next.scan hzero
  refine ⟨lex'', ?_, hbefore⟩
  have hdrop : lex''.savedText.drop 1 = (utf8Bytes s).flatMap dumpByte ++ [34] := by
    rw [hsaved]
    rfl
  have hlen : ∀ bytes : Bytes, bytes.length ≤ (bytes.flatMap dumpByte).length := by
    intro bytes
    induction bytes with
    | nil => exact le_rfl
    | cons b bytes ih =>
      have hb := length_dumpByte_pos b
      rw [List.flatMap_cons, List.length_append, List.length_cons]
      omega
  have hfits := hlen (utf8Bytes s)
  rw [hscan, if_neg (by decide), if_pos rfl, lexScanString, htext, ok_bind]
  rw [hdrop, unescape_printed hzero, ok_bind, if_neg]
  · rfl
  · rw [hsaved]
    simp only [List.length_append, List.length_cons]
    omega

/-! ## Numbers -/

/-- The digits of a number, without a zero in front. -/
structure Digits (n : ℕ) (digits : Bytes) : Prop where
  some_digit : digits ≠ []
  all_digits : ∀ b ∈ digits, lIsDigit b = true
  value : digitsValue digits = n
  head : digits.head? = some 48 → digits = [48]

theorem utf8Bytes_decimal (n : ℕ) :
    utf8Bytes (decimal n) =
      (if 10 ≤ n then utf8Bytes (decimal (n / 10)) else []) ++ [UInt8.ofNat (48 + n % 10)] := by
  have hdigit : ∀ d < 10, String.utf8EncodeChar (Nat.digitChar d) = [UInt8.ofNat (48 + d)] := by
    intro d hd
    interval_cases d <;> decide
  have hbytes : ∀ m, utf8Bytes (decimal m) = (Nat.toDigits 10 m).flatMap String.utf8EncodeChar :=
    fun m => by rw [utf8Bytes, Utf8.toByteArray_toList, decimal, Nat.toList_repr]
  rw [hbytes]
  split
  · next hge =>
    rw [Nat.toDigits_of_base_le (by decide) hge, List.flatMap_append, hbytes, List.flatMap_singleton,
      hdigit _ (Nat.mod_lt _ (by decide))]
  · next hlt =>
    rw [Nat.toDigits_of_lt_base (by omega), List.flatMap_singleton, hdigit _ (by omega),
      Nat.mod_eq_of_lt (by omega), List.nil_append]

theorem lIsDigit_ofNat {d : ℕ} (h : d < 10) :
    lIsDigit (UInt8.ofNat (48 + d)) = true ∧ (UInt8.ofNat (48 + d)).toNat = 48 + d := by
  interval_cases d <;> decide

theorem decimal_digits (n : ℕ) : Digits n (utf8Bytes (decimal n)) := by
  induction n using Nat.strong_induction_on with
  | _ n ih =>
    obtain ⟨hdigit, hlast⟩ := lIsDigit_ofNat (Nat.mod_lt n (by decide : 10 > 0))
    rw [utf8Bytes_decimal]
    split
    · next hge =>
      obtain ⟨hne, hall, hvalue, hhead⟩ := ih (n / 10) (by omega)
      refine ⟨by simp, ?_, ?_, ?_⟩
      · rw [List.forall_mem_append]
        exact ⟨hall, by simpa using hdigit⟩
      · rw [digitsValue, List.foldl_append]
        change 10 * digitsValue _ + _ = n
        rw [hvalue, hlast]
        omega
      · intro hzero
        rw [List.head?_append_of_ne_nil _ hne] at hzero
        rw [hhead hzero] at hvalue
        have hpos : n / 10 ≠ 0 := by omega
        exact absurd hvalue.symm hpos
    · next hlt =>
      refine ⟨by simp, by simpa using hdigit, ?_, ?_⟩
      · change 10 * 0 + _ = n
        rw [hlast]
        omega
      · intro hzero
        rw [List.nil_append, Option.some.inj hzero]

/-- **The integer digits** of a printed number. -/
theorem Front.integerPart {r : StreamChar × Lex} {sign digits text : Bytes}
    (h : Front r [] (sign ++ (digits ++ text))) (hsign : sign = [] ∨ sign = [45])
    (hne : digits ≠ []) (hall : ∀ b ∈ digits, lIsDigit b = true)
    (hhead : digits.head? = some 48 → digits = [48]) (htext : text.head?.any lIsDigit = false) :
    ∃ r', lexIntegerPart r.1 r.2 = .ok r' ∧ Front r' (sign ++ digits) text := by
  obtain ⟨d, ds, rfl⟩ := List.exists_cons_of_ne_nil hne
  rw [List.forall_mem_cons] at hall
  -- behind the sign
  have hfirst : Front (if r.1 = .byte 45 then lexGetSave r.2 else (r.1, r.2)) sign
      (d :: ds ++ text) := by
    rcases hsign with rfl | rfl
    · have hminus : r.1 ≠ .byte 45 := by
        refine h.ne_byte ?_
        simp only [List.nil_append, List.cons_append, List.head?_cons, ne_eq, Option.some.injEq]
        rintro rfl
        exact absurd hall.1 (by decide)
      rw [if_neg hminus]
      exact h
    · rw [if_pos h.byte]
      exact h.next
  rw [lexIntegerPart]
  generalize (if r.1 = .byte 45 then lexGetSave r.2 else (r.1, r.2)) = first at *
  dsimp only
  split
  · next hzero =>
    obtain rfl : d = 48 := StreamChar.byte.inj (hfirst.byte.symm.trans hzero)
    obtain ⟨-, rfl⟩ := List.cons.inj (hhead rfl)
    have hnext := hfirst.next
    rw [if_neg (by rw [hnext.is]; simpa using htext)]
    exact ⟨_, rfl, hnext⟩
  · rw [if_pos (by rw [hfirst.is]; simpa using hall.1)]
    refine ⟨_, rfl, ?_⟩
    have hrun := hfirst.next.while hall.2 htext
    rwa [List.append_assoc] at hrun

theorem TokenEnds.not_digit (h : TokenEnds text) : text.head?.any lIsDigit = false :=
  h.any fun c hc => by
    rcases lIsPunct_cases hc with rfl | rfl | rfl | rfl | rfl | rfl <;> decide

variable (strtod) in
/-- A text that begins with a sign or a digit is a number. -/
theorem lexScan_number {sign digits : Bytes}
    (h : Before lex.stream (sign ++ (digits ++ text))) (hsign : sign = [] ∨ sign = [45])
    (hne : digits ≠ []) (hall : ∀ b ∈ digits, lIsDigit b = true) :
    ∃ r : StreamChar × Lex, Front r [] (sign ++ (digits ++ text)) ∧
      lexScan strtod lex = lexScanNumber strtod r.1 r.2 := by
  obtain ⟨b, more, hb, hkind⟩ : ∃ b more, sign ++ (digits ++ text) = b :: more ∧
      (lIsDigit b || b = 45) = true := by
    obtain ⟨d, ds, rfl⟩ := List.exists_cons_of_ne_nil hne
    rcases hsign with rfl | rfl
    · exact ⟨d, ds ++ text, rfl, by simp [hall d List.mem_cons_self]⟩
    · exact ⟨45, d :: ds ++ text, rfl, by simp⟩
  have hkinds : lIsSpace b = false ∧ lIsPunct b = false ∧ b ≠ 34 := by
    simp only [lIsDigit, Bool.or_eq_true, Bool.and_eq_true, decide_eq_true_eq,
      UInt8.le_iff_toNat_le, ← UInt8.toNat_inj, UInt8.reduceToNat] at hkind
    simp only [lIsSpace, lIsPunct, Bool.or_eq_false_iff, decide_eq_false_iff_not, ← UInt8.toNat_inj,
      ne_eq, UInt8.reduceToNat]
    omega
  obtain ⟨hspace, hpunct, hquote⟩ := hkinds
  rw [hb] at h ⊢
  obtain ⟨lex', hfront, hscan⟩ := lexScan_front strtod h hspace
  exact ⟨(.byte b, lex'), hfront, by
    rw [hscan, if_neg (by simp [hpunct]), if_neg hquote, if_pos hkind]⟩

/-- **A printed integer** is read back. -/
theorem reread_integer {i : ℤ} (hi : -2 ^ 63 ≤ i ∧ i < 2 ^ 63)
    (h : Before lex.stream (dumpInteger i ++ text)) (hends : TokenEnds text) :
    Rereads strtod lex (.integer i) text := by
  obtain ⟨hne, hall, hvalue, hhead⟩ := decimal_digits i.natAbs
  obtain ⟨sign, hsign, hdump, hsigned⟩ : ∃ sign : Bytes, (sign = [] ∨ sign = [45]) ∧
      dumpInteger i = sign ++ utf8Bytes (decimal i.natAbs) ∧
      (if sign = [45] then -(i.natAbs : ℤ) else i.natAbs) = i := by
    rw [dumpInteger]
    split
    · exact ⟨[45], .inr rfl, rfl, by rw [if_pos rfl]; omega⟩
    · exact ⟨[], .inl rfl, rfl, by rw [if_neg (by simp)]; omega⟩
  rw [hdump, List.append_assoc] at h
  obtain ⟨r, hfront, hscan⟩ := lexScan_number strtod h hsign hne hall
  obtain ⟨r', hpart, hfront'⟩ := hfront.integerPart hsign hne hall hhead hends.not_digit
  obtain ⟨lex', hunget, hbefore, hsaved⟩ := hfront'.unget (hends.ne (by decide))
  refine ⟨lex', ?_, hbefore⟩
  rw [hscan, lexScanNumber, hpart, ok_bind]
  rw [if_pos ⟨hfront'.ne_byte (hends.ne (by decide)), hfront'.ne_byte (hends.ne (by decide)),
    hfront'.ne_byte (hends.ne (by decide))⟩, hunget, ok_bind, hsaved, jsonStrtoint, strtoll_eq hsign hne hall,
    hvalue, hsigned, if_neg (by omega), if_neg (by simp)]
  rfl

end

end Libpomelo
