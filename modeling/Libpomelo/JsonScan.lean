import Libpomelo.JsonLex
import Mathlib.Data.List.TakeWhile

/-!
# What a token of a JSON text is

Whatever the stream delivers, a token is refused or it is what the parser relies on
(`lexScan_scanned`): no assertion of the stream, of the saved text or of the second pass over a
string fails, the pass stays inside the saved text and the block of the string, and the string is
UTF-8. Only the assertion that `strtod` reads a number to its end depends on `strtod`; what it is
asked to read is a number of the JSON grammar (`NumberText`).

* `Delivered` says that the byte in hand is the one that the stream delivered last, so that it can
  be given back.
* `Whole` says that the bytes the stream holds back complete a character.
* `StringBody` is the text of a string, as the first pass leaves it to the second.
-/

namespace Libpomelo

open Utf8 (Text)

/-! ## Giving a byte back -/

/-- The byte in hand, as a list. -/
def StreamChar.bytes : StreamChar → Bytes
  | .byte b => [b]
  | _ => []

/-- The byte in hand is the one that was delivered last. -/
def StreamChar.Delivered (c : StreamChar) (s : JsonStream) : Prop :=
  match c with
  | .byte b => s.behind.head? = some b
  | .aborted => False
  | _ => True

/-- The stream with the character given back; a zero byte is lost. -/
structure GivenBack (c : StreamChar) (s s' : JsonStream) : Prop where
  /-- the byte is held back again -/
  ahead : s'.ahead = if c = .byte 0 then [] else c.bytes ++ s.ahead
  rest : s'.rest = s.rest
  state : s'.state = s.state

/-- **What is read** can be given back. -/
theorem streamGet_delivered (s : JsonStream) : (streamGet s).1.Delivered (streamGet s).2 := by
  have hgets := streamGet_gets s
  generalize streamGet s = r at hgets
  cases hgets with
  | eof | error => trivial
  | held | char => exact rfl

section Delivered

variable {c : StreamChar} {s : JsonStream} {lex : Lex} {bytes : Bytes}

/-- **The assertions of `stream_unget` hold** for a byte that was delivered last. -/
theorem StreamChar.Delivered.unget (h : c.Delivered s) :
    ∃ s', streamUnget c s = .ok s' ∧ GivenBack c s s' := by
  cases c with
  | byte b =>
    have hhead : s.behind.head? = some b := h
    refine ⟨_, if_pos hhead, ?_, rfl, rfl⟩
    simp only [StreamChar.byte.injEq, StreamChar.bytes, List.singleton_append]
  | eof | error => exact ⟨s, rfl, rfl, rfl, rfl⟩
  | aborted => exact h.elim

/-- **The assertion of `lex_unget_unsave` holds** if the byte was saved last. -/
theorem StreamChar.Delivered.ungetUnsave (h : c.Delivered lex.stream)
    (hsaved : lex.savedText = bytes ++ c.bytes) :
    ∃ s', lexUngetUnsave c lex = .ok ⟨s', bytes⟩ ∧ GivenBack c lex.stream s' := by
  obtain ⟨s', hs', hback⟩ := h.unget
  refine ⟨s', ?_, hback⟩
  have hunget : lexUnget c lex = .ok { lex with stream := s' } := by
    rw [lexUnget, hs']
    rfl
  cases c with
  | byte b =>
    rw [StreamChar.bytes] at hsaved
    simp only [lexUngetUnsave, hunget, ok_bind, pure, Except.pure, strbufferPop, hsaved,
      List.getLast?_concat, Option.getD_some, List.dropLast_concat, if_pos]
  | eof | error =>
    replace hsaved : lex.savedText = bytes := hsaved.trans (List.append_nil bytes)
    simp [lexUngetUnsave, hunget, ok_bind, pure, Except.pure, hsaved]
  | aborted => exact h.elim

/-- The error path of the lexer gives the byte back without an assertion. -/
theorem StreamChar.Delivered.giveUp {α : Type} (h : c.Delivered lex.stream)
    (hsaved : lex.savedText = bytes ++ c.bytes) :
    (lexGiveUp c lex : Except JsonStop α) = .error .refused := by
  obtain ⟨s', hs', -⟩ := h.ungetUnsave hsaved
  rw [lexGiveUp, hs', ok_bind]

/-- Such a byte did not come from an assertion. -/
theorem StreamChar.Delivered.stop_eq (h : c.Delivered s) : c.stop = .refused := by
  cases c with
  | byte b => rfl
  | eof | error => rfl
  | aborted => exact h.elim

/-- What is given back is there again, or lost. -/
theorem GivenBack.left {s' : JsonStream} (h : GivenBack c s s') : s'.left ≤ c.count + s.left := by
  rw [JsonStream.left, JsonStream.left, h.ahead, h.rest]
  split
  · rw [List.length_nil]
    omega
  · cases c <;> simp only [StreamChar.bytes, StreamChar.count, List.length_append, List.length_cons,
      List.length_nil] <;> omega

end Delivered

/-! ## Characters on the stream -/

variable {data : Bytes}

/-- Of the buffer, a text is read, and the end of the stream is the end of it. -/
structure Fed (data : Bytes) (s : JsonStream) : Prop where
  /-- what is not on the stream any more, with what the stream holds back -/
  done : ∃ done, Text done ∧ done ++ s.rest = data
  /-- the state `STREAM_STATE_EOF` -/
  eof : s.state = .eof → s.rest = []

/-- With the byte in hand, what the stream holds back are the last bytes of a text. -/
structure Whole (data : Bytes) (c : StreamChar) (s : JsonStream) : Prop where
  held : ∃ bytes, Text (bytes ++ c.bytes ++ s.ahead)
  fed : Fed data s
  /-- the byte in hand can be given back -/
  hand : c.Delivered s

/-- What a text becomes by reading on. -/
theorem streamGet_text {s : JsonStream} {bytes : Bytes} (h : Text (bytes ++ s.ahead)) :
    Text (bytes ++ (streamGet s).1.bytes ++ (streamGet s).2.ahead) := by
  have hgets := streamGet_gets s
  generalize streamGet s = r at hgets
  cases hgets with
  | eof hend => simpa [StreamChar.bytes] using h
  | error => simpa [StreamChar.bytes] using h
  | held hok hahead =>
    rw [hahead] at h
    simpa [StreamChar.bytes] using h
  | char hok hahead hc hrest =>
    rw [hahead, List.append_nil] at h
    rw [StreamChar.bytes, List.append_assoc, List.singleton_append, ← hc]
    exact h.append (.char _)

/-- Reading on keeps the stream fed. -/
theorem Fed.get {s : JsonStream} (h : Fed data s) : Fed data (streamGet s).2 := by
  obtain ⟨⟨done, hdone, rfl⟩, heof⟩ := h
  have hgets := streamGet_gets s
  generalize streamGet s = r at hgets
  cases hgets with
  | eof hend => exact ⟨⟨done, hdone, rfl⟩, fun _ => hend.elim heof fun hend => hend.2.2⟩
  | error => exact ⟨⟨done, hdone, rfl⟩, fun hstate => absurd hstate (by simp)⟩
  | held hok hahead => exact ⟨⟨done, hdone, rfl⟩, heof⟩
  | @char c b more rest hok hahead hc hrest =>
    refine ⟨⟨done ++ String.utf8EncodeChar c, hdone.append (.char c), ?_⟩, fun hstate => ?_⟩
    · rw [hc, hrest]
      simp
    · exact absurd hstate (by simp)

/-- So does giving a byte back. -/
theorem Fed.unget {c : StreamChar} {s s' : JsonStream} (h : Fed data s)
    (hback : GivenBack c s s') : Fed data s' := by
  obtain ⟨⟨done, hdone, heq⟩, heof⟩ := h
  exact ⟨⟨done, hdone, hback.rest ▸ heq⟩, fun hstate => hback.rest ▸ heof (hback.state ▸ hstate)⟩

/-- The byte in hand is done with. -/
theorem Whole.forget {c : StreamChar} {s : JsonStream} (h : Whole data c s) : Whole data .eof s := by
  obtain ⟨⟨bytes, htext⟩, hfed, -⟩ := h
  exact ⟨⟨bytes ++ c.bytes, by simpa [StreamChar.bytes] using htext⟩, hfed, trivial⟩

/-- The next byte is taken in hand. -/
theorem Whole.get {c : StreamChar} {s : JsonStream} (h : Whole data c s) :
    Whole data (streamGet s).1 (streamGet s).2 := by
  obtain ⟨⟨bytes, htext⟩, hfed, -⟩ := h
  exact ⟨⟨bytes ++ c.bytes, streamGet_text htext⟩, hfed.get, streamGet_delivered s⟩

/-- The byte in hand is given back. -/
theorem Whole.unget {c : StreamChar} {s s' : JsonStream} (h : Whole data c s)
    (hback : GivenBack c s s') : Whole data .eof s' := by
  obtain ⟨⟨bytes, htext⟩, hfed, -⟩ := h
  refine ⟨?_, hfed.unget hback, trivial⟩
  rw [hback.ahead]
  split
  · exact ⟨[], by simpa [StreamChar.bytes] using Text.nil⟩
  · exact ⟨bytes, by simpa [StreamChar.bytes] using htext⟩

/-- The next byte in hand is whole, and saved. -/
theorem Whole.getSave {c : StreamChar} {lex : Lex} (h : Whole data c lex.stream) :
    Whole data (lexGetSave lex).1 (lexGetSave lex).2.stream := by
  rw [lexGetSave, lexSave_stream]
  exact h.get

/-- And so are those of a loop. -/
theorem Whole.while {p : UInt8 → Bool} {c : StreamChar} {lex : Lex} (h : Whole data c lex.stream) :
    Whole data (lexWhile p c lex).1 (lexWhile p c lex).2.stream := by
  fun_induction lexWhile p c lex with
  | case1 c lex hp ih => exact ih h.getSave
  | case2 c lex hp => exact h

/-- Blanks are read over in the same way. -/
theorem Whole.blanks {c : StreamChar} {lex : Lex} (h : Whole data c lex.stream) :
    Whole data (lexBlanks c lex).1 (lexBlanks c lex).2.stream := by
  fun_induction lexBlanks c lex with
  | case1 c lex hp ih => exact ih h.get
  | case2 c lex hp => exact h

/-- What is saved can be given back. -/
theorem lexGetSave_delivered (lex : Lex) :
    (lexGetSave lex).1.Delivered (lexGetSave lex).2.stream := by
  rw [lexGetSave, lexSave_stream]
  exact streamGet_delivered lex.stream

/-- A token that is given up is not read. -/
theorem lexGiveUp_ne_ok {α : Type} {c : StreamChar} {lex : Lex} {a : α} :
    lexGiveUp c lex ≠ .ok a := by
  intro h
  obtain ⟨lex', -, h⟩ := bind_eq_ok.mp h
  exact absurd h (by simp)

/-! ## The saved text -/

/-- What is saved grows by the byte that is read. -/
theorem lexGetSave_savedText (lex : Lex) :
    (lexGetSave lex).2.savedText = lex.savedText ++ (lexGetSave lex).1.bytes := by
  simp only [lexGetSave]
  cases (lexGet lex).1 <;> simp [lexSave, StreamChar.bytes, lexGet]

/-- A loop saves bytes of its kind, up to one of another kind. -/
theorem lexWhile_saved {p : UInt8 → Bool} {c : StreamChar} {lex : Lex} {bytes : Bytes}
    (h : lex.savedText = bytes ++ c.bytes) :
    ∃ more, (∀ b ∈ more, p b = true) ∧ (lexWhile p c lex).1.is p = false ∧
      (lexWhile p c lex).2.savedText = bytes ++ more ++ (lexWhile p c lex).1.bytes := by
  fun_induction lexWhile p c lex generalizing bytes with
  | case1 c lex hp ih =>
    have hsaved := lexGetSave_savedText lex
    rw [h] at hsaved
    obtain ⟨more, hmore, hend, hih⟩ := ih hsaved
    refine ⟨c.bytes ++ more, ?_, hend, ?_⟩
    · intro b hb
      rcases List.mem_append.mp hb with hb | hb
      · cases c with
        | byte b' => exact List.mem_singleton.mp hb ▸ hp
        | eof | error | aborted => exact absurd hb (by simp [StreamChar.bytes])
      · exact hmore b hb
    · rw [hih, List.append_assoc bytes, List.append_assoc bytes, List.append_assoc]
  | case2 c lex hp => exact ⟨[], by simp, by simpa using hp, by simpa using h⟩

/-! ## The text of a string -/

/-- The text of a string behind the opening quote. -/
inductive StringBody : Bytes → Prop
  /-- the closing quote -/
  | quote : StringBody [34]
  /-- a byte that stands for itself -/
  | plain {b : UInt8} {p : Bytes} : b ≠ 34 → b ≠ 92 → 0x1F < b → StringBody p → StringBody (b :: p)
  /-- an escape of two bytes -/
  | escape {b : UInt8} {p : Bytes} : lIsEscape b = true → StringBody p → StringBody (92 :: b :: p)
  /-- a `\u` escape -/
  | unicode {a b c d : UInt8} {p : Bytes} : lIsXdigit a = true → lIsXdigit b = true →
      lIsXdigit c = true → lIsXdigit d = true → StringBody p →
      StringBody (92 :: 117 :: a :: b :: c :: d :: p)

theorem StreamChar.bytes_of_is {p : UInt8 → Bool} {c : StreamChar} (h : c.is p = true) :
    ∃ b, p b = true ∧ c.bytes = [b] := by
  cases c with
  | byte b => exact ⟨b, h, rfl⟩
  | eof | error | aborted => exact absurd h (by simp [StreamChar.is])

/-- The digits of a `\u` escape are saved. -/
theorem lexHex_saved {n : ℕ} {c : StreamChar} {lex : Lex} {r : StreamChar × Lex} {bytes : Bytes}
    (h : lexHex n c lex = .ok r) (hsaved : lex.savedText = bytes ++ c.bytes) :
    ∃ digits, digits.length = n ∧ (∀ b ∈ digits, lIsXdigit b = true) ∧
      r.2.savedText = bytes ++ digits ++ r.1.bytes := by
  induction n generalizing c lex bytes with
  | zero =>
    obtain rfl := Except.ok.inj h
    exact ⟨[], rfl, by simp, by simpa using hsaved⟩
  | succ n ih =>
    rw [lexHex] at h
    split at h
    · next hx =>
      obtain ⟨b, hb, hbytes⟩ := StreamChar.bytes_of_is hx
      have hmore := lexGetSave_savedText lex
      rw [hsaved] at hmore
      obtain ⟨digits, hlen, hall, hr⟩ := ih h hmore
      refine ⟨b :: digits, by rw [List.length_cons, hlen], List.forall_mem_cons.mpr ⟨hb, hall⟩, ?_⟩
      rw [hr, hbytes]
      simp
    · exact absurd h (by simp)

/-- An escape that the first pass reads, in front of more of the text. -/
theorem lexEscape_saved {lex : Lex} {r : StreamChar × Lex} (h : lexEscape lex = .ok r) :
    ∃ escape, r.2.savedText = lex.savedText ++ escape ++ r.1.bytes ∧
      ∀ p, StringBody p → StringBody (92 :: (escape ++ p)) := by
  have hfirst := lexGetSave_savedText lex
  rw [lexEscape] at h
  split at h
  · next hu =>
    rw [hu] at hfirst
    have hsecond := lexGetSave_savedText (lexGetSave lex).2
    obtain ⟨digits, hlen, hall, hr⟩ := lexHex_saved h hsecond
    obtain ⟨a, b, c, d, rfl⟩ := List.length_eq_four.mp hlen
    simp only [List.forall_mem_cons] at hall
    obtain ⟨ha, hb, hc, hd, -⟩ := hall
    refine ⟨[117, a, b, c, d], ?_, fun p hp => .unicode ha hb hc hd hp⟩
    rw [hr, hfirst]
    simp [StreamChar.bytes]
  split at h
  · next he =>
    obtain rfl := Except.ok.inj h
    obtain ⟨b, hb, hbytes⟩ := StreamChar.bytes_of_is he
    refine ⟨[b], ?_, fun p hp => .escape hb hp⟩
    rw [lexGetSave_savedText, hfirst, hbytes]
  · exact absurd h (by simp)

/-- **The first pass** leaves the text of a string. -/
theorem lexScanText_saved {c : StreamChar} {lex lex' : Lex} {bytes : Bytes}
    (h : lexScanText c lex = .ok lex') (hsaved : lex.savedText = bytes ++ c.bytes) :
    ∃ body, StringBody body ∧ lex'.savedText = bytes ++ body := by
  fun_induction lexScanText c lex generalizing bytes with
  | case1 lex =>
    obtain rfl := Except.ok.inj h
    exact ⟨[34], .quote, hsaved⟩
  | case2 lex b hquote hcontrol => exact absurd h lexGiveUp_ne_ok
  | case3 lex b hquote hcontrol r hr ih =>
    split at hr
    · next hback =>
      obtain ⟨escape, hescape, hbody⟩ := lexEscape_saved hr
      obtain ⟨body, hb, hlex⟩ := ih h hescape
      refine ⟨92 :: (escape ++ body), hbody body hb, ?_⟩
      rw [hlex, hsaved, hback]
      simp [StreamChar.bytes]
    · next hback =>
      obtain rfl := Except.ok.inj hr
      have hmore := lexGetSave_savedText lex
      obtain ⟨body, hb, hlex⟩ := ih h hmore
      refine ⟨b :: body, .plain hquote hback (by simpa using hcontrol) hb, ?_⟩
      rw [hlex, hsaved]
      simp [StreamChar.bytes]
  | case4 lex b hquote hcontrol stop hr => exact absurd h (by simp)
  | case5 c lex hc => exact absurd h (by simp)

/-- The loop over the digits of `\u` refuses, or ends with a byte that can be given back. -/
theorem lexHex_delivered {n : ℕ} {c : StreamChar} {lex : Lex} (hhand : c.Delivered lex.stream) :
    lexHex n c lex = .error .refused ∨ ∃ r, lexHex n c lex = .ok r ∧ r.1.Delivered r.2.stream := by
  induction n generalizing c lex with
  | zero => exact .inr ⟨_, rfl, hhand⟩
  | succ n ih =>
    rw [lexHex]
    split
    · exact ih (lexGetSave_delivered lex)
    · exact .inl (by rw [hhand.stop_eq])

/-- An escape is refused, or behind it there is a character that can be given back. -/
theorem lexEscape_delivered (lex : Lex) :
    lexEscape lex = .error .refused ∨ ∃ r, lexEscape lex = .ok r ∧ r.1.Delivered r.2.stream := by
  rw [lexEscape]
  split
  · exact lexHex_delivered (lexGetSave_delivered _)
  split
  · exact .inr ⟨_, rfl, lexGetSave_delivered _⟩
  · exact .inl (by rw [(lexGetSave_delivered lex).stop_eq])

/-- **The first pass** stops by refusing. -/
theorem lexScanText_stop {c : StreamChar} {lex : Lex} {bytes : Bytes} {stop : JsonStop}
    (h : lexScanText c lex = .error stop) (hhand : c.Delivered lex.stream)
    (hsaved : lex.savedText = bytes ++ c.bytes) : stop = .refused := by
  fun_induction lexScanText c lex generalizing bytes with
  | case1 lex => exact absurd h (by simp)
  | case2 lex b hquote hcontrol =>
    rw [hhand.giveUp hsaved] at h
    exact (Except.error.inj h).symm
  | case3 lex b hquote hcontrol r hr ih =>
    split at hr
    · obtain ⟨escape, hescape, -⟩ := lexEscape_saved hr
      obtain hstop | ⟨r', hr', hhand'⟩ := lexEscape_delivered lex
      · exact absurd (hr.symm.trans hstop) (by simp)
      · obtain rfl := Except.ok.inj (hr.symm.trans hr')
        exact ih h hhand' hescape
    · obtain rfl := Except.ok.inj hr
      exact ih h (lexGetSave_delivered lex) (lexGetSave_savedText lex)
  | case4 lex b hquote hcontrol stop' hr =>
    obtain rfl := Except.error.inj h
    split at hr
    · obtain hstop | ⟨r', hr', -⟩ := lexEscape_delivered lex
      · exact (Except.error.inj (hstop.symm.trans hr)).symm
      · exact absurd (hr.symm.trans hr') (by simp)
    · exact absurd hr (by simp)
  | case5 c lex hc =>
    rw [hhand.stop_eq] at h
    exact (Except.error.inj h).symm

/-- What is saved and what the stream holds back are a text, as long as all bytes are saved. -/
structure SavedText (data : Bytes) (lex : Lex) : Prop where
  text : Text (lex.savedText ++ lex.stream.ahead)
  fed : Fed data lex.stream

/-- A byte that is read is saved. -/
theorem SavedText.getSave {lex : Lex} (h : SavedText data lex) : SavedText data (lexGetSave lex).2 := by
  have htext := streamGet_text h.text
  have hfed := h.fed.get
  constructor
  · rw [lexGetSave_savedText]
    rwa [lexGetSave, lexSave_stream]
  · rwa [lexGetSave, lexSave_stream]

theorem SavedText.hex {n : ℕ} {c : StreamChar} {lex : Lex} {r : StreamChar × Lex}
    (h : SavedText data lex) (hr : lexHex n c lex = .ok r) : SavedText data r.2 := by
  induction n generalizing c lex with
  | zero =>
    obtain rfl := Except.ok.inj hr
    exact h
  | succ n ih =>
    rw [lexHex] at hr
    split at hr
    · exact ih h.getSave hr
    · exact absurd hr (by simp)

/-- Behind the backslash, whatever follows is saved. -/
theorem SavedText.escape {lex : Lex} {r : StreamChar × Lex} (h : SavedText data lex)
    (hr : lexEscape lex = .ok r) : SavedText data r.2 := by
  rw [lexEscape] at hr
  split at hr
  · exact h.getSave.getSave.hex hr
  split at hr
  · obtain rfl := Except.ok.inj hr
    exact h.getSave.getSave
  · exact absurd hr (by simp)

/-- The scan of a string saves all that it reads. -/
theorem SavedText.scan {c : StreamChar} {lex lex' : Lex} (h : SavedText data lex)
    (hr : lexScanText c lex = .ok lex') : SavedText data lex' := by
  fun_induction lexScanText c lex with
  | case1 lex =>
    obtain rfl := Except.ok.inj hr
    exact h
  | case2 lex b hquote hcontrol => exact absurd hr lexGiveUp_ne_ok
  | case3 lex b hquote hcontrol r heq ih =>
    refine ih ?_ hr
    split at heq
    · exact h.escape heq
    · obtain rfl := Except.ok.inj heq
      exact h.getSave
  | case4 lex b hquote hcontrol stop heq => exact absurd hr (by simp)
  | case5 c lex hc => exact absurd hr (by simp)

/-! ## The second pass -/

/-- A hex digit is ASCII and has a value. -/
theorem hexValue_of_xdigit {c : UInt8} (h : lIsXdigit c = true) :
    c.toNat < 128 ∧ ∃ v < 16, hexValue c = .ok v := by
  simp only [lIsXdigit, lIsDigit, Bool.or_eq_true, Bool.and_eq_true, decide_eq_true_eq,
    UInt8.le_iff_toNat_le, UInt8.reduceToNat] at h
  refine ⟨by omega, ?_⟩
  simp only [hexValue, lIsDigit, lIsLower, lIsUpper, Bool.and_eq_true, decide_eq_true_eq,
    UInt8.le_iff_toNat_le, UInt8.reduceToNat]
  split
  · exact ⟨_, by omega, rfl⟩
  split
  · exact ⟨_, by omega, rfl⟩
  · rw [if_pos (by omega)]
    exact ⟨_, by omega, rfl⟩

/-- Four digits are a number of sixteen bits. -/
theorem decodeUnicodeEscape_eq {a b c d : UInt8} {va vb vc vd : ℕ} (p : Bytes)
    (ha : hexValue a = .ok va) (hb : hexValue b = .ok vb) (hc : hexValue c = .ok vc)
    (hd : hexValue d = .ok vd) :
    decodeUnicodeEscape (117 :: a :: b :: c :: d :: p) =
      .ok (((va * 16 + vb) * 16 + vc) * 16 + vd) := by
  simp [decodeUnicodeEscape, List.foldlM, ha, hb, hc, hd, Nat.shiftLeft_eq]

/-- Four hex digits are a number of 16 bits. -/
theorem decodeUnicodeEscape_ok {a b c d : UInt8} (p : Bytes) (ha : lIsXdigit a = true)
    (hb : lIsXdigit b = true) (hc : lIsXdigit c = true) (hd : lIsXdigit d = true) :
    ∃ v < 65536, decodeUnicodeEscape (117 :: a :: b :: c :: d :: p) = .ok v := by
  obtain ⟨-, va, hva, ha⟩ := hexValue_of_xdigit ha
  obtain ⟨-, vb, hvb, hb⟩ := hexValue_of_xdigit hb
  obtain ⟨-, vc, hvc, hc⟩ := hexValue_of_xdigit hc
  obtain ⟨-, vd, hvd, hd⟩ := hexValue_of_xdigit hd
  exact ⟨_, by omega, decodeUnicodeEscape_eq p ha hb hc hd⟩

/-- A character other than the zero character has no zero byte. -/
theorem zero_not_mem_encodeChar {c : Char} (h : c.toNat ≠ 0) : 0 ∉ String.utf8EncodeChar c := by
  intro hmem
  have hone := Utf8.encodeChar_of_mem hmem (by decide)
  rw [Utf8.encodeChar_eq] at hone
  split at hone
  · have hzero := List.cons.inj hone |>.1
    rw [ofNat_eq_iff (by omega)] at hzero
    exact h hzero
  repeat' split at hone
  all_goals exact absurd hone (by simp)

/-- The character of an escape. -/
theorem unescapeChar_ok {v : ℕ} (h : v < 0xD800 ∨ 0xDFFF < v ∧ v < 0x110000) (hv : v ≠ 0) :
    ∃ bytes, unescapeChar v = .ok bytes ∧ Text bytes ∧ 0 ∉ bytes ∧ bytes.length ≤ 4 := by
  have hnum := toNat_ofNat h
  refine ⟨String.utf8EncodeChar (Char.ofNat v), ?_, .char _, ?_, ?_⟩
  · rw [unescapeChar, ← hnum, utf8Encode_eq, hnum]
  · exact zero_not_mem_encodeChar (by rwa [hnum])
  · rw [String.length_utf8EncodeChar]
    exact Char.utf8Size_le_four _

/-- What an escape of a text is read as: a character that is not longer than its escape, with
more of the text behind it. -/
structure Unescaped (p bytes p' : Bytes) : Prop where
  text : Text bytes
  zero : 0 ∉ bytes
  body : StringBody p'
  ascii : ∃ escape, p = escape ++ p' ∧ ∀ b ∈ escape, b.toNat < 128
  fits : bytes.length + p'.length ≤ p.length

/-- An escape of two bytes stands for one, which is not zero. -/
theorem unescapeOne_escape {b : UInt8} (h : lIsEscape b = true) (p : Bytes) :
    b.toNat < 128 ∧ ∃ b' : UInt8, b' ≠ 0 ∧ b'.toNat < 128 ∧ unescapeOne (b :: p) = .ok ([b'], p) := by
  simp only [lIsEscape, Bool.or_eq_true, decide_eq_true_eq] at h
  rcases h with ((((((rfl | rfl) | rfl) | rfl) | rfl) | rfl) | rfl) | rfl
  all_goals exact ⟨by decide, _, by decide, by decide, rfl⟩

/-- A `\u` escape in a scanned text is refused as a surrogate or as zero, or it stands for a
character. -/
theorem unescapeUnicode_body {a b c d : UInt8} {p : Bytes} (ha : lIsXdigit a = true)
    (hb : lIsXdigit b = true) (hc : lIsXdigit c = true) (hd : lIsXdigit d = true)
    (hp : StringBody p) :
    unescapeUnicode (117 :: a :: b :: c :: d :: p) = .error .refused ∨
      ∃ bytes p', unescapeUnicode (117 :: a :: b :: c :: d :: p) = .ok (bytes, p') ∧
        Unescaped (117 :: a :: b :: c :: d :: p) bytes p' := by
  obtain ⟨v, hv, hdecode⟩ := decodeUnicodeEscape_ok p ha hb hc hd
  have hascii : ∀ e ∈ [117, a, b, c, d], e.toNat < 128 := by
    simp only [List.forall_mem_cons]
    exact ⟨by decide, (hexValue_of_xdigit ha).1, (hexValue_of_xdigit hb).1,
      (hexValue_of_xdigit hc).1, (hexValue_of_xdigit hd).1, by simp⟩
  rw [unescapeUnicode, hdecode, ok_bind]
  dsimp only [List.drop_succ_cons, List.drop_zero]
  split
  · -- the first half of a surrogate pair
    split
    · next hpair =>
      cases hp with
      | quote => exact absurd hpair (by simp)
      | plain hquote hback hcontrol hp =>
        exact absurd (List.cons.inj hpair).1 hback
      | escape he hp =>
        obtain rfl := (List.cons.inj (List.cons.inj hpair).2).1
        exact absurd he (by decide)
      | @unicode a' b' c' d' q ha' hb' hc' hd' hq =>
        obtain ⟨v2, -, hdecode2⟩ := decodeUnicodeEscape_ok q ha' hb' hc' hd'
        simp only [List.drop_succ_cons, List.drop_zero, hdecode2, ok_bind]
        split
        · next hlow =>
          obtain ⟨bytes, hchar, htext, hzero, hlen⟩ := unescapeChar_ok
            (v := (v - 0xD800) <<< 10 + (v2 - 0xDC00) + 0x10000)
            (by rw [Nat.shiftLeft_eq]; omega) (by omega)
          refine .inr ⟨bytes, q, by rw [hchar]; rfl, htext, hzero, hq, ?_, ?_⟩
          · refine ⟨[117, a, b, c, d, 92, 117, a', b', c', d'], rfl, ?_⟩
            rw [show [117, a, b, c, d, 92, 117, a', b', c', d'] =
              [117, a, b, c, d] ++ [92, 117, a', b', c', d'] from rfl]
            refine List.forall_mem_append.mpr ⟨hascii, ?_⟩
            simp only [List.forall_mem_cons]
            exact ⟨by decide, by decide, (hexValue_of_xdigit ha').1, (hexValue_of_xdigit hb').1,
              (hexValue_of_xdigit hc').1, (hexValue_of_xdigit hd').1, by simp⟩
          · simp only [List.length_cons]
            omega
        · exact .inl rfl
    · exact .inl rfl
  split
  · exact .inl rfl
  split
  · exact .inl rfl
  · obtain ⟨bytes, hchar, htext, hzero, hlen⟩ := unescapeChar_ok (v := v) (by omega) (by assumption)
    refine .inr ⟨bytes, p, by rw [hchar]; rfl, htext, hzero, hp, ⟨[117, a, b, c, d], rfl, hascii⟩, ?_⟩
    simp only [List.length_cons]
    omega

/-- **An escape** of a text of the first pass is read, or refused. -/
theorem unescapeOne_body {p : Bytes} (h : StringBody (92 :: p)) :
    unescapeOne p = .error .refused ∨
      ∃ bytes p', unescapeOne p = .ok (bytes, p') ∧ Unescaped p bytes p' := by
  cases h with
  | plain hquote hback hcontrol hp => exact absurd rfl hback
  | @escape b p he hp =>
    obtain ⟨hb, b', hne, hlt, heq⟩ := unescapeOne_escape he p
    exact .inr ⟨[b'], p, heq, .ascii hlt .nil, by simpa using hne.symm, hp,
      ⟨[b], rfl, by simpa using hb⟩, by simp [Nat.add_comm]⟩
  | unicode ha hb hc hd hp => exact unescapeUnicode_body ha hb hc hd hp

/-- **The second pass** over a text of the first: it is refused, or it makes a string without
zero bytes that fits; a text is made of a text. -/
theorem unescape_body {p : Bytes} (h : StringBody p) :
    unescape p = .error .refused ∨ ∃ bytes, unescape p = .ok bytes ∧ 0 ∉ bytes ∧
      bytes.length + 1 ≤ p.length ∧ ∀ done, Text (done ++ p) → Text (done ++ bytes) := by
  fun_induction unescape p with
  | case1 => cases h
  | case2 p =>
    refine .inr ⟨[], rfl, by simp, by simp, fun done hdone => ?_⟩
    rw [List.append_nil]
    exact (hdone.split (by decide)).1
  | case3 p r heq hquote ih =>
    obtain hstop | ⟨bytes, p', hok, hun⟩ := unescapeOne_body h
    · exact absurd (heq.symm.trans hstop) (by simp)
    · obtain rfl : r = (bytes, p') := Except.ok.inj (heq.symm.trans hok)
      obtain hstop | ⟨more, hmore, hzero, hlen, htext⟩ := ih hun.body
      · exact .inl (by rw [hstop]; rfl)
      · refine .inr ⟨bytes ++ more, by rw [hmore]; rfl, ?_, ?_, fun done hdone => ?_⟩
        · rw [List.mem_append, not_or]
          exact ⟨hun.zero, hzero⟩
        · have hfits := hun.fits
          dsimp only at hlen
          simp only [List.length_append, List.length_cons]
          omega
        · -- the bytes of an escape are characters of their own
          obtain ⟨hbefore, hafter⟩ := hdone.split (by decide)
          obtain ⟨escape, rfl, hascii⟩ := hun.ascii
          rw [← List.append_assoc]
          exact (hbefore.append hun.text).append (htext [] (hafter.drop hascii))
  | case4 p stop heq hquote =>
    obtain hstop | ⟨bytes, p', hok, -⟩ := unescapeOne_body h
    · rw [Except.error.inj (heq.symm.trans hstop)]
      exact .inl rfl
    · exact absurd (heq.symm.trans hok) (by simp)
  | case5 b p hquote hback ih =>
    cases h with
    | quote => exact absurd rfl hquote
    | escape he hp => exact absurd rfl hback
    | unicode ha hb hc hd hp => exact absurd rfl hback
    | plain hquote' hback' hcontrol hp =>
      obtain hstop | ⟨more, hmore, hzero, hlen, htext⟩ := ih hp
      · exact .inl (by rw [hstop]; rfl)
      · refine .inr ⟨b :: more, by rw [hmore]; rfl, ?_, by simpa using hlen, fun done hdone => ?_⟩
        · rw [List.mem_cons, not_or]
          refine ⟨?_, hzero⟩
          rintro rfl
          exact absurd hcontrol (by decide)
        · have h := htext (done ++ [b]) (by simpa using hdone)
          simpa using h

/-! ## Numbers -/

/-- The integer digits of a number: no zero stands in front of others. -/
structure IntegerDigits (sign digits : Bytes) : Prop where
  minus : sign = [] ∨ sign = [45]
  some_digit : digits ≠ []
  all_digits : ∀ b ∈ digits, lIsDigit b = true
  head : digits.head? = some 48 → digits = [48]

/-- A point and digits, or nothing. -/
def FractionText (fraction : Bytes) : Prop :=
  fraction = [] ∨ ∃ digits, digits ≠ [] ∧ (∀ b ∈ digits, lIsDigit b = true) ∧ fraction = 46 :: digits

/-- An `e`, a sign if there is one, and digits, or nothing. -/
def ExponentText (exponent : Bytes) : Prop :=
  exponent = [] ∨ ∃ e sign digits, (e = 69 ∨ e = 101) ∧ (sign = [] ∨ sign = [43] ∨ sign = [45]) ∧
    digits ≠ [] ∧ (∀ b ∈ digits, lIsDigit b = true) ∧ exponent = e :: (sign ++ digits)

/-- A number of the JSON grammar. -/
def NumberText (text : Bytes) : Prop :=
  ∃ sign digits fraction exponent, text = sign ++ digits ++ fraction ++ exponent ∧
    IntegerDigits sign digits ∧ FractionText fraction ∧ ExponentText exponent

/-- `strtod` reads every number of the JSON grammar to its end. -/
def ReadsNumbers (strtod : Bytes → Strtod) : Prop :=
  ∀ text, NumberText text → (strtod text).used = text.length

/-- What a computation of the lexer may stop with: it refuses, or `strtod` leaves some bytes of a
number. -/
def MayStop (strtod : Bytes → Strtod) (stop : JsonStop) : Prop :=
  stop = .refused ∨ stop = .assertion ∧ ¬ ReadsNumbers strtod

/-- A computation of the lexer is refused, or it returns what holds of the result. -/
def Refusing {α : Type} (strtod : Bytes → Strtod) (x : Except JsonStop α) (post : α → Prop) :
    Prop :=
  (∃ stop, x = .error stop ∧ MayStop strtod stop) ∨ ∃ a, x = .ok a ∧ post a

section Refusing

variable {α β : Type} {strtod : Bytes → Strtod} {x : Except JsonStop α} {post post' : α → Prop}

/-- One computation after another. -/
theorem Refusing.bind {f : α → Except JsonStop β} {post' : β → Prop} (h : Refusing strtod x post)
    (hf : ∀ a, post a → Refusing strtod (f a) post') : Refusing strtod (x >>= f) post' := by
  obtain ⟨stop, rfl, hstop⟩ | ⟨a, rfl, ha⟩ := h
  · exact .inl ⟨stop, rfl, hstop⟩
  · exact hf a ha

/-- The result may be known less well. -/
theorem Refusing.mono (h : Refusing strtod x post) (himp : ∀ a, post a → post' a) :
    Refusing strtod x post' :=
  h.imp_right fun ⟨a, hx, ha⟩ => ⟨a, hx, himp a ha⟩

theorem Refusing.refused : Refusing strtod (.error .refused) post := .inl ⟨_, rfl, .inl rfl⟩

theorem Refusing.ok {a : α} (h : post a) : Refusing strtod (.ok a) post := .inr ⟨a, rfl, h⟩

end Refusing

/-- Bytes in hand and still to come. -/
def lexLeft (r : StreamChar × Lex) : ℕ := r.1.count + r.2.stream.left

theorem lexLeft_getSave (lex : Lex) : lexLeft (lexGetSave lex) = lex.stream.left :=
  lexGetSave_left lex

/-- A loop of the lexer only takes bytes. -/
theorem lexLeft_while (p : UInt8 → Bool) (c : StreamChar) (lex : Lex) :
    lexLeft (lexWhile p c lex) ≤ lexLeft (c, lex) := by
  fun_induction lexWhile p c lex with
  | case1 c lex hp ih =>
    have hleft := lexLeft_getSave lex
    simp only [lexLeft] at *
    omega
  | case2 c lex hp => exact le_rfl

theorem lexLeft_digits (lex : Lex) : lexLeft (lexDigits lex) ≤ lex.stream.left :=
  (lexLeft_while _ _ _).trans_eq (lexLeft_getSave lex)

/-- Behind a part of a number, of which `saved` is saved: at most `left` bytes are to come. -/
structure NumberPart (data : Bytes) (left : ℕ) (saved : Bytes) (r : StreamChar × Lex) : Prop where
  left : lexLeft r ≤ left
  whole : Whole data r.1 r.2.stream
  saved : r.2.savedText = saved ++ r.1.bytes

section Number

variable {strtod : Bytes → Strtod} {c : StreamChar} {lex : Lex} {r : StreamChar × Lex} {left : ℕ}
variable {bytes : Bytes}

theorem NumberPart.mono {left' : ℕ} (h : NumberPart data left bytes r) (hle : left ≤ left') :
    NumberPart data left' bytes r := ⟨h.left.trans hle, h.whole, h.saved⟩

/-- A token may be given up at the character behind the part. -/
theorem NumberPart.giveUp {α : Type} {post : α → Prop} (h : NumberPart data left bytes r) :
    Refusing strtod (lexGiveUp r.1 r.2) post := by
  rw [h.whole.hand.giveUp h.saved]
  exact .refused

/-- What the character behind the part leaves when it is given back. -/
theorem NumberPart.unget (h : NumberPart data left bytes r) :
    ∃ s', lexUngetUnsave r.1 r.2 = .ok ⟨s', bytes⟩ ∧ Whole data .eof s' ∧ s'.left ≤ left := by
  obtain ⟨s', hs', hback⟩ := h.whole.hand.ungetUnsave h.saved
  exact ⟨s', hs', h.whole.unget hback, hback.left.trans h.left⟩

/-- One more character is saved. -/
theorem NumberPart.getSave (h : NumberPart data left bytes r) :
    NumberPart data r.2.stream.left (bytes ++ r.1.bytes) (lexGetSave r.2) where
  left := (lexLeft_getSave r.2).le
  whole := h.whole.getSave
  saved := by rw [lexGetSave_savedText, h.saved]

/-- The digits behind a byte that is saved. -/
theorem NumberPart.digits (h : NumberPart data left bytes r) :
    ∃ digits, (∀ b ∈ digits, lIsDigit b = true) ∧
      NumberPart data r.2.stream.left (bytes ++ r.1.bytes ++ digits) (lexDigits r.2) := by
  obtain ⟨digits, hall, -, hsaved⟩ := lexWhile_saved (p := lIsDigit) h.getSave.saved
  exact ⟨digits, hall, lexLeft_digits r.2, h.whole.getSave.while, hsaved⟩

/-- A digit and those behind it. -/
theorem NumberPart.digits_of_digit (h : NumberPart data left bytes r)
    (hdigit : r.1.is lIsDigit = true) :
    ∃ digits, digits ≠ [] ∧ (∀ b ∈ digits, lIsDigit b = true) ∧ digits.head? = r.1.bytes.head? ∧
      NumberPart data r.2.stream.left (bytes ++ digits) (lexDigits r.2) := by
  obtain ⟨b, hb, hbytes⟩ := StreamChar.bytes_of_is hdigit
  obtain ⟨digits, hall, hpart⟩ := h.digits
  refine ⟨b :: digits, by simp, List.forall_mem_cons.mpr ⟨hb, hall⟩, by rw [hbytes]; rfl, ?_⟩
  rw [hbytes] at hpart
  simpa using hpart

theorem NumberPart.stream_left (h : NumberPart data left bytes r) : r.2.stream.left ≤ left :=
  (Nat.le_add_left _ _).trans h.left

/-- What the sign of a number leaves. -/
theorem NumberPart.sign {c : StreamChar} {lex : Lex} (h : NumberPart data left [] (c, lex)) :
    ∃ sign : Bytes, (sign = [] ∨ sign = [45]) ∧
      NumberPart data left sign (if c = .byte 45 then lexGetSave lex else (c, lex)) := by
  split
  · next hminus =>
    refine ⟨[45], .inr rfl, ?_⟩
    have hmore := h.getSave.mono h.stream_left
    rwa [hminus] at hmore
  · exact ⟨[], .inl rfl, h⟩

/-- **The integer digits** of a number. -/
theorem lexIntegerPart_refusing (h : NumberPart data left [] (c, lex)) :
    Refusing strtod (lexIntegerPart c lex) fun r => ∃ sign digits, IntegerDigits sign digits ∧
      lexLeft r < left ∧ NumberPart data left (sign ++ digits) r := by
  obtain ⟨sign, hsign, hfirst⟩ := h.sign
  rw [lexIntegerPart]
  generalize (if c = .byte 45 then lexGetSave lex else (c, lex)) = first at *
  have hcount : ∀ {p}, first.1.is p = true → first.2.stream.left < left := fun his => by
    have hone := StreamChar.count_of_is his
    have hleft := hfirst.left
    rw [lexLeft] at hleft
    omega
  dsimp only
  split
  · next hzero =>
    have hnext := hfirst.getSave
    split
    · exact hnext.giveUp
    · have hless := hcount (p := (· = 48)) (by simp [hzero, StreamChar.is])
      rw [hzero] at hnext
      exact .ok ⟨sign, [48], ⟨hsign, by simp, by simp [lIsDigit], fun _ => rfl⟩,
        hnext.left.trans_lt hless, hnext.mono hless.le⟩
  split
  · next hzero hdigit =>
    obtain ⟨digits, hne, hall, hhead, hpart⟩ := hfirst.digits_of_digit hdigit
    refine .ok ⟨sign, digits, ⟨hsign, hne, hall, fun h48 => absurd ?_ hzero⟩,
      hpart.left.trans_lt (hcount hdigit), hpart.mono (hcount hdigit).le⟩
    obtain ⟨b, -, hbytes⟩ := StreamChar.bytes_of_is hdigit
    generalize first.1 = c at *
    cases c with
    | byte b' =>
      rw [h48] at hhead
      rw [Option.some.inj hhead]
    | eof | error | aborted => exact absurd hbytes (by simp [StreamChar.bytes])
  · exact hfirst.giveUp

/-- **The fraction** of a number. -/
theorem lexFraction_refusing (h : NumberPart data left bytes r) :
    Refusing strtod (lexFraction r.1 r.2) fun r => ∃ fraction, FractionText fraction ∧
      NumberPart data left (bytes ++ fraction) r := by
  rw [lexFraction]
  split
  · next hpoint =>
    have hnext := h.getSave.mono h.stream_left
    rw [hpoint] at hnext
    dsimp only
    split
    · next hdigit =>
      obtain ⟨digits, hne, hall, -, hpart⟩ := hnext.digits_of_digit hdigit
      refine .ok ⟨46 :: digits, .inr ⟨digits, hne, hall, rfl⟩, ?_⟩
      have hmore := hpart.mono hnext.stream_left
      rwa [List.append_assoc] at hmore
    · obtain ⟨s', hs', -⟩ := (streamGet_delivered r.2.stream).unget
      have hunget : lexUnget (lexGet r.2).1 (lexGet r.2).2 =
          .ok { (lexGet r.2).2 with stream := s' } := by
        rw [lexUnget]
        exact congrArg (· >>= _) hs'
      rw [hunget, ok_bind]
      exact .refused
  · exact .ok ⟨[], .inl rfl, by simpa using h⟩

/-- **The exponent** of a number. -/
theorem lexExponent_refusing (h : NumberPart data left bytes r) :
    Refusing strtod (lexExponent r.1 r.2) fun r => ∃ exponent, ExponentText exponent ∧
      NumberPart data left (bytes ++ exponent) r := by
  rw [lexExponent]
  split
  · next he =>
    obtain ⟨e, heq, he⟩ : ∃ e, r.1 = .byte e ∧ (e = 69 ∨ e = 101) :=
      he.elim (fun h => ⟨69, h, .inl rfl⟩) fun h => ⟨101, h, .inr rfl⟩
    have hnext := h.getSave.mono h.stream_left
    rw [heq] at hnext
    -- what the sign leaves
    obtain ⟨sign, hsign, hsigned⟩ : ∃ sign : Bytes, (sign = [] ∨ sign = [43] ∨ sign = [45]) ∧
        NumberPart data left (bytes ++ [e] ++ sign)
          (if (lexGetSave r.2).1 = .byte 43 ∨ (lexGetSave r.2).1 = .byte 45 then
            lexGetSave (lexGetSave r.2).2 else lexGetSave r.2) := by
      have hmore := hnext.getSave.mono hnext.stream_left
      split
      · next hbyte =>
        obtain hplus | hminus := hbyte
        · rw [hplus] at hmore
          exact ⟨[43], .inr (.inl rfl), hmore⟩
        · rw [hminus] at hmore
          exact ⟨[45], .inr (.inr rfl), hmore⟩
      · exact ⟨[], .inl rfl, by simpa [StreamChar.bytes] using hnext⟩
    dsimp only
    generalize (if (lexGetSave r.2).1 = .byte 43 ∨ (lexGetSave r.2).1 = .byte 45 then
      lexGetSave (lexGetSave r.2).2 else lexGetSave r.2) = signed at *
    split
    · next hdigit =>
      obtain ⟨digits, hne, hall, -, hpart⟩ := hsigned.digits_of_digit hdigit
      refine .ok ⟨e :: (sign ++ digits), .inr ⟨e, sign, digits, he, hsign, hne, hall, rfl⟩, ?_⟩
      have hmore := hpart.mono hsigned.stream_left
      simpa using hmore
    · exact hsigned.giveUp
  · exact .ok ⟨[], .inl rfl, by simpa using h⟩

end Number

/-- A sign and digits are all that is read of an integer. -/
theorem strtoll_eq {sign digits : Bytes} (hsign : sign = [] ∨ sign = [45]) (hne : digits ≠ [])
    (hall : ∀ b ∈ digits, lIsDigit b = true) :
    strtoll (sign ++ digits) =
      (if sign = [45] then -(digitsValue digits : ℤ) else digitsValue digits, []) := by
  have htake : digits.takeWhile lIsDigit = digits := List.takeWhile_eq_self_iff.mpr hall
  have hdrop : digits.dropWhile lIsDigit = [] := List.dropWhile_eq_nil_iff.mpr hall
  have hempty : digits.isEmpty = false := by simpa using hne
  rcases hsign with rfl | rfl
  · have hhead : digits.head? ≠ some 45 := by
      intro hhead
      have hminus := hall 45 (List.mem_of_head? hhead)
      exact absurd hminus (by decide)
    rw [strtoll]
    simp [hhead, htake, hdrop, hempty]
  · rw [strtoll]
    simp [htake, hdrop, hempty]

/-! ## Tokens -/

/-- What a token of `lex_scan` carries, in front of the end of the text. -/
def Token.Sound : Token → Prop
  | .string bytes => Text bytes ∧ 0 ∉ bytes
  | .integer i => -2 ^ 63 ≤ i ∧ i < 2 ^ 63
  | .eof => False
  | _ => True

/-- A result of the lexer, with `left` bytes before it. -/
structure Scanned (data : Bytes) (left : ℕ) (token : Token) (lex : Lex) : Prop where
  sound : token.Sound
  whole : Whole data .eof lex.stream
  left : lex.stream.left < left

/-- A token that was read with `left` bytes before it, or the end of a text. -/
def Read (data : Bytes) (left : ℕ) (token : Token) (lex : Lex) : Prop :=
  token = .eof ∧ Text data ∨ Scanned data left token lex

section

variable (strtod : Bytes → Strtod)

/-- The digits of an integer are a `json_int_t`, or `strtol` reports a range error. -/
theorem jsonStrtoint_refusing {sign digits : Bytes} (h : IntegerDigits sign digits) :
    Refusing strtod (jsonStrtoint (sign ++ digits)) fun i => -2 ^ 63 ≤ i ∧ i < 2 ^ 63 := by
  rw [jsonStrtoint]
  split
  · exact .refused
  · next hrange =>
    rw [strtoll_eq h.minus h.some_digit h.all_digits, if_neg (by simp)]
    rw [strtoll_eq h.minus h.some_digit h.all_digits] at hrange
    exact .ok (by omega)

/-- **The assertion of `jsonp_strtod`** is about a number of the grammar. -/
theorem jsonpStrtod_refusing {text : Bytes} (h : NumberText text) :
    Refusing strtod (jsonpStrtod strtod text) fun _ => True := by
  rw [jsonpStrtod]
  split
  · next hused => exact .inl ⟨_, rfl, .inr ⟨rfl, fun hreads => hused (hreads text h)⟩⟩
  split
  · exact .refused
  · exact .ok trivial

/-- **A number** of the text. -/
theorem lexScanNumber_scanned {c : StreamChar} {lex : Lex} (hsaved : lex.savedText = c.bytes)
    (hwhole : Whole data c lex.stream) :
    Refusing strtod (lexScanNumber strtod c lex) fun r =>
      Scanned data (lexLeft (c, lex)) r.1 r.2 := by
  have hpart : NumberPart data (lexLeft (c, lex)) [] (c, lex) := ⟨le_rfl, hwhole, hsaved⟩
  rw [lexScanNumber]
  refine (lexIntegerPart_refusing hpart).bind fun r hr => ?_
  obtain ⟨sign, digits, hdigits, hless, hinteger⟩ := hr
  have htight : NumberPart data (lexLeft r) (sign ++ digits) r :=
    ⟨le_rfl, hinteger.whole, hinteger.saved⟩
  split
  · obtain ⟨s', hs', hend, hleft⟩ := htight.unget
    rw [hs', ok_bind]
    exact (jsonStrtoint_refusing strtod hdigits).bind fun i hi =>
      .ok ⟨hi, hend, hleft.trans_lt hless⟩
  · refine (lexFraction_refusing htight).bind fun r₂ hr₂ => ?_
    obtain ⟨fraction, hfraction, hpart₂⟩ := hr₂
    refine (lexExponent_refusing hpart₂).bind fun r₃ hr₃ => ?_
    obtain ⟨exponent, hexponent, hpart₃⟩ := hr₃
    obtain ⟨s', hs', hend, hleft⟩ := hpart₃.unget
    rw [hs', ok_bind]
    exact (jsonpStrtod_refusing strtod
      ⟨sign, digits, fraction, exponent, rfl, hdigits, hfraction, hexponent⟩).bind fun x _ =>
        .ok ⟨trivial, hend, hleft.trans_lt hless⟩

/-- The scan of a string only takes bytes. -/
theorem lexScanText_left {c : StreamChar} {lex lex' : Lex} (h : lexScanText c lex = .ok lex') :
    lex'.stream.left ≤ lexLeft (c, lex) := by
  fun_induction lexScanText c lex with
  | case1 lex =>
    obtain rfl := Except.ok.inj h
    exact Nat.le_add_left _ _
  | case2 lex b hquote hcontrol => exact absurd h lexGiveUp_ne_ok
  | case3 lex b hquote hcontrol r hr ih =>
    have hlex := ih h
    have hcount : lexLeft (.byte b, lex) = 1 + lex.stream.left := rfl
    split at hr
    · have hescape := lexEscape_left hr
      simp only [lexLeft] at *
      omega
    · obtain rfl := Except.ok.inj hr
      have hnext := lexLeft_getSave lex
      simp only [lexLeft] at *
      omega
  | case4 lex b hquote hcontrol stop hr => exact absurd h (by simp)
  | case5 c lex hc => exact absurd h (by simp)

/-- The text of a string ends with the quote. -/
theorem StringBody.ends {p : Bytes} (h : StringBody p) : ∃ p', p = p' ++ [34] := by
  induction h with
  | quote => exact ⟨[], rfl⟩
  | plain hquote hback hcontrol hp ih =>
    obtain ⟨p', rfl⟩ := ih
    exact ⟨_ :: p', rfl⟩
  | escape he hp ih =>
    obtain ⟨p', rfl⟩ := ih
    exact ⟨_ :: _ :: p', rfl⟩
  | unicode ha hb hc hd hp ih =>
    obtain ⟨p', rfl⟩ := ih
    exact ⟨_ :: _ :: _ :: _ :: _ :: _ :: p', rfl⟩

/-- **A string** of the text. -/
theorem lexScanString_scanned {lex : Lex} (hsaved : lex.savedText = [34])
    (hwhole : Whole data (.byte 34) lex.stream) :
    Refusing strtod (lexScanString lex) fun r =>
      Scanned data (lex.stream.left + 1) r.1 r.2 := by
  have hfirst := lexGetSave_savedText lex
  rw [lexScanString]
  rcases hlex' : lexScanText (lexGetSave lex).1 (lexGetSave lex).2 with stop | lex'
  · rw [lexScanText_stop hlex' (lexGetSave_delivered lex) hfirst]
    exact .refused
  · have htext : SavedText data lex := by
      obtain ⟨⟨bytes, htext⟩, hfed, -⟩ := hwhole
      rw [StreamChar.bytes, List.append_assoc, List.singleton_append] at htext
      refine ⟨?_, hfed⟩
      rw [hsaved]
      exact Text.ascii (by decide) (htext.split (by decide)).2
    obtain ⟨body, hbody, hsaved'⟩ := lexScanText_saved hlex' hfirst
    rw [hsaved] at hsaved'
    -- the closing quote parts what is saved from what is held back
    obtain ⟨htext', hfed⟩ := htext.getSave.scan hlex'
    obtain ⟨inner, rfl⟩ := hbody.ends
    rw [hsaved', List.append_assoc, List.append_assoc] at htext'
    obtain ⟨hinner, hahead⟩ := @Text.split (34 :: inner) _ 34 (by decide) htext'
    have hend : Text ([] ++ (inner ++ [34])) :=
      (@Text.split [] _ _ (by decide) hinner).2.append (Text.ascii (by decide) .nil)
    have hleft := (lexScanText_left hlex').trans_eq (lexLeft_getSave lex)
    rw [ok_bind, hsaved', List.singleton_append, List.drop_succ_cons, List.drop_zero]
    obtain hstop | ⟨bytes, hbytes, hzero, hlen, hmake⟩ := unescape_body hbody
    · rw [hstop]
      exact .refused
    · rw [hbytes, ok_bind, if_neg (by rw [List.length_cons]; omega)]
      exact .ok ⟨⟨hmake [] hend, hzero⟩, ⟨⟨[], hahead⟩, hfed, trivial⟩, Nat.lt_succ_of_le hleft⟩

/-- **A word** of the text. -/
theorem lexScanWord_scanned {c : StreamChar} {lex : Lex} (hwhole : Whole data c lex.stream) :
    Refusing strtod (lexScanWord lex) fun r => Scanned data (lex.stream.left + 1) r.1 r.2 := by
  obtain ⟨more, -, -, hsaved⟩ := lexWhile_saved (p := lIsAlpha) (lexGetSave_savedText lex)
  have hrun : NumberPart data lex.stream.left (lex.savedText ++ more)
      (lexWhile lIsAlpha (lexGetSave lex).1 (lexGetSave lex).2) :=
    ⟨(lexLeft_while _ _ _).trans_eq (lexLeft_getSave lex), hwhole.getSave.while, hsaved⟩
  obtain ⟨s', hs', hwhole', hleft⟩ := hrun.unget
  have hend : ∀ token : Token, token.Sound →
      Scanned data (lex.stream.left + 1) token ⟨s', lex.savedText ++ more⟩ :=
    fun token htoken => ⟨htoken, hwhole', Nat.lt_succ_of_le hleft⟩
  rw [lexScanWord, hs', ok_bind]
  split
  · exact .ok (hend _ trivial)
  split
  · exact .ok (hend _ trivial)
  split
  · exact .ok (hend _ trivial)
  · exact .refused

/-- So does reading over blanks. -/
theorem lexLeft_blanks (c : StreamChar) (lex : Lex) :
    lexLeft (lexBlanks c lex) ≤ lexLeft (c, lex) := by
  fun_induction lexBlanks c lex with
  | case1 c lex hp ih =>
    have hleft := lexGet_left lex
    simp only [lexLeft] at *
    omega
  | case2 c lex hp => exact le_rfl

/-- Blanks are not saved. -/
theorem lexBlanks_savedText (c : StreamChar) (lex : Lex) :
    (lexBlanks c lex).2.savedText = lex.savedText := by
  fun_induction lexBlanks c lex with
  | case1 c lex hp ih => exact ih
  | case2 c lex hp => rfl

/-- The end of the stream is remembered. -/
theorem lexGet_eof (lex : Lex) (h : (lexGet lex).1 = .eof) :
    (lexGet lex).2.stream.state = .eof := by
  have hgets := streamGet_gets lex.stream
  change (streamGet lex.stream).1 = .eof at h
  change (streamGet lex.stream).2.state = .eof
  generalize streamGet lex.stream = r at *
  cases hgets with
  | eof hend => rfl
  | error => exact absurd h (by simp)
  | held hok hahead => exact absurd h (by simp)
  | char hok hahead hc hrest => exact absurd h (by simp)

/-- Behind the blanks, the end of the text is the end of the stream. -/
theorem lexBlanks_eof {c : StreamChar} {lex : Lex} (hc : c = .eof → lex.stream.state = .eof)
    (h : (lexBlanks c lex).1 = .eof) : (lexBlanks c lex).2.stream.state = .eof := by
  fun_induction lexBlanks c lex with
  | case1 c lex hp ih => exact ih (lexGet_eof lex) h
  | case2 c lex hp => exact hc h

/-- **A token** of the text, behind which there is less of it. -/
theorem lexScan_scanned {lex : Lex} (hwhole : Whole data .eof lex.stream) :
    Refusing strtod (lexScan strtod lex) fun r => Read data lex.stream.left r.1 r.2 := by
  rw [lexScan]
  have hleft := (lexLeft_blanks (lexGet { lex with savedText := [] }).1
    (lexGet { lex with savedText := [] }).2).trans_eq (lexGet_left { lex with savedText := [] })
  have hsaved := lexBlanks_savedText (lexGet { lex with savedText := [] }).1
    (lexGet { lex with savedText := [] }).2
  have hblanks : Whole data (lexBlanks (lexGet { lex with savedText := [] }).1
      (lexGet { lex with savedText := [] }).2).1 _ :=
    Whole.blanks hwhole.get
  have hend := lexBlanks_eof fun heof => lexGet_eof { lex with savedText := [] } heof
  dsimp only
  generalize lexBlanks (lexGet { lex with savedText := [] }).1
    (lexGet { lex with savedText := [] }).2 = r at *
  obtain ⟨c, lex'⟩ := r
  cases c with
  | eof =>
    obtain ⟨done, hdone, heq⟩ := hblanks.fed.done
    rw [hblanks.fed.eof (hend rfl), List.append_nil] at heq
    exact .ok (.inl ⟨rfl, heq ▸ hdone⟩)
  | error => exact .refused
  | aborted => exact hblanks.hand.elim
  | byte b =>
    replace hsaved : lex'.savedText = [] := hsaved
    have hcount : lex'.stream.left + 1 ≤ lex.stream.left := by
      rw [lexLeft, StreamChar.count] at hleft
      dsimp only at hleft
      omega
    have hsave : (lexSave (.byte b) lex').savedText = [b] := by simp [lexSave, hsaved]
    have hmore : ∀ {x : Except JsonStop (Token × Lex)},
        (Refusing strtod x fun r => Scanned data (lex'.stream.left + 1) r.1 r.2) →
        Refusing strtod x fun r => Read data lex.stream.left r.1 r.2 := fun hx =>
      hx.mono fun a ha => .inr ⟨ha.sound, ha.whole, ha.left.trans_le hcount⟩
    dsimp only
    split
    · exact .ok (.inr ⟨trivial, hblanks.forget, hcount⟩)
    split
    · next hquote =>
      subst hquote
      exact hmore (lexScanString_scanned strtod hsave hblanks)
    split
    · refine hmore ?_
      rw [Nat.add_comm]
      exact lexScanNumber_scanned strtod hsave hblanks
    split
    · exact hmore (lexScanWord_scanned strtod hblanks)
    · exact .refused

end

end Libpomelo
