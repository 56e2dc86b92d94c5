import Libpomelo.Package
import Mathlib.Data.List.Forall2
import Mathlib.Order.Nat
import Mathlib.Tactic.Common

/-!
# Streams of packages: the parser undoes the encoder, however the bytes are cut

The parser copies whole runs of bytes, so two cuts of one stream take different
turns through its loop. What they share is the *byte machine*: on a valid parser
(`PkgParser.Valid`) one turn over `b :: bs` either equals a turn over `[b]` alone
or continues as a turn over `bs` from the state that `[b]` leaves
(`turn_cons`). So a feed is a fold of `feedByte` over the bytes
(`feed_eq_foldl`), and a fold does not see chunk borders.

On top of that, feeding one encoded package to a fresh parser makes exactly one
call and leaves a fresh parser (`foldl_pkgEncode`), which composes to the round
trip for any list of packages and any chunking.
-/

namespace Libpomelo

/-! ## Copying -/

theorem memcpy_nil (d : Bytes) (o : ℕ) : memcpy d o [] = d := by
  simp [memcpy]

theorem length_memcpy {d s : Bytes} {o : ℕ} (h : o + s.length ≤ d.length) :
    (memcpy d o s).length = d.length := by
  simp [memcpy]
  omega

/-- Copying a byte and then the rest right behind it is one copy. -/
theorem memcpy_cons {d : Bytes} {o : ℕ} {b : UInt8} {bs : Bytes} (h : o < d.length) :
    memcpy (memcpy d o [b]) (o + 1) bs = memcpy d o (b :: bs) := by
  have ht : (d.take o ++ [b]).length = o + 1 := by simp; omega
  have htake : (d.take o ++ [b] ++ d.drop (o + 1)).take (o + 1) = d.take o ++ [b] := by
    rw [List.take_append_of_le_length (by omega), List.take_of_length_le (by omega)]
  have hdrop : (d.take o ++ [b] ++ d.drop (o + 1)).drop (o + 1 + bs.length) =
      d.drop (o + (bs.length + 1)) := by
    rw [← ht, List.drop_length_add_append, List.drop_drop]
    congr 1
    omega
  simp only [memcpy, List.length_cons, List.length_nil, htake, hdrop]
  simp

theorem PkgBuf.write_own (d : Bytes) (o : ℕ) (s : Bytes) :
    (PkgBuf.own d).write o s = .own (memcpy d o s) := rfl

/-! ## Valid parsers -/

/-- The parser between two feeds that did not fail: at rest inside a head with no
body buffer, or inside a non-empty body whose buffer has the announced size. -/
structure PkgParser.Valid (p : PkgParser) : Prop where
  headSize : p.headSize = pkgHeadBytes
  headBuf : p.headBuf.length = pkgHeadBytes
  state :
    (p.state = .head ∧ p.headOffset < pkgHeadBytes ∧ p.pkgBuf = .null ∧
      p.pkgOffset = 0 ∧ p.pkgSize = 0) ∨
    (p.state = .body ∧ p.headOffset = pkgHeadBytes ∧ p.pkgSize = p.bodyLen ∧
      p.pkgOffset < p.pkgSize ∧ ∃ b, p.pkgBuf = .own b ∧ b.length = p.pkgSize)

theorem pkgParserNew_valid : pkgParserNew.Valid where
  headSize := rfl
  headBuf := rfl
  state := Or.inl ⟨rfl, by decide, rfl, rfl, rfl⟩

/-- One turn of the feed loop with an allocator that succeeds: the state it leaves
and the bytes still unread. -/
def turn (s : PkgLog) (data : Bytes) : PkgLog × Bytes :=
  feedBody pkgLogHost (feedHead pkgLogHost [] s data).1
    ((feedHead pkgLogHost [] s data).2.1.getD [])

/-- What one byte does to the parser. -/
def feedByte (s : PkgLog) (b : UInt8) : PkgLog := (turn s [b]).1

/-- The state after `body` was copied in as the whole package: the callback ran,
then the parser was reset. -/
def delivered (s : PkgLog) (buf : PkgBuf) : PkgLog :=
  ⟨pkgParserReset { s.parser with pkgBuf := buf, pkgOffset := s.parser.pkgSize },
    s.calls ++ [⟨s.parser.type, buf, s.parser.pkgSize⟩]⟩

/-- A body step that does not reach the end of the package only stores bytes. -/
theorem pkgBody_short {s : PkgLog} {data : Bytes}
    (h : s.parser.pkgOffset + data.length < s.parser.pkgSize) :
    pkgBody pkgLogHost s data =
      ({ s with parser := { s.parser with
          pkgBuf := if 0 < data.length then s.parser.pkgBuf.write s.parser.pkgOffset data
            else s.parser.pkgBuf,
          pkgOffset := s.parser.pkgOffset + data.length } }, []) := by
  have hmin : min (s.parser.pkgSize - s.parser.pkgOffset) data.length = data.length := by omega
  simp only [pkgBody, pkgLogHost, hmin]
  by_cases hd : 0 < data.length
  · simp only [hd, if_true]
    rw [if_neg (by omega), List.take_of_length_le le_rfl, List.drop_of_length_le le_rfl]
  · have hnil : data = [] := List.eq_nil_of_length_eq_zero (by omega)
    subst hnil
    simp only [List.length_nil, Nat.add_zero] at h
    simp [Nat.ne_of_lt h]

/-- A body step that reaches the end of the package delivers it. -/
theorem pkgBody_full {s : PkgLog} {data : Bytes}
    (hlt : s.parser.pkgOffset < s.parser.pkgSize)
    (h : s.parser.pkgSize ≤ s.parser.pkgOffset + data.length) :
    pkgBody pkgLogHost s data =
      (delivered s (s.parser.pkgBuf.write s.parser.pkgOffset
          (data.take (s.parser.pkgSize - s.parser.pkgOffset))),
        data.drop (s.parser.pkgSize - s.parser.pkgOffset)) := by
  have hmin : min (s.parser.pkgSize - s.parser.pkgOffset) data.length =
      s.parser.pkgSize - s.parser.pkgOffset := by omega
  simp only [pkgBody, pkgLogHost, hmin]
  rw [if_pos (show 0 < s.parser.pkgSize - s.parser.pkgOffset by omega)]
  have he : s.parser.pkgOffset + (s.parser.pkgSize - s.parser.pkgOffset) = s.parser.pkgSize := by
    omega
  simp only [he, if_true]
  rfl

/-- A body step on a package with nothing left to read delivers it at once: this
is how an empty body is delivered. -/
theorem pkgBody_done {s : PkgLog} {data : Bytes} (h : s.parser.pkgOffset = s.parser.pkgSize) :
    pkgBody pkgLogHost s data = (delivered s s.parser.pkgBuf, data) := by
  have hp : { s.parser with pkgOffset := s.parser.pkgSize } = s.parser := by rw [← h]
  simp [pkgBody, pkgLogHost, delivered, h, hp]

/-- The parser after head bytes `data` were stored. -/
def storeHead (p : PkgParser) (data : Bytes) : PkgParser :=
  { p with headBuf := memcpy p.headBuf p.headOffset data,
           headOffset := p.headOffset + data.length }

/-- The parser after its head was completed, ready for the body. -/
def openBody (p : PkgParser) : PkgParser :=
  { p with pkgBuf := if 0 < p.bodyLen then .own (List.replicate p.bodyLen 0) else p.pkgBuf,
           pkgOffset := 0, pkgSize := p.bodyLen, state := .body }

theorem pkgHead_short {p : PkgParser} {data : Bytes}
    (h : p.headOffset + data.length < p.headSize) :
    pkgHead [] p data = (storeHead p data, some [], []) := by
  have hmin : min (p.headSize - p.headOffset) data.length = data.length := by omega
  simp only [pkgHead, hmin]
  rw [if_neg (by omega), List.take_of_length_le le_rfl, List.drop_of_length_le le_rfl]
  rfl

theorem pkgHead_full {p : PkgParser} {data : Bytes} (hle : p.headOffset ≤ p.headSize)
    (h : p.headSize ≤ p.headOffset + data.length) :
    pkgHead [] p data =
      (openBody (storeHead p (data.take (p.headSize - p.headOffset))),
        some (data.drop (p.headSize - p.headOffset)), []) := by
  have hmin : min (p.headSize - p.headOffset) data.length = p.headSize - p.headOffset := by
    omega
  have hlen : (data.take (p.headSize - p.headOffset)).length = p.headSize - p.headOffset := by
    simp; omega
  have he : p.headOffset + (p.headSize - p.headOffset) = p.headSize := by omega
  simp only [pkgHead, hmin, malloc, he, if_true]
  simp only [openBody, storeHead, hlen, he]
  split <;> rfl

/-! ## The byte machine -/

theorem turn_body {s : PkgLog} (h : s.parser.state = .body) (data : Bytes) :
    turn s data = pkgBody pkgLogHost s data := by
  simp [turn, feedHead, feedBody, pkgLogHost, h]

theorem turn_head_short {s : PkgLog} {data : Bytes} (h : s.parser.state = .head)
    (hlt : s.parser.headOffset + data.length < s.parser.headSize) :
    turn s data = ({ s with parser := storeHead s.parser data }, []) := by
  simp [turn, feedHead, feedBody, pkgLogHost, h, pkgHead_short hlt, storeHead]

theorem turn_head_full {s : PkgLog} {data : Bytes} (h : s.parser.state = .head)
    (hle : s.parser.headOffset ≤ s.parser.headSize)
    (hge : s.parser.headSize ≤ s.parser.headOffset + data.length) :
    turn s data =
      pkgBody pkgLogHost
        { s with parser := openBody (storeHead s.parser
            (data.take (s.parser.headSize - s.parser.headOffset))) }
        (data.drop (s.parser.headSize - s.parser.headOffset)) := by
  simp [turn, feedHead, feedBody, pkgLogHost, h, pkgHead_full hle hge, openBody]

/-- Storing a head byte and then the rest right behind it is one copy. -/
theorem storeHead_cons {p : PkgParser} {b : UInt8} {bs : Bytes}
    (h : p.headOffset < p.headBuf.length) :
    storeHead (storeHead p [b]) bs = storeHead p (b :: bs) := by
  simp only [storeHead, List.length_cons, List.length_nil, Nat.zero_add, memcpy_cons h]
  congr 1
  omega

/-- The byte machine inside a head. -/
theorem turn_cons_head {s : PkgLog} (hv : s.parser.Valid) (hst : s.parser.state = .head)
    (hoff : s.parser.headOffset < pkgHeadBytes) (b : UInt8) (bs : Bytes) :
    turn s (b :: bs) = (feedByte s b, bs) ∨
      (bs ≠ [] ∧ turn s (b :: bs) = turn (feedByte s b) bs) := by
  have hs4 : s.parser.headSize = 4 := hv.headSize
  have hb4 : s.parser.headBuf.length = 4 := hv.headBuf
  have hoff4 : s.parser.headOffset < 4 := hoff
  by_cases hlast : s.parser.headOffset + 1 < 4
  · -- `b` stays inside the head
    have h1 : feedByte s b = { s with parser := storeHead s.parser [b] } := by
      rw [feedByte, turn_head_short hst (by simp; omega)]
    rcases bs with _ | ⟨c, cs⟩
    · left
      rw [turn_head_short hst (by simp; omega), h1]
    · right
      refine ⟨by simp, ?_⟩
      have hst1 : ({ s with parser := storeHead s.parser [b] } : PkgLog).parser.state = .head :=
        hst
      have ho1 : (storeHead s.parser [b]).headOffset = s.parser.headOffset + 1 := rfl
      have hz1 : (storeHead s.parser [b]).headSize = s.parser.headSize := rfl
      have hstore : ∀ l, storeHead (storeHead s.parser [b]) l = storeHead s.parser (b :: l) :=
        fun l => storeHead_cons (by omega)
      rw [h1]
      by_cases hshort : s.parser.headOffset + (b :: c :: cs).length < s.parser.headSize
      · have hshort1 : s.parser.headOffset + 1 + (c :: cs).length < s.parser.headSize := by
          simp at hshort ⊢; omega
        rw [turn_head_short hst hshort, turn_head_short hst1 hshort1, hstore]
      · have hge : s.parser.headSize ≤ s.parser.headOffset + 1 + (c :: cs).length := by
          simp at hshort ⊢; omega
        have hle : s.parser.headOffset + 1 ≤ s.parser.headSize := by omega
        rw [turn_head_full hst (by omega) (by omega), turn_head_full hst1 hle hge, hstore]
        obtain ⟨k, hk⟩ : ∃ k, s.parser.headSize - s.parser.headOffset = k + 1 :=
          ⟨s.parser.headSize - s.parser.headOffset - 1, by omega⟩
        have hk' : s.parser.headSize - (s.parser.headOffset + 1) = k := by omega
        simp only [ho1, hz1, hk, hk', List.take_succ_cons, List.drop_succ_cons]
  · -- `b` completes the head
    have hk : s.parser.headSize - s.parser.headOffset = 1 := by omega
    have hfull : ∀ l, turn s (b :: l) = pkgBody pkgLogHost
        { s with parser := openBody (storeHead s.parser [b]) } l := by
      intro l
      rw [turn_head_full hst (by omega) (by simp; omega), hk]
      simp
    by_cases hz : (storeHead s.parser [b]).bodyLen = 0
    · left
      have hdone : (openBody (storeHead s.parser [b])).pkgOffset =
          (openBody (storeHead s.parser [b])).pkgSize := hz.symm
      rw [feedByte, hfull, hfull, pkgBody_done hdone, pkgBody_done hdone]
    · have hshort : (openBody (storeHead s.parser [b])).pkgOffset + ([] : Bytes).length <
          (openBody (storeHead s.parser [b])).pkgSize := Nat.pos_of_ne_zero hz
      rcases bs with _ | ⟨c, cs⟩
      · left
        rw [feedByte, hfull, pkgBody_short hshort]
      · right
        refine ⟨by simp, ?_⟩
        have h1 : feedByte s b = { s with parser := openBody (storeHead s.parser [b]) } := by
          rw [feedByte, hfull, pkgBody_short hshort]
          simp
        rw [hfull, h1, turn_body rfl]

/-- The byte machine inside a body. -/
theorem turn_cons_body {s : PkgLog} {d : Bytes} (hst : s.parser.state = .body)
    (hoff : s.parser.pkgOffset < s.parser.pkgSize) (hbuf : s.parser.pkgBuf = .own d)
    (hlen : d.length = s.parser.pkgSize) (b : UInt8) (bs : Bytes) :
    turn s (b :: bs) = (feedByte s b, bs) ∨
      (bs ≠ [] ∧ turn s (b :: bs) = turn (feedByte s b) bs) := by
  have hfull : ∀ l, turn s l = pkgBody pkgLogHost s l := turn_body hst
  by_cases hlast : s.parser.pkgOffset + 1 < s.parser.pkgSize
  · rcases bs with _ | ⟨c, cs⟩
    · left
      rw [feedByte, hfull, pkgBody_short (by simpa using hlast)]
    · right
      refine ⟨by simp, ?_⟩
      have h1 : feedByte s b = { s with parser := { s.parser with
          pkgBuf := .own (memcpy d s.parser.pkgOffset [b]),
          pkgOffset := s.parser.pkgOffset + 1 } } := by
        rw [feedByte, hfull, pkgBody_short (by simpa using hlast), hbuf]
        rfl
      have hcopy : ∀ l, (PkgBuf.own (memcpy d s.parser.pkgOffset [b])).write
          (s.parser.pkgOffset + 1) l = (PkgBuf.own d).write s.parser.pkgOffset (b :: l) :=
        fun l => congrArg PkgBuf.own (memcpy_cons (by omega))
      have hst1 : (feedByte s b).parser.state = .body := by
        rw [h1]
        exact hst
      rw [hfull, turn_body hst1, h1]
      by_cases hshort : s.parser.pkgOffset + (b :: c :: cs).length < s.parser.pkgSize
      · rw [pkgBody_short hshort, pkgBody_short (by simp at hshort ⊢; omega), hbuf]
        simp only [List.length_cons, Nat.zero_lt_succ, if_true, hcopy]
        simp [Nat.add_comm, Nat.add_left_comm]
      · rw [pkgBody_full hoff (by omega), pkgBody_full hlast (by simp at hshort ⊢; omega), hbuf]
        obtain ⟨k, hk⟩ : ∃ k, s.parser.pkgSize - s.parser.pkgOffset = k + 1 :=
          ⟨s.parser.pkgSize - s.parser.pkgOffset - 1, by omega⟩
        have hk' : s.parser.pkgSize - (s.parser.pkgOffset + 1) = k := by omega
        simp only [hk, hk', List.take_succ_cons, List.drop_succ_cons, hcopy]
        rfl
  · left
    have hk : s.parser.pkgSize - s.parser.pkgOffset = 1 := by omega
    rw [feedByte, hfull, hfull, pkgBody_full hoff (by simp; omega),
      pkgBody_full hoff (by simp; omega), hk]
    simp

/-- A turn over `b :: bs` stops right after `b`, or goes on as a turn over `bs`
from where `b` alone leads. -/
theorem turn_cons {s : PkgLog} (hv : s.parser.Valid) (b : UInt8) (bs : Bytes) :
    turn s (b :: bs) = (feedByte s b, bs) ∨
      (bs ≠ [] ∧ turn s (b :: bs) = turn (feedByte s b) bs) := by
  rcases hv.state with ⟨hst, hoff, -, -, -⟩ | ⟨hst, -, -, hoff, d, hbuf, hlen⟩
  · exact turn_cons_head hv hst hoff b bs
  · exact turn_cons_body hst hoff hbuf hlen b bs

/-- Delivering a package leaves a parser at rest before a head. -/
theorem delivered_valid {s : PkgLog} (hst : s.parser.state ≠ .closed)
    (hsize : s.parser.headSize = pkgHeadBytes) (hbuf : s.parser.headBuf.length = pkgHeadBytes)
    (buf : PkgBuf) : (delivered s buf).parser.Valid := by
  simp only [delivered, pkgParserReset, if_neg hst]
  exact ⟨hsize, hbuf, Or.inl ⟨rfl, Nat.zero_lt_succ 3, rfl, rfl, rfl⟩⟩

theorem feedByte_valid {s : PkgLog} (hv : s.parser.Valid) (b : UInt8) :
    (feedByte s b).parser.Valid := by
  have hs4 : s.parser.headSize = 4 := hv.headSize
  have hb4 : s.parser.headBuf.length = 4 := hv.headBuf
  rcases hv.state with ⟨hst, hoff, hnull, ho, hz⟩ | ⟨hst, hho, hbl, hoff, d, hbuf, hlen⟩
  · have hoff4 : s.parser.headOffset < 4 := hoff
    have hcopy : (memcpy s.parser.headBuf s.parser.headOffset [b]).length = pkgHeadBytes := by
      rw [length_memcpy (by simp; omega)]
      exact hb4
    by_cases hlast : s.parser.headOffset + 1 < 4
    · rw [feedByte, turn_head_short hst (by simp; omega)]
      exact ⟨hs4, hcopy, Or.inl ⟨hst, hlast, hnull, ho, hz⟩⟩
    · have hk : s.parser.headSize - s.parser.headOffset = 1 := by omega
      set s1 : PkgLog := { s with parser := openBody (storeHead s.parser [b]) } with hs1
      have hturn : feedByte s b = (pkgBody pkgLogHost s1 []).1 := by
        rw [feedByte, turn_head_full hst (by omega) (by simp; omega), hk]
        rfl
      rw [hturn]
      by_cases hbz : (storeHead s.parser [b]).bodyLen = 0
      · rw [pkgBody_done (show s1.parser.pkgOffset = s1.parser.pkgSize from hbz.symm)]
        exact delivered_valid (s := s1) (by simp [hs1, openBody]) hs4 hcopy _
      · have hpos : 0 < (storeHead s.parser [b]).bodyLen := Nat.pos_of_ne_zero hbz
        rw [pkgBody_short (show s1.parser.pkgOffset + ([] : Bytes).length < s1.parser.pkgSize
          from hpos)]
        refine ⟨hs4, hcopy, Or.inr ⟨rfl, ?_, rfl, hpos,
          List.replicate (storeHead s.parser [b]).bodyLen 0, ?_, List.length_replicate⟩⟩
        · simp only [hs1, openBody, storeHead, List.length_cons, List.length_nil, pkgHeadBytes]
          omega
        · simp [hs1, openBody, hpos]
  · rw [feedByte, turn_body hst]
    by_cases hlast : s.parser.pkgOffset + 1 < s.parser.pkgSize
    · rw [pkgBody_short (by simpa using hlast), hbuf]
      refine ⟨hs4, hb4, Or.inr ⟨hst, hho, hbl, hlast, memcpy d s.parser.pkgOffset [b], rfl, ?_⟩⟩
      rw [length_memcpy (by simp; omega)]
      exact hlen
    · rw [pkgBody_full hoff (by simp; omega)]
      exact delivered_valid (by simp [hst]) hs4 hb4 _

/-- With an allocator that never fails, the head step never fails. -/
theorem feedHead_nil (s : PkgLog) (data : Bytes) :
    ∃ s' r, feedHead pkgLogHost [] s data = (s', some r, []) := by
  unfold feedHead
  split
  · simp only [pkgHead, malloc]
    split
    · split <;> exact ⟨_, _, rfl⟩
    · exact ⟨_, _, rfl⟩
  · exact ⟨_, _, rfl⟩

/-- One unfolding of the loop. -/
theorem feedLoop_succ (n : ℕ) (s : PkgLog) (b : UInt8) (bs : Bytes) :
    feedLoop pkgLogHost (n + 1) [] s (b :: bs) =
      if (turn s (b :: bs)).1.parser.state = .closed then some (0, (turn s (b :: bs)).1)
      else feedLoop pkgLogHost n [] (turn s (b :: bs)).1 (turn s (b :: bs)).2 := by
  obtain ⟨s', r, h⟩ := feedHead_nil s (b :: bs)
  simp only [feedLoop, turn, h, Option.getD_some]
  rfl

theorem PkgParser.Valid.not_closed {p : PkgParser} (hv : p.Valid) : p.state ≠ .closed := by
  rcases hv.state with ⟨h, -⟩ | ⟨h, -⟩ <;> simp [h]

/-- On a valid parser the loop is the fold of the byte machine. -/
theorem feedLoop_eq_foldl :
    ∀ (data : Bytes) (n : ℕ) (s : PkgLog), s.parser.Valid → data.length ≤ n →
      feedLoop pkgLogHost n [] s data = some (0, data.foldl feedByte s) := by
  intro data
  induction data with
  | nil =>
    intro n s _ _
    simp [feedLoop]
  | cons b bs ih =>
    intro n s hv hn
    obtain ⟨m, rfl⟩ : ∃ m, n = m + 1 := ⟨n - 1, by simp at hn; omega⟩
    have hlen : bs.length ≤ m := by simpa using hn
    have hv' := feedByte_valid hv b
    rcases turn_cons hv b bs with h | ⟨hne, h⟩
    · rw [feedLoop_succ, h, if_neg hv'.not_closed, ih m _ hv' hlen]
      rfl
    · obtain ⟨c, cs, rfl⟩ := List.exists_cons_of_ne_nil hne
      rw [feedLoop_succ, h, ← feedLoop_succ, ih (m + 1) _ hv' (by omega)]
      rfl

/-- **Feeding is a fold over bytes.** -/
theorem feed_eq_foldl {s : PkgLog} (hv : s.parser.Valid) (data : Bytes) :
    pkgParserFeed pkgLogHost [] s data = some (0, data.foldl feedByte s) :=
  feedLoop_eq_foldl data _ s hv (by omega)

theorem foldl_feedByte_valid :
    ∀ (data : Bytes) {s : PkgLog}, s.parser.Valid → (data.foldl feedByte s).parser.Valid
  | [], _, hv => hv
  | b :: bs, _, hv => foldl_feedByte_valid bs (feedByte_valid hv b)

/-- Feeding chunk after chunk is one fold over their concatenation. -/
theorem feedChunks_eq_foldl :
    ∀ (chunks : List Bytes) {s : PkgLog}, s.parser.Valid →
      feedChunks [] s chunks =
        some (List.replicate chunks.length 0, chunks.flatten.foldl feedByte s)
  | [], _, _ => rfl
  | c :: cs, s, hv => by
    rw [feedChunks, feed_eq_foldl hv]
    simp [feedChunks_eq_foldl cs (foldl_feedByte_valid c hv), List.replicate_succ]

/-! ## One package -/

/-- A parser at rest before a head, whatever its head buffer still holds. -/
def PkgParser.AtRest (p : PkgParser) : Prop :=
  p.headSize = pkgHeadBytes ∧ p.headBuf.length = pkgHeadBytes ∧ p.state = .head ∧
    p.headOffset = 0 ∧ p.pkgOffset = 0 ∧ p.pkgSize = 0 ∧ p.pkgBuf = .null

theorem PkgParser.AtRest.valid {p : PkgParser} (h : p.AtRest) : p.Valid := by
  obtain ⟨h1, h2, h3, h4, h5, h6, h7⟩ := h
  exact ⟨h1, h2, Or.inl ⟨h3, by rw [h4]; decide, h7, h5, h6⟩⟩

theorem memcpy_zero_full {d s : Bytes} (h : s.length = d.length) : memcpy d 0 s = s := by
  simp [memcpy, h]

/-- The three length bytes of a body below the limit spell its length. -/
theorem foldl_pkgEncodeLen {n : ℕ} (h : n < pkgMaxBodyBytes) :
    (pkgEncodeLen pkgBodyLenBytes n).foldl (fun m b => m * 0x100 + b.toNat) 0 = n := by
  have h' : n < 16777216 := h
  simp only [pkgBodyLenBytes, pkgEncodeLen, List.nil_append, List.cons_append, List.foldl_cons,
    List.foldl_nil, UInt8.toNat_ofNat']
  omega

/-- What the encoder writes: type byte, length bytes, body. -/
theorem pkgEncode_eq {type : ℕ} {body : Bytes} (h : body.length < pkgMaxBodyBytes) :
    pkgEncode [] type body =
      some (UInt8.ofNat (type &&& 0xff) :: (pkgEncodeLen pkgBodyLenBytes body.length ++ body)) := by
  simp only [pkgEncode, malloc, if_true, if_neg (not_le.mpr h)]
  split
  · next hz =>
    obtain rfl := List.eq_nil_of_length_eq_zero hz
    rfl
  · rfl

/-- **One package**: feeding its encoding to a parser at rest makes one call with
that type and body, and leaves a parser at rest. -/
theorem foldl_pkgEncode {s : PkgLog} (hr : s.parser.AtRest) {type : ℕ} {body out : Bytes}
    (ht : type < 256) (hb : body.length < pkgMaxBodyBytes)
    (he : pkgEncode [] type body = some out) :
    ∃ p buf, p.AtRest ∧ buf.bytes = body ∧
      out.foldl feedByte s = ⟨p, s.calls ++ [⟨type, buf, body.length⟩]⟩ := by
  obtain ⟨hsize, hbuf, hst, hho, -, -, hnull⟩ := id hr
  rw [pkgEncode_eq hb] at he
  obtain rfl := Option.some.inj he
  set head : Bytes := UInt8.ofNat (type &&& 0xff) :: pkgEncodeLen pkgBodyLenBytes body.length
    with hhead
  have hlen4 : head.length = 4 := rfl
  have hdata : UInt8.ofNat (type &&& 0xff) :: (pkgEncodeLen pkgBodyLenBytes body.length ++ body) =
      head ++ body := rfl
  -- after the four head bytes the parser is open on a body of the right size
  set s1 : PkgLog := { s with parser := openBody (storeHead s.parser head) } with hs1
  have hcopy : (storeHead s.parser head).headBuf = head := by
    simp only [storeHead, hho]
    exact memcpy_zero_full (by rw [hbuf]; rfl)
  have hbl : (storeHead s.parser head).bodyLen = body.length := by
    rw [PkgParser.bodyLen, hcopy]
    exact foldl_pkgEncodeLen hb
  have htype : s1.parser.type = type := by
    have : s1.parser.headBuf = head := hcopy
    rw [PkgParser.type, this]
    simp only [hhead, List.headD_cons, UInt8.toNat_ofNat']
    have hmask : ∀ n : ℕ, n &&& 255 = n % 256 := fun n => Nat.and_two_pow_sub_one_eq_mod n 8
    rw [hmask, hmask]
    omega
  have hturn : turn s (head ++ body) = pkgBody pkgLogHost s1 body := by
    have hsz : s.parser.headSize = 4 := hsize
    rw [turn_head_full hst (by omega) (by simp [hlen4]; omega), hho, hsz]
    rw [List.take_left' hlen4, List.drop_left' hlen4]
  have hatrest : ∀ buf, (delivered s1 buf).parser.AtRest := by
    intro buf
    have hne : s1.parser.state ≠ .closed := by simp [hs1, openBody]
    simp only [delivered, pkgParserReset, if_neg hne]
    refine ⟨hsize, ?_, rfl, rfl, rfl, rfl, rfl⟩
    exact (congrArg List.length hcopy).trans hlen4
  have hsz1 : s1.parser.pkgSize = body.length := hbl
  -- the body step delivers at once, whether the body is empty or not
  obtain ⟨buf, hbytes, hbody⟩ : ∃ buf : PkgBuf, buf.bytes = body ∧
      pkgBody pkgLogHost s1 body = (delivered s1 buf, []) := by
    by_cases hz : body.length = 0
    · obtain rfl := List.eq_nil_of_length_eq_zero hz
      refine ⟨.null, rfl, ?_⟩
      have hb1 : s1.parser.pkgBuf = .null := by
        have hbl0 : ¬ 0 < (storeHead s.parser head).bodyLen := by simp [hbl]
        simp only [hs1, openBody, if_neg hbl0]
        exact hnull
      rw [pkgBody_done (show s1.parser.pkgOffset = s1.parser.pkgSize from hsz1.symm), hb1]
    · have hpos : 0 < body.length := Nat.pos_of_ne_zero hz
      refine ⟨.own body, rfl, ?_⟩
      have hb1 : s1.parser.pkgBuf = .own (List.replicate body.length 0) := by
        simp [hs1, openBody, hbl, hpos]
      have ho1 : s1.parser.pkgOffset = 0 := rfl
      rw [pkgBody_full (by rw [ho1, hsz1]; exact hpos) (by rw [ho1, hsz1]; omega), hb1, ho1, hsz1]
      rw [Nat.sub_zero, List.take_of_length_le le_rfl, List.drop_of_length_le le_rfl,
        PkgBuf.write_own, memcpy_zero_full (by simp)]
  refine ⟨(delivered s1 buf).parser, buf, hatrest buf, hbytes, ?_⟩
  have hfeed := feedLoop_eq_foldl (head ++ body) ((head ++ body).length + 1) s hr.valid (by omega)
  rw [hdata]
  have hcons : head ++ body = UInt8.ofNat (type &&& 0xff) ::
      (pkgEncodeLen pkgBodyLenBytes body.length ++ body) := rfl
  rw [hcons, feedLoop_succ, ← hcons, hturn, hbody, if_neg (hatrest buf).valid.not_closed] at hfeed
  simp only [feedLoop, Option.some.injEq, Prod.mk.injEq, true_and] at hfeed
  rw [← hfeed]
  simp only [delivered, htype, hsz1]
  rfl

/-! ## The round trip -/

/-- The invocations that deliver `pkgs`, with the body pointers they used. -/
def Delivers (calls : List PkgCall) (pkgs : List (ℕ × Bytes)) : Prop :=
  List.Forall₂ (fun c p => c.type = p.1 ∧ c.len = p.2.length ∧ c.data.bytes = p.2) calls pkgs

/-- Feeding the encodings of `pkgs` back to back delivers them in order. -/
theorem foldl_pkgEncodes :
    ∀ {pkgs : List (ℕ × Bytes)} {outs : List Bytes} {s : PkgLog}, s.parser.AtRest →
      (∀ p ∈ pkgs, p.1 < 256 ∧ p.2.length < pkgMaxBodyBytes) →
      pkgs.mapM (fun p => pkgEncode [] p.1 p.2) = some outs →
      ∃ p calls, p.AtRest ∧ Delivers calls pkgs ∧
        outs.flatten.foldl feedByte s = ⟨p, s.calls ++ calls⟩ := by
  intro pkgs
  induction pkgs with
  | nil =>
    intro outs s hr _ hm
    simp only [List.mapM_nil, Option.pure_def, Option.some.injEq] at hm
    subst hm
    exact ⟨s.parser, [], hr, List.Forall₂.nil, by simp⟩
  | cons q qs ih =>
    intro outs s hr hq hm
    rw [List.mapM_cons] at hm
    obtain ⟨out, hout, hm⟩ := Option.bind_eq_some_iff.mp hm
    obtain ⟨rest, hrest, hm⟩ := Option.bind_eq_some_iff.mp hm
    obtain rfl := Option.some.inj hm
    obtain ⟨hq1, hq2⟩ := hq q (List.mem_cons_self ..)
    obtain ⟨p1, buf, hr1, hbytes, hfold⟩ := foldl_pkgEncode hr hq1 hq2 hout
    obtain ⟨p2, calls, hr2, hdel, hfold2⟩ :=
      ih (s := ⟨p1, s.calls ++ [⟨q.1, buf, q.2.length⟩]⟩) hr1
        (fun p hp => hq p (List.mem_cons_of_mem _ hp)) hrest
    refine ⟨p2, ⟨q.1, buf, q.2.length⟩ :: calls, hr2,
      List.Forall₂.cons ⟨rfl, rfl, hbytes⟩ hdel, ?_⟩
    rw [List.flatten_cons, List.foldl_append, hfold, hfold2]
    simp

theorem pkgEncodes_some :
    ∀ {pkgs : List (ℕ × Bytes)}, (∀ p ∈ pkgs, p.2.length < pkgMaxBodyBytes) →
      ∃ outs, pkgs.mapM (fun p => pkgEncode [] p.1 p.2) = some outs := by
  intro pkgs
  induction pkgs with
  | nil => exact fun _ => ⟨[], rfl⟩
  | cons q qs ih =>
    intro hq
    obtain ⟨outs, houts⟩ := ih fun p hp => hq p (List.mem_cons_of_mem _ hp)
    have hout : pkgEncode [] q.1 q.2 = _ := pkgEncode_eq (hq q (List.mem_cons_self ..))
    exact ⟨_, by rw [List.mapM_cons, hout, houts]; rfl⟩

/-! ## A part of the stream -/

theorem calls_pkgBody (s : PkgLog) (data : Bytes) :
    s.calls <+: (pkgBody pkgLogHost s data).1.calls := by
  rw [pkgBody]
  dsimp only
  generalize ite (0 < _) _ _ = p
  split
  · exact List.prefix_append _ _
  · exact List.prefix_refl _

/-- Bytes only add calls. -/
theorem calls_feedByte (s : PkgLog) (b : UInt8) : s.calls <+: (feedByte s b).calls := by
  have hhead : (feedHead pkgLogHost [] s [b]).1.calls = s.calls := by
    rw [feedHead]
    split <;> rfl
  rw [feedByte, turn, feedBody]
  split
  · rw [← hhead]
    exact calls_pkgBody _ _
  · exact ⟨[], (List.append_nil _).trans hhead.symm⟩

theorem calls_foldl_feedByte (data : Bytes) (s : PkgLog) :
    s.calls <+: (data.foldl feedByte s).calls := by
  induction data generalizing s with
  | nil => exact List.prefix_refl _
  | cons b data ih => exact (calls_feedByte s b).trans (ih _)

/-- **A part of the stream.** However the first bytes of a stream of packages are cut, a new parser
has delivered the first packages, and among them all those that have arrived as a whole. -/
theorem feedChunks_part {pkgs : List (ℕ × Bytes)} {outs : List Bytes} {chunks : List Bytes}
    (hpkgs : ∀ p ∈ pkgs, p.1 < 256 ∧ p.2.length < pkgMaxBodyBytes)
    (hencode : pkgs.mapM (fun p => pkgEncode [] p.1 p.2) = some outs)
    (h : chunks.flatten <+: outs.flatten) :
    ∃ s got, feedChunks [] ⟨pkgParserNew, []⟩ chunks =
        some (List.replicate chunks.length 0, s) ∧
      got <+: pkgs ∧ Delivers s.calls got ∧
      ∀ whole wholeOuts, whole <+: pkgs →
        whole.mapM (fun p => pkgEncode [] p.1 p.2) = some wholeOuts →
        wholeOuts.flatten <+: chunks.flatten → whole <+: got := by
  have hnew : (⟨pkgParserNew, []⟩ : PkgLog).parser.AtRest := ⟨rfl, rfl, rfl, rfl, rfl, rfl, rfl⟩
  obtain ⟨p, calls, -, hcalls, hfold⟩ := foldl_pkgEncodes hnew hpkgs hencode
  generalize hs : chunks.flatten.foldl feedByte ⟨pkgParserNew, []⟩ = s
  -- the bytes that are still to come add calls
  have hprefix : s.calls <+: calls := by
    obtain ⟨rest, hrest⟩ := h
    have hmore := calls_foldl_feedByte rest s
    rw [← hs, ← List.foldl_append, hrest, hfold, hs] at hmore
    exact hmore
  have hgot : (pkgs.take s.calls.length) <+: pkgs := List.take_prefix _ _
  refine ⟨s, pkgs.take s.calls.length, ?_, hgot, ?_, ?_⟩
  · rw [feedChunks_eq_foldl _ pkgParserNew_valid, hs]
  · have htake := List.forall₂_take s.calls.length hcalls
    rwa [← List.prefix_iff_eq_take.mp hprefix] at htake
  · intro whole wholeOuts hwhole hwholeOuts harrived
    obtain ⟨p', calls', -, hcalls', hfold'⟩ :=
      foldl_pkgEncodes hnew (fun p hp => hpkgs p (hwhole.subset hp)) hwholeOuts
    have hprefix' : calls' <+: s.calls := by
      obtain ⟨rest, hrest⟩ := harrived
      have hmore := calls_foldl_feedByte rest (wholeOuts.flatten.foldl feedByte ⟨pkgParserNew, []⟩)
      rw [← List.foldl_append, hrest, hs, hfold'] at hmore
      exact hmore
    refine List.prefix_of_prefix_length_le hwhole hgot ?_
    rw [List.length_take, ← hcalls'.length_eq]
    exact le_min hprefix'.length_le (hcalls'.length_eq.trans_le hwhole.length_le)

/-! ## The whole stream -/

/-- **The parser undoes the encoder under every chunking.** Every package below
the size limit is encoded; and whatever way the concatenated encodings are cut,
feeding the chunks to a new parser returns `0` each time, calls back once per
package, in order, with its type, length and body, and leaves the parser before a
head with no offsets and no body buffer. -/
theorem feedChunks_pkgEncode (pkgs : List (ℕ × Bytes))
    (hp : ∀ p ∈ pkgs, p.1 < 256 ∧ p.2.length < pkgMaxBodyBytes) :
    ∃ outs, pkgs.mapM (fun p => pkgEncode [] p.1 p.2) = some outs ∧
      ∀ chunks : List Bytes, chunks.flatten = outs.flatten →
        ∃ s, feedChunks [] ⟨pkgParserNew, []⟩ chunks =
            some (List.replicate chunks.length 0, s) ∧
          Delivers s.calls pkgs ∧
          s.parser.state = .head ∧ s.parser.headOffset = 0 ∧ s.parser.pkgOffset = 0 ∧
          s.parser.pkgSize = 0 ∧ s.parser.pkgBuf = .null := by
  obtain ⟨outs, houts⟩ := pkgEncodes_some fun p h => (hp p h).2
  refine ⟨outs, houts, fun chunks hc => ?_⟩
  have hnew : (⟨pkgParserNew, []⟩ : PkgLog).parser.AtRest := ⟨rfl, rfl, rfl, rfl, rfl, rfl, rfl⟩
  obtain ⟨p, calls, ⟨-, -, h1, h2, h3, h4, h5⟩, hdel, hfold⟩ := foldl_pkgEncodes hnew hp houts
  refine ⟨⟨p, calls⟩, ?_, hdel, h1, h2, h3, h4, h5⟩
  rw [feedChunks_eq_foldl _ pkgParserNew_valid, hc, hfold]
  rfl

/-- The round trip at a data package and a heartbeat without body. -/
theorem feedChunks_pkgEncode_data_heartbeat :
    (∀ p ∈ [(4, [0x61, 0x62]), (3, ([] : Bytes))], p.1 < 256 ∧ p.2.length < pkgMaxBodyBytes) ∧
      ∃ outs, [(4, [0x61, 0x62]), (3, ([] : Bytes))].mapM (fun p => pkgEncode [] p.1 p.2) =
          some outs ∧
        ∀ chunks : List Bytes, chunks.flatten = outs.flatten →
          ∃ s, feedChunks [] ⟨pkgParserNew, []⟩ chunks =
              some (List.replicate chunks.length 0, s) ∧
            Delivers s.calls [(4, [0x61, 0x62]), (3, [])] ∧
            s.parser.state = .head ∧ s.parser.headOffset = 0 ∧ s.parser.pkgOffset = 0 ∧
            s.parser.pkgSize = 0 ∧ s.parser.pkgBuf = .null :=
  have h : ∀ p ∈ [(4, [0x61, 0x62]), (3, ([] : Bytes))],
      p.1 < 256 ∧ p.2.length < pkgMaxBodyBytes := by decide
  ⟨h, feedChunks_pkgEncode _ h⟩

/-- The chunks may end inside a head, right after one, or hold nothing. -/
example :
    feedChunks [] ⟨pkgParserNew, []⟩ [[4, 0], [], [0, 2], [0x61], [0x62, 3, 0, 0, 0]] =
      some ([0, 0, 0, 0, 0],
        ⟨{ pkgParserNew with headBuf := [3, 0, 0, 0] },
          [⟨4, .own [0x61, 0x62], 2⟩, ⟨3, .null, 0⟩]⟩) := by
  decide

/-! ## Cutting the stream -/

/-- **The states between two calls**: what feeds and resets make of a new parser. -/
inductive PkgLog.Reachable : PkgLog → Prop
  /-- `pc_pkg_parser_new` -/
  | new : Reachable ⟨pkgParserNew, []⟩
  /-- `pc_pkg_parser_feed` -/
  | feed {s s' : PkgLog} {data : Bytes} {rc : ℤ} : Reachable s →
      pkgParserFeed pkgLogHost [] s data = some (rc, s') → Reachable s'
  /-- `pc_pkg_parser_reset` -/
  | reset {s : PkgLog} : Reachable s → Reachable { s with parser := pkgParserReset s.parser }

theorem PkgParser.Valid.reset {p : PkgParser} (hv : p.Valid) : (pkgParserReset p).Valid := by
  rw [pkgParserReset, if_neg hv.not_closed]
  exact ⟨hv.headSize, hv.headBuf, .inl ⟨rfl, Nat.zero_lt_succ 3, rfl, rfl, rfl⟩⟩

theorem PkgLog.Reachable.valid {s : PkgLog} (h : s.Reachable) : s.parser.Valid := by
  induction h with
  | new => exact pkgParserNew_valid
  | @feed s s' data rc _ hfeed ih =>
    rw [feed_eq_foldl ih] at hfeed
    obtain ⟨-, rfl⟩ := Prod.mk.inj (Option.some.inj hfeed)
    exact foldl_feedByte_valid data ih
  | reset _ ih => exact ih.reset

/-- **How the stream is cut does not matter.** From every reachable state and for all
bytes `a` and `b`, feeding `a` and then `b` returns `0` twice and ends with the same
parser and the same invocations of the callback as feeding `a ++ b` at once. -/
theorem feed_append {s : PkgLog} (h : s.Reachable) (a b : Bytes) :
    ∃ s₁ s₂, pkgParserFeed pkgLogHost [] s a = some (0, s₁) ∧
      pkgParserFeed pkgLogHost [] s₁ b = some (0, s₂) ∧
      pkgParserFeed pkgLogHost [] s (a ++ b) = some (0, s₂) := by
  have hv := h.valid
  refine ⟨a.foldl feedByte s, b.foldl feedByte (a.foldl feedByte s), feed_eq_foldl hv a,
    feed_eq_foldl (foldl_feedByte_valid a hv) b, ?_⟩
  rw [feed_eq_foldl hv, List.foldl_append]

/-- A new parser, cut inside the length of a package with an unknown type. -/
theorem feed_append_cut : ∃ s₁ s₂, pkgParserFeed pkgLogHost [] ⟨pkgParserNew, []⟩ [9, 0] =
    some (0, s₁) ∧ pkgParserFeed pkgLogHost [] s₁ [0, 1, 0x61, 4] = some (0, s₂) ∧
      pkgParserFeed pkgLogHost [] ⟨pkgParserNew, []⟩ [9, 0, 0, 1, 0x61, 4] = some (0, s₂) :=
  feed_append .new [9, 0] [0, 1, 0x61, 4]

end Libpomelo
