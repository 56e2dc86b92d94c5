import Mathlib.Algebra.Group.Nat.Defs
import Mathlib.Data.List.Basic
import Mathlib.Data.Int.Notation

/-!
# The package layer: encoder and incremental parser (`package.c`)

A package is a four byte head (one byte of type, three bytes of big-endian body
length) followed by the body. Two algorithms share the format:

* `pkgEncode` writes one package into a fresh buffer;
* `pkgParserFeed` is fed whatever the socket delivered and runs a two-state
  machine (`head`, `body`) over it, calling back once per finished package.

The parser lives inside a bigger block (the client, or a test's stack frame) and
its callback may change that block, the parser included. So the loop is written
over an arbitrary *host* state `σ` with a getter and a setter for the parser
(`PkgHost`); a callback that never touches the parser is the special case of a
recorder (`PkgLog`).

`malloc` is an explicit supply of outcomes: each allocation takes the next one,
and an exhausted supply always succeeds.
-/

namespace Libpomelo

/-- Raw bytes. -/
abbrev Bytes : Type := List UInt8

/-- A signed `char` converted to `size_t`. -/
def charToSize (b : UInt8) : ℕ := if b.toNat < 128 then b.toNat else 2 ^ 64 - 256 + b.toNat

/-- `PC_PKG_HEAD_BYTES`. -/
def pkgHeadBytes : ℕ := 4

/-- `PC_PKG_BODY_LEN_BYTES`. -/
def pkgBodyLenBytes : ℕ := 3

/-- `PC_PKG_MAX_BODY_BYTES`. -/
def pkgMaxBodyBytes : ℕ := 1 <<< 24

/-- The next outcome of the allocator; it succeeds once none is left. -/
def malloc : List Bool → Bool × List Bool
  | [] => (true, [])
  | ok :: ms => (ok, ms)

/-- `memcpy(dst + off, src, |src|)` on a buffer that holds `dst`. -/
def memcpy (dst : Bytes) (off : ℕ) (src : Bytes) : Bytes :=
  dst.take off ++ src ++ dst.drop (off + src.length)

/-! ## Encoding -/

/-- The length loop of `pc_pkg_encode`: it runs from the last length byte to the
first, so the low byte of `size` lands last. -/
def pkgEncodeLen : ℕ → ℕ → Bytes
  | 0, _ => []
  | n + 1, size => pkgEncodeLen n (size / 0x100) ++ [UInt8.ofNat (size % 0x100)]

/-- `pc_pkg_encode`; `none` is `buf.len = -1`. -/
def pkgEncode (ms : List Bool) (type : ℕ) (data : Bytes) : Option Bytes :=
  if pkgMaxBodyBytes ≤ data.length then none
  else if (malloc ms).1 then
    let flag := UInt8.ofNat (type &&& 0xff)
    if data.length = 0 then
      -- the zeroed head already says "no body"
      some (flag :: List.replicate pkgBodyLenBytes 0)
    else some (flag :: pkgEncodeLen pkgBodyLenBytes data.length ++ data)
  else none

/-! ## The parser block -/

/-- `pc_pkg_parser_state`. -/
inductive PkgParserState : Type where
  /-- parsing a head -/
  | head
  /-- parsing a body -/
  | body
  /-- closed by `pc_pkg_parser_close` -/
  | closed
  deriving DecidableEq, Repr

/-- The value of the `pkg_buf` pointer. -/
inductive PkgBuf : Type where
  /-- `NULL` -/
  | null
  /-- a block the parser allocated, with its contents -/
  | own : Bytes → PkgBuf
  /-- an address the parser never allocated: what an uninitialised block may hold -/
  | wild : ℕ → PkgBuf
  deriving DecidableEq, Repr

/-- The bytes a callback can read through the pointer. -/
def PkgBuf.bytes : PkgBuf → Bytes
  | .own b => b
  | _ => []

/-- `memcpy` into the block behind the pointer. -/
def PkgBuf.write (buf : PkgBuf) (off : ℕ) (src : Bytes) : PkgBuf :=
  match buf with
  | .own b => .own (memcpy b off src)
  | buf => buf

/-- `struct pc_pkg_parser_s`; the callback and its attachment belong to the host. -/
structure PkgParser : Type where
  /-- `head_buf`, four bytes -/
  headBuf : Bytes
  /-- `pkg_buf` -/
  pkgBuf : PkgBuf
  /-- `head_offset` -/
  headOffset : ℕ
  /-- `head_size` -/
  headSize : ℕ
  /-- `pkg_offset` -/
  pkgOffset : ℕ
  /-- `pkg_size` -/
  pkgSize : ℕ
  /-- `state` -/
  state : PkgParserState
  deriving DecidableEq, Repr

/-- `pc_pkg_parser_init`: every field but `head_buf` and `pkg_buf` is set. -/
def pkgParserInit (block : PkgParser) : PkgParser :=
  { block with
    headSize := pkgHeadBytes, headOffset := 0, pkgOffset := 0, pkgSize := 0, state := .head }

/-- `pc_pkg_parser_new`: a zeroed block, initialised. -/
def pkgParserNew : PkgParser :=
  pkgParserInit ⟨List.replicate pkgHeadBytes 0, .null, 0, 0, 0, 0, .head⟩

/-- `pc_pkg_parser_reset`. -/
def pkgParserReset (p : PkgParser) : PkgParser :=
  if p.state = .closed then p
  else { p with headOffset := 0, pkgBuf := .null, pkgOffset := 0, pkgSize := 0, state := .head }

/-- `pc_pkg_parser_close`: the body block is freed but the pointer is kept. -/
def pkgParserClose (p : PkgParser) : PkgParser :=
  if p.state = .closed then p else { p with state := .closed }

/-- `pc__pkg_type`. -/
def PkgParser.type (p : PkgParser) : ℕ := (p.headBuf.headD 0).toNat &&& 0xff

/-- The big-endian body length that `pc__pkg_head` adds up from `head_buf[1..3]`. -/
def PkgParser.bodyLen (p : PkgParser) : ℕ :=
  ((p.headBuf.drop 1).take pkgBodyLenBytes).foldl (fun n b => n * 0x100 + b.toNat) 0

/-! ## The parser machine -/

/-- `pc__pkg_head` on the unread bytes `data`: the parser it leaves, the bytes
still unread (`none` for the offset `-1` of a failed allocation), and the rest of
the allocator supply. -/
def pkgHead (ms : List Bool) (p : PkgParser) (data : Bytes) :
    PkgParser × Option Bytes × List Bool :=
  let len := min (p.headSize - p.headOffset) data.length
  let p := { p with
    headBuf := memcpy p.headBuf p.headOffset (data.take len), headOffset := p.headOffset + len }
  if p.headOffset = p.headSize then
    if 0 < p.bodyLen then
      if (malloc ms).1 then
        ({ p with pkgBuf := .own (List.replicate p.bodyLen 0), pkgOffset := 0,
                  pkgSize := p.bodyLen, state := .body },
          some (data.drop len), (malloc ms).2)
      else ({ p with pkgBuf := .null }, none, (malloc ms).2)
    else ({ p with pkgOffset := 0, pkgSize := p.bodyLen, state := .body },
          some (data.drop len), ms)
  else (p, some (data.drop len), ms)

/-- How a parser sits in a bigger state: a getter, a setter, and the package
callback, which may change anything. -/
structure PkgHost (σ : Type*) where
  /-- the parser block -/
  parser : σ → PkgParser
  /-- overwrite the parser block -/
  setParser : σ → PkgParser → σ
  /-- the callback: package type, body pointer, body length -/
  cb : ℕ → PkgBuf → ℕ → σ → σ

section Feed

variable {σ : Type*} (host : PkgHost σ)

/-- `pc__pkg_body` on the unread bytes `data`: a finished package is handed to
the callback, and the parser is reset *after* it returned. -/
def pkgBody (s : σ) (data : Bytes) : σ × Bytes :=
  let p := host.parser s
  let len := min (p.pkgSize - p.pkgOffset) data.length
  let p := if 0 < len then
      { p with pkgBuf := p.pkgBuf.write p.pkgOffset (data.take len),
               pkgOffset := p.pkgOffset + len }
    else p
  let s := host.setParser s p
  if p.pkgOffset = p.pkgSize then
    let s := host.cb p.type p.pkgBuf p.pkgSize s
    (host.setParser s (pkgParserReset (host.parser s)), data.drop len)
  else (s, data.drop len)

/-- The first `if` of the loop body: read head bytes when in state `head`. -/
def feedHead (ms : List Bool) (s : σ) (data : Bytes) : σ × Option Bytes × List Bool :=
  if (host.parser s).state = .head then
    let r := pkgHead ms (host.parser s) data
    (host.setParser s r.1, r.2)
  else (s, some data, ms)

/-- The second `if` of the loop body: read body bytes when in state `body`. -/
def feedBody (s : σ) (data : Bytes) : σ × Bytes :=
  if (host.parser s).state = .body then pkgBody host s data else (s, data)

/-- The `while` loop of `pc_pkg_parser_feed`, with a bound on its turns; `none`
when the bound is hit. The returned integer is the C return value. -/
def feedLoop : ℕ → List Bool → σ → Bytes → Option (ℤ × σ)
  | _, _, s, [] => some (0, s)
  | 0, _, _, _ :: _ => none
  | fuel + 1, ms, s, b :: bs =>
    match feedHead host ms s (b :: bs) with
    | (s, none, _) => some (-1, s)
    | (s, some data, ms) =>
      let r := feedBody host s data
      if (host.parser r.1).state = .closed then some (0, r.1) else feedLoop fuel ms r.1 r.2

/-- `pc_pkg_parser_feed`. Every turn but possibly the first consumes a byte, so
two more turns than bytes are always enough. -/
def pkgParserFeed (ms : List Bool) (s : σ) (data : Bytes) : Option (ℤ × σ) :=
  feedLoop host (data.length + 2) ms s data

/-- What the setter and the callback keep, a whole feed keeps. -/
theorem feedLoop_preserves {P : σ → Prop} (hset : ∀ s p, P s → P (host.setParser s p))
    (hcb : ∀ type buf len s, P s → P (host.cb type buf len s)) :
    ∀ (fuel : ℕ) {ms : List Bool} {s s' : σ} {data : Bytes} {rc : ℤ}, P s →
      feedLoop host fuel ms s data = some (rc, s') → P s' := by
  have hhead : ∀ ms s data, P s → P (feedHead host ms s data).1 := by
    intro ms s data hs
    rw [feedHead]
    split
    · exact hset _ _ hs
    · exact hs
  have hbody : ∀ s data, P s → P (feedBody host s data).1 := by
    intro s data hs
    rw [feedBody]
    split
    · rw [pkgBody]
      dsimp only
      -- some bytes were copied or none, and the body is complete or not
      split <;> split
      · exact hset _ _ (hcb _ _ _ _ (hset _ _ hs))
      · exact hset _ _ hs
      · exact hset _ _ (hcb _ _ _ _ (hset _ _ hs))
      · exact hset _ _ hs
    · exact hs
  intro fuel
  induction fuel with
  | zero =>
    intro ms s s' data rc hs hfeed
    cases data with
    | nil =>
      obtain ⟨-, rfl⟩ := Prod.mk.inj (Option.some.inj hfeed)
      exact hs
    | cons b bs => exact absurd hfeed (by simp [feedLoop])
  | succ fuel ih =>
    intro ms s s' data rc hs hfeed
    cases data with
    | nil =>
      obtain ⟨-, rfl⟩ := Prod.mk.inj (Option.some.inj hfeed)
      exact hs
    | cons b bs =>
      rw [feedLoop] at hfeed
      have hs₁ := hhead ms s (b :: bs) hs
      rcases hh : feedHead host ms s (b :: bs) with ⟨s₁, _ | data₁, ms₁⟩
      · rw [hh] at hfeed hs₁
        obtain ⟨-, rfl⟩ := Prod.mk.inj (Option.some.inj hfeed)
        exact hs₁
      · rw [hh] at hfeed hs₁
        dsimp only at hfeed
        split at hfeed
        · obtain ⟨-, rfl⟩ := Prod.mk.inj (Option.some.inj hfeed)
          exact hbody _ _ hs₁
        · exact ih (hbody _ _ hs₁) hfeed

end Feed

/-! ## The recording host -/

/-- One invocation of the package callback. -/
structure PkgCall : Type where
  /-- package type -/
  type : ℕ
  /-- body pointer -/
  data : PkgBuf
  /-- body length -/
  len : ℕ
  deriving DecidableEq, Repr

/-- A parser with a callback that only records its invocations, oldest first. -/
structure PkgLog : Type where
  /-- the parser -/
  parser : PkgParser
  /-- invocations so far -/
  calls : List PkgCall
  deriving DecidableEq, Repr

/-- The recorder as a host. -/
def pkgLogHost : PkgHost PkgLog where
  parser := PkgLog.parser
  setParser s p := { s with parser := p }
  cb type data len s := { s with calls := s.calls ++ [⟨type, data, len⟩] }

/-- Feed chunk after chunk, collecting the return values. -/
def feedChunks (ms : List Bool) : PkgLog → List Bytes → Option (List ℤ × PkgLog)
  | s, [] => some ([], s)
  | s, c :: cs => do
    let (rc, s) ← pkgParserFeed pkgLogHost ms s c
    let (rcs, s) ← feedChunks ms s cs
    pure (rc :: rcs, s)

end Libpomelo
