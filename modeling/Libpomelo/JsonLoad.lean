import Libpomelo.JsonLex

/-!
# Loading a JSON text (`load.c` of jansson)

`json_loadb` without flags: an array or an object, and nothing behind it. The parser descends
by recursion, which is bounded here by a number that the length of the buffer supplies; no
text uses it up. As in the source, a member whose key is there already takes its place.

Blocks are never short of memory here, and the stack is never short of room.
-/

namespace Libpomelo

/-- The string of a token, as `json_string_nocheck` and `json_object_set_nocheck` take it. -/
def jsonText (bytes : Bytes) : Except JsonStop String :=
  match String.fromUTF8? ⟨bytes.toArray⟩ with
  | some s => .ok s
  | none => .error .badText

mutual

/-- `parse_value`, on the token that was scanned last. -/
def parseValue (strtod : Bytes → Strtod) :
    ℕ → Token → Lex → Except JsonStop (Json × Lex)
  | 0, _, _ => .error .unfinished
  | n + 1, token, lex =>
    match token with
    | .string bytes => do return (.str (← jsonText bytes), lex)
    | .integer i => .ok (.int i, lex)
    | .real x =>
      match jsonReal x with
      | some j => .ok (j, lex)
      | none => .error .refused
    | .bool b => .ok (.bool b, lex)
    | .null => .ok (.null, lex)
    | .punct b =>
      if b = 123 then parseObject strtod n lex
      else if b = 91 then parseArray strtod n lex
      else .error .refused
    | .eof => .error .refused
termination_by structural n => n

/-- `parse_object`. -/
def parseObject (strtod : Bytes → Strtod) : ℕ → Lex → Except JsonStop (Json × Lex)
  | 0, _ => .error .unfinished
  | n + 1, lex => do
    let r ← lexScan strtod lex
    if r.1 = .punct 125 then return (.obj [], r.2)
    else parseMembers strtod n (.obj []) r.1 r.2
termination_by structural n => n

/-- The loop of `parse_object`. -/
def parseMembers (strtod : Bytes → Strtod) :
    ℕ → Json → Token → Lex → Except JsonStop (Json × Lex)
  | 0, _, _, _ => .error .unfinished
  | n + 1, object, token, lex =>
    match token with
    | .string bytes => do
      let key ← jsonText bytes
      let colon ← lexScan strtod lex
      if colon.1 ≠ .punct 58 then .error .refused
      else
        let r ← lexScan strtod colon.2
        let value ← parseValue strtod n r.1 r.2
        let object := jsonObjectSet object key (some value.1)
        let r ← lexScan strtod value.2
        if r.1 = .punct 44 then
          let r ← lexScan strtod r.2
          parseMembers strtod n object r.1 r.2
        else if r.1 = .punct 125 then return (object, r.2)
        else .error .refused
    | _ => .error .refused
termination_by structural n => n

/-- `parse_array`. -/
def parseArray (strtod : Bytes → Strtod) : ℕ → Lex → Except JsonStop (Json × Lex)
  | 0, _ => .error .unfinished
  | n + 1, lex => do
    let r ← lexScan strtod lex
    if r.1 = .punct 93 then return (.arr [], r.2)
    else parseElements strtod n (.arr []) r.1 r.2
termination_by structural n => n

/-- The loop of `parse_array`. -/
def parseElements (strtod : Bytes → Strtod) :
    ℕ → Json → Token → Lex → Except JsonStop (Json × Lex)
  | 0, _, _, _ => .error .unfinished
  | n + 1, array, token, lex =>
    if token = .eof then .error .refused
    else do
      let elem ← parseValue strtod n token lex
      let array := jsonArrayAppend array (some elem.1)
      let r ← lexScan strtod elem.2
      if r.1 = .punct 44 then
        let r ← lexScan strtod r.2
        parseElements strtod n array r.1 r.2
      else if r.1 = .punct 93 then return (array, r.2)
      else .error .refused
termination_by structural n => n

end

/-- `parse_json`, without flags. -/
def parseJson (strtod : Bytes → Strtod) (fuel : ℕ) (lex : Lex) :
    Except JsonStop Json := do
  let r ← lexScan strtod lex
  if r.1 ≠ .punct 91 ∧ r.1 ≠ .punct 123 then .error .refused
  else
    let value ← parseValue strtod fuel r.1 r.2
    let r ← lexScan strtod value.2
    if r.1 ≠ .eof then .error .refused
    else return value.1

/-- `json_loadb`, without flags. -/
def jsonLoadb (strtod : Bytes → Strtod) (data : Bytes) : Except JsonStop Json :=
  parseJson strtod (3 * data.length + 3) ⟨streamInit data, []⟩

end Libpomelo
