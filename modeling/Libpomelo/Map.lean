import Libpomelo.Package
import Libpomelo.Ring
import Mathlib.Data.List.Count

/-!
# The hash map (`map.c`)

`pc_map_t` is an array of bucket heads; a pair hangs on the circular list of the
bucket `hash(key) % capacity` by the `queue` node inside it. The model keeps that
shape: one pointer graph (`Pointers`) over the bucket heads and the pairs, and a
memory that says which pairs are allocated. The loops are the source's loops, run
with a bound on their rounds; a call *returns* when some bound is enough. A call
that reads a freed pair, a `NULL` bucket array or a head as if it were a pair has no
result for any bound.

The second part says what a sequence of calls means without looking at the map:
`lastValue` is the value a key has, and `history` follows the value of every
`pc_map_set` to its fate.
-/

namespace Libpomelo

/-! ## Keys -/

/-- A C string: the bytes before the terminating zero. -/
structure CString : Type where
  /-- the bytes -/
  bytes : List UInt8
  /-- the first zero byte ends the string -/
  noNul : 0 ∉ bytes
  deriving DecidableEq

/-- `pc__hash`: the sum of the characters in a `size_t`. A `char` is signed, so a byte from
128 on counts with its sign extended. -/
def CString.hash (str : CString) : ℕ :=
  str.bytes.foldl (fun hash c => (hash + charToSize c) % 2 ^ 64) 0

/-! ## The map -/

/-- The queue nodes: the head of a bucket, or the node inside a pair. -/
inductive MapNode : Type where
  | bucket (i : ℕ)
  | pair (n : ℕ)
  deriving DecidableEq

/-- `pc__pair_t` without its queue node. The value is a `void *`, `none` is `NULL`. -/
structure MapPair (α : Type) where
  /-- `key` -/
  key : CString
  /-- `value` -/
  value : Option α

/-- `pc_map_t` with the memory it owns. Pairs are numbered in the order in which they
are allocated, so that a value is known by the `pc_map_set` it came from. -/
structure PcMap (α : Type) where
  /-- `capacity` -/
  capacity : ℕ
  /-- `buckets` is not `NULL` -/
  buckets : Bool
  /-- the pointers of all queue nodes -/
  links : Pointers MapNode
  /-- the allocated pairs -/
  pairs : ℕ → Option (MapPair α)
  /-- the number of pairs allocated so far -/
  made : ℕ
  /-- the calls of `release_value` so far, latest first: the pair, its key and value -/
  released : List (ℕ × MapPair α)

/-- `PC__MAP_DEFAULT_CAPACITY` -/
def mapDefaultCapacity : ℕ := 64

variable {α : Type}

/-- The first `n` heads initialised, the first of them first. -/
def initBuckets (links : Pointers MapNode) : ℕ → Pointers MapNode
  | 0 => links
  | n + 1 => (initBuckets links n).init (.bucket n)

/-- `pc_map_init` on memory with any content. The loop counts with an `int`: a
capacity that an `int` cannot reach overflows it, which C gives no meaning. -/
def mapInit (capacity : ℕ) (links : Pointers MapNode) : Option (PcMap α) :=
  let capacity := if capacity < mapDefaultCapacity then mapDefaultCapacity else capacity
  if 2 ^ 31 ≤ capacity then none
  else some
    { capacity := capacity
      buckets := true
      links := initBuckets links capacity
      pairs := fun _ => none
      made := 0
      released := [] }

namespace PcMap

/-- `&map->buckets[hash % map->capacity]` -/
def head (map : PcMap α) (key : CString) : MapNode := .bucket (key.hash % map.capacity)

/-- `ngx_queue_data` and the read through it: the pair around a node, if it is one and
still allocated. -/
def pairAt (map : PcMap α) : MapNode → Option (ℕ × MapPair α)
  | .bucket _ => none
  | .pair n => (map.pairs n).map fun p => (n, p)

/-- The loop of `pc_map_get` and `pc_map_del`: the first pair from `q` on with the
key. The inner `none` is the end of the list. -/
def find (map : PcMap α) (key : CString) (head : MapNode) :
    ℕ → MapNode → Option (Option (ℕ × MapPair α))
  | 0, _ => none
  | fuel + 1, q =>
    if q = head ∨ map.links.empty head then some none
    else do
      let (n, pair) ← map.pairAt q
      if pair.key = key then some (some (n, pair))
      else map.find key head fuel (map.links.next q)

/-- The loop of `pc_map_set`. A pair with the key is unlinked and the walk goes on
from its node, whose pointers `ngx_queue_init` has just turned back on itself. -/
def unlinkOld (map : PcMap α) (key : CString) (head : MapNode) :
    ℕ → Pointers MapNode → MapNode → Option (ℕ × MapPair α) →
      Option (Pointers MapNode × Option (ℕ × MapPair α))
  | 0, _, _, _ => none
  | fuel + 1, links, q, oldPair =>
    if q = head ∨ links.empty head then some (links, oldPair)
    else do
      let (n, pair) ← map.pairAt q
      if pair.key = key then
        let links := (links.remove q).init q
        map.unlinkOld key head fuel links (links.next q) (some (n, pair))
      else map.unlinkOld key head fuel links (links.next q) none

/-- `map->release_value(map, pair->key, pair->value)` and the two `free`s. -/
def releasePair (map : PcMap α) (n : ℕ) (pair : MapPair α) : PcMap α :=
  { map with
    pairs := Function.update map.pairs n none
    released := (n, pair) :: map.released }

/-- The pair that `pc_map_set` allocates and fills in before it looks at the map. -/
def alloc (map : PcMap α) (pair : MapPair α) : PcMap α :=
  { map with
    links := map.links.init (.pair map.made)
    pairs := Function.update map.pairs map.made (some pair)
    made := map.made + 1 }

/-- `pc_map_set`, with allocations that succeed. -/
def set (fuel : ℕ) (map : PcMap α) (key : CString) (value : Option α) : Option (PcMap α) :=
  if map.buckets then do
    let n := map.made
    let map := map.alloc ⟨key, value⟩
    let head := map.head key
    let (links, oldPair) ← map.unlinkOld key head fuel map.links (map.links.next head) none
    let map := { map with links := links.insertTail head (.pair n) }
    match oldPair with
    | none => some map
    | some (old, pair) => some (map.releasePair old pair)
  else none

/-- `pc_map_get` -/
def get (fuel : ℕ) (map : PcMap α) (key : CString) : Option (Option α) :=
  if map.buckets then do
    let head := map.head key
    match ← map.find key head fuel (map.links.next head) with
    | none => some none
    | some (_, pair) => some pair.value
  else none

/-- `pc_map_del`: the pair is freed but its value is handed to the caller. -/
def del (fuel : ℕ) (map : PcMap α) (key : CString) : Option (PcMap α × Option α) :=
  if map.buckets then do
    let head := map.head key
    match ← map.find key head fuel (map.links.next head) with
    | none => some (map, none)
    | some (n, pair) =>
      let links := (map.links.remove (.pair n)).init (.pair n)
      some ({ map with links := links, pairs := Function.update map.pairs n none }, pair.value)
  else none

/-- The `while` loop of `pc_map_clear` for one bucket. -/
def clearBucket (i : ℕ) : ℕ → PcMap α → Option (PcMap α)
  | 0, _ => none
  | fuel + 1, map =>
    if map.links.empty (.bucket i) then some map
    else do
      let q := map.links.next (.bucket i)
      let (n, pair) ← map.pairAt q
      let map := { map with links := (map.links.remove q).init q }
      clearBucket i fuel (map.releasePair n pair)

/-- The `for` loop of `pc_map_clear`: the first `n` buckets. -/
def clearBuckets (fuel : ℕ) (map : PcMap α) : ℕ → Option (PcMap α)
  | 0 => some map
  | n + 1 => do
    let map ← map.clearBuckets fuel n
    clearBucket n fuel map

/-- `pc_map_clear` -/
def clear (fuel : ℕ) (map : PcMap α) : Option (PcMap α) :=
  if map.buckets then map.clearBuckets fuel map.capacity else some map

/-- `pc_map_close` -/
def close (fuel : ℕ) (map : PcMap α) : Option (PcMap α) := do
  let map ← map.clear fuel
  some { map with buckets := false }

end PcMap

/-! ## Calls and their meaning -/

/-- One call on the map. -/
inductive MapCall (α : Type) : Type where
  | set (key : CString) (value : Option α)
  | get (key : CString)
  | del (key : CString)
  | clear
  | close

/-- A call with `fuel` rounds for each of its loops: the map after it and, for
`pc_map_get` and `pc_map_del`, the pointer it gives. -/
def PcMap.call (fuel : ℕ) (map : PcMap α) : MapCall α → Option (PcMap α × Option α)
  | .set key value => (map.set fuel key value).map fun map => (map, none)
  | .get key => (map.get fuel key).map fun value => (map, value)
  | .del key => map.del fuel key
  | .clear => (map.clear fuel).map fun map => (map, none)
  | .close => (map.close fuel).map fun map => (map, none)

/-- **A run in which every call returns**: the calls in order, what each of them gave
and the map after the last. -/
inductive PcMap.Run (map : PcMap α) : List (MapCall α) → List (Option α) → PcMap α → Prop
  | nil : Run map [] [] map
  | snoc {calls results map₁ call fuel map₂ result} :
      Run map calls results map₁ → PcMap.call fuel map₁ call = some (map₂, result) →
      Run map (calls ++ [call]) (results ++ [result]) map₂

/-- What became of the value of a `pc_map_set`. -/
inductive Fate : Type where
  /-- still in the map -/
  | present
  /-- replaced by a later set, or present at a clear -/
  | owed
  /-- returned by a `pc_map_del` -/
  | returned
  deriving DecidableEq

/-- How one more call changes the fate of a value that was set under `key`. -/
def Fate.after (key : CString) : Fate → MapCall α → Fate
  | .present, .set key' _ => if key' = key then .owed else .present
  | .present, .del key' => if key' = key then .returned else .present
  | .present, .get _ => .present
  | .present, .clear => .owed
  | .present, .close => .owed
  | .owed, _ => .owed
  | .returned, _ => .returned

/-- The fate of a value set under `key`, after the calls that followed the set. -/
def fate (key : CString) (later : List (MapCall α)) : Fate :=
  later.foldl (Fate.after key) .present

/-- The sets of a sequence of calls, in order, each with the fate of its value. -/
def history : List (MapCall α) → List (MapPair α × Fate)
  | [] => []
  | .set key value :: later => (⟨key, value⟩, fate key later) :: history later
  | _ :: later => history later

/-- The value of `key` after one more call; `NULL` when it has none. -/
def MapCall.valueAfter (key : CString) (value : Option α) : MapCall α → Option α
  | .set key' value' => if key' = key then value' else value
  | .del key' => if key' = key then none else value
  | .get _ => value
  | .clear => none
  | .close => none

/-- **The finite map.** The value of the last set of `key` not followed by a del of
`key` or a clear, and `NULL` if there is none. -/
def lastValue (key : CString) (calls : List (MapCall α)) : Option α :=
  calls.foldl (MapCall.valueAfter key) none

end Libpomelo
