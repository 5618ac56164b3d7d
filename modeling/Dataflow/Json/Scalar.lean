import Dataflow.Json.Skip

/-! # Readers for single values

Where the next value is of another kind than wanted, it is read far enough to be named in the
failure, which may uncover a fault of the text first.
-/
namespace Dataflow.Json.Reader

variable {α : Type}

/-- What the next value is, its first character being known. Lists and objects are not
entered. -/
def found (c : Char) : Reader Found := do
  if c = 'n' then
    keyword "null"
    return .null
  else if c = 't' then
    keyword "true"
    return .boolean true
  else if c = 'f' then
    keyword "false"
    return .boolean false
  else if c = '"' then return .text (← quoted)
  else if c = '[' then return .sequence
  else if c = '{' then return .map
  else if c = '-' || isDigit c then return (← number).found
  else malformed .value

def refuse (c : Char) (wanted : String) : Reader α := do
  unfit (.kind (← found c) wanted)

/-- The first character of a value that must follow. -/
def start : Reader Char := do
  match ← token with
  | some c => return c
  | none => ended .value

def text : Reader String := do
  let c ← start
  if c = '"' then quoted else refuse c "a string"

def integer (wanted : String) (convert : Number → Option α) : Reader α := do
  let c ← start
  if c = '-' || isDigit c then
    let n ← number
    match n, convert n with
    | _, some value => return value
    | .float _, none => unfit (.kind n.found wanted)
    | _, none => unfit (.range n.found wanted)
  else refuse c wanted

def unsigned : Reader UInt64 := integer "usize" fun
  | .natural n => if n < UInt64.size then some (UInt64.ofNat n) else none
  | _ => none

def signed : Reader Int64 := integer "i64" fun
  | .natural n => if n < signedLimit then some (Int64.ofNat n) else none
  | .negative n => if n ≤ signedLimit then some (Int64.ofInt (-n)) else none
  | .float _ => none

/-- `null` or a value. -/
def optional (r : Reader α) : Reader (Option α) := do
  match ← token with
  | some 'n' =>
    keyword "null"
    return none
  | _ => return some (← r)

def nothing : Reader Unit := do
  let c ← start
  if c = 'n' then keyword "null" else refuse c "unit"

def items (r : Reader α) : Nat → Bool → Reader (List α)
  | 0, _ => pure []
  | fuel + 1, first => do
    if ← hasItem first then
      let item ← r
      return item :: (← items r fuel false)
    else return []

def list (r : Reader α) : Reader (List α) := do
  let c ← start
  if c = '[' then
    advance
    let fuel ← fuel
    let all ← items r fuel true
    endList
    return all
  else refuse c "a sequence"

end Dataflow.Json.Reader
