import Dataflow.Error

/-! # Runs over a state

A run may fail, and it may write log lines. What it has changed and logged before it fails
stands.
-/
namespace Dataflow

inductive Level where
  | off
  | error
  | warn
  | info
  | debug
  | trace
deriving DecidableEq, Inhabited

namespace Level

def rank : Level → Nat
  | off => 0
  | error => 1
  | warn => 2
  | info => 3
  | debug => 4
  | trace => 5

/-- Whether lines of level `l` are written when logging stands at `limit`. -/
def shows (limit l : Level) : Bool := l.rank ≤ limit.rank

end Level

structure Line where
  level : Level
  message : String
deriving DecidableEq

structure Outcome (σ α : Type) where
  result : Except Error α
  state : σ
  log : List Line

def Outcome.mapState {σ τ α : Type} (f : σ → τ) (o : Outcome σ α) : Outcome τ α :=
  ⟨o.result, f o.state, o.log⟩

def Run (σ α : Type) := σ → Outcome σ α

namespace Run

variable {σ τ α β : Type}

protected def pure (a : α) : Run σ α := fun s => ⟨.ok a, s, []⟩

protected def bind (r : Run σ α) (f : α → Run σ β) : Run σ β := fun s =>
  let o := r s
  match o.result with
  | .ok a =>
    let p := f a o.state
    { p with log := o.log ++ p.log }
  | .error e => ⟨.error e, o.state, o.log⟩

instance : Monad (Run σ) where
  pure := Run.pure
  bind := Run.bind

def get : Run σ σ := fun s => ⟨.ok s, s, []⟩

def put (s : σ) : Run σ Unit := fun _ => ⟨.ok (), s, []⟩

def fail (e : Error) : Run σ α := fun s => ⟨.error e, s, []⟩

def ofExcept (r : Except Error α) : Run σ α := fun s => ⟨r, s, []⟩

/-- A new state, or a failure that leaves the old one. -/
def change (f : σ → Except Error σ) : Run σ Unit := fun s =>
  match f s with
  | .ok t => ⟨.ok (), t, []⟩
  | .error e => ⟨.error e, s, []⟩

def look (f : σ → Except Error α) : Run σ α := fun s => ⟨f s, s, []⟩

/-- The state that a run leaves when it succeeds. -/
def final (s : σ) (r : Run σ α) : Except Error σ :=
  let o := r s
  o.result.map (fun _ => o.state)

def mapError (f : Error → Error) (r : Run σ α) : Run σ α := fun s =>
  let o := r s
  { o with result := o.result.mapError f }

/-- Writes a line if logging at `limit` shows its level, and asks for the message only then.
-/
def say (limit l : Level) (message : Unit → String) : Run σ Unit := fun s =>
  ⟨.ok (), s, if limit.shows l then [⟨l, message ()⟩] else []⟩

/-- As `say`, for a message that may fail to come about, and the run with it. -/
def trySay (limit l : Level) (message : Unit → Except Error String) : Run σ Unit := fun s =>
  if limit.shows l then
    match message () with
    | .ok text => ⟨.ok (), s, [⟨l, text⟩]⟩
    | .error e => ⟨.error e, s, []⟩
  else ⟨.ok (), s, []⟩

/-- Runs on a part of a larger state. -/
def zoom (view : τ → σ) (update : τ → σ → τ) (r : Run σ α) : Run τ α := fun t =>
  (r (view t)).mapState (update t)

end Run

end Dataflow
