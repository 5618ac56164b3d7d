import Dataflow.Problem

/-! # Problems given by rules

A rule drops some facts and adds others, at a quad or along one of its edges. The domain is
the same for every routine, and what to remove is given beforehand.
-/
namespace Dataflow.GenKill

structure Rule where
  quad : QuadId
  edge : Option Neighbor
  gen : List Register
  kill : List Register
deriving DecidableEq

def Rule.apply (r : Rule) (facts : OrderedSet Register) : OrderedSet Register :=
  (facts.eraseAll r.kill).insertAll r.gen

structure Rules where
  direction : Direction
  confluence : Confluence
  domain : List Register
  boundary : List Register
  rules : List Rule
  remove : List QuadId
deriving DecidableEq

namespace Rules

/-- The rules at a quad, in order. -/
def transfer (s : Rules) (q : Quad) (facts : OrderedSet Register) : OrderedSet Register :=
  (s.rules.filter (fun r => r.quad == q.id && r.edge.isNone)).foldl
    (fun facts r => r.apply facts) facts

/-- The rules along edges of a quad, each on the value that the quad leaves. -/
def departures (s : Rules) (q : Quad) :
    List (Neighbor × (OrderedSet Register → OrderedSet Register)) :=
  s.rules.filterMap fun r =>
    if r.quad = q.id then r.edge.map (fun n => (n, r.apply)) else none

def frame (s : Rules) : Frame Register where
  domain := .ofList s.domain
  transfer := s.transfer
  departures := s.departures
  reach := .ofList (s.domain ++ s.boundary ++ s.rules.flatMap Rule.gen)

def problem (s : Rules) : Problem Register where
  direction := s.direction
  confluence := s.confluence
  blank := s.frame
  frame _ := s.frame
  boundary frame := .ofFacts frame.domain s.confluence s.boundary
  scratchAtOnce := true
  conclude _ _ _ := pure s.remove

end Rules

end Dataflow.GenKill
