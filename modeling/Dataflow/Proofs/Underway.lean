import Dataflow.Proofs.Engines
import Dataflow.Solver
import Mathlib.Logic.Relation

/-! # On the way through a routine

Once a routine has been prepared, a solver takes a few kinds of steps: a solved value is set to
the top, what flows into a quad is met and stored on its given side, a quad is processed, and the
value at the far boundary is put together. Whatever part of a solver runs, also if it fails, it
leaves a state that such steps lead to.
-/
namespace Dataflow

variable {σ τ α : Type} [Fact α]

namespace Engine

/-- After a routine has been prepared, the engine changes the store only. -/
structure Steady (e : Engine σ τ α) : Prop where
  prepare (p : Problem α) (f : Routine) : Run.Keeps (Analysis.On p) (e.prepare f)
  setEntry {a b : Analysis σ α} {x : FactSet α} : e.setEntry a x = .ok b → a.SameSetting b
  setExit {a b : Analysis σ α} {x : FactSet α} : e.setExit a x = .ok b → a.SameSetting b
  setGiven {a b : Analysis σ α} {id : QuadId} {x : FactSet α} :
    e.setGiven a id x = .ok b → a.SameSetting b
  writes {d : Direction} {l : Location} {x : FactSet α}
    {write : Analysis σ α → Except Error (Analysis σ α)} {a b : Analysis σ α} :
    write ∈ e.writes d l x → write a = .ok b → a.SameSetting b
  process {a b : Analysis σ α} {q : Quad} : e.process a q = .ok b → a.SameSetting b

/-- A step on the way of the solver through a routine. -/
inductive Advance (e : Engine σ τ α) (f : Routine) (a b : Analysis σ α) : Prop
  | seed {ls : List Location} {l : Location}
      {write : Analysis σ α → Except Error (Analysis σ α)} : f.locations = .ok ls → l ∈ ls →
      write ∈ e.writes a.direction l a.top → write a = .ok b → Advance e f a b
  | meet {ls : List Location} {l : Location} {x : FactSet α} : f.locations = .ok ls → l ∈ ls →
      e.met a l = .ok x → e.setGiven a l.id x = .ok b → Advance e f a b
  | process {ls : List Location} {l : Location} : f.locations = .ok ls → l ∈ ls →
      e.process a l.quad = .ok b → Advance e f a b
  | exit {ls : List Location} {x : FactSet α} : f.locations = .ok ls → a.direction = .forward →
      e.farValue a ls = .ok x → e.setExit a x = .ok b → Advance e f a b
  | entry {ls : List Location} {x : FactSet α} : f.locations = .ok ls → a.direction = .backward →
      e.farValue a ls = .ok x → e.setEntry a x = .ok b → Advance e f a b

/-- A state that may come up while the routine is solved, after it has been prepared. -/
def Underway (e : Engine σ τ α) (f : Routine) (a b : Analysis σ α) : Prop :=
  ∃ start, (e.prepare f).Yields a () start ∧ Relation.ReflTransGen (e.Advance f) start b

variable {e : Engine σ τ α} {f : Routine} {ls : List Location} {a b c start : Analysis σ α}
  {l : Location}

theorem Underway.tail (h : e.Underway f a b) (hstep : e.Advance f b c) : e.Underway f a c := by
  obtain ⟨start, hstart, h⟩ := h
  exact ⟨start, hstart, h.tail hstep⟩

theorem underway_seed (he : e.Steady) (hls : f.locations = .ok ls) :
    Run.Keeps (e.Underway f start) (e.seed ls) := by
  refine Run.Keeps.forM fun l hl a ha => ?_
  show e.Underway f start ((Run.ofExcept a.scratch >>= _) a).state
  cases hx : a.scratch with
  | error y => exact ha
  | ok x =>
    -- The top is made once for a location, and stays the same while its values are set.
    have hwrites : Run.Keeps (fun b => e.Underway f start b ∧ a.SameSetting b)
        ((e.writes a.direction l x.toTop).forM Run.change) := by
      refine Run.Keeps.forM fun write hwrite => Run.keeps_change fun {b c} hb h => ?_
      obtain ⟨hb, hproblem, hframe⟩ := hb
      have hsame := he.writes hwrite h
      have htop : x.toTop = b.top := by
        rw [Analysis.toTop_of_scratch hx, Analysis.top, Analysis.top, hproblem, hframe]
      have hdirection : a.direction = b.direction := congrArg Problem.direction hproblem.symm
      rw [htop, hdirection] at hwrite
      exact ⟨hb.tail (.seed hls hl hwrite h), Analysis.SameSetting.trans ⟨hproblem, hframe⟩ hsame⟩
    exact (hwrites a ⟨ha, rfl, rfl⟩).1

theorem underway_visitAt (hls : f.locations = .ok ls) (hl : l ∈ ls) (level : Level) :
    Run.Keeps (e.Underway f start) (e.visitAt level l) :=
  keeps_visitAt fun ha h => by
    obtain ⟨x, b, hx, hb, hprocess⟩ := exists_of_visit h
    exact (ha.tail (.meet hls hl hx hb)).tail (.process hls hl hprocess)

theorem underway_iterate (hls : f.locations = .ok ls) (level : Level) (name : String)
    (fuel count : Nat) : Run.Keeps (e.Underway f start) (e.iterate level name ls fuel count) :=
  keeps_iterate (keeps_pass fun _ hl => underway_visitAt hls hl level) name fuel count

theorem underway_settle (hls : f.locations = .ok ls) (level : Level) :
    Run.Keeps (e.Underway f start) (e.settle level ls) :=
  keeps_settle (fun ha hd hx hb => ha.tail (.exit hls hd hx hb))
    fun ha hd hx hb => ha.tail (.entry hls hd hx hb)

theorem underway_solve (he : e.Steady) (hstart : (e.prepare f).Yields a () start) (level : Level) :
    e.Underway f a (e.solve level f a).state := by
  have hstate : (e.solve level f a).state = _ := (hstart.bind_like _).2
  rw [hstate]
  have hstart : e.Underway f a start := ⟨start, hstart, .refl⟩
  show e.Underway f a ((Run.ofExcept f.locations >>= _) start).state
  cases hls : f.locations with
  | error x => exact hstart
  | ok ls =>
    refine (underway_seed he hls).bind (fun _ b hb => ?_) start hstart
    refine (underway_iterate hls level f.name _ 1).bind (fun _ => (underway_settle hls level).bind
      fun _ => ?_) b hb
    exact fun _ hc => hc

end Engine

namespace NodeAnalysis

theorem steady_engine : (engine (α := α)).Steady where
  prepare p f := fun _ ha => ha
  setEntry := Analysis.sameSetting_write
  setExit := Analysis.sameSetting_write
  setGiven := Analysis.sameSetting_write
  writes hwrite h := by
    cases List.mem_singleton.1 hwrite
    exact Analysis.sameSetting_write h
  process h := by
    obtain ⟨_, _, h⟩ := bind_eq_ok.1 h
    exact Analysis.sameSetting_write h

end NodeAnalysis

namespace EdgeAnalysis

variable {f : Routine} {ls : List Location} {a b : EdgeAnalysis α}

theorem sameSetting_process {q : Quad} (h : a.process q = .ok b) : a.SameSetting b := by
  obtain ⟨v, _, h⟩ := bind_eq_ok.1 h
  obtain ⟨c, hall, h⟩ := bind_eq_ok.1 h
  refine (Analysis.sameSetting_write hall).trans ?_
  clear hall
  generalize a.frame.departures q = ds at h
  induction ds generalizing c with
  | nil =>
    cases h
    exact ⟨rfl, rfl⟩
  | cons d ds ih =>
    obtain ⟨c', hset, h⟩ := bind_eq_ok.1 h
    exact (Analysis.sameSetting_write hset).trans (ih c' h)

theorem steady_engine : (engine (α := α)).Steady where
  prepare p f := by
    intro a ha
    show Analysis.On p ((Run.ofExcept f.locations >>= _) _).state
    cases f.locations with
    | error x => exact ha
    | ok ls => exact ha
  setEntry := Analysis.sameSetting_write
  setExit := Analysis.sameSetting_write
  setGiven := Analysis.sameSetting_write
  writes hwrite h := by
    obtain ⟨n, _, rfl⟩ := List.mem_map.1 hwrite
    exact Analysis.sameSetting_write h
  process := sameSetting_process

/-- The state in which a routine with these locations is prepared. -/
def prepared (a : EdgeAnalysis α) (f : Routine) (ls : List Location) : EdgeAnalysis α :=
  { a with
    frame := a.problem.frame f
    store := some (.ofRoutine a.direction f ls (a.problem.initial (a.problem.frame f))
      (a.problem.boundary (a.problem.frame f))) }

theorem yields_prepare (hls : f.locations = .ok ls) (a : EdgeAnalysis α) :
    (prepare f).Yields a () (a.prepared f ls) := by
  refine ⟨[], ?_⟩
  show (Run.ofExcept f.locations >>= _) _ = _
  rw [hls]
  rfl

end EdgeAnalysis

end Dataflow
