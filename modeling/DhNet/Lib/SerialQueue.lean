import Mathlib.Logic.Function.Basic
import DhNet.Lib.System

/-!
# Serial executors

A family of first-in first-out queues, each with at most one job running: `submit` appends a job,
`start` takes the first job of a queue on which nothing runs, `finish` ends the running job.  This
is what an object that runs its jobs one after the other promises to its users.
-/

namespace SerialQueue

variable {Q J : Type*} [DecidableEq Q]

/-- The jobs not yet started and the running job of every queue. -/
structure State (Q J : Type*) where
  waiting : Q → List J
  running : Q → Option J

inductive Op (Q J : Type*) where
  | submit (queue : Q) (job : J)
  | start (queue : Q)
  | finish (queue : Q)

def step (s : State Q J) : Op Q J → Option (State Q J)
  | .submit q job => some { s with waiting := Function.update s.waiting q (s.waiting q ++ [job]) }
  | .start q =>
      match s.running q, s.waiting q with
      | none, job :: rest =>
          some ⟨Function.update s.waiting q rest, Function.update s.running q (some job)⟩
      | _, _ => none
  | .finish q => (s.running q).map fun _ => { s with running := Function.update s.running q none }

def system (Q J : Type*) [DecidableEq Q] : Transition.System (State Q J) (Op Q J) where
  init s := s = ⟨fun _ => [], fun _ => none⟩
  step := step

end SerialQueue
