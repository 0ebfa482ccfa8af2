import Lifeline.Plan.Error

/-!
# Carrying out a plan

The writes of a plan, one after the other (`Plan.commit`). Where one is refused, every file that was
touched, that one included, is put back as it was, the last one first (`restore`).
-/

namespace Lifeline.Plan

/-- A file as it was before an operation. -/
def Operation.undo {σ : Type} (store : Store σ) (s : σ) (o : Operation) :
    σ × Except Store.Fault Unit :=
  match o.previous with
  | none => store.remove s o.path
  | some text => store.write s o.path text

/-- All files as they were before some operations, which are undone in the given order, and the
paths of those that could not be put back. -/
def restore {σ : Type} (store : Store σ) (s : σ) : List Operation → σ × List String
  | [] => (s, [])
  | o :: rest =>
    match o.undo store s with
    | (s, .ok _) => restore store s rest
    | (s, .error _) =>
      let (s, unrestored) := restore store s rest
      (s, o.path :: unrestored)

/-- Operations carried out in order after those in `done`, of which the last one comes first. -/
def commitAfter {σ : Type} (store : Store σ) (done : List Operation) (s : σ) :
    List Operation → σ × Except Error Unit
  | [] => (s, .ok ())
  | o :: rest =>
    match store.write s o.path o.content with
    | (s, .ok _) => commitAfter store (o :: done) s rest
    | (s, .error (.refused reason)) =>
      let (s, unrestored) := restore store s (o :: done)
      (s, .error (.unwritable o.path reason unrestored))
    | (s, .error fault) => (s, .error (.fault fault))

end Lifeline.Plan

namespace Lifeline

/-- The state of a store after a plan, and the paths that were written. -/
def Plan.commit {σ : Type} (p : Plan) (store : Store σ) (s : σ) :
    σ × Except Plan.Error (List String) :=
  match Plan.commitAfter store [] s p.operations with
  | (s, .ok _) => (s, .ok (p.operations.map (·.path)))
  | (s, .error e) => (s, .error e)

end Lifeline
