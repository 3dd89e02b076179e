import Mathlib

/-!
# Loops that return

A `loop { .. }` whose body either goes round again or returns. The body is
`none` where the program panics. Running out of turns is `none` as well, so a
result obtained with some number of turns is the result of the loop.
-/

inductive LoopTurn (σ ρ : Type) where
  | again (s : σ)
  | done (result : ρ) (s : σ)

namespace LoopTurn

variable {σ ρ : Type} {body : σ → Option (LoopTurn σ ρ)}

def loop (body : σ → Option (LoopTurn σ ρ)) : Nat → σ → Option (ρ × σ)
  | 0, _ => none
  | turns + 1, s =>
    match body s with
    | none => none
    | some (.again s') => loop body turns s'
    | some (.done result s') => some (result, s')

theorem loop_again {s t : σ} (turn : body s = some (.again t)) (turns : Nat) :
    loop body (turns + 1) s = loop body turns t := by
  simp only [loop, turn]

theorem loop_done {s s' : σ} {result : ρ} (turn : body s = some (.done result s'))
    (turns : Nat) : loop body (turns + 1) s = some (result, s') := by
  simp only [loop, turn]

theorem loop_panic {s : σ} (turn : body s = none) (turns : Nat) :
    loop body (turns + 1) s = none := by
  simp only [loop, turn]

end LoopTurn
