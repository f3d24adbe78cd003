import Mathlib.Data.List.Basic

/-!
# Dialogues

A dialogue is a program that puts questions to its surroundings and goes on with the answers. Nothing
is said of who answers: between two questions anything may happen to the one who is asked. `play`
answers from a state, one question after the other.
-/

set_option autoImplicit false

namespace NessieStore.Lib

/-- A program that returns, fails, or asks and goes on. -/
inductive Dialogue (Q : Type) (A : Q → Type) (ε α : Type)
  | done (a : α)
  | fail (e : ε)
  | ask (q : Q) (next : A q → Dialogue Q A ε α)

namespace Dialogue

variable {Q : Type} {A : Q → Type} {ε α β : Type}

protected def bind : Dialogue Q A ε α → (α → Dialogue Q A ε β) → Dialogue Q A ε β
  | done a, f => f a
  | fail e, _ => fail e
  | ask q next, f => ask q fun x => (next x).bind f

instance : Monad (Dialogue Q A ε) where
  pure := done
  bind := Dialogue.bind

theorem done_bind (a : α) (f : α → Dialogue Q A ε β) : (done a >>= f) = f a := rfl

/-- One question. -/
def query (q : Q) : Dialogue Q A ε (A q) := ask q done

def ofExcept : Except ε α → Dialogue Q A ε α
  | .ok a => done a
  | .error e => fail e

/-- Answer from a state that the answers may change. -/
def play {σ : Type} (answer : (q : Q) → σ → A q × σ) : Dialogue Q A ε α → σ → Except ε α × σ
  | done a, s => (.ok a, s)
  | fail e, s => (.error e, s)
  | ask q next, s => (next (answer q s).1).play answer (answer q s).2

end Dialogue

end NessieStore.Lib
