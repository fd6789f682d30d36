import Keystroke.Session

/-!
# Consumers

A consumer receives every batch of keys in order and is stopped when the session
ends. It may fail, and it may ask to quit. Its calls can be recorded.
-/

namespace Keystroke.EventLoop

inductive Flow where
  | proceed
  | quit
deriving DecidableEq, Repr

/-- Behaviour over states `σ` with errors `ε`; both calls are told the instant. -/
structure Consumer (σ ε : Type) where
  forward : Nat → Batch → σ → Except ε Flow × σ
  stop : Nat → σ → σ

inductive Call where
  | forward (instant : Nat) (batch : Batch)
  | stop (instant : Nat)
deriving DecidableEq

def Call.isStop : Call → Bool
  | forward _ _ => false
  | stop _ => true

/-- The same consumer, with its calls recorded in order. -/
def Consumer.recorded {σ ε : Type} (consumer : Consumer σ ε) : Consumer (σ × List Call) ε where
  forward instant batch state :=
    let (answer, inner) := consumer.forward instant batch state.1
    (answer, inner, state.2 ++ [.forward instant batch])
  stop instant state := (consumer.stop instant state.1, state.2 ++ [.stop instant])

/-- A consumer that answers by the number of the call: it fails at one of them with the given
error, and asks to quit at others. Its state counts the calls. -/
def Consumer.scripted {ε : Type} (failAt : Option (Nat × ε)) (quitAt : List Nat) :
    Consumer Nat ε where
  forward _ _ count :=
    let answer : Except ε Flow :=
      match failAt with
      | some (number, error) =>
        if number = count then .error error
        else .ok (if quitAt.contains count then .quit else .proceed)
      | none => .ok (if quitAt.contains count then .quit else .proceed)
    (answer, count + 1)
  stop _ count := count

end Keystroke.EventLoop
