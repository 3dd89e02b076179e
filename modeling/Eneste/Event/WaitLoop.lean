import Eneste.Library.Loop
import Eneste.Event.Laws

/-!
# The wait loop

Six futures of the crate are one loop: while `Waiting`, poll the listener; while
`Idle`, try to finish and otherwise register a listener. They differ in the event
they wait on and in what the `Idle` arm tries. `waitPoll_idle`, `waitPoll_asleep`
and `waitPoll_notified` say what one poll does, whatever the arm.
-/

namespace Eneste

/-- `LockState`, `SendState` and `ReceiverState`. -/
inductive WaitState where
  | waiting (listener : Nat)
  | idle
  deriving DecidableEq

/-- What the `Idle` arm does: return, register a listener, or panic. -/
inductive Attempt (ρ σ : Type) where
  | ready (result : ρ) (s : σ)
  | wait
  | panic

/-- Where in the state the event is that the future waits on. -/
structure EventField (σ W : Type) where
  get : σ → Inner W Unit
  set : σ → Inner W Unit → σ
  get_set : ∀ s inner, get (set s inner) = inner
  set_get : ∀ s, set s (get s) = s
  set_set : ∀ s inner inner', set (set s inner) inner' = set s inner'

variable {σ ρ W : Type} (event : EventField σ W) (attempt : σ → Attempt ρ σ) (waker : W)

/-- One turn of the loop. -/
def waitTurn : σ × WaitState → Option (LoopTurn (σ × WaitState) (Poll ρ))
  | (s, .waiting listener) =>
    match EventListener.poll listener waker (event.get s) with
    | none => none
    | some (.ready _, inner) =>
      -- leaving `Waiting` drops the listener
      some (.again (event.set s (EventListener.drop listener inner), .idle))
    | some (.pending, inner) => some (.done .pending (event.set s inner, .waiting listener))
  | (s, .idle) =>
    match attempt s with
    | .ready result s' => some (.done (.ready result) (s', .idle))
    | .wait =>
      let (id, inner) := (event.get s).listen
      some (.again (event.set s inner, .waiting id))
    | .panic => none

/-- `poll`. Four turns are enough: see `waitPoll_idle` and `waitPoll_notified`. -/
def waitPoll (s : σ) (state : WaitState) : Option (Poll ρ × (σ × WaitState)) :=
  LoopTurn.loop (waitTurn event attempt waker) 4 (s, state)

/-- What one poll amounts to from the `Idle` state. -/
def pollIdle (s : σ) : Option (Poll ρ × (σ × WaitState)) :=
  match attempt s with
  | .ready result s' => some (.ready result, (s', .idle))
  | .wait => some (.pending, (event.set s ((event.get s).register waker),
      .waiting (event.get s).nextId))
  | .panic => none

/-- Polling a listener that is not notified stores the waker. -/
theorem EventListener.poll_waiting {T : Type} {inner : Inner W T} {id : Nat} {old : Option W}
    (found : inner.listeners.get? id = some ⟨old, none⟩) :
    EventListener.poll id waker inner = some (.pending, inner.await id waker) := by
  simp [EventListener.poll, found, Inner.await]

/-- A fresh listener is never notified, so its first poll returns `Pending`. -/
theorem EventListener.poll_listen {T : Type} (inner : Inner W T) :
    EventListener.poll inner.nextId waker inner.listen.2 =
      some (.pending, inner.register waker) := by
  have found : inner.listen.2.listeners.get? inner.nextId = some ⟨none, none⟩ := by
    simp [Inner.listen]
  rw [EventListener.poll_waiting waker found]
  simp [Inner.await, Inner.listen, Inner.register]

/-- Consuming a notification and dropping the listener wakes nobody. -/
theorem EventListener.poll_notified {T : Type} {inner : Inner W T} {id : Nat} {old : Option W}
    {tag : T} (found : inner.listeners.get? id = some ⟨old, some tag⟩) :
    ∃ polled, EventListener.poll id waker inner = some (.ready tag, polled) ∧
      EventListener.drop id polled = inner.consume id := by
  -- the value was taken out, so the listener is dropped as one that is not notified
  refine ⟨_, by simp only [EventListener.poll, found]; rfl, ?_⟩
  have emptied := inner.listeners.get?_insert_self id ⟨old, none⟩
  rw [EventListener.drop_waiting emptied]
  simp [Inner.forget, Inner.consume]

private theorem loop_idle (turns : Nat) (s : σ) :
    LoopTurn.loop (waitTurn event attempt waker) (turns + 2) (s, .idle) =
      pollIdle event attempt waker s := by
  unfold pollIdle
  cases arm : attempt s with
  | ready result s' => exact LoopTurn.loop_done (by simp only [waitTurn, arm]) _
  | panic => exact LoopTurn.loop_panic (by simp only [waitTurn, arm]) _
  | wait =>
    -- it registers a listener, and the second turn polls it
    rw [LoopTurn.loop_again (by simp only [waitTurn, arm]; rfl)]
    apply LoopTurn.loop_done
    have first : EventListener.poll (event.get s).listen.1 waker (event.get s).listen.2 =
        some (.pending, (event.get s).register waker) :=
      EventListener.poll_listen waker (event.get s)
    simp only [waitTurn, event.get_set, event.set_set, first]
    rfl

theorem waitPoll_idle (s : σ) :
    waitPoll event attempt waker s .idle = pollIdle event attempt waker s :=
  loop_idle event attempt waker 2 s

theorem waitPoll_asleep {s : σ} {id : Nat} {old : Option W}
    (found : (event.get s).listeners.get? id = some ⟨old, none⟩) :
    waitPoll event attempt waker s (.waiting id) =
      some (.pending, (event.set s ((event.get s).await id waker), .waiting id)) := by
  apply LoopTurn.loop_done
  simp only [waitTurn, EventListener.poll_waiting waker found]

theorem waitPoll_notified {s : σ} {id : Nat} {old : Option W}
    (found : (event.get s).listeners.get? id = some ⟨old, some ()⟩) :
    waitPoll event attempt waker s (.waiting id) =
      pollIdle event attempt waker (event.set s ((event.get s).consume id)) := by
  obtain ⟨polled, ready, dropped⟩ := EventListener.poll_notified waker found
  -- one turn consumes the notification, and the loop goes on as from `Idle`
  have turn : waitTurn event attempt waker (s, .waiting id) =
      some (.again (event.set s ((event.get s).consume id), .idle)) := by
    simp only [waitTurn, ready, dropped]
  unfold waitPoll
  rw [LoopTurn.loop_again turn, loop_idle event attempt waker 1]

end Eneste
