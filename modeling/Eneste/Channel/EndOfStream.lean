import Eneste.Channel.Invariant

/-!
# The end of the stream

`Receiver::poll_next` reports the end when the queue is empty and no `Sender` is
left. `Send` futures are not counted, and one that outlives its `Sender` can still
queue its value.
-/

namespace Eneste.Mpsc

open Machine

section

variable [Usize] {W T : Type} {cap : Nat} {c c' : Channel W T}

/-- The receiver reports the end. -/
def ends (t : Transition (Channel W T) (Op W T) (Res T)) : Bool :=
  match t.out with
  | .next (.ready none) => true
  | _ => false

/-- Nothing is sent, and the receiver reports nothing but the end. -/
def quiet (t : Transition (Channel W T) (Op W T) (Res T)) : Bool :=
  match t.out with
  | .next (.ready none) => true
  | .next _ | .sent (.ready (.ok ())) | .tried (.ok ()) => false
  | _ => true

/-- A `Send` future is polled that never parked or has been notified, while the channel
has a receiver and a capacity to send into. -/
def Channel.SendsLate (c : Channel W T) (op : Op W T) : Prop :=
  ∃ k waker send state, op = .pollSend k waker ∧ c.sends.get? k = some send ∧
    send.waiter.Runnable c.core.senderEvent ∧ c.core.shared = some state ∧
    0 < state.maxQueueSize

/-- The stream has ended. -/
structure Channel.Over (c : Channel W T) : Prop where
  idle : c.receiver = .idle
  drained : ∀ state, c.core.shared = some state → state.queue = []
  alone : c.handles = 0

/-- Reporting the end, the receiver leaves the channel over. -/
theorem over_of_ends (inv : c.Inv cap) {op : Op W T} {r : Res T}
    (taken : c.step op = some (c', r)) (ended : ends ⟨c, op, r, c'⟩ = true) : c'.Over := by
  -- only the receiver's poll gives this answer, so the other calls are ruled out below
  have reported : r = .next (.ready none) := by
    unfold ends at ended
    split at ended <;> simp_all
  subst reported
  cases Channel.step_spec inv taken with
  | @receives waker state _ _ live polled =>
    cases polled with
    | ended runnable drained alone =>
      refine ⟨rfl, fun later opened => ?_, ?_⟩
      · cases live.symm.trans opened
        exact drained
      · rw [← alone]
        exact (inv.reading.fits state live).counted.symm
  | sends live polled => cases polled

/-- Once over, the receiver reports the end and nothing else. -/
theorem Channel.Over.pollNext {waker : W} {state : State T} {r : Res T} (isOver : c.Over)
    (inv : c.Inv cap) (live : c.core.shared = some state)
    (polled : c.PollNext waker state c' r) : r = .next (.ready none) ∧ c'.Over := by
  have drained := isOver.drained state live
  have alone : state.senders = 0 := (inv.reading.fits state live).counted.trans isOver.alone
  cases polled with
  | asleep parked =>
    rw [isOver.idle] at parked
    cases parked
  | took _ first =>
    rw [drained] at first
    cases first
  | ended => exact ⟨rfl, rfl, isOver.drained, isOver.alone⟩
  | parks _ _ expected => exact absurd alone expected

/-- Once over, a call is quiet exactly if it is no late send. -/
theorem Channel.Over.quiet_iff (isOver : c.Over) (inv : c.Inv cap) {op : Op W T} {r : Res T}
    (taken : c.step op = some (c', r)) :
    (quiet ⟨c, op, r, c'⟩ = true ↔ ¬c.SendsLate op) ∧ (¬c.SendsLate op → c'.Over) := by
  have alone := isOver.alone
  cases Channel.step_spec inv taken with
  | @sends k waker send _ _ live polled =>
    cases polled with
    | @asleep p parked silent =>
      refine ⟨iff_of_true (by simp [quiet]) ?_, fun _ => ⟨isOver.idle, isOver.drained, alone⟩⟩
      rintro ⟨_, _, other, _, ⟨⟩, found, runnable, _⟩
      cases live.symm.trans found
      -- a future that is not runnable does not send, late or not
      simp [parked, Waiter.Runnable, silent] at runnable
    | refused runnable gone =>
      refine ⟨iff_of_true (by simp [quiet]) ?_, fun _ => ⟨isOver.idle, isOver.drained, alone⟩⟩
      rintro ⟨_, _, _, state, ⟨⟩, _, _, opened, _⟩
      simp [gone] at opened
    | @parks state runnable opened full =>
      refine ⟨iff_of_true (by simp [quiet]) ?_, fun _ => ⟨isOver.idle, isOver.drained, alone⟩⟩
      rintro ⟨_, _, _, later, ⟨⟩, _, _, kept, positive⟩
      cases opened.symm.trans kept
      -- the queue is empty: it can only be full with capacity zero
      rw [isOver.drained state opened] at full
      exact full positive
    | @accepted state value runnable opened room holds =>
      -- this is the one outcome that sends after the end
      have late : c.SendsLate (.pollSend k waker) :=
        ⟨k, waker, send, state, rfl, live, runnable, opened, by omega⟩
      exact ⟨iff_of_false (by simp [quiet]) (absurd late), absurd late⟩
  | receives live polled =>
    obtain ⟨rfl, after⟩ := isOver.pollNext inv live polled
    exact ⟨iff_of_true (by simp [quiet]) (by rintro ⟨_, _, _, _, ⟨⟩, _⟩), fun _ => after⟩
  | leaves | leavesParked =>
    exact ⟨iff_of_true (by simp [quiet]) (by rintro ⟨_, _, _, _, ⟨⟩, _⟩),
      fun _ => ⟨isOver.idle, isOver.drained, alone⟩⟩
  | closes =>
    exact ⟨iff_of_true (by simp [quiet]) (by rintro ⟨_, _, _, _, ⟨⟩, _⟩),
      fun _ => ⟨rfl, by rintro _ ⟨⟩, alone⟩⟩
  | pushes handle | declines handle | creates handle | clones handle | parts handle =>
    -- these calls are made on a `Sender`, and there is none
    exact absurd alone handle

/-- The end is final along a run exactly if no `Send` future is polled late. -/
theorem end_of_stream_final_iff {ts} (run : (machine cap).Run ts c) :
    (ts.Pairwise fun earlier later => ends earlier → quiet later) ↔
      ts.Pairwise fun earlier later => ends earlier → ¬later.before.SendsLate later.act :=
  run.after_iff_guard (Channel.Inv cap) Channel.Over (fun t => ends t) (fun t => quiet t)
    (fun t => ¬t.before.SendsLate t.act) (fun _ _ => Channel.inv_of_run)
    (fun _ inv taken ends => over_of_ends inv taken ends)
    (fun _ inv taken isOver => (isOver.quiet_iff inv taken).1)
    (fun _ inv taken isOver => (isOver.quiet_iff inv taken).2)

end

/-- A blocked send is woken by the last pop, the receiver reports the end, and then the
send succeeds. -/
theorem end_of_stream_not_final : ∃ ts, ∃ c : Channel Nat Nat, (machine 1).Run ts c ∧
    ts.map Transition.act = [.send 1, .send 2, .pollSend 0 0, .pollSend 1 1, .dropSender,
      .pollNext 9, .pollNext 9, .pollSend 1 1, .pollNext 9] ∧
    ¬ts.Pairwise fun earlier later => ends earlier → quiet later := by
  exact Machine.exists_run (m := machine 1)
    (P := fun ts _ => ¬ts.Pairwise fun earlier later => ends earlier → quiet later)
    [.send 1, .send 2, .pollSend 0 0, .pollSend 1 1, .dropSender,
      .pollNext 9, .pollNext 9, .pollSend 1 1, .pollNext 9] rfl (by decide)

/-- No `Send` future outlives the end here. -/
theorem end_of_stream_final_drained : ∃ ts, ∃ c : Channel Nat Nat, (machine 1).Run ts c ∧
    ts.map Transition.act =
      [.send 1, .pollSend 0 0, .dropSender, .pollNext 9, .pollNext 9, .pollNext 9] ∧
    ts.Pairwise fun earlier later => ends earlier → quiet later := by
  obtain ⟨ts, c, run, acts, drained⟩ := Machine.exists_run
    (m := machine (W := Nat) (T := Nat) 1)
    (P := fun ts _ => ts.Pairwise fun earlier later =>
      ends earlier → later.before.sends.size = 0)
    [.send 1, .pollSend 0 0, .dropSender, .pollNext 9, .pollNext 9, .pollNext 9] rfl (by decide)
  refine ⟨ts, c, run, acts, (end_of_stream_final_iff run).mpr (drained.imp ?_)⟩
  rintro earlier later empty ended ⟨k, _, send, _, _, live, _⟩
  have size := later.before.sends.size_erase live
  rw [empty ended] at size
  omega

end Eneste.Mpsc
