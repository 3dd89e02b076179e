import Eneste.Channel.Oneshot

/-!
# When the oneshot receiver waits

A receiver whose poll returns `Pending` should be woken by the sender, by sending or by
going away. A receiver that has been closed, or whose value has been taken by `try_recv`,
waits as well, although no sender can reach it. `Dead` names these states; in all others
the waker is stored and the sender wakes it.
-/

namespace Eneste.Oneshot

open Machine

variable {W T : Type}

section

variable (c : Oneshot W T)

/-- Nothing completes the receiver: it is closed, or empty with the sender gone. -/
def Dead : Prop := c.state = .receiverClosed ∨ c.state = .empty ∧ c.sender = false

/-- The receiver's listener stores the waker. -/
def Registered (waker : W) : Prop :=
  ∃ entry, c.event.listeners.get? c.listener = some entry ∧ entry.waker = some waker

end

/-- The receiver is neither polled nor dropped. -/
def Op.leaves : Op W T → Bool
  | .poll _ | .dropReceiver => false
  | _ => true

/-! ### What a call does -/

/-- The outcomes of a poll. -/
inductive Polled (c : Oneshot W T) (waker : W) :
    Poll (Except Mpsc.ChannelError T) → Oneshot W T → Prop
  | takes {result} (full : c.state = .full) :
      Polled c waker (.ready result) { c with value := none, state := .empty }
  | ends (closed : c.state = .senderClosed) : Polled c waker (.ready (.error .channelError)) c
  | waits {answer event} (quiet : c.state = .empty ∨ c.state = .receiverClosed)
      (asked : EventListener.poll c.listener waker c.event = some (answer, event)) :
      Polled c waker .pending { c with event := event }

section

variable {c c' : Oneshot W T} {waker : W}

theorem poll_spec {result : Poll (Except Mpsc.ChannelError T)}
    (taken : c.poll waker = some (result, c')) : Polled c waker result c' := by
  obtain ⟨value, state, event, listener, sender, receiver⟩ := c
  cases state with
  | full =>
    cases taken
    exact .takes rfl
  | senderClosed =>
    cases taken
    exact .ends rfl
  | empty | receiverClosed =>
    simp only [poll] at taken
    split at taken
    · cases taken
    next asked =>
      cases taken
      exact .waits (by simp) asked

/-- The sender goes away: the event is dropped, perhaps after it has been notified. -/
structure Parts [Usize] (c c' : Oneshot W T) : Prop where
  alive : c.sender = true
  gone : c'.sender = false
  listener : c'.listener = c.listener
  receiver : c'.receiver = c.receiver
  event : ∃ inner, (inner = c.event ∨ inner = Event.notify (.usize 1) c.event) ∧
    c'.event = Event.drop inner
  closed : c'.state = .receiverClosed → c.state = .receiverClosed

/-- The calls that take the sender. -/
def Op.parts : Op W T → Bool
  | .send _ | .dropSender => true
  | _ => false

variable {op : Op W T} {r : Res T}

theorem parts_of_step [Usize] (parting : op.parts = true) (taken : c.step op = some (c', r)) :
    Parts c c' := by
  obtain ⟨value, state, event, listener, sender, receiver⟩ := c
  cases op with
  | close | tryRecv | poll | dropReceiver => cases parting
  | send sent =>
    cases sender with
    | false => cases taken
    | true =>
      cases state with
      -- `unreachable!`
      | senderClosed | full => cases taken
      | empty =>
        cases taken
        exact ⟨rfl, rfl, rfl, rfl, ⟨_, .inr rfl, rfl⟩, by simp [dropSender]⟩
      | receiverClosed =>
        cases taken
        exact ⟨rfl, rfl, rfl, rfl, ⟨_, .inl rfl, rfl⟩, fun _ => rfl⟩
  | dropSender =>
    cases sender with
    | false => cases taken
    | true =>
      cases taken
      cases state with
      | empty => exact ⟨rfl, rfl, rfl, rfl, ⟨_, .inr rfl, rfl⟩, by simp [dropSender]⟩
      | senderClosed | receiverClosed | full =>
        exact ⟨rfl, rfl, rfl, rfl, ⟨_, .inl rfl, rfl⟩, by simp [dropSender]⟩

/-- `close` and `try_recv` touch neither the event nor the sender. -/
theorem frame_of_step [Usize] (parting : op.parts = false) (leaves : op.leaves = true)
    (taken : c.step op = some (c', r)) :
    c'.event = c.event ∧ c'.listener = c.listener ∧ c'.sender = c.sender ∧
      c'.receiver = c.receiver := by
  obtain ⟨value, state, event, listener, sender, receiver⟩ := c
  cases op with
  | send | dropSender => cases parting
  | poll | dropReceiver => cases leaves
  | close | tryRecv =>
    cases receiver with
    | false => cases taken
    | true => cases state <;> cases taken <;> exact ⟨rfl, rfl, rfl, rfl⟩

/-! ### What the sender knows of the receiver -/

/-- While the sender is alive the channel is empty or closed, and nobody has notified the
receiver. The receiver's own closing is what closes the channel. -/
structure Inv (ts : List (Transition (Oneshot W T) (Op W T) (Res T))) (c : Oneshot W T) :
    Prop where
  present : c.receiver = true → c.listener ∈ c.event.listeners.keys
  silent : c.sender = true → EventListener.isNotified c.listener c.event = false
  opened : c.sender = true →
    c.state = .empty ∧ (∀ t ∈ ts, t.act ≠ .close) ∨ c.state = .receiverClosed
  closed : c.receiver = true → c.state = .receiverClosed → ∃ t ∈ ts, t.act = .close

namespace Inv

variable {ts : List (Transition (Oneshot W T) (Op W T) (Res T))}

theorem channel : Inv [] (Oneshot.channel : Oneshot W T) where
  present _ := by simp [Oneshot.channel, Inner.listen, OrderedMap.mem_keys_iff]
  silent _ := by
    simp [Oneshot.channel, Inner.listen, EventListener.isNotified, ListenerEntry.isNotified]
  opened _ := .inl ⟨rfl, by simp⟩
  closed := by simp [Oneshot.channel]

theorem parts [Usize] (inv : Inv ts c) (parted : Parts c c')
    (t : Transition (Oneshot W T) (Op W T) (Res T)) : Inv (ts ++ [t]) c' where
  present alive := by
    obtain ⟨inner, from_event, dropped⟩ := parted.event
    have before := inv.present (parted.receiver.symm.trans alive)
    rw [parted.listener, dropped, Event.keys_drop]
    rcases from_event with rfl | rfl
    · exact before
    · rwa [Event.keys_notify]
  silent alive := by simp [parted.gone] at alive
  opened alive := by simp [parted.gone] at alive
  closed alive state := by
    obtain ⟨u, member, act⟩ := inv.closed (parted.receiver.symm.trans alive) (parted.closed state)
    exact ⟨u, List.mem_append_left _ member, act⟩

private theorem waiting (inv : Inv ts c) (sender : c.sender = true) (receiver : c.receiver = true) :
    ∃ old, c.event.listeners.get? c.listener = some ⟨old, none⟩ := by
  obtain ⟨⟨old, value⟩, found⟩ := (OrderedMap.mem_keys_iff _ _).mp (inv.present receiver)
  have silent := inv.silent sender
  cases value with
  | none => exact ⟨old, found⟩
  | some value => simp [EventListener.isNotified, found, ListenerEntry.isNotified] at silent

/-- While the sender is alive the waker of a poll is stored. -/
theorem registers {answer : Poll Unit} {event : Inner W Unit} (inv : Inv ts c)
    (sender : c.sender = true) (receiver : c.receiver = true)
    (asked : EventListener.poll c.listener waker c.event = some (answer, event)) :
    event = c.event.await c.listener waker := by
  obtain ⟨old, found⟩ := inv.waiting sender receiver
  rw [EventListener.poll_waiting waker found] at asked
  cases asked
  rfl

/-- Any call but `close` may be added to the history. -/
theorem extend (inv : Inv ts c) {t : Transition (Oneshot W T) (Op W T) (Res T)}
    (other : t.act ≠ .close) : Inv (ts ++ [t]) c where
  present := inv.present
  silent := inv.silent
  opened alive := by
    refine (inv.opened alive).imp_left fun ⟨state, never⟩ => ⟨state, fun u member => ?_⟩
    rcases List.mem_append.mp member with old | new
    · exact never u old
    · cases List.mem_singleton.mp new
      exact other
  closed alive state := by
    obtain ⟨u, member, act⟩ := inv.closed alive state
    exact ⟨u, List.mem_append_left _ member, act⟩

private theorem close_same : c.close.event = c.event ∧ c.close.listener = c.listener ∧
    c.close.sender = c.sender ∧ c.close.receiver = c.receiver := by
  unfold Oneshot.close
  split <;> exact ⟨rfl, rfl, rfl, rfl⟩

private theorem close_state (inv : Inv ts c) (alive : c.sender = true) :
    c.close.state = .receiverClosed := by
  rcases inv.opened alive with ⟨state, _⟩ | state <;> simp [Oneshot.close, state]

theorem close (inv : Inv ts c) {t : Transition (Oneshot W T) (Op W T) (Res T)}
    (act : t.act = .close) : Inv (ts ++ [t]) c.close := by
  obtain ⟨event, listener, sender, receiver⟩ := close_same (c := c)
  refine ⟨?_, ?_, ?_, fun _ _ => ⟨t, by simp, act⟩⟩
  · rw [receiver, listener, event]
    exact inv.present
  · rw [sender, listener, event]
    exact inv.silent
  · rw [sender]
    exact fun alive => .inr (inv.close_state alive)

/-- Once the channel is full the sender is gone, so that emptying it leaves no sender. -/
private theorem empties (inv : Inv ts c) (full : c.state = .full) :
    Inv ts { c with value := none, state := .empty } where
  present := inv.present
  silent := inv.silent
  opened alive := by simpa [full] using inv.opened alive
  closed _ state := by cases state

theorem tryRecv (inv : Inv ts c) : Inv ts c.tryRecv.2 := by
  unfold Oneshot.tryRecv
  split
  next full => exact inv.empties full
  all_goals exact inv

theorem poll {result : Poll (Except Mpsc.ChannelError T)} (inv : Inv ts c)
    (receiver : c.receiver = true) (taken : c.poll waker = some (result, c')) : Inv ts c' := by
  cases poll_spec taken with
  | takes full => exact inv.empties full
  | ends => exact inv
  | waits _ asked =>
    refine ⟨fun _ => ?_, fun sender => ?_, inv.opened, inv.closed⟩
    · obtain ⟨entry, found⟩ := (OrderedMap.mem_keys_iff _ _).mp (inv.present receiver)
      simp only [EventListener.poll, found] at asked
      split at asked <;> cases asked <;> simp [OrderedMap.mem_keys_iff]
    · rw [inv.registers sender receiver asked]
      simp [EventListener.isNotified, Inner.await, ListenerEntry.isNotified]

theorem dropReceiver (inv : Inv ts c) (receiver : c.receiver = true) :
    Inv ts c.dropReceiver := by
  obtain ⟨event, listener, sender, _⟩ := close_same (c := c)
  refine ⟨by simp [Oneshot.dropReceiver], ?_, ?_, by simp [Oneshot.dropReceiver]⟩
  · intro alive
    obtain ⟨old, found⟩ := inv.waiting (sender.symm.trans alive) receiver
    simp only [Oneshot.dropReceiver, event, listener]
    rw [EventListener.drop_waiting found]
    simp [EventListener.isNotified, Inner.forget]
  · exact fun alive => .inr (inv.close_state (sender.symm.trans alive))

theorem step [Usize] (inv : Inv ts c) (taken : c.step op = some (c', r)) :
    Inv (ts ++ [⟨c, op, r, c'⟩]) c' := by
  cases op with
  | send | dropSender => exact inv.parts (parts_of_step rfl taken) _
  | close =>
    simp only [Oneshot.step] at taken
    split at taken
    · cases taken
      exact inv.close rfl
    · cases taken
  | tryRecv =>
    simp only [Oneshot.step] at taken
    split at taken
    · cases taken
      exact inv.tryRecv.extend (by simp)
    · cases taken
  | poll waker =>
    simp only [Oneshot.step] at taken
    split at taken
    next receiver =>
      split at taken
      · cases taken
      next polled =>
        cases taken
        exact (inv.poll receiver polled).extend (by simp)
    · cases taken
  | dropReceiver =>
    simp only [Oneshot.step] at taken
    split at taken
    next receiver =>
      cases taken
      exact (inv.dropReceiver receiver).extend (by simp)
    · cases taken

end Inv

/-! ### Who is woken -/

variable [Usize]

theorem inv_of_run {ts} (run : machine.Run ts c) : Inv ts c := by
  refine run.history ?_ fun _ _ _ _ _ inv taken => inv.step taken
  rintro _ rfl
  exact Inv.channel

/-- Neither `unreachable!` is reached. -/
theorem never_panics {ts} (run : machine.Run ts c) :
    (c.sender = true → ∀ value, c.send value ≠ none) ∧
      (c.receiver = true → ∀ waker, c.poll waker ≠ none) := by
  have inv := inv_of_run run
  constructor
  · intro alive value
    rcases inv.opened alive with ⟨state, _⟩ | state <;> simp [send, state]
  · intro alive waker
    obtain ⟨⟨old, tag⟩, found⟩ := (OrderedMap.mem_keys_iff _ _).mp (inv.present alive)
    cases state : c.state <;> cases tag <;> simp [poll, state, EventListener.poll, found]

/-- The sender goes away while the receiver waits: whichever way it goes, it wakes the waker
that the receiver has left. -/
private theorem woken_since {before later} {t : Transition (Oneshot W T) (Op W T) (Res T)}
    (run : machine.Run (before ++ t :: later) c) {p : Sleeper W} (tracks : t.after.event.Tracks p)
    (alive : t.after.sender = true) (leaves : ∀ u ∈ later, u.act.leaves = true) :
    c.event.Tracks p ∧ (c.sender = false → c.event.Woke p) := by
  refine run.since (P := fun us c => (∀ u ∈ us, u.act.leaves = true) →
    c.event.Tracks p ∧ (c.sender = false → c.event.Woke p)) ?_ ?_ leaves
  · exact fun _ _ _ => ⟨tracks, by simp [alive]⟩
  · intro us u _ earlier taken leaves
    simp only [List.mem_append, List.mem_singleton, or_imp, forall_and, forall_eq] at leaves
    obtain ⟨tracks, woke⟩ := earlier leaves.1
    cases parting : u.act.parts with
    | true =>
      obtain ⟨inner, from_event, dropped⟩ := (parts_of_step parting taken).event
      have kept : inner.Tracks p := by
        rcases from_event with rfl | rfl
        · exact tracks
        · exact tracks.notify _
      rw [dropped]
      exact ⟨kept.close.1, fun _ => kept.close.2⟩
    | false =>
      obtain ⟨event, _, sender, _⟩ := frame_of_step parting leaves.2 taken
      rw [event, sender]
      exact ⟨tracks, woke⟩

/-- A poll that returns `Pending` leaves a receiver that the sender will wake, exactly if
the channel is not dead when the poll is made. -/
theorem pending_is_served_iff {before} {t : Transition (Oneshot W T) (Op W T) (Res T)}
    (run : machine.Run (before ++ [t]) c) (polled : t.act = .poll waker) :
    (t.out = .polled .pending → c.sender = true ∧ (∀ u ∈ before, u.act ≠ .close) ∧
      c.Registered waker ∧ ∀ later s, machine.Run (before ++ t :: later) s →
        (∀ u ∈ later, u.act.leaves = true) → s.sender = false →
        waker ∈ s.event.woken.drop c.event.woken.length) ↔ ¬t.before.Dead := by
  obtain ⟨c₀, act, out, c'⟩ := t
  obtain ⟨prior, taken, rfl⟩ := run.of_append
  obtain rfl : act = .poll waker := polled
  have inv := inv_of_run prior
  simp only [machine, step] at taken
  split at taken
  next receiver =>
    split at taken
    · cases taken
    next result _ answered =>
      cases taken
      constructor
      · intro served dead
        cases poll_spec answered with
        | takes full => simp [Dead, full] at dead
        | ends ended => simp [Dead, ended] at dead
        | waits quiet asked =>
          -- a dead channel makes the poll wait, and the receiver is closed or the sender gone
          obtain ⟨sender, never, _⟩ := served rfl
          rcases dead with closed | ⟨_, gone⟩
          · obtain ⟨u, member, act⟩ := inv.closed receiver closed
            exact never u member act
          · exact Bool.false_ne_true (gone.symm.trans sender)
      · intro alive pending
        cases poll_spec answered with
        | takes | ends => cases pending
        | @waits _ event quiet asked =>
          -- the channel is empty and its sender alive, so that the listener is silent
          have empty : c₀.state = .empty := quiet.resolve_right fun closed => alive (.inl closed)
          have sender : c₀.sender = true := by
            by_contra gone
            exact alive (.inr ⟨empty, by simpa using gone⟩)
          obtain ⟨_, never⟩ : c₀.state = .empty ∧ ∀ u ∈ before, u.act ≠ .close :=
            (inv.opened sender).resolve_right (by simp [empty])
          obtain rfl : event = c₀.event.await c₀.listener waker :=
            inv.registers sender receiver asked
          have stored : (c₀.event.await c₀.listener waker).listeners.get? c₀.listener =
              some ⟨some waker, none⟩ := by simp [Inner.await]
          refine ⟨sender, never, ⟨_, stored, rfl⟩, fun later s continued leaves gone => ?_⟩
          exact (woken_since continued (p := ⟨c₀.listener, waker, c₀.event.woken.length⟩)
            ⟨le_refl _, _, stored, .inl ⟨rfl, rfl⟩⟩ sender leaves).2 gone
  · cases taken

end

/-- A closed receiver waits, and so does one whose value has been taken while the sender is
gone. Nothing can wake either of them. -/
theorem dead_receiver_waits :
    (∃ before t, ∃ c : Oneshot Nat Nat, machine.Run (before ++ [t]) c ∧
      before.map Transition.act = [.close] ∧ t.act = .poll 7 ∧ t.out = .polled .pending) ∧
    ∃ before t, ∃ c : Oneshot Nat Nat, machine.Run (before ++ [t]) c ∧
      before.map Transition.act = [.send 5, .tryRecv] ∧ t.act = .poll 7 ∧
      t.out = .polled .pending ∧ c.sender = false ∧ ¬c.Registered 7 := by
  constructor
  · obtain ⟨before, t, later, c, run, begins, act, rest, out⟩ := exists_run_at
      (m := machine (W := Nat) (T := Nat)) (P := fun _ t _ _ => t.out = .polled .pending)
      [.close] (.poll 7) [] rfl (by decide)
    exact ⟨before, t, _, run.upTo, begins, act, out⟩
  · obtain ⟨before, t, later, c, run, begins, act, rest, out, gone, unset⟩ := exists_run_at
      (m := machine (W := Nat) (T := Nat)) (P := fun _ t _ _ => t.out = .polled .pending ∧
        t.after.sender = false ∧
        (t.after.event.listeners.get? t.after.listener).bind ListenerEntry.waker = none)
      [.send 5, .tryRecv] (.poll 7) [] rfl (by decide)
    refine ⟨before, t, _, run.upTo, begins, act, out, gone, ?_⟩
    rintro ⟨entry, found, stored⟩
    simp [found, stored] at unset

/-- A receiver that waits is woken by `send`. -/
theorem receiver_woken : ∃ before t later, ∃ c : Oneshot Nat Nat,
    machine.Run (before ++ t :: later) c ∧ before.map Transition.act = [.tryRecv] ∧
    t.act = .poll 7 ∧ later.map Transition.act = [.send 5] ∧
    t.after.Registered 7 ∧ 7 ∈ c.event.woken.drop t.after.event.woken.length := by
  obtain ⟨before, t, later, c, run, begins, act, rest, out, empty, alive, leaves, gone⟩ :=
    exists_run_at (m := machine (W := Nat) (T := Nat))
      (P := fun _ t later c => t.out = .polled .pending ∧ t.before.state = .empty ∧
        t.before.sender = true ∧ (∀ u ∈ later, u.act.leaves = true) ∧ c.sender = false)
      [.tryRecv] (.poll 7) [.send 5] rfl (by decide)
  obtain ⟨_, _, registered, wakes⟩ := (pending_is_served_iff run.upTo act).mpr
    (by simp [Dead, empty, alive]) out
  exact ⟨before, t, later, c, run, begins, act, rest, registered, wakes later c run leaves gone⟩

end Eneste.Oneshot
