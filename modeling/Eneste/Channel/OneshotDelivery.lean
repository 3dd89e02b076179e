import Eneste.Channel.OneshotWait

/-!
# What a oneshot channel delivers

The value is in a cell, and a flag that both ends rewrite says whether it is there. Which
stage the delivery is in can be told from the flag once it is known whether the sender is
still there: a full channel has lost its sender, and never becomes full again.
-/

namespace Eneste.Oneshot

open Machine

variable {W T : Type}

/-- The value that a receive hands out. -/
def Res.handed : Res T → Option T
  | .received (.ok value) => value
  | .polled (.ready (.ok value)) => some value
  | _ => none

/-- The calls that receive. -/
def Op.receives : Op W T → Bool
  | .tryRecv | .poll _ => true
  | _ => false

/-- The calls that close the receiver. -/
def Op.closes : Op W T → Bool
  | .close | .dropReceiver => true
  | _ => false

theorem closes_eq_false (op : Op W T) :
    op.closes = false ↔ op ≠ .close ∧ op ≠ .dropReceiver := by
  cases op <;> simp [Op.closes]

theorem closes_of_receives {op : Op W T} (receives : op.receives = true) : op.closes = false := by
  cases op with
  | tryRecv | poll => rfl
  | send | dropSender | close | dropReceiver => cases receives

/-! ### What a call does, but for the event -/

inductive Stepped (c : Oneshot W T) : Op W T → Oneshot W T → Res T → Prop
  | sends {value event} (alive : c.sender = true) (empty : c.state = .empty) :
      Stepped c (.send value)
        { c with value := some value, state := .full, event := event, sender := false }
        (.sent (.ok ()))
  | refuses {value event} (alive : c.sender = true) (closed : c.state = .receiverClosed) :
      Stepped c (.send value) { c with event := event, sender := false }
        (.sent (.error .channelError))
  | abandons {event} (alive : c.sender = true) (empty : c.state = .empty) :
      Stepped c .dropSender
        { c with state := .senderClosed, event := event, sender := false } .done
  | leaves {event} (alive : c.sender = true) (written : c.state ≠ .empty) :
      Stepped c .dropSender { c with event := event, sender := false } .done
  | closes {op event receiver} (closing : op.closes = true) (empty : c.state = .empty) :
      Stepped c op
        { c with value := none, state := .receiverClosed, event := event, receiver := receiver }
        .done
  | ignores {op event receiver} (closing : op.closes = true) (written : c.state ≠ .empty) :
      Stepped c op { c with event := event, receiver := receiver } .done
  | takes {op r} (receiving : op.receives = true) (full : c.state = .full)
      (handed : r.handed = c.value) :
      Stepped c op { c with value := none, state := .empty } r
  | misses {op r event} (receiving : op.receives = true) (other : c.state ≠ .full)
      (nothing : r.handed = none) : Stepped c op { c with event := event } r

variable {c c' : Oneshot W T} {op : Op W T} {r : Res T}

theorem step_spec [Usize] (taken : c.step op = some (c', r)) : Stepped c op c' r := by
  obtain ⟨value, state, event, listener, sender, receiver⟩ := c
  cases op with
  | send sent =>
    cases sender with
    | false => cases taken
    | true =>
      cases state with
      -- `unreachable!`
      | senderClosed | full => cases taken
      | empty =>
        cases taken
        exact .sends rfl rfl
      | receiverClosed =>
        cases taken
        exact .refuses rfl rfl
  | dropSender =>
    cases sender with
    | false => cases taken
    | true =>
      cases taken
      cases state with
      | empty => exact .abandons rfl rfl
      | senderClosed | receiverClosed | full => exact .leaves rfl (by simp)
  | close | dropReceiver =>
    cases receiver with
    | false => cases taken
    | true =>
      cases taken
      cases state with
      | empty => exact .closes rfl rfl
      | senderClosed | receiverClosed | full => exact .ignores rfl (by simp)
  | tryRecv =>
    cases receiver with
    | false => cases taken
    | true =>
      cases taken
      cases state with
      | full => exact .takes rfl rfl rfl
      | senderClosed | receiverClosed | empty => exact .misses rfl (by simp) rfl
  | poll waker =>
    cases receiver with
    | false => cases taken
    | true =>
      simp only [step, ite_true] at taken
      split at taken
      · cases taken
      next result c' polled =>
        cases taken
        cases state with
        | full =>
          cases polled
          refine .takes rfl rfl ?_
          cases value <;> rfl
        | senderClosed =>
          cases polled
          exact .misses rfl (by simp) rfl
        | empty | receiverClosed =>
          cases poll_spec polled with
          | takes full => cases full
          | ends closed => cases closed
          | waits => exact .misses rfl (by simp) rfl

/-! ### The stages of a delivery -/

/-- The value sent by a call that succeeds. -/
def sentBy (t : Transition (Oneshot W T) (Op W T) (Res T)) : Option T :=
  match t.act, t.out with
  | .send value, .sent (.ok ()) => some value
  | _, _ => none

/-- The values sent. -/
def sent (ts : List (Transition (Oneshot W T) (Op W T) (Res T))) : List T := ts.filterMap sentBy

/-- The values that polls and `try_recv` have handed out. -/
def handed (ts : List (Transition (Oneshot W T) (Op W T) (Res T))) : List T :=
  ts.filterMap fun t => t.out.handed

theorem sent_snoc (ts : List (Transition (Oneshot W T) (Op W T) (Res T)))
    (t : Transition (Oneshot W T) (Op W T) (Res T)) :
    sent (ts ++ [t]) = sent ts ++ (sentBy t).toList := by
  rw [sent, List.filterMap_append, sent]
  cases same : sentBy t <;> simp [same]

theorem handed_snoc (ts : List (Transition (Oneshot W T) (Op W T) (Res T)))
    (t : Transition (Oneshot W T) (Op W T) (Res T)) :
    handed (ts ++ [t]) = handed ts ++ t.out.handed.toList := by
  rw [handed, List.filterMap_append, handed]
  cases same : t.out.handed <;> simp [same]

/-- What has been sent and handed out, by what the channel is in. -/
inductive Stage (c : Oneshot W T) : List T → List T → Prop
  | awaits (alive : c.sender = true)
      (unsent : c.state = .empty ∨ c.state = .receiverClosed) : Stage c [] []
  | holds {value} (gone : c.sender = false) (full : c.state = .full)
      (stored : c.value = some value) : Stage c [value] []
  | taken {value} (gone : c.sender = false)
      (quiet : c.state = .empty ∨ c.state = .receiverClosed) : Stage c [value] [value]
  | ended (gone : c.sender = false) (closed : c.state = .senderClosed ∨ c.state = .receiverClosed) :
      Stage c [] []

section

variable {s h : List T}

theorem Stage.unsent (stage : Stage c s h) (alive : c.sender = true) :
    s = [] ∧ h = [] ∧ (c.state = .empty ∨ c.state = .receiverClosed) := by
  cases stage with
  | awaits _ unsent => exact ⟨rfl, rfl, unsent⟩
  | holds gone | taken gone | ended gone =>
    rw [alive] at gone
    cases gone

/-- The event and the receiver do not matter. -/
private theorem Stage.keep (stage : Stage c s h) (sender : c'.sender = c.sender)
    (state : c'.state = c.state) (value : c'.value = c.value) : Stage c' s h := by
  cases stage with
  | awaits alive unsent => exact .awaits (sender.trans alive) (by rwa [state])
  | holds gone full stored =>
    exact .holds (sender.trans gone) (state.trans full) (value.trans stored)
  | taken gone quiet => exact .taken (sender.trans gone) (by rwa [state])
  | ended gone closed => exact .ended (sender.trans gone) (by rwa [state])

private theorem sentBy_eq_none (other : op.closes = true ∨ op.receives = true) :
    sentBy ⟨c, op, r, c'⟩ = none := by
  cases op with
  | send | dropSender => simp [Op.closes, Op.receives] at other
  | close | tryRecv | poll | dropReceiver => rfl

/-- Only a full channel hands out a value, and only an open one takes one. -/
theorem Stage.step (stage : Stage c s h) (stepped : Stepped c op c' r) :
    Stage c' (s ++ (sentBy ⟨c, op, r, c'⟩).toList) (h ++ r.handed.toList) := by
  cases stepped with
  | sends alive =>
    obtain ⟨rfl, rfl, _⟩ := stage.unsent alive
    exact .holds rfl rfl rfl
  | refuses alive closed =>
    obtain ⟨rfl, rfl, _⟩ := stage.unsent alive
    exact .ended rfl (.inr closed)
  | abandons alive =>
    obtain ⟨rfl, rfl, _⟩ := stage.unsent alive
    exact .ended rfl (.inl rfl)
  | leaves alive written =>
    obtain ⟨rfl, rfl, unsent⟩ := stage.unsent alive
    exact .ended rfl (.inr (unsent.resolve_left written))
  | closes closing empty =>
    rw [sentBy_eq_none (.inl closing)]
    simp only [Option.toList_none, List.append_nil, Res.handed]
    cases stage with
    | awaits alive => exact .awaits alive (.inr rfl)
    | taken gone => exact .taken gone (.inr rfl)
    | holds _ full => cases empty.symm.trans full
    | ended _ closed => rcases closed with closed | closed <;> cases empty.symm.trans closed
  | ignores closing =>
    rw [sentBy_eq_none (.inl closing)]
    simp only [Option.toList_none, List.append_nil, Res.handed]
    exact stage.keep rfl rfl rfl
  | takes receiving full handed =>
    rw [sentBy_eq_none (.inr receiving), handed]
    simp only [Option.toList_none, List.append_nil]
    cases stage with
    | holds gone _ stored =>
      rw [stored]
      exact .taken gone (.inl rfl)
    | awaits _ other | taken _ other | ended _ other =>
      rcases other with other | other <;> cases full.symm.trans other
  | misses receiving _ nothing =>
    rw [sentBy_eq_none (.inr receiving), nothing]
    simp only [Option.toList_none, List.append_nil]
    exact stage.keep rfl rfl rfl

end

/-- A sender that sends is gone afterwards, and was refused only by a closed receiver. -/
theorem Stepped.of_send {value : T} (stepped : Stepped c (.send value) c' r) :
    c.sender = true ∧ c'.sender = false ∧
      (r = .sent (.ok ()) ∧ c.state = .empty ∨
        r = .sent (.error .channelError) ∧ c.state = .receiverClosed) := by
  cases stepped with
  | sends alive empty => exact ⟨alive, rfl, .inl ⟨rfl, empty⟩⟩
  | refuses alive closed => exact ⟨alive, rfl, .inr ⟨rfl, closed⟩⟩
  | closes closing | ignores closing => cases closing
  | takes receiving | misses receiving => cases receiving

/-- The sender is gone and has left a value. -/
def Holds (c : Oneshot W T) (value : T) : Prop :=
  c.sender = false ∧ c.state = .full ∧ c.value = some value

theorem Holds.sent {value : T} (stepped : Stepped c (.send value) c' (.sent (.ok ()))) :
    c'.Holds value := by
  cases stepped with
  | sends => exact ⟨rfl, rfl, rfl⟩
  | takes receiving | misses receiving => cases receiving

theorem Holds.step {value : T} (holds : c.Holds value) (stepped : Stepped c op c' r)
    (quiet : op.receives = false) : c'.Holds value := by
  obtain ⟨gone, full, stored⟩ := holds
  cases stepped with
  | sends alive | refuses alive | abandons alive | leaves alive => cases gone.symm.trans alive
  | closes _ empty => cases full.symm.trans empty
  | ignores => exact ⟨gone, full, stored⟩
  | takes receiving | misses receiving => cases quiet.symm.trans receiving

/-- The sender does not come back. -/
theorem Stepped.no_sender (stepped : Stepped c op c' r) (gone : c.sender = false) :
    c'.sender = false ∧ sentBy ⟨c, op, r, c'⟩ = none := by
  cases stepped with
  | sends alive | refuses alive | abandons alive | leaves alive => cases gone.symm.trans alive
  | closes closing | ignores closing => exact ⟨gone, sentBy_eq_none (.inl closing)⟩
  | takes receiving | misses receiving => exact ⟨gone, sentBy_eq_none (.inr receiving)⟩

theorem Holds.receive {value : T} (holds : c.Holds value) (stepped : Stepped c op c' r)
    (receives : op.receives = true) : r.handed = some value := by
  obtain ⟨gone, full, stored⟩ := holds
  cases stepped with
  | sends alive | refuses alive | abandons alive | leaves alive => cases gone.symm.trans alive
  | closes closing | ignores closing => cases (closes_of_receives receives).symm.trans closing
  | takes _ _ handed => exact handed.trans stored
  | misses _ other => exact absurd full other

section

variable [Usize] {ts before later : List (Transition (Oneshot W T) (Op W T) (Res T))}
  {t : Transition (Oneshot W T) (Op W T) (Res T)}

theorem stage_of_run (run : machine.Run ts c) : Stage c (sent ts) (handed ts) := by
  refine run.history (P := fun ts c => Stage c (sent ts) (handed ts)) ?_
    fun ts c op c' r stage taken => ?_
  · rintro _ rfl
    exact .awaits rfl (.inl rfl)
  · rw [sent_snoc, handed_snoc]
    exact stage.step (step_spec taken)

/-- While the sender is alive, the channel is open exactly if the receiver has not closed it. -/
theorem empty_iff (run : machine.Run ts c) (alive : c.sender = true) :
    c.state = .empty ↔ ∀ u ∈ ts, u.act.closes = false := by
  induction run with
  | start initial =>
    obtain rfl := initial
    simp [channel]
  | @next ts c op c' r prior taken ih =>
    simp only [List.mem_append, List.mem_singleton, or_imp, forall_and, forall_eq]
    cases step_spec taken with
    | sends | refuses | abandons | leaves => cases alive
    | closes closing => simp [closing]
    | ignores closing written => simp [closing, written]
    | takes receiving full =>
      -- a full channel has lost its sender
      have unsent := ((stage_of_run prior).unsent alive).2.2
      simp [full] at unsent
    | misses receiving =>
      rw [ih alive, closes_of_receives receiving]
      simp

/-- `send` succeeds exactly if the receiver has been neither closed nor dropped. -/
theorem send_ok_iff (run : machine.Run (before ++ [t]) c) {value : T} (act : t.act = .send value) :
    t.out = .sent (.ok ()) ↔ ∀ u ∈ before, u.act.closes = false := by
  obtain ⟨prior, taken, _⟩ := run.of_append
  obtain ⟨alive, _, answer⟩ := (act ▸ step_spec taken).of_send
  rw [← empty_iff prior alive]
  rcases answer with ⟨sends, empty⟩ | ⟨fails, closed⟩
  · simp [sends, empty]
  · simp [fails, closed]

/-- What was sent stays until the next receive, which hands it out. -/
theorem next_receives (run : machine.Run (before ++ t :: later) c) {value : T}
    (act : t.act = .send value) (sends : t.out = .sent (.ok ())) {first rest}
    {u : Transition (Oneshot W T) (Op W T) (Res T)} (splits : later = first ++ u :: rest)
    (quiet : ∀ v ∈ first, v.act.receives = false) (receives : u.act.receives = true) :
    u.out.handed = some value := by
  subst splits
  rw [← List.cons_append, ← List.append_assoc] at run
  obtain ⟨prior, taken, _⟩ := run.upTo.of_append
  have held : u.before.Holds value := by
    refine prior.since (P := fun us c => (∀ v ∈ us, v.act.receives = false) → c.Holds value)
      ?_ ?_ quiet
    · intro _ taken _
      exact Holds.sent (by simpa only [act, sends] using step_spec taken)
    · intro us v _ ih taken quiet
      exact (ih fun w member => quiet w (List.mem_append_left _ member)).step (step_spec taken)
        (quiet v (by simp))
  exact held.receive (step_spec taken) receives

/-- After a `send` that failed nothing is handed out, nor was it before. -/
theorem nothing_after_error (run : machine.Run (before ++ t :: later) c) {value : T}
    (act : t.act = .send value) (fails : t.out = .sent (.error .channelError)) :
    handed (before ++ t :: later) = [] := by
  have unsent : c.sender = false ∧ sent (before ++ t :: later) = [] := by
    apply run.since (P := fun us c => c.sender = false ∧ sent (before ++ t :: us) = [])
    · intro prior taken
      obtain ⟨alive, gone, _⟩ := (act ▸ step_spec taken).of_send
      obtain ⟨none, _⟩ := (stage_of_run prior).unsent alive
      exact ⟨gone, by rw [sent_snoc, none, sentBy, act, fails]; rfl⟩
    · rintro us u _ ⟨gone, none⟩ taken
      obtain ⟨still, silent⟩ := (step_spec taken).no_sender gone
      refine ⟨still, ?_⟩
      rw [← List.cons_append, ← List.append_assoc, sent_snoc, none, silent]
      rfl
  have stage := stage_of_run run
  rw [unsent.2] at stage
  generalize handed (before ++ t :: later) = values at stage
  cases stage <;> rfl

/-- The value sent is handed out at most once, and nothing else is. Sending succeeds exactly
if the receiver has not been closed before; then the next receive hands the value out, and
otherwise nothing ever is. -/
theorem delivers_once (run : machine.Run ts c) :
    (handed ts = [] ∨ ∃ value, handed ts = [value] ∧ sent ts = [value]) ∧
    (c.sender = true → ∀ value, c.send value ≠ none) ∧
    ∀ before (t : Transition (Oneshot W T) (Op W T) (Res T)) later value,
      ts = before ++ t :: later → t.act = .send value →
      (t.out = .sent (.ok ()) ∨ t.out = .sent (.error .channelError)) ∧
      (t.out = .sent (.ok ()) ↔ ∀ u ∈ before, u.act ≠ .close ∧ u.act ≠ .dropReceiver) ∧
      (t.out = .sent (.ok ()) → ∀ first u rest, later = first ++ u :: rest →
        (∀ v ∈ first, v.act.receives = false) → u.act.receives = true →
        u.out.handed = some value) ∧
      (t.out = .sent (.error .channelError) → handed ts = []) := by
  refine ⟨?_, (never_panics run).1, ?_⟩
  · have stage := stage_of_run run
    generalize handed ts = values at stage ⊢
    generalize sent ts = origin at stage ⊢
    cases stage with
    | taken => exact .inr ⟨_, rfl, rfl⟩
    | awaits | holds | ended => exact .inl rfl
  · rintro before t later value rfl act
    refine ⟨?_, ?_, fun sends first u rest splits quiet receives =>
      next_receives run act sends splits quiet receives,
      fun fails => nothing_after_error run act fails⟩
    · obtain ⟨_, taken, _⟩ := run.upTo.of_append
      obtain ⟨_, _, answer⟩ := (act ▸ step_spec taken).of_send
      exact answer.imp And.left And.left
    · rw [send_ok_iff run.upTo act]
      exact forall₂_congr fun u _ => closes_eq_false u.act

end

/-- The receiver is closed between `send` and `try_recv`, and gets the value nevertheless. -/
theorem delivered_after_close : ∃ ts, ∃ c : Oneshot Nat Nat, machine.Run ts c ∧
    ts.map Transition.act = [.poll 7, .send 5, .close, .tryRecv, .poll 7] ∧
    handed ts = [5] ∧ sent ts = [5] := by
  obtain ⟨ts, c, run, acts, some⟩ := exists_run (m := machine (W := Nat) (T := Nat))
    (P := fun ts _ => handed ts = [5])
    [.poll 7, .send 5, .close, .tryRecv, .poll 7] rfl (by decide)
  rcases (delivers_once run).1 with none | ⟨value, out, origin⟩
  · rw [some] at none
    cases none
  · exact ⟨ts, c, run, acts, some, origin.trans (out.symm.trans some)⟩

end Eneste.Oneshot
