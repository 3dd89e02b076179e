import Eneste.Channel.Invariant

/-!
# The channel is a bounded queue

Along a run, what the receiver has taken followed by what is queued is what has
been accepted, in order. `Fate` follows one `Send` future: it is created with a
value, and either that value is accepted, or the future is abandoned.
-/

namespace Eneste.Mpsc

open Machine

variable {W T : Type}

/-- The values a call gets accepted: `try_send` or a `Send` future returned `Ok`. -/
def accepted (t : Transition (Channel W T) (Op W T) (Res T)) : List T :=
  match t.act, t.out with
  | .trySend value, .tried (.ok ()) => [value]
  | .pollSend k _, .sent (.ready (.ok ())) => ((t.before.sends.get? k).bind Future.own).toList
  | _, _ => []

/-- The values the receiver yields. -/
def yielded (t : Transition (Channel W T) (Op W T) (Res T)) : List T :=
  match t.out with
  | .next (.ready (some value)) => [value]
  | _ => []

/-- The value the `Send` future `k` is created with. -/
def given (k : Nat) (t : Transition (Channel W T) (Op W T) (Res T)) : List T :=
  match t.act, t.out with
  | .send value, .created j => if j = k then [value] else []
  | _, _ => []

/-- The values that polling the `Send` future `k` gets accepted. -/
def contributed (k : Nat) (t : Transition (Channel W T) (Op W T) (Res T)) : List T :=
  match t.act with
  | .pollSend j _ => if j = k then accepted t else []
  | _ => []

/-- The `Send` future `k` is dropped, or completes with an error. -/
def abandons (k : Nat) (t : Transition (Channel W T) (Op W T) (Res T)) : Bool :=
  match t.act, t.out with
  | .dropSend j, _ => j == k
  | .pollSend j _, .sent (.ready (.error _)) => j == k
  | _, _ => false

section

variable [Usize] {cap : Nat} {c c' : Channel W T} {op : Op W T} {r : Res T}

/-! ### The queue -/

/-- The channel's queue, while there is a receiver. -/
def Channel.queue? (c : Channel W T) : Option (List T) := c.core.shared.map State.queue

/-- A call takes values off the front and puts accepted ones on the back. -/
theorem queue_step (inv : c.Inv cap) (taken : c.step op = some (c', r)) :
    ∀ queue', c'.queue? = some queue' → ∃ queue, c.queue? = some queue ∧
      yielded ⟨c, op, r, c'⟩ ++ queue' = queue ++ accepted ⟨c, op, r, c'⟩ := by
  intro queue' live'
  cases Channel.step_spec inv taken with
  | @pushes value state _ live room =>
    simp only [Channel.queue?, Core.pushBack_shared, Option.map_some,
      Option.some.injEq] at live'
    exact ⟨state.queue, by simp [Channel.queue?, live], by simp [yielded, accepted, live']⟩
  | declines | creates | leaves | leavesParked =>
    exact ⟨queue', live', by simp [yielded, accepted]⟩
  | sends live polled =>
    cases polled with
    | asleep => exact ⟨queue', live', by simp [yielded, accepted]⟩
    | refused => exact ⟨queue', live', by simp [yielded, accepted]⟩
    | parks => exact ⟨queue', live', by simp [yielded, accepted]⟩
    | @accepted state value runnable opened room holds =>
      simp only [Channel.queue?, Core.pushBack_shared, Option.map_some,
        Option.some.injEq] at live'
      exact ⟨state.queue, by simp [Channel.queue?, opened],
        by simp [yielded, accepted, live, holds, live']⟩
  | clones =>
    obtain ⟨later, opened, rfl⟩ := Option.map_eq_some_iff.mp live'
    obtain ⟨senders, live⟩ := cloneSender_shared opened
    exact ⟨later.queue, by simp [Channel.queue?, live], by simp [yielded, accepted]⟩
  | parts =>
    obtain ⟨later, opened, rfl⟩ := Option.map_eq_some_iff.mp live'
    obtain ⟨senders, live⟩ := dropSender_shared opened
    exact ⟨later.queue, by simp [Channel.queue?, live], by simp [yielded, accepted]⟩
  | @receives waker state _ _ live polled =>
    cases polled with
    | asleep => exact ⟨queue', live', by simp [yielded, accepted]⟩
    | ended => exact ⟨queue', live', by simp [yielded, accepted]⟩
    | parks => exact ⟨queue', live', by simp [yielded, accepted]⟩
    | took runnable first =>
      simp only [Channel.queue?, Option.map_some, Option.some.injEq] at live'
      exact ⟨state.queue, by simp [Channel.queue?, live],
        by simp [yielded, accepted, first, live']⟩
  | closes => simp [Channel.queue?, Mpsc.dropReceiver] at live'

/-! ### The fate of a `Send` future -/

/-- What one call means for the `Send` future `k`. -/
inductive Fate (k : Nat) (t : Transition (Channel W T) (Op W T) (Res T)) : Prop
  | untouched (given : given k t = []) (contributed : contributed k t = [])
      (abandons : abandons k t = false)
      (same : (t.after.sends.get? k).map Future.own = (t.before.sends.get? k).map Future.own)
      (later : t.before.created ≤ t.after.created)
  | created (value : T) (given : given k t = [value]) (contributed : contributed k t = [])
      (abandons : abandons k t = false) (fresh : k = t.before.created)
      (held : (t.after.sends.get? k).map Future.own = some (some value))
      (later : t.after.created = k + 1)
  | delivered (value : T) (given : given k t = []) (contributed : contributed k t = [value])
      (abandons : abandons k t = false)
      (held : (t.before.sends.get? k).map Future.own = some (some value))
      (gone : t.after.sends.get? k = none) (same : t.after.created = t.before.created)
  | abandoned (own : Option T) (given : given k t = []) (contributed : contributed k t = [])
      (abandons : abandons k t = true)
      (held : (t.before.sends.get? k).map Future.own = some own)
      (gone : t.after.sends.get? k = none) (same : t.after.created = t.before.created)

omit [Usize] in
/-- Calls that are made on no `Send` future. -/
private theorem Fate.elsewhere {k : Nat} {t : Transition (Channel W T) (Op W T) (Res T)}
    (poll : ∀ j waker, t.act ≠ .pollSend j waker) (drop : ∀ j, t.act ≠ .dropSend j)
    (send : ∀ value, t.act ≠ .send value) (sends : t.after.sends = t.before.sends)
    (created : t.after.created = t.before.created) : Fate k t := by
  obtain ⟨c, op, r, c'⟩ := t
  refine .untouched ?_ ?_ ?_ (by rw [sends]) created.ge
  · cases op <;> simp_all [given]
  · cases op <;> simp_all [contributed]
  · cases op <;> simp_all [abandons]

theorem fate_of_step (inv : c.Inv cap) (taken : c.step op = some (c', r)) (k : Nat) :
    Fate k ⟨c, op, r, c'⟩ := by
  cases Channel.step_spec inv taken with
  | pushes | declines | clones | parts | closes =>
    exact .elsewhere (by simp) (by simp) (by simp) rfl rfl
  | @creates value =>
    -- the name is new, so the call creates `k` or concerns another future
    by_cases this : k = c.created
    · exact .created value (by simp [given, this]) rfl rfl this (by simp [this]) (by simp [this])
    · refine .untouched ?_ rfl rfl ?_ (Nat.le_succ _)
      · simp [given, Ne.symm this]
      · simp [OrderedMap.get?_insert_of_ne _ _ this]
  | @sends j waker send _ _ live polled =>
    by_cases this : j = k
    · subst this
      cases polled with
      | asleep parked silent =>
        exact .untouched rfl (by simp [contributed, accepted]) rfl (by simp [live]) (le_refl _)
      | parks runnable opened full =>
        exact .untouched rfl (by simp [contributed, accepted]) rfl (by simp [live]) (le_refl _)
      | refused runnable gone =>
        exact .abandoned send.own rfl (by simp [contributed, accepted]) (by simp [abandons])
          (by simp [live]) (by simp) rfl
      | @accepted state value runnable opened room holds =>
        exact .delivered value rfl (by simp [contributed, accepted, live, holds]) rfl
          (by simp [live, holds]) (by simp) rfl
    · have other : k ≠ j := Ne.symm this
      -- a poll of `j` says nothing about `k`, whatever its outcome
      have silent : contributed k ⟨c, .pollSend j waker, r, c'⟩ = [] := by simp [contributed, this]
      have kept : abandons k ⟨c, .pollSend j waker, r, c'⟩ = false := by
        unfold abandons
        split <;> simp_all
      cases polled with
      | asleep =>
        exact .untouched rfl silent kept (by simp [OrderedMap.get?_insert_of_ne _ _ other])
          (le_refl _)
      | parks =>
        exact .untouched rfl silent kept (by simp [OrderedMap.get?_insert_of_ne _ _ other])
          (le_refl _)
      | refused =>
        exact .untouched rfl silent kept (by simp [OrderedMap.get?_erase_of_ne _ other])
          (le_refl _)
      | accepted =>
        exact .untouched rfl silent kept (by simp [OrderedMap.get?_erase_of_ne _ other])
          (le_refl _)
  | @leaves j send live | @leavesParked j send _ live =>
    by_cases this : j = k
    · subst this
      exact .abandoned send.own rfl rfl (by simp [abandons]) (by simp [live]) (by simp) rfl
    · exact .untouched rfl rfl (by simp [abandons, this])
        (by simp [OrderedMap.get?_erase_of_ne _ (Ne.symm this)]) (le_refl _)
  | receives live polled => cases polled <;> exact .elsewhere (by simp) (by simp) (by simp) rfl rfl

/-- The books on the `Send` future `k` after a run. -/
structure Ledger (k : Nat) (ts : List (Transition (Channel W T) (Op W T) (Res T)))
    (c : Channel W T) : Prop where
  fresh : c.created ≤ k → ts.flatMap (given k) = [] ∧ ts.any (abandons k) = false
  once : (ts.flatMap (given k)).length ≤ 1
  held : ∀ own, (c.sends.get? k).map Future.own = some own → ts.flatMap (given k) = own.toList ∧
    ts.flatMap (contributed k) = [] ∧ ts.any (abandons k) = false
  kept : ts.flatMap (contributed k) = [] ∨ ts.flatMap (contributed k) = ts.flatMap (given k)
  lost : ts.any (abandons k) = true → ts.flatMap (contributed k) = []

omit [Usize] in
/-- One call keeps the books, by cases on what it means for `k`. -/
theorem Ledger.step {k : Nat} {ts} {t : Transition (Channel W T) (Op W T) (Res T)}
    (ledger : Ledger k ts t.before)
    (named : ∀ send, t.before.sends.get? k = some send → k < t.before.created)
    (fate : Fate k t) : Ledger k (ts ++ [t]) t.after := by
  have present : ∀ own, (t.before.sends.get? k).map Future.own = some own →
      k < t.before.created := by
    intro own held
    obtain ⟨send, live, _⟩ := Option.map_eq_some_iff.mp held
    exact named send live
  cases fate with
  | untouched given contributed abandons same later =>
    constructor
    · intro old
      simpa [given, abandons] using ledger.fresh (by omega)
    · simpa [given] using ledger.once
    · intro own held
      simpa [given, contributed, abandons] using ledger.held own (same ▸ held)
    · simpa [given, contributed] using ledger.kept
    · simpa [contributed, abandons] using ledger.lost
  | created value given contributed abandons fresh held later =>
    obtain ⟨none_given, none_abandoned⟩ := ledger.fresh fresh.ge
    -- nothing was given before, so nothing was contributed either
    have none_contributed : ts.flatMap (Mpsc.contributed k) = [] := by
      simpa [none_given] using ledger.kept
    constructor
    · intro old
      omega
    · simp [none_given, given]
    · intro own now
      cases held.symm.trans now
      simp [none_given, given, none_contributed, contributed, none_abandoned, abandons]
    · simp [none_contributed, contributed]
    · simp [none_contributed, contributed]
  | delivered value given contributed abandons held gone same =>
    -- the future held the value it was given, and this is the first time it goes in
    obtain ⟨was_given, none_contributed, none_abandoned⟩ := ledger.held _ held
    constructor
    · intro old
      have := present _ held
      omega
    · simpa [given] using ledger.once
    · intro own now
      simp [gone] at now
    · simp [was_given, given, none_contributed, contributed]
    · simp [none_abandoned, abandons]
  | abandoned own given contributed abandons held gone same =>
    obtain ⟨was_given, none_contributed, none_abandoned⟩ := ledger.held _ held
    constructor
    · intro old
      have := present _ held
      omega
    · simpa [given] using ledger.once
    · intro own now
      simp [gone] at now
    · simp [none_contributed, contributed]
    · simp [none_contributed, contributed]

theorem ledger_of_run {ts} (run : (machine cap).Run ts c) (k : Nat) : Ledger k ts c := by
  have kept : c.Inv cap ∧ Ledger k ts c := by
    apply run.history (P := fun ts c => c.Inv cap ∧ Ledger k ts c)
    · rintro _ rfl
      refine ⟨Channel.Inv.new, ?_⟩
      constructor <;> simp [channel]
    · rintro ts c op c' r ⟨inv, ledger⟩ taken
      have fate := fate_of_step inv taken k
      exact ⟨inv.step taken, ledger.step (fun send => inv.sending.named k send) fate⟩
  exact kept.2

/-! ### The queue along a run -/

theorem queue_of_run {ts} (run : (machine cap).Run ts c) (queue : List T)
    (live : c.queue? = some queue) : ts.flatMap yielded ++ queue = ts.flatMap accepted := by
  have kept : c.Inv cap ∧ ∀ queue, c.queue? = some queue →
      ts.flatMap yielded ++ queue = ts.flatMap accepted := by
    refine run.history (P := fun ts c => c.Inv cap ∧ ∀ queue, c.queue? = some queue →
      ts.flatMap yielded ++ queue = ts.flatMap accepted) ?_ ?_
    · rintro _ rfl
      exact ⟨Channel.Inv.new, by rintro _ ⟨⟩; rfl⟩
    · rintro ts c op c' r ⟨inv, balanced⟩ taken
      refine ⟨inv.step taken, fun queue' live' => ?_⟩
      -- induction on the run: one call moves the same values in and out of both sides
      obtain ⟨queue, live, moved⟩ := queue_step inv taken queue' live'
      simp only [List.flatMap_append, List.flatMap_cons, List.flatMap_nil, List.append_nil]
      calc ts.flatMap yielded ++ yielded ⟨c, op, r, c'⟩ ++ queue'
        _ = ts.flatMap yielded ++ (queue ++ accepted ⟨c, op, r, c'⟩) := by
          rw [List.append_assoc, moved]
        _ = ts.flatMap accepted ++ accepted ⟨c, op, r, c'⟩ := by
          rw [← List.append_assoc, balanced queue live]
  exact kept.2 queue live

/-- The channel is a bounded queue: what is yielded and what is queued is what was
accepted, a refused `try_send` changes nothing, and a `Send` future contributes at
most the value it was made with, and nothing if it is dropped or fails. -/
theorem bounded_fifo {ts} (run : (machine cap).Run ts c) :
    (∀ queue, c.queue? = some queue → queue.length ≤ cap ∧
      ts.flatMap yielded ++ queue = ts.flatMap accepted) ∧
    (∀ t ∈ ts, ∀ value returned, t.act = .trySend value → t.out = .tried (.error returned) →
      returned = value ∧ t.after = t.before) ∧
    ∀ k, (ts.flatMap (given k)).length ≤ 1 ∧
      (ts.flatMap (contributed k) = [] ∨ ts.flatMap (contributed k) = ts.flatMap (given k)) ∧
      (ts.any (abandons k) = true → ts.flatMap (contributed k) = []) := by
  refine ⟨fun queue live => ?_, fun t member value returned act out => ?_, fun k => ?_⟩
  · refine ⟨?_, queue_of_run run queue live⟩
    obtain ⟨state, opened, rfl⟩ := Option.map_eq_some_iff.mp live
    exact ((Channel.inv_of_run run).reading.fits state opened).bounded
  · -- the recorded transition is a step out of a state that keeps the invariant
    obtain ⟨before, _, _, after⟩ := t
    simp only at act out
    subst act out
    obtain ⟨⟨_, prior⟩, taken⟩ := run.step_of_mem member
    have stepped : before.Stepped (.trySend value) after (.tried (.error returned)) :=
      Channel.step_spec (Channel.inv_of_run prior) taken
    cases stepped with
    | declines => exact ⟨rfl, rfl⟩
  · -- what happened to one future is in its books
    have ledger := ledger_of_run run k
    exact ⟨ledger.once, ledger.kept, ledger.lost⟩

end

/-- A pending future is dropped: only the other value comes through. -/
theorem bounded_fifo_cancelled : ∃ ts, ∃ c : Channel Nat Nat, (machine 1).Run ts c ∧
    ts.map Transition.act =
      [.send 1, .send 2, .pollSend 0 0, .pollSend 1 1, .dropSend 1, .pollNext 9] ∧
    ts.flatMap accepted = [1] ∧ ts.flatMap (contributed 1) = [] := by
  obtain ⟨ts, c, run, acts, drained, taken, dropped⟩ := Machine.exists_run
    (m := machine (W := Nat) (T := Nat) 1)
    (P := fun ts c => c.queue? = some [] ∧ ts.flatMap yielded = [1] ∧
      ts.any (abandons 1) = true)
    [.send 1, .send 2, .pollSend 0 0, .pollSend 1 1, .dropSend 1, .pollNext 9] rfl (by decide)
  have balanced := ((bounded_fifo run).1 [] drained).2
  exact ⟨ts, c, run, acts, by rw [← balanced, taken]; rfl,
    ((bounded_fifo run).2.2 1).2.2 dropped⟩

end Eneste.Mpsc
