import Eneste.Executor.Calls

/-!
# Tokens

Whoever sets `QUEUED` owes the task one entry: a scheduler that has yet to push it,
the entry in the inbox or in a drained batch. `Balanced` counts them, together with
the entries that an unwinding `process_tasks` has dropped.
-/

namespace Eneste

/-- A scheduler that won `fetch_or` for the task and has not pushed it yet. -/
def Call.pushes (id : Nat) (call : Call) : Bool := call.id == id && call.pc == .push

/-- The tokens of the task in one frame: a scheduler, or the entries of a batch that
have not been run. -/
def Frame.tokens (id : Nat) : Frame → Nat
  | .schedule call => [call].countP (Call.pushes id)
  | .process _ batch => batch.count id
  | _ => 0

def Call.notifies (call : Call) : Bool := call.pc == .notify

def Frame.notifying : Frame → Nat
  | .schedule call => [call].countP Call.notifies
  | _ => 0

namespace Executor

open Header

/-- Entries in the inbox, entries in drained batches, and schedulers on any thread. -/
def tokens (e : Executor) (id : Nat) : Nat :=
  e.inbox.count id + (e.stack.map (Frame.tokens id)).sum + e.threads.countP (Call.pushes id)

/-- What `QUEUED` owes: one if it is set, and zero otherwise. -/
def owed (e : Executor) (id : Nat) : Nat := (e.isQueued id).toNat

/-- An unfinished task has one token if it is queued and none otherwise. -/
def Balanced (e : Executor) : Prop := e.closed = false → ∀ id, e.finished id = false →
  e.tokens id + e.lost.count id = e.owed id

/-! ### One operation of `schedule` -/

theorem countP_eraseIdx (p : Call → Bool) {threads : List Call} {index : Nat} {call : Call}
    (found : threads[index]? = some call) :
    (threads.eraseIdx index).countP p + [call].countP p = threads.countP p := by
  obtain ⟨bound, rfl⟩ := List.getElem?_eq_some_iff.mp found
  rw [Nat.add_comm, ← List.countP_append]
  exact (List.getElem_cons_eraseIdx_perm bound).countP_eq p

/-- A call moves its token, or wins or loses the flag. -/
theorem Scheduled.tokens {e e' : Executor} {call : Call} {next : Option Call}
    (done : Scheduled e call e' next) (id : Nat) :
    e'.inbox.count id + next.toList.countP (Call.pushes id) + e.owed id =
      e.inbox.count id + [call].countP (Call.pushes id) + e'.owed id := by
  cases done with
  | finished here => simp [Call.pushes, here, logCall]; rfl
  | loaded here => simp [Call.pushes, here]
  | closed here => simp [Call.pushes, here, logCall]; rfl
  | opened here => simp [Call.pushes, here]
  | already here set =>
    -- setting a flag that is set owes nothing new
    have same : ((e.enqueue call.id).logCall call).owed id = e.owed id := by
      have kept : ((e.enqueue call.id).logCall call).isQueued id =
          (e.enqueue call.id).isQueued id := rfl
      unfold owed
      rw [kept, isQueued_enqueue]
      split
      next own => simp [own, set]
      · rfl
    rw [same]
    simp [Call.pushes, here, enqueue, logCall]
  | won here clear =>
    -- winning the flag and being about to push go together
    simp only [owed, isQueued_enqueue]
    by_cases own : id = call.id
    · simp [Call.pushes, here, own, clear, enqueue]
    · simp [Call.pushes, here, own, Ne.symm own, enqueue]
  | pushed here => by_cases own : call.id = id <;> simp [Call.pushes, here, own] <;> rfl
  | notified here => simp [Call.pushes, here, logCall]; rfl

/-! ### Every step keeps the balance -/

/-- The balance, and that nothing is queued under an id not yet given out. -/
structure TokenInv (e : Executor) : Prop where
  balanced : Balanced e
  fresh : ∀ id, e.nextId ≤ id → e.tokens id + e.lost.count id = 0

/-- A step after which unfinished tasks have and owe what they had and owed before. -/
private theorem TokenInv.of_fewer {e e' : Executor} (inv : TokenInv e)
    (closed : e'.closed = false → e.closed = false) (nextId : e'.nextId = e.nextId)
    (finished : ∀ id, e'.finished id = false → e.finished id = false)
    (owed : ∀ id, e'.finished id = false → e'.owed id = e.owed id)
    (tokens : ∀ id, e'.closed = false → e'.finished id = false →
      e'.tokens id + e'.lost.count id = e.tokens id + e.lost.count id)
    (fewer : ∀ id, e'.tokens id + e'.lost.count id ≤ e.tokens id + e.lost.count id) :
    TokenInv e' where
  balanced alive id unfinished := by
    rw [tokens id alive unfinished, owed id unfinished]
    exact inv.balanced (closed alive) id (finished id unfinished)
  fresh id unused := Nat.le_zero.mp ((fewer id).trans (inv.fresh id (nextId ▸ unused)).le)

/-- A step that moves tokens about. -/
private theorem TokenInv.of_same {e e' : Executor} (inv : TokenInv e)
    (closed : e'.closed = false → e.closed = false) (nextId : e'.nextId = e.nextId)
    (finished : ∀ id, e'.finished id = false → e.finished id = false)
    (owed : ∀ id, e'.finished id = false → e'.owed id = e.owed id)
    (tokens : ∀ id, e'.tokens id + e'.lost.count id = e.tokens id + e.lost.count id) :
    TokenInv e' :=
  inv.of_fewer closed nextId finished owed (fun id _ _ => tokens id) fun id => (tokens id).le

/-- Taking an entry off the batch clears the flag that owes it. -/
private theorem TokenInv.dequeue {e : Executor} (inv : TokenInv e) {id : Nat} {batch : List Nat}
    {rest : List Frame} (top : e.stack = .process true (id :: batch) :: rest) :
    TokenInv (e.dequeue id batch rest) where
  balanced alive j unfinished := by
    rw [finished_dequeue] at unfinished
    have before := inv.balanced alive j unfinished
    have bit := Bool.toNat_le (e.isQueued id)
    simp only [owed, isQueued_dequeue]
    simp only [tokens, top, List.map_cons, List.sum_cons, Frame.tokens, owed] at before
    simp only [tokens, Executor.dequeue, List.map_cons, List.sum_cons, Frame.tokens]
    -- one entry less and the flag cleared: both sides lose one, as no task is owed two
    by_cases own : j = id
    · subst own
      simp only [List.count_cons_self] at before
      simp only [ite_true, Bool.toNat_false]
      omega
    · rw [List.count_cons_of_ne (Ne.symm own)] at before
      simpa only [own, ite_false] using before
  fresh j unused := by
    have before := inv.fresh j unused
    simp only [tokens, top, List.map_cons, List.sum_cons, Frame.tokens] at before
    simp only [tokens, Executor.dequeue, List.map_cons, List.sum_cons, Frame.tokens]
    have shorter := (List.sublist_cons_self id batch).count_le j
    omega

/-- A canceled task owes nothing any more. -/
private theorem TokenInv.cancelHandle {e : Executor} (inv : TokenInv e) (id : Nat) :
    TokenInv (e.cancelHandle id) := by
  refine inv.of_same (fun alive => alive) rfl (fun j unfinished => ?_) (fun j _ => ?_)
    fun _ => rfl
  · rw [finished_cancelHandle] at unfinished
    split at unfinished
    · cases unfinished
    · exact unfinished
  · simp only [owed, isQueued_cancelHandle]

/-- One operation of `schedule`, wherever the call runs. -/
private theorem TokenInv.scheduled {e e' : Executor} {call : Call} {next : Option Call}
    (inv : TokenInv e) (done : Scheduled e call e' next) (known : call.id < e.nextId)
    (stack : List Frame) (threads : List Call)
    (moved : ∀ id, (stack.map (Frame.tokens id)).sum + threads.countP (Call.pushes id) +
        [call].countP (Call.pushes id) =
      (e.stack.map (Frame.tokens id)).sum + e.threads.countP (Call.pushes id) +
        next.toList.countP (Call.pushes id)) :
    TokenInv { e' with stack := stack, threads := threads } where
  balanced alive id unfinished := by
    have same := done.untouched
    have before := inv.balanced (same.closed ▸ alive) id
      ((same.finished id).symm.trans unfinished)
    have step := done.tokens id
    have rearranged := moved id
    have kept : ({ e' with stack := stack, threads := threads } : Executor).owed id = e'.owed id :=
      rfl
    rw [kept]
    simp only [tokens, same.lost] at before ⊢
    omega
  fresh id unused := by
    have same := done.untouched
    have old : e.nextId ≤ id := same.nextId ▸ unused
    have before := inv.fresh id old
    have step := done.tokens id
    have rearranged := moved id
    -- an id not given out yet is nobody's call, so its flag does not change
    have clear : e.owed id = e'.owed id := by
      cases done with
      | won here clear =>
        have other : id ≠ call.id := by omega
        simp only [owed, isQueued_enqueue, other, ite_false]
      | already here set =>
        have other : id ≠ call.id := by omega
        have kept : ((e.enqueue call.id).logCall call).isQueued id =
            (e.enqueue call.id).isQueued id := rfl
        simp only [owed, kept, isQueued_enqueue, other, ite_false]
      | _ => rfl
    simp only [tokens, same.lost] at before ⊢
    omega

/-- A new task has no token: its id was not given out before. -/
private theorem TokenInv.spawn {e : Executor} (inv : TokenInv e) : TokenInv e.spawn where
  balanced alive id unfinished := by
    have same : e.spawn.tokens id = e.tokens id := by
      simp [tokens, Executor.spawn, Frame.tokens, Call.pushes]
    rw [same]
    by_cases own : id = e.nextId
    · -- the header is new and its flags are zero
      have none := inv.fresh id (by omega)
      have clear : e.spawn.owed id = 0 := by simp [owed, isQueued, Executor.spawn, own]
      rw [clear]
      exact none
    · have kept : e.spawn.headers id = e.headers id := Function.update_of_ne own _ _
      have before := inv.balanced alive id (by simpa only [finished, kept] using unfinished)
      simp only [owed, isQueued, kept] at before ⊢
      exact before
  fresh id unused := by
    have old : e.nextId ≤ id := Nat.le_of_succ_le unused
    simpa [tokens, Executor.spawn, Frame.tokens, Call.pushes] using inv.fresh id old

theorem TokenInv.moves {e e' : Executor} {act : Act} {ev : Event} (inv : TokenInv e)
    (nested : Nested e.closed e.executors e.stack) (started : Started e)
    (moved : Moves e act e' ev) : TokenInv e' := by
  cases moved with
  | wakeThread | wake =>
    refine inv.of_same id rfl (fun _ => id) (fun _ _ => rfl) fun j => ?_
    simp [tokens, Frame.tokens, Call.pushes]
  | @stepThread index call found =>
    have done := Executor.scheduled e call
    have known := (started.running call (Or.inl (List.mem_of_getElem? found))).1
    apply inv.scheduled done known
    intro j
    have count := countP_eraseIdx (Call.pushes j) found
    rw [done.untouched.stack, List.countP_append]
    omega
  | spawn => exact inv.spawn.of_same id rfl (fun _ => id) (fun _ _ => rfl) fun _ => rfl
  | dropFinished | dropPolled =>
    exact (inv.cancelHandle _).of_same id rfl (fun _ => id) (fun _ _ => rfl) fun _ => rfl
  | dropPending =>
    refine (inv.cancelHandle _).of_same id rfl (fun _ => id) (fun _ _ => rfl) fun j => ?_
    simp [tokens, dropFuture, Frame.tokens]
  | detach | cloneExecutor =>
    exact inv.of_same id rfl (fun _ => id) (fun _ _ => rfl) fun _ => rfl
  | @processTasks count =>
    refine inv.of_same id rfl (fun _ => id) (fun _ _ => rfl) fun j => ?_
    -- entries move from the inbox to the batch
    have split := congrArg (List.count j)
      (List.take_append_drop (min count e.inbox.length) e.inbox)
    rw [List.count_append] at split
    simp only [tokens, List.map_cons, List.sum_cons, Frame.tokens]
    omega
  | blockOn =>
    refine TokenInv.spawn (inv.of_same id rfl (fun _ => id) (fun _ _ => rfl) fun j => ?_)
    simp [tokens, Frame.tokens]
  | dropExecutor =>
    refine inv.of_same id rfl (fun _ => id) (fun _ _ => rfl) fun j => ?_
    simp only [tokens, sum_release (Frame.tokens j) rfl]
    rfl
  | dropHandleReturn top =>
    refine inv.of_same id rfl (fun _ => id) (fun _ _ => rfl) fun j => ?_
    simp only [tokens, sum_release (Frame.tokens j) rfl]
    simp [top, Frame.tokens, release]
  | dropReturn top | processed top | check top | blockedOn top | deadlock top | hasTasks top
  | drain top | canceledAll top | shutDown top =>
    refine inv.of_same id rfl (fun _ => id) (fun _ _ => rfl) fun j => ?_
    simp [tokens, top, Frame.tokens]
  | pollPending top | pollCanceled top | pollPanic top | dropSlot top =>
    refine inv.of_same (fun alive => alive) rfl (fun _ => id) (fun _ _ => rfl) fun j => ?_
    simp [tokens, top, dropFuture, Frame.tokens]
  | @pollReady id rest top =>
    refine inv.of_same (fun alive => alive) rfl (fun j unfinished => ?_) (fun j _ => ?_)
      fun j => ?_
    · by_cases own : j = id
      · simp [finished, dropFuture, own] at unfinished
      · simpa [finished, dropFuture, own] using unfinished
    · by_cases own : j = id <;> simp [owed, isQueued, dropFuture, own]
    · simp [tokens, top, dropFuture, Frame.tokens]
  | @unwinds id checked batch rest top =>
    refine inv.of_same (fun alive => alive) rfl (fun _ unfinished => unfinished) (fun _ _ => rfl)
      fun j => ?_
    -- the rest of the batch is lost, and `lost` counts it
    simp only [tokens, top, List.map_cons, List.sum_cons, Frame.tokens,
      sum_unwind (Frame.tokens j) (fun _ _ => rfl), List.count_append]
    omega
  | @schedule call rest top =>
    have done := Executor.scheduled e call
    have known := (started.running call (Or.inr (by simp [top]))).1
    apply inv.scheduled done known
    intro j
    rw [sum_next _ (Call.pushes j) (fun _ => rfl), top, done.untouched.threads]
    simp only [List.map_cons, List.sum_cons, Frame.tokens]
    omega
  | @skip id batch rest top isOver =>
    -- the entry that goes is that of a finished task
    refine inv.of_fewer (fun alive => alive) rfl (fun _ unfinished => unfinished) (fun _ _ => rfl)
      (fun j _ unfinished => ?_) fun j => ?_
    · have unfinished : e.finished j = false := unfinished
      have other : id ≠ j := fun same => by simp [same, unfinished] at isOver
      simp [tokens, top, Frame.tokens, List.count_cons_of_ne other]
    · have shorter := (List.sublist_cons_self id batch).count_le j
      simp only [tokens, top, List.map_cons, List.sum_cons, Frame.tokens]
      omega
  | run top =>
    refine (inv.dequeue top).of_same id rfl (fun _ => id) (fun _ _ => rfl) fun j => ?_
    simp [tokens, Executor.dequeue, Frame.tokens]
  | stale top => exact inv.dequeue top
  | close top =>
    -- from here on nothing is owed
    refine inv.of_fewer Bool.noConfusion rfl (fun _ unfinished => unfinished)
      (fun _ _ => rfl) (fun j alive => Bool.noConfusion alive) fun j => ?_
    simp [tokens, top, Frame.tokens]
  | clearInbox top =>
    -- `clearInbox` comes after `close`: nothing is owed any more
    have isOver : e.closed = true := by
      rw [top] at nested
      exact nested.closed_of_stage (by simp)
    refine inv.of_fewer (fun alive => alive) rfl (fun _ unfinished => unfinished)
      (fun _ _ => rfl) (fun j alive => Bool.noConfusion (isOver.symm.trans alive)) fun j => ?_
    simp [tokens, top, Frame.tokens]
  | @cancel task others futures rest top =>
    refine inv.of_same (fun alive => alive) rfl (fun j unfinished => ?_) (fun j _ => ?_)
      fun j => ?_
    · by_cases own : j = task
      · simp [finished, own] at unfinished
      · simpa [finished, own] using unfinished
    · by_cases own : j = task <;> simp [owed, isQueued, own]
    · simp [tokens, top, Frame.tokens]

theorem tokenInv_of_run {ts : List (Machine.Transition Executor Act Event)} {e : Executor}
    (run : machine.Run ts e) : TokenInv e := by
  apply run.relative
  · rintro _ rfl
    refine ⟨fun _ id _ => ?_, fun _ _ => rfl⟩
    have clear : new.owed id = 0 := congrArg Bool.toNat isQueued_zero
    rw [clear]
    rfl
  · intro _ _ _ _ _ prior inv taken
    exact inv.moves (nested_of_run prior) (started_of_run prior) (step_cases taken)

/-! ### Notifications -/

/-- Calls that have pushed and not notified yet. -/
def notifying (e : Executor) : Nat :=
  (e.stack.map Frame.notifying).sum + e.threads.countP Call.notifies

theorem Scheduled.notifying {e e' : Executor} {call : Call} {next : Option Call}
    (done : Scheduled e call e' next) :
    e'.pushed + [call].countP Call.notifies + e.notified =
      e.pushed + next.toList.countP Call.notifies + e'.notified := by
  cases done <;> simp_all [Call.notifies, enqueue, logCall]
  omega

theorem Moves.notifying {e e' : Executor} {act : Act} {ev : Event} (moved : Moves e act e' ev)
    (even : e.pushed = e.notified + e.notifying) : e'.pushed = e'.notified + e'.notifying := by
  unfold Executor.notifying at even ⊢
  cases moved with
  | @stepThread index call found =>
    have done := Executor.scheduled e call
    have count := countP_eraseIdx Call.notifies found
    have step := done.notifying
    simp only [List.countP_append, done.untouched.stack]
    omega
  | @schedule call rest top =>
    have done := Executor.scheduled e call
    have step := done.notifying
    simp only [top, List.map_cons, List.sum_cons, Frame.notifying] at even
    simp only [done.untouched.threads, sum_next Frame.notifying Call.notifies fun _ => rfl]
    omega
  | dropExecutor =>
    rw [sum_release Frame.notifying rfl]
    exact even
  | dropHandleReturn top =>
    rw [sum_release Frame.notifying rfl]
    simp only [top, List.map_cons, List.sum_cons, Frame.notifying, Nat.zero_add] at even
    exact even
  | unwinds top =>
    simpa [top, Frame.notifying, sum_unwind Frame.notifying fun _ _ => rfl] using even
  | _ =>
    simp_all [Frame.notifying, Executor.spawn, dropFuture, Executor.dequeue, cancelHandle,
      Call.notifies]

/-- Every push is followed by its own notification. -/
theorem notified_of_run {ts : List (Machine.Transition Executor Act Event)} {e : Executor}
    (run : machine.Run ts e) : e.pushed = e.notified + e.notifying := by
  apply run.relative (P := fun e => e.pushed = e.notified + e.notifying)
  · rintro _ rfl
    rfl
  · intro _ _ _ _ _ _ even taken
    exact (step_cases taken).notifying even

end Executor

end Eneste
