import Eneste.Executor.Inbox
import Eneste.Executor.Moves

/-!
# The executor on threads

The executor with its inbox in the spin lock: what was one step with a critical section is
now a call of `lock`, any number of exchanges, the work on the inbox and the store that drops
the guard, while other threads go on. Nothing that the executor does shows it.
-/

namespace Eneste

open Executor (Event)

structure Threaded where
  /-- All but the inbox. -/
  executor : Executor
  inbox : SpinLock (List Nat) Inbox.Op Inbox.Ans
  /-- The threads of the calls in `executor.threads`. -/
  names : List Nat
  /-- Threads so far. The executor's own is 0. -/
  created : Nat
  /-- What the executor's thread was about to do when it last called `lock`. -/
  own : Executor.Act

namespace Threaded

inductive Act where
  /-- A step without a critical section. -/
  | run (act : Executor.Act)
  /-- A statement that a step with one reaches calls `lock`. -/
  | lock (act : Executor.Act)
  | attempt (thread : Nat) (fails : Bool)
  | enter (thread : Nat)
  /-- The work on the inbox is done, and with it the step. -/
  | exit (thread : Nat)
  | unlock (thread : Nat)

variable (s : Threaded)

/-- Whose step it is; another thread is new when it wakes a task. -/
def threadOf : Executor.Act → Option Nat
  | .wakeThread _ => none
  | .stepThread index => s.names[index]?
  | _ => some 0

/-- The step that a thread with a critical section is at. -/
def actOf (thread : Nat) : Executor.Act :=
  if thread = 0 then s.own else .stepThread (s.names.idxOf thread)

/-- The thread has no critical section. -/
def outside (thread : Nat) : Bool :=
  match s.inbox.phases thread with
  | .outside => true
  | _ => false

/-- The executor has taken a step. The names of the threads go with their calls. -/
def follow (act : Executor.Act) (executor : Executor) : Threaded :=
  match act with
  | .wakeThread _ =>
    { s with executor := executor, names := s.created :: s.names, created := s.created + 1 }
  | .stepThread index =>
    let goesOn := executor.threads.length = s.executor.threads.length
    { s with
      executor := executor
      names := (if goesOn then s.names[index]?.toList else []) ++ s.names.eraseIdx index }
  | _ => { s with executor := executor }

/-- A step of the lock that is none of the executor. -/
def lockStep (act : SpinLock.Act Inbox.Op) : Option (Threaded × Event) :=
  (s.inbox.step .acquire .release Inbox.apply act).map fun result =>
    ({ s with inbox := result.1 }, .quiet)

def step : Act → Option (Threaded × Event)
  | .run act =>
    if s.executor.sectionOf act = none ∧ ∀ thread ∈ s.threadOf act, s.outside thread = true then
      (s.executor.step act).map fun result => (s.follow act result.1, result.2)
    else none
  | .lock act =>
    match s.executor.sectionOf act, s.threadOf act with
    | some op, some thread =>
      { s with own := if thread = 0 then act else s.own }.lockStep (.call thread op)
    | _, _ => none
  | .attempt thread fails => s.lockStep (.attempt thread fails)
  | .enter thread => s.lockStep (.enter thread)
  | .exit thread =>
    match s.inbox.phases thread, s.inbox.step .acquire .release Inbox.apply (.exit thread) with
    | .inside _ found, some (inbox, _) =>
      ((s.executor.withInbox found).step (s.actOf thread)).map fun result =>
        ({ s.follow (s.actOf thread) result.1 with inbox := inbox }, result.2)
    | _, _ => none
  | .unlock thread => s.lockStep (.unlock thread)

/-- `Executor::new`. -/
def new : Threaded := ⟨Executor.new, SpinLock.new [], [], 1, .advance⟩

def machine : Machine Threaded Act Event where
  init s := s = new
  step := step

/-- The executor with what is in the lock. -/
def executorOf : Executor := s.executor.withInbox s.inbox.value

end Threaded

namespace Executor

variable {e e' : Executor} {act : Act} {ev : Event}

/-- A step that another thread takes. -/
def Act.other : Act → Bool
  | .wakeThread _ | .stepThread _ => true
  | _ => false

theorem threads_of_own (taken : e.step act = some (e', ev)) (own : act.other = false) :
    e'.threads = e.threads := by
  cases step_cases taken with
  | wakeThread | stepThread => cases own
  | @schedule call rest top => exact (scheduled e call).untouched.threads
  | _ => rfl

theorem stack_of_other (taken : e.step act = some (e', ev)) (other : act.other = true) :
    e'.stack = e.stack ∧ e'.executors = e.executors := by
  cases step_cases taken with
  | wakeThread => exact ⟨rfl, rfl⟩
  | @stepThread index call found =>
    have same := (scheduled e call).untouched
    exact ⟨same.stack, same.executors⟩
  | _ => cases other

theorem threads_of_stepThread {index : Nat} (taken : e.step (.stepThread index) = some (e', ev)) :
    ∃ call next, e.threads[index]? = some call ∧
      e'.threads = Option.toList next ++ e.threads.eraseIdx index := by
  cases step_cases taken with
  | @stepThread index call found => exact ⟨call, (e.scheduleStep call).2, found, rfl⟩

/-- Which critical section the executor's own thread has reached is seen from its calls. -/
theorem sectionOf_of_own (own : act.other = false) (stack : e'.stack = e.stack)
    (executors : e'.executors = e.executors) : e'.sectionOf act = e.sectionOf act := by
  cases act with
  | wakeThread | stepThread => cases own
  | processTasks =>
    have mode : e'.userMode = e.userMode := by rw [userMode, userMode, stack]
    simp only [sectionOf, mode, executors]
  | advance => simp only [sectionOf, stack]
  | _ => rfl

end Executor

namespace Threaded

variable (s : Threaded)

/-! ### Threads and their calls -/

section

variable {β : Type}

private theorem lookup_cons_ne {n t : Nat} (differs : t ≠ n) (c : β) (l : List (Nat × β)) :
    ((n, c) :: l).lookup t = l.lookup t := by
  simp [List.lookup, beq_false_of_ne differs]

private theorem getElem?_idxOf (names : List Nat) (calls : List β) (t : Nat)
    (paired : names.length = calls.length) :
    calls[names.idxOf t]? = (names.zip calls).lookup t := by
  induction names generalizing calls with
  | nil =>
    cases calls with
    | nil => rfl
    | cons => cases paired
  | cons n names ih =>
    cases calls with
    | nil => cases paired
    | cons c calls =>
      by_cases same : t = n
      · simp [same]
      · have other : n ≠ t := fun eq => same eq.symm
        rw [List.zip_cons_cons, lookup_cons_ne same, List.idxOf_cons_ne names other]
        exact ih calls (Nat.succ.inj paired)

private theorem zip_eraseIdx (names : List Nat) (calls : List β) (j : Nat) :
    (names.eraseIdx j).zip (calls.eraseIdx j) = (names.zip calls).eraseIdx j := by
  induction names generalizing calls j with
  | nil => simp
  | cons n names ih =>
    cases calls with
    | nil => simp
    | cons c calls =>
      cases j with
      | zero => rfl
      | succ j => simp [ih]

private theorem lookup_eraseIdx (l : List (Nat × β)) {t j : Nat}
    (other : ∀ x, l[j]? = some x → t ≠ x.1) : (l.eraseIdx j).lookup t = l.lookup t := by
  induction l generalizing j with
  | nil => simp
  | cons x l ih =>
    obtain ⟨n, c⟩ := x
    cases j with
    | zero => exact (lookup_cons_ne (other (n, c) rfl) c l).symm
    | succ j =>
      have rest := ih fun x found => other x (by simpa using found)
      by_cases same : t = n
      · simp [same]
      · rw [List.eraseIdx_cons_succ, lookup_cons_ne same, lookup_cons_ne same, rest]

end

/-- The thread is at a step that is this critical section. -/
def Reached (t : Nat) (op : Inbox.Op) : Prop :=
  s.threadOf (s.actOf t) = some t ∧ s.executor.sectionOf (s.actOf t) = some op

/-- Threads are told apart by their names. -/
structure Named : Prop where
  paired : s.names.length = s.executor.threads.length
  distinct : s.names.Nodup
  below : ∀ t ∈ s.names, 0 < t ∧ t < s.created
  created : 0 < s.created

structure Inv : Prop where
  exclusive : s.inbox.Exclusive
  named : s.Named
  fresh : ∀ t, s.created ≤ t → s.inbox.phases t = .outside
  reached : ∀ t op, (s.inbox.phases t).pending = some op → s.Reached t op

variable {s} {s' : Threaded} {e' : Executor} {act : Executor.Act} {ev : Event}

/-- Where a thread is that wakes a task. -/
private theorem threadOf_other {t index : Nat} (named : s.Named)
    (mine : s.threadOf (.stepThread index) = some t) : t ≠ 0 ∧ s.names.idxOf t = index := by
  have found : s.names[index]? = some t := mine
  obtain ⟨inside, rfl⟩ := List.getElem?_eq_some_iff.mp found
  exact ⟨(named.below _ (List.getElem_mem inside)).1.ne', named.distinct.idxOf_getElem index inside⟩

/-- A call that goes on keeps its name, and one that returns takes it along. -/
private theorem follow_stepThread {index : Nat} (named : s.Named)
    (taken : s.executor.step (.stepThread index) = some (e', ev)) :
    ∃ n next, s.names[index]? = some n ∧
      e'.threads = Option.toList next ++ s.executor.threads.eraseIdx index ∧
      (s.follow (.stepThread index) e').names =
        Option.toList (next.map fun _ => n) ++ s.names.eraseIdx index := by
  obtain ⟨call, next, found, threads⟩ := Executor.threads_of_stepThread taken
  obtain ⟨inside, -⟩ := List.getElem?_eq_some_iff.mp found
  have named_too : index < s.names.length := named.paired ▸ inside
  refine ⟨s.names[index], next, List.getElem?_eq_getElem named_too, threads, ?_⟩
  have left := List.length_eraseIdx_of_lt inside
  cases next with
  | none =>
    have returns : ¬e'.threads.length = s.executor.threads.length := by
      simp only [threads, Option.toList_none, List.nil_append, left]
      omega
    simp [follow, returns]
  | some call' =>
    have goesOn : e'.threads.length = s.executor.threads.length := by
      simp only [threads, Option.toList_some, List.singleton_append, List.length_cons, left]
      omega
    simp [follow, goesOn, named_too]

@[simp] private theorem executor_follow (s : Threaded) (act : Executor.Act) (e' : Executor) :
    (s.follow act e').executor = e' := by
  cases act <;> rfl

private theorem threadOf_own (own : act.other = false) : s.threadOf act = some 0 := by
  cases act with
  | wakeThread | stepThread => cases own
  | _ => rfl

private theorem own_of_threadOf (named : s.Named) (mine : s.threadOf act = some 0) :
    act.other = false := by
  cases act with
  | wakeThread => cases mine
  | stepThread index => exact absurd rfl (threadOf_other named mine).1
  | _ => rfl

theorem Named.follow (named : s.Named) (taken : s.executor.step act = some (e', ev)) :
    (s.follow act e').Named := by
  cases act with
  | wakeThread id =>
    have threads : e'.threads.length = s.executor.threads.length + 1 := by
      cases Executor.step_cases taken with
      | wakeThread => rfl
    refine ⟨?_, ?_, ?_, ?_⟩
    · simp [Threaded.follow, threads, named.paired]
    · refine List.nodup_cons.mpr ⟨fun member => ?_, named.distinct⟩
      exact lt_irrefl _ (named.below _ member).2
    · intro t member
      rcases List.mem_cons.mp member with rfl | old
      · exact ⟨named.created, Nat.lt_succ_self _⟩
      · exact ⟨(named.below t old).1, Nat.lt_succ_of_lt (named.below t old).2⟩
    · exact Nat.succ_pos _
  | stepThread index =>
    obtain ⟨n, next, found, threads, names⟩ := follow_stepThread named taken
    obtain ⟨inside, here⟩ := List.getElem?_eq_some_iff.mp found
    have perm : (n :: s.names.eraseIdx index).Perm s.names :=
      here ▸ List.getElem_cons_eraseIdx_perm inside
    have left := perm.nodup_iff.mpr named.distinct
    have known : ∀ t ∈ (s.follow (.stepThread index) e').names, t ∈ s.names := by
      intro t member
      rw [names] at member
      refine perm.subset ?_
      cases next with
      | none => exact List.mem_cons_of_mem _ member
      | some => exact member
    refine ⟨?_, ?_, fun t member => named.below t (known t member), named.created⟩
    · rw [names, show (s.follow (.stepThread index) e').executor = e' from rfl, threads]
      have := named.paired
      cases next <;> simp [List.length_eraseIdx, this]
    · rw [names]
      cases next with
      | none => exact left.of_cons
      | some => exact left
  | _ =>
    have same := Executor.threads_of_own taken rfl
    exact ⟨named.paired.trans (congrArg List.length same.symm), named.distinct, named.below,
      named.created⟩

theorem reached_zero {op : Inbox.Op} : s.Reached 0 op ↔
    s.threadOf s.own = some 0 ∧ s.executor.sectionOf s.own = some op := Iff.rfl

theorem reached_succ {t : Nat} {op : Inbox.Op} (positive : t ≠ 0) (named : s.Named) :
    s.Reached t op ↔ t ∈ s.names ∧
      ((s.names.zip s.executor.threads).lookup t).bind Executor.sectionOfCall = some op := by
  have listed : s.names[s.names.idxOf t]? = some t ↔ t ∈ s.names :=
    ⟨List.mem_of_getElem?, List.getElem?_idxOf⟩
  simp only [Reached, actOf, positive, ite_false, threadOf, listed, Executor.sectionOf,
    getElem?_idxOf _ _ _ named.paired]

theorem Reached.old {t : Nat} {op : Inbox.Op} (reached : s.Reached t op) (named : s.Named) :
    t < s.created := by
  by_cases own : t = 0
  · exact own ▸ named.created
  · exact (named.below t ((reached_succ own named).mp reached).1).2

/-- Where a thread is with its critical section, another one's step does not change. -/
theorem Reached.follow {t : Nat} {op : Inbox.Op} (reached : s.Reached t op) (named : s.Named)
    (taken : s.executor.step act = some (e', ev)) (other : s.threadOf act ≠ some t) :
    (s.follow act e').Reached t op := by
  have old := reached.old named
  have after := named.follow taken
  by_cases own : t = 0
  · subst own
    obtain ⟨mine, here⟩ := reached_zero.mp reached
    have still := own_of_threadOf named mine
    have theirs : act.other = true := by
      by_contra own
      exact other (threadOf_own (by simpa using own))
    obtain ⟨stack, executors⟩ := Executor.stack_of_other taken theirs
    have same : (s.follow act e').own = s.own := by cases act <;> rfl
    refine reached_zero.mpr ⟨same.symm ▸ threadOf_own still, ?_⟩
    rw [same, executor_follow, Executor.sectionOf_of_own still stack executors, here]
  · obtain ⟨known, here⟩ := (reached_succ own named).mp reached
    refine (reached_succ own after).mpr ?_
    cases act with
    | wakeThread id =>
      cases Executor.step_cases taken with
      | wakeThread =>
        refine ⟨List.mem_cons_of_mem _ known, ?_⟩
        rwa [show (s.follow (.wakeThread id) _).names = s.created :: s.names from rfl,
          executor_follow, List.zip_cons_cons, lookup_cons_ne old.ne]
    | stepThread index =>
      obtain ⟨n, next, found, threads, names⟩ := follow_stepThread named taken
      have differs : t ≠ n := fun same => other (by simp [threadOf, found, same])
      have theirs : ∀ x, (s.names.zip s.executor.threads)[index]? = some x → t ≠ x.1 := by
        intro x zipped
        obtain ⟨name, -⟩ := List.getElem?_zip_eq_some.mp zipped
        rw [found] at name
        exact fun same => differs (same.trans (Option.some.inj name).symm)
      have kept : ((s.follow (.stepThread index) e').names.zip
          (s.follow (.stepThread index) e').executor.threads).lookup t =
            (s.names.zip s.executor.threads).lookup t := by
        rw [names, executor_follow, threads]
        cases next with
        | none => simp [zip_eraseIdx, lookup_eraseIdx _ theirs]
        | some call => simp [lookup_cons_ne differs, zip_eraseIdx, lookup_eraseIdx _ theirs]
      refine ⟨?_, kept ▸ here⟩
      rw [names, List.mem_append]
      obtain ⟨i, inside, rfl⟩ := List.getElem_of_mem known
      refine .inr (List.mem_eraseIdx_iff_getElem.mpr ⟨i, inside, fun same => ?_, rfl⟩)
      subst same
      rw [List.getElem?_eq_getElem inside] at found
      exact differs (Option.some.inj found)
    | _ =>
      rw [executor_follow, Executor.threads_of_own taken rfl]
      exact ⟨known, here⟩

/-! ### The invariant -/

namespace Inv

theorem new : Threaded.new.Inv where
  exclusive := SpinLock.Exclusive.new []
  named := ⟨rfl, List.nodup_nil, by simp [Threaded.new], Nat.one_pos⟩
  fresh _ _ := rfl
  reached := by simp [Threaded.new, SpinLock.new, SpinLock.Phase.pending]

/-- A step of the executor, by a thread that has no critical section, or has had it. -/
private theorem follow (inv : s.Inv) (taken : s.executor.step act = some (e', ev))
    {inbox : SpinLock (List Nat) Inbox.Op Inbox.Ans} (exclusive : inbox.Exclusive)
    (phases : ∀ t op, (inbox.phases t).pending = some op →
      (s.inbox.phases t).pending = some op ∧ s.threadOf act ≠ some t)
    (fresh : ∀ t, s.created ≤ t → inbox.phases t = .outside) :
    ({ s.follow act e' with inbox := inbox } : Threaded).Inv := by
  have named := inv.named.follow taken
  have later : s.created ≤ (s.follow act e').created := by
    cases act <;> simp [Threaded.follow]
  refine ⟨exclusive, ⟨named.paired, named.distinct, named.below, named.created⟩,
    fun t late => fresh t (later.trans late), fun t op waits => ?_⟩
  obtain ⟨before, other⟩ := phases t op waits
  exact (inv.reached t op before).follow inv.named taken other

/-- A step of the lock that is none of the executor. -/
private theorem lockStep (inv : s.Inv) {lock : SpinLock.Act Inbox.Op}
    (taken : s.lockStep lock = some (s', ev)) (calls : ∀ t op, lock = .call t op → s.Reached t op) :
    s'.Inv := by
  obtain ⟨⟨inbox, out⟩, moved, same⟩ := Option.map_eq_some_iff.mp taken
  cases same
  refine ⟨inv.exclusive.step moved, ⟨inv.named.paired, inv.named.distinct, inv.named.below,
    inv.named.created⟩, fun t late => ?_, fun t op waits => ?_⟩
  · refine SpinLock.outside_of_step moved (inv.fresh t late) fun op called => ?_
    exact ((calls t op called).old inv.named).not_ge late
  · rcases SpinLock.pending_of_step moved waits with called | ⟨before, -⟩
    · exact calls t op called
    · exact inv.reached t op before

/-- A statement calls `lock`. -/
private theorem lock {t : Nat} {op : Inbox.Op} (inv : s.Inv)
    (mine : s.threadOf act = some t) (reached : s.executor.sectionOf act = some op)
    (taken : { s with own := if t = 0 then act else s.own }.lockStep (.call t op) =
      some (s', ev)) : s'.Inv := by
  obtain ⟨⟨inbox, out⟩, moved, -⟩ := Option.map_eq_some_iff.mp taken
  have here : s.inbox.phases t = .outside := by
    cases SpinLock.step_spec moved with
    | call here => exact here
  let s₀ : Threaded := { s with own := if t = 0 then act else s.own }
  have others : ∀ u, u ≠ t → s₀.actOf u = s.actOf u := by
    intro u other
    by_cases own : u = 0
    · subst own
      simp [actOf, s₀, Ne.symm other]
    · simp [actOf, s₀, own]
  have called : s₀.actOf t = act := by
    by_cases own : t = 0
    · simp [actOf, s₀, own]
    · cases act with
      | wakeThread => cases mine
      | stepThread index => simp [actOf, s₀, own, (threadOf_other inv.named mine).2]
      | _ => exact absurd (Option.some.inj mine).symm own
  have inv₀ : s₀.Inv := by
    refine ⟨inv.exclusive, ⟨inv.named.paired, inv.named.distinct, inv.named.below,
      inv.named.created⟩, inv.fresh, fun u op waits => ?_⟩
    have other : u ≠ t := by
      rintro rfl
      simp [s₀, here, SpinLock.Phase.pending] at waits
    have before := inv.reached u op waits
    rw [Reached, ← others u other] at before
    exact before
  refine inv₀.lockStep taken ?_
  rintro u op' ⟨⟩
  rw [Reached, called]
  exact ⟨mine, reached⟩

theorem step {act : Act} (inv : s.Inv) (taken : s.step act = some (s', ev)) : s'.Inv := by
  cases act with
  | attempt | enter | unlock => exact inv.lockStep taken nofun
  | run act =>
    simp only [Threaded.step] at taken
    split at taken
    next legal =>
      obtain ⟨⟨e', ev'⟩, moved, same⟩ := Option.map_eq_some_iff.mp taken
      cases same
      have unchanged : { s.follow act e' with inbox := s.inbox } = s.follow act e' := by
        cases act <;> rfl
      rw [← unchanged]
      refine inv.follow moved inv.exclusive (fun t op waits => ⟨waits, fun mine => ?_⟩) inv.fresh
      have free := legal.2 t mine
      cases here : s.inbox.phases t <;> simp [outside, here, SpinLock.Phase.pending] at free waits
    next => cases taken
  | lock act =>
    simp only [Threaded.step] at taken
    split at taken
    next op t reached mine => exact inv.lock mine reached taken
    next => cases taken
  | exit t =>
    simp only [Threaded.step] at taken
    split at taken
    next op found inbox out inside moved =>
      obtain ⟨⟨e', ev'⟩, advanced, same⟩ := Option.map_eq_some_iff.mp taken
      cases same
      -- what the executor does while it has the inbox is one of its steps
      let s₀ : Threaded := { s with executor := s.executor.withInbox found }
      have inv₀ : s₀.Inv := ⟨inv.exclusive, ⟨inv.named.paired, inv.named.distinct,
        inv.named.below, inv.named.created⟩, inv.fresh, inv.reached⟩
      have unchanged : s₀.follow (s.actOf t) e' = s.follow (s.actOf t) e' := by
        cases s.actOf t <;> rfl
      rw [← unchanged]
      have mine := (inv.reached t op (by rw [inside]; rfl)).1
      refine inv₀.follow advanced (inv.exclusive.step moved) (fun u op' waits => ?_) fun u late =>
        SpinLock.outside_of_step moved (inv.fresh u late) nofun
      rcases SpinLock.pending_of_step moved waits with called | ⟨before, other⟩
      · cases called
      · refine ⟨before, fun same => other ?_⟩
        exact congrArg _ (Option.some.inj (mine.symm.trans same))
    next => cases taken

theorem of_run {ts} (run : machine.Run ts s) : s.Inv := by
  refine run.invariant ?_ fun _ _ _ _ inv taken => inv.step taken
  rintro _ rfl
  exact new

end Inv

/-! ### What it refines -/

/-- The work of a thread on the inbox is one step of the executor. -/
private theorem exit_spec (inv : s.Inv) {t : Nat} {op : Inbox.Op} {found : List Nat}
    (inside : s.inbox.phases t = .inside op found) :
    ∃ s' ev, s.step (.exit t) = some (s', ev) ∧
      s.executorOf.step (s.actOf t) = some (s'.executorOf, ev) := by
  have still : found = s.inbox.value := inv.exclusive.found t op found inside
  have reached : s.executorOf.sectionOf (s.actOf t) = some op :=
    (inv.reached t op (by rw [inside]; rfl)).2
  obtain ⟨⟨e', ev⟩, taken⟩ := Executor.step_of_section reached
  -- that step leaves in the inbox what the critical section leaves there
  have left : e'.withInbox (Inbox.apply op found).2 = e' := by
    have whole := s.executorOf.step_inbox (s.actOf t) s.executorOf.inbox fun _ _ => rfl
    rw [Executor.withInbox_self, taken, reached] at whole
    rw [still]
    exact (Prod.mk.inj (Option.some.inj whole)).1.symm
  refine ⟨{ s.follow (s.actOf t) e' with
    inbox := { s.inbox with value := (Inbox.apply op found).2 }.setPhase t
      (.leaving op (Inbox.apply op found).1) }, ev, ?_, ?_⟩
  · have whole : (s.executor.withInbox found).step (s.actOf t) = some (e', ev) := still ▸ taken
    simp only [step, inside, SpinLock.step, whole]
    rfl
  · rw [taken, ← left]
    simp only [executorOf, executor_follow, SpinLock.setPhase, Executor.withInbox_withInbox]

/-- Each step is one of the executor, or shows nothing and leaves it as it is. -/
private theorem simulates {act : Act} (inv : s.Inv) (taken : s.step act = some (s', ev)) :
    (s'.executorOf = s.executorOf ∧ ev = .quiet) ∨
      ∃ a, s.executorOf.step a = some (s'.executorOf, ev) := by
  have locks : ∀ {own lock}, { s with own := own }.lockStep lock = some (s', ev) →
      (∀ t, lock ≠ .exit t) → s'.executorOf = s.executorOf ∧ ev = .quiet := by
    intro own lock stepped other
    obtain ⟨⟨inbox, out⟩, moved, same⟩ := Option.map_eq_some_iff.mp stepped
    cases same
    refine ⟨?_, rfl⟩
    cases SpinLock.step_spec moved with
    | @exit t => exact absurd rfl (other t)
    | _ => rfl
  cases act with
  | attempt | enter | unlock => exact .inl (locks taken nofun)
  | lock act =>
    simp only [step] at taken
    split at taken
    next => exact .inl (locks taken nofun)
    next => cases taken
  | run act =>
    simp only [step] at taken
    split at taken
    next legal =>
      obtain ⟨⟨e', ev'⟩, moved, same⟩ := Option.map_eq_some_iff.mp taken
      cases same
      refine .inr ⟨act, ?_⟩
      rw [executorOf, Executor.step_inbox _ _ _ (by simp [legal.1]), moved, legal.1]
      simp only [Option.map_some, executorOf, executor_follow, Executor.afterSection]
      cases act <;> rfl
    next => cases taken
  | exit t =>
    cases inside : s.inbox.phases t with
    | inside op found =>
      obtain ⟨s'', ev', exits, advanced⟩ := exit_spec inv inside
      cases exits.symm.trans taken
      exact .inr ⟨_, advanced⟩
    | _ => simp [step, inside] at taken

/-- What is seen of a step. -/
def visible : Event → Option Event
  | .quiet => none
  | ev => some ev

/-- The executor with its spin lock polls, drops and gives up what the executor with atomic critical
sections does, in the same order, and ends in the same state; and whoever is at work on the
inbox gets it done. -/
theorem refines_executor {ts} (run : machine.Run ts s) :
    (∃ us, Executor.machine.Run us s.executorOf ∧
      us.filterMap (fun t => visible t.out) = ts.filterMap fun t => visible t.out) ∧
    ∀ t op found, s.inbox.phases t = .inside op found →
      ∃ s' ev, s.step (.exit t) = some (s', ev) := by
  constructor
  · have refines : ∃ us e, Executor.machine.Run us e ∧ (e = s.executorOf ∧ s.Inv) ∧
        us.filterMap (fun t => visible t.out) = ts.filterMap fun t => visible t.out := by
      refine run.observed (fun s e => e = s.executorOf ∧ s.Inv) visible visible ?_ ?_
      · rintro _ rfl
        exact ⟨Executor.new, rfl, rfl, Inv.new⟩
      · rintro s _ act s' ev ⟨rfl, inv⟩ taken
        rcases simulates inv taken with ⟨same, quiet⟩ | ⟨a, advanced⟩
        · exact .inl ⟨⟨same.symm, inv.step taken⟩, by rw [quiet]; rfl⟩
        · exact .inr ⟨a, _, ev, advanced, ⟨rfl, inv.step taken⟩, rfl⟩
    obtain ⟨us, e, run', ⟨same, -⟩, shown⟩ := refines
    exact ⟨us, same ▸ run', shown⟩
  · intro t op found inside
    obtain ⟨s', ev, exits, -⟩ := exit_spec (Inv.of_run run) inside
    exact ⟨s', ev, exits⟩

/-- The executor spawns a task and starts to run it; while it is about to take the entry out of
the inbox, another thread wakes the task. -/
theorem refines_while_woken : ∃ ts s, machine.Run ts s ∧
    ts.filterMap (fun t => visible t.out) = [.began 0] ∧ s.executorOf.inbox = [0] ∧
    (∃ us, Executor.machine.Run us s.executorOf ∧
      us.filterMap (fun t => visible t.out) = [.began 0]) := by
  obtain ⟨ts, s, run, -, seen, inbox⟩ := Machine.exists_run (m := machine)
    (P := fun ts s => ts.filterMap (fun t => visible t.out) = [.began 0] ∧
      s.executorOf.inbox = [0])
    [.run .spawn, .run .advance, .run .advance, .run .advance, .lock .advance, .attempt 0 true,
      .attempt 0 false, .enter 0, .exit 0, .unlock 0, .run .advance, .lock (.processTasks 1),
      .attempt 0 false, .enter 0, .exit 0, .unlock 0, .run .advance, .run .advance,
      .run (.wakeThread 0), .run (.stepThread 0), .run (.stepThread 0), .run (.stepThread 0),
      .lock (.stepThread 0), .attempt 1 false, .enter 1, .exit 1] rfl ⟨_, rfl, rfl, rfl⟩
  obtain ⟨⟨us, run', shown⟩, -⟩ := refines_executor run
  exact ⟨ts, s, run, seen, inbox, us, run', shown.trans seen⟩

end Threaded

end Eneste
