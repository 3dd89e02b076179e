import Eneste.Emitter.Mailbox
import Eneste.Upgrade.Upgrade

/-!
# Futures that hear an emitter

`subscribe_once` and the `listen` functions of `EventTargetExt`: each subscribes a stream and
gives it to a future, a `SubscribeOnce` or a `Listener`. A poll of a future goes one turn of
its loop at a time. While a callback runs, and while nothing is polled, user code uses the
emitter, polls other futures, and clones and drops the pointers it owns.
-/

namespace Eneste

open Upgrade

variable {W T V : Type}

/-- What a future does with the items of its stream. -/
inductive Job (V : Type) where
  /-- `SubscribeOnce`. -/
  | once
  /-- `Listener`: the closure upgrades what it has captured and calls the callback. -/
  | listen (captured : Value Weak V)

/-- The allocations that a future has captured. -/
def Job.captures : Job V → List Allocation
  | .once => []
  | .listen captured => captured.pointers.map Weak.allocation

structure Hearer (V : Type) where
  job : Job V
  /-- `Listener::done`; a `SubscribeOnce` is never done. -/
  done : Bool

/-- A poll that has not returned. -/
structure Hearing (W : Type) where
  future : Nat
  waker : W
  /-- The callback runs. -/
  calling : Bool
  deriving DecidableEq

/-- Futures are named like the streams they have been given. -/
structure Audience (W T V : Type) where
  emitter : Emitter W T
  heap : Heap
  /-- The strong pointers that user code owns, each as often as it owns it. -/
  owned : List Allocation
  /-- The address of the next allocation. -/
  fresh : Nat
  futures : OrderedMap Nat (Hearer V)
  /-- The polls going on, innermost first. -/
  stack : List (Hearing W)

namespace Audience

def new : Audience W T V := ⟨Emitter.new, ⟨fun _ => 0, fun _ => 0⟩, [], 0, OrderedMap.empty, []⟩

inductive Act (W T V : Type) where
  -- user code
  | emitter (op : Emitter.Op W T)
  | subscribeOnce
  | listen
  | listenWith (value : Value Pointer V)
  | listenWithThis (this : Value Pointer V)
  | listenWithThisAnd (this value : Value Pointer V)
  | poll (future : Nat) (waker : W)
  | drop (future : Nat)
  /-- `Rc::new` or `Arc::new`. -/
  | alloc (owner : Owner)
  /-- A pointer is cloned, or a weak one upgraded. -/
  | clone (a : Allocation)
  | release (a : Allocation)
  -- ways for a callback to return
  | answer (more : Bool)
  | panic
  /-- The innermost poll goes on. -/
  | turn

/-- Calls that subscribe a stream for a future. -/
def Act.spawns : Act W T V → Bool
  | .subscribeOnce | .listen | .listenWith _ | .listenWithThis _ | .listenWithThisAnd _ _ => true
  | _ => false

inductive Out (T : Type) where
  | quiet
  | emitter (result : Emitter.Res T)
  | spawned (future : Nat)
  /-- The callback is called. -/
  | called (future : Nat) (item : Emission T)
  /-- The closure has found that something it captured is gone. -/
  | dismissed (future : Nat) (item : Emission T)
  -- ways for a poll to return
  | pending (future : Nat)
  | ready (future : Nat) (value : Option (Emission T))
  | panicked (future : Nat)
  deriving DecidableEq

variable (s : Audience W T V)

/-- User code is running. -/
def userMode : Bool :=
  match s.stack with
  | [] => true
  | hearing :: _ => hearing.calling

/-- The stream of a future is the future's own. -/
def mayUse : Emitter.Op W T → Bool
  | .pollNext k _ | .dropStream k => (s.futures.get? k).isNone
  | _ => true

/-- User code captures pointers that it has. -/
def mayCapture (value : Value Pointer V) : Bool :=
  value.pointers.all fun p =>
    match p with
    | .strong p => decide (p.allocation ∈ s.owned)
    | .weak p => decide (p.allocation.address < s.fresh)

/-- Subscribe and make a future of the stream. -/
def spawn (job : Job V) : Audience W T V × Out T :=
  ({ s with
    emitter := s.emitter.subscribe
    futures := s.futures.insert s.emitter.created ⟨job, false⟩ }, .spawned s.emitter.created)

/-- `EventTargetExt::listen`, with a closure that captures nothing. -/
def listen : Audience W T V × Out T := s.spawn (.listen .none)

/-- `EventTargetExt::listen_with`. -/
def listenWith (value : Value Pointer V) : Audience W T V × Out T :=
  let (captured, heap) := value.downgrade s.heap
  { s with heap := heap }.spawn (.listen captured)

/-- `EventTargetExt::listen_with_this`. -/
def listenWithThis (this : Value Pointer V) : Audience W T V × Out T :=
  let (captured, heap) := this.downgrade s.heap
  { s with heap := heap }.spawn (.listen captured)

/-- `EventTargetExt::listen_with_this_and`: the closure of `listen_with_this` upgrades first,
and what it has upgraded is dropped if the other upgrade fails. -/
def listenWithThisAnd (this value : Value Pointer V) : Audience W T V × Out T :=
  let (captured, heap) := value.downgrade s.heap
  let (captured_this, heap) := this.downgrade heap
  { s with heap := heap }.spawn
    (.listen (.tuple (by decide) (.more captured_this (.last captured))))

/-- The weak pointers of a closure are dropped. -/
def forget (captured : Value Weak V) (heap : Heap) : Heap :=
  { heap with weak := fun a => heap.weak a - (captured.pointers.map Weak.allocation).count a }

/-- A future is dropped: its stream goes, and what it has captured. -/
def dropFuture (k : Nat) : Option (Audience W T V × Out T) :=
  match s.futures.get? k, s.emitter.dropStream k with
  | some hearer, some (emitter, _) =>
    some ({ s with
      emitter := emitter
      heap := match hearer.job with
        | .once => s.heap
        | .listen captured => forget captured s.heap
      futures := s.futures.erase k }, .quiet)
  | _, _ => none

/-- One turn of `SubscribeOnce::poll` or `Listener::poll`. -/
def turn (hearing : Hearing W) (rest : List (Hearing W)) : Option (Audience W T V × Out T) :=
  let k := hearing.future
  match s.futures.get? k with
  | none => none
  | some hearer =>
    if hearer.done then some ({ s with stack := rest }, .ready k none)
    else
      match s.emitter.pollNext k hearing.waker with
      | some (emitter, .polled result) =>
        let s := { s with emitter := emitter }
        match result, hearer.job with
        | .pending, _ => some ({ s with stack := rest }, .pending k)
        | .ready (some item), .once => some ({ s with stack := rest }, .ready k (some item))
        | .ready none, .once => some ({ s with stack := rest }, .panicked k)
        | .ready none, .listen _ =>
          some ({ s with futures := s.futures.insert k { hearer with done := true } }, .quiet)
        | .ready (some item), .listen captured =>
          match captured.upgrade s.heap with
          | (none, heap) =>
            some ({ s with
              heap := heap
              futures := s.futures.insert k { hearer with done := true } }, .dismissed k item)
          | (some strong, heap) =>
            -- the callback owns what it is given
            some ({ s with
              heap := heap
              owned := strong.pointers.map Strong.allocation ++ s.owned
              stack := { hearing with calling := true } :: rest }, .called k item)
      | _ => none

section

variable [Usize]

def step : Act W T V → Option (Audience W T V × Out T)
  | .emitter op =>
    if s.userMode && s.mayUse op then
      (s.emitter.step op).map fun (emitter, r) => ({ s with emitter := emitter }, .emitter r)
    else none
  | .subscribeOnce => if s.userMode && s.emitter.alive then some (s.spawn .once) else none
  | .listen => if s.userMode && s.emitter.alive then some s.listen else none
  | .listenWith value =>
    if s.userMode && s.emitter.alive && s.mayCapture value then some (s.listenWith value) else none
  | .listenWithThis this =>
    if s.userMode && s.emitter.alive && s.mayCapture this then some (s.listenWithThis this)
    else none
  | .listenWithThisAnd this value =>
    if s.userMode && s.emitter.alive && s.mayCapture this && s.mayCapture value then
      some (s.listenWithThisAnd this value)
    else none
  | .poll k waker =>
    if s.userMode && (s.futures.get? k).isSome && !s.stack.any (·.future == k) then
      some ({ s with stack := ⟨k, waker, false⟩ :: s.stack }, .quiet)
    else none
  | .drop k => if s.userMode && !s.stack.any (·.future == k) then s.dropFuture k else none
  | .alloc owner =>
    if s.userMode then
      some ({ s with
        heap := s.heap.hold [⟨owner, s.fresh⟩]
        owned := ⟨owner, s.fresh⟩ :: s.owned
        fresh := s.fresh + 1 }, .quiet)
    else none
  | .clone a =>
    if s.userMode && decide (s.heap.alive a) then
      some ({ s with heap := s.heap.hold [a], owned := a :: s.owned }, .quiet)
    else none
  | .release a =>
    if s.userMode && decide (a ∈ s.owned) then
      some ({ s with heap := Strong.drop ⟨a⟩ s.heap, owned := s.owned.erase a }, .quiet)
    else none
  | .answer more =>
    match s.stack with
    | ⟨k, waker, true⟩ :: rest =>
      if more then some ({ s with stack := ⟨k, waker, false⟩ :: rest }, .quiet)
      else
        (s.futures.get? k).map fun hearer =>
          ({ s with
            futures := s.futures.insert k { hearer with done := true }
            stack := ⟨k, waker, false⟩ :: rest }, .quiet)
    | _ => none
  | .panic =>
    match s.stack with
    | ⟨k, _, true⟩ :: rest => some ({ s with stack := rest }, .panicked k)
    | _ => none
  | .turn =>
    match s.stack with
    | ⟨k, waker, false⟩ :: rest => s.turn ⟨k, waker, false⟩ rest
    | _ => none

def machine : Machine (Audience W T V) (Act W T V) (Out T) where
  init s := s = new
  step s := s.step

end

/-! ### One step -/

section

variable {s s' : Audience W T V}

/-- What one step does. Only `turn` and user code touch the emitter. -/
inductive Stepped [Usize] (s : Audience W T V) : Act W T V → Audience W T V → Out T → Prop
  | uses {op emitter r} (user : s.userMode = true) (mine : s.mayUse op = true)
      (taken : s.emitter.step op = some (emitter, r)) :
      Stepped s (.emitter op) { s with emitter := emitter } (.emitter r)
  | spawns {act job heap} (makes : act.spawns = true) (user : s.userMode = true)
      (alive : s.emitter.alive = true) (once : act = .subscribeOnce → job = .once)
      (same : heap.strong = s.heap.strong)
      (known : ∀ a ∈ job.captures, a ∈ s.owned ∨ a.address < s.fresh) :
      Stepped s act { s with
        emitter := s.emitter.subscribe
        heap := heap
        futures := s.futures.insert s.emitter.created ⟨job, false⟩ } (.spawned s.emitter.created)
  | polls {k waker hearer} (user : s.userMode = true) (found : s.futures.get? k = some hearer)
      (apart : k ∉ s.stack.map Hearing.future) :
      Stepped s (.poll k waker) { s with stack := ⟨k, waker, false⟩ :: s.stack } .quiet
  | drops {k hearer emitter heap r} (user : s.userMode = true)
      (found : s.futures.get? k = some hearer) (apart : k ∉ s.stack.map Hearing.future)
      (dropped : s.emitter.step (.dropStream k) = some (emitter, r))
      (same : heap.strong = s.heap.strong) :
      Stepped s (.drop k)
        { s with emitter := emitter, heap := heap, futures := s.futures.erase k } .quiet
  | allocs {owner} (user : s.userMode = true) :
      Stepped s (.alloc owner) { s with
        heap := s.heap.hold [⟨owner, s.fresh⟩]
        owned := ⟨owner, s.fresh⟩ :: s.owned
        fresh := s.fresh + 1 } .quiet
  | clones {a} (user : s.userMode = true) (alive : s.heap.alive a) :
      Stepped s (.clone a) { s with heap := s.heap.hold [a], owned := a :: s.owned } .quiet
  | releases {a} (user : s.userMode = true) (mine : a ∈ s.owned) :
      Stepped s (.release a)
        { s with heap := Strong.drop ⟨a⟩ s.heap, owned := s.owned.erase a } .quiet
  | wants {k waker rest} (top : s.stack = ⟨k, waker, true⟩ :: rest) :
      Stepped s (.answer true) { s with stack := ⟨k, waker, false⟩ :: rest } .quiet
  | refuses {k waker rest hearer} (top : s.stack = ⟨k, waker, true⟩ :: rest)
      (found : s.futures.get? k = some hearer) :
      Stepped s (.answer false) { s with
        futures := s.futures.insert k { hearer with done := true }
        stack := ⟨k, waker, false⟩ :: rest } .quiet
  | panics {k waker rest} (top : s.stack = ⟨k, waker, true⟩ :: rest) :
      Stepped s .panic { s with stack := rest } (.panicked k)
  | finishes {k waker rest job} (top : s.stack = ⟨k, waker, false⟩ :: rest)
      (found : s.futures.get? k = some ⟨job, true⟩) :
      Stepped s .turn { s with stack := rest } (.ready k none)
  | waits {k waker rest job emitter} (top : s.stack = ⟨k, waker, false⟩ :: rest)
      (found : s.futures.get? k = some ⟨job, false⟩)
      (polled : s.emitter.step (.pollNext k waker) = some (emitter, .polled .pending)) :
      Stepped s .turn { s with emitter := emitter, stack := rest } (.pending k)
  | yields {k waker rest item emitter} (top : s.stack = ⟨k, waker, false⟩ :: rest)
      (found : s.futures.get? k = some ⟨.once, false⟩)
      (polled : s.emitter.step (.pollNext k waker) =
        some (emitter, .polled (.ready (some item)))) :
      Stepped s .turn { s with emitter := emitter, stack := rest } (.ready k (some item))
  | fails {k waker rest emitter} (top : s.stack = ⟨k, waker, false⟩ :: rest)
      (found : s.futures.get? k = some ⟨.once, false⟩)
      (polled : s.emitter.step (.pollNext k waker) = some (emitter, .polled (.ready none))) :
      Stepped s .turn { s with emitter := emitter, stack := rest } (.panicked k)
  | exhausted {k waker rest captured emitter} (top : s.stack = ⟨k, waker, false⟩ :: rest)
      (found : s.futures.get? k = some ⟨.listen captured, false⟩)
      (polled : s.emitter.step (.pollNext k waker) = some (emitter, .polled (.ready none))) :
      Stepped s .turn { s with
        emitter := emitter
        futures := s.futures.insert k ⟨.listen captured, true⟩ } .quiet
  | dismisses {k waker rest captured item emitter} (top : s.stack = ⟨k, waker, false⟩ :: rest)
      (found : s.futures.get? k = some ⟨.listen captured, false⟩)
      (polled : s.emitter.step (.pollNext k waker) =
        some (emitter, .polled (.ready (some item))))
      (dead : ∃ a ∈ (Job.listen captured).captures, ¬s.heap.alive a) :
      Stepped s .turn { s with
        emitter := emitter
        futures := s.futures.insert k ⟨.listen captured, true⟩ } (.dismissed k item)
  | calls {k waker rest captured item emitter} (top : s.stack = ⟨k, waker, false⟩ :: rest)
      (found : s.futures.get? k = some ⟨.listen captured, false⟩)
      (polled : s.emitter.step (.pollNext k waker) =
        some (emitter, .polled (.ready (some item))))
      (alive : ∀ a ∈ (Job.listen captured).captures, s.heap.alive a) :
      Stepped s .turn { s with
        emitter := emitter
        heap := s.heap.hold (Job.listen captured).captures
        owned := (Job.listen captured).captures ++ s.owned
        stack := ⟨k, waker, true⟩ :: rest } (.called k item)

/-- What a closure has captured, user code had. -/
private theorem known_of_mayCapture {value : Value Pointer V} {h : Heap}
    (legal : s.mayCapture value = true) : ∀ a ∈ (value.downgrade h).1.pointers.map Weak.allocation,
      a ∈ s.owned ∨ a.address < s.fresh := by
  intro a member
  rw [(value.downgrade_spec h).1, Value.pointers_map, List.map_map] at member
  obtain ⟨p, here, rfl⟩ := List.mem_map.mp member
  have own := List.all_eq_true.mp legal p here
  cases p with
  | strong p => exact .inl (of_decide_eq_true own)
  | weak p => exact .inr (of_decide_eq_true own)

private theorem apart_of_any {k : Nat} (apart : (!s.stack.any (·.future == k)) = true) :
    k ∉ s.stack.map Hearing.future := by
  intro member
  obtain ⟨hearing, here, rfl⟩ := List.mem_map.mp member
  have found : s.stack.any (·.future == hearing.future) = true :=
    List.any_eq_true.mpr ⟨hearing, here, beq_self_eq_true _⟩
  simp [found] at apart

variable [Usize]

private theorem spawned {act : Act W T V} {out : Out T} (makes : act.spawns = true) (job : Job V)
    (heap : Heap) (legal : Bool) (taken : (if s.userMode && s.emitter.alive && legal then
      some ({ s with heap := heap }.spawn job) else none) = some (s', out))
    (once : act = .subscribeOnce → job = .once) (same : heap.strong = s.heap.strong)
    (known : legal = true → ∀ a ∈ job.captures, a ∈ s.owned ∨ a.address < s.fresh) :
    Stepped s act s' out := by
  split at taken
  next guard =>
    simp only [Bool.and_eq_true] at guard
    cases taken
    exact .spawns makes guard.1.1 guard.1.2 once same (known guard.2)
  next => cases taken

private theorem turn_spec {k : Nat} {waker : W} {rest : List (Hearing W)} {out : Out T}
    (top : s.stack = ⟨k, waker, false⟩ :: rest)
    (taken : s.turn ⟨k, waker, false⟩ rest = some (s', out)) : Stepped s .turn s' out := by
  unfold turn at taken
  dsimp only at taken
  split at taken
  · cases taken
  next hearer found =>
    obtain ⟨job, done⟩ := hearer
    cases done with
    | true =>
      cases taken
      exact .finishes top found
    | false =>
      simp only [Bool.false_eq_true, ite_false] at taken
      split at taken
      next emitter result polled =>
        rcases result with (_ | item) | _
        · cases job with
          | once =>
            cases taken
            exact .fails top found polled
          | listen captured =>
            cases taken
            exact .exhausted top found polled
        · cases job with
          | once =>
            cases taken
            exact .yields top found polled
          | listen captured =>
            -- the closure upgrades all of what it has captured, or none of it
            by_cases alive : ∀ w ∈ captured.pointers, s.heap.alive w.allocation
            · simp only [captured.upgrade_alive s.heap alive] at taken
              cases taken
              rw [Value.pointers_map, List.map_map]
              exact .calls top found polled (by simpa [Job.captures] using alive)
            · push Not at alive
              simp only [captured.upgrade_dead s.heap alive] at taken
              cases taken
              exact .dismisses top found polled (by simpa [Job.captures] using alive)
        · cases job <;> cases taken <;> exact .waits top found polled
      next => cases taken

theorem step_spec {act : Act W T V} {out : Out T}
    (taken : s.step act = some (s', out)) : Stepped s act s' out := by
  cases act with
  | emitter op =>
    simp only [step] at taken
    split at taken
    next legal =>
      obtain ⟨⟨emitter, r⟩, used, same⟩ := Option.map_eq_some_iff.mp taken
      cases same
      simp only [Bool.and_eq_true] at legal
      exact .uses legal.1 legal.2 used
    next => cases taken
  | subscribeOnce =>
    refine spawned rfl .once s.heap true ?_ (fun _ => rfl) rfl ?_
    · simpa [step] using taken
    · simp [Job.captures]
  | listen =>
    refine spawned rfl (.listen .none) s.heap true ?_ nofun rfl ?_
    · simpa [step, listen] using taken
    · simp [Job.captures, Value.pointers]
  | listenWith value | listenWithThis value =>
    exact spawned rfl (.listen (value.downgrade s.heap).1) (value.downgrade s.heap).2 _ taken nofun
      (value.downgrade_spec s.heap).2 known_of_mayCapture
  | listenWithThisAnd this value =>
    let heap := (value.downgrade s.heap).2
    refine spawned rfl (.listen (.tuple (by decide) (.more (this.downgrade heap).1
      (.last (value.downgrade s.heap).1)))) (this.downgrade heap).2
      (s.mayCapture this && s.mayCapture value) ?_ nofun ?_ ?_
    · rw [← Bool.and_assoc]
      exact taken
    · exact (this.downgrade_spec heap).2.trans (value.downgrade_spec s.heap).2
    · intro legal a member
      rw [Bool.and_eq_true] at legal
      simp only [Job.captures, Value.pointers, Members.pointers, List.map_append,
        List.mem_append] at member
      rcases member with first | second
      · exact known_of_mayCapture legal.1 a first
      · exact known_of_mayCapture legal.2 a second
  | poll k waker =>
    simp only [step] at taken
    split at taken
    next legal =>
      simp only [Bool.and_eq_true, Option.isSome_iff_exists] at legal
      obtain ⟨⟨user, hearer, found⟩, apart⟩ := legal
      cases taken
      exact .polls user found (apart_of_any apart)
    next => cases taken
  | drop k =>
    simp only [step] at taken
    split at taken
    next legal =>
      simp only [Bool.and_eq_true] at legal
      obtain ⟨user, apart⟩ := legal
      unfold dropFuture at taken
      split at taken
      next hearer emitter r found dropped =>
        cases taken
        refine .drops user found (apart_of_any apart) dropped ?_
        cases hearer.job <;> rfl
      next => cases taken
    next => cases taken
  | alloc owner =>
    simp only [step] at taken
    split at taken
    next user =>
      cases taken
      exact .allocs user
    next => cases taken
  | clone a =>
    simp only [step] at taken
    split at taken
    next legal =>
      simp only [Bool.and_eq_true, decide_eq_true_eq] at legal
      cases taken
      exact .clones legal.1 legal.2
    next => cases taken
  | release a =>
    simp only [step] at taken
    split at taken
    next legal =>
      simp only [Bool.and_eq_true, decide_eq_true_eq] at legal
      cases taken
      exact .releases legal.1 legal.2
    next => cases taken
  | answer more =>
    simp only [step] at taken
    split at taken
    next k waker rest top =>
      cases more with
      | true =>
        cases taken
        exact .wants top
      | false =>
        obtain ⟨hearer, found, same⟩ := Option.map_eq_some_iff.mp taken
        cases same
        exact .refuses top found
    next => cases taken
  | panic =>
    simp only [step] at taken
    split at taken
    next top =>
      cases taken
      exact .panics top
    next => cases taken
  | turn =>
    simp only [step] at taken
    split at taken
    next top => exact turn_spec top taken
    next => cases taken

end

end Audience

end Eneste
