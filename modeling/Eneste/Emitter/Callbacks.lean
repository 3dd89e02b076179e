import Eneste.Emitter.Audience
import Eneste.Emitter.Listener

/-!
# Callbacks and polls

Futures own no strong pointer, whatever they have captured. A poll comes to an end whatever
its callback does: a callback that emits is not called for its own emission.
-/

namespace Eneste

open Upgrade

section

variable {W T V : Type} [Usize]

namespace Emitter

variable {m m' : Emitter W T} {op : Op W T} {r : Res T} {k : Nat}

/-- The call polls or drops the stream. -/
def Op.on (k : Nat) : Op W T → Bool
  | .pollNext j _ | .dropStream j => j == k
  | _ => false

/-- A stream is as it was unless it is polled or dropped. -/
theorem streams_kept (kept : m.Kept) (taken : m.step op = some (m', r)) {s : Subscriber T}
    (live : m.streams.get? k = some s) (others : op.on k = false) :
    m'.streams.get? k = some s := by
  cases op with
  | subscribe =>
    simp only [step] at taken
    split at taken
    · cases taken
      exact (OrderedMap.get?_insert_of_ne _ _ (kept.named k s live).ne).trans live
    · cases taken
  | emit value | dropEmitter =>
    simp only [step] at taken
    split at taken
    · cases taken
      exact live
    · cases taken
  | pollNext j waker =>
    obtain ⟨_, _, _, _, _, _, _, rfl⟩ := pollNext_spec kept.streams taken
    have other : k ≠ j := fun same => by simp [Op.on, same] at others
    exact (OrderedMap.get?_insert_of_ne _ _ other).trans live
  | dropStream j =>
    simp only [step, dropStream] at taken
    split at taken
    · cases taken
    · cases taken
      have other : k ≠ j := fun same => by simp [Op.on, same] at others
      exact (OrderedMap.get?_erase_of_ne _ other).trans live

theorem states_kept (kept : m.Kept) (taken : m.step op = some (m', r)) {state : StreamState}
    (live : m.states k = some state) (others : op.on k = false) : m'.states k = some state := by
  obtain ⟨s, found, rfl⟩ := Option.map_eq_some_iff.mp live
  exact states_of_get? (streams_kept kept taken found others)

/-- A stream is there until it is dropped. -/
theorem streams_live (kept : m.Kept) (taken : m.step op = some (m', r)) {s : Subscriber T}
    (live : m.streams.get? k = some s) (undropped : op ≠ .dropStream k) :
    ∃ s', m'.streams.get? k = some s' := by
  cases others : op.on k with
  | false => exact ⟨s, streams_kept kept taken live others⟩
  | true =>
    cases op with
    | pollNext j waker =>
      obtain rfl : j = k := by simpa [Op.on] using others
      obtain ⟨_, _, _, _, _, _, _, rfl⟩ := pollNext_spec kept.streams taken
      exact ⟨_, OrderedMap.get?_insert_self _ _ _⟩
    | dropStream j =>
      obtain rfl : j = k := by simpa [Op.on] using others
      exact absurd rfl undropped
    | _ => cases others

theorem created_le (taken : m.step op = some (m', r)) : m.created ≤ m'.created := by
  cases op with
  | subscribe =>
    simp only [step] at taken
    split at taken <;> cases taken
    exact Nat.le_succ _
  | emit | dropEmitter =>
    simp only [step] at taken
    split at taken <;> cases taken
    exact le_rfl
  | pollNext j waker =>
    simp only [step, pollNext] at taken
    split at taken
    · cases taken
    · split at taken <;> cases taken
      exact le_rfl
  | dropStream j =>
    simp only [step, dropStream] at taken
    split at taken <;> cases taken
    exact le_rfl

theorem step_subscribe (alive : m.alive = true) :
    m.step .subscribe = some (m.subscribe, .subscribed m.created) := if_pos alive

/-- A poll of a stream that is there succeeds. -/
theorem poll_total (kept : m.Kept) {s : Subscriber T} (live : m.streams.get? k = some s)
    (waker : W) : ∃ m' result, m.step (.pollNext k waker) = some (m', .polled result) := by
  have present : ∀ id, s.state = .listening id → ∃ entry, m.event.listeners.get? id = some entry :=
    fun id listening => kept.streams.present k id (by rw [states_of_get? live, listening])
  obtain ⟨⟨result, event, state⟩, polled⟩ :=
    Option.ne_none_iff_exists'.mp (streamPoll_ne_none m.alive waker present)
  simp only [step, pollNext, live, polled]
  exact ⟨_, _, rfl⟩

/-- A stream that has just yielded, and one that has to register first, waits or has ended
after the next poll. -/
theorem polled_next (kept : m.Kept) {waker : W} {result : Poll (Option (Emission T))}
    (taken : m.step (.pollNext k waker) = some (m', .polled result)) :
    (∀ item, result = .ready (some item) → m'.states k = some .next) ∧
      (m.states k = some .next → ∀ item, result ≠ .ready (some item)) := by
  obtain ⟨s, _, event, state, live, polled, same, rfl⟩ := pollNext_spec kept.streams taken
  cases same
  constructor
  · rintro item rfl
    generalize s.state = before at polled
    cases polled
    simp [states]
  · rintro next item rfl
    rw [states_of_get? live, Option.some.injEq] at next
    rw [next] at polled
    cases polled

end Emitter

namespace Audience

variable {s s' : Audience W T V} {act : Act W T V} {out : Out T}

omit [Usize] in
/-- A future that is noted to be done has captured what it had. -/
private theorem job_insert {k : Nat} {hearer : Hearer V} (found : s.futures.get? k = some hearer)
    {done : Bool} {j : Nat} {other : Hearer V}
    (after : (s.futures.insert k { hearer with done := done }).get? j = some other) :
    ∃ before, s.futures.get? j = some before ∧ before.job = other.job := by
  rw [OrderedMap.get?_insert] at after
  split at after
  next same =>
    cases after
    exact ⟨hearer, same ▸ found, rfl⟩
  next => exact ⟨other, after, rfl⟩

omit [Usize] in
theorem mine_of_mayUse {op : Emitter.Op W T} (mine : s.mayUse op = true) {k : Nat}
    {hearer : Hearer V} (found : s.futures.get? k = some hearer) : op.on k = false := by
  cases op with
  | pollNext j waker | dropStream j =>
    simp only [Emitter.Op.on, beq_eq_false_iff_ne]
    rintro rfl
    simp [mayUse, found] at mine
  | _ => rfl

/-! ### Pointers -/

/-- User code owns every strong pointer there is. -/
structure Pointers (s : Audience W T V) : Prop where
  counted : ∀ a, s.heap.strong a = s.owned.count a
  known : ∀ a ∈ s.owned, a.address < s.fresh
  captured : ∀ k hearer, s.futures.get? k = some hearer →
    ∀ a ∈ hearer.job.captures, a.address < s.fresh

namespace Pointers

omit [Usize] in
theorem alive_iff (inv : s.Pointers) (a : Allocation) : s.heap.alive a ↔ a ∈ s.owned := by
  rw [Heap.alive, inv.counted, List.count_pos_iff]

omit [Usize] in
/-- A step that leaves the pointers alone and makes no future. -/
private theorem keep (inv : s.Pointers) (heap : s'.heap.strong = s.heap.strong)
    (owned : s'.owned = s.owned) (fresh : s'.fresh = s.fresh)
    (jobs : ∀ k hearer, s'.futures.get? k = some hearer →
      ∃ before, s.futures.get? k = some before ∧ before.job = hearer.job) : s'.Pointers := by
  refine ⟨fun a => ?_, fun a mine => ?_, fun k hearer found a member => ?_⟩
  · rw [heap, owned]
    exact inv.counted a
  · rw [fresh]
    exact inv.known a (owned ▸ mine)
  · obtain ⟨before, old, same⟩ := jobs k hearer found
    rw [fresh]
    exact inv.captured k before old a (same ▸ member)

omit [Usize] in
/-- User code comes by pointers that it, or nobody, had. -/
private theorem hold (inv : s.Pointers) {more : List Allocation} {fresh : Nat}
    (later : s.fresh ≤ fresh) (below : ∀ a ∈ more, a.address < fresh) {stack : List (Hearing W)}
    {emitter : Emitter W T} :
    (⟨emitter, s.heap.hold more, more ++ s.owned, fresh, s.futures, stack⟩ :
      Audience W T V).Pointers := by
  refine ⟨fun a => ?_, fun a mine => ?_, fun k hearer found a member => ?_⟩
  · simp [Heap.hold, inv.counted, Nat.add_comm]
  · rcases List.mem_append.mp mine with new | old
    · exact below a new
    · exact (inv.known a old).trans_le later
  · exact (inv.captured k hearer found a member).trans_le later

theorem step (inv : s.Pointers) (stepped : Stepped s act s' out) : s'.Pointers := by
  have unchanged : ∀ k hearer, s.futures.get? k = some hearer →
      ∃ before, s.futures.get? k = some before ∧ before.job = hearer.job :=
    fun k hearer found => ⟨hearer, found, rfl⟩
  cases stepped with
  | uses | polls | wants | panics | finishes | waits | yields | fails =>
    exact inv.keep rfl rfl rfl unchanged
  | refuses _ found | exhausted _ found | dismisses _ found =>
    exact inv.keep rfl rfl rfl fun _ _ after => job_insert found after
  | @spawns _ job heap _ _ _ _ same known =>
    refine ⟨fun a => ?_, inv.known, fun k hearer found => ?_⟩
    · rw [same]
      exact inv.counted a
    · rw [OrderedMap.get?_insert] at found
      split at found
      · cases found
        intro a member
        exact (known a member).elim (inv.known a) id
      · exact inv.captured k hearer found
  | @drops k _ _ _ _ _ _ _ _ same =>
    refine inv.keep same rfl rfl fun j hearer found => ?_
    rw [OrderedMap.get?_erase] at found
    split at found
    · cases found
    · exact ⟨hearer, found, rfl⟩
  | allocs => exact inv.hold (Nat.le_succ _) (by simp)
  | clones _ alive =>
    refine inv.hold le_rfl fun a member => ?_
    cases List.mem_singleton.mp member
    exact inv.known _ ((inv.alive_iff _).mp alive)
  | @releases a _ mine =>
    refine ⟨fun b => ?_, fun b member => inv.known b (List.mem_of_mem_erase member), inv.captured⟩
    simp only [Strong.drop, List.count_erase, ← inv.counted]
    by_cases same : b = a
    · simp [same]
    · simp [same, Ne.symm same]
  | calls _ _ _ alive =>
    exact inv.hold le_rfl fun a member => inv.known a ((inv.alive_iff a).mp (alive a member))

theorem of_run {ts} (run : (machine (W := W) (T := T) (V := V)).Run ts s) : s.Pointers := by
  refine run.invariant ?_ fun _ _ _ _ inv taken => inv.step (step_spec taken)
  rintro _ rfl
  exact ⟨fun _ => rfl, by simp [new], by simp [new]⟩

end Pointers

/-! ### The polls going on -/

/-- The polls going on are those of callbacks that run, but for the innermost. -/
structure Stacked (known yielded : Nat → Prop) (stack : List (Hearing W)) : Prop where
  known : ∀ h ∈ stack, known h.future
  distinct : (stack.map Hearing.future).Nodup
  under : ∀ h ∈ stack.tail, h.calling = true
  calling : ∀ h ∈ stack, h.calling = true → yielded h.future

namespace Stacked

variable {known known' yielded yielded' : Nat → Prop} {stack rest : List (Hearing W)}
  {first : Hearing W}

omit [Usize] in
theorem tail (inv : Stacked known yielded (first :: rest)) : Stacked known yielded rest where
  known h member := inv.known h (List.mem_cons_of_mem _ member)
  distinct := (List.nodup_cons.mp inv.distinct).2
  under h member := inv.under h (List.mem_of_mem_tail member)
  calling h member := inv.calling h (List.mem_cons_of_mem _ member)

omit [Usize] in
/-- No other poll that is going on is of the future that the innermost one is of. -/
theorem apart (inv : Stacked known yielded (first :: rest)) : ∀ h ∈ rest, h.future ≠ first.future :=
  fun _ member same =>
    (List.nodup_cons.mp inv.distinct).1 (same ▸ List.mem_map_of_mem member)

omit [Usize] in
theorem mono (inv : Stacked known yielded stack)
    (knows : ∀ h ∈ stack, known h.future → known' h.future)
    (yields : ∀ h ∈ stack, h.calling = true → yielded h.future → yielded' h.future) :
    Stacked known' yielded' stack where
  known h member := knows h member (inv.known h member)
  distinct := inv.distinct
  under := inv.under
  calling h member calls := yields h member calls (inv.calling h member calls)

omit [Usize] in
/-- On top of callbacks that run. -/
theorem cons (inv : Stacked known yielded rest) (calling : ∀ h ∈ rest, h.calling = true)
    (apart : first.future ∉ rest.map Hearing.future) (here : known first.future)
    (yields : first.calling = true → yielded first.future) :
    Stacked known yielded (first :: rest) where
  known := List.forall_mem_cons.mpr ⟨here, inv.known⟩
  distinct := List.nodup_cons.mpr ⟨apart, inv.distinct⟩
  under := calling
  calling := List.forall_mem_cons.mpr ⟨yields, inv.calling⟩

omit [Usize] in
/-- The innermost poll goes on. -/
theorem replace (inv : Stacked known yielded (first :: rest)) {next : Hearing W}
    (same : next.future = first.future) (yields : next.calling = true → yielded next.future) :
    Stacked known yielded (next :: rest) :=
  inv.tail.cons inv.under (same ▸ (List.nodup_cons.mp inv.distinct).1)
    (same ▸ inv.known first List.mem_cons_self) yields

end Stacked

/-- Every future has its stream, and a callback runs while its stream has yielded and does not
listen yet. -/
structure Seats (s : Audience W T V) : Prop where
  kept : s.emitter.Kept
  streams : ∀ k hearer, s.futures.get? k = some hearer →
    ∃ sub, s.emitter.streams.get? k = some sub
  stacked : Stacked (fun k => ∃ hearer, s.futures.get? k = some hearer)
    (fun k => s.emitter.states k = some .next) s.stack

namespace Seats

omit [Usize] in
theorem calling_of_user (inv : s.Seats) (user : s.userMode = true) :
    ∀ h ∈ s.stack, h.calling = true := by
  intro h member
  have under := inv.stacked.under
  unfold userMode at user
  split at user
  next empty => simp [empty] at member
  next first rest top =>
    rw [top] at member under
    rcases List.mem_cons.mp member with rfl | below
    · exact user
    · exact under h below

omit [Usize] in
theorem known_insert {k : Nat} {before : Hearer V} (found : s.futures.get? k = some before)
    (hearer : Hearer V) (j : Nat) :
    (∃ other, (s.futures.insert k hearer).get? j = some other) ↔
      ∃ other, s.futures.get? j = some other := by
  rw [OrderedMap.get?_insert]
  split
  next same => simp [same, found]
  next => rfl

/-- The call of a future's stream leaves the other futures' streams where they are. -/
private theorem use (inv : s.Seats) {op : Emitter.Op W T} {r : Emitter.Res T}
    {emitter : Emitter W T} {heap : Heap} {owned : List Allocation} {fresh : Nat}
    {futures : OrderedMap Nat (Hearer V)} {stack : List (Hearing W)}
    (taken : s.emitter.step op = some (emitter, r))
    (known : ∀ k, (∃ hearer, futures.get? k = some hearer) →
      (∃ before, s.futures.get? k = some before) ∧ op ≠ .dropStream k)
    (stacked : Stacked (fun k => ∃ hearer, futures.get? k = some hearer)
      (fun k => emitter.states k = some .next) stack) :
    (⟨emitter, heap, owned, fresh, futures, stack⟩ : Audience W T V).Seats where
  kept := inv.kept.step taken
  streams k hearer found := by
    obtain ⟨⟨before, old⟩, undropped⟩ := known k ⟨hearer, found⟩
    obtain ⟨sub, live⟩ := inv.streams k before old
    exact Emitter.streams_live inv.kept taken live undropped
  stacked := stacked

/-- The poll of the innermost future's stream. -/
private theorem turn (inv : s.Seats) {k : Nat} {waker : W} {rest : List (Hearing W)}
    {r : Emitter.Res T} {emitter : Emitter W T} {futures : OrderedMap Nat (Hearer V)}
    (top : s.stack = ⟨k, waker, false⟩ :: rest)
    (taken : s.emitter.step (.pollNext k waker) = some (emitter, r))
    (same : ∀ j, (∃ hearer, futures.get? j = some hearer) ↔
      ∃ hearer, s.futures.get? j = some hearer) :
    (∀ heap owned fresh stack, Stacked (fun k => ∃ hearer, futures.get? k = some hearer)
      (fun k => emitter.states k = some .next) stack →
      (⟨emitter, heap, owned, fresh, futures, stack⟩ : Audience W T V).Seats) ∧
    Stacked (fun k => ∃ hearer, futures.get? k = some hearer)
      (fun k => emitter.states k = some .next) (⟨k, waker, false⟩ :: rest) := by
  have stacked := top ▸ inv.stacked
  refine ⟨fun _ _ _ _ => inv.use taken fun j here => ⟨(same j).mp here, nofun⟩,
    stacked.mono (fun h _ => (same h.future).mpr) fun h member calls yields => ?_⟩
  rcases List.mem_cons.mp member with rfl | below
  · cases calls
  · apply Emitter.states_kept inv.kept taken yields
    simpa [Emitter.Op.on] using (stacked.apart h below).symm

theorem step (inv : s.Seats) (stepped : Stepped s act s' out) : s'.Seats := by
  have stacked := inv.stacked
  cases stepped with
  | @uses op emitter r user mine taken =>
    refine inv.use taken (fun k known => ⟨known, ?_⟩) (stacked.mono (fun _ _ => id) ?_)
    · rintro rfl
      obtain ⟨hearer, found⟩ := known
      simpa [Emitter.Op.on] using mine_of_mayUse mine found
    · intro h member _ yields
      obtain ⟨hearer, found⟩ := stacked.known h member
      exact Emitter.states_kept inv.kept taken yields (mine_of_mayUse mine found)
  | @spawns _ job heap _ _ alive =>
    have taken := Emitter.step_subscribe alive
    refine ⟨inv.kept.step taken, fun k hearer found => ?_, ?_⟩
    · rw [OrderedMap.get?_insert] at found
      split at found
      next same =>
        subst same
        exact ⟨_, OrderedMap.get?_insert_self _ _ _⟩
      next =>
        obtain ⟨sub, live⟩ := inv.streams k hearer found
        exact Emitter.streams_live inv.kept taken live nofun
    · refine stacked.mono (fun h _ known => ?_) fun h _ _ yields =>
        Emitter.states_kept inv.kept taken yields rfl
      rw [OrderedMap.get?_insert]
      split
      · exact ⟨_, rfl⟩
      · exact known
  | @polls k waker hearer user found apart =>
    exact ⟨inv.kept, inv.streams,
      stacked.cons (inv.calling_of_user user) apart ⟨hearer, found⟩ nofun⟩
  | @drops k hearer emitter heap r user found apart dropped =>
    have erased : ∀ j, j ≠ k → (s.futures.erase k).get? j = s.futures.get? j :=
      fun j other => OrderedMap.get?_erase_of_ne _ other
    have others : ∀ h ∈ s.stack, h.future ≠ k :=
      fun h member same => apart (same ▸ List.mem_map_of_mem member)
    refine inv.use dropped (fun j known => ?_) (stacked.mono (fun h member => ?_) ?_)
    · have other : j ≠ k := by
        rintro rfl
        simp at known
      rw [erased j other] at known
      exact ⟨known, fun same => other (by cases same; rfl)⟩
    · rw [erased _ (others h member)]
      exact id
    · intro h member _ yields
      apply Emitter.states_kept inv.kept dropped yields
      simpa [Emitter.Op.on] using (others h member).symm
  | allocs | clones | releases => exact ⟨inv.kept, inv.streams, stacked⟩
  | wants top =>
    rw [top] at stacked
    exact ⟨inv.kept, inv.streams, stacked.replace rfl nofun⟩
  | refuses top found =>
    rw [top] at stacked
    refine ⟨inv.kept, fun j other here => ?_, ?_⟩
    · obtain ⟨before, old⟩ := (known_insert found _ j).mp ⟨other, here⟩
      exact inv.streams j before old
    · refine Stacked.mono (stacked.replace rfl nofun)
        (fun h _ => (known_insert found _ h.future).mpr) fun _ _ _ => id
  | panics top | finishes top =>
    rw [top] at stacked
    exact ⟨inv.kept, inv.streams, stacked.tail⟩
  | waits top found polled | yields top found polled | fails top found polled =>
    obtain ⟨seats, stacked⟩ := inv.turn top polled fun _ => Iff.rfl
    exact seats _ _ _ _ stacked.tail
  | exhausted top found polled | dismisses top found polled =>
    obtain ⟨seats, stacked⟩ := inv.turn top polled (known_insert found _)
    exact seats _ _ _ _ (top ▸ stacked)
  | calls top found polled =>
    obtain ⟨seats, stacked⟩ := inv.turn top polled fun _ => Iff.rfl
    exact seats _ _ _ _ (stacked.replace rfl fun _ =>
      (Emitter.polled_next inv.kept polled).1 _ rfl)

theorem of_run {ts} (run : (machine (W := W) (T := T) (V := V)).Run ts s) : s.Seats := by
  refine run.invariant ?_ fun _ _ _ _ inv taken => inv.step (step_spec taken)
  rintro _ rfl
  exact ⟨Emitter.Kept.new, by simp [new], by simp [new], by simp [new], by simp [new],
    by simp [new]⟩

end Seats

/-! ### Polls come to an end -/

/-- The step is a turn of the future's poll. -/
def turnOf (k : Nat) (t : Machine.Transition (Audience W T V) (Act W T V) (Out T)) : Bool :=
  match t.act, t.before.stack with
  | .turn, hearing :: _ => hearing.future == k
  | _, _ => false

/-- The closure is called. -/
def Out.calls (k : Nat) : Out T → Bool
  | .called j _ | .dismissed j _ => j == k
  | _ => false

/-- The poll of the future returns or unwinds. -/
def Out.ends (k : Nat) : Out T → Bool
  | .pending j | .ready j _ | .panicked j => j == k
  | _ => false

/-- How far a poll that goes on has come in `turns` turns, with `calls` calls of the closure. -/
inductive Course (s : Audience W T V) (k : Nat) : Nat → Nat → Prop
  | begun {waker rest} (top : s.stack = ⟨k, waker, false⟩ :: rest) : Course s k 0 0
  | heard (member : k ∈ s.stack.map Hearing.future) (next : s.emitter.states k = some .next) :
      Course s k 1 1
  | ending {waker rest job turns calls} (top : s.stack = ⟨k, waker, false⟩ :: rest)
      (done : s.futures.get? k = some ⟨job, true⟩) (few : turns ≤ 2) (once : calls ≤ 1) :
      Course s k turns calls

omit [Usize] in
private theorem not_user {k : Nat} {waker : W} {rest : List (Hearing W)}
    (top : s.stack = ⟨k, waker, false⟩ :: rest) : s.userMode = false := by
  simp [userMode, top]

/-- While a future is in its loop, nothing else happens. -/
private theorem turn_of_top {k : Nat} {waker : W} {rest : List (Hearing W)}
    (top : s.stack = ⟨k, waker, false⟩ :: rest) (stepped : Stepped s act s' out) : act = .turn := by
  have busy := not_user top
  cases stepped with
  | uses user | spawns _ user | polls user | drops user | allocs user | clones user
  | releases user => cases busy.symm.trans user
  | wants here | refuses here | panics here => cases top.symm.trans here
  | _ => rfl

/-- A stream that has yielded stays so until its own future goes on. -/
private theorem next_kept {k : Nat} (inv : s.Seats) (stepped : Stepped s act s' out)
    (member : k ∈ s.stack.map Hearing.future) (next : s.emitter.states k = some .next)
    (others : turnOf k ⟨s, act, out, s'⟩ = false) : s'.emitter.states k = some .next := by
  have known : ∃ hearer, s.futures.get? k = some hearer := by
    obtain ⟨h, here, rfl⟩ := List.mem_map.mp member
    exact inv.stacked.known h here
  have kept : ∀ {op emitter r}, s.emitter.step op = some (emitter, r) → op.on k = false →
      emitter.states k = some .next := fun taken apart =>
    Emitter.states_kept inv.kept taken next apart
  cases stepped with
  | uses user mine taken =>
    obtain ⟨hearer, found⟩ := known
    exact kept taken (mine_of_mayUse mine found)
  | spawns _ user alive => exact kept (Emitter.step_subscribe alive) rfl
  | drops user found apart dropped =>
    refine kept dropped (beq_eq_false_iff_ne.mpr ?_)
    rintro rfl
    exact apart member
  | waits top found polled | yields top found polled | fails top found polled
  | exhausted top found polled | dismisses top found polled | calls top found polled =>
    exact kept polled (by simpa [turnOf, top, Emitter.Op.on] using others)
  | _ => exact next

omit [Usize] in
private theorem mem_tail_of_ends {k j : Nat} {waker : W} {calling : Bool} {rest : List (Hearing W)}
    (top : s.stack = ⟨j, waker, calling⟩ :: rest) (member : k ∈ s.stack.map Hearing.future)
    (goes : (j == k) = false) : k ∈ rest.map Hearing.future := by
  rw [top, List.map_cons, List.mem_cons] at member
  exact member.resolve_left fun same => by simp [same] at goes

/-- A poll goes on until it returns or unwinds. -/
private theorem member_kept {k : Nat} (stepped : Stepped s act s' out)
    (member : k ∈ s.stack.map Hearing.future) (goes : out.ends k = false) :
    k ∈ s'.stack.map Hearing.future := by
  cases stepped with
  | uses | spawns | drops | allocs | clones | releases | exhausted | dismisses => exact member
  | polls => exact List.mem_cons_of_mem _ member
  | wants top | refuses top | calls top => simpa [top] using member
  | panics top | finishes top | waits top | yields top | fails top =>
    exact mem_tail_of_ends top member goes

omit [Usize] in
private theorem act_of_turnOf {k : Nat} (own : turnOf k ⟨s, act, out, s'⟩ = true) :
    act = .turn := by
  cases act with
  | turn => rfl
  | _ => simp [turnOf] at own

/-- The closure of a future is called in turns of its own poll. -/
private theorem calls_of_other {k : Nat} (stepped : Stepped s act s' out)
    (others : turnOf k ⟨s, act, out, s'⟩ = false) : out.calls k = false := by
  cases stepped with
  | dismisses top | calls top => simpa [turnOf, top, Out.calls] using others
  | _ => rfl

theorem Course.step {k turns calls : Nat} (course : Course s k turns calls) (inv : s.Seats)
    (stepped : Stepped s act s' out) (goes : out.ends k = false) :
    Course s' k (turns + (turnOf k ⟨s, act, out, s'⟩).toNat) (calls + (out.calls k).toNat) := by
  cases course with
  | @begun waker rest top =>
    obtain rfl := turn_of_top top stepped
    have own : turnOf k ⟨s, .turn, out, s'⟩ = true := by simp [turnOf, top]
    rw [own]
    cases stepped with
    | spawns makes => cases makes
    | finishes here | waits here | yields here | fails here =>
      cases top.symm.trans here
      simp [Out.ends] at goes
    | exhausted here =>
      cases top.symm.trans here
      exact .ending top (OrderedMap.get?_insert_self _ _ _) (by simp) (by simp [Out.calls])
    | dismisses here =>
      cases top.symm.trans here
      exact .ending top (OrderedMap.get?_insert_self _ _ _) (by simp) (by simp [Out.calls])
    | calls here found polled =>
      cases top.symm.trans here
      have yielded := (Emitter.polled_next inv.kept polled).1 _ rfl
      simpa [Out.calls] using Course.heard (by simp) yielded
  | heard member next =>
    cases own : turnOf k ⟨s, act, out, s'⟩ with
    | false =>
      rw [calls_of_other stepped own]
      exact .heard (member_kept stepped member goes) (next_kept inv stepped member next own)
    | true =>
      -- the loop goes round again: the stream registers, and waits or has ended
      cases stepped with
      | spawns makes =>
        cases act_of_turnOf own
        cases makes
      | finishes top | waits top | yields top | fails top =>
        simp only [turnOf, top] at own
        exact absurd (goes.symm.trans own) nofun
      | exhausted top found =>
        obtain rfl : _ = k := by simpa [turnOf, top] using own
        exact .ending top (OrderedMap.get?_insert_self _ _ _) (by simp) (by simp [Out.calls])
      | dismisses top found polled | calls top found polled =>
        obtain rfl : _ = k := by simpa [turnOf, top] using own
        exact absurd rfl ((Emitter.polled_next inv.kept polled).2 next _)
      | _ => simp [turnOf] at own
  | ending top done few once =>
    obtain rfl := turn_of_top top stepped
    cases stepped with
    | spawns makes => cases makes
    | finishes here =>
      cases top.symm.trans here
      simp [Out.ends] at goes
    | waits here found | yields here found | fails here found | exhausted here found
    | dismisses here found | calls here found =>
      cases top.symm.trans here
      cases done.symm.trans found

omit [Usize] in
private theorem countP_snoc {α : Type} (p : α → Bool) (l : List α) (a : α) :
    (l ++ [a]).countP p = l.countP p + (p a).toNat := by
  cases holds : p a <;> simp [holds]

theorem course_of_run
    {before during : List (Machine.Transition (Audience W T V) (Act W T V) (Out T))}
    {p : Machine.Transition (Audience W T V) (Act W T V) (Out T)}
    (run : machine.Run (before ++ p :: during) s) {k : Nat} {waker : W}
    (begins : p.act = .poll k waker) (goes : ∀ u ∈ during, u.out.ends k = false) :
    Course s k (during.countP (turnOf k)) (during.countP fun u => u.out.calls k) := by
  refine run.since (P := fun us s => (∀ u ∈ us, u.out.ends k = false) →
    Course s k (us.countP (turnOf k)) (us.countP fun u => u.out.calls k)) ?_ ?_ goes
  · intro prior taken _
    have stepped := step_spec taken
    rw [begins] at stepped
    generalize p.after = after, p.out = out at stepped
    cases stepped with
    | spawns makes => cases makes
    | polls => exact .begun rfl
  · intro us u prior ih taken goes
    have course := ih fun v member => goes v (List.mem_append_left _ member)
    have next := course.step (Seats.of_run prior) (step_spec taken) (goes u (by simp))
    simpa only [countP_snoc] using next

/-- A poll that is in its loop can go on. -/
private theorem turn_total (inv : s.Seats) {k : Nat} {waker : W} {rest : List (Hearing W)}
    (top : s.stack = ⟨k, waker, false⟩ :: rest) : s.step .turn ≠ none := by
  obtain ⟨⟨job, done⟩, found⟩ := inv.stacked.known ⟨k, waker, false⟩ (by simp [top])
  obtain ⟨sub, live⟩ := inv.streams k _ found
  obtain ⟨emitter, result, polled⟩ := Emitter.poll_total inv.kept live waker
  have polled : s.emitter.pollNext k waker = some (emitter, .polled result) := polled
  simp only [step, top, turn, found, polled]
  cases done with
  | true => simp
  | false =>
    simp only [Bool.false_eq_true, ite_false]
    rcases result with (_ | item) | _
    · cases job <;> simp
    · cases job with
      | once => simp
      | listen captured =>
        dsimp only
        rcases captured.upgrade s.heap with ⟨_ | strong, heap⟩ <;> simp
    · cases job <;> simp

/-- Whatever its callback does, a poll takes at most three turns: it has not returned after
two, one more is always possible, and the closure is called at most once. -/
theorem polls_end {before during : List (Machine.Transition (Audience W T V) (Act W T V) (Out T))}
    {p : Machine.Transition (Audience W T V) (Act W T V) (Out T)}
    (run : machine.Run (before ++ p :: during) s) {k : Nat} {waker : W}
    (begins : p.act = .poll k waker) (goes : ∀ u ∈ during, u.out.ends k = false) :
    during.countP (turnOf k) ≤ 2 ∧ (during.countP fun u => u.out.calls k) ≤ 1 ∧
      ∀ w rest, s.stack = ⟨k, w, false⟩ :: rest → s.step .turn ≠ none := by
  have course := course_of_run run begins goes
  have bounds : during.countP (turnOf k) ≤ 2 ∧ (during.countP fun u => u.out.calls k) ≤ 1 := by
    generalize during.countP (turnOf k) = turns at course
    generalize (during.countP fun u => u.out.calls k) = calls at course
    cases course with
    | begun | heard => simp
    | ending _ _ few once => exact ⟨few, once⟩
  exact ⟨bounds.1, bounds.2, fun w rest top => turn_total (Seats.of_run run) top⟩

/-! ### The loop of `Listener` -/

section

variable (k : Nat) (captured : Value Weak V)

omit [Usize] in
/-- The stream of a future. -/
def pollStream (waker : W) (s : Audience W T V) : Poll (Option (Emission T)) × Audience W T V :=
  match s.emitter.pollNext k waker with
  | some (emitter, .polled result) => (result, { s with emitter := emitter })
  | _ => (.pending, s)

omit [Usize] in
/-- The closure of a future: what it has captured is upgraded, and the callback does what it
does to everything there is. -/
def closure (callback : Emission T → Audience W T V → Bool × Audience W T V) (waker : W)
    (rest : List (Hearing W)) (item : Emission T) (s : Audience W T V) : Bool × Audience W T V :=
  match captured.upgrade s.heap with
  | (none, heap) => (false, { s with heap := heap })
  | (some strong, heap) =>
    let (more, s) := callback item { s with
      heap := heap
      owned := strong.pointers.map Strong.allocation ++ s.owned
      stack := ⟨k, waker, true⟩ :: rest }
    (more, { s with stack := ⟨k, waker, false⟩ :: rest })

omit [Usize] in
/-- The future has noted that it is done. -/
def noted (l : Listener (Emission T) (Audience W T V)) : Audience W T V :=
  if l.done then
    { l.world with futures := l.world.futures.insert k ⟨.listen captured, true⟩ }
  else l.world

/-- The steps from `s` come to this turn of the listener. -/
inductive Follows (rest : List (Hearing W)) (s : Audience W T V) :
    LoopTurn (Listener (Emission T) (Audience W T V)) (Poll Unit) → Prop
  | ready {l} (taken : s.step .turn = some ({ l.world with stack := rest }, .ready k none)) :
      Follows rest s (.done (.ready ()) l)
  | pending {l} (taken : s.step .turn = some ({ l.world with stack := rest }, .pending k)) :
      Follows rest s (.done .pending l)
  | again {l} (moves : machine.Moves s (noted k captured l)) : Follows rest s (.again l)

end

/-- A listener is polled as `Listener` says: one turn of it is one step here, or as many as
the callback takes, and one before and one after them. -/
theorem turn_follows {k : Nat} {captured : Value Weak V} {waker : W} {rest : List (Hearing W)}
    {done : Bool} {callback : Emission T → Audience W T V → Bool × Audience W T V} (inv : s.Seats)
    (top : s.stack = ⟨k, waker, false⟩ :: rest)
    (found : s.futures.get? k = some ⟨.listen captured, done⟩)
    (runs : ∀ item w, w.stack = ⟨k, waker, true⟩ :: rest →
      w.futures.get? k = some ⟨.listen captured, false⟩ →
      machine.Moves w (callback item w).2 ∧
        (callback item w).2.stack = ⟨k, waker, true⟩ :: rest ∧
        (callback item w).2.futures.get? k = some ⟨.listen captured, false⟩)
    (answers : List (Poll (Option (Emission T)))) (calls : List (Emission T × Bool)) :
    Follows k captured rest s (Listener.turn (pollStream k)
      (closure k captured callback waker rest) waker ⟨s, done, answers, calls⟩) := by
  obtain ⟨sub, live⟩ := inv.streams k _ found
  obtain ⟨emitter, result, polled⟩ := Emitter.poll_total inv.kept live waker
  have polled : s.emitter.pollNext k waker = some (emitter, .polled result) := polled
  cases done with
  | true =>
    simp only [Listener.turn, ite_true]
    exact .ready (by simp [step, top, turn, found])
  | false =>
    have asked : pollStream k waker s = (result, { s with emitter := emitter }) := by
      simp [pollStream, polled]
    simp only [Listener.turn, asked, Bool.false_eq_true, ite_false]
    rcases result with (_ | item) | _
    · -- the stream has ended
      refine .again (.one (a := .turn) (r := .quiet) ?_)
      simp [machine, step, top, turn, found, polled, noted]
    · by_cases alive : ∀ w ∈ captured.pointers, s.heap.alive w.allocation
      · have upgraded := captured.upgrade_alive s.heap alive
        let called : Audience W T V := { s with
          emitter := emitter
          heap := s.heap.hold (captured.pointers.map Weak.allocation)
          owned := (captured.map Weak.strengthen).pointers.map Strong.allocation ++ s.owned
          stack := ⟨k, waker, true⟩ :: rest }
        have begins : machine.Moves s called := by
          refine .one (a := .turn) (r := .called k item) ?_
          simp [machine, step, top, turn, found, polled, upgraded, called]
        obtain ⟨acts, still, kept⟩ := runs item called rfl found
        simp only [closure, upgraded]
        -- the callback is called, does what it does, and answers
        rcases answered : callback item called with ⟨more, after⟩
        simp only [answered] at acts still kept
        refine .again ((begins.trans acts).trans ?_)
        refine Machine.Moves.one (a := .answer more) (r := .quiet) ?_
        cases more <;> simp [machine, step, still, kept, noted]
      · push Not at alive
        have upgraded := captured.upgrade_dead s.heap alive
        simp only [closure, upgraded, Bool.false_eq_true, ite_false]
        refine .again (.one (a := .turn) (r := .dismissed k item) ?_)
        simp [machine, step, top, turn, found, polled, noted, upgraded]
    · exact .pending (by simp [step, top, turn, found, polled])

/-! ### What closures have captured -/

/-- A future keeps its closure until it is dropped. -/
theorem hearer_kept {k : Nat} {job : Job V} {done : Bool} (inv : s.Seats)
    (stepped : Stepped s act s' out) (found : s.futures.get? k = some ⟨job, done⟩) :
    (act = .drop k ∧ s'.futures.get? k = none) ∨
      ∃ done', s'.futures.get? k = some ⟨job, done'⟩ ∧ (done = true → done' = true) := by
  have insert : ∀ {j : Nat} {hearer : Hearer V}, s.futures.get? j = some hearer →
      ∃ done', (s.futures.insert j ⟨hearer.job, true⟩).get? k = some ⟨job, done'⟩ ∧
        (done = true → done' = true) := by
    intro j hearer here
    rw [OrderedMap.get?_insert]
    split
    next same =>
      cases (same ▸ found).symm.trans here
      exact ⟨true, rfl, fun _ => rfl⟩
    next => exact ⟨done, found, id⟩
  cases stepped with
  | spawns =>
    obtain ⟨sub, live⟩ := inv.streams k _ found
    have old : k ≠ s.emitter.created := (inv.kept.named k sub live).ne
    exact .inr ⟨done, (OrderedMap.get?_insert_of_ne _ _ old).trans found, id⟩
  | @drops j =>
    by_cases same : k = j
    · exact .inl (same ▸ ⟨rfl, OrderedMap.get?_erase_self _ _⟩)
    · exact .inr ⟨done, (OrderedMap.get?_erase_of_ne _ same).trans found, id⟩
  | refuses _ here | exhausted _ here | dismisses _ here => exact .inr (insert here)
  | _ => exact .inr ⟨done, found, id⟩

/-- Nobody gets hold of an allocation that is gone. -/
private theorem gone_kept {a : Allocation} (inv : s.Pointers) (stepped : Stepped s act s' out)
    (known : a.address < s.fresh) (gone : a ∉ s.owned) : a.address < s'.fresh ∧ a ∉ s'.owned := by
  cases stepped with
  | allocs =>
    refine ⟨known.trans (Nat.lt_succ_self _), List.not_mem_cons_of_ne_of_not_mem ?_ gone⟩
    rintro rfl
    exact lt_irrefl _ known
  | clones _ alive =>
    refine ⟨known, List.not_mem_cons_of_ne_of_not_mem ?_ gone⟩
    rintro rfl
    exact gone ((inv.alive_iff _).mp alive)
  | releases => exact ⟨known, fun member => gone (List.mem_of_mem_erase member)⟩
  | calls _ _ _ alive =>
    refine ⟨known, fun member => ?_⟩
    rcases List.mem_append.mp member with new | old
    · exact gone ((inv.alive_iff a).mp (alive a new))
    · exact gone old
  | _ => exact ⟨known, gone⟩

theorem created_mono (stepped : Stepped s act s' out) :
    s.emitter.created ≤ s'.emitter.created := by
  cases stepped with
  | uses _ _ taken | waits _ _ taken | yields _ _ taken | fails _ _ taken | exhausted _ _ taken
  | dismisses _ _ taken | calls _ _ taken => exact Emitter.created_le taken
  | drops _ _ _ taken => exact Emitter.created_le taken
  | spawns => exact Nat.le_succ _
  | _ => exact le_rfl

/-- Names are not given out again. -/
theorem absent_kept {k : Nat} (stepped : Stepped s act s' out)
    (absent : s.futures.get? k = none) (old : k < s.emitter.created) :
    s'.futures.get? k = none := by
  have insert : ∀ {j : Nat} {before after : Hearer V}, s.futures.get? j = some before →
      (s.futures.insert j after).get? k = none := by
    intro j before after here
    rw [OrderedMap.get?_insert]
    split
    next same => cases (same ▸ absent).symm.trans here
    next => exact absent
  cases stepped with
  | spawns => exact (OrderedMap.get?_insert_of_ne _ _ old.ne).trans absent
  | drops =>
    rw [OrderedMap.get?_erase]
    split
    · rfl
    · exact absent
  | refuses _ here | exhausted _ here | dismisses _ here => exact insert here
  | _ => exact absent

/-- What is known when the closure is called. -/
private theorem calls_cases {k : Nat} (stepped : Stepped s act s' out)
    (calls : out.calls k = true) : ∃ captured,
      s.futures.get? k = some ⟨.listen captured, false⟩ ∧
      ((∀ a ∈ (Job.listen captured).captures, s.heap.alive a) ∨
        (∃ item, out = .dismissed k item) ∧
          s'.futures.get? k = some ⟨.listen captured, true⟩) := by
  cases stepped with
  | dismisses _ found =>
    obtain rfl : _ = k := by simpa [Out.calls] using calls
    exact ⟨_, found, .inr ⟨⟨_, rfl⟩, OrderedMap.get?_insert_self _ _ _⟩⟩
  | calls _ found _ alive =>
    obtain rfl : _ = k := by simpa [Out.calls] using calls
    exact ⟨_, found, .inl alive⟩
  | _ => cases calls

/-- Something that the future has captured is gone, and its closure has been called `calls`
times since; or the future is gone. -/
inductive Deaf (s : Audience W T V) (k : Nat) (a : Allocation) (calls : Nat) : Prop
  | dropped (absent : s.futures.get? k = none) (old : k < s.emitter.created) (once : calls ≤ 1)
  | dead {job done} (found : s.futures.get? k = some ⟨job, done⟩) (captures : a ∈ job.captures)
      (gone : a ∉ s.owned) (once : calls ≤ done.toNat)

theorem Deaf.step {k calls : Nat} {a : Allocation} (deaf : s.Deaf k a calls) (pointers : s.Pointers)
    (inv : s.Seats) (stepped : Stepped s act s' out) :
    s'.Deaf k a (calls + (out.calls k).toNat) ∧ ∀ item, out ≠ .called k item := by
  have later := created_mono stepped
  have uncalled : out.calls k = false → ∀ item, out ≠ .called k item := by
    rintro hears item rfl
    simp [Out.calls] at hears
  cases deaf with
  | dropped absent old once =>
    cases hears : out.calls k with
    | false =>
      exact ⟨.dropped (absent_kept stepped absent old) (old.trans_le later) once, uncalled hears⟩
    | true =>
      obtain ⟨captured, found, -⟩ := calls_cases stepped hears
      cases absent.symm.trans found
  | @dead job done found captures gone once =>
    have known := pointers.captured k _ found a captures
    have gone' := (gone_kept pointers stepped known gone).2
    cases hears : out.calls k with
    | false =>
      refine ⟨?_, uncalled hears⟩
      rcases hearer_kept inv stepped found with ⟨_, absent⟩ | ⟨done', found', still⟩
      · obtain ⟨sub, live⟩ := inv.streams k _ found
        exact .dropped absent ((inv.kept.named k sub live).trans_le later)
          (once.trans (Bool.toNat_le done))
      · refine .dead found' captures gone' (once.trans ?_)
        cases done with
        | false => exact Nat.zero_le _
        | true => rw [still rfl]
    | true =>
      -- with one of the allocations gone the upgrade fails, and the listener is done
      obtain ⟨captured, here, alive | ⟨⟨item, rfl⟩, after⟩⟩ := calls_cases stepped hears
      · cases found.symm.trans here
        exact absurd ((pointers.alive_iff a).mp (alive a captures)) gone
      · cases found.symm.trans here
        exact ⟨.dead after captures gone' (by simpa using once), nofun⟩

omit [Usize] in
theorem Deaf.calls_le {k calls : Nat} {a : Allocation} (deaf : s.Deaf k a calls) : calls ≤ 1 := by
  cases deaf with
  | dropped _ _ once => exact once
  | dead _ _ _ once => exact once.trans (Bool.toNat_le _)

omit [Usize] in
/-- The closure has been called only if the listener is done. -/
theorem Deaf.done_of_calls {k calls : Nat} {a : Allocation} (deaf : s.Deaf k a calls)
    (called : 0 < calls) : ∀ hearer, s.futures.get? k = some hearer → hearer.done = true := by
  intro hearer here
  cases deaf with
  | dropped absent => cases absent.symm.trans here
  | @dead job done found _ _ once =>
    cases found.symm.trans here
    cases done with
    | true => rfl
    | false => exact absurd called (Nat.not_lt.mpr once)

/-- Futures keep nothing alive: what they have captured lives as long as user code owns it.
Once something a future has captured is gone, its callback is not called again, and its
closure is called once more at most; that call ends the listener, and the next turn of its
loop returns. -/
theorem captures_die_with_users
    {before later : List (Machine.Transition (Audience W T V) (Act W T V) (Out T))}
    {t : Machine.Transition (Audience W T V) (Act W T V) (Out T)}
    (run : machine.Run (before ++ t :: later) s) :
    (∀ a, s.heap.strong a = s.owned.count a) ∧
    ∀ k hearer a, t.after.futures.get? k = some hearer → a ∈ hearer.job.captures →
      ¬t.after.heap.alive a →
      (∀ u ∈ later, ∀ item, u.out ≠ .called k item) ∧
        (later.countP fun u => u.out.calls k) ≤ 1 ∧
        ((∃ u ∈ later, ∃ item, u.out = .dismissed k item) →
          (∀ hearer, s.futures.get? k = some hearer → hearer.done = true) ∧
          ∀ waker rest, s.stack = ⟨k, waker, false⟩ :: rest →
            s.step .turn = some ({ s with stack := rest }, .ready k none)) := by
  refine ⟨(Pointers.of_run run).counted, ?_⟩
  rintro k ⟨job, done⟩ a found captures dead
  have deaf : (∀ u ∈ later, ∀ item, u.out ≠ .called k item) ∧
      s.Deaf k a (later.countP fun u => u.out.calls k) := by
    refine run.since (P := fun us s => (∀ u ∈ us, ∀ item, u.out ≠ .called k item) ∧
      s.Deaf k a (us.countP fun u => u.out.calls k)) ?_ ?_
    · intro _ _
      refine ⟨by simp, .dead found captures (fun mine => dead ?_) (Nat.zero_le _)⟩
      exact ((Pointers.of_run run.upTo).alive_iff a).mpr mine
    · rintro us u prior ⟨uncalled, deaf⟩ taken
      obtain ⟨next, other⟩ :=
        deaf.step (Pointers.of_run prior) (Seats.of_run prior) (step_spec taken)
      refine ⟨fun v member => ?_, ?_⟩
      · rcases List.mem_append.mp member with old | new
        · exact uncalled v old
        · exact List.mem_singleton.mp new ▸ other
      · simpa only [countP_snoc] using next
  refine ⟨deaf.1, deaf.2.calls_le, fun ⟨u, member, item, dismissed⟩ => ?_⟩
  have called : 0 < later.countP fun u => u.out.calls k :=
    List.countP_pos_iff.mpr ⟨u, member, by simp [dismissed, Out.calls]⟩
  have ended := deaf.2.done_of_calls called
  refine ⟨ended, fun waker rest top => ?_⟩
  obtain ⟨hearer, found⟩ := (Seats.of_run run).stacked.known ⟨k, waker, false⟩ (by simp [top])
  simp [step, top, turn, show s.futures.get? k = some hearer from found, ended hearer found]

end Audience

end

namespace Audience

/-- The callback emits, and the poll goes on for one turn more. -/
theorem emitting_callback_ends :
    ∃ before : List (Machine.Transition (Audience Nat Nat Nat) (Act Nat Nat Nat) (Out Nat)),
    ∃ p during s, machine.Run (before ++ p :: during) s ∧
    before.map Machine.Transition.act = [.listen, .emitter (.emit 7)] ∧ p.act = .poll 0 1 ∧
    during.map Machine.Transition.act = [.turn, .emitter (.emit 8), .answer true] ∧
    during.countP (turnOf 0) ≤ 2 ∧ (during.countP fun u => u.out.calls 0) ≤ 1 ∧
    s.step .turn ≠ none := by
  obtain ⟨before, p, during, s, run, first, act, rest, goes, top⟩ :=
    Machine.exists_run_at (m := machine (W := Nat) (T := Nat) (V := Nat))
      (P := fun _ _ during s => (∀ u ∈ during, u.out.ends 0 = false) ∧ s.stack = [⟨0, 1, false⟩])
      [.listen, .emitter (.emit 7)] (.poll 0 1) [.turn, .emitter (.emit 8), .answer true] rfl
      (by decide)
  obtain ⟨turns, calls, total⟩ := polls_end run act goes
  exact ⟨before, p, during, s, run, first, act, rest, turns, calls, total 1 [] top⟩

/-- The value that a future has captured is dropped before the next emission. -/
theorem closure_dismissed :
    ∃ before : List (Machine.Transition (Audience Nat Nat Nat) (Act Nat Nat Nat) (Out Nat)),
    ∃ t later s, machine.Run (before ++ t :: later) s ∧
    before.map Machine.Transition.act = [.alloc .rc, .listenWith (.pointer (.strong ⟨⟨.rc, 0⟩⟩))] ∧
    t.act = .release ⟨.rc, 0⟩ ∧
    later.map Machine.Transition.act = [.emitter (.emit 7), .poll 0 1, .turn, .turn] ∧
    later.map Machine.Transition.out = [.emitter .done, .quiet, .dismissed 0 ⟨0, 7⟩,
      .ready 0 none] ∧
    (∀ u ∈ later, ∀ item, u.out ≠ .called 0 item) ∧
    (later.countP fun u => u.out.calls 0) ≤ 1 ∧
    ∀ hearer, s.futures.get? 0 = some hearer → hearer.done = true := by
  obtain ⟨before, t, later, s, run, first, act, rest, outs, captures, dead⟩ :=
    Machine.exists_run_at (m := machine (W := Nat) (T := Nat) (V := Nat))
      (P := fun _ t later _ => later.map Machine.Transition.out = [.emitter .done, .quiet,
          .dismissed 0 ⟨0, 7⟩, .ready 0 none] ∧
        (t.after.futures.get? 0).map (fun hearer => hearer.job.captures) = some [⟨.rc, 0⟩] ∧
        ¬t.after.heap.alive ⟨.rc, 0⟩)
      [.alloc .rc, .listenWith (.pointer (.strong ⟨⟨.rc, 0⟩⟩))] (.release ⟨.rc, 0⟩)
      [.emitter (.emit 7), .poll 0 1, .turn, .turn] rfl (by decide)
  obtain ⟨hearer, found, same⟩ := Option.map_eq_some_iff.mp captures
  obtain ⟨uncalled, once, ends⟩ :=
    (captures_die_with_users run).2 0 hearer ⟨.rc, 0⟩ found (by simp [same]) dead
  have dismissed : ∃ u ∈ later, ∃ item, u.out = .dismissed 0 item := by
    have member : Out.dismissed 0 ⟨0, 7⟩ ∈ later.map Machine.Transition.out := by simp [outs]
    obtain ⟨u, here, out⟩ := List.mem_map.mp member
    exact ⟨u, here, _, out⟩
  exact ⟨before, t, later, s, run, first, act, rest, outs, uncalled, once, (ends dismissed).1⟩

end Audience

end Eneste
