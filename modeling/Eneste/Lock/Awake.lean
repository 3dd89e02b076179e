import Eneste.Lock.Users

/-!
# Who is woken at a lock

Every change of a lock notifies one listener. If the future that consumes the
notification is refused it waits again and notifies nobody, so that another future
the lock would admit can be left asleep. `Users.Strands` says exactly when.
-/

namespace Eneste.Users

variable {W S K : Type}

section

variable (lock : Lock W S K) (who : K → Bool) (u : Users W S K)

/-- A parked future, of a kind in `who`, that the lock would admit. -/
def Admissible (k : Nat) : Prop :=
  ∃ f p, u.futures.get? k = some f ∧ f.waiter = .parked p ∧ who f.own = true ∧
    lock.admits f.own u.lock = true

/-- If there is such a future, one of the parked futures has been woken. -/
def Awake : Prop :=
  (∃ k, u.Admissible lock who k) →
    ∃ k p, parkedIn u.futures k = some p ∧ (lock.event.get u.lock).Roused p

/-- A woken future that the lock refuses is polled, a parked one is admissible, and none
of the other parked ones is notified. -/
def Strands (op : Op W K) : Prop :=
  ∃ k waker f p, op = .poll k waker ∧ u.futures.get? k = some f ∧ f.waiter = .parked p ∧
    EventListener.isNotified p.listener (lock.event.get u.lock) = true ∧
    lock.admits f.own u.lock = false ∧ (∃ j, u.Admissible lock who j) ∧
    ∀ j q, j ≠ k → parkedIn u.futures j = some q →
      EventListener.isNotified q.listener (lock.event.get u.lock) = false

end

variable [Usize] [DecidableEq K] {lock : Lock W S K} {who : K → Bool} {u u' : Users W S K}
  {r : Res K}

omit [Usize] [DecidableEq K] in
theorem Tied.awake_iff (tied : Tied lock u) :
    u.Awake lock who ↔ ((∃ k, u.Admissible lock who k) → (lock.event.get u.lock).Alert) := by
  unfold Awake
  constructor
  · intro awake some_k
    obtain ⟨k, p, asleep, roused⟩ := awake some_k
    exact (Attached.waiters tied).alert_iff tied.wf |>.mpr fun _ => ⟨k, p, asleep, roused⟩
  · rintro alert ⟨k, admissible⟩
    obtain ⟨f, p, live, parked, _⟩ := id admissible
    exact ((Attached.waiters tied).alert_iff tied.wf).mp (alert ⟨k, admissible⟩)
      ⟨k, p, parkedIn_of_parked live parked⟩

omit [Usize] [DecidableEq K] in
/-- The admissible futures of `u'` are futures of `u`, and the lock admits as before. -/
private theorem Admissible.of_parked {k : Nat} (admissible : u'.Admissible lock who k)
    (admits : ∀ kind, lock.admits kind u'.lock = lock.admits kind u.lock)
    (parked : ∀ f p, u'.futures.get? k = some f → f.waiter = .parked p →
      ∃ g q, u.futures.get? k = some g ∧ g.waiter = .parked q ∧ g.own = f.own) :
    u.Admissible lock who k := by
  obtain ⟨f, p, live, asleep, matching, admitted⟩ := admissible
  obtain ⟨g, q, before, slept, same⟩ := parked f p live asleep
  exact ⟨g, q, before, slept, by rw [same, matching], by rw [same, ← admits, admitted]⟩

/-- Polling a future keeps somebody awake unless it strands the others. -/
theorem awake_poll_iff (lawful : lock.Lawful) (tied : Tied lock u) {k : Nat} {waker : W}
    {f : Future W K} (live : u.futures.get? k = some f) (polled : Polled lock u k waker f u' r)
    (alert : (∃ j, u.Admissible lock who j) → (lock.event.get u.lock).Alert) :
    ((∃ j, u'.Admissible lock who j) → (lock.event.get u'.lock).Alert) ↔
      ¬u.Strands lock who (.poll k waker) := by
  cases polled with
  | @asleep p parked silent =>
    apply iff_of_true
    · rintro ⟨j, admissible⟩
      simp only [lock.event.get_set]
      -- storing a waker changes neither who is parked nor what the lock admits
      refine (alert ⟨j, admissible.of_parked (lawful.admits · _ _) ?_⟩).await
        (Attached.tracked tied live parked) waker
      intro g q found slept
      by_cases this : j = k
      · subst this
        simp only [OrderedMap.get?_insert_self, Option.some.injEq] at found
        subst found
        exact ⟨f, p, live, parked, rfl⟩
      · rw [OrderedMap.get?_insert_of_ne _ _ this] at found
        exact ⟨g, q, found, slept, rfl⟩
    · rintro ⟨_, _, _, q, ⟨⟩, found, slept, notified, _⟩
      cases live.symm.trans found
      cases parked.symm.trans slept
      rw [silent] at notified
      cases notified
  | acquired runnable admitted =>
    refine iff_of_true (fun _ => ?_) ?_
    · -- acquiring notifies somebody who waits, if anybody does
      simp only [lawful.acquire, lock.event.get_set]
      exact (Attached.finish tied live runnable).wf.alert_notify Nat.one_pos
    · rintro ⟨_, _, _, _, ⟨⟩, found, _, _, refused, _⟩
      cases live.symm.trans found
      -- a future that strands others is one the lock refuses
      rw [lawful.admits, refused] at admitted
      cases admitted
  | parks runnable refused =>
    rw [lawful.admits] at refused
    -- the refused future is not admissible itself, before or after
    have before : (∃ j, Admissible lock who { u with
        lock := lock.event.set u.lock ((f.waiter.settled (lock.event.get u.lock)).register waker)
        futures := u.futures.insert k { f with
          waiter := .parked ⟨(f.waiter.settled (lock.event.get u.lock)).nextId, waker,
            (f.waiter.settled (lock.event.get u.lock)).woken.length⟩ } } j) ↔
        ∃ j, u.Admissible lock who j := by
      constructor
      · rintro ⟨j, g, q, found, slept, matching, admitted⟩
        rw [lawful.admits] at admitted
        by_cases this : j = k
        · subst this
          simp only [OrderedMap.get?_insert_self, Option.some.injEq] at found
          subst found
          rw [refused] at admitted
          cases admitted
        · rw [OrderedMap.get?_insert_of_ne _ _ this] at found
          exact ⟨j, g, q, found, slept, matching, admitted⟩
      · rintro ⟨j, g, q, found, slept, matching, admitted⟩
        have this : j ≠ k := by
          rintro rfl
          cases live.symm.trans found
          rw [refused] at admitted
          cases admitted
        exact ⟨j, g, q, by simpa only [OrderedMap.get?_insert_of_ne _ _ this] using found, slept,
          matching, by rw [lawful.admits, admitted]⟩
    rw [before]
    simp only [lock.event.get_set, Inner.alert_register]
    cases parked : f.waiter with
    | idle =>
      refine iff_of_true (fun admissible => ?_) ?_
      · obtain ⟨j, g, q, found, slept, _⟩ := id admissible
        exact alert admissible ((Attached.waiters tied).size_pos_iff.mpr
          ⟨j, q, parkedIn_of_parked found slept⟩)
      · rintro ⟨_, _, _, _, ⟨⟩, found, slept, _⟩
        cases live.symm.trans found
        rw [parked] at slept
        cases slept
    | parked p =>
      have asleep := parkedIn_of_parked live parked
      have notified : EventListener.isNotified p.listener (lock.event.get u.lock) = true := by
        simpa [parked, Waiter.Runnable] using runnable
      -- it consumes its notification and registers again without notifying anybody
      have left := (Attached.waiters tied).consume_notified_iff tied.wf asleep notified
      simp only [Waiter.settled, left]
      constructor
      · -- somebody else was notified, so the others are not stranded
        rintro kept ⟨_, _, _, _, ⟨⟩, _, _, _, _, admissible, silent⟩
        obtain ⟨j, q, other, slept, holds⟩ := kept admissible
        rw [silent j q other slept] at holds
        cases holds
      · -- an admissible future with nobody notified is what stranding means
        intro safe admissible
        by_contra none_left
        push Not at none_left
        exact safe ⟨k, waker, f, p, rfl, live, parked, notified, refused, admissible,
          fun j q other slept => by simpa using none_left j q other slept⟩

/-- A call keeps somebody awake unless it strands the others. -/
theorem awake_step_iff (lawful : lock.Lawful) (tied : Tied lock u) {op : Op W K}
    (taken : u.step lock op = some (u', r)) (awake : u.Awake lock who) :
    u'.Awake lock who ↔ ¬u.Strands lock who op := by
  rw [(tied.step lawful taken).awake_iff]
  have alert := tied.awake_iff.mp awake
  cases op with
  | lock kind =>
    cases taken
    refine iff_of_true ?_ (by rintro ⟨_, _, _, _, ⟨⟩, _⟩)
    rintro ⟨j, admissible⟩
    refine alert ⟨j, admissible.of_parked (fun _ => rfl) fun g q found slept => ?_⟩
    -- a new future is idle, hence not parked
    rw [OrderedMap.get?_insert] at found
    split at found
    · cases found
      cases slept
    · exact ⟨g, q, found, slept, rfl⟩
  | poll k waker =>
    obtain ⟨f, live, polled⟩ := poll_spec tied taken
    exact awake_poll_iff lawful tied live polled alert
  | dropFuture k =>
    refine iff_of_true ?_ (by rintro ⟨_, _, _, _, ⟨⟩, _⟩)
    -- whoever is admissible now was so before, and a notification passes on
    have erased : ∀ j f p, (u.futures.erase k).get? j = some f → f.waiter = .parked p →
        ∃ g q, u.futures.get? j = some g ∧ g.waiter = .parked q ∧ g.own = f.own := by
      intro j f p found slept
      rw [OrderedMap.get?_erase] at found
      split at found
      · cases found
      · exact ⟨f, p, found, slept, rfl⟩
    rintro ⟨j, admissible⟩
    rcases dropFuture_cases taken with ⟨_, rfl⟩ | ⟨f, p, live, parked, rfl⟩
    · exact alert ⟨j, admissible.of_parked (fun _ => rfl) (erased j)⟩
    · have earlier := alert
        ⟨j, admissible.of_parked (fun kind => lawful.admits kind _ _) (erased j)⟩
      simpa only [lock.event.get_set] using earlier.drop tied.wf _
  | dropGuard kind =>
    refine iff_of_true (fun _ => ?_) (by rintro ⟨_, _, _, _, ⟨⟩, _⟩)
    obtain ⟨_, s, released, rfl⟩ := dropGuard_cases taken
    -- releasing notifies, whoever is admissible now
    rw [lawful.release _ _ _ released]
    exact tied.wf.alert_notify Nat.one_pos

/-- Somebody stays awake along a run exactly if no poll strands the others. -/
theorem awake_run_iff (lawful : lock.Lawful) {s : S} (tied : Tied lock (new s))
    {ts} (run : (machine lock s).Run ts u) :
    (u.Awake lock who ∧ ∀ t ∈ ts, t.before.Awake lock who) ↔
      ∀ t ∈ ts, ¬t.before.Strands lock who t.act := by
  refine run.safe_iff_guard (Tied lock) (Awake lock who) (fun u op => ¬u.Strands lock who op)
    (fun _ _ => tied_of_run lawful tied) ?_ ?_
  · rintro _ rfl ⟨k, f, p, live, _⟩
    cases live
  · exact fun _ _ _ _ kept awake taken => awake_step_iff lawful kept taken awake

end Eneste.Users
