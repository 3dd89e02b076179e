import Eneste.Library.Machine

/-!
# Atomic objects

An object shared by threads, whose operations take effect in one step between their call
and their return. What a run shows are the calls and the returns. A machine that shows
what some run of an atomic object does is as good as one (`Linearizable`).
-/

variable {V Op Ans : Type}

/-- Where a thread is with its operation on the object. -/
inductive AtomicObject.Phase (Op Ans : Type) where
  | outside
  | called (op : Op)
  /-- The operation has taken effect. -/
  | done (op : Op) (answer : Ans)

structure AtomicObject (V Op Ans : Type) where
  value : V
  phases : Nat → AtomicObject.Phase Op Ans

namespace AtomicObject

inductive Act (Op : Type) where
  | call (thread : Nat) (op : Op)
  | commit (thread : Nat)
  | finish (thread : Nat)
  deriving DecidableEq

/-- What is seen of a run. -/
inductive Visible (Op Ans : Type) where
  | called (thread : Nat) (op : Op)
  | returned (thread : Nat) (op : Op) (answer : Ans)
  deriving DecidableEq

def setPhase (o : AtomicObject V Op Ans) (thread : Nat) (phase : Phase Op Ans) :
    AtomicObject V Op Ans :=
  { o with phases := Function.update o.phases thread phase }

theorem phases_setPhase (o : AtomicObject V Op Ans) (thread t : Nat) (phase : Phase Op Ans) :
    (o.setPhase thread phase).phases t = if t = thread then phase else o.phases t := by
  simp [setPhase, Function.update_apply]

section

variable (apply : Op → V → Ans × V)

def step (o : AtomicObject V Op Ans) :
    Act Op → Option (AtomicObject V Op Ans × Option (Visible Op Ans))
  | .call thread op =>
    match o.phases thread with
    | .outside => some (o.setPhase thread (.called op), some (.called thread op))
    | _ => none
  | .commit thread =>
    match o.phases thread with
    | .called op =>
      let (answer, value) := apply op o.value
      some ({ o with value := value }.setPhase thread (.done op answer), none)
    | _ => none
  | .finish thread =>
    match o.phases thread with
    | .done op answer =>
      some (o.setPhase thread .outside, some (.returned thread op answer))
    | _ => none

def machine (value : V) : Machine (AtomicObject V Op Ans) (Act Op) (Option (Visible Op Ans)) where
  init o := o = ⟨value, fun _ => .outside⟩
  step := step apply

/-- The machine shows nothing that an atomic object with this value could not show. -/
def Linearizable {σ α : Type} (value : V) (m : Machine σ α (Option (Visible Op Ans))) : Prop :=
  ∀ ts s, m.Run ts s → ∃ us o, (machine apply value).Run us o ∧
    us.filterMap Machine.Transition.out = ts.filterMap Machine.Transition.out

/-- Each step of the machine is none of the object, or one that shows the same. -/
theorem Linearizable.of_simulation {σ α : Type} {value : V}
    {m : Machine σ α (Option (Visible Op Ans))} (R : σ → AtomicObject V Op Ans → Prop)
    (initial : ∀ s, m.init s → R s ⟨value, fun _ => .outside⟩)
    (simulates : ∀ s o a s' r, R s o → m.step s a = some (s', r) →
      (R s' o ∧ r = none) ∨ ∃ b o', step apply o b = some (o', r) ∧ R s' o') :
    Linearizable apply value m := by
  intro ts s run
  have shown : ∃ us o, (machine apply value).Run us o ∧ R s o ∧
      us.filterMap (fun t => t.out) = ts.filterMap fun t => t.out := by
    refine run.observed R id id (fun s starts => ⟨_, rfl, initial s starts⟩) ?_
    intro s o a s' r related taken
    rcases simulates s o a s' r related taken with stays | ⟨b, o', moved, after⟩
    · exact .inl stays
    · exact .inr ⟨b, o', r, moved, after, rfl⟩
  obtain ⟨us, o, run', -, same⟩ := shown
  exact ⟨us, o, run', same⟩

end

end AtomicObject
