import Mathlib

/-!
# Downgrade and upgrade

`upgrade.rs`: a value with pointers in it is downgraded to the same value with weak
pointers, and later upgraded again. The macro for tuples and the instances for `Option`
and the primitives are one recursion over the value. What `Rc`, `Arc` and their `Weak`
do to the counts of an allocation is that of the standard library.
-/

namespace Eneste.Upgrade

/-- `Rc::new` or `Arc::new` has made it. -/
inductive Owner where
  | rc
  | arc
  deriving DecidableEq

/-- `Weak::new` refers to an allocation that nothing is ever stored in. -/
structure Allocation where
  owner : Owner
  address : Nat
  deriving DecidableEq

/-- An `Rc` or an `Arc`. -/
structure Strong where
  allocation : Allocation
  deriving DecidableEq

/-- A `Weak` of either kind. -/
structure Weak where
  allocation : Allocation
  deriving DecidableEq

/-- The pointers that can be downgraded. -/
inductive Pointer where
  | strong (pointer : Strong)
  | weak (pointer : Weak)
  deriving DecidableEq

def Pointer.allocation : Pointer → Allocation
  | .strong pointer => pointer.allocation
  | .weak pointer => pointer.allocation

mutual

/-- Values over pointers `P` and primitives `V`. -/
inductive Value (P V : Type) : Type where
  | pointer (p : P)
  | primitive (v : V)
  | none
  | some (value : Value P V)
  /-- `tuples!` goes up to 16 members. -/
  | tuple {n : Nat} (supported : n ≤ 16) (members : Members P V n)

inductive Members (P V : Type) : Nat → Type where
  | last (value : Value P V) : Members P V 1
  | more {n : Nat} (first : Value P V) (rest : Members P V n) : Members P V (n + 1)

end

variable {P Q V : Type}

mutual

/-- The same value with other pointers. -/
def Value.map (f : P → Q) : Value P V → Value Q V
  | .pointer p => .pointer (f p)
  | .primitive v => .primitive v
  | .none => .none
  | .some value => .some (value.map f)
  | .tuple supported members => .tuple supported (members.map f)

def Members.map {n : Nat} (f : P → Q) : Members P V n → Members Q V n
  | .last value => .last (value.map f)
  | .more first rest => .more (first.map f) (rest.map f)

end

mutual

/-- The pointers in a value, from left to right. -/
def Value.pointers : Value P V → List P
  | .pointer p => [p]
  | .primitive _ => []
  | .none => []
  | .some value => value.pointers
  | .tuple _ members => members.pointers

def Members.pointers {n : Nat} : Members P V n → List P
  | .last value => value.pointers
  | .more first rest => first.pointers ++ rest.pointers

end

/-! ### Counts -/

/-- The counts of all allocations. -/
structure Heap where
  strong : Allocation → Nat
  weak : Allocation → Nat

namespace Heap

def alive (h : Heap) (a : Allocation) : Prop := 0 < h.strong a

instance (h : Heap) (a : Allocation) : Decidable (h.alive a) := Nat.decLt _ _

/-- Each of the allocations has one more owner for each time it is listed. -/
def hold (h : Heap) (owned : List Allocation) : Heap :=
  { h with strong := fun a => h.strong a + owned.count a }

@[simp] theorem hold_nil (h : Heap) : h.hold [] = h := rfl

theorem hold_append (h : Heap) (as bs : List Allocation) :
    (h.hold as).hold bs = h.hold (as ++ bs) := by
  simp [hold, List.count_append, Nat.add_assoc]

/-- What is alive gets more owners, and nothing else comes alive. -/
theorem alive_hold {h : Heap} {owned : List Allocation} (alive : ∀ a ∈ owned, h.alive a)
    (a : Allocation) : (h.hold owned).alive a ↔ h.alive a := by
  constructor
  · intro held
    by_cases member : a ∈ owned
    · exact alive a member
    · simpa [Heap.alive, hold, List.count_eq_zero_of_not_mem member] using held
  · exact fun living => Nat.add_pos_left living _

end Heap

/-- `Rc::downgrade`, `Arc::downgrade` and `Weak::clone`. -/
def Pointer.downgrade (p : Pointer) (h : Heap) : Weak × Heap :=
  (⟨p.allocation⟩,
    { h with weak := Function.update h.weak p.allocation (h.weak p.allocation + 1) })

/-- `Weak::upgrade`. -/
def Weak.upgrade (w : Weak) (h : Heap) : Option Strong × Heap :=
  if h.strong w.allocation = 0 then (none, h)
  else (some ⟨w.allocation⟩,
    { h with strong := Function.update h.strong w.allocation (h.strong w.allocation + 1) })

/-- An `Rc` or `Arc` is dropped. -/
def Strong.drop (s : Strong) (h : Heap) : Heap :=
  { h with strong := Function.update h.strong s.allocation (h.strong s.allocation - 1) }

/-! ### The instances -/

mutual

/-- `Downgrade::downgrade`. -/
def Value.downgrade : Value Pointer V → Heap → Value Weak V × Heap
  | .pointer p, h =>
    let (w, h) := p.downgrade h
    (.pointer w, h)
  | .primitive v, h => (.primitive v, h)
  | .none, h => (.none, h)
  | .some value, h =>
    let (value, h) := value.downgrade h
    (.some value, h)
  | .tuple supported members, h =>
    let (members, h) := members.downgrade h
    (.tuple supported members, h)

def Members.downgrade {n : Nat} : Members Pointer V n → Heap → Members Weak V n × Heap
  | .last value, h =>
    let (value, h) := value.downgrade h
    (.last value, h)
  | .more first rest, h =>
    let (first, h) := first.downgrade h
    let (rest, h) := rest.downgrade h
    (.more first rest, h)

end

mutual

/-- An upgraded value is dropped. -/
def Value.drop : Value Strong V → Heap → Heap
  | .pointer s, h => s.drop h
  | .primitive _, h => h
  | .none, h => h
  | .some value, h => value.drop h
  | .tuple _ members, h => members.drop h

def Members.drop {n : Nat} : Members Strong V n → Heap → Heap
  | .last value, h => value.drop h
  | .more first rest, h => rest.drop (first.drop h)

end

mutual

/-- `Upgrade::upgrade`. -/
def Value.upgrade : Value Weak V → Heap → Option (Value Strong V) × Heap
  | .pointer w, h =>
    let (s, h) := w.upgrade h
    (s.map .pointer, h)
  | .primitive v, h => (some (.primitive v), h)
  | .none, h => (some .none, h)
  | .some value, h =>
    let (value, h) := value.upgrade h
    (value.map .some, h)
  | .tuple supported members, h =>
    let (members, h) := members.upgrade h
    (members.map (.tuple supported), h)

/-- The members one after the other; with `?`, the first that fails drops those before it. -/
def Members.upgrade {n : Nat} : Members Weak V n → Heap → Option (Members Strong V n) × Heap
  | .last value, h =>
    let (value, h) := value.upgrade h
    (value.map .last, h)
  | .more first rest, h =>
    match first.upgrade h with
    | (none, h) => (none, h)
    | (some first, h) =>
      match rest.upgrade h with
      | (none, h) => (none, first.drop h)
      | (some rest, h) => (some (.more first rest), h)

end

/-! ### What they amount to -/

def Pointer.weaken (p : Pointer) : Weak := ⟨p.allocation⟩

def Weak.strengthen (w : Weak) : Strong := ⟨w.allocation⟩

/-- The strong pointer to the same allocation. -/
def Pointer.strengthen (p : Pointer) : Strong := ⟨p.allocation⟩

theorem Weak.upgrade_alive {w : Weak} {h : Heap} (alive : h.alive w.allocation) :
    w.upgrade h = (some w.strengthen, h.hold [w.allocation]) := by
  have counted : Function.update h.strong w.allocation (h.strong w.allocation + 1) =
      fun a => h.strong a + [w.allocation].count a := by
    funext a
    by_cases same : a = w.allocation
    · simp [same]
    · simp [same, Ne.symm same]
  simp [upgrade, alive.ne', counted, Heap.hold, strengthen]

theorem Weak.upgrade_dead {w : Weak} {h : Heap} (dead : ¬h.alive w.allocation) :
    w.upgrade h = (none, h) := by
  have zero : h.strong w.allocation = 0 := Nat.eq_zero_of_not_pos dead
  simp [upgrade, zero]

theorem Strong.drop_hold (s : Strong) (h : Heap) (owned : List Allocation) :
    s.drop (h.hold (s.allocation :: owned)) = h.hold owned := by
  simp only [drop, Heap.hold, Heap.mk.injEq, and_true]
  funext a
  by_cases same : a = s.allocation
  · simp [same]
  · simp [same, Ne.symm same]

mutual

theorem Value.map_map {R : Type} (f : P → Q) (g : Q → R) :
    ∀ x : Value P V, (x.map f).map g = x.map (g ∘ f)
  | .pointer _ | .primitive _ | .none => rfl
  | .some value => congrArg Value.some (value.map_map f g)
  | .tuple supported members => congrArg (Value.tuple supported) (members.map_map f g)

theorem Members.map_map {R : Type} {n : Nat} (f : P → Q) (g : Q → R) :
    ∀ members : Members P V n, (members.map f).map g = members.map (g ∘ f)
  | .last value => congrArg Members.last (value.map_map f g)
  | .more first rest => congrArg₂ Members.more (first.map_map f g) (rest.map_map f g)

end

mutual

theorem Value.pointers_map (f : P → Q) :
    ∀ x : Value P V, (x.map f).pointers = x.pointers.map f
  | .pointer _ | .primitive _ | .none => rfl
  | .some value => value.pointers_map f
  | .tuple _ members => members.pointers_map f

theorem Members.pointers_map {n : Nat} (f : P → Q) :
    ∀ members : Members P V n, (members.map f).pointers = members.pointers.map f
  | .last value => value.pointers_map f
  | .more first rest => by
    simp only [Members.map, Members.pointers, first.pointers_map f, rest.pointers_map f,
      List.map_append]

end

mutual

/-- Downgrading turns each pointer into a weak one and leaves the strong counts alone. -/
theorem Value.downgrade_spec (x : Value Pointer V) (h : Heap) :
    (x.downgrade h).1 = x.map Pointer.weaken ∧ (x.downgrade h).2.strong = h.strong := by
  cases x with
  | pointer p => exact ⟨rfl, rfl⟩
  | primitive v => exact ⟨rfl, rfl⟩
  | none => exact ⟨rfl, rfl⟩
  | some value =>
    obtain ⟨weak, same⟩ := value.downgrade_spec h
    exact ⟨congrArg Value.some weak, same⟩
  | tuple supported members =>
    obtain ⟨weak, same⟩ := members.downgrade_spec h
    exact ⟨congrArg (Value.tuple supported) weak, same⟩

theorem Members.downgrade_spec {n : Nat} (members : Members Pointer V n) (h : Heap) :
    (members.downgrade h).1 = members.map Pointer.weaken ∧
      (members.downgrade h).2.strong = h.strong := by
  cases members with
  | last value =>
    obtain ⟨weak, same⟩ := value.downgrade_spec h
    exact ⟨congrArg Members.last weak, same⟩
  | more first rest =>
    obtain ⟨weak, same⟩ := first.downgrade_spec h
    obtain ⟨others, kept⟩ := rest.downgrade_spec (first.downgrade h).2
    exact ⟨congrArg₂ Members.more weak others, kept.trans same⟩

end

mutual

/-- Dropping a value takes back what its pointers own. -/
theorem Value.drop_hold (x : Value Strong V) (h : Heap) (owned : List Allocation) :
    x.drop (h.hold (x.pointers.map Strong.allocation ++ owned)) = h.hold owned := by
  cases x with
  | pointer s => exact s.drop_hold h owned
  | primitive v => rfl
  | none => rfl
  | some value => exact value.drop_hold h owned
  | tuple supported members => exact members.drop_hold h owned

theorem Members.drop_hold {n : Nat} (members : Members Strong V n) (h : Heap)
    (owned : List Allocation) :
    members.drop (h.hold (members.pointers.map Strong.allocation ++ owned)) = h.hold owned := by
  cases members with
  | last value => exact value.drop_hold h owned
  | more first rest =>
    simp only [Members.drop, Members.pointers, List.map_append, List.append_assoc]
    rw [first.drop_hold, rest.drop_hold]

end

mutual

/-- While all its allocations are alive a value is upgraded, and owns each of them once more
for each pointer to it. -/
theorem Value.upgrade_alive (x : Value Weak V) (h : Heap)
    (alive : ∀ w ∈ x.pointers, h.alive w.allocation) :
    x.upgrade h = (some (x.map Weak.strengthen), h.hold (x.pointers.map Weak.allocation)) := by
  cases x with
  | pointer w =>
    have upgraded := Weak.upgrade_alive (alive w (by simp [Value.pointers]))
    simp only [Value.upgrade, upgraded]
    rfl
  | primitive v => rfl
  | none => rfl
  | some value =>
    simp only [Value.upgrade, value.upgrade_alive h alive]
    rfl
  | tuple supported members =>
    simp only [Value.upgrade, members.upgrade_alive h alive]
    rfl

theorem Members.upgrade_alive {n : Nat} (members : Members Weak V n) (h : Heap)
    (alive : ∀ w ∈ members.pointers, h.alive w.allocation) :
    members.upgrade h =
      (some (members.map Weak.strengthen), h.hold (members.pointers.map Weak.allocation)) := by
  cases members with
  | last value =>
    simp only [Members.upgrade, value.upgrade_alive h alive]
    rfl
  | more first rest =>
    simp only [Members.pointers, List.mem_append, or_imp, forall_and] at alive
    obtain ⟨here, there⟩ := alive
    have taken := first.upgrade_alive h here
    have kept : ∀ a ∈ first.pointers.map Weak.allocation, h.alive a := by
      simpa using here
    -- what the first member has taken keeps the others alive
    have others := rest.upgrade_alive (h.hold (first.pointers.map Weak.allocation))
      fun w member => (Heap.alive_hold kept w.allocation).mpr (there w member)
    simp only [Members.upgrade, taken, others, Heap.hold_append, Members.pointers,
      List.map_append]
    rfl

end

mutual

/-- If an allocation is dead the upgrade fails, and whatever was taken has been given back. -/
theorem Value.upgrade_dead (x : Value Weak V) (h : Heap)
    (dead : ∃ w ∈ x.pointers, ¬h.alive w.allocation) : x.upgrade h = (none, h) := by
  cases x with
  | pointer w =>
    obtain ⟨other, member, dead⟩ := dead
    cases List.mem_singleton.mp member
    simp only [Value.upgrade, Weak.upgrade_dead dead]
    rfl
  | primitive v => simp [Value.pointers] at dead
  | none => simp [Value.pointers] at dead
  | some value =>
    simp only [Value.upgrade, value.upgrade_dead h dead]
    rfl
  | tuple supported members =>
    simp only [Value.upgrade, members.upgrade_dead h dead]
    rfl

theorem Members.upgrade_dead {n : Nat} (members : Members Weak V n) (h : Heap)
    (dead : ∃ w ∈ members.pointers, ¬h.alive w.allocation) : members.upgrade h = (none, h) := by
  cases members with
  | last value =>
    simp only [Members.upgrade, value.upgrade_dead h dead]
    rfl
  | more first rest =>
    by_cases here : ∃ w ∈ first.pointers, ¬h.alive w.allocation
    · simp only [Members.upgrade, first.upgrade_dead h here]
    · -- the first member is upgraded, one of the others fails, and the first is dropped
      push Not at here
      have taken := first.upgrade_alive h here
      have kept : ∀ a ∈ first.pointers.map Weak.allocation, h.alive a := by
        simpa using here
      obtain ⟨w, member, dead⟩ := dead
      have there : w ∈ rest.pointers :=
        (List.mem_append.mp member).resolve_left fun early => dead (here w early)
      have others := rest.upgrade_dead (h.hold (first.pointers.map Weak.allocation))
        ⟨w, there, fun living => dead ((Heap.alive_hold kept w.allocation).mp living)⟩
      have returned := (first.map Weak.strengthen).drop_hold h []
      rw [Value.pointers_map, List.map_map, List.append_nil] at returned
      have same : Strong.allocation ∘ Weak.strengthen = Weak.allocation := rfl
      simp only [Members.upgrade, taken, others]
      rw [← same, returned, Heap.hold_nil]

end

/-- A value is upgraded if and only if all its allocations are alive, and else not at all. -/
theorem Value.upgrade_eq_some_iff (x : Value Weak V) (h : Heap) (y : Value Strong V) :
    (x.upgrade h).1 = Option.some y ↔
      (∀ w ∈ x.pointers, h.alive w.allocation) ∧ y = x.map Weak.strengthen := by
  by_cases alive : ∀ w ∈ x.pointers, h.alive w.allocation
  · rw [x.upgrade_alive h alive, Option.some.injEq, eq_comm]
    exact (and_iff_right alive).symm
  · push Not at alive
    simp only [x.upgrade_dead h alive, reduceCtorEq, false_iff, not_and]
    obtain ⟨w, member, dead⟩ := alive
    exact fun living => absurd (living w member) dead

/-- Upgrading what was downgraded gives the value back, each pointer strong, if and only if
every allocation it refers to is alive by then. Downgrading changes no strong count, and
neither does an upgrade that fails, whatever is upgraded. -/
theorem upgrade_all_or_nothing (x : Value Pointer V) (before later : Heap) :
    (∀ y, ((x.downgrade before).1.upgrade later).1 = some y ↔
      (∀ p ∈ x.pointers, later.alive p.allocation) ∧ y = x.map Pointer.strengthen) ∧
    (x.downgrade before).2.strong = before.strong ∧
    ∀ (w : Value Weak V) (h : Heap), (w.upgrade h).1 = none →
      (w.upgrade h).2.strong = h.strong := by
  obtain ⟨weak, same⟩ := x.downgrade_spec before
  refine ⟨fun y => ?_, same, fun w h failed => ?_⟩
  · have strengthened : Weak.strengthen ∘ Pointer.weaken = Pointer.strengthen := rfl
    rw [weak, Value.upgrade_eq_some_iff, Value.pointers_map, Value.map_map, strengthened,
      List.forall_mem_map]
    rfl
  · have dead : ∃ w' ∈ w.pointers, ¬h.alive w'.allocation := by
      by_contra alive
      push Not at alive
      rw [w.upgrade_alive h alive] at failed
      cases failed
    rw [w.upgrade_dead h dead]

/-- Two members that share an allocation have been taken when the third turns out dead. -/
example :
    let h : Heap := ⟨fun a => if a.address = 0 then 1 else 0, fun _ => 0⟩
    let here : Value Weak Nat := .some (.pointer ⟨.rc, 0⟩)
    let gone : Value Weak Nat := .pointer ⟨.arc, 1⟩
    let members : Members Weak Nat 3 := .more here (.more here (.last gone))
    (members.upgrade h).1 = none ∧ (members.upgrade h).2.strong ⟨.rc, 0⟩ = 1 :=
  ⟨rfl, rfl⟩

end Eneste.Upgrade
