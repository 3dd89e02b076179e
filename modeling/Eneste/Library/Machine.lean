import Mathlib

/-!
# Machines and their runs

A machine is a partial step function over labelled actions. A run records every
transition it took, so that a property may speak about the states visited, the
answers given, or the order of both. Invariants are proved from one step lemma;
`Run.safe_iff_guard` turns an exact one-step condition into an exact condition
on whole runs.
-/

variable {σ α ρ : Type}

/-- `step s a` is `none` when `a` is not possible in `s`. -/
structure Machine (σ α ρ : Type) where
  init : σ → Prop
  step : σ → α → Option (σ × ρ)

namespace Machine

structure Transition (σ α ρ : Type) where
  before : σ
  act : α
  out : ρ
  after : σ

/-- Finite runs, with the transitions taken so far in order. -/
inductive Run (m : Machine σ α ρ) : List (Transition σ α ρ) → σ → Prop
  | start {s} : m.init s → Run m [] s
  | next {ts s a s' r} : Run m ts s → m.step s a = some (s', r) →
      Run m (ts ++ [⟨s, a, r, s'⟩]) s'

variable {m : Machine σ α ρ} {ts : List (Transition σ α ρ)} {s : σ}

namespace Run

/-- A predicate on histories that each step preserves holds of every run. -/
theorem history {P : List (Transition σ α ρ) → σ → Prop}
    (initial : ∀ s, m.init s → P [] s)
    (preserved : ∀ ts s a s' r, P ts s → m.step s a = some (s', r) →
      P (ts ++ [⟨s, a, r, s'⟩]) s')
    (run : m.Run ts s) : P ts s := by
  induction run with
  | start h => exact initial _ h
  | next _ taken ih => exact preserved _ _ _ _ _ ih taken

theorem invariant {Inv : σ → Prop} (initial : ∀ s, m.init s → Inv s)
    (preserved : ∀ s a s' r, Inv s → m.step s a = some (s', r) → Inv s')
    (run : m.Run ts s) : Inv s :=
  run.history (P := fun _ s => Inv s) initial
    fun _ s a s' r inv taken => preserved s a s' r inv taken

/-- An invariant that rests on what is known of the states that runs reach. -/
theorem relative {P : σ → Prop} (initial : ∀ s, m.init s → P s)
    (preserved : ∀ ts s a s' r, m.Run ts s → P s → m.step s a = some (s', r) → P s')
    (run : m.Run ts s) : P s := by
  induction run with
  | start h => exact initial _ h
  | next prior taken ih => exact preserved _ _ _ _ _ prior ih taken

/-- An invariant of the runs all of whose steps meet a condition. -/
theorem invariant_where {Inv : σ → Prop} (guard : σ → α → Prop)
    (initial : ∀ s, m.init s → Inv s)
    (preserved : ∀ s a s' r, Inv s → guard s a → m.step s a = some (s', r) → Inv s')
    (run : m.Run ts s) (guarded : ∀ t ∈ ts, guard t.before t.act) : Inv s := by
  induction run with
  | start h => exact initial _ h
  | next _ taken ih =>
    simp only [List.mem_append, List.mem_singleton] at guarded
    exact preserved _ _ _ _ (ih fun t member => guarded t (Or.inl member))
      (guarded _ (Or.inr rfl)) taken

/-- Every recorded transition is a step out of a state that a shorter run reaches. -/
theorem step_of_mem (run : m.Run ts s) {t : Transition σ α ρ} (member : t ∈ ts) :
    (∃ earlier, m.Run earlier t.before) ∧ m.step t.before t.act = some (t.after, t.out) := by
  induction run with
  | start => simp at member
  | next prior taken ih =>
    simp only [List.mem_append, List.mem_singleton] at member
    rcases member with old | rfl
    · exact ih old
    · exact ⟨⟨_, prior⟩, taken⟩

/-- The last transition of a run is a step out of the state that the others reach. -/
theorem of_append {t : Transition σ α ρ} (run : m.Run (ts ++ [t]) s) :
    m.Run ts t.before ∧ m.step t.before t.act = some (t.after, t.out) ∧ t.after = s := by
  generalize whole : ts ++ [t] = us at run
  cases run with
  | start => simp at whole
  | next prior taken =>
    obtain ⟨rfl, same⟩ := List.append_inj' whole rfl
    cases List.singleton_inj.mp same
    exact ⟨prior, taken, rfl⟩

/-- What holds right after a transition and is kept by every step holds ever since. -/
theorem since {P : List (Transition σ α ρ) → σ → Prop} {before later : List (Transition σ α ρ)}
    {t : Transition σ α ρ} (run : m.Run (before ++ t :: later) s)
    (begins : m.Run before t.before → m.step t.before t.act = some (t.after, t.out) →
      P [] t.after)
    (lasts : ∀ us u, m.Run (before ++ t :: us) u.before → P us u.before →
      m.step u.before u.act = some (u.after, u.out) → P (us ++ [u]) u.after) : P later s := by
  induction later using List.reverseRecOn generalizing s with
  | nil =>
    obtain ⟨prior, taken, rfl⟩ := of_append run
    exact begins prior taken
  | append_singleton us u ih =>
    rw [← List.cons_append, ← List.append_assoc] at run
    obtain ⟨prior, taken, rfl⟩ := of_append run
    exact lasts us u prior (ih prior) taken

/-- A run up to one of its transitions. -/
theorem upTo {before later : List (Transition σ α ρ)} {t : Transition σ α ρ}
    (run : m.Run (before ++ t :: later) s) : m.Run (before ++ [t]) t.after :=
  run.since (P := fun _ _ => m.Run (before ++ [t]) t.after)
    (fun prior taken => prior.next taken) fun _ _ _ kept _ => kept

/-- If, wherever the invariant and `Safe` hold, a step keeps `Safe` exactly when it
meets the guard, then a run stays in `Safe` exactly when all its steps meet the guard. -/
theorem safe_iff_guard (Inv Safe : σ → Prop) (guard : σ → α → Prop)
    (invariant : ∀ ts s, m.Run ts s → Inv s) (initial : ∀ s, m.init s → Safe s)
    (exact : ∀ s a s' r, Inv s → Safe s → m.step s a = some (s', r) → (Safe s' ↔ guard s a))
    (run : m.Run ts s) :
    (Safe s ∧ ∀ t ∈ ts, Safe t.before) ↔ ∀ t ∈ ts, guard t.before t.act := by
  induction run with
  | start h => simpa using initial _ h
  | @next ts s a s' r prior taken ih =>
    simp only [List.mem_append, List.mem_singleton, or_imp, forall_and, forall_eq]
    constructor
    · rintro ⟨after, earlier, before⟩
      exact ⟨ih.mp ⟨before, earlier⟩,
        (exact s a s' r (invariant _ _ prior) before taken).mp after⟩
    · rintro ⟨earlier, here⟩
      obtain ⟨before, visited⟩ := ih.mpr earlier
      exact ⟨(exact s a s' r (invariant _ _ prior) before taken).mpr here, visited, before⟩

/-- The same from a transition on that leaves `Safe`, as long as only some steps are taken. -/
theorem safe_since_iff_guard (Safe : σ → Prop) (guard allowed : σ → α → Prop)
    {before later : List (Transition σ α ρ)} {t : Transition σ α ρ}
    (run : m.Run (before ++ t :: later) s)
    (begins : m.Run before t.before → m.step t.before t.act = some (t.after, t.out) →
      Safe t.after)
    (exact : ∀ ts s a s' r, m.Run ts s → Safe s → allowed s a → m.step s a = some (s', r) →
      (Safe s' ↔ guard s a))
    (only : ∀ u ∈ later, allowed u.before u.act) :
    (Safe s ∧ ∀ u ∈ later, Safe u.before) ↔ ∀ u ∈ later, guard u.before u.act := by
  refine run.since (P := fun us s => (∀ u ∈ us, allowed u.before u.act) →
    ((Safe s ∧ ∀ u ∈ us, Safe u.before) ↔ ∀ u ∈ us, guard u.before u.act)) ?_ ?_ only
  · exact fun prior taken _ => by simpa using begins prior taken
  · intro us u prior same taken only
    simp only [List.mem_append, List.mem_singleton, or_imp, forall_and, forall_eq] at only ⊢
    constructor
    · rintro ⟨after, earlier, here⟩
      exact ⟨(same only.1).mp ⟨here, earlier⟩,
        (exact _ _ _ _ _ prior here only.2 taken).mp after⟩
    · rintro ⟨earlier, last⟩
      obtain ⟨here, visited⟩ := (same only.1).mpr earlier
      exact ⟨(exact _ _ _ _ _ prior here only.2 taken).mpr last, visited, here⟩

/-- A phase that a transition with `starts` enters and that lasts while steps meet the
guard: in it each step meets `Safe` exactly when it meets the guard, hence so do all
steps that come after a starting one. -/
theorem after_iff_guard (Inv Phase : σ → Prop) (starts Safe guard : Transition σ α ρ → Prop)
    (invariant : ∀ ts s, m.Run ts s → Inv s)
    (enters : ∀ t, Inv t.before → m.step t.before t.act = some (t.after, t.out) → starts t →
      Phase t.after)
    (exact : ∀ t, Inv t.before → m.step t.before t.act = some (t.after, t.out) →
      Phase t.before → (Safe t ↔ guard t))
    (lasts : ∀ t, Inv t.before → m.step t.before t.act = some (t.after, t.out) →
      Phase t.before → guard t → Phase t.after)
    (run : m.Run ts s) :
    (ts.Pairwise fun earlier later => starts earlier → Safe later) ↔
      ts.Pairwise fun earlier later => starts earlier → guard later := by
  have both : ((ts.Pairwise fun earlier later => starts earlier → Safe later) ↔
      ts.Pairwise fun earlier later => starts earlier → guard later) ∧
      ((ts.Pairwise fun earlier later => starts earlier → guard later) →
        (∃ t ∈ ts, starts t) → Phase s) := by
    -- carry the phase along: a starting transition enters it, guarded ones keep it
    induction run with
    | start => simp
    | @next ts s a s' r prior taken ih =>
      obtain ⟨same, phase⟩ := ih
      have here := invariant _ _ prior
      simp only [List.pairwise_append, List.pairwise_singleton, List.mem_singleton, forall_eq,
        true_and]
      constructor
      · constructor
        · -- safe transitions so far are guarded, which puts the last one in the phase
          rintro ⟨earlier, last⟩
          have guarded := same.mp earlier
          exact ⟨guarded, fun t member began => (exact _ here taken
            (phase guarded ⟨t, member, began⟩)).mp (last t member began)⟩
        · rintro ⟨earlier, last⟩
          exact ⟨same.mpr earlier, fun t member began => (exact _ here taken
            (phase earlier ⟨t, member, began⟩)).mpr (last t member began)⟩
      · rintro ⟨earlier, last⟩ ⟨t, member, began⟩
        rcases List.mem_append.mp member with old | new
        · -- an earlier transition started the phase, and this one is guarded
          exact lasts _ here taken (phase earlier ⟨t, old, began⟩) (last t old began)
        · -- this transition starts it
          cases List.mem_singleton.mp new
          exact enters _ here taken began
  exact both.1

end Run

/-! ### Refinement -/

/-- States some run ends in. -/
def Reachable (m : Machine σ α ρ) (s : σ) : Prop := ∃ ts, m.Run ts s

/-- Any number of steps. -/
def Moves (m : Machine σ α ρ) : σ → σ → Prop :=
  Relation.ReflTransGen fun s s' => ∃ a r, m.step s a = some (s', r)

theorem Moves.one {s' : σ} {a : α} {r : ρ} (taken : m.step s a = some (s', r)) : m.Moves s s' :=
  .single ⟨a, r, taken⟩

theorem Reachable.moves {s' : σ} (reachable : m.Reachable s) (moves : m.Moves s s') :
    m.Reachable s' := by
  induction moves with
  | refl => exact reachable
  | tail _ step ih =>
    obtain ⟨ts, run⟩ := ih
    obtain ⟨a, r, taken⟩ := step
    exact ⟨_, run.next taken⟩

/-- If each step of a machine is some steps of another one on what `f` keeps of the
state, every state it reaches is reached by the other one. -/
theorem Run.refines {τ β γ : Type} {other : Machine τ β γ} (f : σ → τ)
    (initial : ∀ s, m.init s → other.init (f s))
    (simulates : ∀ ts s a s' r, m.Run ts s → m.step s a = some (s', r) →
      other.Moves (f s) (f s'))
    (run : m.Run ts s) : other.Reachable (f s) := by
  induction run with
  | start h => exact ⟨[], .start (initial _ h)⟩
  | next prior taken ih => exact ih.moves (simulates _ _ _ _ _ prior taken)

/-- If each step of a machine is a step of another one that shows the same, or shows
nothing and leaves the states related, then each of its runs shows what some run of the
other one does. -/
theorem Run.observed {τ β γ ω : Type} {other : Machine τ β γ} (R : σ → τ → Prop)
    (seen : ρ → Option ω) (seen' : γ → Option ω)
    (initial : ∀ s, m.init s → ∃ u, other.init u ∧ R s u)
    (simulates : ∀ s u a s' r, R s u → m.step s a = some (s', r) →
      (R s' u ∧ seen r = none) ∨
        ∃ b u' q, other.step u b = some (u', q) ∧ R s' u' ∧ seen' q = seen r)
    (run : m.Run ts s) : ∃ us u, other.Run us u ∧ R s u ∧
      us.filterMap (fun t => seen' t.out) = ts.filterMap fun t => seen t.out := by
  induction run with
  | start h =>
    obtain ⟨u, starts, related⟩ := initial _ h
    exact ⟨[], u, .start starts, related, rfl⟩
  | @next ts s a s' r prior taken ih =>
    obtain ⟨us, u, run, related, same⟩ := ih
    rcases simulates s u a s' r related taken with ⟨stays, silent⟩ | ⟨b, u', q, step, after, shows⟩
    · exact ⟨us, u, run, stays, by simp [same, silent]⟩
    · exact ⟨_, u', run.next step, after, by simp [same, List.filterMap_cons, shows]⟩

/-! ### Machines that cannot choose -/

/-- A run cut short is a run. -/
theorem Run.of_prefix {us : List (Transition σ α ρ)} (run : m.Run (ts ++ us) s) :
    ∃ s', m.Run ts s' := by
  induction us using List.reverseRecOn generalizing s with
  | nil => exact ⟨s, by simpa using run⟩
  | append_singleton us t ih =>
    rw [← List.append_assoc] at run
    exact ih run.of_append.1

section

variable [Subsingleton α] {us : List (Transition σ α ρ)} {s' : σ}
  (single : ∀ s s', m.init s → m.init s' → s = s')

include single

theorem Run.unique (run : m.Run ts s) (run' : m.Run us s') (same : ts.length = us.length) :
    ts = us ∧ s = s' := by
  induction run generalizing us s' with
  | start h =>
    cases run' with
    | start h' => exact ⟨rfl, single _ _ h h'⟩
    | next => simp at same
  | @next ts s a s₁ r prior taken ih =>
    cases run' with
    | start => simp at same
    | @next us u b u₁ q prior' taken' =>
      obtain ⟨rfl, rfl⟩ := ih prior' (by simpa using same)
      cases Subsingleton.elim a b
      cases taken.symm.trans taken'
      exact ⟨rfl, rfl⟩

/-- With one action to take and one state to start from, of two runs one is the beginning
of the other. -/
theorem Run.prefix_or_prefix (run : m.Run ts s) (run' : m.Run us s') : ts <+: us ∨ us <+: ts := by
  have shorter : ∀ {ts us : List (Transition σ α ρ)} {s s' : σ}, m.Run ts s → m.Run us s' →
      ts.length ≤ us.length → ts <+: us := by
    intro ts us s s' run run' le
    have whole := List.take_append_drop ts.length us
    rw [← whole] at run'
    obtain ⟨cut, start⟩ := run'.of_prefix
    have same := (run.unique single start (by simp [le])).1
    exact same ▸ List.take_prefix _ us
  rcases Nat.le_total ts.length us.length with le | le
  · exact Or.inl (shorter run run' le)
  · exact Or.inr (shorter run' run le)

end

/-- The machine that takes only the steps a condition allows. -/
def restrict (m : Machine σ α ρ) (allowed : σ → α → Bool) : Machine σ α ρ where
  init := m.init
  step s a := if allowed s a then m.step s a else none

theorem restrict_step {allowed : σ → α → Bool} {a : α} {r : σ × ρ}
    (taken : (m.restrict allowed).step s a = some r) :
    allowed s a = true ∧ m.step s a = some r := by
  simp only [restrict] at taken
  split at taken
  next legal => exact ⟨legal, taken⟩
  next => cases taken

theorem Run.of_restrict {allowed : σ → α → Bool} (run : (m.restrict allowed).Run ts s) :
    m.Run ts s := by
  induction run with
  | start h => exact .start h
  | next _ taken ih => exact .next ih (restrict_step taken).2

/-- Execute a list of actions, recording the transitions. -/
def exec (m : Machine σ α ρ) (s : σ) : List α → Option (List (Transition σ α ρ) × σ)
  | [] => some ([], s)
  | a :: rest =>
    match m.step s a with
    | none => none
    | some (s', r) =>
      match m.exec s' rest with
      | none => none
      | some (ts, last) => some (⟨s, a, r, s'⟩ :: ts, last)

private theorem run_exec (acts : List α) (us : List (Transition σ α ρ)) (last : σ)
    (run : m.Run ts s) (executed : m.exec s acts = some (us, last)) :
    m.Run (ts ++ us) last ∧ us.map Transition.act = acts := by
  induction acts generalizing ts s us with
  | nil =>
    simp only [exec, Option.some.injEq, Prod.mk.injEq] at executed
    obtain ⟨rfl, rfl⟩ := executed
    exact ⟨by simpa using run, rfl⟩
  | cons a rest ih =>
    simp only [exec] at executed
    split at executed
    · cases executed
    next s' r taken =>
      split at executed
      · cases executed
      next vs final continued =>
        simp only [Option.some.injEq, Prod.mk.injEq] at executed
        obtain ⟨rfl, rfl⟩ := executed
        obtain ⟨extended, same⟩ := ih vs (run.next taken) continued
        exact ⟨by simpa using extended, by simp [same]⟩

theorem Moves.of_exec {s s' : σ} (acts : List α)
    (executed : (m.exec s acts).map Prod.snd = some s') : m.Moves s s' := by
  induction acts generalizing s with
  | nil =>
    cases executed
    exact .refl
  | cons a rest ih =>
    simp only [exec] at executed
    split at executed
    · cases executed
    next t r taken =>
      apply (Moves.one taken).trans
      apply ih
      revert executed
      cases m.exec t rest <;> simp

/-- The executed actions form a run: concrete runs are checked by evaluation. -/
theorem exists_run {P : List (Transition σ α ρ) → σ → Prop} (acts : List α) (initial : m.init s)
    (check : ∃ out ∈ m.exec s acts, P out.1 out.2) :
    ∃ ts s', m.Run ts s' ∧ ts.map Transition.act = acts ∧ P ts s' := by
  obtain ⟨⟨us, last⟩, executed, holds⟩ := check
  have run := run_exec acts us last (Run.start initial) (Option.mem_def.mp executed)
  exact ⟨us, last, by simpa using run.1, run.2, holds⟩

/-- The same with one of the actions singled out. -/
theorem exists_run_at {P : List (Transition σ α ρ) → Transition σ α ρ →
      List (Transition σ α ρ) → σ → Prop} (first : List α) (a : α) (rest : List α)
    (initial : m.init s)
    (check : ∃ x ∈ m.exec s first, ∃ y ∈ m.step x.2 a, ∃ z ∈ m.exec y.1 rest,
      P x.1 ⟨x.2, a, y.2, y.1⟩ z.1 z.2) :
    ∃ before t later s', m.Run (before ++ t :: later) s' ∧ before.map Transition.act = first ∧
      t.act = a ∧ later.map Transition.act = rest ∧ P before t later s' := by
  obtain ⟨⟨before, s₁⟩, begun, ⟨s₂, r⟩, taken, ⟨later, last⟩, ended, holds⟩ := check
  have prior := run_exec first before s₁ (Run.start initial) (Option.mem_def.mp begun)
  have run := run_exec rest later last (prior.1.next (Option.mem_def.mp taken))
    (Option.mem_def.mp ended)
  exact ⟨before, ⟨s₁, a, r, s₂⟩, later, last, by simpa using run.1, prior.2, rfl, run.2, holds⟩

end Machine
