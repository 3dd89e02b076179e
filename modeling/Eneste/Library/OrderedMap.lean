import Mathlib

/-!
# Ordered maps

Finite maps iterated in key order, as association lists that carry the proof of
their order. Updates are specified by lookup (`get?_insert`, `get?_erase`,
`get?_map`), counting by permutation (`perm_erase`, `perm_insert`).
-/

@[ext] structure OrderedMap (κ β : Type) [LinearOrder κ] where
  entries : List (κ × β)
  sorted : (entries.map Prod.fst).Pairwise (· < ·)

namespace OrderedMap

variable {κ β γ : Type} [LinearOrder κ]

def empty : OrderedMap κ β := ⟨[], List.Pairwise.nil⟩

def keys (m : OrderedMap κ β) : List κ := m.entries.map Prod.fst

def size (m : OrderedMap κ β) : Nat := m.entries.length

def get? (m : OrderedMap κ β) (k : κ) : Option β :=
  (m.entries.find? fun e => e.1 = k).map Prod.snd

theorem keys_nodup (m : OrderedMap κ β) : m.keys.Nodup :=
  m.sorted.imp fun less => less.ne

/-- Lookup is membership, since keys are distinct. -/
theorem get?_eq_some_iff (m : OrderedMap κ β) (k : κ) (v : β) :
    m.get? k = some v ↔ (k, v) ∈ m.entries := by
  have distinct := m.sorted
  unfold get?
  generalize m.entries = l at distinct
  induction l with
  | nil => simp
  | cons e rest ih =>
    simp only [List.map_cons, List.pairwise_cons] at distinct
    by_cases same : e.1 = k
    · -- keys are distinct, so the entry found is the only one with this key
      have absent : (k, v) ∉ rest := fun member =>
        absurd same (distinct.1 k (List.mem_map_of_mem member)).ne
      rw [List.find?_cons_of_pos (by simpa using same)]
      simp only [Option.map_some, Option.some.injEq, List.mem_cons, absent, or_false]
      exact ⟨fun h => by rw [← h, ← same], fun h => by rw [← h]⟩
    · -- the entry is further down
      have other : (k, v) ≠ e := fun h => same (by rw [← h])
      rw [List.find?_cons_of_neg (by simpa using same)]
      simpa [other] using ih distinct.2

theorem mem_keys_iff (m : OrderedMap κ β) (k : κ) : k ∈ m.keys ↔ ∃ v, m.get? k = some v := by
  simp only [keys, List.mem_map, Prod.exists, get?_eq_some_iff]
  exact ⟨fun ⟨_, v, member, same⟩ => ⟨v, same ▸ member⟩, fun ⟨v, member⟩ => ⟨k, v, member, rfl⟩⟩

theorem get?_eq_none_iff (m : OrderedMap κ β) (k : κ) : m.get? k = none ↔ k ∉ m.keys := by
  rw [mem_keys_iff, Option.eq_none_iff_forall_ne_some, not_exists]

/-- Maps with the same lookups are equal. -/
theorem ext_get? {m n : OrderedMap κ β} (same : ∀ k, m.get? k = n.get? k) : m = n := by
  have entries : m.entries = n.entries := by
    -- two sorted lists with the same members are the same list
    have clash : ∀ a b : κ × β, a ∈ m.entries → b ∈ n.entries → a.1 < b.1 → b.1 < a.1 → a = b :=
      fun a b _ _ ab ba => absurd ab ba.not_gt
    refine List.Perm.eq_of_pairwise clash (List.pairwise_map.mp m.sorted)
      (List.pairwise_map.mp n.sorted) ?_
    refine (List.perm_ext_iff_of_nodup (List.Nodup.of_map _ m.keys_nodup)
      (List.Nodup.of_map _ n.keys_nodup)).mpr fun e => ?_
    rw [← get?_eq_some_iff m e.1 e.2, ← get?_eq_some_iff n e.1 e.2, same]
  exact OrderedMap.ext entries

@[simp] theorem get?_empty (k : κ) : (empty : OrderedMap κ β).get? k = none := rfl

/-! ### Insertion -/

def insertEntry (k : κ) (v : β) : List (κ × β) → List (κ × β)
  | [] => [(k, v)]
  | e :: rest =>
    if k < e.1 then (k, v) :: e :: rest
    else if k = e.1 then (k, v) :: rest
    else e :: insertEntry k v rest

private theorem mem_insertEntry (k : κ) (v : β) (l : List (κ × β))
    (sorted : (l.map Prod.fst).Pairwise (· < ·)) (e : κ × β) :
    e ∈ insertEntry k v l ↔ e = (k, v) ∨ e ∈ l ∧ e.1 ≠ k := by
  induction l with
  | nil => simp [insertEntry]
  | cons first rest ih =>
    simp only [List.map_cons, List.pairwise_cons, List.mem_map] at sorted
    have later : ∀ x ∈ rest, first.1 < x.1 := fun x member => sorted.1 x.1 ⟨x, member, rfl⟩
    simp only [insertEntry]
    split
    next before =>
      -- the key comes before all others, so none of them has to go
      have apart : ∀ x ∈ first :: rest, x.1 ≠ k := by
        intro x member
        rcases List.mem_cons.mp member with rfl | member
        · exact before.ne'
        · exact (before.trans (later x member)).ne'
      rw [List.mem_cons]
      exact ⟨Or.imp_right fun member => ⟨member, apart e member⟩, Or.imp_right And.left⟩
    next notBefore =>
      split
      next same =>
        subst same
        simp only [List.mem_cons]
        constructor
        · rintro (rfl | member)
          · exact Or.inl rfl
          · exact Or.inr ⟨Or.inr member, (later e member).ne'⟩
        · rintro (rfl | ⟨rfl | member, differs⟩)
          · exact Or.inl rfl
          · exact absurd rfl differs
          · exact Or.inr member
      next differs =>
        simp only [List.mem_cons, ih sorted.2]
        constructor
        · rintro (rfl | rfl | ⟨member, apart⟩)
          · exact Or.inr ⟨Or.inl rfl, fun same => differs same.symm⟩
          · exact Or.inl rfl
          · exact Or.inr ⟨Or.inr member, apart⟩
        · rintro (rfl | ⟨rfl | member, apart⟩)
          · exact Or.inr (Or.inl rfl)
          · exact Or.inl rfl
          · exact Or.inr (Or.inr ⟨member, apart⟩)

private theorem sorted_insertEntry (k : κ) (v : β) (l : List (κ × β))
    (sorted : (l.map Prod.fst).Pairwise (· < ·)) :
    ((insertEntry k v l).map Prod.fst).Pairwise (· < ·) := by
  induction l with
  | nil => simp [insertEntry]
  | cons first rest ih =>
    simp only [List.map_cons, List.pairwise_cons, List.mem_map] at sorted
    simp only [insertEntry]
    split
    next before =>
      simp only [List.map_cons, List.pairwise_cons, List.mem_cons, List.mem_map]
      refine ⟨?_, sorted⟩
      rintro x (rfl | member)
      · exact before
      · exact before.trans (sorted.1 x member)
    next notBefore =>
      split
      next same =>
        subst same
        simpa only [List.map_cons, List.pairwise_cons, List.mem_map] using sorted
      next differs =>
        simp only [List.map_cons, List.pairwise_cons, List.mem_map]
        refine ⟨?_, ih sorted.2⟩
        rintro x ⟨e, member, rfl⟩
        rcases (mem_insertEntry k v rest sorted.2 e).mp member with rfl | ⟨old, _⟩
        · exact lt_of_le_of_ne (not_lt.mp notBefore) fun same => differs same.symm
        · exact sorted.1 e.1 ⟨e, old, rfl⟩

def insert (m : OrderedMap κ β) (k : κ) (v : β) : OrderedMap κ β :=
  ⟨insertEntry k v m.entries, sorted_insertEntry k v m.entries m.sorted⟩

theorem get?_insert (m : OrderedMap κ β) (k : κ) (v : β) (j : κ) :
    (m.insert k v).get? j = if j = k then some v else m.get? j := by
  apply Option.ext
  intro x
  rw [get?_eq_some_iff, insert, mem_insertEntry k v m.entries m.sorted]
  split
  next same => subst same; simp [eq_comm]
  next differs => simp [get?_eq_some_iff, differs]

@[simp] theorem get?_insert_self (m : OrderedMap κ β) (k : κ) (v : β) :
    (m.insert k v).get? k = some v := by simp [get?_insert]

theorem get?_insert_of_ne (m : OrderedMap κ β) {k j : κ} (v : β) (differs : j ≠ k) :
    (m.insert k v).get? j = m.get? j := by simp [get?_insert, differs]

theorem mem_keys_insert (m : OrderedMap κ β) (k : κ) (v : β) (j : κ) :
    j ∈ (m.insert k v).keys ↔ j = k ∨ j ∈ m.keys := by
  rw [mem_keys_iff, mem_keys_iff, get?_insert]
  split
  next same => simp [same]
  next differs => simp [differs]

theorem mem_keys_insert_of_mem (m : OrderedMap κ β) {k : κ} (v : β) (present : k ∈ m.keys) (j : κ) :
    j ∈ (m.insert k v).keys ↔ j ∈ m.keys := by
  rw [mem_keys_insert]
  exact ⟨fun member => member.elim (fun same => same ▸ present) fun member => member, Or.inr⟩

/-! ### Removal -/

def erase (m : OrderedMap κ β) (k : κ) : OrderedMap κ β :=
  ⟨m.entries.filter fun e => e.1 ≠ k,
    m.sorted.sublist (List.filter_sublist.map Prod.fst)⟩

theorem get?_erase (m : OrderedMap κ β) (k j : κ) :
    (m.erase k).get? j = if j = k then none else m.get? j := by
  apply Option.ext
  intro x
  rw [get?_eq_some_iff, erase, List.mem_filter]
  split
  next same => simp [same]
  next differs => simp [get?_eq_some_iff, differs]

@[simp] theorem get?_erase_self (m : OrderedMap κ β) (k : κ) : (m.erase k).get? k = none := by
  simp [get?_erase]

theorem get?_erase_of_ne (m : OrderedMap κ β) {k j : κ} (differs : j ≠ k) :
    (m.erase k).get? j = m.get? j := by simp [get?_erase, differs]

theorem mem_keys_erase (m : OrderedMap κ β) (k j : κ) :
    j ∈ (m.erase k).keys ↔ j ≠ k ∧ j ∈ m.keys := by
  rw [mem_keys_iff, mem_keys_iff, get?_erase]
  split
  next same => simp [same]
  next differs => simp [differs]

@[simp] theorem erase_insert_self (m : OrderedMap κ β) (k : κ) (v : β) :
    (m.insert k v).erase k = m.erase k := by
  apply ext_get?
  intro j
  by_cases same : j = k <;> simp [get?_erase, get?_insert, same]

@[simp] theorem insert_insert_self (m : OrderedMap κ β) (k : κ) (v w : β) :
    (m.insert k v).insert k w = m.insert k w := by
  apply ext_get?
  intro j
  by_cases same : j = k <;> simp [get?_insert, same]

/-! ### Values -/

def map (f : κ → β → γ) (m : OrderedMap κ β) : OrderedMap κ γ :=
  ⟨m.entries.map fun e => (e.1, f e.1 e.2), by
    simpa only [List.map_map, Function.comp_def] using m.sorted⟩

@[simp] theorem get?_map (f : κ → β → γ) (m : OrderedMap κ β) (k : κ) :
    (m.map f).get? k = (m.get? k).map (f k) := by
  apply Option.ext
  intro x
  simp only [get?_eq_some_iff, map, List.mem_map, Prod.mk.injEq, Prod.exists,
    Option.map_eq_some_iff]
  exact ⟨fun ⟨_, v, member, same, value⟩ => by subst same; exact ⟨v, member, value⟩,
    fun ⟨v, member, value⟩ => ⟨k, v, member, rfl, value⟩⟩

@[simp] theorem keys_map (f : κ → β → γ) (m : OrderedMap κ β) : (m.map f).keys = m.keys := by
  simp only [keys, map, List.map_map, Function.comp_def]

/-- One pass over the values in key order with an accumulator; `none` breaks the loop. -/
def visitEntries {ε : Type} (f : ε → β → Option (β × ε)) : ε → List (κ × β) → List (κ × β) × ε
  | acc, [] => ([], acc)
  | acc, e :: rest =>
    match f acc e.2 with
    | none => (e :: rest, acc)
    | some (v, acc') =>
      let later := visitEntries f acc' rest
      ((e.1, v) :: later.1, later.2)

omit [LinearOrder κ] in
theorem keys_visitEntries {ε : Type} (f : ε → β → Option (β × ε)) (acc : ε) (l : List (κ × β)) :
    (visitEntries f acc l).1.map Prod.fst = l.map Prod.fst := by
  induction l generalizing acc with
  | nil => rfl
  | cons e rest ih =>
    simp only [visitEntries]
    split
    · rfl
    · simp only [List.map_cons, ih]

def visit {ε : Type} (f : ε → β → Option (β × ε)) (acc : ε) (m : OrderedMap κ β) :
    OrderedMap κ β × ε :=
  let visited := visitEntries f acc m.entries
  (⟨visited.1, by rw [keys_visitEntries]; exact m.sorted⟩, visited.2)

/-- The first entry in key order whose value satisfies `p`. -/
def find? (m : OrderedMap κ β) (p : β → Bool) : Option (κ × β) :=
  m.entries.find? fun e => p e.2

/-! ### Counting -/

def count (m : OrderedMap κ β) (p : β → Bool) : Nat := m.entries.countP fun e => p e.2

/-- The keys of the values satisfying `p`, in key order. -/
def keysWith (m : OrderedMap κ β) (p : β → Bool) : List κ :=
  (m.entries.filter fun e => p e.2).map Prod.fst

theorem mem_keysWith (m : OrderedMap κ β) (p : β → Bool) (k : κ) :
    k ∈ m.keysWith p ↔ ∃ v, m.get? k = some v ∧ p v = true := by
  simp only [keysWith, List.mem_map, List.mem_filter, Prod.exists, get?_eq_some_iff]
  exact ⟨fun ⟨_, v, member, same⟩ => ⟨v, same ▸ member⟩, fun ⟨v, member⟩ => ⟨k, v, member, rfl⟩⟩

theorem keysWith_nodup (m : OrderedMap κ β) (p : β → Bool) : (m.keysWith p).Nodup :=
  m.keys_nodup.sublist (List.filter_sublist.map Prod.fst)

theorem keysWith_sorted (m : OrderedMap κ β) (p : β → Bool) : (m.keysWith p).Pairwise (· < ·) :=
  m.sorted.sublist (List.filter_sublist.map Prod.fst)

theorem count_keysWith (m : OrderedMap κ β) (p : β → Bool) (k : κ) :
    (m.keysWith p).count k = ((m.get? k).any p).toNat := by
  cases held : (m.get? k).any p with
  | true =>
    obtain ⟨v, found, holds⟩ := (Option.any_eq_true _ _).mp held
    exact List.count_eq_one_of_mem (m.keysWith_nodup p)
      ((m.mem_keysWith p k).mpr ⟨v, found, holds⟩)
  | false =>
    apply List.count_eq_zero.mpr
    intro member
    obtain ⟨v, found, holds⟩ := (m.mem_keysWith p k).mp member
    simp [found, holds] at held

theorem keysWith_length (m : OrderedMap κ β) (p : β → Bool) :
    (m.keysWith p).length = m.count p := by
  simp [keysWith, count, List.countP_eq_length_filter]

/-- Erasing a key whose value fails `p`. -/
theorem keysWith_erase (m : OrderedMap κ β) (p : β → Bool) {k : κ} {v : β}
    (found : m.get? k = some v) (fails : p v = false) : (m.erase k).keysWith p = m.keysWith p := by
  -- the filter for `p` passes over the erased entry anyway
  have same : ∀ e ∈ m.entries, (p e.2 && decide (e.1 ≠ k)) = p e.2 := by
    intro e member
    by_cases here : e.1 = k
    · have value := (m.get?_eq_some_iff e.1 e.2).mpr member
      rw [here, found] at value
      simp [← Option.some.inj value, fails]
    · simp [here]
  rw [keysWith, erase, List.filter_filter, List.filter_congr same, keysWith]

theorem count_add_count_not (m : OrderedMap κ β) (p : β → Bool) :
    m.count p + m.count (fun v => !p v) = m.size := by
  simp only [count, size]
  rw [List.length_eq_countP_add_countP (fun e : κ × β => p e.2)]
  simp

theorem count_pos_iff (m : OrderedMap κ β) (p : β → Bool) :
    0 < m.count p ↔ ∃ k v, m.get? k = some v ∧ p v = true := by
  simp [count, List.countP_pos_iff, get?_eq_some_iff]

theorem size_pos_iff (m : OrderedMap κ β) : 0 < m.size ↔ ∃ k, k ∈ m.keys := by
  simp [size, keys, List.length_pos_iff_exists_mem]

private theorem entries_nodup (m : OrderedMap κ β) : m.entries.Nodup :=
  List.Nodup.of_map _ m.keys_nodup

/-- An entry can be moved to the front; the rest is the map without it. -/
theorem perm_erase (m : OrderedMap κ β) {k : κ} {v : β} (found : m.get? k = some v) :
    m.entries.Perm ((k, v) :: (m.erase k).entries) := by
  have absent : (k, v) ∉ (m.erase k).entries := by simp [erase]
  refine (List.perm_ext_iff_of_nodup m.entries_nodup
    (List.nodup_cons.mpr ⟨absent, (m.erase k).entries_nodup⟩)).mpr fun e => ?_
  rw [List.mem_cons, ← get?_eq_some_iff (m.erase k) e.1 e.2, ← get?_eq_some_iff m e.1 e.2,
    get?_erase]
  by_cases same : e.1 = k
  · have entry : e = (k, v) ↔ v = e.2 := by rw [← same]; exact ⟨fun h => by rw [h],
      fun h => by rw [h]⟩
    simp [same, found, entry]
  · have other : e ≠ (k, v) := fun h => same (by rw [h])
    simp [same, other]

theorem perm_insert (m : OrderedMap κ β) (k : κ) (v : β) :
    (m.insert k v).entries.Perm ((k, v) :: (m.erase k).entries) := by
  simpa using (m.insert k v).perm_erase (m.get?_insert_self k v)

theorem count_erase (m : OrderedMap κ β) (p : β → Bool) {k : κ} {v : β}
    (found : m.get? k = some v) :
    m.count p = (m.erase k).count p + if p v then 1 else 0 := by
  simp only [count, (m.perm_erase found).countP_eq, List.countP_cons]

theorem erase_of_get?_none (m : OrderedMap κ β) {k : κ} (absent : m.get? k = none) :
    m.erase k = m := by
  apply ext_get?
  intro j
  by_cases same : j = k <;> simp [get?_erase, same, absent]

theorem count_insert (m : OrderedMap κ β) (p : β → Bool) (k : κ) (v : β) :
    (m.insert k v).count p = (m.erase k).count p + if p v then 1 else 0 := by
  simpa using (m.insert k v).count_erase p (m.get?_insert_self k v)

theorem size_erase (m : OrderedMap κ β) {k : κ} {v : β} (found : m.get? k = some v) :
    m.size = (m.erase k).size + 1 := by
  simp only [size, (m.perm_erase found).length_eq, List.length_cons]

theorem size_insert (m : OrderedMap κ β) (k : κ) (v : β) :
    (m.insert k v).size = (m.erase k).size + 1 := by
  simp only [size, (m.perm_insert k v).length_eq, List.length_cons]

/-- Replace the values of some keys. -/
def overwrite (m : OrderedMap κ β) (ks : List κ) (v : β) : OrderedMap κ β :=
  m.map fun k old => if k ∈ ks then v else old

theorem get?_overwrite (m : OrderedMap κ β) (ks : List κ) (v : β) (k : κ) :
    (m.overwrite ks v).get? k = if k ∈ ks then (m.get? k).map fun _ => v else m.get? k := by
  rw [overwrite, get?_map]
  split <;> simp

theorem overwrite_cons (m : OrderedMap κ β) {k : κ} (ks : List κ) (v : β)
    (present : ∃ old, m.get? k = some old) :
    m.overwrite (k :: ks) v = (m.overwrite ks v).insert k v := by
  obtain ⟨old, found⟩ := present
  apply ext_get?
  intro j
  by_cases same : j = k
  · subst same
    simp [get?_overwrite, found]
  · simp [get?_overwrite, get?_insert, same]

/-- Overwriting keys whose values fail `p` by a value that satisfies it. -/
theorem count_overwrite (m : OrderedMap κ β) (p : β → Bool) {ks : List κ} {v : β}
    (distinct : ks.Nodup) (fails : ∀ k ∈ ks, ∃ old, m.get? k = some old ∧ p old = false)
    (holds : p v = true) : (m.overwrite ks v).count p = m.count p + ks.length := by
  induction ks with
  | nil => simp [overwrite, map]
  | cons k ks ih =>
    obtain ⟨absent, rest⟩ := List.nodup_cons.mp distinct
    obtain ⟨old, found, failed⟩ := fails k (by simp)
    -- overwrite the other keys first; this one still has its old value
    have kept : (m.overwrite ks v).get? k = some old := by simp [get?_overwrite, absent, found]
    have before := ih rest fun j member => fails j (List.mem_cons_of_mem k member)
    have removed := (m.overwrite ks v).count_erase p kept
    rw [overwrite_cons m ks v ⟨old, found⟩, count_insert]
    simp only [failed, Bool.false_eq_true, ite_false, holds, ite_true, List.length_cons] at *
    omega

@[simp] theorem size_overwrite (m : OrderedMap κ β) (ks : List κ) (v : β) :
    (m.overwrite ks v).size = m.size := by simp [overwrite, size, map]

@[simp] theorem keys_overwrite (m : OrderedMap κ β) (ks : List κ) (v : β) :
    (m.overwrite ks v).keys = m.keys := keys_map _ m

/-! ### Totals -/

/-- The sum of what the values contribute. -/
def total {M : Type} [AddCommMonoid M] (f : β → M) (m : OrderedMap κ β) : M :=
  (m.entries.map fun e => f e.2).sum

section

variable {M : Type} [AddCommMonoid M] (f : β → M) (m : OrderedMap κ β)

theorem total_erase {k : κ} {v : β} (found : m.get? k = some v) :
    m.total f = f v + (m.erase k).total f := by
  rw [total, ((m.perm_erase found).map _).sum_eq, List.map_cons, List.sum_cons, total]

theorem total_insert (k : κ) (v : β) : (m.insert k v).total f = f v + (m.erase k).total f := by
  simpa using (m.insert k v).total_erase f (m.get?_insert_self k v)

/-- Overwriting replaces what the values of these keys contribute. -/
theorem total_overwrite {ks : List κ} (v : β) (distinct : ks.Nodup)
    (present : ∀ k ∈ ks, k ∈ m.keys) :
    (m.overwrite ks v).total f + (ks.map fun k => ((m.get? k).map f).getD 0).sum =
      m.total f + ks.length • f v := by
  induction ks with
  | nil => simp [overwrite, map, total]
  | cons k ks ih =>
    obtain ⟨absent, rest⟩ := List.nodup_cons.mp distinct
    obtain ⟨old, found⟩ := (m.mem_keys_iff k).mp (present k (by simp))
    -- overwrite the other keys first; this one still has its old value
    have kept : (m.overwrite ks v).get? k = some old := by simp [get?_overwrite, absent, found]
    have before := ih rest fun j member => present j (List.mem_cons_of_mem k member)
    rw [total_erase f _ kept] at before
    rw [overwrite_cons m ks v ⟨old, found⟩, total_insert]
    simp only [List.map_cons, List.sum_cons, found, Option.map_some, Option.getD_some,
      List.length_cons, succ_nsmul]
    calc f v + ((m.overwrite ks v).erase k).total f +
          (f old + (ks.map fun k => ((m.get? k).map f).getD 0).sum)
        = f v + (f old + ((m.overwrite ks v).erase k).total f +
          (ks.map fun k => ((m.get? k).map f).getD 0).sum) := by abel
      _ = m.total f + (ks.length • f v + f v) := by rw [before]; abel

end

end OrderedMap
