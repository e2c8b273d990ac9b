/-! Finite maps keyed by names. The entries stand in ascending order of their keys, so that two maps
with the same look-ups are the same map, and listing one needs no sorting. -/
namespace ModelSurvey
set_option autoImplicit false

variable {α β σ : Type}

/-! ## Lists of entries -/

namespace Entries

def keys (l : List (String × α)) : List String := l.map Prod.fst

/-- Puts `v` under `k`, in the place of an older value or before the first greater key. -/
def insert (k : String) (v : α) : List (String × α) → List (String × α)
  | [] => [(k, v)]
  | (k', v') :: r =>
    if k < k' then (k, v) :: (k', v') :: r
    else if k = k' then (k, v) :: r
    else (k', v') :: insert k v r

/-- Changes the values from the first key to the last, carrying a state along. -/
def mapAccum (f : σ → String → α → σ × β) : σ → List (String × α) → σ × List (String × β)
  | s, [] => (s, [])
  | s, (k, v) :: r =>
    let head := f s k v
    let tail := mapAccum f head.1 r
    (tail.1, (k, head.2) :: tail.2)

theorem mem_keys_insert {k x : String} {v : α} {l : List (String × α)} :
    x ∈ keys (insert k v l) ↔ x = k ∨ x ∈ keys l := by
  induction l with
  | nil => simp [insert, keys]
  | cons e r ih =>
    obtain ⟨k', v'⟩ := e
    rw [insert]
    split
    · simp [keys]
    · split
      · rename_i h
        simp [keys, h]
      · have ih' : x ∈ keys (insert k v r) ↔ x = k ∨ x ∈ keys r := ih
        simp only [keys, List.map_cons, List.mem_cons] at ih' ⊢
        rw [ih']
        constructor <;> rintro (h | h | h) <;> simp [h]

theorem pairwise_insert {k : String} {v : α} {l : List (String × α)}
    (h : (keys l).Pairwise (· < ·)) : (keys (insert k v l)).Pairwise (· < ·) := by
  induction l with
  | nil => simp [insert, keys]
  | cons e r ih =>
    obtain ⟨k', v'⟩ := e
    have hk : (∀ x ∈ keys r, k' < x) ∧ (keys r).Pairwise (· < ·) := List.pairwise_cons.1 h
    rw [insert]
    split
    · rename_i hlt
      refine List.pairwise_cons.2 ⟨fun x hx => ?_, h⟩
      rcases List.mem_cons.1 hx with rfl | hx
      · exact hlt
      · exact String.lt_trans hlt (hk.1 x hx)
    · split
      · rename_i _ he
        subst he
        exact h
      · rename_i hlt hne
        refine List.pairwise_cons.2 ⟨fun x hx => ?_, ih hk.2⟩
        rcases mem_keys_insert.1 hx with rfl | hx
        · exact Std.lt_of_le_of_ne (String.not_lt.1 hlt) (Ne.symm hne)
        · exact hk.1 x hx

theorem lookup_insert_self (k : String) (v : α) (l : List (String × α)) :
    (insert k v l).lookup k = some v := by
  induction l with
  | nil => simp [insert]
  | cons e r ih =>
    obtain ⟨k', v'⟩ := e
    rw [insert]
    split
    · simp
    · split
      · simp
      · rename_i hne
        rw [List.lookup_cons, beq_eq_false_iff_ne.2 hne]
        exact ih

theorem lookup_insert_of_ne {k x : String} (v : α) (l : List (String × α)) (h : x ≠ k) :
    (insert k v l).lookup x = l.lookup x := by
  have hb : (x == k) = false := beq_eq_false_iff_ne.2 h
  induction l with
  | nil => simp [insert, List.lookup_cons, hb]
  | cons e r ih =>
    obtain ⟨k', v'⟩ := e
    rw [insert]
    split
    · simp [List.lookup_cons, hb]
    · split
      · rename_i he
        subst he
        simp [List.lookup_cons, hb]
      · rw [List.lookup_cons, List.lookup_cons, ih]

/-- A value under a known key is replaced where it stands. -/
theorem insert_middle {k : String} {v w : α} {l r : List (String × α)}
    (h : (keys (l ++ (k, v) :: r)).Pairwise (· < ·)) :
    insert k w (l ++ (k, v) :: r) = l ++ (k, w) :: r := by
  induction l with
  | nil => simp [insert]
  | cons e l ih =>
    obtain ⟨k', v'⟩ := e
    have hk := List.pairwise_cons.1 h
    have hlt : k' < k := hk.1 k (by simp)
    have hne : k ≠ k' := fun he => String.lt_irrefl k (by rwa [← he] at hlt)
    have hnot : ¬k < k' := fun hgt => String.lt_irrefl k (String.lt_trans hgt hlt)
    rw [List.cons_append, insert, if_neg hnot, if_neg hne, ih hk.2, List.cons_append]

theorem keys_mapAccum (f : σ → String → α → σ × β) (s : σ) (l : List (String × α)) :
    keys (mapAccum f s l).2 = keys l := by
  induction l generalizing s with
  | nil => rfl
  | cons e r ih =>
    obtain ⟨k, v⟩ := e
    have := ih (f s k v).1
    simp only [keys, mapAccum, List.map_cons] at this ⊢
    rw [this]

theorem lookup_eq_none_of_lt {k : String} {l : List (String × α)} (h : ∀ x ∈ keys l, k < x) :
    l.lookup k = none := by
  induction l with
  | nil => rfl
  | cons e r ih =>
    obtain ⟨k', v'⟩ := e
    have hk : k ≠ k' := fun he => String.lt_irrefl k (by
      have := h k' (List.mem_cons_self ..)
      rwa [← he] at this)
    rw [List.lookup_cons, beq_eq_false_iff_ne.2 hk]
    exact ih fun x hx => h x (List.mem_cons_of_mem _ hx)

theorem lookup_eq_some_iff_mem {l : List (String × α)} (h : (keys l).Pairwise (· < ·)) {k : String}
    {v : α} : l.lookup k = some v ↔ (k, v) ∈ l := by
  induction l with
  | nil => simp
  | cons e r ih =>
    obtain ⟨k', v'⟩ := e
    have hk : (∀ x ∈ keys r, k' < x) ∧ (keys r).Pairwise (· < ·) := List.pairwise_cons.1 h
    by_cases he : k = k'
    · subst he
      have hr : (k, v) ∉ r := fun hm =>
        String.lt_irrefl k (hk.1 k (List.mem_map_of_mem (f := Prod.fst) hm))
      simp [hr, eq_comm]
    · simp [List.lookup_cons, beq_eq_false_iff_ne.2 he, ih hk.2, he]

theorem eq_of_lookup_eq {l l' : List (String × α)} (h : (keys l).Pairwise (· < ·))
    (h' : (keys l').Pairwise (· < ·)) (e : ∀ k, l.lookup k = l'.lookup k) : l = l' := by
  induction l generalizing l' with
  | nil =>
    cases l' with
    | nil => rfl
    | cons p r' =>
      obtain ⟨k, v⟩ := p
      have := e k
      rw [List.lookup_cons_self] at this
      cases this
  | cons p r ih =>
    obtain ⟨k, v⟩ := p
    have hk : (∀ x ∈ keys r, k < x) ∧ (keys r).Pairwise (· < ·) := List.pairwise_cons.1 h
    cases l' with
    | nil =>
      have := e k
      simp at this
    | cons p' r' =>
      obtain ⟨k', v'⟩ := p'
      have hk' : (∀ x ∈ keys r', k' < x) ∧ (keys r').Pairwise (· < ·) := List.pairwise_cons.1 h'
      have hkk : k = k' := by
        apply Classical.byContradiction
        intro hne
        have e1 := e k
        have e2 := e k'
        simp only [List.lookup_cons, beq_self_eq_true, beq_eq_false_iff_ne.2 hne,
          beq_eq_false_iff_ne.2 (Ne.symm hne)] at e1 e2
        rcases Std.le_total (a := k) (b := k') with hle | hle
        · have hlt := Std.lt_of_le_of_ne hle hne
          rw [lookup_eq_none_of_lt fun x hx => String.lt_trans hlt (hk'.1 x hx)] at e1
          simp at e1
        · have hlt := Std.lt_of_le_of_ne hle (Ne.symm hne)
          rw [lookup_eq_none_of_lt fun x hx => String.lt_trans hlt (hk.1 x hx)] at e2
          simp at e2
      subst hkk
      have hv : v = v' := by
        have := e k
        simpa using this
      have hr : r = r' := by
        refine ih hk.2 hk'.2 fun x => ?_
        by_cases hx : x = k
        · subst hx
          rw [lookup_eq_none_of_lt hk.1, lookup_eq_none_of_lt hk'.1]
        · have := e x
          rwa [List.lookup_cons, List.lookup_cons, beq_eq_false_iff_ne.2 hx] at this
      rw [hv, hr]

end Entries

/-! ## Maps -/

structure NameMap (α : Type) where
  entries : List (String × α)
  ascending : (Entries.keys entries).Pairwise (· < ·)

namespace NameMap

def empty : NameMap α := ⟨[], List.Pairwise.nil⟩

instance : EmptyCollection (NameMap α) := ⟨empty⟩

instance : Inhabited (NameMap α) := ⟨empty⟩

def get? (m : NameMap α) (k : String) : Option α := m.entries.lookup k

def contains (m : NameMap α) (k : String) : Bool := (m.get? k).isSome

def insert (m : NameMap α) (k : String) (v : α) : NameMap α :=
  ⟨Entries.insert k v m.entries, Entries.pairwise_insert m.ascending⟩

/-- Changes the value under a key, if there is one. -/
def modify (m : NameMap α) (k : String) (f : α → α) : NameMap α :=
  match m.get? k with
  | none => m
  | some v => m.insert k (f v)

def keys (m : NameMap α) : List String := Entries.keys m.entries

def values (m : NameMap α) : List α := m.entries.map Prod.snd

def toList (m : NameMap α) : List (String × α) := m.entries

def size (m : NameMap α) : Nat := m.entries.length

def isEmpty (m : NameMap α) : Bool := m.entries.isEmpty

def mapAccum (f : σ → String → α → σ × β) (s : σ) (m : NameMap α) : σ × NameMap β :=
  ((Entries.mapAccum f s m.entries).1,
    ⟨(Entries.mapAccum f s m.entries).2, by rw [Entries.keys_mapAccum]; exact m.ascending⟩)

def map (f : α → β) (m : NameMap α) : NameMap β := (m.mapAccum (fun _ _ v => ((), f v)) ()).2

@[simp] theorem get?_empty (k : String) : (∅ : NameMap α).get? k = none := rfl

@[simp] theorem get?_insert_self (m : NameMap α) (k : String) (v : α) :
    (m.insert k v).get? k = some v := Entries.lookup_insert_self k v m.entries

theorem get?_insert_of_ne (m : NameMap α) {k x : String} (v : α) (h : x ≠ k) :
    (m.insert k v).get? x = m.get? x := Entries.lookup_insert_of_ne v m.entries h

theorem get?_eq_some_iff {m : NameMap α} {k : String} {v : α} :
    m.get? k = some v ↔ (k, v) ∈ m.toList := Entries.lookup_eq_some_iff_mem m.ascending

theorem get?_modify_self (m : NameMap α) (k : String) (f : α → α) :
    (m.modify k f).get? k = (m.get? k).map f := by
  rw [modify]
  split
  · rename_i h
    rw [h, Option.map_none]
  · rename_i v h
    rw [h, get?_insert_self, Option.map_some]

theorem get?_modify_of_ne (m : NameMap α) {k x : String} (f : α → α) (h : x ≠ k) :
    (m.modify k f).get? x = m.get? x := by
  rw [modify]
  split
  · rfl
  · exact get?_insert_of_ne m _ h

theorem toList_modify {m : NameMap α} {k : String} {v : α} {l r : List (String × α)} (f : α → α)
    (h : m.toList = l ++ (k, v) :: r) : (m.modify k f).toList = l ++ (k, f v) :: r := by
  have hv : m.get? k = some v := get?_eq_some_iff.2 (by rw [h]; simp)
  have hs : (Entries.keys (l ++ (k, v) :: r)).Pairwise (· < ·) := by
    rw [← h]
    exact m.ascending
  rw [modify, hv]
  exact (congrArg (Entries.insert k (f v)) h).trans (Entries.insert_middle hs)

theorem mem_keys_insert {m : NameMap α} {k x : String} {v : α} :
    x ∈ (m.insert k v).keys ↔ x = k ∨ x ∈ m.keys := Entries.mem_keys_insert

@[simp] theorem keys_mapAccum (f : σ → String → α → σ × β) (s : σ) (m : NameMap α) :
    (m.mapAccum f s).2.keys = m.keys := Entries.keys_mapAccum f s m.entries

theorem keys_pairwise (m : NameMap α) : m.keys.Pairwise (· < ·) := m.ascending

theorem keys_modify (m : NameMap α) (k : String) (f : α → α) : (m.modify k f).keys = m.keys := by
  cases h : m.get? k with
  | none => rw [modify, h]
  | some v =>
    obtain ⟨l, r, e⟩ := List.append_of_mem (get?_eq_some_iff.1 h)
    have hm := toList_modify f e
    simp only [toList] at e hm
    simp [keys, Entries.keys, e, hm]

/-- A map is its look-ups. -/
theorem ext_get? {m m' : NameMap α} (h : ∀ k, m.get? k = m'.get? k) : m = m' := by
  obtain ⟨l, hl⟩ := m
  obtain ⟨l', hl'⟩ := m'
  have : l = l' := Entries.eq_of_lookup_eq hl hl' h
  subst this
  rfl

theorem mem_keys_iff {m : NameMap α} {k : String} : k ∈ m.keys ↔ ∃ v, m.get? k = some v := by
  obtain ⟨l, hl⟩ := m
  show k ∈ Entries.keys l ↔ ∃ v, l.lookup k = some v
  clear hl
  induction l with
  | nil => simp [Entries.keys]
  | cons e r ih =>
    obtain ⟨k', v'⟩ := e
    by_cases h : k = k'
    · subst h
      simp [Entries.keys]
    · have ih' : k ∈ Entries.keys r ↔ ∃ v, r.lookup k = some v := ih
      simp only [Entries.keys, List.map_cons, List.mem_cons, h, false_or, List.lookup_cons,
        beq_eq_false_iff_ne.2 h] at ih' ⊢
      exact ih'

end NameMap

end ModelSurvey
