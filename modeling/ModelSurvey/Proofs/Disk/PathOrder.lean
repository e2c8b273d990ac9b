import Mathlib.Data.List.Lex
import Mathlib.Data.List.Pairwise
import Mathlib.Data.List.Sort
import ModelSurvey.Disk.Discover

/-! The order of paths. It is the lexicographic order of their components, so paths that are not
ordered either way are spellings of one place. Sorting by it is stable, and of the spellings of a
place the one that came first in the list is kept. -/
namespace ModelSurvey
set_option autoImplicit false

namespace Path

/-! ## Components -/

theorem Component.before_asymm {a b : Component} (h : a.before b = true) : ¬b.before a = true := by
  cases a <;> cases b <;>
    simp only [before, decide_eq_true_eq, Bool.false_eq_true, not_false_eq_true] at h ⊢
  exact String.lt_asymm h

theorem Component.before_trans {a b c : Component} (h : a.before b = true)
    (hb : b.before c = true) : a.before c = true := by
  cases a <;> cases b <;> cases c <;>
    simp only [before, decide_eq_true_eq, Bool.false_eq_true] at h hb ⊢
  exact String.lt_trans h hb

theorem Component.eq_of_not_before {a b : Component} (hab : ¬a.before b = true)
    (hba : ¬b.before a = true) : a = b := by
  cases a <;> cases b <;> simp only [before, decide_eq_true_eq, not_true] at hab hba
  · rfl
  · rfl
  · rfl
  · exact congrArg name (String.le_antisymm (String.not_lt.1 hba) (String.not_lt.1 hab))

theorem componentsBefore_iff_lex (l m : List Component) :
    componentsBefore l m = true ↔ List.Lex (fun a b => a.before b = true) l m := by
  induction l generalizing m with
  | nil => cases m <;> simp [componentsBefore]
  | cons a l ih =>
    cases m with
    | nil => simp [componentsBefore]
    | cons b m =>
      rw [componentsBefore, Bool.or_eq_true, Bool.and_eq_true, beq_iff_eq, ih]
      constructor
      · rintro (h | ⟨rfl, h⟩)
        · exact .rel h
        · exact .cons h
      · intro h
        cases h with
        | rel h => exact Or.inl h
        | cons h => exact Or.inr ⟨rfl, h⟩

instance : Std.Asymm fun a b : Component => a.before b = true :=
  ⟨fun _ _ => Component.before_asymm⟩

instance : Std.Trichotomous fun a b : Component => a.before b = true :=
  ⟨fun _ _ => Component.eq_of_not_before⟩

theorem componentsBefore_asymm {l m : List Component} (h : componentsBefore l m = true) :
    ¬componentsBefore m l = true := by
  rw [componentsBefore_iff_lex] at h ⊢
  exact Std.Asymm.asymm _ _ h

/-! ## Paths -/

variable {p q r : Path}

theorem before_iff : p.before q = true ↔
    List.Lex (fun a b => a.before b = true) p.components q.components :=
  componentsBefore_iff_lex _ _

theorem samePlace_iff : p.samePlace q = true ↔ p.components = q.components := beq_iff_eq

theorem before_congr (h : p.components = q.components) :
    p.before r = q.before r ∧ r.before p = r.before q := by
  rw [before, before, before, before, h]
  exact ⟨rfl, rfl⟩

theorem before_asymm (h : p.before q = true) : ¬q.before p = true := componentsBefore_asymm h

theorem before_trans (h : p.before q = true) (hq : q.before r = true) : p.before r = true := by
  rw [before_iff] at h hq ⊢
  exact List.lex_trans Component.before_trans h hq

theorem components_eq_of_not_before (hpq : ¬p.before q = true) (hqp : ¬q.before p = true) :
    p.components = q.components := by
  rw [before_iff] at hpq hqp
  exact Std.Trichotomous.trichotomous _ _ hpq hqp

theorem components_ne_of_before (h : p.before q = true) : p.components ≠ q.components := by
  intro he
  rw [(before_congr he).1] at h
  exact before_asymm h h

/-- The order that sorting uses. -/
def notAfter (p q : Path) : Bool := !q.before p

theorem notAfter_iff : p.notAfter q = true ↔ ¬q.before p = true := by
  rw [notAfter, Bool.not_eq_true', Bool.not_eq_true]

theorem notAfter_iff_before_or : p.notAfter q = true ↔
    p.before q = true ∨ p.components = q.components := by
  rw [notAfter_iff]
  constructor
  · intro h
    by_cases hpq : p.before q = true
    · exact Or.inl hpq
    · exact Or.inr (components_eq_of_not_before hpq h)
  · rintro (h | h) hqp
    · exact before_asymm h hqp
    · exact components_ne_of_before hqp h.symm

theorem notAfter_trans (p q r : Path) (h : p.notAfter q = true) (hq : q.notAfter r = true) :
    p.notAfter r = true := by
  rw [notAfter_iff_before_or] at h hq ⊢
  rcases h with h | h
  · rcases hq with hq | hq
    · exact Or.inl (before_trans h hq)
    · exact Or.inl ((before_congr hq).2 ▸ h)
  · rcases hq with hq | hq
    · exact Or.inl ((before_congr h).1.symm ▸ hq)
    · exact Or.inr (h.trans hq)

theorem notAfter_total (p q : Path) : (p.notAfter q || q.notAfter p) = true := by
  rw [Bool.or_eq_true, notAfter_iff, notAfter_iff]
  by_cases h : q.before p = true
  · exact Or.inr (before_asymm h)
  · exact Or.inl h

end Path

namespace Disk

open ModelSurvey.Path

/-! ## Sorting -/

theorem filter_mergeSort (l : List Path) (place : Path) :
    (l.mergeSort notAfter).filter place.samePlace = l.filter place.samePlace := by
  have hsame : (l.filter place.samePlace).Pairwise fun p q => p.notAfter q = true := by
    refine List.pairwise_of_forall_mem_list ?_
    intro p hp q hq
    have hp := samePlace_iff.1 (List.mem_filter.1 hp).2
    have hq := samePlace_iff.1 (List.mem_filter.1 hq).2
    exact notAfter_iff_before_or.2 (Or.inr (hp.symm.trans hq))
  -- The spellings of one place are in order as they stand, so a stable sort keeps their order.
  have hsub : (l.filter place.samePlace).Sublist (l.mergeSort notAfter) :=
    List.sublist_mergeSort notAfter_trans notAfter_total hsame List.filter_sublist
  have hfiltered := hsub.filter place.samePlace
  rw [List.filter_filter] at hfiltered
  simp only [Bool.and_self] at hfiltered
  have hlength := ((List.mergeSort_perm l notAfter).filter place.samePlace).length_eq
  exact (hfiltered.eq_of_length hlength.symm).symm

theorem pairwise_mergeSort (l : List Path) :
    (l.mergeSort notAfter).Pairwise fun p q => p.notAfter q = true :=
  List.pairwise_mergeSort notAfter_trans notAfter_total l

/-! ## Dropping repeated places -/

theorem mem_of_mem_dropRepeats {p : Path} {l : List Path} (h : p ∈ dropRepeats l) : p ∈ l := by
  induction l generalizing p with
  | nil => exact h
  | cons a l ih =>
    rw [dropRepeats] at h
    split at h
    · exact List.mem_cons.2 (Or.inl (List.mem_singleton.1 h))
    · rename_i b s hs
      rw [hs] at ih
      split at h
      · rcases List.mem_cons.1 h with rfl | h
        · exact List.mem_cons_self ..
        · exact List.mem_cons_of_mem a (ih (List.mem_cons_of_mem b h))
      · rcases List.mem_cons.1 h with rfl | h
        · exact List.mem_cons_self ..
        · exact List.mem_cons_of_mem a (ih h)

theorem pairwise_dropRepeats {l : List Path} (h : l.Pairwise fun p q => p.notAfter q = true) :
    (dropRepeats l).Pairwise fun p q => p.before q = true := by
  induction l with
  | nil => exact List.Pairwise.nil
  | cons a l ih =>
    rw [List.pairwise_cons] at h
    have hl := ih h.2
    rw [dropRepeats]
    split
    · exact List.pairwise_singleton ..
    · rename_i b s hs
      rw [hs, List.pairwise_cons] at hl
      have hb : b ∈ l := mem_of_mem_dropRepeats (hs ▸ List.mem_cons_self ..)
      split
      · rename_i hsame
        rw [samePlace_iff] at hsame
        exact List.pairwise_cons.2 ⟨fun q hq => (before_congr hsame).1 ▸ hl.1 q hq, hl.2⟩
      · rename_i hother
        rw [samePlace_iff] at hother
        have hab : a.before b = true := (notAfter_iff_before_or.1 (h.1 b hb)).resolve_right hother
        refine List.pairwise_cons.2 ⟨?_, List.pairwise_cons.2 hl⟩
        intro q hq
        rcases List.mem_cons.1 hq with rfl | hq
        · exact hab
        · exact before_trans hab (hl.1 q hq)

/-- Of the paths to one place, the first is the one that stays. -/
theorem find?_dropRepeats (l : List Path) (place : Path) :
    (dropRepeats l).find? place.samePlace = l.find? place.samePlace := by
  induction l with
  | nil => rfl
  | cons a l ih =>
    rw [dropRepeats, List.find?_cons, ← ih]
    split
    · rename_i hs
      rw [hs, List.find?_cons]
    · rename_i b s hs
      rw [hs]
      split
      · rename_i hsame
        have hb : place.samePlace a = place.samePlace b := by
          rw [samePlace, samePlace, samePlace_iff.1 hsame]
        rw [List.find?_cons, List.find?_cons, ← hb]
        split <;> rfl
      · rw [List.find?_cons]

/-! ## Lists in order -/

theorem pairwise_inOrder (l : List Path) :
    (inOrder l).Pairwise fun p q => p.before q = true :=
  pairwise_dropRepeats (pairwise_mergeSort l)

theorem find?_inOrder (l : List Path) (place : Path) :
    (inOrder l).find? place.samePlace = l.find? place.samePlace := by
  have hsort : (l.mergeSort notAfter).find? place.samePlace = l.find? place.samePlace := by
    rw [← List.head?_filter, filter_mergeSort, List.head?_filter]
  rw [← hsort]
  exact find?_dropRepeats _ place

theorem eq_of_mem_of_components_eq {s : List Path} (hs : s.Pairwise fun p q => p.before q = true)
    {p q : Path} (hp : p ∈ s) (hq : q ∈ s) (h : p.components = q.components) : p = q := by
  have hpair : s.Pairwise fun p q => p.components = q.components → p = q :=
    hs.imp fun hbefore he => absurd he (components_ne_of_before hbefore)
  have : Std.Symm fun p q : Path => p.components = q.components → p = q :=
    ⟨fun _ _ hpq he => (hpq he.symm).symm⟩
  exact hpair.forall_of_forall (fun _ _ _ => rfl) hp hq h

/-- A path stays if it is the first one to its place. -/
theorem mem_inOrder_iff {l : List Path} {p : Path} :
    p ∈ inOrder l ↔ l.find? p.samePlace = some p := by
  rw [← find?_inOrder]
  constructor
  · intro hp
    obtain ⟨q, hq⟩ := Option.isSome_iff_exists.1
      (List.find?_isSome.2 ⟨p, hp, samePlace_iff.2 rfl⟩)
    have hplace := samePlace_iff.1 (List.find?_some hq)
    rw [hq, eq_of_mem_of_components_eq (pairwise_inOrder l) hp (List.mem_of_find?_eq_some hq) hplace]
  · intro h
    exact List.mem_of_find?_eq_some h

theorem exists_mem_inOrder {l : List Path} {p : Path} (hp : p ∈ l) :
    ∃ q ∈ inOrder l, p.components = q.components := by
  obtain ⟨q, hq⟩ := Option.isSome_iff_exists.1
    (List.find?_isSome.2 ⟨p, hp, (samePlace_iff.2 rfl : p.samePlace p = true)⟩)
  refine ⟨q, ?_, samePlace_iff.1 (List.find?_some hq)⟩
  rw [← find?_inOrder] at hq
  exact List.mem_of_find?_eq_some hq

theorem mem_of_mem_inOrder {l : List Path} {p : Path} (hp : p ∈ inOrder l) : p ∈ l :=
  List.mem_of_find?_eq_some (mem_inOrder_iff.1 hp)

/-! ## Lists of the same places -/

def SamePlaces (l m : List Path) : Prop :=
  ∀ place, place ∈ l.map components ↔ place ∈ m.map components

theorem SamePlaces.symm {l m : List Path} (h : SamePlaces l m) : SamePlaces m l :=
  fun place => (h place).symm

theorem SamePlaces.exists_mem {l m : List Path} (h : SamePlaces l m) {p : Path} (hp : p ∈ l) :
    ∃ q ∈ m, p.components = q.components := by
  obtain ⟨q, hq, he⟩ := List.mem_map.1 ((h _).1 (List.mem_map_of_mem hp))
  exact ⟨q, hq, he.symm⟩

theorem mem_components_inOrder (l : List Path) (place : List Component) :
    place ∈ (inOrder l).map components ↔ place ∈ l.map components := by
  constructor
  · intro h
    obtain ⟨p, hp, rfl⟩ := List.mem_map.1 h
    exact List.mem_map_of_mem (mem_of_mem_inOrder hp)
  · intro h
    obtain ⟨p, hp, rfl⟩ := List.mem_map.1 h
    obtain ⟨q, hq, he⟩ := exists_mem_inOrder hp
    exact he ▸ List.mem_map_of_mem hq

theorem components_inOrder_eq {l m : List Path} (h : SamePlaces l m) :
    (inOrder l).map components = (inOrder m).map components := by
  have hsorted : ∀ s : List Path, ((inOrder s).map components).Pairwise
      fun a b => componentsBefore a b = true :=
    fun s => List.pairwise_map.2 (pairwise_inOrder s)
  have : Std.Asymm fun a b : List Component => componentsBefore a b = true :=
    ⟨fun _ _ => componentsBefore_asymm⟩
  refine List.Pairwise.eq_of_mem_iff (hsorted l) (hsorted m) fun place => ?_
  rw [mem_components_inOrder, mem_components_inOrder, h place]

theorem inOrder_eq {l m : List Path} (h : SamePlaces l m)
    (hspelled : ∀ p ∈ l, ∀ q ∈ m, p.components = q.components → p = q) :
    inOrder l = inOrder m := by
  have hsub : ∀ {l m : List Path}, SamePlaces l m →
      (∀ p ∈ l, ∀ q ∈ m, p.components = q.components → p = q) →
        ∀ p ∈ inOrder l, p ∈ inOrder m := by
    intro l m h hspelled p hp
    have hpl := mem_of_mem_inOrder hp
    obtain ⟨q, hqm, hpq⟩ := h.exists_mem hpl
    obtain ⟨r, hr, hqr⟩ := exists_mem_inOrder hqm
    rw [hspelled p hpl r (mem_of_mem_inOrder hr) (hpq.trans hqr)]
    exact hr
  have : Std.Asymm fun p q : Path => p.before q = true := ⟨fun _ _ => before_asymm⟩
  refine List.Pairwise.eq_of_mem_iff (pairwise_inOrder l) (pairwise_inOrder m) fun p => ⟨?_, ?_⟩
  · exact hsub h hspelled p
  · exact hsub h.symm (fun q hq p hp he => (hspelled p hp q hq he.symm).symm) p

/-! ## The first path of a list with a result -/

theorem findSome?_eq_some_iff_first {β : Type} {s : List Path}
    (hs : s.Pairwise fun p q => p.before q = true) (g : Path → Option β) {b : β} :
    s.findSome? g = some b ↔
      ∃ p ∈ s, g p = some b ∧ ∀ q ∈ s, (g q).isSome = true → p.notAfter q = true := by
  rw [List.findSome?_eq_some_iff]
  constructor
  · rintro ⟨front, p, back, rfl, hp, hfront⟩
    refine ⟨p, by simp, hp, ?_⟩
    intro q hq hsome
    rw [List.pairwise_append, List.pairwise_cons] at hs
    rw [notAfter_iff_before_or]
    rcases List.mem_append.1 hq with hq | hq
    · rw [hfront q hq] at hsome
      cases hsome
    · rcases List.mem_cons.1 hq with rfl | hq
      · exact Or.inr rfl
      · exact Or.inl (hs.2.1.1 q hq)
  · rintro ⟨p, hp, hb, hfirst⟩
    obtain ⟨front, back, rfl⟩ := List.append_of_mem hp
    refine ⟨front, p, back, rfl, hb, ?_⟩
    intro q hq
    rw [List.pairwise_append] at hs
    have hqp := hs.2.2 q hq p (List.mem_cons_self ..)
    cases hg : g q with
    | none => rfl
    | some c =>
      have hnot := hfirst q (List.mem_append_left _ hq) (by rw [hg]; rfl)
      exact absurd hqp (notAfter_iff.1 hnot)

end Disk

end ModelSurvey
