import ModelSurvey.Registry.Resolve

/-! Lexical look-up. Inside a context a name has one reading for each depth, the name below that many
segments of the context, and it denotes what is known under the deepest reading that is known at
all. A rooted name has a single reading. More known names can move a name to a greater depth but
never lose it, and names that are none of its readings do not matter. -/
namespace ModelSurvey
set_option autoImplicit false

namespace Name

/-! ## Readings -/

/-- Whether a name is written with a leading `::`. -/
def Rooted (name : String) : Prop := ∃ rest, name = mark ++ rest

/-- The name below the first `depth` segments of a context. -/
def reading (name : String) (context : List String) (depth : Nat) : String :=
  join (context.take depth ++ [name])

theorem afterMark?_eq_some_iff {name rest : String} :
    afterMark? name = some rest ↔ name = mark ++ rest := by
  rw [afterMark?]
  constructor
  · intro h
    split at h
    · rename_i r hr
      cases h
      rw [← String.toList_inj, hr, String.toList_append, String.toList_ofList]
      rfl
    · cases h
  · rintro rfl
    have hchars : (mark ++ rest).toList = ':' :: ':' :: rest.toList := by
      rw [String.toList_append]
      rfl
    rw [hchars]
    exact congrArg some String.ofList_toList

theorem afterMark?_eq_none_iff {name : String} : afterMark? name = none ↔ ¬Rooted name := by
  rw [Option.eq_none_iff_forall_ne_some, Rooted, not_exists]
  exact forall_congr' fun rest => not_congr afterMark?_eq_some_iff

theorem candidates_rooted (rest : String) (context : List String) :
    candidates (mark ++ rest) context = [rest] := by
  rw [candidates, afterMark?_eq_some_iff.2 rfl]

theorem candidates_of_not_rooted {name : String} (h : ¬Rooted name) (context : List String) :
    candidates name context = (enclosing context).map fun outer => join (outer ++ [name]) := by
  rw [candidates, afterMark?_eq_none_iff.2 h]

/-! ## Enclosing contexts -/

section Enclosing

variable {α : Type}

theorem findSome?_enclosing_eq_none_iff {context : List String} {f : List String → Option α} :
    (enclosing context).findSome? f = none ↔
      ∀ depth ≤ context.length, f (context.take depth) = none := by
  induction context generalizing f with
  | nil => simp [enclosing]
  | cons s r ih =>
    rw [enclosing, List.findSome?_append, List.findSome?_map, Option.or_eq_none_iff, ih,
      List.findSome?_singleton]
    constructor
    · rintro ⟨hdeeper, htop⟩ depth hdepth
      cases depth with
      | zero => exact htop
      | succ d => exact hdeeper d (Nat.le_of_succ_le_succ hdepth)
    · intro h
      exact ⟨fun d hd => h (d + 1) (Nat.succ_le_succ hd), h 0 (Nat.zero_le _)⟩

/-- The first success along the enclosing contexts is the one of greatest depth. -/
theorem findSome?_enclosing_eq_some_iff {context : List String} {f : List String → Option α}
    {a : α} :
    (enclosing context).findSome? f = some a ↔
      ∃ depth ≤ context.length, f (context.take depth) = some a ∧
        ∀ d, depth < d → d ≤ context.length → f (context.take d) = none := by
  induction context generalizing f with
  | nil =>
    rw [enclosing, List.findSome?_singleton]
    constructor
    · intro h
      exact ⟨0, Nat.le_refl 0, h, fun d hd hd' => absurd hd (Nat.not_lt.2 hd')⟩
    · rintro ⟨depth, -, h, -⟩
      rwa [List.take_nil] at h
  | cons s r ih =>
    rw [enclosing, List.findSome?_append, List.findSome?_map, List.findSome?_singleton,
      Option.or_eq_some_iff, ih, findSome?_enclosing_eq_none_iff]
    constructor
    · rintro (⟨depth, hdepth, hhit, hdeeper⟩ | ⟨hdeeper, htop⟩)
      · refine ⟨depth + 1, Nat.succ_le_succ hdepth, hhit, fun d hlt hle => ?_⟩
        obtain ⟨d, rfl⟩ := Nat.exists_eq_succ_of_ne_zero (Nat.ne_zero_of_lt hlt)
        exact hdeeper d (Nat.lt_of_succ_lt_succ hlt) (Nat.le_of_succ_le_succ hle)
      · refine ⟨0, Nat.zero_le _, htop, fun d hlt hle => ?_⟩
        obtain ⟨d, rfl⟩ := Nat.exists_eq_succ_of_ne_zero (Nat.ne_zero_of_lt hlt)
        exact hdeeper d (Nat.le_of_succ_le_succ hle)
    · rintro ⟨depth, hdepth, hhit, hdeeper⟩
      cases depth with
      | zero => exact Or.inr ⟨fun d hd => hdeeper (d + 1) d.succ_pos (Nat.succ_le_succ hd), hhit⟩
      | succ depth =>
        exact Or.inl ⟨depth, Nat.le_of_succ_le_succ hdepth, hhit, fun d hlt hle =>
          hdeeper (d + 1) (Nat.succ_lt_succ hlt) (Nat.succ_le_succ hle)⟩

end Enclosing

end Name

namespace Registry

/-! ## The innermost definition -/

/-- At `depth` the name denotes `ref`, and at no greater depth does it denote anything. -/
structure DenotesAt (r : Registry) (name : String) (context : List String) (depth : Nat)
    (ref : Reference) : Prop where
  within : depth ≤ context.length
  reading : ref.name = Name.reading name context depth
  stored : r.get? ref.name = some ref.entry
  innermost : ∀ d, depth < d → d ≤ context.length → r.get? (Name.reading name context d) = none

variable {r r' : Registry} {name : String} {context : List String}

theorem find?_eq_some_iff {ref : Reference} :
    r.find? name = some ref ↔ ref.name = name ∧ r.get? ref.name = some ref.entry := by
  rw [find?, Option.map_eq_some_iff]
  constructor
  · rintro ⟨e, he, rfl⟩
    exact ⟨rfl, he⟩
  · rintro ⟨rfl, he⟩
    exact ⟨ref.entry, he, rfl⟩

theorem find?_eq_none_iff : r.find? name = none ↔ r.get? name = none := Option.map_eq_none_iff

theorem resolve_rooted (r : Registry) (rest : String) (context : List String) :
    r.resolve (Name.mark ++ rest) context = r.find? rest := by
  rw [resolve, Name.candidates_rooted, List.findSome?_singleton]

theorem resolve_eq_some_iff (h : ¬Name.Rooted name) {ref : Reference} :
    r.resolve name context = some ref ↔ ∃ depth, r.DenotesAt name context depth ref := by
  rw [resolve, Name.candidates_of_not_rooted h, List.findSome?_map,
    Name.findSome?_enclosing_eq_some_iff]
  constructor
  · rintro ⟨depth, hwithin, hhit, hdeeper⟩
    obtain ⟨hreading, hstored⟩ := find?_eq_some_iff.1 hhit
    exact ⟨depth, hwithin, hreading, hstored, fun d hlt hle =>
      find?_eq_none_iff.1 (hdeeper d hlt hle)⟩
  · rintro ⟨depth, hwithin, hreading, hstored, hinnermost⟩
    exact ⟨depth, hwithin, find?_eq_some_iff.2 ⟨hreading, hstored⟩, fun d hlt hle =>
      find?_eq_none_iff.2 (hinnermost d hlt hle)⟩

theorem resolve_eq_none_iff (h : ¬Name.Rooted name) :
    r.resolve name context = none ↔
      ∀ depth ≤ context.length, r.get? (Name.reading name context depth) = none := by
  rw [resolve, Name.candidates_of_not_rooted h, List.findSome?_map,
    Name.findSome?_enclosing_eq_none_iff]
  exact forall₂_congr fun _ _ => find?_eq_none_iff

/-! ## Two registries -/

theorem DenotesAt.mono (h : ¬Name.Rooted name) (hnames : ∀ known ∈ r.names, known ∈ r'.names)
    {depth : Nat} {ref : Reference} (hdenotes : r.DenotesAt name context depth ref) :
    ∃ depth' ref', depth ≤ depth' ∧ r'.DenotesAt name context depth' ref' := by
  have hknown : ref.name ∈ r'.names := hnames _ (mem_names_iff.2 ⟨_, hdenotes.stored⟩)
  obtain ⟨e, he⟩ := mem_names_iff.1 hknown
  rw [hdenotes.reading] at he
  cases hresolve : r'.resolve name context with
  | none =>
    rw [(resolve_eq_none_iff h).1 hresolve depth hdenotes.within] at he
    cases he
  | some ref' =>
    obtain ⟨depth', hdenotes'⟩ := (resolve_eq_some_iff h).1 hresolve
    refine ⟨depth', ref', Nat.not_lt.1 fun hlt => ?_, hdenotes'⟩
    rw [hdenotes'.innermost depth hlt hdenotes.within] at he
    cases he

theorem resolve_mono (hnames : ∀ known ∈ r.names, known ∈ r'.names)
    (hresolve : r.resolve name context ≠ none) : r'.resolve name context ≠ none := by
  obtain ⟨ref, href⟩ := Option.ne_none_iff_exists'.1 hresolve
  by_cases h : Name.Rooted name
  · obtain ⟨rest, rfl⟩ := h
    rw [resolve_rooted, find?_eq_some_iff] at href
    obtain ⟨rfl, hstored⟩ := href
    obtain ⟨e, he⟩ := mem_names_iff.1 (hnames _ (mem_names_iff.2 ⟨_, hstored⟩))
    rw [resolve_rooted, Ne, find?_eq_none_iff, he]
    exact Option.some_ne_none e
  · obtain ⟨depth, hdenotes⟩ := (resolve_eq_some_iff h).1 href
    obtain ⟨depth', ref', -, hdenotes'⟩ := hdenotes.mono h hnames
    rw [(resolve_eq_some_iff h).2 ⟨depth', hdenotes'⟩]
    exact Option.some_ne_none ref'

theorem resolve_congr (h : ∀ c ∈ Name.candidates name context, r.get? c = r'.get? c) :
    r.resolve name context = r'.resolve name context := by
  rw [resolve, resolve]
  generalize Name.candidates name context = readings at h
  induction readings with
  | nil => rfl
  | cons c l ih =>
    obtain ⟨hc, hl⟩ := List.forall_mem_cons.1 h
    rw [List.findSome?_cons, List.findSome?_cons, find?, find?, hc, ih hl]

theorem get?_foldl_define_of_ne {l : List Entry} (h : ∀ e ∈ l, Name.unroot e.name ≠ name) :
    (l.foldl define r).get? name = r.get? name := by
  induction l generalizing r with
  | nil => rfl
  | cons e l ih =>
    obtain ⟨he, hl⟩ := List.forall_mem_cons.1 h
    rw [List.foldl_cons, ih hl, get?_define_of_ne r e (Ne.symm he)]

/-- A name denotes the definition of greatest depth, if it is defined at some depth, and a rooted
name what is defined under it without its mark. With more definitions it denotes something at least
as deep, and definitions under other names than its candidates leave it alone. -/
theorem resolve_finds_innermost (r : Registry) (name : String) (context : List String) :
    (¬Name.Rooted name →
      (∀ ref, r.resolve name context = some ref ↔
        ∃ depth, r.DenotesAt name context depth ref) ∧
      (r.resolve name context = none ↔
        ∀ depth ≤ context.length, r.get? (Name.reading name context depth) = none) ∧
      ∀ r' : Registry, (∀ known ∈ r.names, known ∈ r'.names) →
        ∀ depth ref, r.DenotesAt name context depth ref →
          ∃ depth' ref', depth ≤ depth' ∧ r'.DenotesAt name context depth' ref' ∧
            r'.resolve name context = some ref') ∧
    (∀ rest, name = Name.mark ++ rest →
      r.resolve name context = (r.get? rest).map fun e => ⟨rest, e⟩) ∧
    (∀ r' : Registry, (∀ known ∈ r.names, known ∈ r'.names) →
      r.resolve name context ≠ none → r'.resolve name context ≠ none) ∧
    (∀ r' : Registry, (∀ c ∈ Name.candidates name context, r.get? c = r'.get? c) →
      r.resolve name context = r'.resolve name context) ∧
    ∀ l : List Entry, (∀ e ∈ l, Name.unroot e.name ∉ Name.candidates name context) →
      (l.foldl define r).resolve name context = r.resolve name context := by
  refine ⟨fun h => ⟨fun ref => resolve_eq_some_iff h, resolve_eq_none_iff h, ?_⟩, ?_,
    fun r' hnames => resolve_mono hnames, fun r' => resolve_congr, ?_⟩
  · intro r' hnames depth ref hdenotes
    obtain ⟨depth', ref', hle, hdenotes'⟩ := hdenotes.mono h hnames
    exact ⟨depth', ref', hle, hdenotes', (resolve_eq_some_iff h).2 ⟨depth', hdenotes'⟩⟩
  · rintro rest rfl
    exact resolve_rooted r rest context
  · intro l hl
    refine resolve_congr fun c hc => get?_foldl_define_of_ne fun e he heq => ?_
    exact hl e he (heq ▸ hc)

end Registry

end ModelSurvey
