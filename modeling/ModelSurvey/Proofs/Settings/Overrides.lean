import ModelSurvey.Proofs.Results
import ModelSurvey.Proofs.Text.Numerals
import ModelSurvey.Settings.Environment

/-! What a run of overrides leaves. Overrides take effect one by one, each on the settings that those
before it left, and a run stops at the first variable that cannot be read. What was replaced by then
stays, so a failed run gives the settings back exactly if all values set before were there already. -/
namespace ModelSurvey
set_option autoImplicit false
open Text

/-! ## What can be read -/

/-- The spellings of a size: decimal, with at most one plus sign. -/
inductive WritesSize : List Char → Nat → Prop where
  | bare {ds : List Char} {n : Nat} (h : Numeral 10 ds n) : WritesSize ds n
  | plus {ds : List Char} {n : Nat} (h : Numeral 10 ds n) : WritesSize ('+' :: ds) n

variable {cs : List Char} {n : Nat}

theorem sizeFrom_eq_ok_iff {acc : Nat} (hacc : acc < sizeBound) :
    sizeFrom acc cs = .ok n ↔ digitsFrom? 10 acc cs = some n ∧ n < sizeBound := by
  induction cs generalizing acc with
  | nil =>
    rw [sizeFrom, digitsFrom?, Except.ok.injEq, Option.some_inj]
    exact ⟨fun h => ⟨h, h ▸ hacc⟩, And.left⟩
  | cons c r ih =>
    rw [sizeFrom, digitsFrom?]
    cases digit? 10 c with
    | none => simp
    | some d =>
      rw [Option.bind_some]
      dsimp only
      split
      · rename_i hlt
        exact ih hlt
      · rename_i hlarge
        constructor
        · intro h
          cases h
        · -- Further digits only make the number larger.
          rintro ⟨hdigits, hfits⟩
          have hle := le_of_digitsFrom? (by decide) hdigits
          omega

theorem numeral_iff_sizeFrom (hne : cs ≠ []) :
    sizeFrom 0 cs = .ok n ↔ Numeral 10 cs n ∧ n < sizeBound := by
  obtain ⟨c, r, rfl⟩ := List.exists_cons_of_ne_nil hne
  rw [sizeFrom_eq_ok_iff (by decide), ← numeral?_eq_some_iff (by decide)]
  rfl

theorem readSize_eq_ok_iff : readSize cs = .ok n ↔ WritesSize cs n ∧ n < 2 ^ 64 := by
  constructor
  · intro h
    unfold readSize at h
    split at h
    · cases h
    · cases h
    · rename_i r hr
      obtain ⟨hnumeral, hfits⟩ := (numeral_iff_sizeFrom (mt (hr ·) (by simp))).1 h
      exact ⟨.plus hnumeral, hfits⟩
    · rename_i hne _ _
      obtain ⟨hnumeral, hfits⟩ := (numeral_iff_sizeFrom hne).1 h
      exact ⟨.bare hnumeral, hfits⟩
  · rintro ⟨hwrites, hfits⟩
    cases hwrites with
    | bare h =>
      have hread := (numeral_iff_sizeFrom h.1).2 ⟨h, hfits⟩
      have hplus (r : List Char) : cs ≠ '+' :: r := by
        rintro rfl
        exact absurd (h.isDigit (by decide) '+' (List.mem_cons_self ..)) (by decide)
      unfold readSize
      split
      · exact absurd rfl h.1
      · exact absurd rfl (hplus [])
      · exact absurd rfl (hplus _)
      · exact hread
    | plus h =>
      obtain ⟨c, r, rfl⟩ := List.exists_cons_of_ne_nil h.1
      exact (numeral_iff_sizeFrom h.1).2 ⟨h, hfits⟩

theorem readFlag_eq_ok_iff {b : Bool} :
    readFlag cs = .ok b ↔ cs = (if b then "true" else "false").toList := by
  unfold readFlag
  split
  · rename_i htrue
    cases b <;> simp [htrue]
  · rename_i htrue
    split
    · rename_i hfalse
      cases b <;> simp [hfalse]
    · rename_i hfalse
      cases b <;> simp_all

/-! ## Runs of any overrides -/

section Run

variable (environment : List (String × String))

/-- The trimmed text of a variable, if it is set. -/
def setText? (name : String) : Option (List Char) :=
  (environment.lookup name).map fun raw => trim raw.toList

/-- What one override makes of the settings; nothing changes if its variable is not set. -/
def Override.applied (o : Override) (s : Settings) : Except String Settings :=
  match setText? environment o.variableName with
  | none => .ok s
  | some cs => o.set cs s

/-- Each of the overrides in turn makes something of the settings. -/
inductive Applied : List Override → Settings → Settings → Prop where
  | nil (s : Settings) : Applied [] s s
  | cons {o : Override} {l : List Override} {s s' s'' : Settings}
    (h : o.applied environment s = .ok s') (hl : Applied l s' s'') : Applied (o :: l) s s''

variable {environment} {l : List Override} {o : Override} {s s' : Settings}

theorem applyOverrides_cons (o : Override) (l : List Override) (s : Settings) :
    applyOverrides environment (o :: l) s =
      match o.applied environment s with
      | .ok s' => applyOverrides environment l s'
      | .error reason => (s, some (.invalid o.variableName reason)) := by
  rw [applyOverrides, Override.applied, setText?]
  cases environment.lookup o.variableName <;> rfl

theorem applyOverrides_append (h : Applied environment l s s') (r : List Override) :
    applyOverrides environment (l ++ r) s = applyOverrides environment r s' := by
  induction h with
  | nil s => rfl
  | cons h _ ih =>
    rw [List.cons_append, applyOverrides_cons, h]
    exact ih

/-- A run gets to the end or to a first override that cannot be applied. -/
theorem applied_or_fault (environment : List (String × String)) (l : List Override)
    (s : Settings) :
    (∃ s', Applied environment l s s') ∨
      ∃ before o after s' reason, l = before ++ o :: after ∧ Applied environment before s s' ∧
        o.applied environment s' = .error reason := by
  induction l generalizing s with
  | nil => exact .inl ⟨s, .nil s⟩
  | cons o l ih =>
    cases h : o.applied environment s with
    | error reason => exact .inr ⟨[], o, l, s, reason, rfl, .nil s, h⟩
    | ok s₁ =>
      rcases ih s₁ with ⟨s', hall⟩ | ⟨before, o', after, s', reason, rfl, hbefore, hfault⟩
      · exact .inl ⟨s', .cons h hall⟩
      · exact .inr ⟨o :: before, o', after, s', reason, rfl, .cons h hbefore, hfault⟩

theorem applyOverrides_of_applied (h : Applied environment l s s') :
    applyOverrides environment l s = (s', none) := by
  rw [← List.append_nil l, applyOverrides_append h, applyOverrides]

theorem applyOverrides_of_fault (h : Applied environment l s s') {reason : String}
    (ho : o.applied environment s' = .error reason) (after : List Override) :
    applyOverrides environment (l ++ o :: after) s =
      (s', some (.invalid o.variableName reason)) := by
  rw [applyOverrides_append h, applyOverrides_cons, ho]

/-- Overrides that apply to all settings are all applied. -/
theorem exists_applied (h : ∀ o ∈ l, ∀ s reason, o.applied environment s ≠ .error reason)
    (s : Settings) : ∃ s', Applied environment l s s' := by
  rcases applied_or_fault environment l s with
    hall | ⟨before, o, after, s', reason, rfl, -, hfault⟩
  · exact hall
  · exact absurd hfault (h o (by simp) s' reason)

theorem Applied.exists_ok (h : Applied environment l s s') :
    ∀ o ∈ l, ∃ s₁ s₂, o.applied environment s₁ = .ok s₂ := by
  induction h with
  | nil s => exact fun o ho => absurd ho List.not_mem_nil
  | @cons o l s s₁ s₂ h _ ih => exact List.forall_mem_cons.2 ⟨⟨s, s₁, h⟩, ih⟩

theorem applied_eq_ok_iff : o.applied environment s = .ok s' ↔
    (setText? environment o.variableName = none ∧ s = s') ∨
      ∃ cs, setText? environment o.variableName = some cs ∧ o.set cs s = .ok s' := by
  rw [Override.applied]
  cases setText? environment o.variableName <;> simp

theorem applied_eq_error_iff {reason : String} : o.applied environment s = .error reason ↔
    ∃ cs, setText? environment o.variableName = some cs ∧ o.set cs s = .error reason := by
  rw [Override.applied]
  cases setText? environment o.variableName <;> simp

end Run

/-! ## The three fields -/

/-- How a field comes out that a variable replaces: with the value read from the text that the
variable is set to, or as it was. -/
inductive Replaced {ε α : Type} (read : List Char → Except ε α) :
    Option (List Char) → Option α → Option α → Prop where
  | unset (old : Option α) : Replaced read none old old
  | set {cs : List Char} {v : α} (h : read cs = .ok v) (old : Option α) :
    Replaced read (some cs) old (some v)

/-- A variable is set to a text that cannot be read. -/
inductive Faulty (environment : List (String × String)) (name : String) : String → Prop where
  | size {cs : List Char} {fault : SizeFault} (hname : name = sizeOverride.variableName)
    (hset : setText? environment name = some cs) (h : readSize cs = .error fault) :
    Faulty environment name fault.message
  | flag {cs : List Char} {reason : String}
    (hname : name = enabledOverride.variableName ∨ name = followOverride.variableName)
    (hset : setText? environment name = some cs) (h : readFlag cs = .error reason) :
    Faulty environment name reason

section Fields

variable {environment : List (String × String)} {o : Override} {s s' : Settings} {reason : String}

theorem replaced_none_iff {ε α : Type} {read : List Char → Except ε α} {old new : Option α} :
    Replaced read none old new ↔ new = old := by
  constructor
  · rintro ⟨⟩
    rfl
  · rintro rfl
    exact .unset new

theorem Replaced.unique {ε α : Type} {read : List Char → Except ε α} {text? : Option (List Char)}
    {old new new' : Option α} (h : Replaced read text? old new) (h' : Replaced read text? old new') :
    new = new' := by
  cases h with
  | unset => exact (replaced_none_iff.1 h').symm
  | set h =>
    cases h' with
    | set h' => rw [Except.ok.inj (h.symm.trans h')]

theorem replaced_of_size (h : sizeOverride.applied environment s = .ok s') :
    Replaced readSize (setText? environment sizeOverride.variableName)
      s.parser.maxFileSize s'.parser.maxFileSize ∧
      s'.expansion = s.expansion ∧ s'.registry = s.registry := by
  rcases applied_eq_ok_iff.1 h with ⟨hunset, rfl⟩ | ⟨cs, hset, h⟩
  · rw [hunset]
    exact ⟨.unset _, rfl, rfl⟩
  · obtain ⟨n, hread, rfl⟩ := map_eq_ok_iff.1 h
    rw [hset]
    exact ⟨.set (mapError_eq_ok_iff.1 hread) _, rfl, rfl⟩

theorem replaced_of_enabled (h : enabledOverride.applied environment s = .ok s') :
    Replaced readFlag (setText? environment enabledOverride.variableName)
      s.expansion.enabled s'.expansion.enabled ∧
      s'.expansion.concernMarkers = s.expansion.concernMarkers ∧
      s'.parser = s.parser ∧ s'.registry = s.registry := by
  rcases applied_eq_ok_iff.1 h with ⟨hunset, rfl⟩ | ⟨cs, hset, h⟩
  · rw [hunset]
    exact ⟨.unset _, rfl, rfl, rfl⟩
  · obtain ⟨b, hread, rfl⟩ := map_eq_ok_iff.1 h
    rw [hset]
    exact ⟨.set hread _, rfl, rfl, rfl⟩

theorem replaced_of_follow (h : followOverride.applied environment s = .ok s') :
    Replaced readFlag (setText? environment followOverride.variableName)
      s.registry.followSymlinks s'.registry.followSymlinks ∧
      s'.registry.roots = s.registry.roots ∧ s'.registry.extraIgnore = s.registry.extraIgnore ∧
      s'.parser = s.parser ∧ s'.expansion = s.expansion := by
  rcases applied_eq_ok_iff.1 h with ⟨hunset, rfl⟩ | ⟨cs, hset, h⟩
  · rw [hunset]
    exact ⟨.unset _, rfl, rfl, rfl, rfl⟩
  · obtain ⟨b, hread, rfl⟩ := map_eq_ok_iff.1 h
    rw [hset]
    exact ⟨.set hread _, rfl, rfl, rfl, rfl⟩

theorem mem_overrides_iff :
    o ∈ overrides ↔ o = sizeOverride ∨ o = enabledOverride ∨ o = followOverride := by
  simp only [overrides, List.mem_cons, List.not_mem_nil, or_false]

theorem mem_overrides_of_split {before after : List Override}
    (hsplit : overrides = before ++ o :: after) : o ∈ overrides := by
  rw [hsplit]
  exact List.mem_append_right before (List.mem_cons_self ..)

/-- Whether an override can be applied does not depend on the settings. -/
theorem applied_eq_error_iff_faulty (ho : o ∈ overrides) :
    o.applied environment s = .error reason ↔ Faulty environment o.variableName reason := by
  rw [applied_eq_error_iff]
  rcases mem_overrides_iff.1 ho with rfl | rfl | rfl
  · constructor
    · rintro ⟨cs, hset, h⟩
      obtain ⟨fault, hread, rfl⟩ := mapError_eq_error_iff.1 (map_eq_error_iff.1 h)
      exact .size rfl hset hread
    · intro h
      cases h with
      | size _ hset hread =>
        exact ⟨_, hset, map_eq_error_iff.2 (mapError_eq_error_iff.2 ⟨_, hread, rfl⟩)⟩
      | flag hname => exact absurd hname (by decide)
  all_goals
    constructor
    · rintro ⟨cs, hset, h⟩
      exact .flag (by decide) hset (map_eq_error_iff.1 h)
    · intro h
      cases h with
      | size hname => exact absurd hname (by decide)
      | flag _ hset hread => exact ⟨_, hset, map_eq_error_iff.2 hread⟩

/-! ## Settings after some overrides -/

/-- The text of a variable that is set and among `names`. -/
def takenText? (environment : List (String × String)) (names : List String) (name : String) :
    Option (List Char) :=
  if name ∈ names then setText? environment name else none

/-- The settings `s'` are `s` with exactly those fields replaced whose variables are set and among
`names`. -/
structure Overridden (environment : List (String × String)) (names : List String)
    (s s' : Settings) : Prop where
  size : Replaced readSize (takenText? environment names sizeOverride.variableName)
    s.parser.maxFileSize s'.parser.maxFileSize
  enabled : Replaced readFlag (takenText? environment names enabledOverride.variableName)
    s.expansion.enabled s'.expansion.enabled
  follow : Replaced readFlag (takenText? environment names followOverride.variableName)
    s.registry.followSymlinks s'.registry.followSymlinks
  roots : s'.registry.roots = s.registry.roots
  extraIgnore : s'.registry.extraIgnore = s.registry.extraIgnore
  concernMarkers : s'.expansion.concernMarkers = s.expansion.concernMarkers

variable {names : List String} {name : String} {s'' : Settings}

theorem takenText?_append_self : takenText? environment (names ++ [name]) name =
    setText? environment name := if_pos (by simp)

theorem takenText?_append_of_ne {other : String} (h : other ≠ name) :
    takenText? environment (names ++ [name]) other = takenText? environment names other := by
  simp [takenText?, h]

/-- A variable that was not among those taken before finds its field as it was. -/
theorem Replaced.next {ε α : Type} {read : List Char → Except ε α} {old mid new : Option α}
    (hname : name ∉ names) (h : Replaced read (takenText? environment names name) old mid)
    (hnew : Replaced read (setText? environment name) mid new) :
    Replaced read (takenText? environment (names ++ [name]) name) old new := by
  rw [takenText?, if_neg hname] at h
  rw [takenText?_append_self, ← replaced_none_iff.1 h]
  exact hnew

theorem Overridden.nil (s : Settings) : Overridden environment [] s s :=
  ⟨.unset _, .unset _, .unset _, rfl, rfl, rfl⟩

theorem Overridden.next (h : Overridden environment names s s') (ho : o ∈ overrides)
    (hname : o.variableName ∉ names) (happlied : o.applied environment s' = .ok s'') :
    Overridden environment (names ++ [o.variableName]) s s'' := by
  have hother (other : String) (hne : other ≠ o.variableName) :
      takenText? environment (names ++ [o.variableName]) other =
        takenText? environment names other := takenText?_append_of_ne hne
  rcases mem_overrides_iff.1 ho with rfl | rfl | rfl
  · obtain ⟨hsize, hexpansion, hregistry⟩ := replaced_of_size happlied
    refine ⟨h.size.next hname hsize, ?_, ?_, hregistry ▸ h.roots, hregistry ▸ h.extraIgnore,
      hexpansion ▸ h.concernMarkers⟩
    · rw [hother _ (by decide), hexpansion]
      exact h.enabled
    · rw [hother _ (by decide), hregistry]
      exact h.follow
  · obtain ⟨henabled, hmarkers, hparser, hregistry⟩ := replaced_of_enabled happlied
    refine ⟨?_, h.enabled.next hname henabled, ?_, hregistry ▸ h.roots, hregistry ▸ h.extraIgnore,
      hmarkers.trans h.concernMarkers⟩
    · rw [hother _ (by decide), hparser]
      exact h.size
    · rw [hother _ (by decide), hregistry]
      exact h.follow
  · obtain ⟨hfollow, hroots, hignore, hparser, hexpansion⟩ := replaced_of_follow happlied
    refine ⟨?_, ?_, h.follow.next hname hfollow, hroots.trans h.roots,
      hignore.trans h.extraIgnore, hexpansion ▸ h.concernMarkers⟩
    · rw [hother _ (by decide), hparser]
      exact h.size
    · rw [hother _ (by decide), hexpansion]
      exact h.enabled

theorem Overridden.unique (h : Overridden environment names s s')
    (h' : Overridden environment names s s'') : s' = s'' := by
  obtain ⟨⟨size⟩, ⟨roots, extraIgnore, follow⟩, ⟨enabled, markers⟩⟩ := s'
  obtain ⟨⟨size'⟩, ⟨roots', extraIgnore', follow'⟩, ⟨enabled', markers'⟩⟩ := s''
  obtain rfl : size = size' := h.size.unique h'.size
  obtain rfl : enabled = enabled' := h.enabled.unique h'.enabled
  obtain rfl : follow = follow' := h.follow.unique h'.follow
  obtain rfl : roots = roots' := h.roots.trans h'.roots.symm
  obtain rfl : extraIgnore = extraIgnore' := h.extraIgnore.trans h'.extraIgnore.symm
  obtain rfl : markers = markers' := h.concernMarkers.trans h'.concernMarkers.symm
  rfl

/-- The induction goes along the run, with the variables that were taken before it. -/
theorem Overridden.run {l : List Override} (h : Overridden environment names s s')
    (hl : l ⊆ overrides) (hnodup : (names ++ l.map Override.variableName).Nodup)
    (happlied : Applied environment l s' s'') :
    Overridden environment (names ++ l.map Override.variableName) s s'' := by
  induction happlied generalizing names with
  | nil s' => simpa using h
  | @cons o l s' s₁ s'' hstep _ ih =>
    have hname : o.variableName ∉ names := by
      intro hmem
      exact (List.nodup_append.1 hnodup).2.2 _ hmem _ (by simp) rfl
    rw [List.map_cons, List.append_cons] at hnodup ⊢
    exact ih (h.next (hl (List.mem_cons_self ..)) hname hstep)
      (fun o ho => hl (List.mem_cons_of_mem _ ho)) hnodup

/-! ## All or nothing -/

def Readable (environment : List (String × String)) (l : List Override) : Prop :=
  ∀ o ∈ l, ∀ reason, ¬Faulty environment o.variableName reason

/-- The variable of `o` is faulty, and those of the overrides before it are not. -/
structure FirstFault (environment : List (String × String)) (before : List Override) (o : Override)
    (reason : String) : Prop where
  order : ∃ after, overrides = before ++ o :: after
  readable : Readable environment before
  faulty : Faulty environment o.variableName reason

theorem Overridden.of_applied {l r : List Override} (hsplit : overrides = l ++ r)
    (h : Applied environment l s s') :
    Overridden environment (l.map Override.variableName) s s' := by
  have hnodup : (overrides.map Override.variableName).Nodup := by decide
  rw [hsplit, List.map_append] at hnodup
  refine (Overridden.nil s).run ?_ hnodup.of_append_left h
  rw [hsplit]
  exact List.subset_append_left l r

theorem exists_applied_of_readable {l r : List Override} (hsplit : overrides = l ++ r)
    (h : Readable environment l) (s : Settings) : ∃ s', Applied environment l s s' := by
  refine exists_applied (fun o ho s' reason hfault => h o ho reason ?_) s
  exact (applied_eq_error_iff_faulty (hsplit ▸ List.mem_append_left r ho)).1 hfault

theorem override_of_readable (h : Readable environment overrides) (s : Settings) :
    ∃ s', s.override environment = (s', none) ∧
      Overridden environment (overrides.map Override.variableName) s s' := by
  have hsplit : overrides = overrides ++ [] := (List.append_nil _).symm
  obtain ⟨s', happlied⟩ := exists_applied_of_readable hsplit h s
  exact ⟨s', applyOverrides_of_applied happlied, .of_applied hsplit happlied⟩

theorem override_of_firstFault {before : List Override}
    (h : FirstFault environment before o reason) (s : Settings) :
    ∃ s', s.override environment = (s', some (.invalid o.variableName reason)) ∧
      Overridden environment (before.map Override.variableName) s s' := by
  obtain ⟨after, hsplit⟩ := h.order
  obtain ⟨s', happlied⟩ := exists_applied_of_readable hsplit h.readable s
  have hfault := applyOverrides_of_fault happlied
    ((applied_eq_error_iff_faulty (mem_overrides_of_split hsplit)).2 h.faulty) after
  rw [← hsplit] at hfault
  exact ⟨s', hfault, .of_applied hsplit happlied⟩

theorem readable_of_applied {l r : List Override} (hsplit : overrides = l ++ r)
    (h : Applied environment l s s') : Readable environment l := by
  intro o ho reason hfaulty
  obtain ⟨s₁, s₂, hok⟩ := h.exists_ok o ho
  have herror := (applied_eq_error_iff_faulty (s := s₁) (hsplit ▸ List.mem_append_left r ho)).2
    hfaulty
  cases hok.symm.trans herror

theorem exists_firstFault (h : ¬Readable environment overrides) :
    ∃ before o reason, FirstFault environment before o reason := by
  rcases applied_or_fault environment overrides {} with
    ⟨s', happlied⟩ | ⟨before, o, after, s', reason, hsplit, hbefore, hfault⟩
  · exact absurd (readable_of_applied (List.append_nil _).symm happlied) h
  · exact ⟨before, o, reason, ⟨after, hsplit⟩, readable_of_applied hsplit hbefore,
      (applied_eq_error_iff_faulty (mem_overrides_of_split hsplit)).1 hfault⟩

end Fields

/-- A run of overrides succeeds exactly if no variable is faulty, and has then replaced the fields
of all variables that are set. A run that fails names the first faulty variable and has replaced the
fields of those before it, so it leaves the settings alone exactly if those fields had their values
already. -/
theorem overrides_all_or_nothing_iff (environment : List (String × String)) (s : Settings) :
    let s' := (s.override environment).1
    let failure? := (s.override environment).2
    (failure? = none ↔ Readable environment overrides) ∧
    (failure? = none → Overridden environment (overrides.map Override.variableName) s s') ∧
    (failure? ≠ none → ∃ before o reason, FirstFault environment before o reason) ∧
    (∀ before o reason, FirstFault environment before o reason →
      failure? = some (.invalid o.variableName reason) ∧
      Overridden environment (before.map Override.variableName) s s' ∧
      (s' = s ↔ Overridden environment (before.map Override.variableName) s s)) ∧
    (∀ cs n, readSize cs = .ok n ↔ WritesSize cs n ∧ n < 2 ^ 64) ∧
    ∀ cs b, readFlag cs = .ok b ↔ cs = (if b then "true" else "false").toList := by
  intro s' failure?
  have hfault : ∀ before o reason, FirstFault environment before o reason →
      failure? = some (.invalid o.variableName reason) ∧
        Overridden environment (before.map Override.variableName) s s' := by
    intro before o reason h
    obtain ⟨t, hrun, hoverridden⟩ := override_of_firstFault h s
    have hs' : s' = t := congrArg Prod.fst hrun
    exact ⟨congrArg Prod.snd hrun, hs' ▸ hoverridden⟩
  have hall (h : Readable environment overrides) : failure? = none ∧
      Overridden environment (overrides.map Override.variableName) s s' := by
    obtain ⟨t, hrun, hoverridden⟩ := override_of_readable h s
    have hs' : s' = t := congrArg Prod.fst hrun
    exact ⟨congrArg Prod.snd hrun, hs' ▸ hoverridden⟩
  have hreadable : failure? = none → Readable environment overrides := by
    intro hnone
    by_contra h
    obtain ⟨before, o, reason, h⟩ := exists_firstFault h
    cases hnone.symm.trans (hfault before o reason h).1
  refine ⟨⟨hreadable, fun h => (hall h).1⟩, fun hnone => (hall (hreadable hnone)).2,
    fun hsome => exists_firstFault fun h => hsome (hall h).1, fun before o reason h => ?_,
    fun _ _ => readSize_eq_ok_iff, fun _ _ => readFlag_eq_ok_iff⟩
  obtain ⟨hfailure, hoverridden⟩ := hfault before o reason h
  refine ⟨hfailure, hoverridden, fun hs' => ?_, fun hsame => hoverridden.unique hsame⟩
  rwa [hs'] at hoverridden

/-- The size is set before the faulty flag is met. -/
theorem failed_overrides_leave_size :
    let environment := [("RBSGEN_PARSER_MAX_FILE_SIZE", "4096"),
      ("RBSGEN_EXPANSION_ENABLED", "sometimes")]
    let s : Settings := {}
    s.override environment = ({ s with parser := ⟨some 4096⟩ },
      some (.invalid "RBSGEN_EXPANSION_ENABLED"
        "provided string was not \x60true\x60 or \x60false\x60")) ∧
    (s.override environment).1 ≠ s := by
  decide +kernel

end ModelSurvey
