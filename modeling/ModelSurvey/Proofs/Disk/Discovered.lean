import ModelSurvey.Disk.Discover
import ModelSurvey.Proofs.Disk.FilePath

/-! Discovered paths. A name that is joined to a path below the top directory becomes its last
piece, and a walk collects only joined names that have an extension. So every path that a walk
finds ends in a name, whatever its root was written like. -/
namespace ModelSurvey.Disk
set_option autoImplicit false
open ModelSurvey.Path ModelSurvey.Text

variable {d : Disk} {p : Path}

/-! ## Joining names -/

/-- Names have no slash in them, and the path of the top directory has none behind it. -/
structure Proper (d : Disk) : Prop where
  top : ∃ front c, d.top.text.toList = front ++ [c] ∧ c ≠ '/'
  names : ∀ e ∈ d.items, ∀ name ∈ e.1, '/' ∉ name.toList

theorem pieces_eq_singleton {name : List Char} (h : '/' ∉ name) :
    pieces (· == '/') name = [name] :=
  pieces_of_not_cut fun _ hc => beq_false_of_ne fun he => h (he ▸ hc)

theorem not_isAbsolute {name : String} (h : '/' ∉ name.toList) : ¬isAbsolute name = true := by
  rw [isAbsolute, beq_iff_eq]
  exact mt List.mem_of_head? h

theorem text_join (hp : p.text.toList ≠ []) {text : String} (htext : ¬isAbsolute text = true) :
    ∃ stem, (p.join text).text.toList = stem ++ '/' :: text.toList ∧
      (p.text.toList = stem ∨ p.text.toList = stem ++ ['/']) := by
  rw [join, if_neg htext]
  split
  · rename_i hend
    have hempty : ¬p.text.isEmpty = true := by
      rw [String.isEmpty_iff]
      intro h
      exact hp (by rw [h]; rfl)
    rw [Bool.or_eq_true, or_iff_right hempty, beq_iff_eq] at hend
    obtain ⟨stem, hstem⟩ := List.getLast?_eq_some_iff.1 hend
    exact ⟨stem, by simp [hstem], Or.inr hstem⟩
  · exact ⟨p.text.toList, by simp, Or.inl rfl⟩

/-- A name put behind a path below the top is its last piece. -/
theorem piecesBelow?_join (hd : d.Proper) {ps : List String} (hp : d.piecesBelow? p = some ps)
    {name : String} (hname : '/' ∉ name.toList) :
    ∃ front, d.piecesBelow? (p.join name) = some (front ++ [name]) := by
  obtain ⟨before, c, htop, hc⟩ := hd.top
  have htext : p.text.toList = d.top.text.toList ∨
      ∃ r, p.text.toList = d.top.text.toList ++ '/' :: r :=
    (piecesBelow?_eq_some_iff.1 hp).imp And.left fun ⟨r, hr, _⟩ => ⟨r, hr⟩
  have hne : p.text.toList ≠ [] := by
    rcases htext with h | ⟨r, h⟩ <;> simp [h, htop]
  obtain ⟨stem, hjoin, hstem⟩ := text_join hne (not_isAbsolute hname)
  have hbelow : stem = d.top.text.toList ∨ ∃ r, stem = d.top.text.toList ++ '/' :: r := by
    rcases hstem with rfl | hstem
    · exact htext
    · rw [hstem] at htext
      rcases htext with h | ⟨r, h⟩
      · rw [htop] at h
        exact absurd (List.append_inj_right' h rfl) (by simpa using Ne.symm hc)
      · -- The slash at the end is the one behind the top or the last character of the rest.
        rcases List.eq_nil_or_concat r with rfl | ⟨r, x, rfl⟩
        · exact Or.inl (List.append_inj_left' h rfl)
        · rw [List.concat_eq_append, ← List.cons_append, ← List.append_assoc] at h
          exact Or.inr ⟨r, List.append_inj_left' h rfl⟩
  have hsingle : (pieces (· == '/') name.toList).map String.ofList = [name] := by
    rw [pieces_eq_singleton hname]
    simp
  rcases hbelow with rfl | ⟨r, rfl⟩
  · refine ⟨[], piecesBelow?_eq_some_iff.2 (Or.inr ⟨_, hjoin, ?_⟩)⟩
    rw [hsingle, List.nil_append]
  · rw [List.append_assoc, List.cons_append] at hjoin
    refine ⟨(pieces (· == '/') r).map String.ofList,
      piecesBelow?_eq_some_iff.2 (Or.inr ⟨_, hjoin, ?_⟩)⟩
    rw [pieces_append_of_cut _ _ rfl, List.map_append, hsingle]

/-! ## Paths of a walk -/

theorem not_void_of_extension {name extension : String} (h : extensionOf name = some extension) :
    ¬Void name := by
  rintro (rfl | rfl) <;> cases h

theorem not_mem_of_mem_names (hd : d.Proper) {location : List String} {name : String}
    (h : name ∈ d.names location) : '/' ∉ name.toList := by
  obtain ⟨e, he, hlast⟩ := List.mem_filterMap.1 h
  split at hlast
  · exact hd.names e he name (List.mem_of_getLast? hlast)
  · cases hlast

theorem child?_name {links : Bool} {ancestors : List (List String)} {location : List String}
    {name : String} {c : Child} (h : d.child? links ancestors location name = some c) :
    c.name = name := by
  unfold child? at h
  split at h
  · cases h
  · cases h
    rfl
  · cases h
    rfl
  · split at h
    · cases h
    · split at h
      · cases h
      · split at h
        · cases h
          rfl
        · split at h
          · cases h
          · cases h
            rfl
        · cases h

theorem not_mem_of_mem_children (hd : d.Proper) {links : Bool} {ancestors : List (List String)}
    {location : List String} {c : Child} (h : c ∈ d.children links ancestors location) :
    '/' ∉ c.name.toList := by
  obtain ⟨name, hname, hc⟩ := List.mem_filterMap.1 h
  rw [child?_name hc]
  exact not_mem_of_mem_names hd hname

/-- A walk that starts below the top finds only paths that end in the name of a file. -/
theorem namesFile_of_mem_files (w : Walk) (hd : w.disk.Proper) (ancestors : List (List String))
    (levels : List Level) (location names : List String) (path : Path) {ps : List String}
    (hps : w.disk.piecesBelow? path = some ps) :
    ∀ p ∈ w.files ancestors levels location names path, w.disk.NamesFile p := by
  fun_induction Walk.files w ancestors levels location names path generalizing ps with
  | case1 ancestors levels location names path inside =>
    rename_i ih
    intro p hp
    obtain ⟨c, -, hp⟩ := List.mem_flatMap.1 hp
    have hname := not_mem_of_mem_children hd c.2
    obtain ⟨front, hfront⟩ := piecesBelow?_join hd hps hname
    dsimp only at hp
    split at hp
    · cases hp
    · split at hp
      · rename_i hdirectory
        exact ih c hdirectory hfront p hp
      · split at hp
        · rename_i hextension
          rw [List.mem_singleton.1 hp]
          exact ⟨front, c.1.name, hfront, not_void_of_extension (beq_iff_eq.1 hextension)⟩
        · cases hp

theorem namesFile_of_mem_filesBelow (hd : d.Proper) {links : Bool} {extra : List Ignore.Rule}
    {path : Path} (h : p ∈ d.filesBelow links extra path) : d.NamesFile p := by
  rw [filesBelow] at h
  split at h
  · cases h
  · rename_i location hlocate
    rw [locate] at hlocate
    split at hlocate
    · cases hlocate
    · rename_i ps hps
      split at h
      · exact namesFile_of_mem_files _ hd _ _ _ _ _ hps p h
      · cases h

/-! ## Discovered paths -/

/-- The source files that the walks below some roots find, in the order of the roots. -/
def discovered (d : Disk) (roots patterns : List String) (links : Bool) : List Path :=
  roots.flatMap fun r => d.filesBelow links (extraRules patterns) (d.top.join r)

theorem sourceFiles_eq (d : Disk) (roots patterns : List String) (links : Bool) :
    d.sourceFiles roots patterns links = inOrder (d.discovered roots patterns links) := rfl

theorem namesFile_of_mem_discovered (hd : d.Proper) {roots patterns : List String} {links : Bool}
    (h : p ∈ d.discovered roots patterns links) : d.NamesFile p := by
  obtain ⟨r, -, hr⟩ := List.mem_flatMap.1 h
  exact namesFile_of_mem_filesBelow hd hr

end ModelSurvey.Disk
