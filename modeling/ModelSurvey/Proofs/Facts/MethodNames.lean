import Mathlib
import ModelSurvey.Facts.Enum

/-! Method names of enums. A name is made of up to three components with underscores between them,
and then every run of characters that no identifier may hold becomes one underscore. That can as
well be done to each component alone: the underscore between two components ends a run on either
side of it. -/
namespace ModelSurvey.EnumFact
set_option autoImplicit false

/-! ## Runs of foreign characters -/

/-- A character that an identifier may hold: an ASCII letter or digit, or the underscore. -/
def IsWordChar (c : Char) : Prop :=
  ('A' ≤ c ∧ c ≤ 'Z' ∨ 'a' ≤ c ∧ c ≤ 'z') ∨ '0' ≤ c ∧ c ≤ '9' ∨ c = '_'

def Foreign (c : Char) : Prop := c.toNat < 128 ∧ ¬IsWordChar c

/-- A text, and the text with one underscore in place of each maximal run of foreign characters. -/
inductive Collapsed : List Char → List Char → Prop where
  | nil : Collapsed [] []
  | keep {c : Char} {cs ds : List Char} (hc : ¬Foreign c) (h : Collapsed cs ds) :
    Collapsed (c :: cs) (c :: ds)
  | run {run cs ds : List Char} (hne : run ≠ []) (hrun : ∀ c ∈ run, Foreign c)
    (hend : ∀ c ∈ cs.head?, ¬Foreign c) (h : Collapsed cs ds) : Collapsed (run ++ cs) ('_' :: ds)

variable {c : Char} {cs ds : List Char} {inRun : Bool}

theorem isForeign_iff : isForeign c = true ↔ Foreign c := by
  have hword : (c.isAlphanum || c == '_') = true ↔ IsWordChar c := by
    simp only [Char.isAlphanum, Char.isAlpha, Char.isUpper, Char.isLower, Char.isDigit,
      Bool.or_eq_true, Bool.and_eq_true, decide_eq_true_eq, beq_iff_eq, or_assoc, ge_iff_le,
      IsWordChar, Char.le_def]
  rw [isForeign, Bool.and_eq_true, decide_eq_true_eq, Bool.not_eq_true', ← Bool.not_eq_true, hword,
    Foreign]

theorem isForeign_eq_false_iff : isForeign c = false ↔ ¬Foreign c := by
  rw [← isForeign_iff, Bool.not_eq_true]

theorem not_foreign_underscore : ¬Foreign '_' := isForeign_eq_false_iff.1 rfl

theorem sanitizeFrom_cons_of_foreign (hc : Foreign c) (cs : List Char) :
    sanitizeFrom false (c :: cs) = '_' :: sanitizeFrom true cs := by
  rw [sanitizeFrom, if_pos (isForeign_iff.2 hc), if_neg Bool.false_ne_true]

theorem sanitizeFrom_true_cons_of_foreign (hc : Foreign c) (cs : List Char) :
    sanitizeFrom true (c :: cs) = sanitizeFrom true cs := by
  rw [sanitizeFrom, if_pos (isForeign_iff.2 hc), if_pos rfl]

theorem sanitizeFrom_cons_of_not (hc : ¬Foreign c) (inRun : Bool) (cs : List Char) :
    sanitizeFrom inRun (c :: cs) = c :: sanitizeFrom false cs := by
  rw [sanitizeFrom, if_neg (mt isForeign_iff.1 hc)]

theorem sanitizeFrom_true_append {run : List Char} (hrun : ∀ c ∈ run, Foreign c)
    (hend : ∀ c ∈ cs.head?, ¬Foreign c) :
    sanitizeFrom true (run ++ cs) = sanitizeFrom false cs := by
  induction run with
  | nil =>
    cases cs with
    | nil => rfl
    | cons c cs =>
      have hc := hend c rfl
      rw [List.nil_append, sanitizeFrom_cons_of_not hc, sanitizeFrom_cons_of_not hc]
  | cons r run ih =>
    obtain ⟨hr, hrun⟩ := List.forall_mem_cons.1 hrun
    rw [List.cons_append, sanitizeFrom_true_cons_of_foreign hr, ih hrun]

theorem Collapsed.eq_sanitizeFrom (h : Collapsed cs ds) : ds = sanitizeFrom false cs := by
  induction h with
  | nil => rfl
  | keep hc _ ih => rw [sanitizeFrom_cons_of_not hc, ← ih]
  | @run run cs ds hne hrun hend _ ih =>
    obtain ⟨r, run, rfl⟩ := List.exists_cons_of_ne_nil hne
    obtain ⟨hr, hrun⟩ := List.forall_mem_cons.1 hrun
    rw [List.cons_append, sanitizeFrom_cons_of_foreign hr, sanitizeFrom_true_append hrun hend, ← ih]

/-- A run goes on to the left. -/
theorem Collapsed.cons_foreign {d : Char} (hc : Foreign c) (hd : Foreign d)
    (h : Collapsed (d :: cs) ds) : Collapsed (c :: d :: cs) ds := by
  generalize he : d :: cs = text at h
  cases h with
  | nil => cases he
  | keep hkept _ =>
    cases he
    exact absurd hd hkept
  | run hne hrun hend h =>
    exact .run (List.cons_ne_nil c _) (List.forall_mem_cons.2 ⟨hc, hrun⟩) hend h

/-- The second part is the first one for a text with a run in front that is already open. -/
theorem collapsed_sanitizeFrom (cs : List Char) :
    Collapsed cs (sanitizeFrom false cs) ∧
      ∀ c, Foreign c → Collapsed (c :: cs) ('_' :: sanitizeFrom true cs) := by
  have alone {c : Char} (hc : Foreign c) : ∀ a ∈ [c], Foreign a :=
    fun a ha => List.mem_singleton.1 ha ▸ hc
  induction cs with
  | nil =>
    refine ⟨.nil, fun c hc => ?_⟩
    exact .run (List.cons_ne_nil c []) (alone hc) (fun a ha => by cases ha) .nil
  | cons d cs ih =>
    by_cases hd : Foreign d
    · rw [sanitizeFrom_cons_of_foreign hd, sanitizeFrom_true_cons_of_foreign hd]
      exact ⟨ih.2 d hd, fun c hc => .cons_foreign hc hd (ih.2 d hd)⟩
    · rw [sanitizeFrom_cons_of_not hd, sanitizeFrom_cons_of_not hd]
      have hkeep : Collapsed (d :: cs) (d :: sanitizeFrom false cs) := .keep hd ih.1
      refine ⟨hkeep, fun c hc => ?_⟩
      exact .run (List.cons_ne_nil c []) (alone hc) (fun a ha => by cases ha; exact hd) hkeep

theorem collapsed_iff {x t : String} : Collapsed x.toList t.toList ↔ t = sanitize x := by
  rw [sanitize, ← String.toList_inj, String.toList_ofList]
  exact ⟨Collapsed.eq_sanitizeFrom, fun h => h ▸ (collapsed_sanitizeFrom x.toList).1⟩

/-! ## Clean texts -/

theorem not_foreign_of_mem_sanitizeFrom (hc : c ∈ sanitizeFrom inRun cs) : ¬Foreign c := by
  induction cs generalizing inRun with
  | nil => cases hc
  | cons d cs ih =>
    by_cases hd : Foreign d
    · cases inRun with
      | true =>
        rw [sanitizeFrom_true_cons_of_foreign hd] at hc
        exact ih hc
      | false =>
        rw [sanitizeFrom_cons_of_foreign hd] at hc
        rcases List.mem_cons.1 hc with rfl | hc
        · exact not_foreign_underscore
        · exact ih hc
    · rw [sanitizeFrom_cons_of_not hd] at hc
      rcases List.mem_cons.1 hc with rfl | hc
      · exact hd
      · exact ih hc

theorem sanitizeFrom_of_clean (h : ∀ c ∈ cs, ¬Foreign c) (inRun : Bool) :
    sanitizeFrom inRun cs = cs := by
  induction cs generalizing inRun with
  | nil => rfl
  | cons c cs ih =>
    obtain ⟨hc, hcs⟩ := List.forall_mem_cons.1 h
    rw [sanitizeFrom_cons_of_not hc, ih hcs]

theorem not_foreign_of_mem_sanitize {x : String} (hc : c ∈ (sanitize x).toList) : ¬Foreign c := by
  rw [sanitize, String.toList_ofList] at hc
  exact not_foreign_of_mem_sanitizeFrom hc

theorem sanitize_eq_self_iff {x : String} : sanitize x = x ↔ ∀ c ∈ x.toList, ¬Foreign c := by
  constructor
  · intro h c hc
    rw [← h] at hc
    exact not_foreign_of_mem_sanitize hc
  · intro h
    rw [sanitize, sanitizeFrom_of_clean h, String.ofList_toList]

theorem sanitize_idem (x : String) : sanitize (sanitize x) = sanitize x :=
  sanitize_eq_self_iff.2 fun _ => not_foreign_of_mem_sanitize

theorem filter_sanitizeFrom (inRun : Bool) (cs : List Char) :
    (sanitizeFrom inRun cs).filter (128 ≤ ·.toNat) = cs.filter (128 ≤ ·.toNat) := by
  induction cs generalizing inRun with
  | nil => rfl
  | cons c cs ih =>
    by_cases hc : Foreign c
    · have hascii : ¬128 ≤ c.toNat := Nat.not_le.2 hc.1
      rw [List.filter_cons_of_neg (by simpa using hascii)]
      cases inRun with
      | true => rw [sanitizeFrom_true_cons_of_foreign hc, ih]
      | false => rw [sanitizeFrom_cons_of_foreign hc, List.filter_cons_of_neg (by decide), ih]
    · rw [sanitizeFrom_cons_of_not hc, List.filter_cons, List.filter_cons, ih]

/-! ## Components -/

/-- An underscore ends the run before it, and none is open behind it. -/
theorem sanitizeFrom_append_underscore (inRun : Bool) (l r : List Char) :
    sanitizeFrom inRun (l ++ '_' :: r) = sanitizeFrom inRun l ++ '_' :: sanitizeFrom false r := by
  induction l generalizing inRun with
  | nil => exact sanitizeFrom_cons_of_not not_foreign_underscore inRun r
  | cons c l ih =>
    rw [List.cons_append]
    by_cases hc : Foreign c
    · cases inRun with
      | true => rw [sanitizeFrom_true_cons_of_foreign hc, sanitizeFrom_true_cons_of_foreign hc, ih]
      | false =>
        rw [sanitizeFrom_cons_of_foreign hc, sanitizeFrom_cons_of_foreign hc, ih, List.cons_append]
    · rw [sanitizeFrom_cons_of_not hc, sanitizeFrom_cons_of_not hc, ih, List.cons_append]

theorem sanitize_append_underscore (a b : String) :
    sanitize (a ++ "_" ++ b) = sanitize a ++ "_" ++ sanitize b := by
  have htext : (a ++ "_" ++ b).toList = a.toList ++ '_' :: b.toList := by
    rw [String.toList_append, String.toList_append, List.append_assoc]
    rfl
  rw [sanitize, htext, sanitizeFrom_append_underscore, ← String.toList_inj]
  simp [sanitize]

theorem sanitize_intercalate (components : List String) :
    sanitize ("_".intercalate components) = "_".intercalate (components.map sanitize) := by
  match components with
  | [] => rfl
  | [a] => simp
  | a :: b :: r =>
    rw [String.intercalate_cons_cons, List.map_cons, List.map_cons, String.intercalate_cons_cons,
      ← List.map_cons, ← sanitize_intercalate (b :: r), sanitize_append_underscore]

theorem filter_intercalate (components : List String) :
    ("_".intercalate components).toList.filter (128 ≤ ·.toNat) =
      components.flatMap fun a => a.toList.filter (128 ≤ ·.toNat) := by
  match components with
  | [] => rfl
  | [a] => simp
  | a :: b :: r =>
    rw [String.intercalate_cons_cons, String.toList_append, String.toList_append, List.filter_append,
      List.filter_append, filter_intercalate (b :: r), List.flatMap_cons, List.append_assoc]
    rfl

/-- The text that an option asks to put at an end of the names of methods: the name of the enum
itself, or the option's own text. -/
inductive Affixed (e : EnumFact) (key : String) : String → Prop where
  | own (h : e.options.get? key = some (.bool true)) : Affixed e key e.name
  | string {text : String} (h : e.options.get? key = some (.string text)) : Affixed e key text
  | symbol {text : String} (h : e.options.get? key = some (.symbol text)) : Affixed e key text

theorem affix?_eq_some_iff {e : EnumFact} {key text : String} :
    e.affix? key = some text ↔ Affixed e key text := by
  constructor
  · intro h
    rw [affix?] at h
    split at h
    · rename_i hoption
      cases h
      exact .own hoption
    · rename_i v hne hoption
      cases v with
      | string s =>
        cases h
        exact .string hoption
      | symbol s =>
        cases h
        exact .symbol hoption
      | _ => cases h
    · cases h
  · intro h
    cases h with
    | own h => rw [affix?, h]
    | string h | symbol h =>
      rw [affix?, h]
      rfl

/-- The components of the name of a value's methods: the prefix, the value as plain text and the
suffix, as far as they are there. -/
def components (e : EnumFact) (v : Value) : List String :=
  (e.affix? "prefix").toList ++ [v.plain] ++ (e.affix? "suffix").toList

/-- The name of a value's methods is its components, each with its runs of foreign characters
collapsed, with underscores between them. No foreign character is left in it, and no character
beyond ASCII is lost. A collapsed text is not changed again, and neither is any other text without
foreign characters. -/
theorem method_names_collapse_by_component :
    (∀ x t : String, Collapsed x.toList t.toList ↔ t = sanitize x) ∧
    (∀ x : String, sanitize (sanitize x) = sanitize x ∧
      (sanitize x = x ↔ ∀ c ∈ x.toList, ¬Foreign c)) ∧
    ∀ e : EnumFact,
      (∀ key text, e.affix? key = some text ↔ Affixed e key text) ∧
      ∀ v : Value,
        e.methodName v = "_".intercalate ((e.components v).map sanitize) ∧
        (∀ c ∈ (e.methodName v).toList, ¬Foreign c) ∧
        (e.methodName v).toList.filter (128 ≤ ·.toNat) =
          (e.components v).flatMap fun a => a.toList.filter (128 ≤ ·.toNat) := by
  refine ⟨fun x t => collapsed_iff, fun x => ⟨sanitize_idem x, sanitize_eq_self_iff⟩, fun e => ?_⟩
  refine ⟨fun key text => affix?_eq_some_iff, fun v => ?_⟩
  have hname : e.methodName v = sanitize ("_".intercalate (e.components v)) := rfl
  refine ⟨by rw [hname, sanitize_intercalate], fun c hc => ?_, ?_⟩
  · rw [hname] at hc
    exact not_foreign_of_mem_sanitize hc
  · rw [hname, sanitize, String.toList_ofList, filter_sanitizeFrom, filter_intercalate]

/-- Both affixes are there, one as `true`, and every component has foreign characters at its ends. -/
def stateEnum : EnumFact where
  name := "«état»?!"
  values := [.array [.string "a-é", .nil]]
  options := .hash [(.symbol "prefix", .bool true), (.string "suffix", .symbol " -x- ")]
  line := 1

theorem method_names_collapse_by_component_state :
    let v := Value.array [.string "a-é", .nil]
    'é' ∈ (stateEnum.methodName v).toList ∧ ¬Foreign 'é' ∧
    stateEnum.methodName v = "«état»_" ++ "_" ++ "_a_é_nil_" ++ "_" ++ "_x_" := by
  intro v
  obtain ⟨hjoin, hclean, -⟩ := (method_names_collapse_by_component.2.2 stateEnum).2 v
  have hmem : 'é' ∈ (stateEnum.methodName v).toList := by decide +kernel
  refine ⟨hmem, hclean _ hmem, ?_⟩
  rw [hjoin]
  decide +kernel

end ModelSurvey.EnumFact
