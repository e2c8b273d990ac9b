import ModelSurvey.NameMap
import ModelSurvey.Syntax.Node

/-! Tables of declarations: for each namespace the calls made in its body, in source order. The
order matters, because later declarations override earlier ones and an `include` marks the place
where others go. A namespace that was emptied keeps its entry. -/
namespace ModelSurvey
set_option autoImplicit false

/-- A call in the body of a class or module. -/
abbrev Declaration := Syntax.Call

structure Table where
  buckets : NameMap (List Declaration)

namespace Table

def empty : Table := ⟨∅⟩

instance : EmptyCollection Table := ⟨empty⟩

instance : Inhabited Table := ⟨empty⟩

def get? (t : Table) (space : String) : Option (List Declaration) := t.buckets.get? space

/-- The declarations of a namespace, none if it has no entry. -/
def bucket (t : Table) (space : String) : List Declaration := (t.get? space).getD []

def push (t : Table) (space : String) (d : Declaration) : Table :=
  ⟨t.buckets.insert space (t.bucket space ++ [d])⟩

def modify (t : Table) (space : String) (f : List Declaration → List Declaration) : Table :=
  ⟨t.buckets.modify space f⟩

def map (f : Declaration → Declaration) (t : Table) : Table := ⟨t.buckets.map fun b => b.map f⟩

/-- The declarations of a namespace that call `name`, in order. -/
def named (t : Table) (space name : String) : List Declaration :=
  (t.bucket space).filter fun d => d.name == name

def namespaces (t : Table) : List String := t.buckets.keys

def size (t : Table) : Nat := t.buckets.size

def isEmpty (t : Table) : Bool := t.buckets.isEmpty

def toList (t : Table) : List (String × List Declaration) := t.buckets.toList

def ofPairs (l : List (String × Declaration)) : Table := l.foldl (fun t p => t.push p.1 p.2) ∅

@[simp] theorem bucket_empty (space : String) : (∅ : Table).bucket space = [] := rfl

@[simp] theorem bucket_push_self (t : Table) (space : String) (d : Declaration) :
    (t.push space d).bucket space = t.bucket space ++ [d] := by
  simp [bucket, push, get?]

theorem bucket_push_of_ne (t : Table) {space other : String} (d : Declaration)
    (h : other ≠ space) : (t.push space d).bucket other = t.bucket other := by
  simp [bucket, push, get?, NameMap.get?_insert_of_ne _ _ h]

theorem get?_modify_self (t : Table) (space : String) (f : List Declaration → List Declaration) :
    (t.modify space f).get? space = (t.get? space).map f := NameMap.get?_modify_self ..

theorem get?_modify_of_ne (t : Table) {space other : String}
    (f : List Declaration → List Declaration) (h : other ≠ space) :
    (t.modify space f).get? other = t.get? other := NameMap.get?_modify_of_ne _ f h

@[simp] theorem namespaces_modify (t : Table) (space : String)
    (f : List Declaration → List Declaration) : (t.modify space f).namespaces = t.namespaces :=
  NameMap.keys_modify ..

theorem ext_get? {t u : Table} (h : ∀ space, t.get? space = u.get? space) : t = u :=
  congrArg Table.mk (NameMap.ext_get? h)

theorem mem_namespaces_iff {t : Table} {space : String} :
    space ∈ t.namespaces ↔ ∃ b, t.get? space = some b := NameMap.mem_keys_iff

theorem nodup_namespaces (t : Table) : t.namespaces.Nodup := by
  refine List.Pairwise.imp ?_ (NameMap.keys_pairwise t.buckets)
  intro a b h e
  exact String.lt_irrefl b (e ▸ h)

theorem bucket_foldl_push (t : Table) (l : List (String × Declaration)) (space : String) :
    (l.foldl (fun t p => t.push p.1 p.2) t).bucket space =
      t.bucket space ++ (l.filter fun p => p.1 == space).map Prod.snd := by
  induction l generalizing t with
  | nil => simp
  | cons p r ih =>
    rw [List.foldl_cons, ih]
    by_cases h : p.1 = space
    · subst h
      simp
    · rw [bucket_push_of_ne t p.2 (Ne.symm h), List.filter_cons_of_neg (by simpa using h)]

/-- A bucket holds the declarations of its namespace in the order of the list. -/
theorem bucket_ofPairs (l : List (String × Declaration)) (space : String) :
    (ofPairs l).bucket space = (l.filter fun p => p.1 == space).map Prod.snd := by
  rw [ofPairs, bucket_foldl_push, bucket_empty, List.nil_append]

theorem get?_foldl_push (t : Table) (l : List (String × Declaration)) (space : String) :
    (l.foldl (fun t p => t.push p.1 p.2) t).get? space =
      if (l.filter fun p => p.1 == space) = [] then t.get? space
      else some (t.bucket space ++ (l.filter fun p => p.1 == space).map Prod.snd) := by
  induction l generalizing t with
  | nil => simp
  | cons p r ih =>
    rw [List.foldl_cons, ih]
    by_cases h : p.1 = space
    · subst h
      have hself : (t.push p.1 p.2).get? p.1 = some (t.bucket p.1 ++ [p.2]) := by
        simp [push, get?]
      rw [hself, bucket_push_self, List.filter_cons_of_pos (by simp), if_neg (List.cons_ne_nil _ _)]
      by_cases hr : (r.filter fun q => q.1 == p.1) = []
      · rw [if_pos hr, hr]
        rfl
      · rw [if_neg hr, List.append_assoc]
        rfl
    · have hother : (t.push p.1 p.2).get? space = t.get? space := by
        simp [push, get?, NameMap.get?_insert_of_ne _ _ (Ne.symm h)]
      rw [hother, bucket_push_of_ne t p.2 (Ne.symm h),
        List.filter_cons_of_neg (by simpa using h)]

/-- A namespace has an entry only if some declaration of the list belongs to it. -/
theorem get?_ofPairs (l : List (String × Declaration)) (space : String) :
    (ofPairs l).get? space =
      if (l.filter fun p => p.1 == space) = [] then none
      else some ((l.filter fun p => p.1 == space).map Prod.snd) := by
  rw [ofPairs, get?_foldl_push, bucket_empty, List.nil_append]
  rfl

end Table

end ModelSurvey
