import Mathlib.Data.List.Induction
import Mathlib.Data.List.Nodup
import ModelSurvey.Proofs.Declaration.Occurrence

/-! Hashes as maps in order of insertion. Insertions into an empty hash leave each key once, at the
place of its first insertion and with its last value, and nothing else has this property. A hash
literal evaluates to what the pairs with an evaluable key insert, and every hash that lies anywhere
in a value stems from such a literal. -/
namespace ModelSurvey
set_option autoImplicit false
open Syntax

namespace Value

/-! ## Insertions -/

def keys (pairs : List (Value × Value)) : List Value := pairs.map Prod.fst

/-- What some insertions, in order, make of an empty hash. -/
def insertAll (inserted : List (Value × Value)) : List (Value × Value) :=
  inserted.foldl (fun pairs p => insert p.1 p.2 pairs) []

/-- `v` is the value last inserted under `k`. -/
def LastUnder (inserted : List (Value × Value)) (k v : Value) : Prop :=
  ∃ before after, inserted = before ++ (k, v) :: after ∧ k ∉ keys after

/-- The pairs are those of an insertion-ordered map after these insertions. -/
structure Ordered (inserted pairs : List (Value × Value)) : Prop where
  distinct : (keys pairs).Nodup
  order : (keys pairs).Pairwise fun k l => (keys inserted).idxOf k < (keys inserted).idxOf l
  values : ∀ k v, (k, v) ∈ pairs ↔ LastUnder inserted k v

theorem keys_append (l m : List (Value × Value)) : keys (l ++ m) = keys l ++ keys m :=
  List.map_append

theorem mem_keys_iff {k : Value} {pairs : List (Value × Value)} :
    k ∈ keys pairs ↔ ∃ v, (k, v) ∈ pairs := by
  simp [keys]

theorem insertAll_append_singleton (inserted : List (Value × Value)) (k v : Value) :
    insertAll (inserted ++ [(k, v)]) = insert k v (insertAll inserted) := by
  rw [insertAll, List.foldl_append]
  rfl

/-! ## One insertion -/

variable {k v : Value} {pairs inserted : List (Value × Value)}

theorem keys_insert_of_mem (h : k ∈ keys pairs) : keys (insert k v pairs) = keys pairs := by
  induction pairs with
  | nil => cases h
  | cons p r ih =>
    obtain ⟨l, w⟩ := p
    rw [insert]
    split
    · rfl
    · rename_i hne
      have hr : k ∈ keys r := (List.mem_cons.1 h).resolve_left (Ne.symm hne)
      exact congrArg (l :: ·) (ih hr)

theorem insert_of_not_mem (h : k ∉ keys pairs) : insert k v pairs = pairs ++ [(k, v)] := by
  induction pairs with
  | nil => rfl
  | cons p r ih =>
    obtain ⟨l, w⟩ := p
    obtain ⟨hne, hr⟩ := not_or.1 (mt List.mem_cons.2 h)
    rw [insert, if_neg (Ne.symm hne), ih hr, List.cons_append]

theorem keys_insert_of_not_mem (h : k ∉ keys pairs) :
    keys (insert k v pairs) = keys pairs ++ [k] := by
  rw [insert_of_not_mem h, keys_append]
  rfl

theorem mem_insert_of_ne {l w : Value} (hne : l ≠ k) :
    (l, w) ∈ insert k v pairs ↔ (l, w) ∈ pairs := by
  induction pairs with
  | nil => simp [insert, hne]
  | cons p r ih =>
    obtain ⟨l', w'⟩ := p
    rw [insert]
    split
    · rename_i he
      subst he
      simp [hne]
    · rw [List.mem_cons, List.mem_cons, ih]

theorem mem_insert_self {w : Value} (hdistinct : (keys pairs).Nodup) :
    (k, w) ∈ insert k v pairs ↔ w = v := by
  induction pairs with
  | nil => simp [insert]
  | cons p r ih =>
    obtain ⟨l, w'⟩ := p
    obtain ⟨hl, hr⟩ := List.nodup_cons.1 hdistinct
    rw [insert]
    split
    · rename_i he
      subst he
      have hnone : (l, w) ∉ r := fun hw => hl (mem_keys_iff.2 ⟨w, hw⟩)
      simp [hnone]
    · rename_i hne
      rw [List.mem_cons, ih hr]
      simp [Ne.symm hne]

/-! ## Last values -/

theorem lastUnder_append_self {w : Value} : LastUnder (inserted ++ [(k, v)]) k w ↔ w = v := by
  constructor
  · rintro ⟨before, after, heq, hlast⟩
    rcases List.eq_nil_or_concat after with rfl | ⟨rest, p, rfl⟩
    · exact (Prod.mk.inj (List.singleton_inj.1 (List.append_inj_right' heq rfl))).2.symm
    · rw [List.concat_eq_append, ← List.cons_append, ← List.append_assoc] at heq
      have hp : [(k, v)] = [p] := List.append_inj_right' heq rfl
      rw [← List.singleton_inj.1 hp, List.concat_eq_append, keys_append] at hlast
      exact absurd (List.mem_append_right _ (List.mem_singleton_self k)) hlast
  · rintro rfl
    exact ⟨inserted, [], rfl, List.not_mem_nil⟩

theorem lastUnder_append_of_ne {l w : Value} (hne : l ≠ k) :
    LastUnder (inserted ++ [(k, v)]) l w ↔ LastUnder inserted l w := by
  constructor
  · rintro ⟨before, after, heq, hlast⟩
    rcases List.eq_nil_or_concat after with rfl | ⟨rest, p, rfl⟩
    · have hp := List.singleton_inj.1 (List.append_inj_right' heq rfl)
      exact absurd (Prod.mk.inj hp).1 (Ne.symm hne)
    · rw [List.concat_eq_append, ← List.cons_append, ← List.append_assoc] at heq
      rw [List.concat_eq_append, keys_append] at hlast
      exact ⟨before, rest, List.append_inj_left' heq rfl,
        fun hrest => hlast (List.mem_append_left _ hrest)⟩
  · rintro ⟨before, after, rfl, hlast⟩
    refine ⟨before, after ++ [(k, v)], by rw [List.append_assoc, List.cons_append], ?_⟩
    rw [keys_append, List.mem_append, not_or]
    exact ⟨hlast, fun hk => hne (List.mem_singleton.1 hk)⟩

theorem exists_lastUnder_iff : (∃ v, LastUnder inserted k v) ↔ k ∈ keys inserted := by
  induction inserted using List.reverseRecOn with
  | nil => simp [LastUnder, keys]
  | append_singleton inserted p ih =>
    obtain ⟨l, w⟩ := p
    rw [keys_append, List.mem_append, ← ih]
    by_cases he : k = l
    · subst he
      simp [lastUnder_append_self, keys]
    · simp [lastUnder_append_of_ne he, keys, he]

theorem mem_of_lastUnder (h : LastUnder inserted k v) : (k, v) ∈ inserted := by
  obtain ⟨before, after, rfl, -⟩ := h
  exact List.mem_append_right _ (List.mem_cons_self ..)

/-! ## Insertion order -/

namespace Ordered

theorem mem_keys_iff (h : Ordered inserted pairs) : k ∈ keys pairs ↔ k ∈ keys inserted := by
  rw [Value.mem_keys_iff, ← exists_lastUnder_iff]
  exact exists_congr fun v => h.values k v

/-- A later insertion does not move the first one of an older key. -/
theorem order_append (h : Ordered inserted pairs) (p : Value × Value) :
    (keys pairs).Pairwise fun k l =>
      (keys (inserted ++ [p])).idxOf k < (keys (inserted ++ [p])).idxOf l := by
  refine h.order.imp_of_mem fun hk hl hlt => ?_
  rw [keys_append, List.idxOf_append_of_mem (h.mem_keys_iff.1 hk),
    List.idxOf_append_of_mem (h.mem_keys_iff.1 hl)]
  exact hlt

theorem insert (h : Ordered inserted pairs) (k v : Value) :
    Ordered (inserted ++ [(k, v)]) (Value.insert k v pairs) := by
  have hvalues : ∀ l w, (l, w) ∈ Value.insert k v pairs ↔ LastUnder (inserted ++ [(k, v)]) l w := by
    intro l w
    by_cases he : l = k
    · subst he
      rw [mem_insert_self h.distinct, lastUnder_append_self]
    · rw [mem_insert_of_ne he, lastUnder_append_of_ne he, h.values]
  have horder := h.order_append (k, v)
  by_cases hk : k ∈ keys pairs
  · rw [← keys_insert_of_mem (v := v) hk] at horder
    refine ⟨?_, horder, hvalues⟩
    rw [keys_insert_of_mem hk]
    exact h.distinct
  · have hnew : k ∉ keys inserted := mt h.mem_keys_iff.2 hk
    refine ⟨?_, ?_, hvalues⟩
    · rw [keys_insert_of_not_mem hk, List.nodup_append]
      refine ⟨h.distinct, List.nodup_singleton k, ?_⟩
      rintro l hl m hm rfl
      exact hk (List.mem_singleton.1 hm ▸ hl)
    · rw [keys_insert_of_not_mem hk, List.pairwise_append]
      refine ⟨horder, List.pairwise_singleton _ k, fun l hl m hm => ?_⟩
      obtain rfl := List.mem_singleton.1 hm
      have hold := h.mem_keys_iff.1 hl
      have hlt := List.idxOf_lt_length_iff.2 hold
      rw [keys_append, List.idxOf_append_of_mem hold, List.idxOf_append_of_notMem hnew]
      omega

theorem order_pairs (h : Ordered inserted pairs) :
    pairs.Pairwise fun p q => (keys inserted).idxOf p.1 < (keys inserted).idxOf q.1 :=
  List.Pairwise.of_map Prod.fst (fun _ _ hlt => hlt) h.order

theorem unique {pairs' : List (Value × Value)} (h : Ordered inserted pairs)
    (h' : Ordered inserted pairs') : pairs = pairs' := by
  have hperm : List.Perm pairs pairs' := by
    refine (List.perm_ext_iff_of_nodup (List.Nodup.of_map Prod.fst h.distinct)
      (List.Nodup.of_map Prod.fst h'.distinct)).2 fun p => ?_
    rw [h.values p.1 p.2, h'.values p.1 p.2]
  refine hperm.eq_of_pairwise (fun p q _ _ hpq hqp => ?_) h.order_pairs h'.order_pairs
  exact absurd hpq (Nat.lt_asymm hqp)

end Ordered

theorem ordered_insertAll (inserted : List (Value × Value)) :
    Ordered inserted (insertAll inserted) := by
  induction inserted using List.reverseRecOn with
  | nil =>
    refine ⟨List.nodup_nil, List.Pairwise.nil, fun k v => ?_⟩
    simp [insertAll, LastUnder]
  | append_singleton inserted p ih =>
    rw [insertAll_append_singleton]
    exact ih.insert p.1 p.2

theorem eq_insertAll_iff : pairs = insertAll inserted ↔ Ordered inserted pairs := by
  constructor
  · rintro rfl
    exact ordered_insertAll inserted
  · intro h
    exact h.unique (ordered_insertAll inserted)

/-! ## Look-up by name -/

/-- Whether a key is a string or a symbol with this text. -/
def Spells (k : Value) (text : String) : Prop := k = .string text ∨ k = .symbol text

theorem name?_eq_some_iff {text : String} : k.name? = some text ↔ k.Spells text := by
  cases k <;> simp [name?, Spells]

theorem get?_hash_eq_some_iff {text : String} :
    (hash pairs).get? text = some v ↔
      ∃ before k after, pairs = before ++ (k, v) :: after ∧ k.Spells text ∧
        ∀ p ∈ before, ¬p.1.Spells text := by
  have hmiss : ∀ p : Value × Value,
      (if p.1.name? = some text then some p.2 else none) = none ↔ ¬p.1.Spells text := by
    intro p
    rw [← name?_eq_some_iff]
    simp
  rw [get?, hash?, Option.getD_some, List.findSome?_eq_some_iff]
  constructor
  · rintro ⟨before, ⟨k, w⟩, after, hpairs, hhit, hbefore⟩
    rw [Option.ite_none_right_eq_some, Option.some_inj] at hhit
    obtain ⟨hname, rfl⟩ := hhit
    exact ⟨before, k, after, hpairs, name?_eq_some_iff.1 hname,
      fun p hp => (hmiss p).1 (hbefore p hp)⟩
  · rintro ⟨before, k, after, hpairs, hspells, hbefore⟩
    exact ⟨before, (k, v), after, hpairs, if_pos (name?_eq_some_iff.2 hspells),
      fun p hp => (hmiss p).2 (hbefore p hp)⟩

theorem get?_hash_eq_none_iff {text : String} :
    (hash pairs).get? text = none ↔ ∀ p ∈ pairs, ¬p.1.Spells text := by
  rw [get?, hash?, Option.getD_some, List.findSome?_eq_none_iff]
  refine forall₂_congr fun p _ => ?_
  rw [← name?_eq_some_iff]
  simp

/-! ## Values inside values -/

/-- A value and what lies in it: the items of arrays, and the keys and values of hashes. -/
inductive Holds : Value → Value → Prop where
  | self (v : Value) : Holds v v
  | item {items : List Value} {x w : Value} (hx : x ∈ items) (h : Holds x w) :
      Holds (.array items) w
  | key {pairs : List (Value × Value)} {k v w : Value} (hp : (k, v) ∈ pairs) (h : Holds k w) :
      Holds (.hash pairs) w
  | value {pairs : List (Value × Value)} {k v w : Value} (hp : (k, v) ∈ pairs) (h : Holds v w) :
      Holds (.hash pairs) w

end Value

/-! ## Evaluation -/

namespace Syntax

/-- What an element of a hash literal inserts; a splat and a key without a value insert nothing. -/
def HashElement.pair? : HashElement → Option (Value × Value)
  | .assoc key value => key.evaluate.map fun k => (k, value.evaluate.getD .nil)
  | .splat _ => none

/-- The pairs of a hash literal. -/
def hashPairs (elements : List HashElement) : List (Value × Value) :=
  Value.insertAll (elements.filterMap HashElement.pair?)

namespace Node

/-- Whether a node is a hash literal or a keyword hash with these elements. -/
def IsHash (n : Node) (elements : List HashElement) : Prop :=
  n = .hash elements ∨ n = .keywordHash elements

/-- A node and what lies in it. -/
inductive Contains : Node → Node → Prop where
  | self (n : Node) : Contains n n
  | part {n m : Node} {p : Role × Node} (hp : p ∈ n.parts) (h : Contains p.2 m) : Contains n m

theorem evaluateAll_eq (l : List Node) : evaluateAll l = l.map fun n => n.evaluate.getD .nil := by
  induction l with
  | nil => rfl
  | cons n l ih => rw [evaluateAll, ih, List.map_cons]

theorem evaluatePairs_eq (pairs : List (Value × Value)) (elements : List HashElement) :
    evaluatePairs pairs elements =
      (elements.filterMap HashElement.pair?).foldl (fun l p => Value.insert p.1 p.2 l) pairs := by
  induction elements generalizing pairs with
  | nil => rfl
  | cons e r ih =>
    cases e with
    | splat value => rw [evaluatePairs, ih, List.filterMap_cons_none rfl]
    | assoc key value =>
      rw [evaluatePairs]
      cases hkey : key.evaluate with
      | none =>
        have hpair : (HashElement.assoc key value).pair? = none := by
          rw [HashElement.pair?, hkey, Option.map_none]
        rw [List.filterMap_cons_none hpair]
        exact ih pairs
      | some k =>
        have hpair : (HashElement.assoc key value).pair? = some (k, value.evaluate.getD .nil) := by
          rw [HashElement.pair?, hkey, Option.map_some]
        rw [List.filterMap_cons_some hpair, List.foldl_cons]
        exact ih _

theorem evaluate_hash {n : Node} {elements : List HashElement} (h : n.IsHash elements) :
    n.evaluate = some (.hash (hashPairs elements)) := by
  rcases h with rfl | rfl <;> rw [evaluate, evaluatePairs_eq] <;> rfl

/-! ## Hashes inside evaluated nodes -/

variable {pairs : List (Value × Value)}

/-- What has no value stands in for nothing with a hash in it. -/
theorem evaluate_of_holds {n : Node} (h : (n.evaluate.getD .nil).Holds (.hash pairs)) :
    n.evaluate = some (n.evaluate.getD .nil) := by
  cases hn : n.evaluate with
  | none =>
    rw [hn] at h
    cases h
  | some v => rfl

theorem mem_hashPairs {elements : List HashElement} {k v : Value}
    (h : (k, v) ∈ hashPairs elements) :
    ∃ key value, .assoc key value ∈ elements ∧ key.evaluate = some k ∧
      v = value.evaluate.getD .nil := by
  have hlast := ((Value.ordered_insertAll _).values k v).1 h
  obtain ⟨e, he, hpair⟩ := List.mem_filterMap.1 (Value.mem_of_lastUnder hlast)
  cases e with
  | splat value => cases hpair
  | assoc key value =>
    obtain ⟨k', hkey, heq⟩ := Option.map_eq_some_iff.1 hpair
    cases heq
    exact ⟨key, value, he, hkey, rfl⟩

theorem parts_of_isHash {n : Node} {elements : List HashElement} (h : n.IsHash elements) :
    n.parts = Role.contents (elements.flatMap HashElement.nodes) := by
  rcases h with rfl | rfl <;> rfl

theorem mem_parts_of_isHash {n m : Node} {elements : List HashElement} (h : n.IsHash elements)
    {e : HashElement} (he : e ∈ elements) (hm : m ∈ e.nodes) : (.content, m) ∈ n.parts := by
  rw [parts_of_isHash h]
  exact List.mem_map_of_mem (List.mem_flatMap.2 ⟨e, he, hm⟩)

/-- Whether `pairs` are what a hash literal in `n` evaluates to. -/
def StemsFrom (n : Node) (pairs : List (Value × Value)) : Prop :=
  ∃ m elements, n.Contains m ∧ m.IsHash elements ∧ pairs = hashPairs elements

theorem StemsFrom.of_part {n : Node} {p : Role × Node} (hp : p ∈ n.parts)
    (h : p.2.StemsFrom pairs) : n.StemsFrom pairs := by
  obtain ⟨m, elements, hm, hhash, heq⟩ := h
  exact ⟨m, elements, .part hp hm, hhash, heq⟩

theorem stemsFrom_of_isHash {n : Node} {elements : List HashElement} (h : n.IsHash elements)
    (ih : ∀ p ∈ n.parts, ∀ v, p.2.evaluate = some v → v.Holds (.hash pairs) → p.2.StemsFrom pairs)
    (hholds : (Value.hash (hashPairs elements)).Holds (.hash pairs)) : n.StemsFrom pairs := by
  cases hholds with
  | self => exact ⟨n, elements, .self n, h, rfl⟩
  | key hp hk =>
    obtain ⟨key, value, he, hkey, -⟩ := mem_hashPairs hp
    have hpart := mem_parts_of_isHash h he (m := key) (by simp [HashElement.nodes])
    exact .of_part hpart (ih _ hpart _ hkey hk)
  | value hp hv =>
    obtain ⟨key, value, he, -, rfl⟩ := mem_hashPairs hp
    have hpart := mem_parts_of_isHash h he (m := value) (by simp [HashElement.nodes])
    exact .of_part hpart (ih _ hpart _ (evaluate_of_holds hv) hv)

theorem stemsFrom_of_evaluate {n : Node} {v : Value} (h : n.evaluate = some v)
    (hholds : v.Holds (.hash pairs)) : n.StemsFrom pairs := by
  induction n using Node.induction generalizing v with
  | h n ih =>
    replace ih : ∀ p ∈ n.parts, ∀ v, p.2.evaluate = some v → v.Holds (.hash pairs) →
        p.2.StemsFrom pairs := fun p hp v hv hh => ih p hp hv hh
    cases n with
    | nil | bool | integer | string | symbol | constant =>
      rw [evaluate] at h
      cases h
      cases hholds
    | constantPath outer name =>
      rw [evaluate] at h
      obtain ⟨path, -, rfl⟩ := Option.map_eq_some_iff.1 h
      cases hholds
    | array elements =>
      rw [evaluate, evaluateAll_eq] at h
      cases h
      cases hholds with
      | item hx hx' =>
        obtain ⟨m, hm, rfl⟩ := List.mem_map.1 hx
        have hpart : (.content, m) ∈ (Node.array elements).parts := List.mem_map_of_mem hm
        exact .of_part hpart (ih _ hpart _ (evaluate_of_holds hx') hx')
    | hash elements =>
      have hhash : (Node.hash elements).IsHash elements := Or.inl rfl
      rw [evaluate_hash hhash] at h
      cases h
      exact stemsFrom_of_isHash hhash ih hholds
    | keywordHash elements =>
      have hhash : (Node.keywordHash elements).IsHash elements := Or.inr rfl
      rw [evaluate_hash hhash] at h
      cases h
      exact stemsFrom_of_isHash hhash ih hholds
    | call | lambda | space | methodDef | other => simp [evaluate] at h

end Node

/-- Hashes are maps in order of insertion, are looked up by name from the front, and are what the
literals insert, at every depth of an evaluated node. -/
theorem evaluated_hashes_are_ordered :
    (∀ inserted pairs, pairs = Value.insertAll inserted ↔ Value.Ordered inserted pairs) ∧
    (∀ pairs text,
      (∀ v, (Value.hash pairs).get? text = some v ↔
        ∃ before k after, pairs = before ++ (k, v) :: after ∧ k.Spells text ∧
          ∀ p ∈ before, ¬p.1.Spells text) ∧
      ((Value.hash pairs).get? text = none ↔ ∀ p ∈ pairs, ¬p.1.Spells text)) ∧
    (∀ (n : Node) elements, n.IsHash elements →
      n.evaluate = some (.hash (Value.insertAll (elements.filterMap HashElement.pair?)))) ∧
    ∀ (n : Node) v, n.evaluate = some v → ∀ pairs, v.Holds (.hash pairs) →
      (Value.keys pairs).Nodup ∧
      ∃ m elements, n.Contains m ∧ m.IsHash elements ∧
        pairs = Value.insertAll (elements.filterMap HashElement.pair?) := by
  refine ⟨fun _ _ => Value.eq_insertAll_iff,
    fun _ _ => ⟨fun _ => Value.get?_hash_eq_some_iff, Value.get?_hash_eq_none_iff⟩,
    fun _ _ => Node.evaluate_hash, fun n v hv pairs hholds => ?_⟩
  obtain ⟨m, elements, hm, hhash, rfl⟩ := Node.stemsFrom_of_evaluate hv hholds
  exact ⟨(Value.ordered_insertAll _).distinct, m, elements, hm, hhash, rfl⟩

example :
    Value.insertAll [(.symbol "a", .integer 1), (.string "a", .nil), (.symbol "a", .bool true)] =
      [(.symbol "a", .bool true), (.string "a", .nil)] := by decide

end Syntax

end ModelSurvey
