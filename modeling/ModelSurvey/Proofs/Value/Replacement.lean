import ModelSurvey.Facts.DelegatedType
import ModelSurvey.Facts.Enum
import ModelSurvey.Facts.SecurePassword
import ModelSurvey.Proofs.Value.Hashes

/-! Nodes without a value are interchangeable. Two nodes are related when one comes from the other
by putting, at any places and any depth, nodes without a value for others without one. Evaluation
does not tell them apart, so the facts that are read off the values of a declaration's arguments are
the same. What such a node leaves behind depends on its place only: `nil` as an element of an array
or a value of a hash, nothing as a key, and no value at all for a constant's path. -/
namespace ModelSurvey
set_option autoImplicit false
open Syntax

namespace Syntax.Node

/-! ## Replacement -/

mutual

/-- The second node is the first one with some parts without a value replaced. The parts are the
node itself, the elements of arrays, the keys and values of hashes and the scopes of constants. -/
inductive Replaced : Node → Node → Prop where
  | same (n : Node) : Replaced n n
  | valueless {n m : Node} (hn : n.evaluate = none) (hm : m.evaluate = none) : Replaced n m
  | array {l k : List Node} (h : ReplacedAll l k) : Replaced (.array l) (.array k)
  | hash {l k : List HashElement} (h : ReplacedElements l k) : Replaced (.hash l) (.hash k)
  | keywordHash {l k : List HashElement} (h : ReplacedElements l k) :
      Replaced (.keywordHash l) (.keywordHash k)
  | constantPath {n m : Node} (name : String) (h : Replaced n m) :
      Replaced (.constantPath (some n) name) (.constantPath (some m) name)

inductive ReplacedAll : List Node → List Node → Prop where
  | nil : ReplacedAll [] []
  | cons {n m : Node} {l k : List Node} (hn : Replaced n m) (hl : ReplacedAll l k) :
      ReplacedAll (n :: l) (m :: k)

inductive ReplacedElements : List HashElement → List HashElement → Prop where
  | nil : ReplacedElements [] []
  | assoc {key key' value value' : Node} {l k : List HashElement} (hkey : Replaced key key')
      (hvalue : Replaced value value') (hl : ReplacedElements l k) :
      ReplacedElements (.assoc key value :: l) (.assoc key' value' :: k)
  | splat {value value' : Node} {l k : List HashElement} (hvalue : Replaced value value')
      (hl : ReplacedElements l k) : ReplacedElements (.splat value :: l) (.splat value' :: k)

end

/-! ## Evaluation -/

/-- What spells a path has that path as its value. -/
theorem evaluate_of_path? {n : Node} {path : String} (h : n.path? = some path) :
    n.evaluate = some (.string path) := by
  cases n with
  | constant name =>
    cases h
    rfl
  | constantPath scope name => rw [evaluate, h, Option.map_some]
  | _ => cases h

theorem path?_of_evaluate_none {n : Node} (h : n.evaluate = none) : n.path? = none := by
  cases hpath : n.path? with
  | none => rfl
  | some path =>
    rw [evaluate_of_path? hpath] at h
    cases h

/-- Paths are read without evaluating their scopes, but agree with what that would give. -/
theorem Replaced.path?_eq : ∀ {n m : Node}, Replaced n m → n.path? = m.path?
  | _, _, .same _ => rfl
  | _, _, .valueless hn hm => by rw [path?_of_evaluate_none hn, path?_of_evaluate_none hm]
  | _, _, .array _ => rfl
  | _, _, .hash _ => rfl
  | _, _, .keywordHash _ => rfl
  | _, _, .constantPath name h => by rw [path?, path?, h.path?_eq]

mutual

theorem Replaced.evaluate_eq : ∀ {n m : Node}, Replaced n m → n.evaluate = m.evaluate
  | _, _, .same _ => rfl
  | _, _, .valueless hn hm => hn.trans hm.symm
  | _, _, .array h => by rw [evaluate, evaluate, h.evaluateAll_eq]
  | _, _, .hash h => by rw [evaluate, evaluate, h.evaluatePairs_eq []]
  | _, _, .keywordHash h => by rw [evaluate, evaluate, h.evaluatePairs_eq []]
  | _, _, .constantPath name h => by
    rw [evaluate, evaluate, (Replaced.constantPath name h).path?_eq]

theorem ReplacedAll.evaluateAll_eq :
    ∀ {l k : List Node}, ReplacedAll l k → evaluateAll l = evaluateAll k
  | _, _, .nil => rfl
  | _, _, .cons hn hl => by
    rw [evaluateAll, evaluateAll, hn.evaluate_eq, hl.evaluateAll_eq]

theorem ReplacedElements.evaluatePairs_eq :
    ∀ {l k : List HashElement}, ReplacedElements l k →
      ∀ pairs : List (Value × Value), evaluatePairs pairs l = evaluatePairs pairs k
  | _, _, .nil, _ => rfl
  | _, _, .assoc hkey hvalue hl, pairs => by
    rw [evaluatePairs, evaluatePairs, hkey.evaluate_eq, hvalue.evaluate_eq]
    split
    · exact hl.evaluatePairs_eq pairs
    · exact hl.evaluatePairs_eq _
  | _, _, .splat _ hl, pairs => by
    rw [evaluatePairs, evaluatePairs, hl.evaluatePairs_eq pairs]

end

/-! ## Places -/

variable {n : Node}

theorem evaluate_array_of_valueless (h : n.evaluate = none) (l r : List Node) :
    evaluate (.array (l ++ n :: r)) = some (.array (evaluateAll l ++ .nil :: evaluateAll r)) := by
  rw [evaluate, evaluateAll_eq, evaluateAll_eq, evaluateAll_eq, List.map_append, List.map_cons, h,
    Option.getD_none]

theorem evaluate_of_key_valueless (h : n.evaluate = none) (value : Node)
    {l r : List HashElement} {hash : Node} (hhash : hash.IsHash (l ++ .assoc n value :: r)) :
    hash.evaluate = some (.hash (hashPairs (l ++ r))) := by
  have hpair : (HashElement.assoc n value).pair? = none := by
    rw [HashElement.pair?, h, Option.map_none]
  rw [evaluate_hash hhash, hashPairs, hashPairs, List.filterMap_append,
    List.filterMap_cons_none hpair, List.filterMap_append]

theorem evaluate_of_value_valueless (h : n.evaluate = none) (key : Node)
    {l r : List HashElement} {hash : Node} (hhash : hash.IsHash (l ++ .assoc key n :: r)) :
    hash.evaluate = some (.hash (hashPairs (l ++ .assoc key .nil :: r))) := by
  have hpair : (HashElement.assoc key n).pair? = (HashElement.assoc key .nil).pair? := by
    rw [HashElement.pair?, HashElement.pair?, h]
    rfl
  rw [evaluate_hash hhash, hashPairs, hashPairs, List.filterMap_append, List.filterMap_append,
    List.filterMap_cons, List.filterMap_cons, hpair]

theorem evaluate_constantPath_of_valueless (h : n.evaluate = none) (name : String) :
    evaluate (.constantPath (some n) name) = none := by
  rw [evaluate, path?, path?_of_evaluate_none h, Option.map_none, Option.map_none]

end Syntax.Node

/-! ## Facts -/

/-- Enums, delegated types and secure passwords are read off the values of a declaration's
arguments. -/
theorem extract_eq_of_values_eq {d e : Declaration} (hname : d.name = e.name)
    (hline : d.line = e.line) (hvalues : d.values = e.values) :
    EnumFact.extract d = EnumFact.extract e ∧
    DelegatedTypeFact.extract d = DelegatedTypeFact.extract e ∧
    SecurePasswordFact.extract d = SecurePasswordFact.extract e := by
  refine ⟨?_, ?_, ?_⟩
  · rw [EnumFact.extract, EnumFact.extract, hname, hvalues, hline]
  · rw [DelegatedTypeFact.extract, DelegatedTypeFact.extract, hname, hvalues, hline]
  · rw [SecurePasswordFact.extract, SecurePasswordFact.extract, hname, hvalues, hline]

/-- Nodes that agree up to parts without a value have the same value, or both none. So an enum, a
delegated type and a secure password do not depend on which ones stand in their arguments. A part
without a value is `nil` in an array or as the value of a pair, takes its pair along as a key, and
leaves a path without a value. -/
theorem valueless_parts_are_interchangeable :
    (∀ n m : Node, n.Replaced m → n.evaluate = m.evaluate) ∧
    (∀ (d : Declaration) (arguments : List Node), Node.ReplacedAll d.arguments arguments →
      EnumFact.extract d = EnumFact.extract { d with arguments := arguments } ∧
      DelegatedTypeFact.extract d = DelegatedTypeFact.extract { d with arguments := arguments } ∧
      SecurePasswordFact.extract d =
        SecurePasswordFact.extract { d with arguments := arguments }) ∧
    ∀ n : Node, n.evaluate = none →
      (∀ l r, Node.evaluate (.array (l ++ n :: r)) =
        some (.array (Node.evaluateAll l ++ .nil :: Node.evaluateAll r))) ∧
      (∀ value l r (hash : Node), hash.IsHash (l ++ .assoc n value :: r) →
        hash.evaluate = some (.hash (hashPairs (l ++ r)))) ∧
      (∀ key l r (hash : Node), hash.IsHash (l ++ .assoc key n :: r) →
        hash.evaluate = some (.hash (hashPairs (l ++ .assoc key .nil :: r)))) ∧
      ∀ name, Node.evaluate (.constantPath (some n) name) = none := by
  refine ⟨fun n m h => h.evaluate_eq, fun d arguments h => ?_, fun n h => ⟨?_, ?_, ?_, ?_⟩⟩
  · exact extract_eq_of_values_eq rfl rfl h.evaluateAll_eq
  · exact Node.evaluate_array_of_valueless h
  · exact fun value l r hash hhash => Node.evaluate_of_key_valueless h value hhash
  · exact fun key l r hash hhash => Node.evaluate_of_value_valueless h key hhash
  · exact Node.evaluate_constantPath_of_valueless h

/-- An enum with a mapping and an option. The node `n` is an item, the scope of a key, the value of
the option and what is splatted. -/
def enumAround (n : Node) : Declaration where
  receiver := none
  name := "enum"
  arguments := [
    .symbol "status",
    .hash [.assoc (.symbol "open") (.array [n, .integer 1]),
      .assoc (.constantPath (some n) "CLOSED") (.integer 2)],
    .keywordHash [.assoc (.symbol "prefix") n, .splat n]]
  block := none
  line := 3

theorem valueless_parts_are_interchangeable_enumAround :
    let n := Node.call (.bare "now" 3)
    let m := Node.other "interpolation" [.constant "NOW"]
    n.evaluate = none ∧ m.evaluate = none ∧
    (enumAround n).values = [.symbol "status",
      .hash [(.symbol "open", .array [.nil, .integer 1])], .hash [(.symbol "prefix", .nil)]] ∧
    Node.evaluate (.array (enumAround n).arguments) =
      Node.evaluate (.array (enumAround m).arguments) ∧
    EnumFact.extract (enumAround n) = EnumFact.extract (enumAround m) ∧
    (EnumFact.extract (enumAround m)).map EnumFact.methodNames = some ["open"] ∧
    Node.evaluate (.constantPath (some m) "CLOSED") = none := by
  intro n m
  have hpart : n.Replaced m := .valueless rfl rfl
  have hmapping : Node.ReplacedElements
      [.assoc (.symbol "open") (.array [n, .integer 1]),
        .assoc (.constantPath (some n) "CLOSED") (.integer 2)]
      [.assoc (.symbol "open") (.array [m, .integer 1]),
        .assoc (.constantPath (some m) "CLOSED") (.integer 2)] :=
    .assoc (.same _) (.array (.cons hpart (.cons (.same _) .nil)))
      (.assoc (.constantPath _ hpart) (.same _) .nil)
  have harguments : Node.ReplacedAll (enumAround n).arguments (enumAround m).arguments :=
    .cons (.same _) (.cons (.hash hmapping)
      (.cons (.keywordHash (.assoc (.same _) hpart (.splat hpart .nil))) .nil))
  obtain ⟨hvalue, hfacts, hplaces⟩ := valueless_parts_are_interchangeable
  exact ⟨rfl, rfl, by decide, hvalue _ _ (.array harguments),
    (hfacts (enumAround n) _ harguments).1, by decide +kernel, (hplaces m rfl).2.2.2 "CLOSED"⟩

end ModelSurvey
