import Mathlib.Data.List.Basic

/-! Trees over a list, built level by level.

The level above a level pairs its neighbours, and an odd one at the end with itself; the level that
has one node is the top. `PairedTree.ofLeaves` is the tree itself. A function that carries nodes to
merges carries the levels of the tree to levels of values (`top_map`), so that a tree can be
evaluated without being built (`eval_ofLeaves`). -/
namespace SkaleConsensus.Library

section Levels
variable {α β : Type} (merge : α → α → α)

def pairUp : List α → List α
  | [] => []
  | [a] => [merge a a]
  | a :: b :: rest => merge a b :: pairUp rest

theorem length_pairUp (level : List α) : (pairUp merge level).length = (level.length + 1) / 2 := by
  induction level using pairUp.induct with
  | case1 => simp [pairUp]
  | case2 a => simp [pairUp]
  | case3 a b rest ih =>
    simp only [pairUp, List.length_cons, ih]
    omega

/-- The top over a level that starts with `first`. -/
def top (first : α) : List α → α
  | [] => first
  | second :: rest => top (merge first second) (pairUp merge rest)
termination_by rest => rest.length
decreasing_by
  simp only [length_pairUp, List.length_cons]
  omega

variable {merge}

theorem pairUp_map {merge' : β → β → β} {f : α → β}
    (hf : ∀ a b, f (merge a b) = merge' (f a) (f b)) (level : List α) :
    (pairUp merge level).map f = pairUp merge' (level.map f) := by
  induction level using pairUp.induct with
  | case1 => rfl
  | case2 a => simp only [pairUp, List.map_cons, List.map_nil, hf]
  | case3 a b rest ih => simp only [pairUp, List.map_cons, hf, ih]

theorem top_map {merge' : β → β → β} {f : α → β}
    (hf : ∀ a b, f (merge a b) = merge' (f a) (f b)) (first : α) (rest : List α) :
    f (top merge first rest) = top merge' (f first) (rest.map f) := by
  induction first, rest using top.induct merge with
  | case1 first => simp only [top, List.map_nil]
  | case2 first second rest ih => simp only [top, List.map_cons, ih, pairUp_map hf, hf]

end Levels

inductive PairedTree (α : Type) where
  | leaf (a : α)
  | node (left right : PairedTree α)

namespace PairedTree
variable {α : Type}

/-- The value of a tree whose nodes merge the values of their children. -/
def eval (merge : α → α → α) : PairedTree α → α
  | leaf a => a
  | node left right => merge (left.eval merge) (right.eval merge)

def ofLeaves (first : α) (rest : List α) : PairedTree α := top node (leaf first) (rest.map leaf)

theorem eval_ofLeaves (merge : α → α → α) (first : α) (rest : List α) :
    (ofLeaves first rest).eval merge = top merge first rest := by
  have heval : (eval merge) ∘ leaf = id := rfl
  unfold ofLeaves
  rw [top_map (f := eval merge) (fun _ _ => rfl), List.map_map, heval, List.map_id]
  rfl

end PairedTree

end SkaleConsensus.Library
