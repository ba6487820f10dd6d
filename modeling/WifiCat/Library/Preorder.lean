import Mathlib.Tactic

/-!
# Trees, and how they are written in a row

A tree has a label and any number of children.  In preorder it is a list of labels, each with the
number of its children, from which the tree can be read back (`preorder_inj`).
-/

set_option autoImplicit false

/-- A tree with labels. -/
inductive LabelTree (α : Type) where
  | node (label : α) (children : List (LabelTree α))

namespace LabelTree

variable {α : Type}

mutual

/-- The labels of a tree, each before those of its children. -/
def preorder : LabelTree α → List (α × ℕ)
  | .node label children => (label, children.length) :: preorderAll children

/-- The labels of trees, one tree after the other. -/
def preorderAll : List (LabelTree α) → List (α × ℕ)
  | [] => []
  | t :: ts => preorder t ++ preorderAll ts

end

/-- The number of labels. -/
def size (t : LabelTree α) : ℕ := t.preorder.length

/-- The number of labels of several trees. -/
def sizeAll (ts : List (LabelTree α)) : ℕ := (preorderAll ts).length

@[simp] theorem size_node (label : α) (children : List (LabelTree α)) :
    size (.node label children) = sizeAll children + 1 := by
  rw [size, preorder, List.length_cons, sizeAll]

@[simp] theorem sizeAll_nil : sizeAll ([] : List (LabelTree α)) = 0 := rfl

@[simp] theorem sizeAll_cons (t : LabelTree α) (ts : List (LabelTree α)) :
    sizeAll (t :: ts) = t.size + sizeAll ts := by
  rw [sizeAll, preorderAll, List.length_append, size, sizeAll]

mutual

/-- A tree is read back from its labels, whatever stands behind them. -/
theorem preorder_append_inj : ∀ (t t' : LabelTree α) {rest rest' : List (α × ℕ)},
    t.preorder ++ rest = t'.preorder ++ rest' → t = t' ∧ rest = rest'
  | .node label children, .node label' children', rest, rest', h => by
    rw [preorder, preorder, List.cons_append, List.cons_append, List.cons.injEq,
      Prod.mk.injEq] at h
    obtain ⟨⟨hlabel, hlength⟩, htail⟩ := h
    obtain ⟨hchildren, hrest⟩ := preorderAll_append_inj children children' hlength htail
    exact ⟨by rw [hlabel, hchildren], hrest⟩

theorem preorderAll_append_inj : ∀ (ts ts' : List (LabelTree α)) {rest rest' : List (α × ℕ)},
    ts.length = ts'.length → preorderAll ts ++ rest = preorderAll ts' ++ rest' →
      ts = ts' ∧ rest = rest'
  | [], [], _, _, _, h => ⟨rfl, h⟩
  | [], t' :: ts', _, _, hlength, _ => by cases hlength
  | t :: ts, [], _, _, hlength, _ => by cases hlength
  | t :: ts, t' :: ts', rest, rest', hlength, h => by
    rw [preorderAll, preorderAll, List.append_assoc, List.append_assoc] at h
    obtain ⟨hfirst, htail⟩ := preorder_append_inj t t' h
    obtain ⟨hothers, hrest⟩ := preorderAll_append_inj ts ts' (Nat.succ.inj hlength) htail
    exact ⟨by rw [hfirst, hothers], hrest⟩

end

/-- Trees with the same labels in the same order are the same. -/
theorem preorder_inj {t t' : LabelTree α} (h : t.preorder = t'.preorder) : t = t' := by
  have hsame : t.preorder ++ [] = t'.preorder ++ [] := by rw [h]
  exact (preorder_append_inj t t' hsame).1

end LabelTree
