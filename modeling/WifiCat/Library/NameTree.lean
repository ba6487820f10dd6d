import Mathlib.Tactic

/-!
# Trees of names

A node has a name, children and a list of entries, and a path of names leads to the first child of
each name.  `insert` puts an entry first at the place of a path, making the nodes that are missing;
`entriesAt_insert` says that it changes the entries nowhere else.
-/

set_option autoImplicit false

namespace NameTree

variable {κ α : Type} [DecidableEq κ]

/-- A node. -/
inductive Tree (κ α : Type)
  | node (name : κ) (children : List (Tree κ α)) (entries : List α)

/-- The name of a node. -/
def Tree.name : Tree κ α → κ
  | .node name _ _ => name

/-- The nodes below a node. -/
def Tree.children : Tree κ α → List (Tree κ α)
  | .node _ children _ => children

/-- The entries of a node. -/
def Tree.entries : Tree κ α → List α
  | .node _ _ entries => entries

/-- The node that a path leads to. -/
def Tree.find : List κ → Tree κ α → Option (Tree κ α)
  | [], t => some t
  | k :: ks, t => (t.children.find? fun child => child.name = k).bind (find ks)

/-- Change the first node of a name. -/
def updateFirst (k : κ) (f : Tree κ α → Tree κ α) : List (Tree κ α) → List (Tree κ α)
  | [] => []
  | t :: ts => if t.name = k then f t :: ts else t :: updateFirst k f ts

/-- Put an entry first at the place of a path; a node that is missing is made before its
siblings. -/
def Tree.insert (a : α) : List κ → Tree κ α → Tree κ α
  | [], .node name children entries => .node name children (a :: entries)
  | k :: ks, .node name children entries =>
    match children.find? fun child => child.name = k with
    | some _ => .node name (updateFirst k (insert a ks) children) entries
    | none => .node name (insert a ks (.node k [] []) :: children) entries

/-- The entries at the place of a path, if there is one. -/
def Tree.entriesAt (t : Tree κ α) (path : List κ) : Option (List α) := (t.find path).map entries

/-! ## What an insertion changes -/

@[simp] theorem name_insert (a : α) (path : List κ) (t : Tree κ α) :
    (t.insert a path).name = t.name := by
  obtain ⟨name, children, entries⟩ := t
  cases path with
  | nil => rfl
  | cons k ks =>
    rw [Tree.insert]
    split <;> rfl

theorem find?_updateFirst {k : κ} {f : Tree κ α → Tree κ α} (hf : ∀ t, (f t).name = t.name)
    (ts : List (Tree κ α)) (k' : κ) :
    (updateFirst k f ts).find? (fun t => t.name = k') =
      if k' = k then (ts.find? fun t => t.name = k).map f else ts.find? fun t => t.name = k' := by
  induction ts with
  | nil => simp [updateFirst]
  | cons t ts ih =>
    rw [updateFirst]
    by_cases ht : t.name = k
    · rw [if_pos ht]
      by_cases hk : k' = k
      · rw [if_pos hk, List.find?_cons_of_pos (by simp [hf, ht, hk]),
          List.find?_cons_of_pos (by simp [ht])]
        rfl
      · have hne : ¬t.name = k' := fun h => hk (h.symm.trans ht)
        rw [if_neg hk, List.find?_cons_of_neg (by simp [hf, hne]),
          List.find?_cons_of_neg (by simp [hne])]
    · rw [if_neg ht]
      by_cases ht' : t.name = k'
      · have hk : ¬k' = k := fun h => ht (ht'.trans h)
        rw [if_neg hk, List.find?_cons_of_pos (by simp [ht']),
          List.find?_cons_of_pos (by simp [ht'])]
      · rw [List.find?_cons_of_neg (by simp [ht']), ih, List.find?_cons_of_neg (by simp [ht]),
          List.find?_cons_of_neg (by simp [ht'])]

theorem entriesAt_cons (t : Tree κ α) (k : κ) (ks : List κ) :
    t.entriesAt (k :: ks) =
      (t.children.find? fun child => child.name = k).bind fun child => child.entriesAt ks := by
  rw [Tree.entriesAt, Tree.find, Option.map_bind]
  rfl

/-- A node that was just made has no entries, and nothing below it. -/
theorem entriesAt_empty (k : κ) (ks : List κ) :
    (Tree.node k [] [] : Tree κ α).entriesAt ks = if ks = [] then some [] else none := by
  cases ks with
  | nil => rfl
  | cons k' ks => rw [entriesAt_cons]; simp [Tree.children]

theorem getD_entriesAt_empty (k : κ) (ks : List κ) :
    ((Tree.node k [] [] : Tree κ α).entriesAt ks).getD [] = [] := by
  rw [entriesAt_empty]
  split <;> rfl

/-- The first child of a name, behind an insertion below a child. -/
theorem find?_children_insert (a : α) (k : κ) (ks : List κ) (t : Tree κ α) (k' : κ) :
    ((t.insert a (k :: ks)).children.find? fun child => child.name = k') =
      if k' = k then
        some ((((t.children.find? fun child => child.name = k).getD (.node k [] [])).insert a ks))
      else t.children.find? fun child => child.name = k' := by
  obtain ⟨name, children, entries⟩ := t
  rw [Tree.insert]
  cases hchild : children.find? fun child => child.name = k with
  | some child =>
    dsimp only [Tree.children]
    rw [find?_updateFirst (name_insert a ks), hchild]
    rfl
  | none =>
    dsimp only [Tree.children]
    have hname : (Tree.insert a ks (.node k [] [])).name = k := name_insert a ks _
    by_cases hk : k' = k
    · rw [if_pos hk, List.find?_cons_of_pos (by simp [hname, hk]), hchild]
      rfl
    · rw [if_neg hk, List.find?_cons_of_neg (by simp [hname, Ne.symm hk])]

/-- **An insertion** adds the entry at its path, and makes the places on the way. -/
theorem entriesAt_insert (a : α) (path : List κ) (t : Tree κ α) (path' : List κ) :
    (t.insert a path).entriesAt path' =
      if path' = path then some (a :: (t.entriesAt path).getD [])
      else if path' <+: path then some ((t.entriesAt path').getD [])
      else t.entriesAt path' := by
  induction path generalizing t path' with
  | nil =>
    obtain ⟨name, children, entries⟩ := t
    cases path' with
    | nil => rfl
    | cons k' ks' =>
      rw [if_neg (List.cons_ne_nil k' ks'), if_neg (by simp), entriesAt_cons, entriesAt_cons]
      rfl
  | cons k ks ih =>
    cases path' with
    | nil =>
      have hentries : (t.insert a (k :: ks)).entries = t.entries := by
        obtain ⟨name, children, entries⟩ := t
        rw [Tree.insert]
        split <;> rfl
      rw [if_neg (List.cons_ne_nil k ks).symm, if_pos List.nil_prefix]
      exact congrArg some hentries
    | cons k' ks' =>
      rw [entriesAt_cons, find?_children_insert, entriesAt_cons, entriesAt_cons]
      by_cases hk : k' = k
      · subst hk
        rw [if_pos rfl, Option.bind_some, ih]
        simp only [List.cons.injEq, true_and, List.cons_prefix_cons]
        cases t.children.find? fun child => child.name = k' with
        | some child => rfl
        | none =>
          simp only [Option.getD_none, Option.bind_none, getD_entriesAt_empty]
          rw [entriesAt_empty]
          split
          · rfl
          · split
            · rfl
            · next hprefix =>
              have hne : ks' ≠ [] := fun hnil => hprefix (hnil.symm ▸ List.nil_prefix)
              rw [if_neg hne]
      · simp [hk]

/-- The entries by themselves: a place that is only made has none. -/
theorem getD_entriesAt_insert (a : α) (path : List κ) (t : Tree κ α) (path' : List κ) :
    ((t.insert a path).entriesAt path').getD [] =
      (if path' = path then [a] else []) ++ (t.entriesAt path').getD [] := by
  rw [entriesAt_insert]
  split
  · next h =>
    rw [h]
    rfl
  · split <;> rfl

end NameTree
