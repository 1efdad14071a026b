import Mathlib.Data.List.Induction
import Mathlib.Data.Option.Basic
import Mathlib.Logic.Function.Basic

/-!
# Forests of radix tables

A table entry is either absent or names another table.  Several trees, each
with its own root, live in one table store; a tree is only looked at along the
paths of a domain.  The forest property says that no table is reached twice,
and the module shows which changes of the store keep it: writes the walks do
not see, hanging a fresh table below an absent entry, and planting a new root.
-/

namespace TinyRiscvOs.Lib

universe u v w

variable {Id : Type u} {Node : Type v} {Index : Type w}

/-- Follow a path of indices from a node. -/
def walk (table : Node → Index → Option Node) (node : Node) :
    List Index → Option Node
  | [] => some node
  | index :: path => (table node index).bind fun next => walk table next path

section Walk

variable {table other : Node → Index → Option Node}

theorem walk_append (node : Node) (path more : List Index) :
    walk table node (path ++ more) =
      (walk table node path).bind fun next => walk table next more := by
  induction path generalizing node with
  | nil => rfl
  | cons index path induction =>
      rw [List.cons_append, walk, walk, Option.bind_assoc]
      exact Option.bind_congr fun next _ => induction next

/-- The last step of a walk. -/
theorem walk_snoc (node : Node) (path : List Index) (index : Index) :
    walk table node (path ++ [index]) =
      (walk table node path).bind fun next => table next index := by
  rw [walk_append]
  refine Option.bind_congr fun next _ => ?_
  simp [walk]

theorem walk_snoc_eq_some {node last : Node} {path : List Index}
    {index : Index} :
    walk table node (path ++ [index]) = some last ↔
      ∃ next, walk table node path = some next ∧ table next index = some last := by
  rw [walk_snoc, Option.bind_eq_some_iff]

end Walk

/-- The paths of a domain are closed under dropping the last index. -/
def PrefixClosed (dom : Id → List Index → Prop) : Prop :=
  ∀ id path index, dom id (path ++ [index]) → dom id path

theorem PrefixClosed.ofPrefix {dom : Id → List Index → Prop}
    (closed : PrefixClosed dom) {id : Id} {path whole : List Index}
    (inside : dom id whole) (isPrefix : path <+: whole) : dom id path := by
  obtain ⟨rest, rfl⟩ := isPrefix
  induction rest using List.reverseRecOn with
  | nil => rwa [List.append_nil] at inside
  | append_singleton rest index induction =>
      rw [← List.append_assoc] at inside
      exact induction (closed id _ index inside)

/-- The tables reached along the paths of the domain. -/
def Reached (root : Id → Node) (dom : Id → List Index → Prop)
    (table : Node → Index → Option Node) (node : Node) : Prop :=
  ∃ id path, dom id path ∧ walk table (root id) path = some node

/-- No table is reached along two paths. -/
structure Forest (root : Id → Node) (dom : Id → List Index → Prop)
    (table : Node → Index → Option Node) : Prop where
  closed : PrefixClosed dom
  unique : ∀ id path id' path' node, dom id path → dom id' path' →
    walk table (root id) path = some node →
    walk table (root id') path' = some node → id = id' ∧ path = path'

namespace Forest

variable {root : Id → Node} {dom : Id → List Index → Prop}
    {table other : Node → Index → Option Node}

/-! ## Changes the walks do not see -/

/-- Walks only read the entries they follow. -/
theorem walk_congr (closed : PrefixClosed dom)
    (agree : ∀ id path index node, dom id (path ++ [index]) →
      walk table (root id) path = some node →
      other node index = table node index)
    {id : Id} {path : List Index} (inside : dom id path) :
    walk other (root id) path = walk table (root id) path := by
  induction path using List.reverseRecOn with
  | nil => rfl
  | append_singleton path index induction =>
      rw [walk_snoc, walk_snoc, induction (closed id path index inside)]
      refine Option.bind_congr fun node reached => ?_
      exact agree id path index node inside reached

theorem congr (forest : Forest root dom table)
    (agree : ∀ id path index node, dom id (path ++ [index]) →
      walk table (root id) path = some node →
      other node index = table node index) :
    Forest root dom other := by
  refine ⟨forest.closed, ?_⟩
  intro id path id' path' node inside inside' first second
  rw [walk_congr forest.closed agree inside] at first
  rw [walk_congr forest.closed agree inside'] at second
  exact forest.unique id path id' path' node inside inside' first second

/-! ## Hanging a fresh table below an absent entry -/

/-- Along the domain only the entry `index` of `node` differs, and it now names `fresh`. -/
structure Attached (root : Id → Node) (dom : Id → List Index → Prop)
    (table other : Node → Index → Option Node) (node : Node) (index : Index)
    (fresh : Node) : Prop where
  absent : table node index = none
  here : other node index = some fresh
  elsewhere : ∀ id path node' index', dom id (path ++ [index']) →
    walk table (root id) path = some node' →
    ¬ (node' = node ∧ index' = index) → other node' index' = table node' index'

section Attach

variable {node fresh : Node} {index : Index} {id : Id} {path : List Index}

/-- After the change exactly one more path of the domain leads to a table. -/
theorem walk_attached (forest : Forest root dom table)
    (attached : Attached root dom table other node index fresh)
    (inside : dom id path) (reached : walk table (root id) path = some node)
    (empty : ∀ next, dom id (path ++ [index] ++ [next]) →
      other fresh next = none)
    {id' : Id} {path' : List Index} (inside' : dom id' path') (last : Node) :
    walk other (root id') path' = some last ↔
      walk table (root id') path' = some last ∨
        (id' = id ∧ path' = path ++ [index] ∧ last = fresh) := by
  induction path' using List.reverseRecOn generalizing last with
  | nil => simp [walk]
  | append_singleton path' index' induction =>
      have prefixInside := forest.closed id' path' index' inside'
      rw [walk_snoc_eq_some, walk_snoc_eq_some]
      constructor
      · rintro ⟨middle, toMiddle, entry⟩
        rcases (induction prefixInside middle).1 toMiddle with old | new
        · by_cases changed : middle = node ∧ index' = index
          · obtain ⟨rfl, rfl⟩ := changed
            obtain ⟨rfl, rfl⟩ := forest.unique id' path' id path middle
              prefixInside inside old reached
            rw [attached.here, Option.some_inj] at entry
            exact Or.inr ⟨rfl, rfl, entry.symm⟩
          · rw [attached.elsewhere id' path' middle index' inside' old changed]
              at entry
            exact Or.inl ⟨middle, old, entry⟩
        · obtain ⟨rfl, rfl, rfl⟩ := new
          rw [empty index' inside'] at entry
          cases entry
      · rintro (⟨middle, toMiddle, entry⟩ | ⟨rfl, same, rfl⟩)
        · have unchanged : ¬ (middle = node ∧ index' = index) := by
            rintro ⟨rfl, rfl⟩
            rw [attached.absent] at entry
            cases entry
          refine ⟨middle, (induction prefixInside middle).2 (Or.inl toMiddle),
            ?_⟩
          rw [attached.elsewhere id' path' middle index' inside' toMiddle
            unchanged]
          exact entry
        · obtain ⟨rfl, rfl⟩ := List.append_inj' same rfl |>.imp id
            List.singleton_inj.1
          exact ⟨node, (induction prefixInside node).2 (Or.inl reached),
            attached.here⟩

theorem attach (forest : Forest root dom table)
    (attached : Attached root dom table other node index fresh)
    (inside : dom id path) (reached : walk table (root id) path = some node)
    (isFresh : ¬ Reached root dom table fresh)
    (empty : ∀ next, dom id (path ++ [index] ++ [next]) →
      other fresh next = none) :
    Forest root dom other := by
  refine ⟨forest.closed, ?_⟩
  intro left leftPath right rightPath last leftInside rightInside first second
  rcases (forest.walk_attached attached inside reached empty
      leftInside last).1 first with oldFirst | ⟨rfl, rfl, rfl⟩
  · rcases (forest.walk_attached attached inside reached empty
        rightInside last).1 second with oldSecond | ⟨rfl, rfl, rfl⟩
    · exact forest.unique left leftPath right rightPath last leftInside
        rightInside oldFirst oldSecond
    · exact absurd ⟨left, leftPath, leftInside, oldFirst⟩ isFresh
  · rcases (forest.walk_attached attached inside reached empty
        rightInside last).1 second with oldSecond | ⟨rfl, rfl, -⟩
    · exact absurd ⟨right, rightPath, rightInside, oldSecond⟩ isFresh
    · exact ⟨rfl, rfl⟩

end Attach

/-! ## Planting a new root -/

/-- A further tree whose root is fresh and has no entry on the paths added. -/
theorem plant {dom' : Id → List Index → Prop} {root' : Id → Node} {new : Id}
    (forest : Forest root dom table) (closed : PrefixClosed dom')
    (sameRoot : ∀ id, id ≠ new → root' id = root id)
    (sameDom : ∀ id path, id ≠ new → dom' id path → dom id path)
    (isFresh : ¬ Reached root dom table (root' new))
    (empty : ∀ index, dom' new [index] → table (root' new) index = none) :
    Forest root' dom' table := by
  -- The new tree consists of its root alone.
  have onlyRoot : ∀ path last, dom' new path →
      walk table (root' new) path = some last → path = [] ∧ last = root' new := by
    intro path last inside reached
    induction path using List.reverseRecOn generalizing last with
    | nil =>
        rw [walk, Option.some_inj] at reached
        exact ⟨rfl, reached.symm⟩
    | append_singleton path index induction =>
        obtain ⟨middle, toMiddle, entry⟩ := walk_snoc_eq_some.1 reached
        obtain ⟨rfl, rfl⟩ :=
          induction middle (closed new path index inside) toMiddle
        rw [empty index inside] at entry
        cases entry
  refine ⟨closed, ?_⟩
  intro left leftPath right rightPath last leftInside rightInside first second
  by_cases leftNew : left = new
  · subst leftNew
    obtain ⟨rfl, rfl⟩ := onlyRoot leftPath last leftInside first
    by_cases rightNew : right = left
    · subst rightNew
      obtain ⟨rfl, -⟩ := onlyRoot rightPath _ rightInside second
      exact ⟨rfl, rfl⟩
    · rw [sameRoot right rightNew] at second
      exact absurd ⟨right, rightPath, sameDom right rightPath rightNew
        rightInside, second⟩ isFresh
  · rw [sameRoot left leftNew] at first
    have leftOld := sameDom left leftPath leftNew leftInside
    by_cases rightNew : right = new
    · subst rightNew
      obtain ⟨rfl, rfl⟩ := onlyRoot rightPath last rightInside second
      exact absurd ⟨left, leftPath, leftOld, first⟩ isFresh
    · rw [sameRoot right rightNew] at second
      exact forest.unique left leftPath right rightPath last leftOld
        (sameDom right rightPath rightNew rightInside) first second

end Forest

end TinyRiscvOs.Lib
