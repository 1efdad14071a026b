import Mathlib.Data.List.Basic

/-!
# Doubly linked lists in a heap

The heap gives every node two links.  A list starts at a pointer, follows the
links forward up to the null pointer and has no node twice; the links backward
undo the links forward.  A node can be pushed in front of a list, and a search
along a list is a search in the list of its nodes.
-/

namespace TinyRiscvOs.Lib

universe u

/-- The two links of each node. -/
structure Links (P : Type u) where
  next : P → P
  prev : P → P

namespace Links

variable {P : Type u} {links links' : Links P} {null head before node : P}
    {nodes : List P}

/-- The nodes from `head` up to `null`; the first one points back to `before`. -/
inductive Chain (links : Links P) (null : P) : P → P → List P → Prop where
  | nil (before : P) : Chain links null before null []
  | cons {before node : P} {rest : List P} (isNode : node ≠ null)
      (back : links.prev node = before)
      (tail : Chain links null node (links.next node) rest) :
      Chain links null before node (node :: rest)

namespace Chain

theorem ne_null (chain : links.Chain null before head nodes)
    (member : node ∈ nodes) : node ≠ null := by
  induction chain with
  | nil => cases member
  | cons isNode _ _ induction =>
      rcases List.mem_cons.1 member with rfl | later
      · exact isNode
      · exact induction later

theorem head_mem (chain : links.Chain null before head nodes)
    (isNode : head ≠ null) : head ∈ nodes := by
  cases chain with
  | nil => exact absurd rfl isNode
  | cons => exact List.mem_cons_self

/-- The first node points back to `before`. -/
theorem prev_head (chain : links.Chain null before head nodes)
    (isNode : head ≠ null) : links.prev head = before := by
  cases chain with
  | nil => exact absurd rfl isNode
  | cons _ back => exact back

/-- A chain depends on the links of its nodes only. -/
theorem congr (chain : links.Chain null before head nodes)
    (next : ∀ node ∈ nodes, links'.next node = links.next node)
    (prev : ∀ node ∈ nodes, links'.prev node = links.prev node) :
    links'.Chain null before head nodes := by
  induction chain with
  | nil before => exact .nil before
  | @cons before node rest isNode back _ induction =>
      have tail := induction
        (fun other member => next other (List.mem_cons_of_mem _ member))
        fun other member => prev other (List.mem_cons_of_mem _ member)
      rw [← next node List.mem_cons_self] at tail
      exact .cons isNode ((prev node List.mem_cons_self).trans back) tail

/-- The first node is made to point back elsewhere. -/
theorem relink (chain : links.Chain null before head nodes)
    (distinct : nodes.Nodup)
    (next : ∀ node ∈ nodes, links'.next node = links.next node)
    (prev : ∀ node ∈ nodes, node ≠ head → links'.prev node = links.prev node)
    {before' : P} (back : head ≠ null → links'.prev head = before') :
    links'.Chain null before' head nodes := by
  cases chain with
  | nil => exact .nil before'
  | @cons _ node rest isNode _ tail =>
      have unlike : ∀ other ∈ rest, other ≠ head := by
        rintro other member rfl
        exact (List.nodup_cons.1 distinct).1 member
      have later := tail.congr
        (fun other member => next other (List.mem_cons_of_mem _ member))
        fun other member =>
          prev other (List.mem_cons_of_mem _ member) (unlike other member)
      rw [← next head List.mem_cons_self] at later
      exact .cons isNode (back isNode) later

/-- Behind a node that is not the last one the link backward leads to it. -/
theorem prev_next (chain : links.Chain null before head nodes)
    (member : node ∈ nodes) (more : links.next node ≠ null) :
    links.prev (links.next node) = node := by
  induction chain with
  | nil => cases member
  | cons _ _ tail induction =>
      rcases List.mem_cons.1 member with rfl | later
      · exact tail.prev_head more
      · exact induction later

/-- A node that is not the first one follows the node it points back to. -/
theorem next_prev (chain : links.Chain null before head nodes)
    (member : node ∈ nodes) (inner : node ≠ head) :
    links.next (links.prev node) = node := by
  induction chain with
  | nil => cases member
  | @cons _ first _ _ _ tail induction =>
      rcases List.mem_cons.1 member with rfl | later
      · exact absurd rfl inner
      · by_cases second : node = links.next first
        · subst second
          rw [tail.prev_head (tail.ne_null later)]
        · exact induction later second

end Chain

/-- A doubly linked list without repetitions, from its first node on. -/
structure Doubly (links : Links P) (null head : P) (nodes : List P) :
    Prop where
  chain : links.Chain null null head nodes
  distinct : nodes.Nodup

namespace Doubly

theorem empty (links : Links P) (null : P) : links.Doubly null null [] where
  chain := .nil null
  distinct := List.nodup_nil

/-- A node is put in front of the list. -/
theorem push (list : links.Doubly null head nodes) (isNode : node ≠ null)
    (isNew : node ∉ nodes) (front : links'.next node = head)
    (back : links'.prev node = null)
    (oldHead : head ≠ null → links'.prev head = node)
    (next : ∀ other ∈ nodes, links'.next other = links.next other)
    (prev : ∀ other ∈ nodes, other ≠ head →
      links'.prev other = links.prev other) :
    links'.Doubly null node (node :: nodes) where
  chain := by
    refine .cons isNode back ?_
    rw [front]
    exact list.chain.relink list.distinct next prev oldHead
  distinct := List.nodup_cons.2 ⟨isNew, list.distinct⟩

/-- The links backward are the inverse of the links forward. -/
theorem next_eq_iff (list : links.Doubly null head nodes) {other : P}
    (member : node ∈ nodes) (isOther : other ∈ nodes) :
    links.next node = other ↔ links.prev other = node := by
  constructor
  · rintro rfl
    exact list.chain.prev_next member (list.chain.ne_null isOther)
  · rintro rfl
    refine list.chain.next_prev isOther ?_
    rintro rfl
    exact list.chain.ne_null member
      (list.chain.prev_head (list.chain.ne_null isOther))

end Doubly

/-! ## Searching -/

section Search

variable [DecidableEq P]

/-- The first node with the property, from a pointer on; `none` without fuel. -/
def search (links : Links P) (null : P) (p : P → Bool) : Nat → P → Option P
  | 0, _ => none
  | fuel + 1, node =>
      if node = null then some null
      else if p node then some node
      else search links null p fuel (links.next node)

/-- With fuel for all nodes the search ends and finds what the list has. -/
theorem Chain.search_eq (chain : links.Chain null before head nodes)
    (p : P → Bool) {fuel : Nat} (enough : nodes.length < fuel) :
    links.search null p fuel head = some ((nodes.find? p).getD null) := by
  induction chain generalizing fuel with
  | nil =>
      obtain ⟨fuel, rfl⟩ := Nat.exists_eq_add_of_lt enough
      rw [search, if_pos rfl]
      rfl
  | @cons _ node rest isNode _ _ induction =>
      obtain ⟨fuel, rfl⟩ := Nat.exists_eq_add_of_lt enough
      rw [search, if_neg isNode, List.find?_cons]
      cases found : p node with
      | true => rfl
      | false =>
          rw [if_neg Bool.false_ne_true]
          refine induction ?_
          rw [List.length_cons]
          omega

end Search

end Links

end TinyRiscvOs.Lib
