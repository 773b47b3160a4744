import Mathlib.Data.List.Nodup
import Mathlib.Data.List.Perm.Basic
import Mathlib.Logic.Function.Basic

/-! Singly linked lists threaded through the memory they link.
A memory maps an address to the word stored there; address `0` is null. The list is a
function of the memory and the head, so a null-terminated list cannot have a cycle.
-/

namespace IntrusiveList

/-- Following the links of `mem` from `head` visits exactly `nodes`, then null. -/
def Linked (mem : Nat → Nat) : Nat → List Nat → Prop
  | head, [] => head = 0
  | head, node :: rest => head = node ∧ node ≠ 0 ∧ Linked mem (mem node) rest

variable {mem : Nat → Nat} {head : Nat} {nodes : List Nat}

/-- Memory and head determine the list, by induction on one of the two candidates. -/
theorem Linked.unique {other : List Nat} (linked : Linked mem head nodes)
    (linkedToo : Linked mem head other)
    : nodes = other := by
  induction nodes generalizing head other with
  | nil =>
      cases other with
      | nil => rfl
      | cons node rest => exact absurd (linkedToo.1.symm.trans linked) linkedToo.2.1
  | cons node rest ih =>
      cases other with
      | nil => exact absurd (linked.1.symm.trans linkedToo) linked.2.1
      | cons node' rest' =>
          obtain ⟨rfl, _, below⟩ := linked
          obtain ⟨rfl, _, below'⟩ := linkedToo
          rw [ih below below']

/-- Writing outside the list leaves it alone. -/
theorem Linked.frame {next : Nat → Nat} (linked : Linked mem head nodes)
    (same : ∀ node ∈ nodes, next node = mem node)
    : Linked next head nodes := by
  induction nodes generalizing head with
  | nil => exact linked
  | cons node rest ih =>
      refine ⟨linked.1, linked.2.1, ?_⟩
      rw [same node (by simp)]
      exact ih linked.2.2 (fun later member => same later (by simp [member]))

theorem Linked.update {address value : Nat} (linked : Linked mem head nodes)
    (outside : address ∉ nodes)
    : Linked (Function.update mem address value) head nodes := by
  refine linked.frame (fun node member => Function.update_of_ne ?_ value mem)
  rintro rfl
  exact outside member

/-- Writing the old head into a fresh node and making it the head pushes the node. -/
theorem Linked.push {node : Nat} (linked : Linked mem head nodes) (nonnull : node ≠ 0)
    (fresh : node ∉ nodes)
    : Linked (Function.update mem node head) node (node :: nodes) := by
  refine ⟨rfl, nonnull, ?_⟩
  rw [Function.update_self]
  exact linked.update fresh

/-- A nonnull head is the first node. -/
theorem Linked.head_cons (linked : Linked mem head nodes) (nonnull : head ≠ 0)
    : ∃ rest, nodes = head :: rest ∧ Linked mem (mem head) rest := by
  cases nodes with
  | nil => exact absurd linked nonnull
  | cons node rest =>
      obtain ⟨rfl, _, below⟩ := linked
      exact ⟨rest, rfl, below⟩

/-- The list that starts at a node of a linked list is the rest of that list. -/
theorem Linked.suffix {node : Nat} (linked : Linked mem head nodes) (member : node ∈ nodes)
    : ∃ front back, nodes = front ++ node :: back ∧ Linked mem node (node :: back) := by
  induction nodes generalizing head with
  | nil => simp at member
  | cons first rest ih =>
      rcases List.mem_cons.mp member with rfl | later
      · exact ⟨[], rest, rfl, rfl, linked.2⟩
      · obtain ⟨front, back, rfl, below⟩ := ih linked.2.2 later
        exact ⟨first :: front, back, rfl, below⟩

/-- A null-terminated list has no cycle: a repeated node would start two different lists. -/
theorem Linked.nodup (linked : Linked mem head nodes) : nodes.Nodup := by
  induction nodes generalizing head with
  | nil => exact List.nodup_nil
  | cons first rest ih =>
      obtain ⟨rfl, nonnull, below⟩ := linked
      refine List.nodup_cons.mpr ⟨?_, ih below⟩
      intro again
      obtain ⟨front, back, same, tail⟩ := below.suffix again
      have whole : Linked mem head (head :: rest) := ⟨rfl, nonnull, below⟩
      have lengths := congrArg List.length (whole.unique tail)
      have longer := congrArg List.length same
      simp only [List.length_cons, List.length_append] at lengths longer
      omega

/-- Leaving out a first part of the list leaves out nodes: a later head does not reach a
permutation of what the earlier head reaches.
-/
theorem Linked.perm_head {other : Nat} {nodes' : List Nat} (linked : Linked mem head nodes)
    (linkedToo : Linked mem other nodes') (perm : nodes'.Perm nodes)
    : other = head := by
  cases nodes' with
  | nil =>
      rw [List.nil_perm.mp perm] at linked
      exact linkedToo.trans linked.symm
  | cons node rest =>
      obtain ⟨rfl, _, _⟩ := id linkedToo
      have member : other ∈ nodes := perm.mem_iff.mp (by simp)
      obtain ⟨front, back, rfl, tail⟩ := linked.suffix member
      have lengths := perm.length_eq
      rw [linkedToo.unique tail] at lengths
      simp only [List.length_append] at lengths
      have empty : front = [] := List.length_eq_zero_iff.mp (by omega)
      subst empty
      exact linked.1.symm

/-! ### Lists whose nodes all satisfy a predicate -/

/-- The list at `head` is null-terminated and all its nodes satisfy `good`. -/
def LinkedIn (mem : Nat → Nat) (head : Nat) (good : Nat → Prop) : Prop :=
  ∃ nodes, Linked mem head nodes ∧ ∀ node ∈ nodes, good node

variable {good : Nat → Prop}

theorem LinkedIn.null : LinkedIn mem 0 good :=
  ⟨[], rfl, by simp⟩

/-- The list survives any change that spares its good nodes and keeps them good. -/
theorem LinkedIn.frame {next : Nat → Nat} {still : Nat → Prop} (linked : LinkedIn mem head good)
    (same : ∀ node, good node → next node = mem node ∧ still node)
    : LinkedIn next head still := by
  obtain ⟨nodes, list, all⟩ := linked
  refine ⟨nodes, list.frame (fun node member => (same node (all node member)).1), ?_⟩
  exact fun node member => (same node (all node member)).2

/-- The first node is good, and it does not occur again. -/
theorem LinkedIn.pop (linked : LinkedIn mem head good) (nonnull : head ≠ 0)
    : good head ∧ LinkedIn mem (mem head) (fun node => good node ∧ node ≠ head) := by
  obtain ⟨nodes, list, all⟩ := linked
  have distinct := list.nodup
  obtain ⟨rest, rfl, below⟩ := list.head_cons nonnull
  refine ⟨all head (by simp), rest, below, ?_⟩
  intro node member
  refine ⟨all node (by simp [member]), ?_⟩
  rintro rfl
  exact (List.nodup_cons.mp distinct).1 member

theorem LinkedIn.push {node : Nat} (linked : LinkedIn mem head good) (nonnull : node ≠ 0)
    (fresh : ¬ good node)
    : LinkedIn (Function.update mem node head) node (fun other => good other ∨ other = node) := by
  obtain ⟨nodes, list, all⟩ := linked
  refine ⟨node :: nodes, list.push nonnull (fun member => fresh (all node member)), ?_⟩
  intro other member
  rcases List.mem_cons.mp member with same | later
  · exact .inr same
  · exact .inl (all other later)

end IntrusiveList
