import Mathlib.Data.List.Nodup
import Mathlib.Logic.Function.Basic

/-! # Linked chains

Singly linked structures seen through the list of nodes they visit. A node is
an index, and a link is absent at the end of the chain.
-/

namespace FeederNet

/-- Following `next` from `start` visits exactly `nodes`, in order, and then
ends. -/
def Chain (next : α → Option α) : Option α → List α → Prop
  | start, [] => start = none
  | start, node :: rest => start = some node ∧ Chain next (next node) rest

namespace Chain

variable {next other : α → Option α}

@[simp] theorem nil_iff {start : Option α} : Chain next start [] ↔ start = none :=
  Iff.rfl

@[simp] theorem cons_iff {start : Option α} {node : α} {rest : List α} :
    Chain next start (node :: rest) ↔
      start = some node ∧ Chain next (next node) rest :=
  Iff.rfl

theorem unique {start : Option α} {left right : List α}
    (leftChain : Chain next start left) (rightChain : Chain next start right) :
    left = right := by
  induction left generalizing start right with
  | nil =>
      cases right with
      | nil => rfl
      | cons node rest =>
          have impossible := leftChain.symm.trans rightChain.1
          cases impossible
  | cons node rest induction =>
      cases right with
      | nil =>
          have impossible := rightChain.symm.trans leftChain.1
          cases impossible
      | cons head tail =>
          have same : node = head := by
            have starts := leftChain.1.symm.trans rightChain.1
            simpa using starts
          subst same
          rw [induction leftChain.2 rightChain.2]

theorem exists_start {start : Option α} {front back : List α} {node : α}
    (chain : Chain next start (front ++ node :: back)) : ∃ head, start = some head := by
  cases front with
  | nil => exact ⟨node, chain.1⟩
  | cons head front => exact ⟨head, chain.1⟩

theorem suffix {start : Option α} {front back : List α} {node : α}
    (chain : Chain next start (front ++ node :: back)) :
    Chain next (some node) (node :: back) := by
  induction front generalizing start with
  | nil => exact ⟨rfl, chain.2⟩
  | cons head tail induction => exact induction chain.2

/-- A chain that ends visits no node twice: a repeated node would have two
different continuations. -/
theorem nodup {start : Option α} {nodes : List α}
    (chain : Chain next start nodes) : nodes.Nodup := by
  induction nodes generalizing start with
  | nil => simp
  | cons node rest induction =>
      refine List.nodup_cons.mpr ⟨?_, induction chain.2⟩
      intro member
      rcases List.append_of_mem member with ⟨front, back, split⟩
      have again : Chain next (some node) (node :: back) := by
        rw [split] at chain
        exact suffix chain.2
      have whole : Chain next (some node) (node :: rest) :=
        cons_iff.mpr ⟨rfl, chain.2⟩
      have same := unique whole again
      have lengths := congrArg List.length same
      rw [split] at lengths
      simp at lengths
      omega

theorem congr {start : Option α} {nodes : List α}
    (chain : Chain next start nodes)
    (agree : ∀ node ∈ nodes, other node = next node) :
    Chain other start nodes := by
  induction nodes generalizing start with
  | nil => exact chain
  | cons node rest induction =>
      refine ⟨chain.1, ?_⟩
      rw [agree node (by simp)]
      exact induction chain.2 fun node member =>
        agree node (List.mem_cons_of_mem _ member)

/-- Giving a node another continuation, as long as the links that lead to it are left
alone. -/
theorem relink {start : Option α} {front back rest : List α} {node : α}
    (chain : Chain next start (front ++ node :: back))
    (agree : ∀ earlier ∈ front, other earlier = next earlier)
    (continued : Chain other (other node) rest) :
    Chain other start (front ++ node :: rest) := by
  induction front generalizing start with
  | nil => exact ⟨chain.1, continued⟩
  | cons head front induction =>
      refine ⟨chain.1, ?_⟩
      rw [agree head (List.mem_cons_self)]
      exact induction chain.2 fun earlier member =>
        agree earlier (List.mem_cons_of_mem _ member)

/-- Linking a node to the old start puts it in front, as long as the links
already followed are left alone. -/
theorem push {start : Option α} {nodes : List α} {node : α}
    (chain : Chain next start nodes) (linked : other node = start)
    (agree : ∀ visited ∈ nodes, other visited = next visited) :
    Chain other (some node) (node :: nodes) := by
  refine ⟨rfl, ?_⟩
  rw [linked]
  exact chain.congr agree

end Chain

end FeederNet
