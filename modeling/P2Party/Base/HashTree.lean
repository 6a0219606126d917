import Mathlib.Data.List.Basic
import Mathlib.Data.Set.Function
import Mathlib.Tactic.Common

/-!
# Hash trees

Trees over a hash function with two kinds of inputs, leaves and nodes. Nothing is assumed
of the hash beyond the inputs that are at hand: it has no collision among them. Then the
root determines the tree, and a path of siblings that climbs from a leaf input to the root
starts at a leaf of the tree, whoever chose the siblings.

- `Hashing`: the hash with its two kinds of inputs;
- `HashTree`, `HashTree.root`, `HashTree.inputs`, `HashTree.leaves`: the trees;
- `climb`, `climbInputs`: a path upwards;
- `HashTree.eq_of_root_eq`: the root determines the tree;
- `HashTree.mem_leaves_of_climb`: what a path proves;
- `pairUp`: one level of trees from the level below.
-/

namespace Base

variable {ι δ α : Type}

/-- A hash of inputs `ι` to digests in `δ`, with inputs for leaves and for pairs of digests. -/
structure Hashing (ι δ α : Type) where
  hash : ι → δ
  leafInput : α → ι
  nodeInput : δ → δ → ι
  /-- The values that are digests. -/
  Digest : δ → Prop
  digest_hash : ∀ i, Digest (hash i)
  leafInput_injective : Function.Injective leafInput
  nodeInput_injective : ∀ {a b c d}, Digest a → Digest c →
    nodeInput a b = nodeInput c d → a = c ∧ b = d
  leafInput_ne_nodeInput : ∀ a l r, leafInput a ≠ nodeInput l r

/-- A binary tree with data at its leaves. -/
inductive HashTree (α : Type)
  | leaf (a : α)
  | node (left right : HashTree α)

namespace HashTree

variable (H : Hashing ι δ α)

/-- The digest of a tree. -/
def root : HashTree α → δ
  | leaf a => H.hash (H.leafInput a)
  | node left right => H.hash (H.nodeInput left.root right.root)

/-- What is hashed for the digest of a tree. -/
def inputs : HashTree α → List ι
  | leaf a => [H.leafInput a]
  | node left right => H.nodeInput (left.root H) (right.root H) :: (left.inputs ++ right.inputs)

/-- The data of a tree, from left to right. -/
def leaves : HashTree α → List α
  | leaf a => [a]
  | node left right => left.leaves ++ right.leaves

theorem digest_root (t : HashTree α) : H.Digest (t.root H) := by
  cases t <;> exact H.digest_hash _

end HashTree

/-- Climb along siblings, each with the side it stands on: `true` on the right. -/
def climb (H : Hashing ι δ α) : List (δ × Bool) → δ → δ
  | [], digest => digest
  | (sibling, true) :: path, digest => climb H path (H.hash (H.nodeInput digest sibling))
  | (sibling, false) :: path, digest => climb H path (H.hash (H.nodeInput sibling digest))

/-- What is hashed on a climb. -/
def climbInputs (H : Hashing ι δ α) : List (δ × Bool) → δ → List ι
  | [], _ => []
  | (sibling, true) :: path, digest =>
    H.nodeInput digest sibling :: climbInputs H path (H.hash (H.nodeInput digest sibling))
  | (sibling, false) :: path, digest =>
    H.nodeInput sibling digest :: climbInputs H path (H.hash (H.nodeInput sibling digest))

section Free

variable {H : Hashing ι δ α} {S : Set ι}

namespace HashTree

theorem leafInput_mem {a : α} (h : ∀ i ∈ (leaf a).inputs H, i ∈ S) : H.leafInput a ∈ S :=
  h _ List.mem_cons_self

theorem nodeInput_mem {left right : HashTree α} (h : ∀ i ∈ (node left right).inputs H, i ∈ S) :
    H.nodeInput (left.root H) (right.root H) ∈ S :=
  h _ List.mem_cons_self

theorem inputs_left {left right : HashTree α} (h : ∀ i ∈ (node left right).inputs H, i ∈ S) :
    ∀ i ∈ left.inputs H, i ∈ S :=
  fun i hi => h i (List.mem_cons_of_mem _ (List.mem_append_left _ hi))

theorem inputs_right {left right : HashTree α} (h : ∀ i ∈ (node left right).inputs H, i ∈ S) :
    ∀ i ∈ right.inputs H, i ∈ S :=
  fun i hi => h i (List.mem_cons_of_mem _ (List.mem_append_right _ hi))

/-- A digest of a leaf is not one of a node. -/
theorem leaf_root_ne (hfree : Set.InjOn H.hash S) {a : α} {l r : δ} (ha : H.leafInput a ∈ S)
    (hlr : H.nodeInput l r ∈ S) : H.hash (H.leafInput a) ≠ H.hash (H.nodeInput l r) :=
  fun h => H.leafInput_ne_nodeInput a l r (hfree ha hlr h)

/-- Without collisions the root determines the tree. -/
theorem eq_of_root_eq (hfree : Set.InjOn H.hash S) {s t : HashTree α}
    (hs : ∀ i ∈ s.inputs H, i ∈ S) (ht : ∀ i ∈ t.inputs H, i ∈ S) (h : s.root H = t.root H) :
    s = t := by
  induction s generalizing t with
  | leaf a =>
    cases t with
    | leaf b =>
      have hinput := hfree (leafInput_mem hs) (leafInput_mem ht) h
      rw [H.leafInput_injective hinput]
    | node left right => exact absurd h (leaf_root_ne hfree (leafInput_mem hs) (nodeInput_mem ht))
  | node left right ihl ihr =>
    cases t with
    | leaf b => exact absurd h.symm (leaf_root_ne hfree (leafInput_mem ht) (nodeInput_mem hs))
    | node left' right' =>
      obtain ⟨hl, hr⟩ := H.nodeInput_injective (digest_root H left) (digest_root H left')
        (hfree (nodeInput_mem hs) (nodeInput_mem ht) h)
      rw [ihl (inputs_left hs) (inputs_left ht) hl, ihr (inputs_right hs) (inputs_right ht) hr]

/-- A subtree, with the way from it up to the tree it is part of. -/
inductive Within : HashTree α → HashTree α → Prop
  | self (t : HashTree α) : Within t t
  | left {s l : HashTree α} (r : HashTree α) (h : Within s l) : Within s (node l r)
  | right {s r : HashTree α} (l : HashTree α) (h : Within s r) : Within s (node l r)

theorem Within.leaves {s t : HashTree α} (h : Within s t) : ∀ a ∈ s.leaves, a ∈ t.leaves := by
  induction h with
  | self => exact fun _ ha => ha
  | left r _ ih => exact fun a ha => List.mem_append_left _ (ih a ha)
  | right l _ ih => exact fun a ha => List.mem_append_right _ (ih a ha)

theorem Within.inputs {s t : HashTree α} (h : Within s t) (ht : ∀ i ∈ t.inputs H, i ∈ S) :
    ∀ i ∈ s.inputs H, i ∈ S := by
  induction h with
  | self => exact ht
  | left r _ ih => exact ih (inputs_left ht)
  | right l _ ih => exact ih (inputs_right ht)

theorem Within.trans {r s t : HashTree α} (hrs : Within r s) (hst : Within s t) : Within r t := by
  induction hst with
  | self => exact hrs
  | left r' _ ih => exact .left r' ih
  | right l _ ih => exact .right l ih

/-- A climb that reaches the root of a tree starts at the root of a subtree. -/
theorem within_of_climb (hfree : Set.InjOn H.hash S) {t : HashTree α}
    (ht : ∀ i ∈ t.inputs H, i ∈ S) (path : List (δ × Bool)) {digest : δ}
    (hdigest : H.Digest digest) (hpathDigests : ∀ p ∈ path, H.Digest p.1)
    (hpath : ∀ i ∈ climbInputs H path digest, i ∈ S) (h : climb H path digest = t.root H) :
    ∃ s, Within s t ∧ s.root H = digest := by
  induction path generalizing digest with
  | nil => exact ⟨t, .self t, h.symm⟩
  | cons step path ih =>
    -- the rest of the climb starts at a subtree; that one is a node, and the digest is a child's
    obtain ⟨sibling, side⟩ := step
    have hsibling : H.Digest sibling := hpathDigests _ List.mem_cons_self
    have hrest := fun p hp => hpathDigests p (List.mem_cons_of_mem _ hp)
    cases side with
    | true =>
      obtain ⟨s, hwithin, hroot⟩ := ih (H.digest_hash _) hrest
        (fun i hi => hpath i (List.mem_cons_of_mem _ hi)) h
      have hinput := hpath _ List.mem_cons_self
      have hs := hwithin.inputs ht
      cases s with
      | leaf a => exact absurd hroot (leaf_root_ne hfree (leafInput_mem hs) hinput)
      | node left right =>
        have hchildren := H.nodeInput_injective (digest_root H left) hdigest
          (hfree (nodeInput_mem hs) hinput hroot)
        exact ⟨left, Within.trans (.left right (.self left)) hwithin, hchildren.1⟩
    | false =>
      obtain ⟨s, hwithin, hroot⟩ := ih (H.digest_hash _) hrest
        (fun i hi => hpath i (List.mem_cons_of_mem _ hi)) h
      have hinput := hpath _ List.mem_cons_self
      have hs := hwithin.inputs ht
      cases s with
      | leaf a => exact absurd hroot (leaf_root_ne hfree (leafInput_mem hs) hinput)
      | node left right =>
        have hchildren := H.nodeInput_injective (digest_root H left) hsibling
          (hfree (nodeInput_mem hs) hinput hroot)
        exact ⟨right, Within.trans (.right left (.self right)) hwithin, hchildren.2⟩

/-- Without collisions, a climb from a leaf input to the root starts at a leaf of the tree. -/
theorem mem_leaves_of_climb (hfree : Set.InjOn H.hash S) {t : HashTree α}
    (ht : ∀ i ∈ t.inputs H, i ∈ S) {path : List (δ × Bool)} {a : α} (ha : H.leafInput a ∈ S)
    (hpathDigests : ∀ p ∈ path, H.Digest p.1)
    (hpath : ∀ i ∈ climbInputs H path (H.hash (H.leafInput a)), i ∈ S)
    (h : climb H path (H.hash (H.leafInput a)) = t.root H) : a ∈ t.leaves := by
  obtain ⟨s, hwithin, hroot⟩ :=
    within_of_climb hfree ht path (H.digest_hash _) hpathDigests hpath h
  have hleaf : ∀ i ∈ (leaf a).inputs H, i ∈ S := fun i hi => by
    rw [List.mem_singleton.mp hi]
    exact ha
  rw [eq_of_root_eq hfree (hwithin.inputs ht) hleaf hroot] at hwithin
  exact hwithin.leaves a List.mem_cons_self

end HashTree

end Free

/-! ## Levels -/

/-- The level above a level of trees: neighbours are paired, a lone last tree is kept. -/
def pairUp : List (HashTree α) → List (HashTree α)
  | left :: right :: rest => .node left right :: pairUp rest
  | lone => lone

theorem length_pairUp : ∀ level : List (HashTree α), (pairUp level).length = (level.length + 1) / 2
  | [] => by simp [pairUp]
  | [_] => by simp [pairUp]
  | _ :: _ :: rest => by
    simp only [pairUp, List.length_cons, length_pairUp rest]
    omega

theorem leaves_pairUp : ∀ level : List (HashTree α),
    (pairUp level).flatMap HashTree.leaves = level.flatMap HashTree.leaves
  | [] => rfl
  | [_] => rfl
  | left :: right :: rest => by
    simp only [pairUp, List.flatMap_cons, leaves_pairUp rest, HashTree.leaves, List.append_assoc]

end Base
