import P2Party.Base.Codec
import P2Party.Base.Exec
import P2Party.Cryptography.LibCrypto

/-!
# Merkle trees over message chunks (`cryptography/merkle.ts`, `cryptography/merkle.c`)

Leaves are hashed under the domain byte `0x00`, inner nodes under `0x01`, and a
lone node of an odd level is promoted unchanged. The C functions rebuild a level
in place: the parent of the nodes at `2j` and `2j + 1` goes to `j`, after both
have been read, so a level here is a list and its parents are the next list.

- `getMerkleRoot`, `getMerkleProof`: the sender's side;
- `verifyMerkleProof`: the receiver's side, with the C return codes;
- `getMerkleRoot_single`, `getMerkleProof_single`, `verifyMerkleProof_single`: the
  tree with one leaf.
-/

namespace P2Party

open Base

/-- `crypto_hash_sha512_BYTES`. -/
abbrev HASH_BYTES : Nat := 64

/-- Bytes drawn by `crypto.getRandomValues` on a buffer of `n` bytes. -/
abbrev RandomBytes (n : Nat) := { bytes : Bytes // bytes.length = n }

instance (n : Nat) : Inhabited (RandomBytes n) := ⟨⟨List.replicate n 0, List.length_replicate⟩⟩

variable (L : LibCrypto)

/-- `hashMerkleLeafWasm` (leafHash.ts:24-56). -/
def hashMerkleLeaf (chunk : Bytes) : Bytes := L.sha512 (0x00 :: chunk)

/-- `hash_node` (merkle.c:11-22). -/
def hashNode (left right : Bytes) : Bytes := L.sha512 (0x01 :: (left ++ right))

/-- The hashes packed in a byte string. -/
def unpackHashes : Nat → Bytes → List Bytes
  | 0, _ => []
  | n + 1, bs => bs.take HASH_BYTES :: unpackHashes n (bs.drop HASH_BYTES)

/-- One level of `get_merkle_root` (merkle.c:40-57): the parents of a level. -/
def parentLevel : List Bytes → List Bytes
  | left :: right :: rest => hashNode L left right :: parentLevel rest
  | lone => lone

/-- The loop of `get_merkle_root` (merkle.c:34-60), with as many rounds as it can need. -/
def merkleRootLoop : Nat → List Bytes → Bytes
  | rounds + 1, a :: b :: rest => merkleRootLoop rounds (parentLevel L (a :: b :: rest))
  | _, level => level.headD []

/-- `getMerkleRoot` (merkle.ts:18-85). -/
def getMerkleRoot (treeHashes : Bytes) : Except JsError Bytes := do
  demand (treeHashes.length % HASH_BYTES = 0) (.error "Hashes were not passed")
  let treeLen := treeHashes.length / HASH_BYTES
  demand (treeLen ≠ 0) (.error "Cannot calculate Merkle root of tree with no leaves.")
  if treeLen = 1 then return treeHashes
  else return merkleRootLoop L treeLen (unpackHashes treeLen treeHashes)

/-- A sibling and the byte that says on which side it stands. -/
def artifact (sibling : Bytes) (position : UInt8) : Bytes := sibling ++ [position]

/-- The artifact a level contributes for the node at `index` (merkle.c:96-129). -/
def levelArtifact (level : List Bytes) (index : Nat) : Bytes :=
  if index % 2 = 1 then artifact (level.getD (index - 1) []) 0
  else
    match level[index + 1]? with
    | some right => artifact right 1
    | none => []

/-- The loop of `get_merkle_proof` (merkle.c:90-143). -/
def merkleProofLoop : Nat → List Bytes → Nat → Bytes
  | rounds + 1, a :: b :: rest, index =>
    levelArtifact (a :: b :: rest) index ++
      merkleProofLoop rounds (parentLevel L (a :: b :: rest)) (index / 2)
  | _, _, _ => []

/-- A proof behind its length in a buffer of random bytes (merkle.ts:121-141, 207-224). -/
def fixedProof {n : Nat} (proof : Bytes) (padding : RandomBytes n) : Bytes :=
  beBytes 4 proof.length ++ (proof ++ padding.val.drop (4 + proof.length))

/-- `getMerkleProof` (merkle.ts:101-245) with the fixed length of its padding. -/
def getMerkleProof {n : Nat} (treeHashes elementHash : Bytes) (padding : RandomBytes n) :
    Except JsError Bytes := do
  demand (treeHashes.length % HASH_BYTES = 0) (.error "Hashes were not passed")
  let treeLen := treeHashes.length / HASH_BYTES
  demand (treeLen ≠ 0) (.error "Cannot calculate Merkle proof of element of empty tree.")
  if treeLen = 1 then
    let proof := artifact elementHash 0
    demand (4 + proof.length ≤ n) (.rangeError "offset is out of bounds")
    return fixedProof proof padding
  else
    let level := unpackHashes treeLen treeHashes
    match level.findIdx? (· == elementHash) with
    | none => .error (.error "Element not in tree.")
    | some index =>
      let proof := merkleProofLoop L treeLen level index
      demand (0 < proof.length) (.error "An unexpected error occured")
      if proof.length ≤ n then
        demand (4 + proof.length ≤ n) (.rangeError "offset is out of bounds")
        return fixedProof proof padding
      else return proof

/-- The loop of `verify_merkle_proof` (merkle.c:211-231): fold the artifacts into
the element's hash, or stop at a position that is neither left nor right. -/
def verifyLoop : Nat → Bytes → Bytes → Option Bytes
  | 0, element, _ => some element
  | n + 1, element, proof =>
    let sibling := proof.take HASH_BYTES
    let position := proof.getD HASH_BYTES 0
    if position = 0 then verifyLoop n (hashNode L sibling element) (proof.drop (HASH_BYTES + 1))
    else if position = 1 then verifyLoop n (hashNode L element sibling) (proof.drop (HASH_BYTES + 1))
    else none

/-- `verify_merkle_proof` (merkle.c:195-239). -/
def verifyMerkleProof (artifacts : Nat) (elementHash root proof : Bytes) : Int :=
  if artifacts = 1 ∧ root = elementHash then 0
  else
    match verifyLoop L artifacts elementHash proof with
    | none => -3
    | some fold => if fold = root then 0 else 1

/-! ## The tree with one leaf -/

variable {L} {leaf : Bytes}

@[simp] theorem length_hashMerkleLeaf (chunk : Bytes) :
    (hashMerkleLeaf L chunk).length = HASH_BYTES := L.length_sha512 _

theorem getMerkleRoot_single (h : leaf.length = HASH_BYTES) : getMerkleRoot L leaf = .ok leaf := by
  unfold getMerkleRoot
  rw [h]
  rfl

theorem getMerkleProof_single {n : Nat} {elementHash : Bytes} (h : leaf.length = HASH_BYTES)
    (helement : elementHash.length = HASH_BYTES) (hn : 69 ≤ n) (padding : RandomBytes n) :
    getMerkleProof L leaf elementHash padding =
      .ok (fixedProof (artifact elementHash 0) padding) := by
  have hlen : 4 + (artifact elementHash 0).length ≤ n := by
    simp only [artifact, List.length_append, helement, List.length_singleton]
    exact hn
  unfold getMerkleProof
  rw [h]
  show (do demand _ _; _) = _
  simp only [demand_of hlen, ok_bind]
  rfl

theorem length_fixedProof {n : Nat} {proof : Bytes} {padding : RandomBytes n}
    (h : 4 + proof.length ≤ n) : (fixedProof proof padding).length = n := by
  simp only [fixedProof, List.length_append, length_beBytes, List.length_drop, padding.property]
  omega

/-- The one leaf is its own root. -/
theorem verifyMerkleProof_single (proof : Bytes) : verifyMerkleProof L 1 leaf leaf proof = 0 :=
  if_pos ⟨rfl, rfl⟩

end P2Party
