import P2Party.Base.HashTree
import P2Party.Messages.MessageChunk

/-!
# What a Merkle proof proves

The trees of merkle.c are hash trees over the chunks, and the receiver's loop over the
artifacts is a climb. As long as SHA-512 has no collision among the inputs the two
computations hash, an accepted proof is one of a leaf of the tree, and the root
determines the leaves.

- `treeInputs`, `verifyInputs`: what the sender and the receiver hash;
- `merkleRootLoop_tree`: the root of a level is the root of a tree over it;
- `verifyLoop_climb`: the receiver's loop is a climb;
- `merkle_binding`: soundness of an accepted proof, and binding of the root.
-/

namespace P2Party

open Base

variable (L : LibCrypto)

/-- SHA-512 with the domains of leaves and nodes. -/
def sha512Hashing : Hashing Bytes Bytes Bytes where
  hash := L.sha512
  leafInput chunk := 0x00 :: chunk
  nodeInput left right := 0x01 :: (left ++ right)
  Digest digest := digest.length = HASH_BYTES
  digest_hash := L.length_sha512
  leafInput_injective _ _ h := (List.cons.inj h).2
  nodeInput_injective ha hc h := List.append_inj (List.cons.inj h).2 (ha.trans hc.symm)
  leafInput_ne_nodeInput _ _ _ h := absurd (List.cons.inj h).1 (by decide)

/-- The leaf hashes of chunks, packed as `getMerkleRoot` takes them. -/
def leafHashes (chunks : List Bytes) : Bytes := (chunks.map (hashMerkleLeaf L)).flatten

/-- What one level of `get_merkle_root` hashes. -/
def levelInputs : List Bytes → List Bytes
  | left :: right :: rest => (0x01 :: (left ++ right)) :: levelInputs rest
  | _ => []

/-- What the loop of `get_merkle_root` hashes. -/
def rootInputs : Nat → List Bytes → List Bytes
  | rounds + 1, a :: b :: rest =>
    levelInputs (a :: b :: rest) ++ rootInputs rounds (parentLevel L (a :: b :: rest))
  | _, _ => []

/-- What is hashed for the tree over chunks. -/
def treeInputs (chunks : List Bytes) : List Bytes :=
  chunks.map (0x00 :: ·) ++ rootInputs L chunks.length (chunks.map (hashMerkleLeaf L))

/-- What the loop of `verify_merkle_proof` hashes. -/
def verifyInputs : Nat → Bytes → Bytes → List Bytes
  | 0, _, _ => []
  | n + 1, element, proof =>
    let sibling := proof.take HASH_BYTES
    let position := proof.getD HASH_BYTES 0
    if position = 0 then
      (0x01 :: (sibling ++ element)) ::
        verifyInputs n (hashNode L sibling element) (proof.drop (HASH_BYTES + 1))
    else if position = 1 then
      (0x01 :: (element ++ sibling)) ::
        verifyInputs n (hashNode L element sibling) (proof.drop (HASH_BYTES + 1))
    else []

/-- What the receiver hashes for a decrypted chunk. -/
def receiveInputs (decrypted : Bytes) : List Bytes :=
  (0x00 :: decrypted.drop (METADATA_LEN + PROOF_LEN)) ::
    verifyInputs L (proofLength decrypted / (HASH_BYTES + 1)) (chunkLeaf L decrypted)
      (decrypted.drop (METADATA_LEN + 4))

/-- SHA-512 has no collision among the inputs. -/
def NoCollision (inputs : List Bytes) : Prop :=
  ∀ x ∈ inputs, ∀ y ∈ inputs, L.sha512 x = L.sha512 y → x = y

instance (inputs : List Bytes) : Decidable (NoCollision L inputs) := by
  unfold NoCollision
  infer_instance

/-! ## The tree -/

variable {L}

theorem NoCollision.injOn {inputs : List Bytes} (h : NoCollision L inputs) :
    Set.InjOn (sha512Hashing L).hash {x | x ∈ inputs} :=
  fun x hx y hy => h x hx y hy

theorem parentLevel_roots : ∀ ts : List (HashTree Bytes),
    parentLevel L (ts.map (HashTree.root (sha512Hashing L))) =
      (pairUp ts).map (HashTree.root (sha512Hashing L))
  | [] => rfl
  | [_] => rfl
  | left :: right :: rest => by
    simp only [List.map_cons, parentLevel, pairUp, parentLevel_roots rest]
    rfl

/-- The trees of a level hash what the trees below hash, and the pairs of the level. -/
theorem inputs_pairUp : ∀ (ts : List (HashTree Bytes)) (i : Bytes),
    i ∈ (pairUp ts).flatMap (HashTree.inputs (sha512Hashing L)) →
    i ∈ ts.flatMap (HashTree.inputs (sha512Hashing L)) ∨
      i ∈ levelInputs (ts.map (HashTree.root (sha512Hashing L)))
  | [], _, h => .inl h
  | [_], _, h => .inl h
  | left :: right :: rest, i, h => by
    simp only [pairUp, List.flatMap_cons, HashTree.inputs, List.mem_append, List.mem_cons] at h
    simp only [List.flatMap_cons, List.map_cons, levelInputs, List.mem_append, List.mem_cons]
    rcases h with (rfl | hleft | hright) | hrest
    · exact .inr (.inl rfl)
    · exact .inl (.inl hleft)
    · exact .inl (.inr (.inl hright))
    · rcases inputs_pairUp rest i hrest with hin | hlevel
      · exact .inl (.inr (.inr hin))
      · exact .inr (.inr hlevel)

/-- The root of a level is the root of a tree over its trees. -/
theorem merkleRootLoop_tree (rounds : Nat) (ts : List (HashTree Bytes)) (hne : ts ≠ [])
    (hrounds : ts.length ≤ rounds + 1) :
    ∃ t : HashTree Bytes,
      merkleRootLoop L rounds (ts.map (HashTree.root (sha512Hashing L))) = t.root (sha512Hashing L) ∧
      t.leaves = ts.flatMap HashTree.leaves ∧
      ∀ i ∈ t.inputs (sha512Hashing L), i ∈ ts.flatMap (HashTree.inputs (sha512Hashing L)) ∨
        i ∈ rootInputs L rounds (ts.map (HashTree.root (sha512Hashing L))) := by
  induction rounds generalizing ts with
  | zero =>
    match ts, hne, hrounds with
    | [t], _, _ => exact ⟨t, rfl, by simp, fun i hi => .inl (by simpa using hi)⟩
  | succ rounds ih =>
    match ts, hne, hrounds with
    | [t], _, _ => exact ⟨t, rfl, by simp, fun i hi => .inl (by simpa using hi)⟩
    | a :: b :: rest, _, hrounds =>
      have hlength := length_pairUp (a :: b :: rest)
      simp only [List.length_cons] at hlength hrounds
      obtain ⟨t, hroot, hleaves, hinputs⟩ := ih (pairUp (a :: b :: rest))
        (by intro h; rw [h] at hlength; simp at hlength; omega) (by omega)
      refine ⟨t, ?_, hleaves.trans (leaves_pairUp _), fun i hi => ?_⟩
      · rw [← hroot, ← parentLevel_roots]
        rfl
      · rw [List.map_cons, List.map_cons, rootInputs, List.mem_append]
        rcases hinputs i hi with hin | hrest
        · rcases inputs_pairUp _ i hin with hbelow | hlevel
          · exact .inl hbelow
          · exact .inr (.inl hlevel)
        · rw [← parentLevel_roots] at hrest
          exact .inr (.inr hrest)

theorem unpackHashes_flatten {hashes : List Bytes} (h : ∀ hash ∈ hashes, hash.length = HASH_BYTES) :
    unpackHashes hashes.length hashes.flatten = hashes := by
  induction hashes with
  | nil => rfl
  | cons hash rest ih =>
    have hhash : hash.length = HASH_BYTES := h hash List.mem_cons_self
    rw [List.length_cons, unpackHashes, List.flatten_cons, List.take_left' hhash,
      List.drop_left' hhash, ih fun b hb => h b (List.mem_cons_of_mem hash hb)]

theorem length_leafHashes (chunks : List Bytes) :
    (leafHashes L chunks).length = chunks.length * HASH_BYTES := by
  unfold leafHashes
  induction chunks with
  | nil => rfl
  | cons chunk chunks ih =>
    rw [List.map_cons, List.flatten_cons, List.length_append, ih, length_hashMerkleLeaf,
      List.length_cons, Nat.succ_mul, Nat.add_comm]

/-- The root of chunks is the root of a tree with the chunks as its leaves. -/
theorem getMerkleRoot_tree {chunks : List Bytes} {root : Bytes}
    (h : getMerkleRoot L (leafHashes L chunks) = .ok root) :
    ∃ t : HashTree Bytes, root = t.root (sha512Hashing L) ∧ t.leaves = chunks ∧
      ∀ i ∈ t.inputs (sha512Hashing L), i ∈ treeInputs L chunks := by
  have hlength := @length_leafHashes L chunks
  have hcount : (leafHashes L chunks).length / HASH_BYTES = chunks.length := by
    rw [hlength]
    exact Nat.mul_div_cancel _ (by decide)
  unfold getMerkleRoot at h
  obtain ⟨_, -, h⟩ := except_bind_eq_ok.mp h
  obtain ⟨_, hne, h⟩ := except_bind_eq_ok.mp h
  rw [demand_eq_ok, hcount] at hne
  rw [hcount] at h
  -- the leaves as trees of one leaf each
  have hroots : (chunks.map HashTree.leaf).map (HashTree.root (sha512Hashing L)) =
      chunks.map (hashMerkleLeaf L) := by
    rw [List.map_map]
    rfl
  have hleaves : (chunks.map HashTree.leaf).flatMap HashTree.leaves = chunks := by
    rw [List.flatMap_map]
    exact List.flatMap_singleton' chunks
  have hinputs : (chunks.map HashTree.leaf).flatMap (HashTree.inputs (sha512Hashing L)) =
      chunks.map (0x00 :: ·) := by
    rw [List.flatMap_map, List.map_eq_flatMap]
    rfl
  obtain ⟨t, hroot, htleaves, htinputs⟩ := @merkleRootLoop_tree L chunks.length
    (chunks.map HashTree.leaf) (by simpa using fun h => hne (by rw [h]; rfl)) (by simp)
  rw [hroots] at hroot htinputs
  rw [hinputs] at htinputs
  rw [hleaves] at htleaves
  refine ⟨t, ?_, htleaves, fun i hi => ?_⟩
  · rw [← hroot]
    split at h
    · -- one leaf is returned as it is, and the loop returns it too
      obtain ⟨chunk, rfl⟩ := List.length_eq_one_iff.mp ‹chunks.length = 1›
      rw [← Except.ok.inj h]
      show (hashMerkleLeaf L chunk ++ []) = hashMerkleLeaf L chunk
      rw [List.append_nil]
    · rw [← Except.ok.inj h, leafHashes]
      have hunpack := @unpackHashes_flatten (chunks.map (hashMerkleLeaf L)) fun hash hhash => by
        obtain ⟨chunk, -, rfl⟩ := List.mem_map.mp hhash
        exact length_hashMerkleLeaf chunk
      rw [List.length_map] at hunpack
      rw [hunpack]
  · unfold treeInputs
    exact List.mem_append.mpr (htinputs i hi)

/-! ## The receiver's climb -/

/-- The receiver's loop climbs along the artifacts. -/
theorem verifyLoop_climb (n : Nat) {element proof fold : Bytes}
    (hproof : n * (HASH_BYTES + 1) ≤ proof.length) (h : verifyLoop L n element proof = some fold) :
    ∃ path : List (Bytes × Bool), (∀ p ∈ path, (sha512Hashing L).Digest p.1) ∧
      climb (sha512Hashing L) path element = fold ∧
      climbInputs (sha512Hashing L) path element = verifyInputs L n element proof := by
  induction n generalizing element proof with
  | zero => exact ⟨[], nofun, Option.some.inj h, rfl⟩
  | succ n ih =>
    rw [Nat.succ_mul] at hproof
    have hsibling : (proof.take HASH_BYTES).length = HASH_BYTES := by
      rw [List.length_take]
      exact Nat.min_eq_left (by simp only [HASH_BYTES] at hproof ⊢; omega)
    have hrest : n * (HASH_BYTES + 1) ≤ (proof.drop (HASH_BYTES + 1)).length := by
      rw [List.length_drop]
      simp only [HASH_BYTES] at hproof ⊢
      omega
    rw [verifyLoop] at h
    rw [verifyInputs]
    by_cases hleft : proof.getD HASH_BYTES 0 = 0
    · rw [if_pos hleft] at h ⊢
      obtain ⟨path, hdigests, hclimb, hinputs⟩ := ih hrest h
      refine ⟨(proof.take HASH_BYTES, false) :: path, ?_, hclimb, ?_⟩
      · rintro p (_ | ⟨_, hp⟩)
        · exact hsibling
        · exact hdigests p hp
      · rw [← hinputs]
        rfl
    · rw [if_neg hleft] at h ⊢
      by_cases hright : proof.getD HASH_BYTES 0 = 1
      · rw [if_pos hright] at h ⊢
        obtain ⟨path, hdigests, hclimb, hinputs⟩ := ih hrest h
        refine ⟨(proof.take HASH_BYTES, true) :: path, ?_, hclimb, ?_⟩
        · rintro p (_ | ⟨_, hp⟩)
          · exact hsibling
          · exact hdigests p hp
        · rw [← hinputs]
          rfl
      · rw [if_neg hright] at h
        cases h

/-- An accepted proof climbs from the element to the root; the single-leaf case climbs
nowhere. -/
theorem verifyMerkleProof_climb {n : Nat} {element root proof : Bytes}
    (hproof : n * (HASH_BYTES + 1) ≤ proof.length)
    (h : verifyMerkleProof L n element root proof = 0) :
    ∃ path : List (Bytes × Bool), (∀ p ∈ path, (sha512Hashing L).Digest p.1) ∧
      climb (sha512Hashing L) path element = root ∧
      ∀ i ∈ climbInputs (sha512Hashing L) path element, i ∈ verifyInputs L n element proof := by
  unfold verifyMerkleProof at h
  split at h
  case isTrue hsingle => exact ⟨[], nofun, hsingle.2.symm, nofun⟩
  case isFalse =>
    split at h
    case h_1 => cases h
    case h_2 fold hfold =>
      split at h
      case isTrue heq =>
        obtain ⟨path, hdigests, hclimb, hinputs⟩ := verifyLoop_climb n hproof hfold
        exact ⟨path, hdigests, hclimb.trans heq, fun i hi => hinputs ▸ hi⟩
      case isFalse => cases h

/-! ## Soundness and binding -/

/-- For every list of chunks and its root: a decrypted chunk whose proof, of any admitted
length and with any bytes, is accepted against the root has its leaf among the leaves of the
list; and every list with this root has these leaves. -/
theorem merkle_binding {chunks : List Bytes} {root : Bytes}
    (hroot : getMerkleRoot L (leafHashes L chunks) = .ok root) :
    (∀ decrypted : Bytes, decrypted.length = DECRYPTED_LEN →
      proofLength decrypted % (HASH_BYTES + 1) = 0 → proofLength decrypted ≤ PROOF_LEN →
      NoCollision L (treeInputs L chunks ++ receiveInputs L decrypted) →
      verifyMerkleProof L (proofLength decrypted / (HASH_BYTES + 1)) (chunkLeaf L decrypted) root
        (decrypted.drop (METADATA_LEN + 4)) = 0 →
      chunkLeaf L decrypted ∈ chunks.map (hashMerkleLeaf L)) ∧
    (∀ chunks' : List Bytes, NoCollision L (treeInputs L chunks ++ treeInputs L chunks') →
      getMerkleRoot L (leafHashes L chunks') = .ok root →
      chunks'.map (hashMerkleLeaf L) = chunks.map (hashMerkleLeaf L)) := by
  obtain ⟨t, rfl, hleaves, hinputs⟩ := getMerkleRoot_tree hroot
  constructor
  · intro decrypted hlength hmod hfits hfree hverify
    have hroom : proofLength decrypted / (HASH_BYTES + 1) * (HASH_BYTES + 1) ≤
        (decrypted.drop (METADATA_LEN + 4)).length := by
      rw [List.length_drop, hlength]
      have hdiv := Nat.div_mul_le_self (proofLength decrypted) (HASH_BYTES + 1)
      exact Nat.le_trans hdiv (Nat.le_trans hfits (by decide))
    obtain ⟨path, hdigests, hclimb, hpath⟩ := verifyMerkleProof_climb hroom hverify
    have hmem : decrypted.drop (METADATA_LEN + PROOF_LEN) ∈ t.leaves := by
      refine HashTree.mem_leaves_of_climb hfree.injOn
        (fun i hi => List.mem_append_left _ (hinputs i hi)) ?_ hdigests ?_ hclimb
      · exact List.mem_append_right _ List.mem_cons_self
      · exact fun i hi => List.mem_append_right _ (List.mem_cons_of_mem _ (hpath i hi))
    rw [hleaves] at hmem
    exact List.mem_map.mpr ⟨_, hmem, rfl⟩
  · intro chunks' hfree hroot'
    obtain ⟨t', heq, hleaves', hinputs'⟩ := getMerkleRoot_tree hroot'
    have htree : t = t' := HashTree.eq_of_root_eq hfree.injOn
      (fun i hi => List.mem_append_left _ (hinputs i hi))
      (fun i hi => List.mem_append_right _ (hinputs' i hi)) heq
    rw [← hleaves, ← hleaves', htree]

/-- Two chunks, in the clear. -/
def sampleChunk (b : UInt8) : Bytes := List.replicate CHUNK_LEN b

/-- The first chunk, decrypted: no metadata, the second leaf on its right as proof. -/
def sampleDecrypted : Bytes :=
  List.replicate METADATA_LEN 0 ++ (beBytes 4 65 ++
    (artifact (hashMerkleLeaf LibCrypto.transparent (sampleChunk 8)) 1 ++
      (List.replicate 3055 0 ++ sampleChunk 7)))

theorem length_sampleDecrypted : sampleDecrypted.length = DECRYPTED_LEN := by
  unfold sampleDecrypted artifact sampleChunk
  simp only [List.length_append, List.length_replicate, length_beBytes, length_hashMerkleLeaf,
    List.length_singleton]
  rfl

theorem drop_sampleDecrypted :
    sampleDecrypted.drop (METADATA_LEN + PROOF_LEN) = sampleChunk 7 := by
  unfold sampleDecrypted
  rw [← List.append_assoc, ← List.append_assoc, ← List.append_assoc]
  refine List.drop_left' ?_
  simp only [artifact, List.length_append, List.length_replicate, length_beBytes,
    length_hashMerkleLeaf, List.length_singleton]
  rfl

/-- The three inputs of the two computations hash to three values. -/
theorem sample_noCollision : NoCollision LibCrypto.transparent
    (treeInputs LibCrypto.transparent [sampleChunk 7, sampleChunk 8] ++
      receiveInputs LibCrypto.transparent sampleDecrypted) := by
  have hverify : verifyInputs LibCrypto.transparent (proofLength sampleDecrypted / (HASH_BYTES + 1))
      (chunkLeaf LibCrypto.transparent sampleDecrypted) (sampleDecrypted.drop (METADATA_LEN + 4)) =
      [0x01 :: (hashMerkleLeaf LibCrypto.transparent (sampleChunk 7) ++
        hashMerkleLeaf LibCrypto.transparent (sampleChunk 8))] := by decide +kernel
  have h78 : LibCrypto.transparent.sha512 (0x00 :: sampleChunk 7) ≠
      LibCrypto.transparent.sha512 (0x00 :: sampleChunk 8) := by decide +kernel
  have hnode : ∀ chunk rest, LibCrypto.transparent.sha512 (0x00 :: chunk) ≠
      LibCrypto.transparent.sha512 (0x01 :: rest) := fun chunk rest h =>
    absurd (List.cons.inj h).1 (by decide)
  unfold receiveInputs
  rw [hverify, drop_sampleDecrypted]
  have hthree : ∀ x ∈ treeInputs LibCrypto.transparent [sampleChunk 7, sampleChunk 8] ++
      [0x00 :: sampleChunk 7, 0x01 :: (hashMerkleLeaf LibCrypto.transparent (sampleChunk 7) ++
        hashMerkleLeaf LibCrypto.transparent (sampleChunk 8))],
      x = 0x00 :: sampleChunk 7 ∨ x = 0x00 :: sampleChunk 8 ∨
        x = 0x01 :: (hashMerkleLeaf LibCrypto.transparent (sampleChunk 7) ++
          hashMerkleLeaf LibCrypto.transparent (sampleChunk 8)) := by
    intro x hx
    simp only [treeInputs, rootInputs, levelInputs, parentLevel, List.map_cons, List.map_nil,
      List.length_cons, List.length_nil, List.append_nil, List.mem_append, List.mem_cons,
      List.not_mem_nil, or_false] at hx
    rcases hx with ((hx | hx) | hx) | hx | hx
    · exact .inl hx
    · exact .inr (.inl hx)
    · exact .inr (.inr hx)
    · exact .inl hx
    · exact .inr (.inr hx)
  intro x hx y hy h
  rcases hthree x hx with rfl | rfl | rfl <;> rcases hthree y hy with rfl | rfl | rfl
  · rfl
  · exact absurd h h78
  · exact absurd h (hnode _ _)
  · exact absurd h.symm h78
  · rfl
  · exact absurd h (hnode _ _)
  · exact absurd h.symm (hnode _ _)
  · exact absurd h.symm (hnode _ _)
  · rfl

theorem merkle_binding_pair : ∃ root,
    getMerkleRoot LibCrypto.transparent (leafHashes LibCrypto.transparent [sampleChunk 7, sampleChunk 8]) =
      .ok root ∧
    verifyMerkleProof LibCrypto.transparent (proofLength sampleDecrypted / (HASH_BYTES + 1))
      (chunkLeaf LibCrypto.transparent sampleDecrypted) root (sampleDecrypted.drop (METADATA_LEN + 4)) = 0 ∧
    chunkLeaf LibCrypto.transparent sampleDecrypted ∈
      [sampleChunk 7, sampleChunk 8].map (hashMerkleLeaf LibCrypto.transparent) := by
  have hroot : getMerkleRoot LibCrypto.transparent
      (leafHashes LibCrypto.transparent [sampleChunk 7, sampleChunk 8]) =
      .ok (hashNode LibCrypto.transparent (hashMerkleLeaf LibCrypto.transparent (sampleChunk 7))
        (hashMerkleLeaf LibCrypto.transparent (sampleChunk 8))) := by decide +kernel
  have hverify : verifyMerkleProof LibCrypto.transparent (proofLength sampleDecrypted / (HASH_BYTES + 1))
      (chunkLeaf LibCrypto.transparent sampleDecrypted)
      (hashNode LibCrypto.transparent (hashMerkleLeaf LibCrypto.transparent (sampleChunk 7))
        (hashMerkleLeaf LibCrypto.transparent (sampleChunk 8)))
      (sampleDecrypted.drop (METADATA_LEN + 4)) = 0 := by decide +kernel
  exact ⟨_, hroot, hverify, (merkle_binding hroot).1 sampleDecrypted
    length_sampleDecrypted (by decide +kernel) (by decide +kernel)
    sample_noCollision hverify⟩

end P2Party
