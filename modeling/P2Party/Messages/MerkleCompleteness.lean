import Mathlib.Logic.Function.Basic
import P2Party.Messages.MerkleBinding

/-!
# Every Merkle proof is accepted

The C functions rebuild a level in the buffer that holds it, and `get_merkle_proof` moves the
index of its element while the level is half rebuilt. Written as they stand, with slots that
are overwritten one by one, they compute the levels of `Merkle.lean`. The artifacts then lead
the receiver's loop from every leaf to the root, through promoted nodes and past duplicates,
and as many leaves as 48 artifacts can place fit the fixed length.

- `rootRound`, `proofRound`, `getMerkleRootInPlace`, `getMerkleProofInPlace`: the loops of
  merkle.c over slots;
- `foldl_proofRound`: what a level leaves behind, by induction over its rounds;
- `getMerkleRootInPlace_eq`, `getMerkleProofInPlace_eq`: they compute the loops over lists;
- `verifyLoop_proof`: the artifacts of a leaf fold to the root;
- `merkle_completeness`: every proof is accepted.
-/

namespace P2Party

open Base

variable (L : LibCrypto)

/-! ## The loops over slots -/

/-- The hashes at the slots `0 .. n - 1`. -/
def levelOf (slots : Nat → Bytes) (n : Nat) : List Bytes := (List.range n).map slots

/-- The inner loop of `get_merkle_root` at `j`, with `i = 2 * j` (merkle.c:40-57). -/
def rootRound (leaves : Nat) (slots : Nat → Bytes) (j : Nat) : Nat → Bytes :=
  let i := 2 * j
  if leaves % 2 ≠ 0 ∧ i + 1 = leaves then Function.update slots j (slots i)
  else Function.update slots j (hashNode L (slots i) (slots (i + 1)))

/-- `get_merkle_root` (merkle.c:24-63) over slots, with as many rounds as it can need. -/
def rootWhile : Nat → Nat → (Nat → Bytes) → Nat → Bytes
  | rounds + 1, leaves, slots =>
    if 1 < leaves then
      rootWhile rounds ((leaves + 1) / 2) ((List.range ((leaves + 1) / 2)).foldl (rootRound L leaves) slots)
    else slots
  | 0, _, slots => slots

/-- What `get_merkle_proof` changes: the slots, the index of its element and the proof. -/
structure ProofState where
  slots : Nat → Bytes
  elementOfInterest : Nat
  proof : Bytes

/-- The artifact of a pair, when the element is one of the two (merkle.c:107-131). -/
def proofArtifact (s : ProofState) (j : Nat) : ProofState :=
  let i := 2 * j
  if i = s.elementOfInterest then
    { s with proof := s.proof ++ artifact (s.slots (i + 1)) 1, elementOfInterest := j }
  else if i + 1 = s.elementOfInterest then
    { s with proof := s.proof ++ artifact (s.slots i) 0, elementOfInterest := j }
  else s

/-- The inner loop of `get_merkle_proof` at `j`, with `i = 2 * j` (merkle.c:94-138). -/
def proofRound (leaves : Nat) (s : ProofState) (j : Nat) : ProofState :=
  let i := 2 * j
  if leaves % 2 ≠ 0 ∧ i + 1 = leaves then
    -- a lone node: promoted, and no artifact
    { s with
      elementOfInterest := if i = s.elementOfInterest then j else s.elementOfInterest
      slots := Function.update s.slots j (s.slots i) }
  else
    { proofArtifact s j with
      slots := Function.update s.slots j (hashNode L (s.slots i) (s.slots (i + 1))) }

/-- The outer loop of `get_merkle_proof` (merkle.c:90-143). -/
def proofWhile : Nat → Nat → ProofState → ProofState
  | rounds + 1, leaves, s =>
    if 1 < leaves then
      proofWhile rounds ((leaves + 1) / 2) ((List.range ((leaves + 1) / 2)).foldl (proofRound L leaves) s)
    else s
  | 0, _, s => s

/-- The buffer that `leavesHashed.set(treeHashes)` fills. -/
def slotsOf (leaves : List Bytes) : Nat → Bytes := fun k => leaves.getD k []

/-- `get_merkle_root` on a buffer of hashes. -/
def getMerkleRootInPlace (leaves : List Bytes) : Bytes :=
  rootWhile L leaves.length leaves.length (slotsOf leaves) 0

/-- `get_merkle_proof` on a buffer of hashes, for the element found at an index. -/
def getMerkleProofInPlace (leaves : List Bytes) (index : Nat) : Bytes :=
  (proofWhile L leaves.length leaves.length ⟨slotsOf leaves, index, []⟩).proof

/-! ## One level -/

variable {L}

theorem length_parentLevel : ∀ level : List Bytes,
    (parentLevel L level).length = (level.length + 1) / 2
  | [] => by simp [parentLevel]
  | [_] => by simp [parentLevel]
  | _ :: _ :: rest => by
    rw [parentLevel, List.length_cons, length_parentLevel rest, List.length_cons, List.length_cons]
    omega

/-- The node above the slots `2 * k` and `2 * k + 1`. -/
def parentAt (L : LibCrypto) (leaves : Nat) (slots : Nat → Bytes) (k : Nat) : Bytes :=
  if 2 * k + 1 < leaves then hashNode L (slots (2 * k)) (slots (2 * k + 1)) else slots (2 * k)

theorem parentLevel_levelOf (slots : Nat → Bytes) (n : Nat) :
    parentLevel L (levelOf slots n) = levelOf (parentAt L n slots) ((n + 1) / 2) := by
  induction n using Nat.strongRecOn generalizing slots with
  | ind n ih =>
    match n with
    | 0 => rfl
    | 1 => rfl
    | n + 2 =>
      -- the first two slots make a pair; the rest is the level of the slots behind them
      have hlevel : levelOf slots (n + 2) = slots 0 :: slots 1 :: levelOf (fun k => slots (k + 2)) n := by
        unfold levelOf
        rw [List.range_succ_eq_map, List.range_succ_eq_map]
        simp only [List.map_cons, List.map_map]
        rfl
      have hhalf : (n + 2 + 1) / 2 = (n + 1) / 2 + 1 := by omega
      rw [hlevel, parentLevel, ih n (by omega), hhalf]
      unfold levelOf
      rw [List.range_succ_eq_map, List.map_cons, List.map_map]
      congr 1
      refine List.map_congr_left fun k _ => ?_
      show parentAt L n (fun k => slots (k + 2)) k = parentAt L (n + 2) slots (k + 1)
      unfold parentAt
      have hpair : 2 * k + 1 < n ↔ 2 * (k + 1) + 1 < n + 2 := by omega
      by_cases h : 2 * k + 1 < n
      · rw [if_pos h, if_pos (hpair.mp h)]
        rfl
      · rw [if_neg h, if_neg (mt hpair.mpr h)]
        rfl

/-- The slots when the rounds before `j` are done. -/
def rebuilt (L : LibCrypto) (leaves : Nat) (slots : Nat → Bytes) (j : Nat) : Nat → Bytes :=
  fun k => if k < j then parentAt L leaves slots k else slots k

theorem rebuilt_of_le {leaves : Nat} {slots : Nat → Bytes} {j k : Nat} (h : j ≤ k) :
    rebuilt L leaves slots j k = slots k :=
  if_neg (Nat.not_lt.mpr h)

theorem update_rebuilt (leaves : Nat) (slots : Nat → Bytes) (j : Nat) :
    Function.update (rebuilt L leaves slots j) j (parentAt L leaves slots j) =
      rebuilt L leaves slots (j + 1) := by
  funext k
  by_cases hk : k = j
  · subst hk
    rw [Function.update_self]
    exact (if_pos (Nat.lt_succ_self k)).symm
  · rw [Function.update_of_ne hk]
    have hlt : k < j ↔ k < j + 1 := by omega
    exact if_congr hlt rfl rfl

/-- A round reads slots that no round before it has written. -/
theorem rootRound_rebuilt {leaves : Nat} (slots : Nat → Bytes) {j : Nat} (hj : j < (leaves + 1) / 2) :
    rootRound L leaves (rebuilt L leaves slots j) j = rebuilt L leaves slots (j + 1) := by
  rw [← update_rebuilt]
  unfold rootRound parentAt
  dsimp only
  rw [rebuilt_of_le (show j ≤ 2 * j by omega), rebuilt_of_le (show j ≤ 2 * j + 1 by omega)]
  by_cases hlone : leaves % 2 ≠ 0 ∧ 2 * j + 1 = leaves
  · rw [if_pos hlone, if_neg (Nat.not_lt.mpr (Nat.le_of_eq hlone.2.symm))]
  · rw [if_neg hlone, if_pos (show 2 * j + 1 < leaves by omega)]

theorem foldl_rootRound {leaves : Nat} (slots : Nat → Bytes) {j : Nat} (hj : j ≤ (leaves + 1) / 2) :
    (List.range j).foldl (rootRound L leaves) slots = rebuilt L leaves slots j := by
  induction j with
  | zero => exact (funext fun k => rebuilt_of_le (Nat.zero_le k)).symm
  | succ j ih =>
    rw [List.range_succ, List.foldl_append, ih (by omega), List.foldl_cons, List.foldl_nil]
    exact rootRound_rebuilt slots hj

/-- The level that the rounds leave behind. -/
theorem levelOf_rebuilt (leaves : Nat) (slots : Nat → Bytes) :
    levelOf (rebuilt L leaves slots ((leaves + 1) / 2)) ((leaves + 1) / 2) =
      parentLevel L (levelOf slots leaves) := by
  rw [parentLevel_levelOf]
  unfold levelOf
  refine List.map_congr_left fun k hk => ?_
  exact if_pos (List.mem_range.mp hk)

/-! ## The index and the artifact of a level -/

theorem proofRound_slots (leaves : Nat) (s : ProofState) (j : Nat) :
    (proofRound L leaves s j).slots = rootRound L leaves s.slots j := by
  unfold proofRound rootRound
  dsimp only
  split <;> rfl

/-- The artifact of the slots' level. -/
theorem levelArtifact_levelOf (slots : Nat → Bytes) {leaves e : Nat} (he : e < leaves) :
    levelArtifact (levelOf slots leaves) e =
      if e % 2 = 1 then artifact (slots (e - 1)) 0
      else if e + 1 < leaves then artifact (slots (e + 1)) 1
      else [] := by
  have hget : ∀ k, (levelOf slots leaves)[k]? = if k < leaves then some (slots k) else none := by
    intro k
    unfold levelOf
    rw [List.getElem?_map]
    by_cases hk : k < leaves
    · rw [if_pos hk, List.getElem?_range hk]
      rfl
    · rw [if_neg hk, List.getElem?_eq_none (by rw [List.length_range]; omega)]
      rfl
  unfold levelArtifact
  by_cases hodd : e % 2 = 1
  · rw [if_pos hodd, if_pos hodd, List.getD_eq_getElem?_getD, hget, if_pos (by omega)]
    rfl
  · rw [if_neg hodd, if_neg hodd, hget]
    by_cases hlast : e + 1 < leaves
    · rw [if_pos hlast, if_pos hlast]
    · rw [if_neg hlast, if_neg hlast]

/-- A round of a pair without the element keeps the index and the proof. -/
theorem proofRound_away {leaves : Nat} {s : ProofState} {j : Nat} (hleft : 2 * j ≠ s.elementOfInterest)
    (hright : 2 * j + 1 ≠ s.elementOfInterest) :
    (proofRound L leaves s j).elementOfInterest = s.elementOfInterest ∧
      (proofRound L leaves s j).proof = s.proof := by
  unfold proofRound proofArtifact
  dsimp only
  rw [if_neg hleft, if_neg hleft, if_neg hright]
  split <;> exact ⟨rfl, rfl⟩

/-- The index and the proof when the rounds before `j` are done, for an element that was at
`e`: its round is `e / 2`, and no later round meets the index it leaves. -/
structure Climbed (L : LibCrypto) (leaves : Nat) (slots₀ : Nat → Bytes) (e : Nat) (proof₀ : Bytes)
    (j : Nat) (s : ProofState) : Prop where
  slots : s.slots = rebuilt L leaves slots₀ j
  element : s.elementOfInterest = if e / 2 < j then e / 2 else e
  proof : s.proof = if e / 2 < j then proof₀ ++ levelArtifact (levelOf slots₀ leaves) e else proof₀

section Rounds

variable {leaves e j : Nat} {slots : Nat → Bytes} {proof : Bytes} {s : ProofState}

/-- The round of the element. -/
theorem Climbed.meet (h : Climbed L leaves slots e proof j s) (he : e < leaves) (hj : e / 2 = j) :
    (proofRound L leaves s j).elementOfInterest = j ∧
      (proofRound L leaves s j).proof = proof ++ levelArtifact (levelOf slots leaves) e := by
  have hnot : ¬ e / 2 < j := by omega
  have helement : s.elementOfInterest = e := by rw [h.element, if_neg hnot]
  have hproof : s.proof = proof := by rw [h.proof, if_neg hnot]
  have hread : ∀ k, j ≤ k → s.slots k = slots k := by
    intro k hk
    rw [h.slots]
    exact rebuilt_of_le hk
  rw [levelArtifact_levelOf slots he]
  unfold proofRound proofArtifact
  dsimp only
  rw [helement, hproof, hread (2 * j) (by omega), hread (2 * j + 1) (by omega)]
  by_cases hodd : e % 2 = 1
  · -- the element is the right one of a pair
    have hleft : 2 * j ≠ e := by omega
    have hlone : ¬ (leaves % 2 ≠ 0 ∧ 2 * j + 1 = leaves) := by omega
    have hright : 2 * j + 1 = e := by omega
    rw [if_neg hlone, if_neg hleft, if_pos hright, if_pos hodd]
    refine ⟨rfl, ?_⟩
    rw [show e - 1 = 2 * j by omega]
  · have hleft : 2 * j = e := by omega
    rw [if_pos hleft, if_pos hleft, if_neg hodd]
    by_cases hlone : leaves % 2 ≠ 0 ∧ 2 * j + 1 = leaves
    · rw [if_pos hlone, if_neg (show ¬ e + 1 < leaves by omega), List.append_nil]
      exact ⟨rfl, rfl⟩
    · rw [if_neg hlone, if_pos (show e + 1 < leaves by omega), ← hleft]
      exact ⟨rfl, rfl⟩

theorem Climbed.round (h : Climbed L leaves slots e proof j s) (he : e < leaves)
    (hj : j < (leaves + 1) / 2) :
    Climbed L leaves slots e proof (j + 1) (proofRound L leaves s j) := by
  have hslots : (proofRound L leaves s j).slots = rebuilt L leaves slots (j + 1) := by
    rw [proofRound_slots, h.slots]
    exact rootRound_rebuilt slots hj
  have helement := h.element
  have hproof := h.proof
  rcases Nat.lt_trichotomy (e / 2) j with hpast | hnow | hahead
  · -- the element has been met: the index it left is too small for this round
    rw [if_pos hpast] at helement hproof
    have haway := @proofRound_away L leaves s j (by omega) (by omega)
    have hthen : e / 2 < j + 1 := by omega
    refine ⟨hslots, ?_, ?_⟩
    · rw [if_pos hthen, haway.1, helement]
    · rw [if_pos hthen, haway.2, hproof]
  · have hmeet := h.meet he hnow
    have hthen : e / 2 < j + 1 := by omega
    refine ⟨hslots, ?_, ?_⟩
    · rw [if_pos hthen, hmeet.1, hnow]
    · rw [if_pos hthen, hmeet.2]
  · have hnot : ¬ e / 2 < j := by omega
    rw [if_neg hnot] at helement hproof
    have haway := @proofRound_away L leaves s j (by omega) (by omega)
    have hstill : ¬ e / 2 < j + 1 := by omega
    refine ⟨hslots, ?_, ?_⟩
    · rw [if_neg hstill, haway.1, helement]
    · rw [if_neg hstill, haway.2, hproof]

/-- What a level leaves behind. -/
theorem foldl_proofRound (he : e < leaves) (hj : j ≤ (leaves + 1) / 2) :
    Climbed L leaves slots e proof j ((List.range j).foldl (proofRound L leaves) ⟨slots, e, proof⟩) := by
  induction j with
  | zero =>
    refine ⟨?_, ?_, ?_⟩
    · exact (funext fun k => rebuilt_of_le (Nat.zero_le k)).symm
    · exact (if_neg (Nat.not_lt_zero _)).symm
    · exact (if_neg (Nat.not_lt_zero _)).symm
  | succ j ih =>
    rw [List.range_succ, List.foldl_append, List.foldl_cons, List.foldl_nil]
    exact (ih (by omega)).round he hj

end Rounds

/-! ## The loops over lists -/

theorem levelOf_two (slots : Nat → Bytes) {n : Nat} (h : 1 < n) :
    ∃ rest, levelOf slots n = slots 0 :: slots 1 :: rest := by
  obtain ⟨n, rfl⟩ := Nat.exists_eq_add_of_le' h
  refine ⟨levelOf (fun k => slots (k + 2)) n, ?_⟩
  unfold levelOf
  rw [List.range_succ_eq_map, List.range_succ_eq_map]
  simp only [List.map_cons, List.map_map]
  rfl

/-- The slots end with the root of the level they began with. -/
theorem rootWhile_eq (rounds : Nat) {n : Nat} (slots : Nat → Bytes) (hn : 0 < n) :
    rootWhile L rounds n slots 0 = merkleRootLoop L rounds (levelOf slots n) := by
  induction rounds generalizing n slots with
  | zero =>
    obtain ⟨n, rfl⟩ := Nat.exists_eq_add_of_le' hn
    unfold merkleRootLoop levelOf
    rw [List.range_succ_eq_map]
    rfl
  | succ rounds ih =>
    unfold rootWhile
    by_cases h : 1 < n
    · obtain ⟨rest, hlevel⟩ := levelOf_two slots h
      rw [if_pos h, foldl_rootRound slots (Nat.le_refl _), ih _ (by omega), levelOf_rebuilt, hlevel]
      rfl
    · obtain rfl : n = 1 := by omega
      rw [if_neg h]
      rfl

/-- The proof grows by the artifacts of every level. -/
theorem proofWhile_eq (rounds : Nat) {n e : Nat} (slots : Nat → Bytes) (proof : Bytes) (he : e < n) :
    (proofWhile L rounds n ⟨slots, e, proof⟩).proof =
      proof ++ merkleProofLoop L rounds (levelOf slots n) e := by
  induction rounds generalizing n e slots proof with
  | zero => exact (List.append_nil proof).symm
  | succ rounds ih =>
    unfold proofWhile
    by_cases h : 1 < n
    · obtain ⟨rest, hlevel⟩ := levelOf_two slots h
      have hclimbed := @foldl_proofRound L n e ((n + 1) / 2) slots proof he (Nat.le_refl _)
      have hmet : e / 2 < (n + 1) / 2 := by omega
      have hstate : (List.range ((n + 1) / 2)).foldl (proofRound L n) ⟨slots, e, proof⟩ =
          ⟨rebuilt L n slots ((n + 1) / 2), e / 2, proof ++ levelArtifact (levelOf slots n) e⟩ := by
        generalize (List.range ((n + 1) / 2)).foldl (proofRound L n) ⟨slots, e, proof⟩ = s at hclimbed
        obtain ⟨hslots, helement, hproof⟩ := hclimbed
        rw [if_pos hmet] at helement hproof
        cases s
        cases hslots
        cases helement
        cases hproof
        rfl
      rw [if_pos h, hstate, ih _ _ hmet, levelOf_rebuilt, hlevel, List.append_assoc]
      rfl
    · rw [if_neg h]
      obtain rfl : n = 1 := by omega
      exact (List.append_nil proof).symm

theorem levelOf_slotsOf (leaves : List Bytes) : levelOf (slotsOf leaves) leaves.length = leaves := by
  unfold levelOf slotsOf
  refine List.ext_getElem (by simp) fun k h _ => ?_
  rw [List.length_map, List.length_range] at h
  rw [List.getElem_map, List.getElem_range, List.getD_eq_getElem?_getD, List.getElem?_eq_getElem h,
    Option.getD_some]

/-- `get_merkle_root` computes the loop over lists. -/
theorem getMerkleRootInPlace_eq {leaves : List Bytes} (h : leaves ≠ []) :
    getMerkleRootInPlace L leaves = merkleRootLoop L leaves.length leaves := by
  unfold getMerkleRootInPlace
  rw [rootWhile_eq _ _ (List.length_pos_of_ne_nil h), levelOf_slotsOf]

/-- `get_merkle_proof` computes the loop over lists. -/
theorem getMerkleProofInPlace_eq {leaves : List Bytes} {index : Nat} (h : index < leaves.length) :
    getMerkleProofInPlace L leaves index = merkleProofLoop L leaves.length leaves index := by
  unfold getMerkleProofInPlace
  rw [proofWhile_eq _ _ _ h, levelOf_slotsOf, List.nil_append]

/-! ## Folding a proof -/

/-- Every hash of a level is as long as a digest. -/
def Digests (level : List Bytes) : Prop := ∀ hash ∈ level, hash.length = HASH_BYTES

theorem Digests.parentLevel : ∀ {level : List Bytes}, Digests level → Digests (parentLevel L level)
  | [], h => h
  | [_], h => h
  | _ :: _ :: _, h => by
    intro hash hhash
    rcases List.mem_cons.mp hhash with rfl | hrest
    · exact L.length_sha512 _
    · refine Digests.parentLevel (fun b hb => h b ?_) hash hrest
      exact List.mem_cons_of_mem _ (List.mem_cons_of_mem _ hb)

/-- The node above an index. -/
theorem getElem?_parentLevel : ∀ (level : List Bytes) (index : Nat) {element : Bytes},
    level[index]? = some element →
    (parentLevel L level)[index / 2]? =
      if index % 2 = 1 then some (hashNode L (level.getD (index - 1) []) element)
      else
        match level[index + 1]? with
        | some right => some (hashNode L element right)
        | none => some element
  | [], index, _, h => by
    rw [List.getElem?_nil] at h
    cases h
  | [a], index, element, h => by
    obtain rfl : index = 0 := by
      by_contra hindex
      rw [List.getElem?_eq_none (by rw [List.length_singleton]; omega)] at h
      cases h
    exact h
  | a :: b :: rest, 0, element, h => by
    cases h
    rfl
  | a :: b :: rest, 1, element, h => by
    cases h
    rfl
  | a :: b :: rest, index + 2, element, h => by
    have hbelow := getElem?_parentLevel rest index h
    have hmod : (index + 2) % 2 = index % 2 := by omega
    rw [show (index + 2) / 2 = index / 2 + 1 by omega, hmod, parentLevel, List.getElem?_cons_succ, hbelow]
    by_cases hodd : index % 2 = 1
    · obtain ⟨before, rfl⟩ : ∃ before, index = before + 1 := ⟨index - 1, by omega⟩
      rw [if_pos hodd, if_pos hodd]
      rfl
    · rw [if_neg hodd, if_neg hodd]
      rfl

/-- One artifact folds into the element. -/
theorem verifyLoop_artifact {sibling element rest : Bytes} (h : sibling.length = HASH_BYTES) (k : Nat) :
    verifyLoop L (k + 1) element (artifact sibling 0 ++ rest) =
        verifyLoop L k (hashNode L sibling element) rest ∧
      verifyLoop L (k + 1) element (artifact sibling 1 ++ rest) =
        verifyLoop L k (hashNode L element sibling) rest := by
  have hparts : ∀ position : UInt8, (artifact sibling position ++ rest).take HASH_BYTES = sibling ∧
      (artifact sibling position ++ rest).getD HASH_BYTES 0 = position ∧
      (artifact sibling position ++ rest).drop (HASH_BYTES + 1) = rest := by
    intro position
    unfold artifact
    refine ⟨?_, ?_, ?_⟩
    · rw [List.append_assoc, List.take_left' h]
    · rw [List.append_assoc, List.getD_eq_getElem?_getD, List.getElem?_append_right (Nat.le_of_eq h), h]
      rfl
    · refine List.drop_left' ?_
      rw [List.length_append, h]
      rfl
  constructor
  · obtain ⟨htake, hposition, hdrop⟩ := hparts 0
    rw [verifyLoop, htake, hposition, hdrop, if_pos rfl]
  · obtain ⟨htake, hposition, hdrop⟩ := hparts 1
    rw [verifyLoop, htake, hposition, hdrop, if_neg (by decide), if_pos rfl]

/-- What a proof of a level comes to. -/
structure Folds (L : LibCrypto) (level : List Bytes) (element proof root : Bytes) (depth k : Nat) :
    Prop where
  length : proof.length = k * (HASH_BYTES + 1)
  le : k ≤ depth
  pos : 2 ≤ level.length → 1 ≤ k
  verifies : ∀ rest, verifyLoop L k element (proof ++ rest) = some root

/-- A level of one node is its own root. -/
theorem folds_single {a element : Bytes} {index : Nat} (rounds depth : Nat)
    (helement : [a][index]? = some element) :
    Folds L [a] element (merkleProofLoop L rounds [a] index) (merkleRootLoop L rounds [a]) depth 0 := by
  obtain rfl : index = 0 := by
    by_contra hindex
    rw [List.getElem?_eq_none (by rw [List.length_singleton]; omega)] at helement
    cases helement
  cases helement
  have hproof : merkleProofLoop L rounds [a] 0 = [] := by
    cases rounds <;> rfl
  have hroot : merkleRootLoop L rounds [a] = a := by
    cases rounds <;> rfl
  rw [hproof, hroot]
  refine ⟨rfl, Nat.zero_le depth, ?_, fun rest => rfl⟩
  intro htwo
  rw [List.length_singleton] at htwo
  omega

/-- The artifact of a level before the proof of the level above. -/
theorem Folds.below {level : List Bytes} {index depth k : Nat} {element proof root : Bytes}
    (hdigests : Digests level) (helement : level[index]? = some element) {above : Bytes}
    (habove : (parentLevel L level)[index / 2]? = some above)
    (h : Folds L (parentLevel L level) above proof root depth k) :
    ∃ k', Folds L level element (levelArtifact level index ++ proof) root (depth + 1) k' := by
  have hparent := getElem?_parentLevel (L := L) level index helement
  rw [habove] at hparent
  have hbound : index < level.length := (List.getElem?_eq_some_iff.mp helement).1
  have hlength : ∀ (sibling : Bytes) (position : UInt8), sibling.length = HASH_BYTES →
      (artifact sibling position ++ proof).length = (k + 1) * (HASH_BYTES + 1) := by
    intro sibling position hsibling
    rw [List.length_append, h.length, artifact, List.length_append, hsibling, List.length_singleton,
      Nat.succ_mul, Nat.add_comm]
  have hle := h.le
  unfold levelArtifact
  by_cases hodd : index % 2 = 1
  · rw [if_pos hodd] at hparent ⊢
    cases hparent
    have hsibling : (level.getD (index - 1) []).length = HASH_BYTES := by
      have hbefore : index - 1 < level.length := by omega
      rw [List.getD_eq_getElem?_getD, List.getElem?_eq_getElem hbefore]
      exact hdigests _ (List.getElem_mem hbefore)
    refine ⟨k + 1, hlength _ 0 hsibling, by omega, fun _ => by omega, fun rest => ?_⟩
    rw [List.append_assoc, (verifyLoop_artifact hsibling k).1, h.verifies]
  · rw [if_neg hodd] at hparent ⊢
    cases hright : level[index + 1]? with
    | some right =>
      rw [hright] at hparent
      cases hparent
      have hsibling : right.length = HASH_BYTES := hdigests right (List.mem_of_getElem? hright)
      refine ⟨k + 1, hlength _ 1 hsibling, by omega, fun _ => by omega, fun rest => ?_⟩
      rw [List.append_assoc, (verifyLoop_artifact hsibling k).2, h.verifies]
    | none =>
      -- a lone node is promoted: the level above has a node beside it unless this is the root
      rw [hright] at hparent
      cases hparent
      have hlast := List.getElem?_eq_none_iff.mp hright
      refine ⟨k, ?_, by omega, fun htwo => h.pos ?_, fun rest => ?_⟩
      · rw [List.nil_append]
        exact h.length
      · rw [length_parentLevel]
        omega
      · rw [List.nil_append]
        exact h.verifies rest

/-- The artifacts of a leaf: at most one for each level, at least one when there is a level
above, and they fold to the root whatever follows them. -/
theorem verifyLoop_proof (rounds : Nat) {level : List Bytes} {index : Nat} {element : Bytes}
    (hdigests : Digests level) (helement : level[index]? = some element)
    (hrounds : level.length ≤ rounds + 1) {depth : Nat} (hdepth : level.length ≤ 2 ^ depth) :
    ∃ k, Folds L level element (merkleProofLoop L rounds level index) (merkleRootLoop L rounds level)
      depth k := by
  induction rounds generalizing level index element depth with
  | zero =>
    match level, hrounds, helement with
    | [a], _, helement => exact ⟨0, folds_single 0 depth helement⟩
  | succ rounds ih =>
    match level, hrounds, hdepth, hdigests, helement with
    | [a], _, _, _, helement => exact ⟨0, folds_single (rounds + 1) depth helement⟩
    | a :: b :: rest, hrounds, hdepth, hdigests, helement =>
      have hlength := length_parentLevel (L := L) (a :: b :: rest)
      simp only [List.length_cons] at hlength hrounds hdepth
      obtain ⟨depth, rfl⟩ : ∃ d, depth = d + 1 := by
        refine Nat.exists_eq_succ_of_ne_zero fun hzero => ?_
        rw [hzero] at hdepth
        omega
      rw [Nat.pow_succ] at hdepth
      obtain ⟨above, habove⟩ : ∃ above, (parentLevel L (a :: b :: rest))[index / 2]? = some above := by
        have hbound := (List.getElem?_eq_some_iff.mp helement).1
        rw [List.length_cons, List.length_cons] at hbound
        exact ⟨_, List.getElem?_eq_getElem (by omega)⟩
      obtain ⟨k, hfolds⟩ : ∃ k, Folds L _ above _ _ depth k :=
        ih hdigests.parentLevel habove (by omega) (by omega)
      exact hfolds.below hdigests helement habove

/-! ## Completeness -/

/-- The length at the head of a fixed proof, and the artifacts behind it. -/
theorem fixedProof_parts {metadata proof chunk : Bytes} (hmetadata : metadata.length = METADATA_LEN)
    (padding : RandomBytes PROOF_LEN) (hfits : 4 + proof.length ≤ PROOF_LEN) :
    proofLength (metadata ++ (fixedProof proof padding ++ chunk)) = proof.length ∧
      ∃ rest, (metadata ++ (fixedProof proof padding ++ chunk)).drop (METADATA_LEN + 4) = proof ++ rest := by
  have hbytes : (beBytes 4 proof.length).length = 4 := length_beBytes ..
  have hsplit : metadata ++ (fixedProof proof padding ++ chunk) =
      metadata ++ (beBytes 4 proof.length ++ (proof ++ (padding.val.drop (4 + proof.length) ++ chunk))) := by
    unfold fixedProof
    simp only [List.append_assoc]
  rw [hsplit]
  constructor
  · unfold proofLength slice
    rw [List.drop_left' hmetadata, List.take_left' hbytes]
    refine beNat_beBytes ?_
    have hlong : PROOF_LEN < 256 ^ 4 := by decide
    omega
  · refine ⟨padding.val.drop (4 + proof.length) ++ chunk, ?_⟩
    rw [← List.drop_drop, List.drop_left' hmetadata, List.drop_left' hbytes]

theorem length_flatten_digests {leaves : List Bytes} (h : Digests leaves) :
    leaves.flatten.length = leaves.length * HASH_BYTES := by
  induction leaves with
  | nil => rfl
  | cons hash rest ih =>
    rw [List.flatten_cons, List.length_append, h hash List.mem_cons_self, List.length_cons, Nat.succ_mul,
      ih fun b hb => h b (List.mem_cons_of_mem hash hb), Nat.add_comm]

/-- The artifacts of a leaf fit their place. -/
theorem proof_fits {leaves : List Bytes} (hdigests : Digests leaves) (htwo : 2 ≤ leaves.length)
    (hsmall : leaves.length ≤ 2 ^ 48) {leaf : Bytes} (hleaf : leaf ∈ leaves) :
    ∃ k, Folds L leaves leaf (merkleProofLoop L leaves.length leaves (leaves.idxOf leaf))
        (merkleRootLoop L leaves.length leaves) 48 k ∧
      0 < (merkleProofLoop L leaves.length leaves (leaves.idxOf leaf)).length ∧
      4 + (merkleProofLoop L leaves.length leaves (leaves.idxOf leaf)).length ≤ PROOF_LEN := by
  have hindex : leaves.idxOf leaf < leaves.length := List.idxOf_lt_length_of_mem hleaf
  have helement : leaves[leaves.idxOf leaf]? = some leaf := by
    rw [List.getElem?_eq_getElem hindex, List.getElem_idxOf]
  obtain ⟨k, hfolds⟩ := @verifyLoop_proof L leaves.length _ _ _ hdigests helement (Nat.le_succ _) 48 hsmall
  have hpos := hfolds.pos htwo
  have hle := hfolds.le
  have hlength := hfolds.length
  simp only [HASH_BYTES] at hlength
  refine ⟨k, hfolds, by omega, ?_⟩
  simp only [PROOF_LEN]
  omega

/-- The root and the proof of two leaves or more. -/
theorem getMerkle_many {leaves : List Bytes} (hdigests : Digests leaves) (htwo : 2 ≤ leaves.length)
    {leaf : Bytes} (hleaf : leaf ∈ leaves) (padding : RandomBytes PROOF_LEN)
    (hpos : 0 < (merkleProofLoop L leaves.length leaves (leaves.idxOf leaf)).length)
    (hfits : 4 + (merkleProofLoop L leaves.length leaves (leaves.idxOf leaf)).length ≤ PROOF_LEN) :
    getMerkleRoot L leaves.flatten = .ok (merkleRootLoop L leaves.length leaves) ∧
      getMerkleProof L leaves.flatten leaf padding =
        .ok (fixedProof (merkleProofLoop L leaves.length leaves (leaves.idxOf leaf)) padding) := by
  have hlength := length_flatten_digests hdigests
  have hcount : leaves.flatten.length / HASH_BYTES = leaves.length := by
    rw [hlength]
    exact Nat.mul_div_cancel _ (by decide)
  have hwhole : leaves.flatten.length % HASH_BYTES = 0 := by
    rw [hlength]
    exact Nat.mul_mod_left _ _
  have hsome : leaves.length ≠ 0 := by omega
  have hmany : leaves.length ≠ 1 := by omega
  have hfound : leaves.findIdx? (· == leaf) = some (leaves.idxOf leaf) :=
    List.findIdx?_eq_some_of_exists ⟨leaf, hleaf, beq_self_eq_true leaf⟩
  have hroom : (merkleProofLoop L leaves.length leaves (leaves.idxOf leaf)).length ≤ PROOF_LEN := by omega
  constructor
  · unfold getMerkleRoot
    rw [demand_of hwhole, ok_bind, hcount]
    dsimp only
    rw [demand_of hsome, ok_bind, if_neg hmany, unpackHashes_flatten hdigests]
    rfl
  · unfold getMerkleProof
    rw [demand_of hwhole, ok_bind, hcount]
    dsimp only
    rw [demand_of hsome, ok_bind, if_neg hmany, unpackHashes_flatten hdigests]
    rw [hfound]
    dsimp only
    rw [demand_of hpos, ok_bind, if_pos hroom, demand_of hfits, ok_bind]
    rfl

/-- For every list of leaf hashes that 48 artifacts can place and every leaf of it, the proof of
the sender is as long as its place in a chunk, and the receiver accepts it against the root, in
any chunk; from two leaves on, root and proof are what the C functions leave in their buffers. -/
theorem merkle_completeness {leaves : List Bytes} (hne : leaves ≠ [])
    (hdigests : ∀ hash ∈ leaves, hash.length = HASH_BYTES) (hsmall : leaves.length ≤ 2 ^ 48)
    {leaf : Bytes} (hleaf : leaf ∈ leaves) (padding : RandomBytes PROOF_LEN) :
    ∃ root proof, getMerkleRoot L leaves.flatten = .ok root ∧
      getMerkleProof L leaves.flatten leaf padding = .ok proof ∧ proof.length = PROOF_LEN ∧
      (2 ≤ leaves.length → root = getMerkleRootInPlace L leaves ∧
        proof = fixedProof (getMerkleProofInPlace L leaves (leaves.idxOf leaf)) padding) ∧
      ∀ metadata chunk : Bytes, metadata.length = METADATA_LEN →
        proofLength (metadata ++ (proof ++ chunk)) % (HASH_BYTES + 1) = 0 ∧
        proofLength (metadata ++ (proof ++ chunk)) ≤ PROOF_LEN ∧
        verifyMerkleProof L (proofLength (metadata ++ (proof ++ chunk)) / (HASH_BYTES + 1)) leaf root
          ((metadata ++ (proof ++ chunk)).drop (METADATA_LEN + 4)) = 0 := by
  have hlength := List.length_pos_of_ne_nil hne
  by_cases htwo : 2 ≤ leaves.length
  · have hindex : leaves.idxOf leaf < leaves.length := List.idxOf_lt_length_of_mem hleaf
    obtain ⟨k, hfolds, hpos, hfits⟩ := @proof_fits L _ hdigests htwo hsmall _ hleaf
    obtain ⟨hroot, hgot⟩ := getMerkle_many hdigests htwo hleaf padding hpos hfits
    refine ⟨_, _, hroot, hgot, length_fixedProof hfits, fun _ => ⟨?_, ?_⟩, fun metadata chunk hmetadata => ?_⟩
    · rw [getMerkleRootInPlace_eq hne]
    · rw [getMerkleProofInPlace_eq hindex]
    · obtain ⟨hproof, rest, hrest⟩ := @fixedProof_parts metadata _ chunk hmetadata padding hfits
      rw [hproof, hrest]
      refine ⟨?_, by omega, ?_⟩
      · rw [hfolds.length]
        exact Nat.mul_mod_left _ _
      rw [hfolds.length, Nat.mul_div_cancel _ (by decide)]
      unfold verifyMerkleProof
      rw [hfolds.verifies]
      dsimp only
      rw [if_pos rfl, ite_self]
  · obtain ⟨only, rfl⟩ := List.length_eq_one_iff.mp (show leaves.length = 1 by omega)
    obtain rfl := List.mem_singleton.mp hleaf
    have hdigest : leaf.length = HASH_BYTES := hdigests leaf hleaf
    have hflat : [leaf].flatten = leaf := by
      rw [List.flatten_cons, List.flatten_nil, List.append_nil]
    have hartifact : (artifact leaf 0).length = HASH_BYTES + 1 := by
      rw [artifact, List.length_append, hdigest]
      rfl
    have hfits : 4 + (artifact leaf 0).length ≤ PROOF_LEN := by
      rw [hartifact]
      decide
    rw [hflat]
    refine ⟨leaf, _, getMerkleRoot_single hdigest, getMerkleProof_single hdigest hdigest (by decide) padding,
      length_fixedProof hfits, fun h => absurd h htwo, fun metadata chunk hmetadata => ?_⟩
    obtain ⟨hproof, -, -⟩ := @fixedProof_parts metadata _ chunk hmetadata padding hfits
    rw [hproof, hartifact]
    exact ⟨Nat.mod_self _, by decide, verifyMerkleProof_single _⟩

/-- A digest of equal bytes. -/
def sampleDigest (b : UInt8) : Bytes := List.replicate HASH_BYTES b

/-- Three leaves, the last of which is promoted and is also the first. -/
theorem merkle_completeness_three : ∃ root proof,
    getMerkleRoot LibCrypto.transparent [sampleDigest 7, sampleDigest 8, sampleDigest 7].flatten = .ok root ∧
    getMerkleProof LibCrypto.transparent [sampleDigest 7, sampleDigest 8, sampleDigest 7].flatten
      (sampleDigest 7) (default : RandomBytes PROOF_LEN) = .ok proof ∧
    verifyMerkleProof LibCrypto.transparent
      (proofLength (List.replicate METADATA_LEN 0 ++ (proof ++ [])) / (HASH_BYTES + 1)) (sampleDigest 7) root
      ((List.replicate METADATA_LEN 0 ++ (proof ++ [])).drop (METADATA_LEN + 4)) = 0 := by
  obtain ⟨root, proof, hroot, hproof, -, -, haccepted⟩ := @merkle_completeness LibCrypto.transparent
    [sampleDigest 7, sampleDigest 8, sampleDigest 7] (List.cons_ne_nil _ _) (by decide) (by decide)
    (sampleDigest 7) List.mem_cons_self default
  exact ⟨root, proof, hroot, hproof, (haccepted _ [] List.length_replicate).2.2⟩

end P2Party
