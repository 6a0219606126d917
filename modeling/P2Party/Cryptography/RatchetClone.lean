import P2Party.Cryptography.SkippedKeys

/-!
# A clone of a ratchet (`cryptography/ratchet.ts`)

`cloneRatchet` goes through the stored form, where a skipped key lies under its public key and its
number and no longer under the text that joins the two. The text can be split again, and the order
of the map is the order of the stored list, so a clone of any ratchet that calls have led to is that
ratchet; a run on clones is the run without them.

- `skipTo_canonical`, `outcome_canonical`, `perform_canonical`: calls keep the spelling of the keys;
- `Reply`, `perform`, `performAll`: calls, and what their callers see;
- `performCloned`: the same with a clone in place of the ratchet before any of the calls;
- `ratchet_clone_fidelity`: a clone is the ratchet, and behaves as it does for ever.
-/

namespace P2Party

open Base

namespace SkippedKeys

variable {L : LibCrypto} {state : RatchetState} {header : RatchetHeader} {secretKey : Bytes}

/-! ## The spelling of the keys -/

theorem skipOne_canonical (h : state.Canonical) : (skipOne L state).Canonical := by
  intro e he
  rcases OrdMap.mem_set_entries.mp he with rfl | ⟨hold, -⟩
  · exact ⟨_, _, rfl⟩
  · exact h e hold

theorem skipLoop_canonical (n : Nat) (h : state.Canonical) : (skipLoop L n state).Canonical := by
  induction n generalizing state with
  | zero => exact h
  | succ n ih => exact ih (skipOne_canonical h)

theorem skipTo_canonical (upTo : Nat) (h : state.Canonical) : (skipTo L upTo state).Canonical := by
  unfold skipTo
  split
  · exact fun e he => skipLoop_canonical _ h e (OrdMap.mem_of_mem_evictLoop he)
  · exact h

theorem read_canonical {N : Nat} {out : EStateM.Result JsError RatchetState Bytes}
    (hout : Read L state N out) (h : state.Canonical) : (finalState out).Canonical := by
  cases hout with
  | refused e => exact h
  | key chainKey hsome hbound hchain => exact skipTo_canonical N h

/-- Whatever a call ends in, the keys are spelled as before. -/
theorem outcome_canonical {out : EStateM.Result JsError RatchetState Bytes}
    {opened : List (Bytes × Bytes)} (hout : Outcome L state header secretKey out opened)
    (h : state.Canonical) : (finalState out).Canonical := by
  have hskip := skipTo_canonical (L := L) header.PN h
  cases hout with
  | stored mk hget => exact fun e he => h e (OrdMap.mem_delete_entries.mp he).1
  | current hread => exact read_canonical hread h
  | refused e => exact h
  | failed e hbound hturn => exact hskip
  | halted e dhOut hbound => exact hskip
  | turned dhOut dhOut' hbound hread => exact read_canonical hread hskip

/-! ## Calls and replies -/

/-- What the caller sees: a key and the header to send, a key, nothing, or what was thrown. -/
inductive Reply
  | sent (messageKey : Bytes) (header : RatchetHeader)
  | received (messageKey : Bytes)
  | primed
  | thrown (e : JsError)

/-- What a method returned or threw, and the ratchet that it leaves behind. -/
def replied {α : Type} (reply : α → Reply) :
    EStateM.Result JsError RatchetState α → Reply × RatchetState
  | .ok a state => (reply a, state)
  | .error e state => (.thrown e, state)

/-- One call. -/
def perform (L : LibCrypto) : RatchetCall → RatchetState → Reply × RatchetState
  | .ratchetEncrypt, state => replied (fun r => .sent r.1 r.2) ((ratchetEncrypt L).run state)
  | .primeResponderRatchet initiatorDhPub secretKey, state =>
    replied (fun _ => .primed) ((primeResponderRatchet L initiatorDhPub secretKey).run state)
  | .ratchetDecrypt header secretKey, state =>
    replied .received ((ratchetDecrypt L header secretKey).run state)

/-- Calls one after another: the replies, and the ratchet in the end. -/
def performAll (L : LibCrypto) : List RatchetCall → RatchetState → List Reply × RatchetState
  | [], state => ([], state)
  | call :: calls, state =>
    let rest := performAll L calls (perform L call state).2
    ((perform L call state).1 :: rest.1, rest.2)

/-- The same, with a clone in place of the ratchet before each call that is marked. -/
def performCloned (L : LibCrypto) : List (Bool × RatchetCall) → RatchetState → List Reply × RatchetState
  | [], state => ([], state)
  | (clone, call) :: calls, state =>
    let done := perform L call (if clone then cloneRatchet state else state)
    let rest := performCloned L calls done.2
    (done.1 :: rest.1, rest.2)

theorem replied_state {α : Type} (reply : α → Reply) (out : EStateM.Result JsError RatchetState α) :
    (replied reply out).2 = finalState out := by
  cases out <;> rfl

theorem perform_canonical (call : RatchetCall) (h : state.Canonical) :
    (perform L call state).2.Canonical := by
  cases call with
  | ratchetEncrypt =>
    obtain ⟨chain, Ns, heq⟩ := ratchetEncrypt_frame (L := L) state
    have hstate : (perform L .ratchetEncrypt state).2 = _ := (replied_state _ _).trans heq
    rw [hstate]
    exact h
  | primeResponderRatchet initiatorDhPub secretKey =>
    have hstate : (perform L (.primeResponderRatchet initiatorDhPub secretKey) state).2 = _ :=
      replied_state _ _
    rw [hstate]
    unfold RatchetState.Canonical
    rw [primeResponderRatchet_skipped]
    exact h
  | ratchetDecrypt header secretKey =>
    have hstate : (perform L (.ratchetDecrypt header secretKey) state).2 = _ := replied_state _ _
    rw [hstate]
    exact outcome_canonical (ratchetDecrypt_outcome state header secretKey) h

theorem performAll_canonical (calls : List RatchetCall) (h : state.Canonical) :
    (performAll L calls state).2.Canonical := by
  induction calls generalizing state with
  | nil => exact h
  | cons call calls ih => exact ih (perform_canonical call h)

/-- Clones along the way are not seen. -/
theorem performCloned_eq (calls : List (Bool × RatchetCall)) (h : state.Canonical) :
    performCloned L calls state = performAll L (calls.map Prod.snd) state := by
  induction calls generalizing state with
  | nil => rfl
  | cons marked calls ih =>
    obtain ⟨clone, call⟩ := marked
    have hstate : (if clone then cloneRatchet state else state) = state := by
      rw [cloneRatchet_eq h, ite_self]
    show ((perform L call (if clone then cloneRatchet state else state)).1 :: _, _) = _
    rw [hstate, ih (perform_canonical call h)]
    rfl

theorem initRatchet_canonical {rootSeed : Bytes} {amInitiator : Bool} {remoteDhPub : Option Bytes}
    {rootSuite : RatchetRootSuite}
    (h : initRatchet L rootSeed amInitiator remoteDhPub rootSuite secretKey = .ok state) :
    state.Canonical := by
  intro e he
  rw [(initRatchet_fresh h).2] at he
  cases he

/-- A ratchet that any calls have led to is equal to its clone, the order of the skipped keys
included; so the clone answers every later sequence of calls as the ratchet does, and so does a run
that goes on with a clone after any of its calls. -/
theorem ratchet_clone_fidelity {rootSeed : Bytes} {amInitiator : Bool} {remoteDhPub : Option Bytes}
    {rootSuite : RatchetRootSuite}
    (hinit : initRatchet L rootSeed amInitiator remoteDhPub rootSuite secretKey = .ok state)
    (calls : List RatchetCall) :
    deserializeRatchet (serializeRatchet (performAll L calls state).2) = (performAll L calls state).2 ∧
    (∀ later, performAll L later (cloneRatchet (performAll L calls state).2) =
      performAll L later (performAll L calls state).2) ∧
    (∀ marked, performCloned L marked (performAll L calls state).2 =
      performAll L (marked.map Prod.snd) (performAll L calls state).2) := by
  have hcanonical : (performAll L calls state).2.Canonical :=
    performAll_canonical calls (initRatchet_canonical hinit)
  have hclone := cloneRatchet_eq hcanonical
  exact ⟨hclone, fun later => by rw [hclone], fun marked => performCloned_eq marked hcanonical⟩

/-- After a message that passes two others, with a clone before the second call. -/
theorem ratchet_clone_fidelity_two :
    performCloned identityRefused [(true, .ratchetDecrypt ⟨List.replicate 32 5, 0, 0⟩ [])]
        (performAll identityRefused
          [.primeResponderRatchet (List.replicate 32 5) (List.replicate 32 9),
            .ratchetDecrypt ⟨List.replicate 32 5, 2, 0⟩ []] freshResponder).2 =
      performAll identityRefused [.ratchetDecrypt ⟨List.replicate 32 5, 0, 0⟩ []]
        (performAll identityRefused
          [.primeResponderRatchet (List.replicate 32 5) (List.replicate 32 9),
            .ratchetDecrypt ⟨List.replicate 32 5, 2, 0⟩ []] freshResponder).2 :=
  (ratchet_clone_fidelity freshResponder_init _).2.2 _

end SkippedKeys

end P2Party
