import P2Party.Base.JsString
import P2Party.Base.Runs
import Mathlib.Data.List.Nodup

/-!
# The ratchet gate (`handlers/ratchetGate.ts`)

Every edge has a promise that the main channel settles once the handshake is over. A reconnect
replaces it, and whoever settles it shows the lease of the promise it means: a lease that has been
replaced settles nothing.

A lease is a fresh symbol each time, here its number among all that were drawn. The log has the
assignments to `outcome`, each with the settled promise's lease.

- `ensure`, `openRatchetGate`, `rejectRatchetGate`, `resetRatchetGate`: the operations;
- `Ok`, `Ok.step`: what holds of the gates at any time;
- `Ok.step_of_superseded`: an operation with a replaced lease does nothing.
-/

namespace P2Party

open Base

namespace RatchetGate

/-- `Gate["outcome"]` (ratchetGate.ts:11). -/
inductive Outcome
  | pending
  | opened
  | rejected
deriving DecidableEq, Repr

/-- `RatchetGateLease`. -/
structure RatchetGateLease where
  token : Nat
deriving DecidableEq, Repr

/-- `Gate` (ratchetGate.ts:6-13), without its promise. -/
structure Gate where
  settled : Bool
  outcome : Outcome
  lease : RatchetGateLease
deriving DecidableEq, Repr

/-- The map of gates, the key each lease was drawn for, and the settlements so far. -/
structure Gates where
  gates : JsString → Option Gate
  drawn : List JsString
  settlements : List (RatchetGateLease × Outcome)

/-- The module as it is loaded. -/
def initial : Gates := ⟨fun _ => none, [], []⟩

/-- `gateKey` (ratchetGate.ts:29-30), also `inboxKey` (handleHandshake.ts:188-189). -/
def gateKey (roomId peerId : JsString) : JsString := roomId ++ 0 :: peerId

/-! ## Operations -/

/-- `ensure` (ratchetGate.ts:32-59). -/
def ensure (s : Gates) (key : JsString) : Gate × Gates :=
  match s.gates key with
  | some gate => (gate, s)
  | none =>
    let gate : Gate := { settled := false, outcome := .pending, lease := ⟨s.drawn.length⟩ }
    (gate, { s with
      gates := Function.update s.gates key (some gate)
      drawn := s.drawn ++ [key] })

/-- The assignments to a gate's `settled` and `outcome`, with the call that settles its promise. -/
def settle (s : Gates) (key : JsString) (gate : Gate) (outcome : Outcome) : Gates :=
  { s with
    gates := Function.update s.gates key (some { gate with settled := true, outcome := outcome })
    settlements := s.settlements ++ [(gate.lease, outcome)] }

/-- `isCurrentRatchetGateLease` (ratchetGate.ts:71-75). -/
def isCurrentRatchetGateLease (s : Gates) (key : JsString) (lease : RatchetGateLease) : Bool :=
  decide ((s.gates key).map Gate.lease = some lease)

/-- `openRatchetGate` (ratchetGate.ts:89-100). -/
def openRatchetGate (s : Gates) (key : JsString) (lease : RatchetGateLease) : Bool × Gates :=
  let (gate, s) := ensure s key
  if gate.lease ≠ lease ∨ gate.settled = true then (false, s)
  else (true, settle s key gate .opened)

/-- `rejectRatchetGate` (ratchetGate.ts:102-119). -/
def rejectRatchetGate (s : Gates) (key : JsString) (lease : Option RatchetGateLease) :
    Bool × Gates :=
  let (gate, s) := ensure s key
  if lease.any (fun lease => gate.lease ≠ lease) then (false, s)
  else if gate.settled = false then (true, settle s key gate .rejected)
  else (true, s)

/-- `gates.delete(key)`. -/
def delete (s : Gates) (key : JsString) : Gates :=
  { s with gates := Function.update s.gates key none }

/-- `resetRatchetGate` (ratchetGate.ts:121-135). -/
def resetRatchetGate (s : Gates) (key : JsString) : RatchetGateLease × Gates :=
  let s := match s.gates key with
    | some gate => if gate.settled = false then settle s key gate .rejected else s
    | none => s
  let (gate, s) := ensure (delete s key) key
  (gate.lease, s)

/-- A call of the module, for the edge of a room and a peer. `getRatchetGate` and
`claimRatchetGate` are both `ensure`. -/
inductive Event
  | ensure (roomId peerId : JsString)
  | openRatchetGate (roomId peerId : JsString) (lease : RatchetGateLease)
  | rejectRatchetGate (roomId peerId : JsString) (lease : Option RatchetGateLease)
  | resetRatchetGate (roomId peerId : JsString)
deriving DecidableEq

/-- What a call does to the module. -/
def step : Event → Gates → Gates
  | .ensure roomId peerId, s => (ensure s (gateKey roomId peerId)).2
  | .openRatchetGate roomId peerId lease, s => (openRatchetGate s (gateKey roomId peerId) lease).2
  | .rejectRatchetGate roomId peerId lease, s => (rejectRatchetGate s (gateKey roomId peerId) lease).2
  | .resetRatchetGate roomId peerId, s => (resetRatchetGate s (gateKey roomId peerId)).2

/-- The lease a call carries, and the key it carries it to. -/
def Event.carried : Event → Option (JsString × RatchetGateLease)
  | .openRatchetGate roomId peerId lease => some (gateKey roomId peerId, lease)
  | .rejectRatchetGate roomId peerId (some lease) => some (gateKey roomId peerId, lease)
  | _ => none

/-- A lease that was drawn for the key and is no longer its gate's. -/
def Superseded (s : Gates) (key : JsString) (lease : RatchetGateLease) : Prop :=
  s.drawn[lease.token]? = some key ∧ isCurrentRatchetGateLease s key lease = false

/-! ## What holds at any time -/

/-- The outcomes of a gate and of its lease in the log agree. -/
def Gate.Recorded (gate : Gate) (settlements : List (RatchetGateLease × Outcome)) : Prop :=
  if gate.settled = true then (gate.lease, gate.outcome) ∈ settlements
  else gate.outcome = .pending ∧ gate.lease ∉ settlements.map Prod.fst

/-- What holds of the gates at any time. -/
structure Ok (s : Gates) : Prop where
  once : (s.settlements.map Prod.fst).Nodup
  recorded : ∀ key gate, s.gates key = some gate → gate.Recorded s.settlements
  -- A gate's lease was drawn for its key, so no two keys share one.
  owned : ∀ key gate, s.gates key = some gate → s.drawn[gate.lease.token]? = some key
  -- Gates are never removed for good, so a call with an old lease finds one.
  present : ∀ key ∈ s.drawn, ∃ gate, s.gates key = some gate
  drawn : ∀ lease ∈ s.settlements.map Prod.fst, lease.token < s.drawn.length

variable {s : Gates} {key : JsString} {gate : Gate} {lease : RatchetGateLease}

theorem ok_initial : Ok initial where
  once := List.nodup_nil
  recorded _ _ h := nomatch h
  owned _ _ h := nomatch h
  present _ h := nomatch h
  drawn _ h := nomatch h

/-- An entry of a map of which one has been set. -/
theorem update_some_eq_some {α : Type} {m : JsString → Option α} {k : JsString} {a b : α}
    (h : Function.update m key (some a) k = some b) : k = key ∧ b = a ∨ k ≠ key ∧ m k = some b := by
  by_cases hkey : k = key
  · subst hkey
    rw [Function.update_self] at h
    exact .inl ⟨rfl, (Option.some.inj h).symm⟩
  · rw [Function.update_of_ne hkey] at h
    exact .inr ⟨hkey, h⟩

theorem ensure_of_some (h : s.gates key = some gate) : ensure s key = (gate, s) := by
  simp only [ensure, h]

theorem ensure_of_none (h : s.gates key = none) :
    ensure s key = (⟨false, .pending, ⟨s.drawn.length⟩⟩,
      { s with
        gates := Function.update s.gates key (some ⟨false, .pending, ⟨s.drawn.length⟩⟩)
        drawn := s.drawn ++ [key] }) := by
  simp only [ensure, h]

/-- `ensure` returns the gate that is then in the map. -/
theorem gates_ensure (s : Gates) (key : JsString) :
    (ensure s key).2.gates key = some (ensure s key).1 := by
  cases h : s.gates key with
  | some gate =>
    rw [ensure_of_some h]
    exact h
  | none =>
    rw [ensure_of_none h]
    exact Function.update_self ..

/-- A new gate. The key may be without one although leases were drawn for it, as inside a reset. -/
theorem Ok.create (once : (s.settlements.map Prod.fst).Nodup)
    (recorded : ∀ key gate, s.gates key = some gate → gate.Recorded s.settlements)
    (owned : ∀ key gate, s.gates key = some gate → s.drawn[gate.lease.token]? = some key)
    (present : ∀ k ∈ s.drawn, k ≠ key → ∃ gate, s.gates k = some gate)
    (drawn : ∀ lease ∈ s.settlements.map Prod.fst, lease.token < s.drawn.length)
    (h : s.gates key = none) : Ok (ensure s key).2 := by
  rw [ensure_of_none h]
  refine ⟨once, ?_, ?_, ?_, ?_⟩
  · intro k gate hk
    rcases update_some_eq_some hk with ⟨rfl, rfl⟩ | ⟨hne, hk⟩
    · exact ⟨rfl, fun hmem => absurd (drawn _ hmem) (Nat.lt_irrefl _)⟩
    · exact recorded k gate hk
  · intro k gate hk
    rcases update_some_eq_some hk with ⟨rfl, rfl⟩ | ⟨hne, hk⟩
    · exact List.getElem?_concat_length
    · have howned := owned k gate hk
      exact (List.getElem?_append_left (List.getElem?_eq_some_iff.mp howned).1).trans howned
  · intro k hmem
    by_cases hkey : k = key
    · subst hkey
      exact ⟨_, Function.update_self ..⟩
    · rcases List.mem_append.mp hmem with hmem | hmem
      · obtain ⟨gate, hgate⟩ := present k hmem hkey
        exact ⟨gate, (Function.update_of_ne hkey ..).trans hgate⟩
      · exact absurd (List.mem_singleton.mp hmem) hkey
  · intro lease hmem
    have := drawn lease hmem
    simp only [List.length_append, List.length_singleton]
    omega

theorem Ok.ensure (h : Ok s) (key : JsString) : Ok (ensure s key).2 := by
  cases hkey : s.gates key with
  | some gate => rwa [ensure_of_some hkey]
  | none => exact .create h.once h.recorded h.owned (fun k hk _ => h.present k hk) h.drawn hkey

/-- A gate's lease is no other gate's. -/
theorem Ok.lease_ne (h : Ok s) (hkey : s.gates key = some gate) {k : JsString} {other : Gate}
    (hk : s.gates k = some other) (hne : k ≠ key) : other.lease ≠ gate.lease := by
  intro heq
  have hother := h.owned k other hk
  rw [heq, h.owned key gate hkey] at hother
  exact hne (Option.some.inj hother).symm

/-- A gate that is not settled can be, once. -/
theorem Ok.settle (h : Ok s) (hkey : s.gates key = some gate) (hsettled : gate.settled = false)
    (outcome : Outcome) : Ok (settle s key gate outcome) := by
  have hrecorded := h.recorded key gate hkey
  rw [Gate.Recorded, if_neg (by simp [hsettled])] at hrecorded
  have hnew : gate.lease ∉ s.settlements.map Prod.fst := hrecorded.2
  refine ⟨?_, ?_, ?_, ?_, ?_⟩
  · simp only [RatchetGate.settle, List.map_append, List.map_cons, List.map_nil]
    exact List.Nodup.append h.once (List.nodup_singleton _) (by simpa using hnew)
  · intro k other hk
    rcases update_some_eq_some hk with ⟨rfl, rfl⟩ | ⟨hne, hk⟩
    · exact List.mem_append_right _ (List.mem_singleton.mpr rfl)
    · have hlease := h.lease_ne hkey hk hne
      have hother := h.recorded k other hk
      unfold Gate.Recorded at hother ⊢
      split
      · rename_i hs
        rw [if_pos hs] at hother
        exact List.mem_append_left _ hother
      · rename_i hs
        rw [if_neg hs] at hother
        refine ⟨hother.1, ?_⟩
        simp only [RatchetGate.settle, List.map_append, List.map_cons, List.map_nil, List.mem_append,
          List.mem_singleton, not_or]
        exact ⟨hother.2, hlease⟩
  · intro k other hk
    rcases update_some_eq_some hk with ⟨rfl, rfl⟩ | ⟨hne, hk⟩
    · exact h.owned k gate hkey
    · exact h.owned k other hk
  · intro k hmem
    by_cases hne : k = key
    · subst hne
      exact ⟨_, Function.update_self ..⟩
    · obtain ⟨other, hother⟩ := h.present k hmem
      exact ⟨other, (Function.update_of_ne hne ..).trans hother⟩
  · intro lease hmem
    simp only [RatchetGate.settle, List.map_append, List.map_cons, List.map_nil, List.mem_append,
      List.mem_singleton] at hmem
    rcases hmem with hmem | rfl
    · exact h.drawn lease hmem
    · exact (List.getElem?_eq_some_iff.mp (h.owned key gate hkey)).1

theorem Ok.openRatchetGate (h : Ok s) (key : JsString) (lease : RatchetGateLease) :
    Ok (openRatchetGate s key lease).2 := by
  simp only [RatchetGate.openRatchetGate]
  split
  · exact h.ensure key
  · rename_i hguard
    have hsettled : (RatchetGate.ensure s key).1.settled = false := by
      simpa using (not_or.mp hguard).2
    exact (h.ensure key).settle (gates_ensure s key) hsettled .opened

theorem Ok.rejectRatchetGate (h : Ok s) (key : JsString) (lease : Option RatchetGateLease) :
    Ok (rejectRatchetGate s key lease).2 := by
  simp only [RatchetGate.rejectRatchetGate]
  split
  · exact h.ensure key
  · split
    · rename_i hsettled
      exact (h.ensure key).settle (gates_ensure s key) hsettled .rejected
    · exact h.ensure key

/-- A gate is removed and made anew. -/
theorem Ok.renew (h : Ok s) (key : JsString) :
    Ok (RatchetGate.ensure (delete s key) key).2 := by
  have hgates : ∀ k gate, (delete s key).gates k = some gate → s.gates k = some gate := by
    intro k gate hk
    by_cases hkey : k = key
    · subst hkey
      exact absurd ((Function.update_self ..).symm.trans hk) nofun
    · exact (Function.update_of_ne hkey ..).symm.trans hk
  refine .create h.once (fun k gate hk => h.recorded k gate (hgates k gate hk))
    (fun k gate hk => h.owned k gate (hgates k gate hk)) ?_ h.drawn (Function.update_self ..)
  intro k hmem hne
  obtain ⟨gate, hgate⟩ := h.present k hmem
  exact ⟨gate, (Function.update_of_ne hne ..).trans hgate⟩

theorem Ok.resetRatchetGate (h : Ok s) (key : JsString) : Ok (resetRatchetGate s key).2 := by
  simp only [RatchetGate.resetRatchetGate]
  cases hkey : s.gates key with
  | none => exact h.renew key
  | some gate =>
    by_cases hsettled : gate.settled = false
    · simp only [hsettled, if_true]
      exact (h.settle hkey hsettled .rejected).renew key
    · simp only [hsettled]
      exact h.renew key

theorem Ok.step (event : Event) (h : Ok s) : Ok (step event s) := by
  cases event with
  | ensure roomId peerId => exact h.ensure _
  | openRatchetGate roomId peerId lease => exact h.openRatchetGate _ lease
  | rejectRatchetGate roomId peerId lease => exact h.rejectRatchetGate _ lease
  | resetRatchetGate roomId peerId => exact h.resetRatchetGate _

/-! ## Replaced leases -/

/-- The gate that an operation with a replaced lease finds has another lease. -/
theorem Ok.ensure_of_superseded (h : Ok s) (hlease : Superseded s key lease) :
    ∃ gate, RatchetGate.ensure s key = (gate, s) ∧ gate.lease ≠ lease := by
  obtain ⟨hdrawn, hcurrent⟩ := hlease
  obtain ⟨gate, hgate⟩ := h.present key (List.mem_of_getElem? hdrawn)
  refine ⟨gate, ensure_of_some hgate, ?_⟩
  intro heq
  simp [isCurrentRatchetGateLease, hgate, heq] at hcurrent

/-- An operation with a replaced lease does nothing. -/
theorem Ok.step_of_superseded (h : Ok s) {event : Event} (hcarried : event.carried = some (key, lease))
    (hlease : Superseded s key lease) : RatchetGate.step event s = s := by
  obtain ⟨gate, hensure, hne⟩ := h.ensure_of_superseded hlease
  cases event with
  | ensure roomId peerId => cases hcarried
  | resetRatchetGate roomId peerId => cases hcarried
  | openRatchetGate roomId peerId l =>
    cases hcarried
    simp only [RatchetGate.step, RatchetGate.openRatchetGate, hensure]
    rw [if_pos (Or.inl hne)]
  | rejectRatchetGate roomId peerId l =>
    cases l with
    | none => cases hcarried
    | some l =>
      cases hcarried
      simp only [RatchetGate.step, RatchetGate.rejectRatchetGate, hensure]
      rw [if_pos (by simpa using hne)]

end RatchetGate

end P2Party
