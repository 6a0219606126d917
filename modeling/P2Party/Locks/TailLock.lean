import P2Party.Base.FifoMutex
import P2Party.Base.JsString
import P2Party.Base.PromiseLock

/-!
# Promise-tail locks

`withEdgePersistenceLock`, `withEdgeCryptoMutationLock` (`handlers/ratchetPersist.ts`),
`withProcessingLock` (`handlers/handleMessageQueueing.ts`) and `withReceiveLock`
(`db/db.worker.ts`) are one piece of code: a map has, for each key, the promise that the last
caller has left; a caller takes it, leaves its own, waits for the one it took, runs its operation
and lets go, whether the operation resolves or rejects. They differ in the key, and in that two
of them catch a rejection of the promise they wait for.

- `TailLock`: what they differ in, and the four;
- `TailLock.step`: what calls, promises and operations do, in any order;
- `Sound`: what holds between the calls, their promises and the map;
- `TailLock.isFifoMutex`: such a lock serves one caller at a time, in order.
-/

namespace P2Party

open Base

/-! ## The four -/

/-- What the functions differ in: the key of the map, and whether `previous` is awaited with its
rejection caught. -/
structure TailLock (α κ : Type) where
  key : α → κ
  caught : Bool

/-- `persistenceKey` (ratchetPersist.ts:31-32). -/
def persistenceKey (roomId peerPublicKey : JsString) : JsString :=
  JsString.decimal roomId.length ++ 0x3a :: (roomId ++
    (JsString.decimal peerPublicKey.length ++ 0x3a :: peerPublicKey))

/-- A key names one edge. -/
theorem persistenceKey_inj {r p r' p' : JsString}
    (h : persistenceKey r p = persistenceKey r' p') : r = r' ∧ p = p' := by
  obtain ⟨hlength, h⟩ :=
    append_sep_inj (JsString.colon_notMem_decimal _) (JsString.colon_notMem_decimal _) h
  obtain ⟨hroom, h⟩ := List.append_inj h (JsString.decimal_injective hlength)
  exact ⟨hroom, (append_sep_inj (JsString.colon_notMem_decimal _)
    (JsString.colon_notMem_decimal _) h).2⟩

/-- `withEdgePersistenceLock` (ratchetPersist.ts:41-62). -/
def withEdgePersistenceLock : TailLock (JsString × JsString) JsString where
  key edge := persistenceKey edge.1 edge.2
  caught := true

/-- `withEdgeCryptoMutationLock` (ratchetPersist.ts:252-272), for connections of any type. -/
def withEdgeCryptoMutationLock (Epc : Type) : TailLock Epc Epc where
  key epc := epc
  caught := true

/-- `withProcessingLock` (handleMessageQueueing.ts:154-178). -/
def withProcessingLock : TailLock JsString JsString where
  key key := key
  caught := false

/-- `withReceiveLock` (db.worker.ts:1025-1043). -/
def withReceiveLock : TailLock JsString JsString where
  key key := key
  caught := false

namespace TailLock

/-! ## Calls and promises -/

/-- What a promise has come to. -/
inductive Settlement (ρ : Type)
  | pending
  | fulfilled
  | rejected (reason : ρ)

/-- Where a call stands: it awaits `previous`; its operation runs; its operation has ended and
`release` was called; or `previous` has rejected it. -/
inductive Body (ρ : Type)
  | waiting
  | running
  | done (outcome : ρ)
  | refused (reason : ρ)

/-- A call: its key, the call whose promise it took, its own promise `tail`, and where it stands. -/
structure Call (κ ρ : Type) where
  key : κ
  previous : Option Nat
  tail : Settlement ρ
  body : Body ρ

/-- The map, where a promise is named by the call that left it, and all calls. The last two fields
say whose operations have started and ended, in that order. -/
structure Tails (κ ρ : Type) where
  tails : κ → Option Nat
  calls : List (Call κ ρ)
  started : List Nat
  ended : List Nat

/-- A function is called, its `await` goes on, its promise settles, its operation ends. -/
inductive Event (α ρ : Type)
  | called (args : α)
  | resumed (t : Nat)
  | settled (t : Nat)
  | ended (t : Nat) (outcome : ρ)

variable {α κ ρ : Type}

/-- `p.then(() => q)`. -/
def Settlement.andThen : Settlement ρ → Settlement ρ → Settlement ρ
  | .fulfilled, q => q
  | .pending, _ => .pending
  | .rejected reason, _ => .rejected reason

/-- `held`, which `release` fulfils in the `finally` block. -/
def Call.held (call : Call κ ρ) : Settlement ρ :=
  match call.body with
  | .done _ => .fulfilled
  | _ => .pending

/-- What a call gives to its caller. -/
def Call.result (call : Call κ ρ) : Option ρ :=
  match call.body with
  | .done outcome => some outcome
  | .refused reason => some reason
  | _ => none

/-- No calls. -/
def Tails.empty : Tails κ ρ := ⟨fun _ => none, [], [], []⟩

/-- What `previous` has come to. Without an entry it is `Promise.resolve()`. -/
def Tails.previous (s : Tails κ ρ) : Option Nat → Settlement ρ
  | none => .fulfilled
  | some p => (s.calls[p]?.map Call.tail).getD .pending

/-- `previous.catch(() => undefined)`, or `prev` as it is. -/
def awaited (lock : TailLock α κ) : Settlement ρ → Settlement ρ
  | .rejected reason => if lock.caught then .fulfilled else .rejected reason
  | .fulfilled => .fulfilled
  | .pending => .pending

/-- A call is changed. -/
def Tails.put (s : Tails κ ρ) (t : Nat) (call : Call κ ρ) : Tails κ ρ :=
  { s with calls := s.calls.set t call }

/-- What an event does with the call it is about. -/
def onCall (s : Tails κ ρ) (t : Nat) (f : Call κ ρ → Tails κ ρ) : Tails κ ρ :=
  match s.calls[t]? with
  | some call => f call
  | none => s

variable [DecidableEq κ]

/-- The function up to its first `await`. -/
def onCalled (lock : TailLock α κ) (args : α) (s : Tails κ ρ) : Tails κ ρ :=
  { s with
    tails := Function.update s.tails (lock.key args) (some s.calls.length)
    calls := s.calls ++ [⟨lock.key args, s.tails (lock.key args), .pending, .waiting⟩] }

/-- The `finally` block: `release()`, and the entry is deleted if it is still one's own. -/
def onEnded (t : Nat) (outcome : ρ) (s : Tails κ ρ) (call : Call κ ρ) : Tails κ ρ :=
  { s with
    tails := if s.tails call.key = some t then Function.update s.tails call.key none else s.tails
    calls := s.calls.set t { call with body := .done outcome }
    ended := s.ended ++ [t] }

/-- What an event does. A promise that has settled stays as it is, and nothing goes on that still
waits for one that has not. -/
def step (lock : TailLock α κ) : Event α ρ → Tails κ ρ → Tails κ ρ
  | .called args, s => lock.onCalled args s
  | .resumed t, s => onCall s t fun call =>
    match call.body, lock.awaited (s.previous call.previous) with
    | .waiting, .fulfilled =>
      { s with
        calls := s.calls.set t { call with body := .running }
        started := s.started ++ [t] }
    | .waiting, .rejected reason => s.put t { call with body := .refused reason }
    | _, _ => s
  | .settled t, s => onCall s t fun call =>
    match call.tail, (lock.awaited (s.previous call.previous)).andThen call.held with
    | .pending, .fulfilled => s.put t { call with tail := .fulfilled }
    | .pending, .rejected reason => s.put t { call with tail := .rejected reason }
    | _, _ => s
  | .ended t outcome, s => onCall s t fun call =>
    match call.body with
    | .running => onEnded t outcome s call
    | _ => s

/-! ## What is seen of it -/

/-- The keys of the calls. -/
def Tails.keys (s : Tails κ ρ) : List κ := s.calls.map Call.key

/-- The calls of a key. -/
def Tails.service (s : Tails κ ρ) (k : κ) : Service := serviceOf s.keys s.started s.ended k

/-- A tail lock, as a system that locks. -/
def locking (lock : TailLock α κ) (ρ : Type) : Locking (Tails κ ρ) (Event α ρ) κ ρ where
  start := .empty
  step := lock.step
  reaction event := match event with
    | .resumed _ => true
    | .settled _ => true
    | _ => false
  ends := .ended
  service := Tails.service
  result s t := s.calls[t]?.bind Call.result
  entry s k := (s.tails k).isSome

/-! ## The lock behind it -/

/-- What a call does with the lock. -/
def Body.hold : Body ρ → Hold
  | .waiting => .waiting
  | .running => .holding
  | .done _ => .released
  | .refused _ => .released

/-- A promise is fulfilled. -/
def Settlement.isFulfilled : Settlement ρ → Bool
  | .fulfilled => true
  | _ => false

/-- A call, as a ticket. -/
def Call.ticket (call : Call κ ρ) : Ticket κ := ⟨call.key, call.previous, call.body.hold, call.tail.isFulfilled⟩

/-- The tails, as a lock made of promises. -/
def Tails.lock (s : Tails κ ρ) : PromiseLock κ :=
  ⟨s.tails, fun t => s.calls[t]?.map Call.ticket, s.calls.length⟩

/-- What holds in any order of events: the tickets are in order, a call takes the promise of an
earlier one, nothing is rejected, and the two logs say where the calls stand. -/
structure Sound (s : Tails κ ρ) : Prop where
  lock : s.lock.Ok
  earlier : ∀ (t : Nat) (call : Call κ ρ) p, s.calls[t]? = some call → call.previous = some p → p < t
  kept : ∀ (t : Nat) (call : Call κ ρ), s.calls[t]? = some call →
    (∀ reason, call.body ≠ .refused reason) ∧ ∀ reason, call.tail ≠ .rejected reason
  started : ∀ t : Nat, t ∈ s.started ↔ ∃ call, s.calls[t]? = some call ∧ call.body ≠ .waiting
  ended : ∀ t : Nat, t ∈ s.ended ↔ ∃ call r, s.calls[t]? = some call ∧ call.body = .done r
  fair : ∀ k, (s.service k).Fair

variable {lock : TailLock α κ} {s : Tails κ ρ}

omit [DecidableEq κ] in
theorem lt_length_of_get {t : Nat} {call : Call κ ρ} (h : s.calls[t]? = some call) : t < s.calls.length :=
  (List.getElem?_eq_some_iff.mp h).1

omit [DecidableEq κ] in
theorem isSettled_lock (s : Tails κ ρ) (p : Option Nat) :
    s.lock.isSettled p = (s.previous p).isFulfilled := by
  cases p with
  | none => rfl
  | some p =>
    show (((s.calls[p]?.map Call.ticket).map Ticket.settled).getD false) = _
    rw [Tails.previous]
    cases s.calls[p]? with
    | none => rfl
    | some call => rfl

theorem isFulfilled_iff {promise : Settlement ρ} : promise.isFulfilled = true ↔ promise = .fulfilled := by
  cases promise with
  | fulfilled => exact ⟨fun _ => rfl, fun _ => rfl⟩
  | pending => exact ⟨nofun, nofun⟩
  | rejected reason => exact ⟨nofun, nofun⟩

/-- No promise that a call waits for is rejected, so it makes no difference whether it is caught. -/
theorem Sound.previous_cases (h : Sound s) (lock : TailLock α κ) (p : Option Nat) :
    (s.previous p = .pending ∧ lock.awaited (s.previous p) = .pending) ∨
      (s.previous p = .fulfilled ∧ lock.awaited (s.previous p) = .fulfilled) := by
  have hkept : ∀ reason, s.previous p ≠ .rejected reason := by
    intro reason hp
    cases p with
    | none => cases hp
    | some p =>
      rw [Tails.previous] at hp
      cases hcall : s.calls[p]? with
      | none =>
        rw [hcall] at hp
        cases hp
      | some call =>
        rw [hcall] at hp
        exact (h.kept p call hcall).2 reason hp
  cases hp : s.previous p with
  | pending => exact Or.inl ⟨rfl, rfl⟩
  | fulfilled => exact Or.inr ⟨rfl, rfl⟩
  | rejected reason => exact absurd hp (hkept reason)

variable (lock) in
/-- What an event can do. -/
theorem step_cases (h : Sound s) (event : Event α ρ) :
    (∃ args, event = .called args) ∨ lock.step event s = s ∨
    (∃ t call, event = .resumed t ∧ s.calls[t]? = some call ∧ call.body = .waiting ∧
      s.previous call.previous = .fulfilled ∧
      lock.step event s =
        { s with calls := s.calls.set t { call with body := .running }, started := s.started ++ [t] }) ∨
    (∃ t call r, event = .settled t ∧ s.calls[t]? = some call ∧ call.body = .done r ∧
      call.tail = .pending ∧ s.previous call.previous = .fulfilled ∧
      lock.step event s = s.put t { call with tail := .fulfilled }) ∨
    (∃ t call r, event = .ended t r ∧ s.calls[t]? = some call ∧ call.body = .running ∧
      lock.step event s = onEnded t r s call) := by
  cases event with
  | called args => exact Or.inl ⟨args, rfl⟩
  | resumed t =>
    cases hcall : s.calls[t]? with
    | none => exact Or.inr (Or.inl (by rw [step, onCall, hcall]))
    | some call =>
      rcases h.previous_cases lock call.previous with ⟨hp, ha⟩ | ⟨hp, ha⟩
      · refine Or.inr (Or.inl ?_)
        rw [step, onCall, hcall]
        dsimp only
        rw [ha]
        cases call.body <;> rfl
      · cases hbody : call.body with
        | waiting =>
          refine Or.inr (Or.inr (Or.inl ⟨t, call, rfl, hcall, hbody, hp, ?_⟩))
          rw [step, onCall, hcall]
          dsimp only
          rw [ha, hbody]
        | running =>
          refine Or.inr (Or.inl ?_)
          rw [step, onCall, hcall]
          dsimp only
          rw [hbody]
        | done r =>
          refine Or.inr (Or.inl ?_)
          rw [step, onCall, hcall]
          dsimp only
          rw [hbody]
        | refused reason => exact absurd hbody ((h.kept t call hcall).1 reason)
  | settled t =>
    cases hcall : s.calls[t]? with
    | none => exact Or.inr (Or.inl (by rw [step, onCall, hcall]))
    | some call =>
      cases htail : call.tail with
      | fulfilled =>
        refine Or.inr (Or.inl ?_)
        rw [step, onCall, hcall]
        dsimp only
        rw [htail]
      | rejected reason => exact absurd htail ((h.kept t call hcall).2 reason)
      | pending =>
        rcases h.previous_cases lock call.previous with ⟨hp, ha⟩ | ⟨hp, ha⟩
        · refine Or.inr (Or.inl ?_)
          rw [step, onCall, hcall]
          dsimp only
          rw [ha, htail]
          rfl
        · cases hbody : call.body with
          | done r =>
            refine Or.inr (Or.inr (Or.inr (Or.inl ⟨t, call, r, rfl, hcall, hbody, htail, hp, ?_⟩)))
            rw [step, onCall, hcall]
            dsimp only
            rw [ha, htail, Settlement.andThen, Call.held, hbody]
          | refused reason => exact absurd hbody ((h.kept t call hcall).1 reason)
          | waiting =>
            refine Or.inr (Or.inl ?_)
            rw [step, onCall, hcall]
            dsimp only
            rw [ha, htail, Settlement.andThen, Call.held, hbody]
          | running =>
            refine Or.inr (Or.inl ?_)
            rw [step, onCall, hcall]
            dsimp only
            rw [ha, htail, Settlement.andThen, Call.held, hbody]
  | ended t r =>
    cases hcall : s.calls[t]? with
    | none => exact Or.inr (Or.inl (by rw [step, onCall, hcall]))
    | some call =>
      cases hbody : call.body with
      | running =>
        refine Or.inr (Or.inr (Or.inr (Or.inr ⟨t, call, r, rfl, hcall, hbody, ?_⟩)))
        rw [step, onCall, hcall]
        dsimp only
        rw [hbody]
      | waiting =>
        refine Or.inr (Or.inl ?_)
        rw [step, onCall, hcall]
        dsimp only
        rw [hbody]
      | done r' =>
        refine Or.inr (Or.inl ?_)
        rw [step, onCall, hcall]
        dsimp only
        rw [hbody]
      | refused reason => exact absurd hbody ((h.kept t call hcall).1 reason)

/-! ## Every event keeps it -/

omit [DecidableEq κ] in
theorem keys_get {t : Nat} {call : Call κ ρ} (hcall : s.calls[t]? = some call) :
    s.keys[t]? = some call.key := by
  rw [Tails.keys, List.getElem?_map, hcall, Option.map_some]

omit [DecidableEq κ] in
theorem exists_call_of_keys {t : Nat} {k : κ} (h : s.keys[t]? = some k) :
    ∃ call, s.calls[t]? = some call ∧ call.key = k := by
  rw [Tails.keys, List.getElem?_map] at h
  exact Option.map_eq_some_iff.mp h

omit [DecidableEq κ] in
theorem ticket_set {t : Nat} {call : Call κ ρ} (call' : Call κ ρ) (hcall : s.calls[t]? = some call) :
    (fun u => (s.calls.set t call')[u]?.map Call.ticket) =
      Function.update s.lock.ticket t (some call'.ticket) := by
  funext u
  rw [getElem?_replaced call' hcall]
  by_cases hu : u = t
  · rw [if_pos hu, hu, Function.update_self, Option.map_some]
  · rw [if_neg hu, Function.update_of_ne hu]
    rfl

theorem lock_onCalled (args : α) (s : Tails κ ρ) :
    (lock.onCalled args s).lock = s.lock.acquire (lock.key args) := by
  have hticket : (fun u => (lock.onCalled args s).calls[u]?.map Call.ticket) =
      (s.lock.acquire (lock.key args)).ticket := by
    funext u
    show ((s.calls ++ [_])[u]?.map Call.ticket) = Function.update s.lock.ticket s.calls.length _ u
    rw [getElem?_pushed]
    by_cases hu : u = s.calls.length
    · rw [if_pos hu, hu, Function.update_self]
      rfl
    · rw [if_neg hu, Function.update_of_ne hu]
      rfl
  have hissued : (lock.onCalled args s).calls.length = s.calls.length + 1 := List.length_append
  rw [Tails.lock, hticket, hissued]
  rfl

theorem Sound.called (h : Sound s) (args : α) : Sound (lock.onCalled args s) := by
  have hget := fun u => @getElem?_pushed _ s.calls
    (⟨lock.key args, s.tails (lock.key args), .pending, .waiting⟩ : Call κ ρ) u
  constructor
  · rw [lock_onCalled]
    exact h.lock.acquire _
  · intro t call p hcall hp
    change (s.calls ++ [_])[t]? = some call at hcall
    rw [hget] at hcall
    split at hcall
    · rename_i ht
      obtain rfl := Option.some.inj hcall
      obtain ⟨x, hx, -⟩ := h.lock.present _ p hp
      rw [ht]
      exact h.lock.issued p x hx
    · exact h.earlier t call p hcall hp
  · intro t call hcall
    change (s.calls ++ [_])[t]? = some call at hcall
    rw [hget] at hcall
    split at hcall
    · obtain rfl := Option.some.inj hcall
      exact ⟨fun _ => nofun, fun _ => nofun⟩
    · exact h.kept t call hcall
  · intro t
    show t ∈ s.started ↔ ∃ call, (s.calls ++ [_])[t]? = some call ∧ _
    rw [hget, h.started]
    split
    · rename_i ht
      constructor
      · rintro ⟨call, hcall, -⟩
        exact absurd (lt_length_of_get hcall) (by omega)
      · rintro ⟨call, hcall, hbody⟩
        obtain rfl := Option.some.inj hcall
        exact absurd rfl hbody
    · exact Iff.rfl
  · intro t
    show t ∈ s.ended ↔ ∃ call r, (s.calls ++ [_])[t]? = some call ∧ _
    rw [hget, h.ended]
    split
    · rename_i ht
      constructor
      · rintro ⟨call, -, hcall, -⟩
        exact absurd (lt_length_of_get hcall) (by omega)
      · rintro ⟨call, r, hcall, hbody⟩
        obtain rfl := Option.some.inj hcall
        cases hbody
    · exact Iff.rfl
  · intro k
    have hkeys : (lock.onCalled args s).keys = s.keys ++ [lock.key args] := List.map_append
    have hlength : s.keys.length = s.calls.length := List.length_map _
    rw [Tails.service, hkeys]
    show (serviceOf _ s.started s.ended k).Fair
    rw [serviceOf_call]
    · split
      · refine (h.fair k).call fun hmem => ?_
        have hlt := (List.getElem?_eq_some_iff.mp (mem_serviceOf_called.mp hmem)).1
        exact absurd hlt (Nat.lt_irrefl _)
      · exact h.fair k
    · intro u hu
      obtain ⟨call, hcall, -⟩ := (h.started u).mp hu
      exact hlength ▸ lt_length_of_get hcall
    · intro u hu
      obtain ⟨call, -, hcall, -⟩ := (h.ended u).mp hu
      exact hlength ▸ lt_length_of_get hcall

section Change

variable {t : Nat} {call : Call κ ρ}

/-- What all changes of one call have in common. -/
theorem Sound.change (h : Sound s) (call' : Call κ ρ) (hcall : s.calls[t]? = some call)
    (hprevious : call'.previous = call.previous)
    (hkept : (∀ reason, call'.body ≠ .refused reason) ∧ ∀ reason, call'.tail ≠ .rejected reason)
    {s' : Tails κ ρ} (hcalls : s'.calls = s.calls.set t call') (hlock : s'.lock.Ok)
    (hstarted : ∀ u : Nat, u ∈ s'.started ↔ u ∈ s.started ∨ (u = t ∧ call'.body ≠ .waiting))
    (hwaiting : call'.body = .waiting → call.body = .waiting)
    (hended : ∀ u : Nat, u ∈ s'.ended ↔ u ∈ s.ended ∨ (u = t ∧ ∃ r, call'.body = .done r))
    (hdone : ∀ r, call.body = .done r → ∃ r', call'.body = .done r')
    (hfair : ∀ k, (s'.service k).Fair) : Sound s' := by
  have hget := fun u => hcalls ▸ getElem?_replaced call' hcall u
  constructor
  · exact hlock
  · intro u c p hc hp
    rw [hget] at hc
    split at hc
    · rename_i hu
      obtain rfl := Option.some.inj hc
      exact hu ▸ h.earlier t call p hcall (hprevious ▸ hp)
    · exact h.earlier u c p hc hp
  · intro u c hc
    rw [hget] at hc
    split at hc
    · obtain rfl := Option.some.inj hc
      exact hkept
    · exact h.kept u c hc
  · intro u
    rw [hstarted, hget, h.started]
    split
    · rename_i hu
      subst hu
      constructor
      · rintro (⟨c, hc, hbody⟩ | ⟨-, hbody⟩)
        · obtain rfl := Option.some.inj (hcall.symm.trans hc)
          exact ⟨call', rfl, fun hw => hbody (hwaiting hw)⟩
        · exact ⟨call', rfl, hbody⟩
      · rintro ⟨c, hc, hbody⟩
        obtain rfl := Option.some.inj hc
        exact Or.inr ⟨rfl, hbody⟩
    · rename_i hu
      constructor
      · rintro (hold | ⟨heq, -⟩)
        · exact hold
        · exact absurd heq hu
      · exact Or.inl
  · intro u
    rw [hended, hget, h.ended]
    split
    · rename_i hu
      subst hu
      constructor
      · rintro (⟨c, r, hc, hbody⟩ | ⟨-, r, hbody⟩)
        · obtain rfl := Option.some.inj (hcall.symm.trans hc)
          obtain ⟨r', hr'⟩ := hdone r hbody
          exact ⟨call', r', rfl, hr'⟩
        · exact ⟨call', r, rfl, hbody⟩
      · rintro ⟨c, r, hc, hbody⟩
        obtain rfl := Option.some.inj hc
        exact Or.inr ⟨rfl, r, hbody⟩
    · rename_i hu
      constructor
      · rintro (hold | ⟨heq, -⟩)
        · exact hold
        · exact absurd heq hu
      · exact Or.inl
  · exact hfair

omit [DecidableEq κ] in
/-- The lock after a change of one call. -/
theorem lock_change (call' : Call κ ρ) (hcall : s.calls[t]? = some call) (s' : Tails κ ρ)
    (hcalls : s'.calls = s.calls.set t call') :
    s'.lock = ⟨s'.tails, Function.update s.lock.ticket t (some call'.ticket), s.calls.length⟩ := by
  have hticket := ticket_set call' hcall
  rw [Tails.lock, hcalls, hticket, List.length_set]

theorem Sound.resumed (h : Sound s) (hcall : s.calls[t]? = some call) (hbody : call.body = .waiting)
    (hp : s.previous call.previous = .fulfilled) :
    Sound { s with calls := s.calls.set t { call with body := .running }, started := s.started ++ [t] } := by
  have hx : s.lock.ticket t = some call.ticket := congrArg (Option.map Call.ticket) hcall
  have hsettled : s.lock.isSettled call.ticket.prev = true := by
    rw [isSettled_lock]
    exact isFulfilled_iff.mpr hp
  have hbelow := h.lock.releasedBelow hx hsettled
  have hnew : t ∉ s.started := fun hmem => by
    obtain ⟨c, hc, hne⟩ := (h.started t).mp hmem
    obtain rfl := Option.some.inj (hcall.symm.trans hc)
    exact hne hbody
  refine h.change { call with body := .running } hcall rfl ⟨fun _ => nofun, (h.kept t call hcall).2⟩ rfl ?_ ?_
    nofun ?_
    (fun r hr => nomatch hbody.symm.trans hr) fun k => ?_
  · have hlock := lock_change { call with body := .running } hcall
      ({ s with calls := s.calls.set t { call with body := .running }, started := s.started ++ [t] }) rfl
    have henter := h.lock.enter t
    have hwait : call.ticket.hold = .waiting := congrArg Body.hold hbody
    rw [PromiseLock.enter, hx] at henter
    dsimp only at henter
    rw [if_pos ⟨hwait, hsettled⟩] at henter
    rw [hlock]
    exact henter
  · intro u
    rw [List.mem_append, List.mem_singleton]
    exact or_congr_right ⟨fun hu => ⟨hu, nofun⟩, fun hu => hu.1⟩
  · intro u
    exact ⟨Or.inl, fun hu => hu.resolve_right fun ⟨_, r, hr⟩ => nomatch hr⟩
  · -- the call is the next of its key, since all before it have let go
    have hkeys : (s.calls.set t { call with body := .running }).map Call.key = s.keys :=
      map_replaced Call.key hcall rfl
    show (serviceOf ((s.calls.set t { call with body := .running }).map Call.key) (s.started ++ [t])
      s.ended k).Fair
    rw [hkeys, serviceOf_start (keys_get hcall)]
    split
    · rename_i hk
      subst hk
      obtain ⟨hidle, hnext⟩ := (h.fair call.key).next serviceOf_ascending
        (mem_serviceOf_called.mpr (keys_get hcall))
        (fun hmem => hnew (mem_serviceOf_started.mp hmem).1) fun u hu hlt => by
          have hukey := mem_serviceOf_called.mp hu
          obtain ⟨c, hc, hkey⟩ := exists_call_of_keys hukey
          have hreleased := hbelow u c.ticket (congrArg (Option.map Call.ticket) hc) hkey hlt
          have hmem : u ∈ s.ended := by
            refine (h.ended u).mpr ?_
            cases hb : c.body with
            | done r => exact ⟨c, r, hc, hb⟩
            | refused reason => exact absurd hb ((h.kept u c hc).1 reason)
            | waiting => exact nomatch (congrArg Body.hold hb).symm.trans hreleased
            | running => exact nomatch (congrArg Body.hold hb).symm.trans hreleased
          exact mem_serviceOf_ended.mpr ⟨hmem, hukey⟩
      exact (h.fair call.key).start hidle hnext
    · exact h.fair k

theorem Sound.settled (h : Sound s) {r : ρ} (hcall : s.calls[t]? = some call) (hbody : call.body = .done r)
    (hp : s.previous call.previous = .fulfilled) : Sound (s.put t { call with tail := .fulfilled }) := by
  have hx : s.lock.ticket t = some call.ticket := congrArg (Option.map Call.ticket) hcall
  have hsettled : s.lock.isSettled call.ticket.prev = true := by
    rw [isSettled_lock]
    exact isFulfilled_iff.mpr hp
  have hin : t ∈ s.ended := (h.ended t).mpr ⟨call, r, hcall, hbody⟩
  have hstarted : t ∈ s.started := (h.started t).mpr ⟨call, hcall, fun hw => nomatch hbody.symm.trans hw⟩
  refine h.change { call with tail := .fulfilled } hcall rfl ⟨(h.kept t call hcall).1, fun _ => nofun⟩ rfl ?_ ?_ id ?_
    (fun r' hr' => ⟨r', hr'⟩) fun k => ?_
  · have hlock := lock_change { call with tail := .fulfilled } hcall
      (s.put t { call with tail := .fulfilled }) rfl
    have hsettle := h.lock.settle t
    have hreleased : call.ticket.hold = .released := congrArg Body.hold hbody
    rw [PromiseLock.settle, hx] at hsettle
    dsimp only at hsettle
    rw [if_pos ⟨hreleased, hsettled⟩] at hsettle
    rw [hlock]
    exact hsettle
  · intro u
    exact ⟨Or.inl, fun hu => hu.elim id fun ⟨heq, _⟩ => heq ▸ hstarted⟩
  · intro u
    exact ⟨Or.inl, fun hu => hu.elim id fun ⟨heq, _⟩ => heq ▸ hin⟩
  · have hkeys : (s.calls.set t { call with tail := .fulfilled }).map Call.key = s.keys :=
      map_replaced Call.key hcall rfl
    show (serviceOf ((s.calls.set t { call with tail := .fulfilled }).map Call.key) s.started s.ended k).Fair
    rw [hkeys]
    exact h.fair k

theorem Sound.finished (h : Sound s) (r : ρ) (hcall : s.calls[t]? = some call) (hbody : call.body = .running) :
    Sound (onEnded t r s call) := by
  have hx : s.lock.ticket t = some call.ticket := congrArg (Option.map Call.ticket) hcall
  have hstarted : t ∈ s.started := (h.started t).mpr ⟨call, hcall, fun hw => nomatch hbody.symm.trans hw⟩
  have hnew : t ∉ s.ended := fun hmem => by
    obtain ⟨c, r', hc, hdone⟩ := (h.ended t).mp hmem
    obtain rfl := Option.some.inj (hcall.symm.trans hc)
    exact nomatch hbody.symm.trans hdone
  refine h.change { call with body := .done r } hcall rfl ⟨fun _ => nofun, (h.kept t call hcall).2⟩ rfl ?_ ?_
    nofun ?_
    (fun r' hr' => nomatch hbody.symm.trans hr') fun k => ?_
  · have hlock := lock_change { call with body := .done r } hcall
      (onEnded t r s call) rfl
    have hletGo := h.lock.letGo t
    have hholding : call.ticket.hold = .holding := congrArg Body.hold hbody
    rw [PromiseLock.letGo, hx] at hletGo
    dsimp only at hletGo
    rw [if_pos hholding] at hletGo
    rw [hlock]
    exact hletGo
  · intro u
    exact ⟨Or.inl, fun hu => hu.elim id fun ⟨heq, _⟩ => heq ▸ hstarted⟩
  · intro u
    show u ∈ s.ended ++ [t] ↔ _
    rw [List.mem_append, List.mem_singleton]
    exact or_congr_right ⟨fun hu => ⟨hu, r, rfl⟩, fun hu => hu.1⟩
  · have hkeys : (s.calls.set t { call with body := .done r }).map Call.key = s.keys :=
      map_replaced Call.key hcall rfl
    show (serviceOf ((s.calls.set t { call with body := .done r }).map Call.key) s.started
      (s.ended ++ [t]) k).Fair
    rw [hkeys, serviceOf_end (keys_get hcall)]
    split
    · rename_i hk
      subst hk
      exact (h.fair call.key).finish (mem_serviceOf_started.mpr ⟨hstarted, keys_get hcall⟩)
        fun hmem => hnew (mem_serviceOf_ended.mp hmem).1
    · exact h.fair k

end Change

theorem sound_empty : Sound (Tails.empty : Tails κ ρ) where
  lock := PromiseLock.ok_empty
  earlier _ _ _ h := nomatch h
  kept _ _ h := nomatch h
  started _ := ⟨nofun, fun ⟨_, h, _⟩ => nomatch h⟩
  ended _ := ⟨nofun, fun ⟨_, _, h, _⟩ => nomatch h⟩
  fair _ := Service.fair_empty

theorem Sound.step (h : Sound s) (event : Event α ρ) : Sound (lock.step event s) := by
  rcases step_cases lock h event with ⟨args, rfl⟩ | hsame |
    ⟨t, call, -, hcall, hbody, hp, hstep⟩ | ⟨t, call, r, -, hcall, hbody, -, hp, hstep⟩ |
    ⟨t, call, r, -, hcall, hbody, hstep⟩
  · exact h.called args
  · rw [hsame]
    exact h
  · rw [hstep]
    exact h.resumed hcall hbody hp
  · rw [hstep]
    exact h.settled hcall hbody hp
  · rw [hstep]
    exact h.finished r hcall hbody

/-! ## Reactions -/

/-- Nothing more happens by itself. -/
def Quiet (lock : TailLock α κ) (s : Tails κ ρ) : Prop :=
  ∀ event, (lock.locking ρ).reaction event = true → lock.step event s = s

/-- The promise that a call took is fulfilled when those of all earlier calls of its key are. -/
theorem Sound.previous_fulfilled (h : Sound s) {t : Nat} {call : Call κ ρ} (hcall : s.calls[t]? = some call)
    (hbelow : ∀ u c, u < t → s.calls[u]? = some c → c.key = call.key → c.tail = .fulfilled) :
    s.previous call.previous = .fulfilled := by
  cases hp : call.previous with
  | none => rfl
  | some p =>
    have hx : s.lock.ticket t = some call.ticket := congrArg (Option.map Call.ticket) hcall
    obtain ⟨y, hy, hkey⟩ := h.lock.same t call.ticket p hx hp
    obtain ⟨c, hc, rfl⟩ := Option.map_eq_some_iff.mp hy
    rw [Tails.previous, hc, Option.map_some, Option.getD_some]
    exact hbelow p c (h.earlier t call p hcall hp) hc hkey

/-- Once nothing more happens, a call that has let go, with all earlier ones of its key, has a
settled promise. -/
theorem Sound.fulfilled_of_quiet (h : Sound s) (hquiet : Quiet lock s) (t : Nat) {call : Call κ ρ}
    (hcall : s.calls[t]? = some call)
    (hended : ∀ u c, u ≤ t → s.calls[u]? = some c → c.key = call.key → u ∈ s.ended) :
    call.tail = .fulfilled := by
  induction t using Nat.strongRecOn generalizing call with
  | _ t ih =>
    cases htail : call.tail with
    | fulfilled => rfl
    | rejected reason => exact absurd htail ((h.kept t call hcall).2 reason)
    | pending =>
      have hp : s.previous call.previous = .fulfilled := h.previous_fulfilled hcall fun u c hlt hc hkey =>
        ih u hlt hc fun v d hv hd hdkey =>
          hended v d (Nat.le_trans hv (Nat.le_of_lt hlt)) hd (hdkey.trans hkey)
      obtain ⟨c, r, hc, hdone⟩ := (h.ended t).mp (hended t call (Nat.le_refl t) hcall rfl)
      obtain rfl := Option.some.inj (hcall.symm.trans hc)
      -- the promise could settle, so something would happen
      have hstep : lock.step (.settled t) s = s.put t { call with tail := .fulfilled } := by
        rw [TailLock.step, onCall, hcall]
        dsimp only
        rw [hp, htail, Call.held, hdone]
        rfl
      have hsame := congrArg (fun s' : Tails κ ρ => s'.calls[t]?) (hstep.symm.trans (hquiet (.settled t) rfl))
      rw [Tails.put, getElem?_replaced _ hcall, if_pos rfl, hcall] at hsame
      have htails := congrArg Call.tail (Option.some.inj hsame)
      rw [htail] at htails
      cases htails

/-- Once nothing more happens, some call of a key runs if any waits. -/
theorem Sound.live (h : Sound s) (hquiet : Quiet lock s) {k : κ} (hwait : (s.service k).waiting ≠ []) :
    (s.service k).running ≠ [] := by
  intro hidle
  obtain ⟨t, ht, hnew, hbelow⟩ := (h.fair k).first_waiting serviceOf_ascending hidle hwait
  obtain ⟨call, hcall, rfl⟩ := exists_call_of_keys (mem_serviceOf_called.mp ht)
  have hmem : ∀ u c, u < t → s.calls[u]? = some c → c.key = call.key → u ∈ s.ended := by
    intro u c hlt hc hkey
    exact (mem_serviceOf_ended.mp (hbelow u (mem_serviceOf_called.mpr (hkey ▸ keys_get hc)) hlt)).1
  have hp : s.previous call.previous = .fulfilled := h.previous_fulfilled hcall fun u c hlt hc hkey =>
    h.fulfilled_of_quiet hquiet u hc fun v d hv hd hdkey =>
      hmem v d (Nat.lt_of_le_of_lt hv hlt) hd (hdkey.trans hkey)
  have hbody : call.body = .waiting := by
    by_contra hne
    exact hnew (mem_serviceOf_started.mpr ⟨(h.started t).mpr ⟨call, hcall, hne⟩, keys_get hcall⟩)
  have hstep : lock.step (.resumed t) s =
      { s with calls := s.calls.set t { call with body := .running }, started := s.started ++ [t] } := by
    rw [TailLock.step, onCall, hcall]
    dsimp only
    rw [hp, hbody]
    rfl
  have hsame := congrArg Tails.started (hquiet (.resumed t) rfl)
  rw [hstep] at hsame
  have hlength := congrArg List.length hsame
  rw [List.length_append] at hlength
  exact absurd hlength (Nat.succ_ne_self _)

/-- What is left to do for a call: it waits, and its promise is to settle. -/
def Call.left (call : Call κ ρ) : Nat :=
  (match call.body with
    | .waiting => 1
    | _ => 0) +
  match call.tail with
    | .pending => 1
    | _ => 0

/-- A reaction changes nothing, or there is less left to do after it. -/
theorem left_step (lock : TailLock α κ) (s : Tails κ ρ) (event : Event α ρ)
    (hreaction : (lock.locking ρ).reaction event = true) :
    lock.step event s = s ∨
      ((lock.step event s).calls.map Call.left).sum < (s.calls.map Call.left).sum := by
  cases event with
  | called args => cases hreaction
  | ended t r => cases hreaction
  | resumed t =>
    cases hcall : s.calls[t]? with
    | none => exact Or.inl (by rw [step, onCall, hcall])
    | some call =>
      rw [step, onCall, hcall]
      dsimp only
      split
      · rename_i hbody _
        exact Or.inr (sum_map_set_lt hcall (by rw [Call.left, Call.left, hbody]; simp))
      · rename_i hbody _
        exact Or.inr (sum_map_set_lt hcall (by rw [Call.left, Call.left, hbody]; simp))
      · exact Or.inl rfl
  | settled t =>
    cases hcall : s.calls[t]? with
    | none => exact Or.inl (by rw [step, onCall, hcall])
    | some call =>
      rw [step, onCall, hcall]
      dsimp only
      split
      · rename_i htail _
        exact Or.inr (sum_map_set_lt hcall (by rw [Call.left, Call.left, htail]; simp))
      · rename_i htail _
        exact Or.inr (sum_map_set_lt hcall (by rw [Call.left, Call.left, htail]; simp))
      · exact Or.inl rfl

/-! ## The lock -/

/-- A call has a result only once its own operation has ended with it. -/
theorem result_step (h : Sound s) (event : Event α ρ) (t : Nat) (r : ρ)
    (hresult : (lock.locking ρ).result (lock.step event s) t = some r) :
    (lock.locking ρ).result s t = some r ∨ event = .ended t r := by
  change ((lock.step event s).calls[t]?.bind Call.result) = some r at hresult
  change (s.calls[t]?.bind Call.result) = some r ∨ _
  -- a change of call `u` shows in call `t` only when they are the same
  have hchange : ∀ {u call} (call' : Call κ ρ), s.calls[u]? = some call →
      ((s.calls.set u call')[t]?.bind Call.result) = some r →
      (t ≠ u ∧ (s.calls[t]?.bind Call.result) = some r) ∨ (t = u ∧ call'.result = some r) := by
    intro u call call' hcall hres
    rw [getElem?_replaced call' hcall] at hres
    by_cases hu : t = u
    · rw [if_pos hu] at hres
      exact Or.inr ⟨hu, hres⟩
    · rw [if_neg hu] at hres
      exact Or.inl ⟨hu, hres⟩
  rcases step_cases lock h event with ⟨args, rfl⟩ | hsame |
    ⟨u, call, -, hcall, hbody, hp, hstep⟩ | ⟨u, call, r', -, hcall, hbody, -, hp, hstep⟩ |
    ⟨u, call, r', rfl, hcall, hbody, hstep⟩
  · change ((s.calls ++ [_])[t]?.bind Call.result) = some r at hresult
    rw [getElem?_pushed] at hresult
    split at hresult
    · cases hresult
    · exact Or.inl hresult
  · rw [hsame] at hresult
    exact Or.inl hresult
  · rw [hstep] at hresult
    rcases hchange _ hcall hresult with ⟨-, hold⟩ | ⟨-, hnone⟩
    · exact Or.inl hold
    · cases hnone
  · rw [hstep] at hresult
    rcases hchange _ hcall hresult with ⟨-, hold⟩ | ⟨rfl, hsome⟩
    · exact Or.inl hold
    · rw [hcall]
      exact Or.inl hsome
  · rw [hstep] at hresult
    rcases hchange _ hcall hresult with ⟨-, hold⟩ | ⟨rfl, hsome⟩
    · exact Or.inl hold
    · obtain rfl := Option.some.inj hsome
      exact Or.inr rfl

/-- **A tail lock is a fair lock**, whether or not it catches a rejection of the promise it waits
for. -/
theorem isFifoMutex (lock : TailLock α κ) (ρ : Type) : (lock.locking ρ).IsFifoMutex := by
  have hsound : ∀ events, Sound (runs (lock.locking ρ).step events (lock.locking ρ).start) :=
    fun events => runs_invariant (fun event s hs => hs.step event) events sound_empty
  constructor
  · intro events k
    exact (hsound events).fair k
  · intro events t r hresult
    have hstart : ∀ r, (lock.locking ρ).result (lock.locking ρ).start t ≠ some r := fun _ => nofun
    rcases ends_mem_of_result (I := Sound) (fun event s hs => hs.step event)
      (fun event s t r hs => result_step hs event t r) events sound_empty hresult with h | h
    · exact absurd h (hstart r)
    · exact h
  · intro events k hquiet hwait
    exact (hsound events).live hquiet hwait
  · exact ⟨fun s => (s.calls.map Call.left).sum, fun s event => left_step lock s event⟩
  · intro events k hentry
    have hs := hsound events
    have hnone := Option.not_isSome_iff_eq_none.mp (fun h => Bool.false_ne_true (hentry.symm.trans h))
    refine (hs.fair k).ended_eq_called_of_subset fun t ht => ?_
    obtain ⟨call, hcall, rfl⟩ := exists_call_of_keys (mem_serviceOf_called.mp ht)
    have hreleased := hs.lock.released_of_absent hnone (congrArg (Option.map Call.ticket) hcall) rfl
    refine mem_serviceOf_ended.mpr ⟨(hs.ended t).mpr ?_, keys_get hcall⟩
    cases hbody : call.body with
    | done r => exact ⟨call, r, hcall, hbody⟩
    | refused reason => exact absurd hbody ((hs.kept t call hcall).1 reason)
    | waiting => exact nomatch (congrArg Body.hold hbody).symm.trans hreleased
    | running => exact nomatch (congrArg Body.hold hbody).symm.trans hreleased

end TailLock

end P2Party
