import P2Party.Base.FifoMutex
import Mathlib.Logic.Function.Basic

/-!
# `AsyncMutex` (`utils/mutex.ts`) and its registries (`api/webrtc/negotiationLock.ts`)

An `AsyncMutex` has a queue of resolvers. `release` hands the lock to the first of them without
unlocking, so nobody comes in between. The mutexes of a room and peer, or of a room and identity, are
found in a map; a call asks for the mutex and acquires it in one go. An edge that is over has its
mutex forgotten by a task that waits until the mutex is idle: for peers the task waits again when
it is not idle by then, for identities it gives up.

A mutex that is never forgotten is a registry whose tasks never start.

- `AsyncMutex.acquire`, `release`, `isIdle`, `whenIdle`: as in the source;
- `MutexRegistry.step`: calls, tasks and operations, in any order;
- `Held`, `Sound`: a mutex and the calls of its key, and what holds in any order of events;
- `MutexRegistry.isFifoMutex`: a registry serves one caller of a key at a time, in order.
-/

namespace P2Party

open Base

/-- `AsyncMutex`: the resolvers of the calls that wait, and those of the tasks that wait until it is
idle, by number. -/
structure AsyncMutex where
  queue : List Nat
  locked : Bool
  idleWaiters : List Nat

namespace AsyncMutex

/-- `new AsyncMutex()`. -/
def new : AsyncMutex := ⟨[], false, []⟩

/-- `acquire` (mutex.ts:20-29), and whether the promise is resolved at once. -/
def acquire (m : AsyncMutex) (call : Nat) : Bool × AsyncMutex :=
  if m.locked = false then (true, { m with locked := true })
  else (false, { m with queue := m.queue ++ [call] })

/-- `release` (mutex.ts:31-41): the call and the tasks whose promises are resolved. -/
def release (m : AsyncMutex) : Option Nat × List Nat × AsyncMutex :=
  match m.queue with
  | next :: rest => (some next, [], { m with queue := rest })
  | [] => (none, m.idleWaiters, { m with locked := false, idleWaiters := [] })

/-- `isIdle` (mutex.ts:43-45). -/
def isIdle (m : AsyncMutex) : Bool := !m.locked && m.queue.isEmpty

/-- `whenIdle` (mutex.ts:47-52), and whether the promise is resolved at once. -/
def whenIdle (m : AsyncMutex) (task : Nat) : Bool × AsyncMutex :=
  if m.isIdle = true then (true, m) else (false, { m with idleWaiters := m.idleWaiters ++ [task] })

end AsyncMutex

namespace MutexRegistry

/-- Where a call of `runExclusive` stands: `acquire` is pending, `acquire` is resolved, the
operation runs, the operation has ended and `release` was called. -/
inductive Body (ρ : Type)
  | waiting
  | granted
  | running
  | done (outcome : ρ)

/-- A call: its key, its mutex and where it stands. -/
structure Call (κ ρ : Type) where
  key : κ
  mutex : Nat
  body : Body ρ

/-- Where a task stands that is to forget a mutex. -/
inductive TaskState
  | waiting
  | resolved
  | finished

/-- A task that is to forget the mutex of a key. -/
structure Task (κ : Type) where
  key : κ
  mutex : Nat
  state : TaskState

/-- The map, where a mutex is named by its number, all mutexes, calls and tasks. The last two fields
say whose operations have started and ended, in that order. -/
structure Registry (κ ρ : Type) where
  map : κ → Option Nat
  mutexes : List AsyncMutex
  calls : List (Call κ ρ)
  tasks : List (Task κ)
  started : List Nat
  ended : List Nat

/-- `getRoomPeerMutex(key).runExclusive(..)` is called, its operation starts and ends;
`releaseRoomPeerMutex(key)` is called, and its task goes on after `whenIdle()`. -/
inductive Event (κ ρ : Type)
  | called (key : κ)
  | resumed (t : Nat)
  | ended (t : Nat) (outcome : ρ)
  | released (key : κ)
  | checked (w : Nat)

variable {κ ρ : Type}

/-- Nothing yet. -/
def Registry.empty : Registry κ ρ := ⟨fun _ => none, [], [], [], [], []⟩

/-- The mutex of a number. -/
def Registry.mutexAt (s : Registry κ ρ) (m : Nat) : AsyncMutex := s.mutexes.getD m .new

/-- The calls after one was granted the lock. -/
def grant (calls : List (Call κ ρ)) : Option Nat → List (Call κ ρ)
  | some t => calls.modify t fun call => { call with body := .granted }
  | none => calls

/-- The tasks after the promises of some were resolved. -/
def resolveTasks (tasks : List (Task κ)) (resolved : List Nat) : List (Task κ) :=
  resolved.foldl (fun tasks w => tasks.modify w fun task => { task with state := .resolved }) tasks

variable [DecidableEq κ]

/-- `getRoomPeerMutex`, `getRoomIdentityMutex` (negotiationLock.ts:23-35, 64-75). -/
def getMutex (s : Registry κ ρ) (key : κ) : Nat × Registry κ ρ :=
  match s.map key with
  | some m => (m, s)
  | none => (s.mutexes.length,
      { s with
        map := Function.update s.map key (some s.mutexes.length)
        mutexes := s.mutexes ++ [.new] })

/-- A mutex is acquired for a new call. -/
def acquireFor (key : κ) (m : Nat) (s : Registry κ ρ) : Registry κ ρ :=
  { s with
    mutexes := s.mutexes.set m ((s.mutexAt m).acquire s.calls.length).2
    calls := s.calls ++
      [⟨key, m, if ((s.mutexAt m).acquire s.calls.length).1 then .granted else .waiting⟩] }

/-- The `finally` block of `runExclusive`. -/
def onEnded (t : Nat) (outcome : ρ) (s : Registry κ ρ) (call : Call κ ρ) : Registry κ ρ :=
  { s with
    mutexes := s.mutexes.set call.mutex (s.mutexAt call.mutex).release.2.2
    calls := grant (s.calls.set t { call with body := .done outcome }) (s.mutexAt call.mutex).release.1
    tasks := resolveTasks s.tasks (s.mutexAt call.mutex).release.2.1
    ended := s.ended ++ [t] }

/-- `releaseRoomPeerMutex`, `releaseRoomIdentityMutex` up to the first `await`. -/
def onReleased (key : κ) (s : Registry κ ρ) : Registry κ ρ :=
  match s.map key with
  | none => s
  | some m =>
    { s with
      mutexes := s.mutexes.set m ((s.mutexAt m).whenIdle s.tasks.length).2
      tasks := s.tasks ++
        [⟨key, m, if ((s.mutexAt m).whenIdle s.tasks.length).1 then .resolved else .waiting⟩] }

/-- What a task does when `whenIdle()` was resolved (negotiationLock.ts:50-57, 84-87). -/
def onChecked (loops : Bool) (w : Nat) (s : Registry κ ρ) (task : Task κ) : Registry κ ρ :=
  if (s.mutexAt task.mutex).isIdle = true then
    { s with
      map := if s.map task.key = some task.mutex then Function.update s.map task.key none else s.map
      tasks := s.tasks.set w { task with state := .finished } }
  else if loops = true then
    { s with
      mutexes := s.mutexes.set task.mutex ((s.mutexAt task.mutex).whenIdle w).2
      tasks := s.tasks.set w { task with state := .waiting } }
  else { s with tasks := s.tasks.set w { task with state := .finished } }

/-- What an event does. -/
def step (loops : Bool) : Event κ ρ → Registry κ ρ → Registry κ ρ
  | .called key, s => acquireFor key (getMutex s key).1 (getMutex s key).2
  | .resumed t, s =>
    match s.calls[t]? with
    | some ⟨key, mutex, .granted⟩ =>
      { s with calls := s.calls.set t ⟨key, mutex, .running⟩, started := s.started ++ [t] }
    | _ => s
  | .ended t outcome, s =>
    match s.calls[t]? with
    | some ⟨key, mutex, .running⟩ => onEnded t outcome s ⟨key, mutex, .running⟩
    | _ => s
  | .released key, s => onReleased key s
  | .checked w, s =>
    match s.tasks[w]? with
    | some ⟨key, mutex, .resolved⟩ => onChecked loops w s ⟨key, mutex, .resolved⟩
    | _ => s

/-- The keys of the calls. -/
def Registry.keys (s : Registry κ ρ) : List κ := s.calls.map Call.key

/-- The calls of a key. -/
def Registry.service (s : Registry κ ρ) (k : κ) : Service := serviceOf s.keys s.started s.ended k

/-- What a call gives to its caller. -/
def Call.result (call : Call κ ρ) : Option ρ :=
  match call.body with
  | .done outcome => some outcome
  | _ => none

/-- A registry, as a system that locks. -/
def locking (loops : Bool) (κ ρ : Type) [DecidableEq κ] : Locking (Registry κ ρ) (Event κ ρ) κ ρ where
  start := .empty
  step := step loops
  reaction event := match event with
    | .resumed _ => true
    | .checked _ => true
    | _ => false
  ends := .ended
  service := Registry.service
  result s t := s.calls[t]?.bind Call.result
  entry s k := (s.map k).isSome

/-! ## A mutex and the calls of its key -/

/-- An unlocked mutex has no call that has not ended. A locked one is held by the first of those,
whose operation runs or is about to, and the others are in its queue. -/
def Held (m : AsyncMutex) (service : Service) : Prop :=
  (m.locked = false ∧ m.queue = [] ∧ service.ended = service.called ∧ service.started = service.ended) ∨
    (m.locked = true ∧ ∃ t, service.called = service.ended ++ t :: m.queue ∧
      (service.started = service.ended ∨ service.started = service.ended ++ [t]))

/-- What holds in any order of events. A call that has not ended waits for the mutex of its key, or
holds it. -/
structure Sound (s : Registry κ ρ) : Prop where
  current : ∀ k m, s.map k = some m → m < s.mutexes.length
  apart : ∀ k k' m, s.map k = some m → s.map k' = some m → k = k'
  owned : ∀ (t : Nat) (call : Call κ ρ), s.calls[t]? = some call → (∀ r, call.body ≠ .done r) →
    s.map call.key = some call.mutex
  queued : ∀ k m (u : Nat), s.map k = some m → u ∈ (s.mutexAt m).queue →
    ∃ call, s.calls[u]? = some call ∧ call.body = .waiting
  waits : ∀ (t : Nat) (call : Call κ ρ), s.calls[t]? = some call → call.body = .waiting →
    t ∈ (s.mutexAt call.mutex).queue
  started : ∀ t : Nat, t ∈ s.started ↔
    ∃ call, s.calls[t]? = some call ∧ (call.body = .running ∨ ∃ r, call.body = .done r)
  ended : ∀ t : Nat, t ∈ s.ended ↔ ∃ call r, s.calls[t]? = some call ∧ call.body = .done r
  free : ∀ k, s.map k = none →
    (s.service k).ended = (s.service k).called ∧ (s.service k).started = (s.service k).ended
  held : ∀ k m, s.map k = some m → Held (s.mutexAt m) (s.service k)

variable {s : Registry κ ρ}

omit [DecidableEq κ] in
theorem keys_get {t : Nat} {call : Call κ ρ} (hcall : s.calls[t]? = some call) :
    s.keys[t]? = some call.key := by
  rw [Registry.keys, List.getElem?_map, hcall, Option.map_some]

theorem service_nodup (s : Registry κ ρ) (k : κ) : (s.service k).called.Nodup :=
  serviceOf_ascending.imp Nat.ne_of_lt

/-- The lists of a key are those of a fair lock. -/
theorem Sound.fair (h : Sound s) (k : κ) : (s.service k).Fair := by
  have hnodup := service_nodup s k
  cases hmap : s.map k with
  | none =>
    obtain ⟨hcalled, hstarted⟩ := h.free k hmap
    exact Service.fair_of_idle hnodup hstarted (hcalled ▸ List.prefix_rfl)
  | some m =>
    rcases h.held k m hmap with ⟨-, -, hcalled, hstarted⟩ | ⟨-, t, hcalled, hstarted | hstarted⟩
    · exact Service.fair_of_idle hnodup hstarted (hcalled ▸ List.prefix_rfl)
    · exact Service.fair_of_idle hnodup hstarted (hcalled ▸ List.prefix_append _ _)
    · constructor
      · exact hnodup
      · rw [hstarted, hcalled]
        exact ⟨(s.mutexAt m).queue, by simp⟩
      · rw [hstarted]
        exact List.prefix_append _ _
      · rw [hstarted, List.length_append]
        exact Nat.le_refl _

/-- A call that was granted the lock and has not ended is the one that holds the mutex of its key. -/
theorem Sound.holder (h : Sound s) {t : Nat} {call : Call κ ρ} (hcall : s.calls[t]? = some call)
    (hdone : ∀ r, call.body ≠ .done r) (hwait : call.body ≠ .waiting) :
    s.map call.key = some call.mutex ∧ (s.mutexAt call.mutex).locked = true ∧
      (s.service call.key).called = (s.service call.key).ended ++ t :: (s.mutexAt call.mutex).queue ∧
      ((s.service call.key).started = (s.service call.key).ended ∨
        (s.service call.key).started = (s.service call.key).ended ++ [t]) := by
  have hmap := h.owned t call hcall hdone
  have hmem : t ∈ (s.service call.key).called := mem_serviceOf_called.mpr (keys_get hcall)
  have hnotEnded : t ∉ (s.service call.key).ended := fun hin => by
    obtain ⟨c, r, hc, hbody⟩ := (h.ended t).mp (mem_serviceOf_ended.mp hin).1
    obtain rfl := Option.some.inj (hcall.symm.trans hc)
    exact hdone r hbody
  rcases h.held _ _ hmap with ⟨-, -, hcalled, -⟩ | ⟨hlocked, t', hcalled, hstarted⟩
  · exact absurd (hcalled ▸ hmem) hnotEnded
  · obtain rfl : t = t' := by
      rw [hcalled, List.mem_append] at hmem
      rcases List.mem_cons.mp (hmem.resolve_left hnotEnded) with heq | hqueue
      · exact heq
      · obtain ⟨c, hc, hbody⟩ := h.queued _ _ t hmap hqueue
        obtain rfl := Option.some.inj (hcall.symm.trans hc)
        exact absurd hbody hwait
    exact ⟨hmap, hlocked, hcalled, hstarted⟩

/-! ## Every event keeps it -/

theorem getD_set {mutexes : List AsyncMutex} {m : Nat} (hm : m < mutexes.length) (x : AsyncMutex) (m' : Nat) :
    (mutexes.set m x).getD m' .new = if m' = m then x else mutexes.getD m' .new := by
  rw [List.getD_eq_getElem?_getD, getElem?_replaced x (List.getElem?_eq_getElem hm)]
  by_cases heq : m' = m
  · rw [if_pos heq, if_pos heq, Option.getD_some]
  · rw [if_neg heq, if_neg heq, List.getD_eq_getElem?_getD]

theorem getD_pushed (mutexes : List AsyncMutex) (m' : Nat) :
    (mutexes ++ [AsyncMutex.new]).getD m' .new = mutexes.getD m' .new := by
  rw [List.getD_eq_getElem?_getD, getElem?_pushed, List.getD_eq_getElem?_getD]
  by_cases heq : m' = mutexes.length
  · rw [if_pos heq, heq, List.getElem?_eq_none (Nat.le_refl _)]
    rfl
  · rw [if_neg heq]

theorem sound_empty : Sound (Registry.empty : Registry κ ρ) where
  current _ _ h := nomatch h
  apart _ _ _ h := nomatch h
  owned _ _ h := nomatch h
  queued _ _ _ h := nomatch h
  waits _ _ h := nomatch h
  started _ := ⟨nofun, fun ⟨_, h, _⟩ => nomatch h⟩
  ended _ := ⟨nofun, fun ⟨_, _, h, _⟩ => nomatch h⟩
  free _ _ := ⟨rfl, rfl⟩
  held _ _ h := nomatch h

theorem Sound.getMutex (h : Sound s) (key : κ) :
    Sound (getMutex s key).2 ∧ (getMutex s key).2.map key = some (getMutex s key).1 := by
  unfold MutexRegistry.getMutex
  cases hmap : s.map key with
  | some m => exact ⟨h, hmap⟩
  | none =>
    refine ⟨?_, Function.update_self ..⟩
    have hat : ∀ m, (⟨Function.update s.map key (some s.mutexes.length), s.mutexes ++ [AsyncMutex.new],
        s.calls, s.tasks, s.started, s.ended⟩ : Registry κ ρ).mutexAt m = s.mutexAt m :=
      getD_pushed s.mutexes
    have hnew : s.mutexAt s.mutexes.length = AsyncMutex.new := by
      rw [Registry.mutexAt, List.getD_eq_getElem?_getD, List.getElem?_eq_none (Nat.le_refl _)]
      rfl
    have hcases : ∀ {k m}, Function.update s.map key (some s.mutexes.length) k = some m →
        (k = key ∧ m = s.mutexes.length) ∨ (k ≠ key ∧ s.map k = some m) := by
      intro k m hk
      by_cases heq : k = key
      · rw [heq, Function.update_self] at hk
        exact Or.inl ⟨heq, (Option.some.inj hk).symm⟩
      · rw [Function.update_of_ne heq] at hk
        exact Or.inr ⟨heq, hk⟩
    constructor
    · intro k m hk
      show m < (s.mutexes ++ [_]).length
      rw [List.length_append, List.length_singleton]
      rcases hcases hk with ⟨-, rfl⟩ | ⟨-, hk⟩
      · exact Nat.lt_succ_self _
      · exact Nat.lt_succ_of_lt (h.current k m hk)
    · intro k k' m hk hk'
      rcases hcases hk with ⟨rfl, rfl⟩ | ⟨-, hk⟩
      · rcases hcases hk' with ⟨rfl, -⟩ | ⟨-, hk'⟩
        · rfl
        · exact absurd (h.current _ _ hk') (Nat.lt_irrefl _)
      · rcases hcases hk' with ⟨-, rfl⟩ | ⟨-, hk'⟩
        · exact absurd (h.current _ _ hk) (Nat.lt_irrefl _)
        · exact h.apart k k' m hk hk'
    · intro t call hcall hdone
      have hold := h.owned t call hcall hdone
      have hne : call.key ≠ key := fun heq => by
        rw [heq, hmap] at hold
        cases hold
      exact (Function.update_of_ne hne ..).trans hold
    · intro k m u hk hu
      rw [hat] at hu
      rcases hcases hk with ⟨-, rfl⟩ | ⟨-, hk⟩
      · rw [hnew] at hu
        exact absurd hu List.not_mem_nil
      · exact h.queued k m u hk hu
    · intro t call hcall hbody
      rw [hat]
      exact h.waits t call hcall hbody
    · exact h.started
    · exact h.ended
    · intro k hk
      change Function.update s.map key (some s.mutexes.length) k = none at hk
      by_cases heq : k = key
      · rw [heq, Function.update_self] at hk
        cases hk
      · rw [Function.update_of_ne heq] at hk
        exact h.free k hk
    · intro k m hk
      rw [hat]
      rcases hcases hk with ⟨rfl, rfl⟩ | ⟨-, hk⟩
      · obtain ⟨hcalled, hstarted⟩ := h.free k hmap
        rw [hnew]
        exact Or.inl ⟨rfl, rfl, hcalled, hstarted⟩
      · exact h.held k m hk

/-- What `acquire` does with a mutex. -/
theorem acquire_cases (m : AsyncMutex) (call : Nat) :
    (m.locked = false ∧ m.acquire call = (true, { m with locked := true })) ∨
      (m.locked = true ∧ m.acquire call = (false, { m with queue := m.queue ++ [call] })) := by
  by_cases hfree : m.locked = false
  · exact Or.inl ⟨hfree, if_pos hfree⟩
  · exact Or.inr ⟨Bool.not_eq_false _ ▸ hfree, if_neg hfree⟩

theorem Sound.acquireFor (h : Sound s) {key : κ} {m : Nat} (hmap : s.map key = some m) :
    Sound (acquireFor key m s) := by
  have hm := h.current key m hmap
  have hat := fun m' => getD_set hm ((s.mutexAt m).acquire s.calls.length).2 m'
  have hget := fun u => @getElem?_pushed _ s.calls
    (⟨key, m, if ((s.mutexAt m).acquire s.calls.length).1 then .granted else .waiting⟩ : Call κ ρ) u
  have hbody : ∀ {body : Body ρ},
      (if ((s.mutexAt m).acquire s.calls.length).1 = true then Body.granted else .waiting) = body →
      body = .granted ∨ body = .waiting := by
    intro body hb
    split at hb
    · exact Or.inl hb.symm
    · exact Or.inr hb.symm
  have hservice : ∀ k, (MutexRegistry.acquireFor key m s).service k =
      if key = k then ⟨(s.service k).called ++ [s.calls.length], (s.service k).started, (s.service k).ended⟩
      else s.service k := by
    intro k
    have hkeys : (MutexRegistry.acquireFor key m s).keys = s.keys ++ [key] := List.map_append
    have hlength : s.keys.length = s.calls.length := List.length_map _
    rw [Registry.service, hkeys]
    show serviceOf _ s.started s.ended k = _
    rw [serviceOf_call, hlength]
    · rfl
    · intro u hu
      obtain ⟨call, hcall, -⟩ := (h.started u).mp hu
      exact hlength ▸ (List.getElem?_eq_some_iff.mp hcall).1
    · intro u hu
      obtain ⟨call, -, hcall, -⟩ := (h.ended u).mp hu
      exact hlength ▸ (List.getElem?_eq_some_iff.mp hcall).1
  constructor
  · intro k m' hk
    show m' < (s.mutexes.set m _).length
    rw [List.length_set]
    exact h.current k m' hk
  · exact h.apart
  · intro t call hcall hdone
    change (s.calls ++ [_])[t]? = some call at hcall
    rw [hget] at hcall
    split at hcall
    · obtain rfl := Option.some.inj hcall
      exact hmap
    · exact h.owned t call hcall hdone
  · intro k m' u hk hu
    change u ∈ ((s.mutexes.set m _).getD m' .new).queue at hu
    rw [hat] at hu
    show ∃ call, (s.calls ++ [_])[u]? = some call ∧ _
    rw [hget]
    have hold : u ∈ (s.mutexAt m').queue → ∃ call, (if u = s.calls.length then
        some (⟨key, m, if ((s.mutexAt m).acquire s.calls.length).1 then .granted else .waiting⟩ : Call κ ρ)
        else s.calls[u]?) = some call ∧ call.body = .waiting := by
      intro hu
      obtain ⟨call, hcall, hb⟩ := h.queued k m' u hk hu
      have hne := Nat.ne_of_lt (List.getElem?_eq_some_iff.mp hcall).1
      exact ⟨call, (if_neg hne).trans hcall, hb⟩
    split at hu
    · rename_i heq
      rcases acquire_cases (s.mutexAt m) s.calls.length with ⟨-, hacq⟩ | ⟨-, hacq⟩
      · rw [hacq] at hu
        exact hold (heq ▸ hu)
      · rw [hacq] at hu
        rcases List.mem_append.mp hu with hu | hu
        · exact hold (heq ▸ hu)
        · rw [List.mem_singleton.mp hu, if_pos rfl, hacq]
          exact ⟨_, rfl, rfl⟩
    · exact hold hu
  · intro t call hcall hb
    change (s.calls ++ [_])[t]? = some call at hcall
    rw [hget] at hcall
    show t ∈ ((s.mutexes.set m _).getD call.mutex .new).queue
    rw [hat]
    split at hcall
    · rename_i ht
      obtain rfl := Option.some.inj hcall
      rw [if_pos rfl]
      rcases acquire_cases (s.mutexAt m) s.calls.length with ⟨-, hacq⟩ | ⟨-, hacq⟩
      · rw [hacq] at hb
        cases hb
      · rw [hacq, ht]
        exact List.mem_append_right _ (List.mem_singleton_self _)
    · have hold := h.waits t call hcall hb
      split
      · rename_i heq
        rw [heq] at hold
        rcases acquire_cases (s.mutexAt m) s.calls.length with ⟨-, hacq⟩ | ⟨-, hacq⟩
        · rw [hacq]
          exact hold
        · rw [hacq]
          exact List.mem_append_left _ hold
      · exact hold
  · intro t
    show t ∈ s.started ↔ ∃ call, (s.calls ++ [_])[t]? = some call ∧ _
    rw [hget, h.started]
    split
    · rename_i ht
      constructor
      · rintro ⟨call, hcall, -⟩
        exact absurd (List.getElem?_eq_some_iff.mp hcall).1 (by omega)
      · rintro ⟨call, hcall, hb⟩
        obtain rfl := Option.some.inj hcall
        rcases hbody rfl with hg | hg
        · rcases hb with hb | ⟨r, hb⟩ <;> exact nomatch hg.symm.trans hb
        · rcases hb with hb | ⟨r, hb⟩ <;> exact nomatch hg.symm.trans hb
    · exact Iff.rfl
  · intro t
    show t ∈ s.ended ↔ ∃ call r, (s.calls ++ [_])[t]? = some call ∧ _
    rw [hget, h.ended]
    split
    · rename_i ht
      constructor
      · rintro ⟨call, -, hcall, -⟩
        exact absurd (List.getElem?_eq_some_iff.mp hcall).1 (by omega)
      · rintro ⟨call, r, hcall, hb⟩
        obtain rfl := Option.some.inj hcall
        rcases hbody rfl with hg | hg <;> exact nomatch hg.symm.trans hb
    · exact Iff.rfl
  · intro k hk
    have hne : key ≠ k := fun heq => by
      have hnone : s.map k = none := hk
      rw [← heq, hmap] at hnone
      cases hnone
    rw [hservice, if_neg hne]
    exact h.free k hk
  · intro k m' hk
    show Held ((s.mutexes.set m _).getD m' .new) _
    rw [hat, hservice]
    by_cases heq : key = k
    · subst heq
      obtain rfl : m' = m := Option.some.inj (hk.symm.trans hmap)
      rw [if_pos rfl, if_pos rfl]
      rcases acquire_cases (s.mutexAt m') s.calls.length with ⟨hfree, hacq⟩ | ⟨hlocked, hacq⟩
      · rcases h.held key m' hmap with ⟨-, hqueue, hcalled, hstarted⟩ | ⟨hlocked, -⟩
        · rw [hacq]
          refine Or.inr ⟨rfl, s.calls.length, ?_, Or.inl hstarted⟩
          dsimp only
          rw [hqueue, hcalled]
        · exact absurd (hfree.symm.trans hlocked) Bool.false_ne_true
      · rcases h.held key m' hmap with ⟨hfree, -⟩ | ⟨-, t, hcalled, hstarted⟩
        · exact absurd (hfree.symm.trans hlocked) Bool.false_ne_true
        · rw [hacq]
          refine Or.inr ⟨hlocked, t, ?_, hstarted⟩
          dsimp only
          rw [hcalled, List.append_assoc, List.cons_append]
    · have hne : m' ≠ m := fun h' => heq (h.apart key k m hmap (h' ▸ hk))
      rw [if_neg heq, if_neg hne]
      exact h.held k m' hk

theorem Sound.resumed (h : Sound s) {t : Nat} {key : κ} {mutex : Nat}
    (hcall : s.calls[t]? = some ⟨key, mutex, .granted⟩) :
    Sound { s with calls := s.calls.set t ⟨key, mutex, .running⟩, started := s.started ++ [t] } := by
  have hget := fun u => getElem?_replaced (⟨key, mutex, .running⟩ : Call κ ρ) hcall u
  have hkeys : (s.calls.set t (⟨key, mutex, .running⟩ : Call κ ρ)).map Call.key = s.keys :=
    map_replaced Call.key hcall rfl
  have hnew : t ∉ s.started := fun hmem => by
    obtain ⟨c, hc, hb⟩ := (h.started t).mp hmem
    obtain rfl := Option.some.inj (hcall.symm.trans hc)
    rcases hb with hb | ⟨r, hb⟩ <;> cases hb
  obtain ⟨hmap, hlocked, hcalled, hstarted⟩ := h.holder hcall (fun _ => nofun) nofun
  have hidle : (s.service key).started = (s.service key).ended := hstarted.resolve_right fun heq => by
    have hmem : t ∈ (s.service key).started := heq ▸ List.mem_append_right _ (List.mem_singleton_self t)
    exact hnew (mem_serviceOf_started.mp hmem).1
  have hservice : ∀ k, Registry.service
      { s with calls := s.calls.set t ⟨key, mutex, .running⟩, started := s.started ++ [t] } k =
      if key = k then ⟨(s.service k).called, (s.service k).started ++ [t], (s.service k).ended⟩
      else s.service k := by
    intro k
    show serviceOf ((s.calls.set t _).map Call.key) (s.started ++ [t]) s.ended k = _
    rw [hkeys, serviceOf_start (keys_get hcall)]
    rfl
  constructor
  · exact h.current
  · exact h.apart
  · intro u call hc hdone
    change (s.calls.set t _)[u]? = some call at hc
    rw [hget] at hc
    split at hc
    · obtain rfl := Option.some.inj hc
      exact hmap
    · exact h.owned u call hc hdone
  · intro k m u hk hu
    obtain ⟨call, hc, hb⟩ := h.queued k m u hk hu
    refine ⟨call, ?_, hb⟩
    show (s.calls.set t _)[u]? = some call
    rw [hget, if_neg]
    · exact hc
    · rintro rfl
      obtain rfl := Option.some.inj (hcall.symm.trans hc)
      cases hb
  · intro u call hc hb
    change (s.calls.set t _)[u]? = some call at hc
    rw [hget] at hc
    split at hc
    · obtain rfl := Option.some.inj hc
      cases hb
    · exact h.waits u call hc hb
  · intro u
    show u ∈ s.started ++ [t] ↔ ∃ call, (s.calls.set t _)[u]? = some call ∧ _
    rw [hget, List.mem_append, List.mem_singleton, h.started]
    split
    · rename_i hu
      exact ⟨fun _ => ⟨_, rfl, Or.inl rfl⟩, fun _ => Or.inr hu⟩
    · rename_i hu
      exact ⟨fun hor => hor.resolve_right hu, Or.inl⟩
  · intro u
    show u ∈ s.ended ↔ ∃ call r, (s.calls.set t _)[u]? = some call ∧ _
    rw [hget, h.ended]
    split
    · rename_i hu
      subst hu
      constructor
      · rintro ⟨c, r, hc, hb⟩
        obtain rfl := Option.some.inj (hcall.symm.trans hc)
        cases hb
      · rintro ⟨c, r, hc, hb⟩
        obtain rfl := Option.some.inj hc
        cases hb
    · exact Iff.rfl
  · intro k hk
    have hne : key ≠ k := fun heq => by
      have hnone : s.map k = none := hk
      rw [← heq, hmap] at hnone
      cases hnone
    rw [hservice, if_neg hne]
    exact h.free k hk
  · intro k m hk
    show Held (s.mutexAt m) _
    rw [hservice]
    split
    · rename_i heq
      subst heq
      obtain rfl : mutex = m := Option.some.inj (hmap.symm.trans hk)
      refine Or.inr ⟨hlocked, t, hcalled, Or.inr ?_⟩
      show (s.service key).started ++ [t] = _
      rw [hidle]
    · exact h.held k m hk

omit [DecidableEq κ] in
/-- The calls after one has ended and another was granted the lock. -/
theorem get_grant (calls : List (Call κ ρ)) (next : Option Nat) (u : Nat) :
    (grant calls next)[u]? =
      if next = some u then calls[u]?.map fun call => { call with body := .granted } else calls[u]? := by
  cases next with
  | none => exact (if_neg nofun).symm
  | some t =>
    rw [grant, List.getElem?_modify]
    by_cases ht : t = u
    · rw [if_pos (congrArg some ht)]
      cases calls[u]? with
      | none => rfl
      | some call => exact congrArg some (if_pos ht)
    · rw [if_neg fun heq => ht (Option.some.inj heq)]
      cases calls[u]? with
      | none => rfl
      | some call => exact congrArg some (if_neg ht)

omit [DecidableEq κ] in
theorem map_key_grant (calls : List (Call κ ρ)) (next : Option Nat) :
    (grant calls next).map Call.key = calls.map Call.key := by
  apply List.ext_getElem?
  intro u
  rw [List.getElem?_map, List.getElem?_map, get_grant]
  split
  · cases calls[u]? with
    | none => rfl
    | some call => rfl
  · rfl

/-- What `release` does with the mutex that a call holds. -/
theorem release_cases (m : AsyncMutex) :
    (m.queue = [] ∧ m.release = (none, m.idleWaiters, { m with locked := false, idleWaiters := [] })) ∨
      ∃ next rest, m.queue = next :: rest ∧ m.release = (some next, [], { m with queue := rest }) := by
  unfold AsyncMutex.release
  cases hq : m.queue with
  | nil => exact Or.inl ⟨rfl, rfl⟩
  | cons next rest => exact Or.inr ⟨next, rest, rfl, rfl⟩

theorem Sound.finished (h : Sound s) {t : Nat} {key : κ} {mutex : Nat} (r : ρ)
    (hcall : s.calls[t]? = some ⟨key, mutex, .running⟩) :
    Sound (onEnded t r s ⟨key, mutex, .running⟩) := by
  obtain ⟨hmap, hlocked, hcalled, hstarted⟩ := h.holder hcall (fun _ => nofun) nofun
  dsimp only at hmap hlocked hcalled hstarted
  have hm := h.current key mutex hmap
  have hat := fun m' => getD_set hm (s.mutexAt mutex).release.2.2 m'
  have hsource : t ∈ s.started := (h.started t).mpr ⟨_, hcall, Or.inl rfl⟩
  have hrunning : (s.service key).started = (s.service key).ended ++ [t] := hstarted.resolve_left fun heq => by
    have hmem : t ∈ (s.service key).ended := heq ▸ mem_serviceOf_started.mpr ⟨hsource, keys_get hcall⟩
    obtain ⟨c, r', hc, hb⟩ := (h.ended t).mp (mem_serviceOf_ended.mp hmem).1
    obtain rfl := Option.some.inj (hcall.symm.trans hc)
    cases hb
  have hnodup := service_nodup s key
  rw [hcalled] at hnodup
  have htail := List.nodup_cons.mp (List.nodup_append.mp hnodup).2.1
  -- the next call, if there is one, is the first in the queue of this mutex
  have hnext : ∀ u, (s.mutexAt mutex).release.1 = some u → u ∈ (s.mutexAt mutex).queue := by
    intro u hu
    rcases release_cases (s.mutexAt mutex) with ⟨-, hrel⟩ | ⟨next, rest, hqueue, hrel⟩
    · rw [hrel] at hu
      cases hu
    · rw [hrel] at hu
      obtain rfl := Option.some.inj hu
      exact hqueue ▸ List.mem_cons_self
  have hget : ∀ u, (grant (s.calls.set t ⟨key, mutex, .done r⟩) (s.mutexAt mutex).release.1)[u]? =
      if u = t then some ⟨key, mutex, .done r⟩
      else if (s.mutexAt mutex).release.1 = some u then
        s.calls[u]?.map fun call => { call with body := .granted }
      else s.calls[u]? := by
    intro u
    rw [get_grant, getElem?_replaced _ hcall]
    by_cases hu : u = t
    · have hne : (s.mutexAt mutex).release.1 ≠ some u := fun heq => htail.1 (hu ▸ hnext u heq)
      rw [if_neg hne, if_pos hu, if_pos hu]
    · rw [if_neg hu, if_neg hu]
  have hkeys : (grant (s.calls.set t (⟨key, mutex, .done r⟩ : Call κ ρ)) (s.mutexAt mutex).release.1).map
      Call.key = s.keys := by
    rw [map_key_grant]
    exact map_replaced Call.key hcall rfl
  have hservice : ∀ k, (onEnded t r s ⟨key, mutex, .running⟩).service k =
      if key = k then ⟨(s.service k).called, (s.service k).started, (s.service k).ended ++ [t]⟩
      else s.service k := by
    intro k
    show serviceOf ((grant (s.calls.set t _) _).map Call.key) s.started (s.ended ++ [t]) k = _
    rw [hkeys, serviceOf_end (keys_get hcall)]
    rfl
  -- a call other than this one and the next one is as it was
  have hother : ∀ {u : Nat} {call : Call κ ρ},
      (onEnded t r s ⟨key, mutex, .running⟩).calls[u]? = some call →
      (u = t ∧ call = ⟨key, mutex, .done r⟩) ∨
        (u ≠ t ∧ (s.mutexAt mutex).release.1 = some u ∧ ∃ c, s.calls[u]? = some c ∧ c.body = .waiting ∧
          call = { c with body := .granted }) ∨
        (u ≠ t ∧ (s.mutexAt mutex).release.1 ≠ some u ∧ s.calls[u]? = some call) := by
    intro u call hc
    change (grant (s.calls.set t _) _)[u]? = some call at hc
    rw [hget] at hc
    split at hc
    · rename_i hu
      exact Or.inl ⟨hu, (Option.some.inj hc).symm⟩
    · rename_i hu
      split at hc
      · rename_i hn
        obtain ⟨c, hcu, hcc⟩ := Option.map_eq_some_iff.mp hc
        obtain ⟨c', hc', hwait⟩ := h.queued key mutex u hmap (hnext u hn)
        obtain rfl := Option.some.inj (hcu.symm.trans hc')
        exact Or.inr (Or.inl ⟨hu, hn, c, hcu, hwait, hcc.symm⟩)
      · rename_i hn
        exact Or.inr (Or.inr ⟨hu, hn, hc⟩)
  -- what is left in a queue neither was handed the lock nor is in another queue
  have hleft : ∀ k m u, s.map k = some m →
      u ∈ (if m = mutex then (s.mutexAt mutex).release.2.2 else s.mutexAt m).queue →
      u ∈ (s.mutexAt m).queue ∧ (s.mutexAt mutex).release.1 ≠ some u := by
    intro k m u hk hu
    split at hu
    · rename_i heq
      subst heq
      rcases release_cases (s.mutexAt m) with ⟨hqueue, hrel⟩ | ⟨next, rest, hqueue, hrel⟩
      · rw [hrel] at hu
        exact absurd (hqueue ▸ hu) List.not_mem_nil
      · rw [hrel] at hu
        refine ⟨hqueue ▸ List.mem_cons_of_mem _ hu, fun hn => ?_⟩
        rw [hrel] at hn
        obtain rfl := Option.some.inj hn
        have hdistinct := htail.2
        rw [hqueue] at hdistinct
        exact (List.nodup_cons.mp hdistinct).1 hu
    · rename_i hne
      refine ⟨hu, fun hn => hne ?_⟩
      have hhere : u ∈ (s.service key).called := by
        rw [hcalled]
        exact List.mem_append_right _ (List.mem_cons_of_mem _ (hnext u hn))
      have hthere : u ∈ (s.service k).called := by
        rcases h.held k m hk with ⟨-, hqueue, -⟩ | ⟨-, t', hcalled', -⟩
        · exact absurd (hqueue ▸ hu) List.not_mem_nil
        · rw [hcalled']
          exact List.mem_append_right _ (List.mem_cons_of_mem _ hu)
      have hsame : key = k := Option.some.inj
        ((mem_serviceOf_called.mp hhere).symm.trans (mem_serviceOf_called.mp hthere))
      exact Option.some.inj (hk.symm.trans (hsame ▸ hmap))
  constructor
  · intro k m hk
    show m < (s.mutexes.set mutex _).length
    rw [List.length_set]
    exact h.current k m hk
  · exact h.apart
  · intro u call hc hdone
    rcases hother hc with ⟨-, rfl⟩ | ⟨-, -, c, hcu, hwait, rfl⟩ | ⟨-, -, hcu⟩
    · exact absurd rfl (hdone r)
    · exact h.owned u c hcu fun r' hr' => nomatch hwait.symm.trans hr'
    · exact h.owned u call hcu hdone
  · intro k m u hk hu
    change u ∈ ((s.mutexes.set mutex _).getD m .new).queue at hu
    rw [hat] at hu
    obtain ⟨hold, hn⟩ := hleft k m u hk hu
    obtain ⟨call, hc, hwait⟩ := h.queued k m u hk hold
    refine ⟨call, ?_, hwait⟩
    show (grant (s.calls.set t _) _)[u]? = some call
    rw [hget, if_neg, if_neg hn]
    · exact hc
    · rintro rfl
      obtain rfl := Option.some.inj (hcall.symm.trans hc)
      cases hwait
  · intro u call hc hwait
    show u ∈ ((s.mutexes.set mutex _).getD call.mutex .new).queue
    rw [hat]
    rcases hother hc with ⟨-, rfl⟩ | ⟨-, -, c, -, -, rfl⟩ | ⟨-, hn, hcu⟩
    · cases hwait
    · cases hwait
    · have hold := h.waits u call hcu hwait
      split
      · rename_i heq
        rw [heq] at hold
        rcases release_cases (s.mutexAt mutex) with ⟨hqueue, -⟩ | ⟨next, rest, hqueue, hrel⟩
        · exact absurd (hqueue ▸ hold) List.not_mem_nil
        · rw [hrel] at hn ⊢
          rw [hqueue] at hold
          rcases List.mem_cons.mp hold with rfl | hold
          · exact absurd rfl hn
          · exact hold
      · exact hold
  · intro u
    show u ∈ s.started ↔ ∃ call, (grant (s.calls.set t _) _)[u]? = some call ∧ _
    rw [h.started, hget]
    split
    · rename_i hu
      subst hu
      exact ⟨fun _ => ⟨_, rfl, Or.inr ⟨r, rfl⟩⟩, fun _ => ⟨_, hcall, Or.inl rfl⟩⟩
    · split
      · rename_i hn
        obtain ⟨c, hc, hwait⟩ := h.queued key mutex u hmap (hnext u hn)
        rw [hc]
        constructor
        · rintro ⟨c', hc', hb⟩
          obtain rfl := Option.some.inj hc'
          rcases hb with hb | ⟨r', hb⟩ <;> exact nomatch hwait.symm.trans hb
        · rintro ⟨c', hc', hb⟩
          obtain rfl := Option.some.inj hc'
          rcases hb with hb | ⟨r', hb⟩ <;> cases hb
      · exact Iff.rfl
  · intro u
    show u ∈ s.ended ++ [t] ↔ ∃ call r', (grant (s.calls.set t _) _)[u]? = some call ∧ _
    rw [List.mem_append, List.mem_singleton, h.ended, hget]
    split
    · rename_i hu
      exact ⟨fun _ => ⟨_, r, rfl, rfl⟩, fun _ => Or.inr hu⟩
    · rename_i hu
      split
      · rename_i hn
        obtain ⟨c, hc, hwait⟩ := h.queued key mutex u hmap (hnext u hn)
        rw [hc]
        constructor
        · rintro (⟨c', r', hc', hb⟩ | heq)
          · obtain rfl := Option.some.inj hc'
            exact nomatch hwait.symm.trans hb
          · exact absurd heq hu
        · rintro ⟨c', r', hc', hb⟩
          obtain rfl := Option.some.inj hc'
          cases hb
      · exact ⟨fun hor => hor.resolve_right hu, Or.inl⟩
  · intro k hk
    have hne : key ≠ k := fun heq => by
      have hnone : s.map k = none := hk
      rw [← heq, hmap] at hnone
      cases hnone
    rw [hservice, if_neg hne]
    exact h.free k hk
  · intro k m hk
    show Held ((s.mutexes.set mutex _).getD m .new) _
    rw [hat, hservice]
    by_cases heq : key = k
    · subst heq
      obtain rfl : mutex = m := Option.some.inj (hmap.symm.trans hk)
      rw [if_pos rfl, if_pos rfl]
      rcases release_cases (s.mutexAt mutex) with ⟨hqueue, hrel⟩ | ⟨next, rest, hqueue, hrel⟩
      · rw [hrel]
        refine Or.inl ⟨rfl, hqueue, ?_, hrunning⟩
        show (s.service key).ended ++ [t] = _
        rw [hcalled, hqueue]
      · rw [hrel]
        refine Or.inr ⟨hlocked, next, ?_, Or.inl hrunning⟩
        show (s.service key).called = ((s.service key).ended ++ [t]) ++ next :: rest
        rw [hcalled, hqueue, List.append_assoc]
        rfl
    · have hne : m ≠ mutex := fun h' => heq (h.apart key k mutex hmap (h' ▸ hk))
      rw [if_neg heq, if_neg hne]
      exact h.held k m hk

/-- A mutex whose waiting tasks change is the same lock. -/
theorem Sound.withTasks (h : Sound s) {m : Nat} (hm : m < s.mutexes.length) (waiters : List Nat)
    (tasks : List (Task κ)) :
    Sound { s with
      mutexes := s.mutexes.set m { s.mutexAt m with idleWaiters := waiters }
      tasks := tasks } := by
  have hat := fun m' => getD_set hm { s.mutexAt m with idleWaiters := waiters } m'
  have hsame : ∀ m', ((s.mutexes.set m { s.mutexAt m with idleWaiters := waiters }).getD m' .new).queue =
      (s.mutexAt m').queue ∧
      ((s.mutexes.set m { s.mutexAt m with idleWaiters := waiters }).getD m' .new).locked =
        (s.mutexAt m').locked := by
    intro m'
    rw [hat]
    split
    · rename_i heq
      rw [heq]
      exact ⟨rfl, rfl⟩
    · exact ⟨rfl, rfl⟩
  constructor
  · intro k m' hk
    show m' < (s.mutexes.set m _).length
    rw [List.length_set]
    exact h.current k m' hk
  · exact h.apart
  · exact h.owned
  · intro k m' u hk hu
    exact h.queued k m' u hk ((hsame m').1 ▸ hu)
  · intro u call hc hwait
    exact (hsame call.mutex).1.symm ▸ h.waits u call hc hwait
  · exact h.started
  · exact h.ended
  · exact h.free
  · intro k m' hk
    have hheld := h.held k m' hk
    rw [Held, ← (hsame m').1, ← (hsame m').2] at hheld
    exact hheld

theorem Sound.whenIdle (h : Sound s) {m : Nat} (hm : m < s.mutexes.length) (w : Nat) (tasks : List (Task κ)) :
    Sound { s with mutexes := s.mutexes.set m ((s.mutexAt m).whenIdle w).2, tasks := tasks } := by
  unfold AsyncMutex.whenIdle
  split
  · exact h.withTasks hm (s.mutexAt m).idleWaiters tasks
  · exact h.withTasks hm ((s.mutexAt m).idleWaiters ++ [w]) tasks

/-- The mutex of a key is forgotten when it is idle. -/
theorem Sound.forgotten (h : Sound s) {key : κ} {m : Nat} (hmap : s.map key = some m)
    (hidle : (s.mutexAt m).isIdle = true) : Sound { s with map := Function.update s.map key none } := by
  have hfree : (s.service key).ended = (s.service key).called ∧
      (s.service key).started = (s.service key).ended := by
    rcases h.held key m hmap with ⟨-, -, hcalled, hstarted⟩ | ⟨hlocked, -⟩
    · exact ⟨hcalled, hstarted⟩
    · rw [AsyncMutex.isIdle, hlocked] at hidle
      cases hidle
  have hcases : ∀ {k m'}, Function.update s.map key none k = some m' → k ≠ key ∧ s.map k = some m' := by
    intro k m' hk
    by_cases heq : k = key
    · rw [heq, Function.update_self] at hk
      cases hk
    · rw [Function.update_of_ne heq] at hk
      exact ⟨heq, hk⟩
  constructor
  · exact fun k m' hk => h.current k m' (hcases hk).2
  · exact fun k k' m' hk hk' => h.apart k k' m' (hcases hk).2 (hcases hk').2
  · intro t call hc hdone
    have hne : call.key ≠ key := fun heq => by
      have hmem : t ∈ (s.service key).called := mem_serviceOf_called.mpr (heq ▸ keys_get hc)
      obtain ⟨c, r, hc', hb⟩ := (h.ended t).mp (mem_serviceOf_ended.mp (hfree.1 ▸ hmem)).1
      obtain rfl := Option.some.inj (hc.symm.trans hc')
      exact hdone r hb
    exact (Function.update_of_ne hne ..).trans (h.owned t call hc hdone)
  · exact fun k m' u hk => h.queued k m' u (hcases hk).2
  · exact h.waits
  · exact h.started
  · exact h.ended
  · intro k hk
    by_cases heq : k = key
    · exact heq ▸ hfree
    · change Function.update s.map key none k = none at hk
      rw [Function.update_of_ne heq] at hk
      exact h.free k hk
  · exact fun k m' hk => h.held k m' (hcases hk).2

/-- What an event does, by what it finds. -/
theorem step_cases (loops : Bool) (event : Event κ ρ) (s : Registry κ ρ) :
    step loops event s = s ∨
    (∃ key, event = .called key ∧
      step loops event s = acquireFor key (getMutex s key).1 (getMutex s key).2) ∨
    (∃ t key mutex, event = .resumed t ∧ s.calls[t]? = some ⟨key, mutex, .granted⟩ ∧
      step loops event s =
        { s with calls := s.calls.set t ⟨key, mutex, .running⟩, started := s.started ++ [t] }) ∨
    (∃ t r key mutex, event = .ended t r ∧ s.calls[t]? = some ⟨key, mutex, .running⟩ ∧
      step loops event s = onEnded t r s ⟨key, mutex, .running⟩) ∨
    (∃ key, event = .released key ∧ step loops event s = onReleased key s) ∨
    (∃ w key mutex, event = .checked w ∧ s.tasks[w]? = some ⟨key, mutex, .resolved⟩ ∧
      step loops event s = onChecked loops w s ⟨key, mutex, .resolved⟩) := by
  cases event with
  | called key => exact Or.inr (Or.inl ⟨key, rfl, rfl⟩)
  | released key => exact Or.inr (Or.inr (Or.inr (Or.inr (Or.inl ⟨key, rfl, rfl⟩))))
  | resumed t =>
    unfold step
    dsimp only
    split
    · rename_i key mutex hcall
      exact Or.inr (Or.inr (Or.inl ⟨t, key, mutex, rfl, hcall, rfl⟩))
    · exact Or.inl rfl
  | ended t r =>
    unfold step
    dsimp only
    split
    · rename_i key mutex hcall
      exact Or.inr (Or.inr (Or.inr (Or.inl ⟨t, r, key, mutex, rfl, hcall, rfl⟩)))
    · exact Or.inl rfl
  | checked w =>
    unfold step
    dsimp only
    split
    · rename_i key mutex htask
      exact Or.inr (Or.inr (Or.inr (Or.inr (Or.inr ⟨w, key, mutex, rfl, htask, rfl⟩))))
    · exact Or.inl rfl

theorem Sound.setTasks (h : Sound s) (tasks : List (Task κ)) : Sound { s with tasks := tasks } :=
  ⟨h.current, h.apart, h.owned, h.queued, h.waits, h.started, h.ended, h.free, h.held⟩

theorem Sound.checked (h : Sound s) (loops : Bool) (w : Nat) (task : Task κ) :
    Sound (onChecked loops w s task) := by
  unfold onChecked
  split
  · rename_i hidle
    split
    · rename_i hmap
      exact (h.forgotten hmap hidle).setTasks _
    · exact h.setTasks _
  · rename_i hbusy
    split
    · have hm : task.mutex < s.mutexes.length := by
        by_contra hout
        refine hbusy ?_
        rw [Registry.mutexAt, List.getD_eq_getElem?_getD, List.getElem?_eq_none (Nat.not_lt.mp hout)]
        rfl
      exact h.whenIdle hm w _
    · exact h.setTasks _

theorem Sound.step (h : Sound s) (loops : Bool) (event : Event κ ρ) : Sound (step loops event s) := by
  rcases step_cases loops event s with hstep | ⟨key, -, hstep⟩ | ⟨t, key, mutex, -, hcall, hstep⟩ |
    ⟨t, r, key, mutex, -, hcall, hstep⟩ | ⟨key, -, hstep⟩ | ⟨w, key, mutex, -, -, hstep⟩
  · rw [hstep]
    exact h
  · obtain ⟨hget, hmap⟩ := h.getMutex key
    rw [hstep]
    exact hget.acquireFor hmap
  · rw [hstep]
    exact h.resumed hcall
  · rw [hstep]
    exact h.finished r hcall
  · rw [hstep]
    unfold onReleased
    cases hmap : s.map key with
    | none => exact h
    | some m => exact h.whenIdle (h.current key m hmap) _ _
  · rw [hstep]
    exact h.checked loops w _

/-! ## Reactions -/

/-- Once nothing more happens, some call of a key runs if any waits. -/
theorem Sound.live (h : Sound s) (loops : Bool)
    (hquiet : ∀ event, (locking loops κ ρ).reaction event = true → MutexRegistry.step loops event s = s) {k : κ}
    (hwait : (s.service k).waiting ≠ []) : (s.service k).running ≠ [] := by
  intro hidle
  have hfair := h.fair k
  have hended := hfair.ended_eq_started hidle
  have hall : (s.service k).ended ≠ (s.service k).called := by
    intro heq
    have hsplit := hfair.split
    rw [hidle, List.append_nil, ← heq] at hsplit
    exact hwait (List.append_cancel_left (hsplit.symm.trans (List.append_nil _).symm))
  cases hmap : s.map k with
  | none => exact hall (h.free k hmap).1
  | some m =>
    rcases h.held k m hmap with ⟨-, -, hcalled, -⟩ | ⟨-, t, hcalled, -⟩
    · exact hall hcalled
    · -- the call that holds the mutex has not started, so it could
      have hmem : t ∈ (s.service k).called := by
        rw [hcalled]
        exact List.mem_append_right _ List.mem_cons_self
      have hkey := mem_serviceOf_called.mp hmem
      rw [Registry.keys, List.getElem?_map] at hkey
      obtain ⟨⟨key, mutex, body⟩, hcall, rfl⟩ := Option.map_eq_some_iff.mp hkey
      have hnodup := service_nodup s key
      rw [hcalled] at hnodup
      obtain ⟨-, hrest, hapart⟩ := List.nodup_append.mp hnodup
      have hnotStarted : t ∉ (s.service key).started := fun hin =>
        hapart t (hended.symm ▸ hin) t List.mem_cons_self rfl
      cases body with
      | waiting =>
        have hqueue := h.waits t _ hcall rfl
        have hown := h.owned t _ hcall fun _ => nofun
        obtain rfl : mutex = m := Option.some.inj (hown.symm.trans hmap)
        exact (List.nodup_cons.mp hrest).1 hqueue
      | granted =>
        have hsame := congrArg Registry.started (hquiet (.resumed t) rfl)
        have hstep : MutexRegistry.step loops (.resumed t) s =
            { s with calls := s.calls.set t ⟨key, mutex, .running⟩, started := s.started ++ [t] } := by
          rw [MutexRegistry.step, hcall]
        rw [hstep] at hsame
        have hlength := congrArg List.length hsame
        rw [List.length_append] at hlength
        exact absurd hlength (Nat.succ_ne_self _)
      | running =>
        exact hnotStarted (mem_serviceOf_started.mpr ⟨(h.started t).mpr ⟨_, hcall, Or.inl rfl⟩, keys_get hcall⟩)
      | done r =>
        exact hnotStarted
          (mem_serviceOf_started.mpr ⟨(h.started t).mpr ⟨_, hcall, Or.inr ⟨r, rfl⟩⟩, keys_get hcall⟩)

/-- A call that was granted the lock is to start. -/
def Call.left (call : Call κ ρ) : Nat :=
  match call.body with
  | .granted => 1
  | _ => 0

/-- A task whose promise is resolved is to go on. -/
def Task.left (task : Task κ) : Nat :=
  match task.state with
  | .resolved => 1
  | _ => 0

/-- A reaction changes nothing, or there is less left to do after it. -/
theorem left_step (loops : Bool) (s : Registry κ ρ) (event : Event κ ρ)
    (hreaction : (locking loops κ ρ).reaction event = true) :
    step loops event s = s ∨
      ((step loops event s).calls.map Call.left).sum + ((step loops event s).tasks.map Task.left).sum <
        (s.calls.map Call.left).sum + (s.tasks.map Task.left).sum := by
  rcases step_cases loops event s with hstep | ⟨key, rfl, -⟩ | ⟨t, key, mutex, -, hcall, hstep⟩ |
    ⟨t, r, key, mutex, rfl, -⟩ | ⟨key, rfl, -⟩ | ⟨w, key, mutex, -, htask, hstep⟩
  · exact Or.inl hstep
  · cases hreaction
  · rw [hstep]
    exact Or.inr (Nat.add_lt_add_right (sum_map_set_lt hcall Nat.zero_lt_one) _)
  · cases hreaction
  · cases hreaction
  · have hless : ∀ state, state ≠ TaskState.resolved →
        ((s.tasks.set w ⟨key, mutex, state⟩).map Task.left).sum < (s.tasks.map Task.left).sum := by
      intro state hstate
      refine sum_map_set_lt htask ?_
      cases state with
      | resolved => exact absurd rfl hstate
      | waiting => exact Nat.zero_lt_one
      | finished => exact Nat.zero_lt_one
    rw [hstep]
    unfold onChecked
    split
    · exact Or.inr (Nat.add_lt_add_left (hless .finished nofun) _)
    · split
      · exact Or.inr (Nat.add_lt_add_left (hless .waiting nofun) _)
      · exact Or.inr (Nat.add_lt_add_left (hless .finished nofun) _)

/-! ## The lock -/

/-- A call has a result only once its own operation has ended with it. -/
theorem result_step (loops : Bool) (event : Event κ ρ) (t : Nat) (r : ρ)
    (hresult : (locking loops κ ρ).result (step loops event s) t = some r) :
    (locking loops κ ρ).result s t = some r ∨ event = .ended t r := by
  change ((step loops event s).calls[t]?.bind Call.result) = some r at hresult
  change (s.calls[t]?.bind Call.result) = some r ∨ _
  rcases step_cases loops event s with hstep | ⟨key, -, hstep⟩ | ⟨u, key, mutex, -, hcall, hstep⟩ |
    ⟨u, r', key, mutex, rfl, hcall, hstep⟩ | ⟨key, -, hstep⟩ | ⟨w, key, mutex, -, -, hstep⟩
  · rw [hstep] at hresult
    exact Or.inl hresult
  · rw [hstep] at hresult
    have hcalls : (getMutex s key).2.calls = s.calls := by
      unfold getMutex
      cases s.map key <;> rfl
    change (((getMutex s key).2.calls ++ [_])[t]?.bind Call.result) = some r at hresult
    rw [hcalls, getElem?_pushed] at hresult
    split at hresult
    · rw [Option.bind_some] at hresult
      split at hresult <;> cases hresult
    · exact Or.inl hresult
  · rw [hstep] at hresult
    change ((s.calls.set u _)[t]?.bind Call.result) = some r at hresult
    rw [getElem?_replaced _ hcall] at hresult
    split at hresult
    · cases hresult
    · exact Or.inl hresult
  · rw [hstep] at hresult
    change ((grant (s.calls.set u _) _)[t]?.bind Call.result) = some r at hresult
    rw [get_grant, getElem?_replaced _ hcall] at hresult
    split at hresult
    · obtain ⟨c, hc, hres⟩ := Option.bind_eq_some_iff.mp hresult
      obtain ⟨c', -, rfl⟩ := Option.map_eq_some_iff.mp hc
      cases hres
    · split at hresult
      · rename_i ht
        subst ht
        obtain rfl := Option.some.inj hresult
        exact Or.inr rfl
      · exact Or.inl hresult
  · rw [hstep] at hresult
    unfold onReleased at hresult
    cases hmap : s.map key with
    | none =>
      rw [hmap] at hresult
      exact Or.inl hresult
    | some m =>
      rw [hmap] at hresult
      exact Or.inl hresult
  · rw [hstep] at hresult
    unfold onChecked at hresult
    split at hresult
    · exact Or.inl hresult
    · split at hresult
      · exact Or.inl hresult
      · exact Or.inl hresult

/-- **A registry of mutexes is a fair lock**, whether its tasks wait again or give up. -/
theorem isFifoMutex (loops : Bool) (κ ρ : Type) [DecidableEq κ] : (locking loops κ ρ).IsFifoMutex := by
  have hsound : ∀ events, Sound (runs (locking loops κ ρ).step events (locking loops κ ρ).start) :=
    fun events => runs_invariant (fun event s hs => hs.step loops event) events sound_empty
  constructor
  · intro events k
    exact (hsound events).fair k
  · intro events t r hresult
    have hstart : ∀ r, (locking loops κ ρ).result (locking loops κ ρ).start t ≠ some r := fun _ => nofun
    rcases ends_mem_of_result (I := Sound) (fun event s hs => hs.step loops event)
      (fun event s t r _ => result_step loops event t r) events sound_empty hresult with h | h
    · exact absurd h (hstart r)
    · exact h
  · intro events k hquiet hwait
    exact (hsound events).live loops hquiet hwait
  · exact ⟨fun s => (s.calls.map Call.left).sum + (s.tasks.map Task.left).sum,
      fun s event => left_step loops s event⟩
  · intro events k hentry
    have hnone := Option.not_isSome_iff_eq_none.mp (fun h => Bool.false_ne_true (hentry.symm.trans h))
    exact ((hsound events).free k hnone).1

end MutexRegistry

/-- `roomPeerMutexes` (negotiationLock.ts:15, 23-57). -/
def roomPeerMutexes := MutexRegistry.locking true

/-- `roomIdentityMutexes` (negotiationLock.ts:16, 64-88). -/
def roomIdentityMutexes := MutexRegistry.locking false

end P2Party
