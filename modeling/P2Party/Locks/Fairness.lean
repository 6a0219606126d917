import P2Party.Locks.AsyncMutex
import P2Party.Locks.TailLock

/-!
# The locks serve in order

The four locks made of promises, and the two registries of mutexes, do for their callers what a
lock is for: whatever the order in which calls are made, promises settle and operations resolve or
reject, the operations of a key run one at a time and in the order of the calls, a call gives what
its own operation has given, none is kept waiting by one that has ended, and an entry is there as
long as a call of its key runs or waits.

- `locks_serve_in_order`: all six.
-/

namespace P2Party

open Base

/-- **The locks serve one caller of a key at a time, in the order of the calls**, and the keys of
`withEdgePersistenceLock` are the edges. -/
theorem locks_serve_in_order (Epc κ ρ : Type) [DecidableEq Epc] [DecidableEq κ] :
    (withEdgePersistenceLock.locking ρ).IsFifoMutex ∧
    ((withEdgeCryptoMutationLock Epc).locking ρ).IsFifoMutex ∧
    (withProcessingLock.locking ρ).IsFifoMutex ∧
    (withReceiveLock.locking ρ).IsFifoMutex ∧
    (roomPeerMutexes κ ρ).IsFifoMutex ∧
    (roomIdentityMutexes κ ρ).IsFifoMutex ∧
    Function.Injective withEdgePersistenceLock.key := by
  refine ⟨TailLock.isFifoMutex _ ρ, TailLock.isFifoMutex _ ρ, TailLock.isFifoMutex _ ρ,
    TailLock.isFifoMutex _ ρ, MutexRegistry.isFifoMutex true κ ρ, MutexRegistry.isFifoMutex false κ ρ, ?_⟩
  rintro ⟨room, peer⟩ ⟨room', peer'⟩ h
  obtain ⟨rfl, rfl⟩ := persistenceKey_inj h
  rfl

end P2Party
