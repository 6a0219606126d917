import Mathlib.Logic.Relation
import Mathlib.Tactic.Common

/-!
# Processes that exchange messages

A process sends, receives, returns or fails. Two of them over a reliable ordered
transport form a net: each side has the messages the other has sent and it has not
taken. The sides run in any order, and since each is deterministic and reads one queue,
the order does not matter: a net that can come to rest comes to rest there, whichever
side runs when.

- `Proc`: the processes, a monad;
- `Net`, `Net.Step`, `Net.diamond`: two processes, and that their steps commute;
- `Net.Ends`, `Net.ends_of_runs`: every run ends in one net;
- `Net.stepping_wellFounded`: no run is infinite.
-/

namespace Base

open Relation

/-- A process with messages `μ`, failures `ε` and results `α`. -/
inductive Proc (μ ε α : Type) : Type
  | done (a : α)
  | fail (e : ε)
  | send (m : μ) (next : Proc μ ε α)
  | recv (next : μ → Proc μ ε α)

namespace Proc

variable {μ ε α β : Type}

/-- Go on with the result. -/
def bind (p : Proc μ ε α) (f : α → Proc μ ε β) : Proc μ ε β :=
  match p with
  | done a => f a
  | fail e => fail e
  | send m next => send m (next.bind f)
  | recv next => recv fun m => (next m).bind f

instance : Monad (Proc μ ε) where
  pure := done
  bind := bind

/-- Code that neither sends nor receives. -/
def ofExcept : Except ε α → Proc μ ε α
  | .ok a => done a
  | .error e => fail e

/-- Send one message. -/
def tell (m : μ) : Proc μ ε Unit := send m (done ())

/-- Receive one message. -/
def hear : Proc μ ε μ := recv done

/-- Go on only under a condition. -/
def require (p : Prop) [Decidable p] (e : ε) : Proc μ ε Unit := if p then done () else fail e

@[simp] theorem pure_eq (a : α) : (pure a : Proc μ ε α) = done a := rfl

@[simp] theorem done_bind (a : α) (f : α → Proc μ ε β) : (done a >>= f) = f a := rfl

@[simp] theorem fail_bind (e : ε) (f : α → Proc μ ε β) : ((fail e : Proc μ ε α) >>= f) = fail e := rfl

@[simp] theorem send_bind (m : μ) (next : Proc μ ε α) (f : α → Proc μ ε β) :
    (send m next >>= f) = send m (next >>= f) := rfl

@[simp] theorem recv_bind (next : μ → Proc μ ε α) (f : α → Proc μ ε β) :
    (recv next >>= f) = recv fun m => next m >>= f := rfl

@[simp] theorem tell_bind (m : μ) (f : Unit → Proc μ ε β) : (tell m >>= f) = send m (f ()) := rfl

@[simp] theorem hear_bind (f : μ → Proc μ ε β) : (hear >>= f) = recv f := rfl

@[simp] theorem ofExcept_ok (a : α) : (ofExcept (.ok a : Except ε α) : Proc μ ε α) = done a := rfl

@[simp] theorem ofExcept_error (e : ε) : (ofExcept (.error e : Except ε α) : Proc μ ε α) = fail e := rfl

theorem ofExcept_bind_of_ok {x : Except ε α} {a : α} (h : x = .ok a) (f : α → Proc μ ε β) :
    (ofExcept x >>= f) = f a := by
  rw [h]
  rfl

theorem require_bind_of {p : Prop} [Decidable p] (h : p) (e : ε) (f : Unit → Proc μ ε β) :
    (require p e >>= f) = f () := by
  unfold require
  rw [if_pos h]
  rfl

/-- What is left of a process after one of its actions. -/
inductive After : Proc μ ε α → Proc μ ε α → Prop
  | send (m : μ) (next : Proc μ ε α) : After next (.send m next)
  | recv (next : μ → Proc μ ε α) (m : μ) : After (next m) (.recv next)

theorem after_wellFounded : WellFounded (After : Proc μ ε α → Proc μ ε α → Prop) := by
  refine ⟨fun p => ?_⟩
  induction p with
  | done a => exact ⟨_, fun _ h => by cases h⟩
  | fail e => exact ⟨_, fun _ h => by cases h⟩
  | send m next ih =>
    refine ⟨_, fun q h => ?_⟩
    cases h
    exact ih
  | recv next ih =>
    refine ⟨_, fun q h => ?_⟩
    cases h
    exact ih _

end Proc

/-! ## Two processes -/

/-- Two processes, with the messages on their way to each. -/
structure Net (μ ε α β : Type) where
  left : Proc μ ε α
  right : Proc μ ε β
  toLeft : List μ
  toRight : List μ

namespace Net

variable {μ ε α β : Type}

/-- Two processes before their first step. -/
def start (left : Proc μ ε α) (right : Proc μ ε β) : Net μ ε α β := ⟨left, right, [], []⟩

/-- One action of one side: it sends, or takes the oldest message. -/
inductive Step : Net μ ε α β → Net μ ε α β → Prop
  | sendLeft (m : μ) (next : Proc μ ε α) (right : Proc μ ε β) (toLeft toRight : List μ) :
      Step ⟨.send m next, right, toLeft, toRight⟩ ⟨next, right, toLeft, toRight ++ [m]⟩
  | recvLeft (next : μ → Proc μ ε α) (right : Proc μ ε β) (m : μ) (toLeft toRight : List μ) :
      Step ⟨.recv next, right, m :: toLeft, toRight⟩ ⟨next m, right, toLeft, toRight⟩
  | sendRight (m : μ) (left : Proc μ ε α) (next : Proc μ ε β) (toLeft toRight : List μ) :
      Step ⟨left, .send m next, toLeft, toRight⟩ ⟨left, next, toLeft ++ [m], toRight⟩
  | recvRight (left : Proc μ ε α) (next : μ → Proc μ ε β) (m : μ) (toLeft toRight : List μ) :
      Step ⟨left, .recv next, toLeft, m :: toRight⟩ ⟨left, next m, toLeft, toRight⟩

/-- A run of any length. -/
abbrev Runs : Net μ ε α β → Net μ ε α β → Prop := ReflTransGen Step

/-- Two steps of one net lead back together. -/
theorem diamond {n a b : Net μ ε α β} (ha : Step n a) (hb : Step n b) :
    ∃ c, ReflGen Step a c ∧ ReflTransGen Step b c := by
  cases ha with
  | sendLeft m next right toLeft toRight =>
    cases hb with
    | sendLeft => exact ⟨_, .refl, .refl⟩
    | sendRight m' _ next' => exact ⟨_, .single (.sendRight ..), .single (.sendLeft ..)⟩
    | recvRight _ next' m' _ rest => exact ⟨_, .single (.recvRight ..), .single (.sendLeft ..)⟩
  | recvLeft next right m toLeft toRight =>
    cases hb with
    | recvLeft => exact ⟨_, .refl, .refl⟩
    | sendRight m' _ next' => exact ⟨_, .single (.sendRight ..), .single (.recvLeft ..)⟩
    | recvRight _ next' m' => exact ⟨_, .single (.recvRight ..), .single (.recvLeft ..)⟩
  | sendRight m left next toLeft toRight =>
    cases hb with
    | sendLeft m' next' => exact ⟨_, .single (.sendLeft ..), .single (.sendRight ..)⟩
    | recvLeft next' _ m' rest => exact ⟨_, .single (.recvLeft ..), .single (.sendRight ..)⟩
    | sendRight => exact ⟨_, .refl, .refl⟩
  | recvRight left next m toLeft toRight =>
    cases hb with
    | sendLeft m' next' => exact ⟨_, .single (.sendLeft ..), .single (.recvRight ..)⟩
    | recvLeft next' _ m' => exact ⟨_, .single (.recvLeft ..), .single (.recvRight ..)⟩
    | recvRight => exact ⟨_, .refl, .refl⟩

/-- The net rests. -/
def Rests (n : Net μ ε α β) : Prop := ∀ n', ¬ Step n n'

/-- Every run from `n` ends in `f`: it can always be completed to `f`, where nothing moves,
and none goes on forever. -/
structure Ends (n f : Net μ ε α β) : Prop where
  rests : Rests f
  completes : ∀ n', Runs n n' → Runs n' f
  finite : Acc (fun a b => Step b a) n

/-- No run is infinite: every step takes one action from one of the two processes. -/
theorem stepping_wellFounded : WellFounded (fun a b : Net μ ε α β => Step b a) := by
  refine Subrelation.wf (fun {a b} hstep => ?_) (InvImage.wf (fun n : Net μ ε α β => (n.left, n.right))
    (Prod.lex ⟨_, Proc.after_wellFounded⟩ ⟨_, Proc.after_wellFounded⟩).wf)
  cases hstep with
  | sendLeft m next => exact .left _ _ (.send m next)
  | recvLeft next _ m => exact .left _ _ (.recv next m)
  | sendRight m _ next => exact .right _ (.send m next)
  | recvRight _ next m => exact .right _ (.recv next m)

/-- A net that can come to rest comes to rest there on every run. -/
theorem ends_of_runs {n f : Net μ ε α β} (hruns : Runs n f) (hrests : Rests f) : Ends n f := by
  refine ⟨hrests, fun n' hn' => ?_, stepping_wellFounded.apply n⟩
  obtain ⟨c, hc, hfc⟩ := church_rosser (fun _ _ _ => diamond) hn' hruns
  have hsame : c = f := by
    rcases hfc.cases_head with rfl | ⟨d, hstep, -⟩
    · rfl
    · exact absurd hstep (hrests d)
  rw [hsame] at hc
  exact hc

end Net

end Base
