import P2Party.Cover.Scheduler

/-!
# Where the jobs of a scheduler are

A job is in the queue, on a lane, or settled. `Placed jobs lanes` says so of the jobs of
a scheduler whose lanes hold the jobs `lanes`; every operation on jobs keeps it, some of
them taking a job from a lane or putting one on it. `Carries` says what the operations
that do not send leave of a job.
-/

namespace P2Party

open Base

namespace Cover

namespace Jobs

variable {jobs jobs' : Jobs} {lanes : List Nat} {n m : Nat} {r : JobRuntime}

/-! ## Reading a runtime -/

theorem get_empty (n : Nat) : Jobs.empty.get n = none := List.getElem?_nil

theorem get_update (jobs : Jobs) (n m : Nat) (f : JobRuntime → JobRuntime) :
    (jobs.update n f).get m = if m = n then (jobs.get m).map f else jobs.get m := by
  unfold get update
  rw [List.getElem?_modify]
  by_cases h : n = m
  · subst h
    simp
  · rw [if_neg (fun h' => h h'.symm)]
    simp [h]

theorem get_concat (jobs : Jobs) (r : JobRuntime) (m : Nat) :
    (jobs.runtimes ++ [r])[m]? = if m = jobs.runtimes.length then some r else jobs.get m := by
  by_cases hm : m = jobs.runtimes.length
  · rw [if_pos hm, hm, List.getElem?_concat_length]
  · rw [if_neg hm]
    rcases Nat.lt_or_gt_of_ne hm with hlt | hgt
    · exact List.getElem?_append_left hlt
    · rw [List.getElem?_append_right (Nat.le_of_lt hgt)]
      have hpos : m - jobs.runtimes.length = m - jobs.runtimes.length - 1 + 1 := by omega
      rw [hpos, List.getElem?_cons_succ, List.getElem?_nil]
      exact (List.getElem?_eq_none (Nat.le_of_lt hgt)).symm

theorem get_length (jobs : Jobs) : jobs.get jobs.runtimes.length = none :=
  List.getElem?_eq_none (Nat.le_refl _)

theorem get_update_self (f : JobRuntime → JobRuntime) (hr : jobs.get n = some r) :
    (jobs.update n f).get n = some (f r) := by
  rw [get_update, if_pos rfl, hr]
  rfl

theorem get_update_ne (f : JobRuntime → JobRuntime) (h : m ≠ n) :
    (jobs.update n f).get m = jobs.get m := by
  rw [get_update, if_neg h]

theorem sortQueue_perm (jobs : Jobs) : jobs.sortQueue.queued.Perm jobs.queued :=
  List.mergeSort_perm _ _

theorem removeQueued_of_not_mem (h : n ∉ jobs.queued) : jobs.removeQueued n = jobs := by
  unfold removeQueued
  rw [List.erase_of_not_mem h]

/-! ## Placed jobs -/

/-- Every job is in its place: an unsettled one is in the queue or on a lane and not in
both, a settled one is not in the queue, and the table of ids names the unsettled ones.
A lane may hold a settled job, which it sends no more cells of. -/
structure Placed (jobs : Jobs) (lanes : List Nat) : Prop where
  queue : jobs.queued.Nodup
  single : lanes.Nodup
  apart : ∀ n ∈ lanes, n ∉ jobs.queued
  waiting : ∀ n ∈ jobs.queued, ∃ r, jobs.get n = some r ∧ r.settled = false
  known : ∀ n ∈ lanes, (jobs.get n).isSome = true
  placed : ∀ n r, jobs.get n = some r → r.settled = false → n ∈ jobs.queued ∨ n ∈ lanes
  named : ∀ id n, jobs.byId.get id = some n ↔
    ∃ r, jobs.get n = some r ∧ r.job.id = id ∧ r.settled = false
  unended : ∀ n r, jobs.get n = some r → r.settled = false →
    r.completed = false ∧ r.cancelSent = false

/-- What a change of one unsettled runtime must not touch. -/
structure Steady (r r' : JobRuntime) : Prop where
  job : r'.job = r.job
  settled : r'.settled = r.settled
  unended : r.settled = false → r.completed = false ∧ r.cancelSent = false →
    r'.completed = false ∧ r'.cancelSent = false

namespace Placed

theorem empty : Placed Jobs.empty [] where
  queue := List.nodup_nil
  single := List.nodup_nil
  apart n hn := absurd hn List.not_mem_nil
  waiting n hn := absurd hn List.not_mem_nil
  known n hn := absurd hn List.not_mem_nil
  placed n r hr _ := by cases (get_empty n).symm.trans hr
  named id n := by
    refine ⟨fun h => ?_, fun ⟨r, hr, _⟩ => ?_⟩
    · cases (OrdMap.get_empty id).symm.trans h
    · cases (get_empty n).symm.trans hr
  unended n r hr _ := by cases (get_empty n).symm.trans hr

theorem not_queued (h : Placed jobs lanes) (hr : jobs.get n = some r) (hsettled : r.settled = true) :
    n ∉ jobs.queued := by
  intro hmem
  obtain ⟨r', hr', hlive⟩ := h.waiting n hmem
  rw [hr] at hr'
  cases hr'
  rw [hsettled] at hlive
  cases hlive

theorem byId_self (h : Placed jobs lanes) (hr : jobs.get n = some r) (hlive : r.settled = false) :
    jobs.byId.get r.job.id = some n := (h.named _ _).mpr ⟨r, hr, rfl, hlive⟩

/-- Only the order of the queue changed. -/
theorem reorder (h : Placed jobs lanes) {queued : List Nat} (hperm : queued.Perm jobs.queued) :
    Placed { jobs with queued } lanes where
  queue := hperm.nodup_iff.mpr h.queue
  single := h.single
  apart n hn hmem := h.apart n hn (hperm.mem_iff.mp hmem)
  waiting n hn := h.waiting n (hperm.mem_iff.mp hn)
  known := h.known
  placed n r hr hlive := (h.placed n r hr hlive).imp_left hperm.mem_iff.mpr
  named := h.named
  unended := h.unended

theorem sortQueue (h : Placed jobs lanes) : Placed jobs.sortQueue lanes :=
  h.reorder jobs.sortQueue_perm

theorem update (h : Placed jobs lanes) (n : Nat) {f : JobRuntime → JobRuntime}
    (hf : ∀ r, jobs.get n = some r → Steady r (f r)) : Placed (jobs.update n f) lanes := by
  -- both ways: a runtime of the new jobs comes from one of the old, steadily
  have hold : ∀ m r', (jobs.update n f).get m = some r' →
      ∃ r, jobs.get m = some r ∧ Steady r r' := by
    intro m r' hr'
    by_cases hm : m = n
    · subst hm
      rw [get_update, if_pos rfl] at hr'
      obtain ⟨r, hr, rfl⟩ := Option.map_eq_some_iff.mp hr'
      exact ⟨r, hr, hf r hr⟩
    · rw [get_update_ne f hm] at hr'
      exact ⟨r', hr', rfl, rfl, fun _ h => h⟩
  have hnew : ∀ m r, jobs.get m = some r → ∃ r', (jobs.update n f).get m = some r' ∧ Steady r r' := by
    intro m r hr
    by_cases hm : m = n
    · subst hm
      exact ⟨f r, get_update_self f hr, hf r hr⟩
    · exact ⟨r, by rw [get_update_ne f hm, hr], rfl, rfl, fun _ h => h⟩
  refine ⟨h.queue, h.single, h.apart, ?_, ?_, ?_, ?_, ?_⟩
  · intro m hm
    obtain ⟨r, hr, hlive⟩ := h.waiting m hm
    obtain ⟨r', hr', hsteady⟩ := hnew m r hr
    exact ⟨r', hr', hsteady.settled.trans hlive⟩
  · intro m hm
    obtain ⟨r, hr⟩ := Option.isSome_iff_exists.mp (h.known m hm)
    obtain ⟨r', hr', -⟩ := hnew m r hr
    rw [hr']
    rfl
  · intro m r' hr' hlive
    obtain ⟨r, hr, hsteady⟩ := hold m r' hr'
    exact h.placed m r hr (hsteady.settled.symm.trans hlive)
  · intro id m
    refine (h.named id m).trans ⟨?_, ?_⟩
    · rintro ⟨r, hr, hid, hlive⟩
      obtain ⟨r', hr', hsteady⟩ := hnew m r hr
      exact ⟨r', hr', by rw [hsteady.job, hid], hsteady.settled.trans hlive⟩
    · rintro ⟨r', hr', hid, hlive⟩
      obtain ⟨r, hr, hsteady⟩ := hold m r' hr'
      exact ⟨r, hr, by rw [← hsteady.job, hid], hsteady.settled.symm.trans hlive⟩
  · intro m r' hr' hlive
    obtain ⟨r, hr, hsteady⟩ := hold m r' hr'
    have hlive' := hsteady.settled.symm.trans hlive
    exact hsteady.unended hlive' (h.unended m r hr hlive')

/-- One runtime is settled and leaves the queue and the table of ids. -/
theorem retire (h : Placed jobs lanes) {r r' : JobRuntime} (hr : jobs.get n = some r)
    (hlive : r.settled = false) (hget : ∀ m, jobs'.get m = if m = n then some r' else jobs.get m)
    (hsettled : r'.settled = true) (hqueued : jobs'.queued = jobs.queued.erase n)
    (hbyId : jobs'.byId = jobs.byId.delete r.job.id) : Placed jobs' lanes := by
  have hlives : ∀ m q, jobs'.get m = some q → q.settled = false → m ≠ n ∧ jobs.get m = some q := by
    intro m q hq hq'
    rw [hget] at hq
    split at hq
    · cases hq
      rw [hsettled] at hq'
      cases hq'
    · exact ⟨‹_›, hq⟩
  refine ⟨?_, h.single, ?_, ?_, ?_, ?_, ?_, ?_⟩
  · rw [hqueued]
    exact h.queue.erase n
  · intro m hm hmem
    rw [hqueued] at hmem
    exact h.apart m hm (List.mem_of_mem_erase hmem)
  · intro m hm
    rw [hqueued, h.queue.mem_erase_iff] at hm
    rw [hget, if_neg hm.1]
    exact h.waiting m hm.2
  · intro m hm
    rw [hget]
    split
    · rfl
    · exact h.known m hm
  · intro m q hq hq'
    obtain ⟨hm, hq⟩ := hlives m q hq hq'
    rw [hqueued, h.queue.mem_erase_iff]
    exact (h.placed m q hq hq').imp_left fun hmem => ⟨hm, hmem⟩
  · intro id m
    rw [hbyId]
    by_cases hid : id = r.job.id
    · subst hid
      rw [OrdMap.get_delete_self]
      refine ⟨nofun, ?_⟩
      rintro ⟨q, hq, hjob, hq'⟩
      obtain ⟨hm, hq⟩ := hlives m q hq hq'
      have hsame := (h.named _ _).mpr ⟨q, hq, hjob, hq'⟩
      rw [h.byId_self hr hlive] at hsame
      exact absurd (Option.some.inj hsame).symm hm
    · rw [OrdMap.get_delete_ne _ hid, h.named]
      refine ⟨?_, ?_⟩
      · rintro ⟨q, hq, hjob, hq'⟩
        refine ⟨q, ?_, hjob, hq'⟩
        rw [hget, if_neg, hq]
        rintro rfl
        rw [hr] at hq
        cases hq
        exact hid hjob.symm
      · rintro ⟨q, hq, hjob, hq'⟩
        exact ⟨q, (hlives m q hq hq').2, hjob, hq'⟩
  · intro m q hq hq'
    exact h.unended m q (hlives m q hq hq').2 hq'

/-- A settled job leaves its lane. -/
theorem drop (h : Placed jobs (n :: lanes)) (hr : jobs.get n = some r) (hsettled : r.settled = true) :
    Placed jobs lanes where
  queue := h.queue
  single := (List.nodup_cons.mp h.single).2
  apart m hm := h.apart m (List.mem_cons_of_mem n hm)
  waiting := h.waiting
  known m hm := h.known m (List.mem_cons_of_mem n hm)
  placed m q hq hlive := by
    rcases h.placed m q hq hlive with hqueued | hlane
    · exact .inl hqueued
    · rcases List.mem_cons.mp hlane with rfl | hlane
      · rw [hr] at hq
        cases hq
        rw [hsettled] at hlive
        cases hlive
      · exact .inr hlane
  named := h.named
  unended := h.unended

/-- An unsettled job goes from its lane to the queue. -/
theorem leaveLane (h : Placed jobs (n :: lanes)) (hr : jobs.get n = some r)
    (hlive : r.settled = false) : Placed { jobs with queued := jobs.queued ++ [n] } lanes where
  queue := List.nodup_append.mpr ⟨h.queue, List.nodup_singleton n, fun a ha b hb hab => by
    rw [List.mem_singleton.mp hb] at hab
    exact h.apart n List.mem_cons_self (hab ▸ ha)⟩
  single := (List.nodup_cons.mp h.single).2
  apart m hm hmem := by
    rcases List.mem_append.mp hmem with hmem | hmem
    · exact h.apart m (List.mem_cons_of_mem n hm) hmem
    · rw [List.mem_singleton.mp hmem] at hm
      exact (List.nodup_cons.mp h.single).1 hm
  waiting m hm := by
    rcases List.mem_append.mp hm with hm | hm
    · exact h.waiting m hm
    · rw [List.mem_singleton.mp hm]
      exact ⟨r, hr, hlive⟩
  known m hm := h.known m (List.mem_cons_of_mem n hm)
  placed m q hq hq' := by
    rcases h.placed m q hq hq' with hqueued | hlane
    · exact .inl (List.mem_append_left _ hqueued)
    · rcases List.mem_cons.mp hlane with rfl | hlane
      · exact .inl (List.mem_append_right _ List.mem_cons_self)
      · exact .inr hlane
  named := h.named
  unended := h.unended

/-- The head of the queue goes to a lane. -/
theorem takeLane (h : Placed jobs lanes) {rest : List Nat} (hqueued : jobs.queued.Perm (n :: rest)) :
    Placed { jobs with queued := rest } (n :: lanes) := by
  have hqueue := List.nodup_cons.mp (hqueued.nodup_iff.mp h.queue)
  have hhead : n ∈ jobs.queued := hqueued.mem_iff.mpr List.mem_cons_self
  have hrest : ∀ m ∈ rest, m ∈ jobs.queued := fun m hm =>
    hqueued.mem_iff.mpr (List.mem_cons_of_mem n hm)
  refine ⟨hqueue.2, List.nodup_cons.mpr ⟨fun hm => h.apart n hm hhead, h.single⟩, ?_,
    fun m hm => h.waiting m (hrest m hm), ?_, ?_, h.named, h.unended⟩
  · intro m hm hmem
    rcases List.mem_cons.mp hm with rfl | hm
    · exact hqueue.1 hmem
    · exact h.apart m hm (hrest m hmem)
  · intro m hm
    rcases List.mem_cons.mp hm with rfl | hm
    · obtain ⟨r, hr, -⟩ := h.waiting m hhead
      exact Option.isSome_iff_exists.mpr ⟨r, hr⟩
    · exact h.known m hm
  · intro m q hq hlive
    rcases h.placed m q hq hlive with hmem | hmem
    · rcases List.mem_cons.mp (hqueued.mem_iff.mp hmem) with rfl | hmem
      · exact .inr List.mem_cons_self
      · exact .inl hmem
    · exact .inr (List.mem_cons_of_mem n hmem)

theorem perm {lanes' : List Nat} (h : Placed jobs lanes) (hperm : lanes.Perm lanes') :
    Placed jobs lanes' where
  queue := h.queue
  single := hperm.nodup_iff.mp h.single
  apart m hm := h.apart m (hperm.mem_iff.mpr hm)
  waiting := h.waiting
  known m hm := h.known m (hperm.mem_iff.mpr hm)
  placed m q hq hlive := (h.placed m q hq hlive).imp_right hperm.mem_iff.mp
  named := h.named
  unended := h.unended

end Placed

/-! ## Settling and requeueing -/

theorem settle_of_settled (hr : jobs.get n = some r) (hsettled : r.settled = true) :
    jobs.settle n = jobs := by
  unfold settle
  rw [hr]
  dsimp only
  rw [if_pos hsettled]

/-- `settle` of an unsettled job. -/
theorem settle_of_live (hr : jobs.get n = some r) (hlive : r.settled = false)
    (hbyId : jobs.byId.get r.job.id = some n) :
    jobs.settle n = { (jobs.update n fun r => { r with settled := true, state := .terminal }) with
      queued := jobs.queued.erase n, byId := jobs.byId.delete r.job.id } := by
  unfold settle
  rw [hr]
  dsimp only
  rw [if_neg (by rw [hlive]; exact Bool.false_ne_true)]
  exact if_pos hbyId

theorem settle_removeQueued (hqueue : jobs.queued.Nodup) (hr : jobs.get n = some r)
    (hlive : r.settled = false) (hbyId : jobs.byId.get r.job.id = some n) :
    (jobs.removeQueued n).settle n = jobs.settle n := by
  have herase : (jobs.queued.erase n).erase n = jobs.queued.erase n :=
    List.erase_of_not_mem hqueue.not_mem_erase
  have hremoved : (jobs.removeQueued n).get n = some r := hr
  rw [settle_of_live hr hlive hbyId, settle_of_live hremoved hlive hbyId]
  show ({ (jobs.update n _) with queued := (jobs.queued.erase n).erase n, byId := _ } : Jobs) = _
  rw [herase]
  rfl

/-- A job is changed and settled: the others are as they were. -/
theorem get_settle_update (hr : jobs.get n = some r) {f : JobRuntime → JobRuntime}
    (hsettled : (f r).settled = false) (m : Nat) :
    ((jobs.update n f).settle n).get m =
      if m = n then some { f r with settled := true, state := .terminal } else jobs.get m := by
  have hget := get_update_self f hr
  have hsettle : ((jobs.update n f).settle n).get m =
      ((jobs.update n f).update n fun r => { r with settled := true, state := .terminal }).get m := by
    unfold settle
    rw [hget]
    dsimp only
    rw [if_neg (by rw [hsettled]; exact Bool.false_ne_true)]
    split <;> rfl
  rw [hsettle]
  by_cases hm : m = n
  · subst hm
    rw [get_update_self _ hget, if_pos rfl]
  · rw [get_update_ne _ hm, get_update_ne f hm, if_neg hm]

namespace Placed

/-- A job is changed and settled. -/
theorem settle_update (h : Placed jobs lanes) (hr : jobs.get n = some r) (hlive : r.settled = false)
    {f : JobRuntime → JobRuntime} (hjob : (f r).job = r.job) (hsettled : (f r).settled = false) :
    Placed ((jobs.update n f).settle n) lanes := by
  have hbyId := h.byId_self hr hlive
  have hsettle := settle_of_live (get_update_self f hr) hsettled (by rw [hjob]; exact hbyId)
  refine h.retire hr hlive (get_settle_update hr hsettled) rfl (by rw [hsettle]; rfl) ?_
  rw [hsettle, hjob]
  rfl

theorem settle (h : Placed jobs lanes) (n : Nat) : Placed (jobs.settle n) lanes := by
  cases hr : jobs.get n with
  | none =>
    unfold Jobs.settle
    rw [hr]
    exact h
  | some r =>
    cases hlive : r.settled with
    | true =>
      rw [settle_of_settled hr hlive]
      exact h
    | false =>
      rw [settle_of_live hr hlive (h.byId_self hr hlive)]
      let r' : JobRuntime := { r with settled := true, state := .terminal }
      refine @retire _ _ _ _ h r r' hr hlive (fun m => ?_) rfl rfl rfl
      by_cases hm : m = n
      · subst hm
        rw [if_pos rfl]
        exact get_update_self _ hr
      · rw [if_neg hm]
        exact get_update_ne _ hm

theorem requeue (h : Placed jobs (n :: lanes)) : Placed (jobs.requeue n) lanes := by
  obtain ⟨r, hr⟩ := Option.isSome_iff_exists.mp (h.known n List.mem_cons_self)
  unfold Jobs.requeue
  rw [hr]
  dsimp only
  cases hlive : r.settled with
  | true => exact h.drop hr hlive
  | false =>
    obtain ⟨hcompleted, hcancel⟩ := h.unended n r hr hlive
    rw [if_neg (by rw [hcompleted, hcancel]; decide)]
    have hqueued := h.update n (f := fun r => { r with state := .queued })
      fun _ _ => ⟨rfl, rfl, fun _ h => h⟩
    rw [if_neg (hqueued.apart n List.mem_cons_self)]
    exact (hqueued.leaveLane (get_update_self _ hr) hlive).sortQueue

theorem finalize (h : Placed jobs (n :: lanes)) : Placed (jobs.finalize n) lanes := by
  obtain ⟨r, hr⟩ := Option.isSome_iff_exists.mp (h.known n List.mem_cons_self)
  unfold Jobs.finalize
  rw [hr]
  dsimp only
  cases hlive : r.settled with
  | true => exact h.drop hr hlive
  | false =>
    rw [if_neg Bool.false_ne_true]
    split
    · exact h.requeue
    · have hget : (jobs.settle n).get n = some { r with settled := true, state := .terminal } := by
        rw [settle_of_live hr hlive (h.byId_self hr hlive)]
        exact get_update_self _ hr
      exact (h.settle n).drop hget rfl

/-- Take every job of a list from its lane. -/
theorem foldl {g : Jobs → Nat → Jobs}
    (hg : ∀ {jobs n lanes}, Placed jobs (n :: lanes) → Placed (g jobs n) lanes)
    (runtimes : List (Option Nat)) (h : Placed jobs (runtimes.reduceOption ++ lanes)) :
    Placed (runtimes.foldl (fun jobs runtime => match runtime with
      | none => jobs
      | some runtime => g jobs runtime) jobs) lanes := by
  induction runtimes generalizing jobs with
  | nil => exact h
  | cons runtime runtimes ih =>
    cases runtime with
    | none => exact ih h
    | some runtime => exact ih (hg h)

theorem admitSelected (h : Placed jobs lanes) (selected : List (Option Nat)) :
    Placed (jobs.admitSelected selected) lanes := by
  unfold Jobs.admitSelected
  induction selected generalizing jobs with
  | nil => exact h
  | cons runtime selected ih =>
    cases runtime with
    | none => exact ih h
    | some runtime => exact ih (h.update runtime fun _ _ => ⟨rfl, rfl, fun _ h => h⟩)

theorem dequeueMany (h : Placed jobs lanes) (count : Nat) :
    Placed (jobs.dequeueMany count).2 ((jobs.dequeueMany count).1.reduceOption ++ lanes) := by
  induction count generalizing jobs lanes with
  | zero => exact h
  | succ count ih =>
    unfold Jobs.dequeueMany Jobs.dequeue
    have hsorted := jobs.sortQueue_perm
    cases hqueued : jobs.sortQueue.queued with
    | nil => exact ih h
    | cons n rest =>
      rw [hqueued] at hsorted
      exact (ih (h.takeLane hsorted.symm)).perm List.perm_middle

/-- A new job waits at the end of the queue. -/
theorem enqueue (h : Placed jobs lanes) (hfresh : jobs.byId.get r.job.id = none)
    (hlive : r.settled = false) (hunended : r.completed = false ∧ r.cancelSent = false) :
    Placed ⟨jobs.runtimes ++ [r], jobs.queued ++ [jobs.runtimes.length],
      jobs.byId.set r.job.id jobs.runtimes.length⟩ lanes := by
  have hnone := jobs.get_length
  have hget := jobs.get_concat r
  have hold : ∀ m q, jobs.get m = some q → (jobs.runtimes ++ [r])[m]? = some q := by
    intro m q hq
    rw [hget, if_neg, hq]
    rintro rfl
    rw [hnone] at hq
    cases hq
  have hnew : jobs.runtimes.length ∉ jobs.queued := by
    intro hmem
    obtain ⟨q, hq, -⟩ := h.waiting _ hmem
    rw [hnone] at hq
    cases hq
  refine ⟨?_, h.single, ?_, ?_, ?_, ?_, ?_, ?_⟩
  · refine List.nodup_append.mpr ⟨h.queue, List.nodup_singleton _, fun a ha b hb hab => ?_⟩
    rw [List.mem_singleton.mp hb] at hab
    exact hnew (hab ▸ ha)
  · intro m hm hmem
    rcases List.mem_append.mp hmem with hmem | hmem
    · exact h.apart m hm hmem
    · have hsome := h.known m hm
      rw [List.mem_singleton.mp hmem, hnone] at hsome
      cases hsome
  · intro m hm
    rcases List.mem_append.mp hm with hm | hm
    · obtain ⟨q, hq, hq'⟩ := h.waiting m hm
      exact ⟨q, hold m q hq, hq'⟩
    · refine ⟨r, ?_, hlive⟩
      show (jobs.runtimes ++ [r])[m]? = some r
      rw [hget, if_pos (List.mem_singleton.mp hm)]
  · intro m hm
    obtain ⟨q, hq⟩ := Option.isSome_iff_exists.mp (h.known m hm)
    exact Option.isSome_iff_exists.mpr ⟨q, hold m q hq⟩
  · intro m q hq hq'
    change (jobs.runtimes ++ [r])[m]? = some q at hq
    rw [hget] at hq
    split at hq
    case isTrue hm => exact .inl (List.mem_append_right _ (List.mem_singleton.mpr hm))
    case isFalse => exact (h.placed m q hq hq').imp_left (List.mem_append_left _)
  · intro id m
    show (jobs.byId.set r.job.id jobs.runtimes.length).get id = some m ↔
      ∃ q, (jobs.runtimes ++ [r])[m]? = some q ∧ _
    rw [OrdMap.get_set, hget]
    by_cases hm : m = jobs.runtimes.length
    · subst hm
      rw [if_pos rfl]
      by_cases hid : id = r.job.id
      · subst hid
        rw [if_pos rfl]
        exact ⟨fun _ => ⟨r, rfl, rfl, hlive⟩, fun _ => rfl⟩
      · rw [if_neg hid, h.named]
        refine ⟨fun ⟨q, hq, _⟩ => ?_, fun ⟨q, hq, hjob, _⟩ => ?_⟩
        · rw [hnone] at hq
          cases hq
        · cases hq
          exact absurd hjob.symm hid
    · rw [if_neg hm]
      by_cases hid : id = r.job.id
      · subst hid
        rw [if_pos rfl]
        refine ⟨fun hlength => absurd (Option.some.inj hlength).symm hm, fun hq => ?_⟩
        have hsome := (h.named _ m).mpr hq
        rw [hfresh] at hsome
        cases hsome
      · rw [if_neg hid]
        exact h.named id m
  · intro m q hq hq'
    change (jobs.runtimes ++ [r])[m]? = some q at hq
    rw [hget] at hq
    split at hq
    · cases hq
      exact hunended
    · exact h.unended m q hq hq'

theorem settle_removed (h : Placed jobs lanes) (n : Nat) :
    (jobs.removeQueued n).settle n = jobs.settle n := by
  cases hr : jobs.get n with
  | none =>
    have hmem : n ∉ jobs.queued := fun hmem => by
      obtain ⟨r, hr', -⟩ := h.waiting n hmem
      rw [hr] at hr'
      cases hr'
    rw [removeQueued_of_not_mem hmem]
  | some r =>
    cases hlive : r.settled with
    | true => rw [removeQueued_of_not_mem (h.not_queued hr hlive)]
    | false => exact settle_removeQueued h.queue hr hlive (h.byId_self hr hlive)

end Placed

/-! ## What the operations leave of a job -/

/-- A later state of a runtime that was not sent for: its job and the number of its sent
cells are the same, a settled one is as it was, and an unsettled one has its cell. -/
structure Carried (r r' : JobRuntime) : Prop where
  job : r'.job = r.job
  sentCells : r'.sentCells = r.sentCells
  settled : r.settled = true → r' = r
  pendingCell : r'.settled = false → r'.pendingCell = r.pendingCell

/-- Every runtime is carried to the later jobs. -/
def Carries (jobs jobs' : Jobs) : Prop := ∀ n, Option.Rel Carried (jobs.get n) (jobs'.get n)

namespace Carries

theorem get (h : Carries jobs jobs') (hr : jobs.get n = some r) :
    ∃ r', jobs'.get n = some r' ∧ Carried r r' := by
  have hn := h n
  rw [hr] at hn
  generalize jobs'.get n = q at hn
  cases hn with
  | some hcarried => exact ⟨_, rfl, hcarried⟩

theorem origin (h : Carries jobs jobs') {r' : JobRuntime} (hr' : jobs'.get n = some r') :
    ∃ r, jobs.get n = some r ∧ Carried r r' := by
  have hn := h n
  rw [hr'] at hn
  generalize jobs.get n = q at hn
  cases hn with
  | some hcarried => exact ⟨_, rfl, hcarried⟩

theorem of_get (h : ∀ n, jobs'.get n = jobs.get n) : Carries jobs jobs' := by
  intro n
  rw [h n]
  cases jobs.get n with
  | none => exact .none
  | some r => exact .some ⟨rfl, rfl, fun _ => rfl, fun _ => rfl⟩

theorem refl (jobs : Jobs) : Carries jobs jobs := of_get fun _ => rfl

theorem trans {jobs'' : Jobs} (h : Carries jobs jobs') (h' : Carries jobs' jobs'') :
    Carries jobs jobs'' := by
  intro n
  have hn := h n
  have hn' := h' n
  generalize jobs.get n = x at hn
  generalize jobs'.get n = y at hn hn'
  generalize jobs''.get n = z at hn'
  cases hn with
  | none =>
    cases hn' with
    | none => exact .none
  | @some r r' hr =>
    cases hn' with
    | @some _ r'' hr' =>
      refine .some ⟨hr'.job.trans hr.job, hr'.sentCells.trans hr.sentCells, fun hsettled => ?_,
        fun hlive => ?_⟩
      · have hsame := hr.settled hsettled
        exact (hr'.settled (hsame ▸ hsettled)).trans hsame
      · -- an unsettled later state was unsettled before
        have hlive' : r'.settled = false := by
          cases hsettled : r'.settled with
          | false => rfl
          | true =>
            rw [hr'.settled hsettled, hsettled] at hlive
            cases hlive
        exact (hr'.pendingCell hlive).trans (hr.pendingCell hlive')

theorem update (n : Nat) {f : JobRuntime → JobRuntime}
    (hf : ∀ r, jobs.get n = some r → Carried r (f r)) : Carries jobs (jobs.update n f) := by
  intro m
  by_cases hm : m = n
  · subst hm
    rw [get_update, if_pos rfl]
    cases hr : jobs.get m with
    | none => exact .none
    | some r => exact .some (hf r hr)
  · rw [get_update_ne f hm]
    exact refl jobs m

theorem settle (jobs : Jobs) (n : Nat) : Carries jobs (jobs.settle n) := by
  cases hr : jobs.get n with
  | none =>
    unfold Jobs.settle
    rw [hr]
    exact refl jobs
  | some r =>
    cases hlive : r.settled with
    | true =>
      rw [settle_of_settled hr hlive]
      exact refl jobs
    | false =>
      have hset : Carries jobs
          (jobs.update n fun r => { r with settled := true, state := .terminal }) := by
        refine update n fun q hq => ⟨rfl, rfl, fun hsettled => ?_, nofun⟩
        rw [hr] at hq
        cases hq
        rw [hlive] at hsettled
        cases hsettled
      refine hset.trans (of_get fun m => ?_)
      unfold Jobs.settle
      rw [hr]
      dsimp only
      rw [if_neg (by rw [hlive]; exact Bool.false_ne_true)]
      split <;> rfl

/-- A job is changed and settled. -/
theorem settle_update (hr : jobs.get n = some r) (hlive : r.settled = false)
    {f : JobRuntime → JobRuntime} (hjob : (f r).job = r.job) (hsent : (f r).sentCells = r.sentCells)
    (hsettled : (f r).settled = false) : Carries jobs ((jobs.update n f).settle n) := by
  intro m
  rw [get_settle_update hr hsettled]
  by_cases hm : m = n
  · subst hm
    rw [if_pos rfl, hr]
    refine .some ⟨hjob, hsent, fun h => ?_, nofun⟩
    rw [hlive] at h
    cases h
  · rw [if_neg hm]
    exact refl jobs m

theorem requeue (jobs : Jobs) (n : Nat) : Carries jobs (jobs.requeue n) := by
  unfold Jobs.requeue
  cases hr : jobs.get n with
  | none => exact refl jobs
  | some r =>
    dsimp only
    split
    · exact refl jobs
    · rename_i hlive
      have hset : Carries jobs (jobs.update n fun r => { r with state := .queued }) := by
        refine update n fun q hq => ⟨rfl, rfl, fun hsettled => ?_, fun _ => rfl⟩
        rw [hr] at hq
        cases hq
        exact absurd (.inl hsettled) hlive
      refine hset.trans (of_get fun m => ?_)
      split <;> rfl

theorem finalize (jobs : Jobs) (n : Nat) : Carries jobs (jobs.finalize n) := by
  unfold Jobs.finalize
  cases jobs.get n with
  | none => exact refl jobs
  | some r =>
    dsimp only
    split
    · exact refl jobs
    · split
      · exact requeue jobs n
      · exact settle jobs n

theorem foldl {α : Type} {g : Jobs → α → Jobs} (hg : ∀ jobs a, Carries jobs (g jobs a))
    (as : List α) (jobs : Jobs) : Carries jobs (as.foldl g jobs) := by
  induction as generalizing jobs with
  | nil => exact refl jobs
  | cons a as ih => exact (hg jobs a).trans (ih _)

end Carries

/-! ## The end of every job -/

theorem settle_settled (jobs : Jobs) (n : Nat) (hr : (jobs.settle n).get n = some r) :
    r.settled = true := by
  unfold settle at hr
  cases hq : jobs.get n with
  | none =>
    rw [hq] at hr
    rw [show jobs.get n = some r from hr] at hq
    cases hq
  | some q =>
    rw [hq] at hr
    dsimp only at hr
    split at hr
    · rename_i hsettled
      rw [hq] at hr
      cases hr
      exact hsettled
    · have hget : ((jobs.update n fun r => { r with settled := true, state := .terminal }).get n) =
          some r := by
        split at hr <;> exact hr
      rw [get_update_self _ hq] at hget
      cases hget
      rfl

theorem Carries.live (h : Carries jobs jobs') {r' : JobRuntime} (hr' : jobs'.get n = some r')
    (hlive : r'.settled = false) : ∃ r, jobs.get n = some r ∧ r.settled = false ∧ Carried r r' := by
  obtain ⟨r, hr, hcarried⟩ := h.origin hr'
  refine ⟨r, hr, ?_, hcarried⟩
  cases hsettled : r.settled with
  | false => rfl
  | true =>
    rw [hcarried.settled hsettled, hsettled] at hlive
    cases hlive

/-- Settle the jobs of a list, as `stop` does. -/
theorem Placed.settleEach (h : Placed jobs lanes) (ns : List Nat) :
    Placed (ns.foldl (fun jobs n => (jobs.removeQueued n).settle n) jobs) lanes ∧
      Carries jobs (ns.foldl (fun jobs n => (jobs.removeQueued n).settle n) jobs) ∧
      ∀ n ∈ ns, ∀ r, (ns.foldl (fun jobs n => (jobs.removeQueued n).settle n) jobs).get n = some r →
        r.settled = true := by
  induction ns generalizing jobs with
  | nil => exact ⟨h, .refl jobs, nofun⟩
  | cons n ns ih =>
    rw [List.foldl_cons, h.settle_removed n]
    obtain ⟨hplaced, hcarries, hsettled⟩ := ih (h.settle n)
    refine ⟨hplaced, (Carries.settle jobs n).trans hcarries, fun m hm r hr => ?_⟩
    rcases List.mem_cons.mp hm with rfl | hm
    · cases hlive : r.settled with
      | true => rfl
      | false =>
        obtain ⟨q, hq, hlive', -⟩ := hcarries.live hr hlive
        rw [settle_settled jobs m hq] at hlive'
        cases hlive'
    · exact hsettled m hm r hr

theorem Placed.dropAll (h : Placed jobs lanes)
    (hsettled : ∀ n r, jobs.get n = some r → r.settled = true) : Placed jobs [] := by
  induction lanes with
  | nil => exact h
  | cons n lanes ih =>
    obtain ⟨r, hr⟩ := Option.isSome_iff_exists.mp (h.known n List.mem_cons_self)
    exact ih (h.drop hr (hsettled n r hr))

/-- The ids of the unsettled jobs are those of the table. -/
theorem Placed.settleAll (h : Placed jobs lanes) {r : JobRuntime}
    (hr : ((jobs.byId.entries.map Prod.snd).foldl (fun jobs n => (jobs.removeQueued n).settle n)
      jobs).get n = some r) : r.settled = true := by
  obtain ⟨-, hcarries, hsettled⟩ := h.settleEach (jobs.byId.entries.map Prod.snd)
  cases hlive : r.settled with
  | true => rfl
  | false =>
    obtain ⟨q, hq, hlive', -⟩ := hcarries.live hr hlive
    have hmem := OrdMap.get_eq_some_iff.mp (h.byId_self hq hlive')
    rw [← hlive]
    exact hsettled n (List.mem_map.mpr ⟨_, hmem, rfl⟩) r hr

end Jobs

end Cover

end P2Party
