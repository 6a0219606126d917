import P2Party.Edge.Eviction

/-!
# A message in progress

The receive key of a message stays among the active keys until its transfer is over. Around it other
messages are received, keys are retired and evicted, and PQ transitions replace the whole map by that
of a clone taken earlier. Once the key is held, nothing but a retirement, an eviction or a restart
takes it away; whether it is used is up to the epoch gate, which stands before the cache.

- `Gated`, `Live.Sound`, `Sound`: what every live edge satisfies, in every run;
- `Held`, `Loses`: a key under its name, and what a step notes when it gives the name up;
- `step_sound`: one step keeps the invariant, and the keys it does not give up;
- `message_in_progress`: over a whole run, and what the remaining frames of the message do.
-/

namespace P2Party

open Base PqHealing PqHealingRuntime PqHealingOrchestrator

variable {L : LibCrypto}

/-! ## Runtimes that pass the gate -/

namespace PqHealingRuntime

/-- The context of the runtime is one that ratchets of this suite accept. -/
structure SparsePqHealingState.Gated (suite : RatchetRootSuite) (r : SparsePqHealingState) : Prop where
  machine : r.machine.Invariant
  binding : r.binding.length = 32
  messageRoot : r.messageRoot.length = 32
  rootSuite : r.rootSuite = suite

variable {suite : RatchetRootSuite} {r r' : SparsePqHealingState}

theorem stable_gated : Stable (SparsePqHealingState.Gated suite) where
  machine hr hkeeps := ⟨hkeeps hr.machine, hr.binding, hr.messageRoot, hr.rootSuite⟩
  refresh hr := ⟨hr.machine, hr.binding, hr.machine.wellFormed.root, hr.rootSuite⟩
  other hr hmachine hroot hfixed := by
    unfold SparsePqHealingState.fixed at hfixed
    simp only [Prod.mk.injEq] at hfixed
    obtain ⟨-, hsuite, -, hbinding, -⟩ := hfixed
    refine ⟨?_, ?_, ?_, hsuite.trans hr.rootSuite⟩
    · rw [hmachine]
      exact hr.machine
    · rw [hbinding]
      exact hr.binding
    · rw [hroot]
      exact hr.messageRoot

/-- A clone keeps the machine, the message root and the identity of the edge. -/
theorem clone_gated {candidate : SparsePqHealingState} (hr : r.Gated suite)
    (h : r.clone = .ok candidate) : candidate.Gated suite := by
  have hfixed := EdgeCrypto.clone_fixed h
  unfold SparsePqHealingState.clone at h
  obtain ⟨fresh, -, h⟩ := except_bind_eq_ok.mp h
  rw [PqHealing.clone_eq hr.machine.wellFormed, ok_bind] at h
  cases h
  exact stable_gated.other hr rfl rfl hfixed

/-- A runtime that is adopted is the live one afterwards. -/
theorem adopt_eq_ok {next : SparsePqHealingState} {u : Unit}
    (h : (adopt next).run r = .ok u r') : r' = next := by
  have hsame : next.pqMode = r.pqMode ∧ next.rootSuite = r.rootSuite ∧
      next.amInitiator = r.amInitiator ∧ next.binding = r.binding := by
    unfold adopt at h
    rw [run_get_bind] at h
    exact (ensure_bind_eq_ok.mp h).1
  obtain ⟨hmode, hsuite, hrole, hbinding⟩ := hsame
  rw [adopt_run hmode hsuite hrole hbinding] at h
  cases h
  rfl

end PqHealingRuntime

namespace EdgeCrypto

/-! ## The invariant of every run -/

/-- A live edge: its runtime is of the suite of its ratchet, and the cache of the connection is the
map of the active keys. -/
structure Live.Sound (s : Live) : Prop where
  runtime : ∃ r, s.pq = some r ∧ r.Gated s.ratchet.rootSuite
  aliased : s.cache = s.active
  bound : s.active < s.maps.length

/-- A row from which a live edge can be loaded. -/
def Row.Sound (row : Row) : Prop := ∃ r, row.pq = some r ∧ r.Gated row.ratchet.rootSuite

/-- The clone of a transition holds every key the live map holds: a key is added under the lock
only, and an eviction does not reach the clone. -/
def Successor (s : Live) (candidate : SparsePqHealingState) : Prop :=
  candidate.Gated s.ratchet.rootSuite ∧ Within (s.map s.active) candidate.activeReceiveKeys

/-- A staged mutation keeps the suite, and a staged receive brings a new name. -/
def Staged.Sound (s : Live) : Staged → Prop
  | .encrypt candidate _ _ _ => candidate.rootSuite = s.ratchet.rootSuite
  | .decrypt candidate cache _ cacheKey _ _ => candidate.rootSuite = s.ratchet.rootSuite ∧
    (cache = s.active → (s.map s.active).get cacheKey = none)
  | .forget candidate _ _ _ => candidate.rootSuite = s.ratchet.rootSuite
  | .transition candidate _ => Successor s candidate

/-- The same of a mutation on its way; the row of a posted one is good to load. -/
def Phase.Sound (s : Live) : Phase → Prop
  | .queued => True
  | .mutating candidate => Successor s candidate
  | .staged work => work.Sound s
  | .writing work row => work.Sound s ∧ row.Sound

/-- What holds in every run. -/
structure Sound (s : EdgeCrypto) : Prop where
  live : s.toLive.Sound
  row : s.row.Sound
  head : ∀ call ∈ s.queue.head?, call.phase.Sound s.toLive
  rest : ∀ call ∈ s.queue.tail, call.phase = .queued

/-- The active keys hold a key under a name. -/
def Held (s : Live) (name : String) (key : Bytes) : Prop := (s.map s.active).get name = some key

/-- What happened between the two retired or evicted the name. -/
def Loses (name : String) (s s' : EdgeCrypto) : Prop :=
  ∃ added, s'.history = s.history ++ added ∧ (Entry.retired name ∈ added ∨ Entry.evicted name ∈ added)

/-- Every held key is still held, or its name was given up. -/
def Carries (s s' : EdgeCrypto) : Prop :=
  ∀ name key, Held s.toLive name key → Held s'.toLive name key ∨ Loses name s s'

/-- A step that neither restarts the edge nor gives the name up. -/
def Event.Spares (L : LibCrypto) (name : String) (event : Event) (s : EdgeCrypto) : Prop :=
  event ≠ .crash ∧ ¬ Loses name s (step L event s)

section Steps

variable {s s' : EdgeCrypto} {call : Call} {rest : List Call}

theorem Carries.refl (s : EdgeCrypto) : Carries s s := fun _ _ hheld => .inl hheld

/-- The live map is the same. -/
theorem carries_of_eq (hmap : s'.map s'.active = s.map s.active) : Carries s s' := by
  intro name key hheld
  left
  unfold Held
  rw [hmap]
  exact hheld

/-- The head leaves with an outcome. -/
theorem Sound.settle (h : Sound s) (hqueue : s.queue = call :: rest) (outcome : Outcome)
    (hlive : s'.toLive.Sound) (hrow : s'.row.Sound) (hcarries : Carries s s') :
    Sound (s'.settle call rest outcome) ∧ Carries s (s'.settle call rest outcome) := by
  have hrest := h.rest
  rw [hqueue] at hrest
  constructor
  · refine ⟨hlive, hrow, fun other hother => ?_, fun other hother => ?_⟩
    · rw [hrest other (List.mem_of_mem_head? hother)]
      trivial
    · exact hrest other (List.mem_of_mem_tail hother)
  · intro name key hheld
    rcases hcarries name key hheld with hheld | ⟨added, hadded, hlost⟩
    · exact .inl hheld
    · refine .inr ⟨added ++ [.settled call.id outcome s'.ratchet s'.row], ?_, ?_⟩
      · rw [← List.append_assoc, ← hadded]
        rfl
      · exact hlost.imp (List.mem_append_left _) (List.mem_append_left _)

/-- The head leaves and nothing else changes. -/
theorem Sound.refuse (h : Sound s) (hqueue : s.queue = call :: rest) (outcome : Outcome) :
    Sound (s.settle call rest outcome) ∧ Carries s (s.settle call rest outcome) :=
  h.settle hqueue outcome h.live h.row (Carries.refl s)

/-- The head goes on. -/
theorem Sound.advance (h : Sound s) (hqueue : s.queue = call :: rest) {phase : Phase}
    (hphase : phase.Sound s.toLive) :
    Sound (s.advance call rest phase) ∧ Carries s (s.advance call rest phase) := by
  have hrest := h.rest
  rw [hqueue] at hrest
  refine ⟨⟨h.live, h.row, ?_, hrest⟩, carries_of_eq rfl⟩
  rintro other ⟨⟩
  exact hphase

theorem Sound.begin (h : Sound s) (hqueue : s.queue = call :: rest) :
    Sound (s.begin L call rest) ∧ Carries s (s.begin L call rest) := by
  obtain ⟨r, hr, hgated⟩ := h.live.runtime
  unfold EdgeCrypto.begin
  split
  case h_1 =>
    split
    · exact h.refuse hqueue _
    case h_2 staged hstage =>
      obtain ⟨candidate, messageKey, header, pqContext, rfl, hsuite, -, -⟩ := stageEncrypt_cases hstage
      exact h.advance hqueue hsuite
  case h_2 cache frame merkleRoot secretKey _ =>
    split
    · exact h.refuse hqueue _
    · exact h.refuse hqueue _
    case h_3 staged hstage =>
      obtain ⟨candidate, cacheKey, messageKey, chunk, rfl, -, hnew, hsuite, -⟩ := stageDecrypt_cases hstage
      refine h.advance hqueue ⟨hsuite, ?_⟩
      rintro rfl
      exact hnew
  case h_3 cache cacheKey _ =>
    split
    case h_1 staged hstage =>
      obtain ⟨candidate, rfl, hsuite, -⟩ := stageForget_cases hstage
      exact h.advance hqueue hsuite
    case h_2 =>
      rw [hr]
      exact h.refuse hqueue _
  case h_4 =>
    split
    · exact h.refuse hqueue _
    case h_2 live hlive =>
      split
      · exact h.refuse hqueue _
      case h_2 candidate hclone =>
        unfold Live.runtime at hlive
        rw [hr] at hlive
        cases hlive
        have hkeyed : SparsePqHealingState.Gated s.ratchet.rootSuite
            { r with activeReceiveKeys := s.map s.active } :=
          ⟨hgated.machine, hgated.binding, hgated.messageRoot, hgated.rootSuite⟩
        refine h.advance hqueue ⟨clone_gated hkeyed hclone, ?_⟩
        have hfixed := clone_fixed hclone
        unfold SparsePqHealingState.fixed at hfixed
        simp only [Prod.mk.injEq] at hfixed
        obtain ⟨-, -, -, -, hkeys⟩ := hfixed
        rw [hkeys]
        exact fun _ _ hget => hget

theorem Sound.mutated (h : Sound s) (hqueue : s.queue = call :: rest) {candidate : SparsePqHealingState}
    (hphase : call.phase = .mutating candidate) :
    Sound (s.mutated L call rest candidate) ∧ Carries s (s.mutated L call rest candidate) := by
  have hhead := h.head call (by rw [hqueue]; rfl)
  rw [hphase] at hhead
  obtain ⟨hgated, hwithin⟩ := hhead
  unfold EdgeCrypto.mutated
  split
  case h_2 => exact ⟨h, Carries.refl s⟩
  case h_1 transition hrequest =>
    split
    · exact h.refuse hqueue _
    case h_2 outcome candidate' hrun =>
      split
      · have hfixed : candidate'.fixed = candidate.fixed := (mutate_fixed transition).of_ok rfl hrun
        unfold SparsePqHealingState.fixed at hfixed
        simp only [Prod.mk.injEq] at hfixed
        obtain ⟨-, -, -, -, hkeys⟩ := hfixed
        refine h.advance hqueue ⟨(mutate_stable stable_gated transition).of_ok hgated hrun, ?_⟩
        rw [hkeys]
        exact hwithin
      · exact h.refuse hqueue _

/-- The row of a staged mutation is good to load. -/
theorem toRow_sound {live : Live} (h : live.Sound) {staged : Staged} (hstaged : staged.Sound live) :
    (staged.toRow live).Sound := by
  obtain ⟨r, hr, hgated⟩ := h.runtime
  cases staged with
  | encrypt candidate _ _ _ =>
    refine ⟨{ r with activeReceiveKeys := live.map live.active }, ?_, ?_⟩
    · show live.runtime = _
      unfold Live.runtime
      rw [hr]
      rfl
    · exact ⟨hgated.machine, hgated.binding, hgated.messageRoot, hgated.rootSuite.trans hstaged.symm⟩
  | decrypt candidate _ stagedCache _ _ _ =>
    refine ⟨{ r with activeReceiveKeys := stagedCache }, ?_, ?_⟩
    · show live.pq.map _ = _
      rw [hr]
      rfl
    · exact ⟨hgated.machine, hgated.binding, hgated.messageRoot, hgated.rootSuite.trans hstaged.1.symm⟩
  | forget candidate _ stagedCache _ =>
    refine ⟨{ r with activeReceiveKeys := stagedCache }, ?_, ?_⟩
    · show live.pq.map _ = _
      rw [hr]
      rfl
    · exact ⟨hgated.machine, hgated.binding, hgated.messageRoot, hgated.rootSuite.trans hstaged.symm⟩
  | transition candidate _ => exact ⟨candidate, rfl, hstaged.1⟩

theorem Sound.post (h : Sound s) (hqueue : s.queue = call :: rest) {staged : Staged}
    (hphase : call.phase = .staged staged) (owner : Bool) :
    Sound (s.post call rest staged owner) ∧ Carries s (s.post call rest staged owner) := by
  have hhead := h.head call (by rw [hqueue]; rfl)
  rw [hphase] at hhead
  have hstaged : staged.Sound s.toLive := hhead
  unfold EdgeCrypto.post
  split
  · exact h.advance hqueue ⟨hstaged, toRow_sound h.live hstaged⟩
  · exact h.refuse hqueue _

/-- Counting a message keeps the runtime, and touches no map. -/
theorem Live.Sound.noteApplicationMessage {live live' : Live} (h : live.Sound)
    (hnote : live.noteApplicationMessage = .ok live') :
    live'.Sound ∧ live'.map live'.active = live.map live.active := by
  obtain ⟨r, hr, hgated⟩ := h.runtime
  unfold Live.noteApplicationMessage at hnote
  rw [hr] at hnote
  dsimp only at hnote
  split at hnote
  case h_1 r' hrun =>
    cases hnote
    exact ⟨⟨⟨r', rfl, (noteApplicationMessage_stable stable_gated).of_ok hgated hrun⟩, h.aliased,
      h.bound⟩, rfl⟩
  case h_2 => cases hnote

/-- A commit that counts the message ends with the head gone, whether or not the count fails. -/
theorem Sound.counted (h : Sound s) (hqueue : s.queue = call :: rest) (outcome : Outcome)
    {failed : Live → Live} (hlive : s'.toLive.Sound) (hrow : s'.row.Sound) (hcarries : Carries s s')
    (hfailed : (failed s'.toLive).Sound) (hkept : Carries s (s'.withLive (failed s'.toLive))) :
    Sound (s'.counted call rest outcome failed) ∧ Carries s (s'.counted call rest outcome failed) := by
  unfold EdgeCrypto.counted
  split
  case h_1 live hnote =>
    obtain ⟨hsound, hmap⟩ := hlive.noteApplicationMessage hnote
    refine h.settle hqueue outcome hsound hrow fun name key hheld => ?_
    refine (hcarries name key hheld).imp_left fun hheld' => ?_
    unfold Held at hheld' ⊢
    exact (congrArg (fun keys : KeyMap => keys.get name) hmap).trans hheld'
  case h_2 e _ => exact h.settle hqueue (.thrown e) hfailed hrow hkept

/-- Changing a map object leaves a live edge one. -/
theorem Live.Sound.setMap {live : Live} (h : live.Sound) (cache : Nat) (keys : KeyMap) :
    (live.setMap cache keys).Sound := by
  refine ⟨h.runtime, h.aliased, ?_⟩
  show live.active < (live.maps.set cache keys).length
  rw [List.length_set]
  exact h.bound

/-- A live edge with the successor of its ratchet. -/
theorem Live.Sound.withRatchet {live : Live} (h : live.Sound) {candidate : RatchetState}
    (hsuite : candidate.rootSuite = live.ratchet.rootSuite) :
    ({ live with ratchet := candidate } : Live).Sound := by
  obtain ⟨r, hr, hgated⟩ := h.runtime
  exact ⟨⟨r, hr, hgated.machine, hgated.binding, hgated.messageRoot, hgated.rootSuite.trans hsuite.symm⟩,
    h.aliased, h.bound⟩

/-- Storing under a name leaves the keys of the other names. -/
theorem held_set {live : Live} {cache : Nat} {cacheKey name : String} {messageKey key : Bytes}
    (hheld : Held live name key) (hname : cache = live.active → name ≠ cacheKey) :
    Held (live.setMap cache ((live.map cache).set cacheKey messageKey)) name key := by
  have hactive : (live.setMap cache ((live.map cache).set cacheKey messageKey)).active = live.active := rfl
  unfold Held
  rw [hactive, map_setMap]
  split
  case isTrue hsame =>
    obtain ⟨hsame, -⟩ := hsame
    rw [OrdMap.get_set_ne _ _ (hname hsame.symm), ← hsame]
    exact hheld
  case isFalse => exact hheld

/-- Deleting a name leaves the keys of the others. -/
theorem held_delete {live : Live} {cache : Nat} {cacheKey name : String} {key : Bytes}
    (hheld : Held live name key) (hname : name ≠ cacheKey) :
    Held (live.setMap cache ((live.map cache).delete cacheKey)) name key := by
  have hactive : (live.setMap cache ((live.map cache).delete cacheKey)).active = live.active := rfl
  unfold Held
  rw [hactive, map_setMap]
  split
  case isTrue hsame =>
    obtain ⟨hsame, -⟩ := hsame
    rw [OrdMap.get_delete_ne _ hname, ← hsame]
    exact hheld
  case isFalse => exact hheld

theorem Sound.answer (h : Sound s) (hqueue : s.queue = call :: rest) {staged : Staged} {row : Row}
    (hphase : call.phase = .writing staged row) (write : Write) :
    Sound (s.answer call rest staged row write) ∧ Carries s (s.answer call rest staged row write) := by
  have hhead := h.head call (by rw [hqueue]; rfl)
  rw [hphase] at hhead
  obtain ⟨hstaged, hrow⟩ := hhead
  unfold EdgeCrypto.answer
  cases write with
  | lost => exact h.refuse hqueue _
  | late =>
    refine h.settle hqueue _ ?_ ?_ ?_
    exacts [h.live, hrow, carries_of_eq rfl]
  | done =>
    cases staged with
    | encrypt candidate messageKey header pqContext =>
      have hlive := h.live.withRatchet hstaged
      refine h.counted hqueue _ ?_ ?_ ?_ ?_ ?_
      exacts [hlive, hrow, carries_of_eq rfl, hlive, carries_of_eq rfl]
    | decrypt candidate cache stagedCache cacheKey messageKey chunk =>
      obtain ⟨hsuite, hnew⟩ := hstaged
      have hlive := h.live.withRatchet hsuite
      have hfresh : ∀ name key, Held s.toLive name key → cache = s.active → name ≠ cacheKey := by
        rintro name key hheld hcache rfl
        rw [Held, hnew hcache] at hheld
        cases hheld
      obtain ⟨r, hr, -⟩ := h.live.runtime
      have hsome : s.pq.isSome = true := by rw [hr]; rfl
      unfold EdgeCrypto.commit
      dsimp only
      split
      · refine h.counted hqueue _ ?_ ?_ ?_ ?_ ?_
        · exact hlive.setMap _ _
        · exact hrow
        · intro name key hheld
          exact .inl (@held_set { s.toLive with ratchet := candidate } _ _ _ _ _ hheld
            (hfresh name key hheld))
        · exact (hlive.setMap _ _).setMap _ _
        · -- a failed count wipes the key under its own name
          intro name key hheld
          have hpublished := @held_set { s.toLive with ratchet := candidate } cache cacheKey name messageKey
            key hheld (hfresh name key hheld)
          exact .inl (held_set hpublished (hfresh name key hheld))
      case isFalse hnone => exact absurd hsome hnone
    | forget candidate cache stagedCache cacheKey =>
      have hlive := h.live.withRatchet hstaged
      refine h.settle hqueue _ ?_ ?_ ?_
      · exact hlive.setMap _ _
      · exact hrow
      · intro name key hheld
        by_cases hname : name = cacheKey
        · refine .inr ⟨[.retired cacheKey], rfl, .inl ?_⟩
          rw [hname]
          exact List.mem_singleton_self _
        · exact .inl (@held_delete { s.toLive with ratchet := candidate } _ _ _ _ hheld hname)
    | transition candidate dispatch =>
      obtain ⟨hgated, hwithin⟩ := hstaged
      obtain ⟨r, hr, -⟩ := h.live.runtime
      unfold EdgeCrypto.commit
      dsimp only
      rw [hr]
      dsimp only
      split
      case h_1 e _ =>
        refine h.settle hqueue _ ?_ ?_ ?_
        exacts [h.live, hrow, carries_of_eq rfl]
      case h_2 live hadopt =>
        obtain rfl := adopt_eq_ok hadopt
        have hlength : s.maps.length = (s.maps.set s.active .empty).length := List.length_set.symm
        have hmap : (s.maps.set s.active .empty ++ [live.activeReceiveKeys]).getD s.maps.length .empty =
            live.activeReceiveKeys := by
          rw [hlength, List.getD_eq_getElem?_getD, List.getElem?_concat_length]
          rfl
        refine h.settle hqueue _ ⟨⟨live, rfl, hgated⟩, rfl, ?_⟩ hrow fun name key hheld => .inl ?_
        · show s.maps.length < (s.maps.set s.active .empty ++ [live.activeReceiveKeys]).length
          rw [List.length_append, List.length_set]
          exact Nat.lt_succ_self _
        · show ((s.maps.set s.active .empty ++ [live.activeReceiveKeys]).getD s.maps.length .empty).get
            name = some key
          rw [hmap]
          exact hwithin name key hheld

theorem Sound.enqueue (h : Sound s) (request : Request) :
    Sound (s.enqueue request) ∧ Carries s (s.enqueue request) := by
  have hqueue := queue_enqueue (P := fun phase => phase.Sound s.toLive) trivial h.head h.rest request
  exact ⟨⟨h.live, h.row, hqueue.1, hqueue.2⟩, carries_of_eq rfl⟩

/-- What the loop of the size bound leaves under a name. -/
theorem get_foldl_delete (evicted : List String) (keys : KeyMap) (name : String) :
    (evicted.foldl OrdMap.delete keys).get name = if name ∈ evicted then none else keys.get name := by
  induction evicted generalizing keys with
  | nil => rfl
  | cons other evicted ih =>
    rw [List.foldl_cons, ih]
    by_cases hmem : name ∈ evicted
    · rw [if_pos hmem, if_pos (List.mem_cons_of_mem _ hmem)]
    · rw [if_neg hmem]
      by_cases hname : name = other
      · rw [hname, OrdMap.get_delete_self, if_pos List.mem_cons_self]
      · rw [OrdMap.get_delete_ne _ hname, if_neg]
        exact fun hcons => (List.mem_cons.mp hcons).elim hname hmem

/-- A mutation on its way stays sound when the live map loses keys. -/
theorem Phase.Sound.evicted {live live' : Live} {phase : Phase} (h : phase.Sound live)
    (hratchet : live'.ratchet = live.ratchet) (hactive : live'.active = live.active)
    (hless : Within (live'.map live'.active) (live.map live.active)) (cache : Nat) (evicted : List String) :
    (phase.wipe cache evicted).Sound live' := by
  have hsuccessor : ∀ {candidate}, Successor live candidate → Successor live' candidate := by
    rintro candidate ⟨hgated, hwithin⟩
    refine ⟨?_, fun name key hget => hwithin name key (hless name key hget)⟩
    rw [hratchet]
    exact hgated
  have hnew : ∀ {cache : Nat} {cacheKey : String},
      (cache = live.active → (live.map live.active).get cacheKey = none) →
      cache = live'.active → (live'.map live'.active).get cacheKey = none := by
    intro cache cacheKey hnone hcache
    rw [hactive] at hcache
    cases hget : (live'.map live'.active).get cacheKey with
    | none => rfl
    | some key =>
      have hbefore := hless cacheKey key hget
      rw [hnone hcache] at hbefore
      cases hbefore
  have hstaged : ∀ {work : Staged}, work.Sound live → work.Sound live' := by
    intro work hwork
    cases work with
    | encrypt candidate _ _ _ => exact hwork.trans (congrArg (·.rootSuite) hratchet.symm)
    | decrypt candidate _ _ _ _ _ =>
      exact ⟨hwork.1.trans (congrArg (·.rootSuite) hratchet.symm), hnew hwork.2⟩
    | forget candidate _ _ _ => exact hwork.trans (congrArg (·.rootSuite) hratchet.symm)
    | transition candidate _ => exact hsuccessor hwork
  cases phase with
  | queued => trivial
  | mutating candidate => exact hsuccessor h
  | staged work =>
    have hwork := hstaged h
    cases work <;> exact hwork
  | writing work row => exact ⟨hstaged h.1, h.2⟩

/-- An eviction carries the keys it does not note. -/
theorem Sound.evict (h : Sound s) : Sound s.evict ∧ Carries s s.evict := by
  have hmap : s.evict.map s.evict.active =
      (evictions (s.map s.active)).foldl OrdMap.delete (s.map s.active) := by
    have hcache := map_evict s
    rw [h.live.aliased] at hcache
    exact hcache
  have hless : Within (s.evict.map s.evict.active) (s.map s.active) := by
    intro name key hget
    rw [hmap, get_foldl_delete] at hget
    split at hget
    · cases hget
    · exact hget
  constructor
  · refine ⟨⟨h.live.runtime, h.live.aliased, ?_⟩, h.row, fun other hother => ?_, evict_rest h.rest⟩
    · show s.active < (s.maps.set s.cache _).length
      rw [List.length_set]
      exact h.live.bound
    · have hhead : s.evict.queue.head? = s.queue.head?.map fun call =>
          { call with phase := call.phase.wipe s.cache (evictions (s.map s.cache)) } := List.head?_map
      rw [hhead] at hother
      obtain ⟨call, hcall, rfl⟩ := Option.map_eq_some_iff.mp hother
      exact @Phase.Sound.evicted s.toLive s.evict.toLive _ (h.head call hcall) rfl rfl hless _ _
  · intro name key hheld
    by_cases hevicted : name ∈ evictions (s.map s.cache)
    · exact .inr ⟨(evictions (s.map s.cache)).map .evicted, rfl, .inr (List.mem_map_of_mem hevicted)⟩
    · left
      unfold Held
      rw [hmap, get_foldl_delete, if_neg (h.live.aliased ▸ hevicted)]
      exact hheld

/-- Loading a sound row makes a live edge. -/
theorem Row.Sound.ofRow {row : Row} (h : row.Sound) : (Live.ofRow row).Sound := by
  obtain ⟨r, hr, hgated⟩ := h
  exact ⟨⟨r, hr, hgated⟩, rfl, Nat.zero_lt_one⟩

/-- Whatever happens next, the edge stays sound; without a restart it carries the keys that the step
does not give up. -/
theorem step_sound (h : Sound s) (event : Event) :
    Sound (step L event s) ∧ (event ≠ .crash → Carries s (step L event s)) := by
  cases event with
  | call request =>
    obtain ⟨hsound, hcarries⟩ := h.enqueue request
    exact ⟨hsound, fun _ => hcarries⟩
  | receive frame merkleRoot secretKey =>
    show Sound (s.receive frame merkleRoot secretKey) ∧ (_ → Carries s (s.receive frame merkleRoot secretKey))
    unfold EdgeCrypto.receive
    split
    · exact ⟨h, fun _ => Carries.refl s⟩
    · obtain ⟨hevicted, hcarries⟩ := h.evict
      refine ⟨(hevicted.enqueue _).1, fun _ => ?_⟩
      exact hcarries
  | retire cacheKey =>
    obtain ⟨hsound, hcarries⟩ := h.enqueue (.forget s.cache cacheKey)
    exact ⟨hsound, fun _ => hcarries⟩
  | resume owner =>
    unfold step
    simp only
    split
    · exact ⟨h, fun _ => Carries.refl s⟩
    case h_2 call rest hqueue =>
      split
      case h_1 => exact ⟨(h.begin hqueue).1, fun _ => (h.begin hqueue).2⟩
      case h_2 hphase => exact ⟨(h.mutated hqueue hphase).1, fun _ => (h.mutated hqueue hphase).2⟩
      case h_3 hphase => exact ⟨(h.post hqueue hphase owner).1, fun _ => (h.post hqueue hphase owner).2⟩
      case h_4 => exact ⟨h, fun _ => Carries.refl s⟩
  | written write =>
    unfold step
    simp only
    split
    · exact ⟨h, fun _ => Carries.refl s⟩
    case h_2 call rest hqueue =>
      split
      case h_1 hphase =>
        exact ⟨(h.answer hqueue hphase write).1, fun _ => (h.answer hqueue hphase write).2⟩
      case h_2 => exact ⟨h, fun _ => Carries.refl s⟩
  | crash =>
    refine ⟨⟨h.row.ofRow, h.row, ?_, ?_⟩, fun hcrash => absurd rfl hcrash⟩
    · rintro call ⟨⟩
    · rintro call ⟨⟩

end Steps

/-! ## Whole runs -/

theorem run_sound {s : EdgeCrypto} (events : List Event) (h : Sound s) : Sound (runAll L events s) := by
  induction events generalizing s with
  | nil => exact h
  | cons event events ih => exact ih (step_sound h event).1

theorem run_held {s : EdgeCrypto} {name : String} {key : Bytes} (events : List Event) (h : Sound s)
    (hheld : Held s.toLive name key) (hspares : Throughout L (Event.Spares L name) events s) :
    Held (runAll L events s).toLive name key := by
  induction events generalizing s with
  | nil => exact hheld
  | cons event events ih =>
    obtain ⟨⟨hcrash, hkept⟩, hspares⟩ := hspares
    obtain ⟨hsound, hcarries⟩ := @step_sound L s h event
    exact ih hsound ((hcarries hcrash name key hheld).resolve_right hkept) hspares

theorem ofLive_sound {live : Live} (h : live.Sound) : Sound (ofLive live) := by
  obtain ⟨r, hr, hgated⟩ := h.runtime
  refine ⟨h, ⟨{ r with activeReceiveKeys := live.map live.active }, ?_, ?_⟩, ?_, ?_⟩
  · show live.runtime = _
    unfold Live.runtime
    rw [hr]
    rfl
  · exact ⟨hgated.machine, hgated.binding, hgated.messageRoot, hgated.rootSuite⟩
  · rintro call ⟨⟩
  · rintro call ⟨⟩

/-- The gate of a live edge opens for its own epoch. -/
theorem Live.Sound.gate {live : Live} (h : live.Sound) {r : SparsePqHealingState} (hr : live.pq = some r)
    (epoch : Nat) : gateEpoch live.resolver epoch live.ratchet.rootSuite =
      if epoch = r.machine.epoch then some (some r.currentMessageContext) else none := by
  obtain ⟨r', hr', hgated⟩ := h.runtime
  cases hr.symm.trans hr'
  have hresolver : live.resolver = some fun epoch => .ok (r.resolveMessageContext epoch) := by
    unfold Live.resolver
    rw [hr]
    rfl
  rw [hresolver]
  unfold gateEpoch SparsePqHealingState.resolveMessageContext
  by_cases hepoch : epoch = r.machine.epoch
  · have hmatches : resolvedContextMatches r.currentMessageContext epoch live.ratchet.rootSuite = true := by
      unfold resolvedContextMatches
      simp [SparsePqHealingState.currentMessageContext, hgated.messageRoot, hgated.binding, hgated.rootSuite,
        hepoch]
    simp only [if_pos hepoch, hmatches, if_true]
  · simp only [if_neg hepoch]

/-- A key that is held stays held until it is retired or evicted or the edge restarts, whatever else is
received, sent, persisted, refused or committed meanwhile; and a remaining frame of its message opens,
with the ratchet and the cache left alone, exactly while the PQ epoch is still that of the frame. -/
theorem message_in_progress (haead : L.AeadLaws) {live : Live} (hlive : live.Sound)
    (before after : List Event) {dhPub key : Bytes} {N epoch : Nat}
    (hheld : Held (runAll L before (ofLive live)).toLive (cacheKey dhPub N epoch) key)
    (hspares : Throughout L (Event.Spares L (cacheKey dhPub N epoch)) after (runAll L before (ofLive live)))
    {PN : Nat} (hfits : HeaderFits ⟨dhPub, N, PN⟩ epoch) {chunk merkleRoot : Bytes}
    (hproof : ProvesLeaf L merkleRoot chunk) (hroot : merkleRoot.length = HASH_BYTES) (nonce : Nonce)
    (secretKey : Bytes) {s : EdgeCrypto} (hs : s = runAll L after (runAll L before (ofLive live))) :
    Held s.toLive (cacheKey dhPub N epoch) key ∧
      ((decryptMessageChunk L (sealedChunk L key ⟨dhPub, N, PN⟩ epoch chunk merkleRoot nonce) merkleRoot
          s.resolver secretKey).run ⟨s.ratchet, s.map s.cache⟩ =
        .ok ⟨some (withReceipt L chunk), true, false⟩ ⟨s.ratchet, s.map s.cache⟩ ↔
      ∃ r, s.pq = some r ∧ r.machine.epoch = epoch) := by
  have hbefore := run_sound (L := L) before (ofLive_sound hlive)
  have hsound : Sound s := hs ▸ run_sound after hbefore
  have hend : Held s.toLive (cacheKey dhPub N epoch) key := hs ▸ run_held after hbefore hheld hspares
  refine ⟨hend, ?_⟩
  obtain ⟨r, hr, -⟩ := hsound.live.runtime
  have hgate := hsound.live.gate hr epoch
  have hparse := @parse_sealedChunk L ⟨dhPub, N, PN⟩ epoch nonce merkleRoot chunk key hfits
  constructor
  · intro hrun
    refine ⟨r, hr, ?_⟩
    by_contra hepoch
    rw [if_neg fun heq => hepoch heq.symm] at hgate
    rw [decryptMessageChunk_unresolved hroot hparse hgate] at hrun
    cases hrun
  · rintro ⟨r', hr', rfl⟩
    cases hr.symm.trans hr'
    rw [if_pos rfl] at hgate
    have hresolver : s.resolver.isSome = true := by
      unfold Live.resolver
      rw [hr]
      rfl
    have hkey := @messageCacheKey_eq dhPub N r.machine.epoch hfits.epoch
    have hcached : (s.map s.cache).get (cacheKey dhPub N r.machine.epoch) = some key := by
      rw [hsound.live.aliased]
      exact hend
    have hhit := @decryptMessageChunk_hit L merkleRoot key secretKey _ s.resolver _
      ⟨s.ratchet, s.map s.cache⟩ _ _ hroot hparse hgate (by rw [hresolver]; exact hkey) hcached
    have hopens := @receive_sealedChunk L ⟨dhPub, N, PN⟩ r.machine.epoch nonce merkleRoot chunk key haead
      hfits hproof
    rw [hhit, hopens]
    rfl

/-! ## A transition that commits meanwhile -/

/-- A run without restarts and receives spares a name that its history does not give up. -/
theorem spares_of_history {s : EdgeCrypto} {name : String} (events : List Event)
    (hplain : ∀ event ∈ events, event.Plain) {added : List Entry}
    (hadded : (runAll L events s).history = s.history ++ added) (hretired : Entry.retired name ∉ added)
    (hevicted : Entry.evicted name ∉ added) : Throughout L (Event.Spares L name) events s := by
  induction events generalizing s added with
  | nil => trivial
  | cons event events ih =>
    have hfirst := hplain event List.mem_cons_self
    obtain ⟨first, hstep, -⟩ := @step_unpublished L s event hfirst
    obtain ⟨others, hothers, -⟩ := @run_unpublished L (step L event s) events
      fun other hother => hplain other (List.mem_cons_of_mem _ hother)
    have hsplit : added = first ++ others := by
      refine @List.append_cancel_left _ s.history _ _ ?_
      rw [← List.append_assoc, ← hstep, ← hothers]
      exact hadded.symm
    subst hsplit
    refine ⟨⟨?_, ?_⟩, ih (fun other hother => hplain other (List.mem_cons_of_mem _ hother)) hothers
      (fun hmem => hretired (List.mem_append_right _ hmem))
      (fun hmem => hevicted (List.mem_append_right _ hmem))⟩
    · rintro rfl
      exact hfirst
    · rintro ⟨added', hadded', hlost⟩
      obtain rfl := List.append_cancel_left (hstep.symm.trans hadded')
      rcases hlost with hlost | hlost
      · exact hretired (List.mem_append_left _ hlost)
      · exact hevicted (List.mem_append_left _ hlost)

/-- The events of a transition that nothing else comes between. -/
def transitionAlone (transition : Transition) : List Event :=
  [.call (.transition transition), .resume true, .resume true, .resume true, .written .done]

/-- Where they lead. -/
theorem transition_commits {live : Live} {r r' candidate : SparsePqHealingState} {transition : Transition}
    {dispatch : Option Bytes} (hpq : live.pq = some r)
    (hclone : ({ r with activeReceiveKeys := live.map live.active } : SparsePqHealingState).clone = .ok r')
    (hmutate : (transition.mutate L).run r' = .ok ⟨dispatch, true⟩ candidate)
    (hserializes : Row.serializes ⟨serializeRatchet live.ratchet, some candidate⟩ = true)
    (hsame : SameEdge candidate r) :
    runAll L (transitionAlone transition) (ofLive live) =
      { ratchet := live.ratchet, pq := some candidate
        maps := live.maps.set live.active .empty ++ [candidate.activeReceiveKeys]
        active := live.maps.length, cache := live.maps.length
        row := ⟨serializeRatchet live.ratchet, some candidate⟩, queue := [], calls := 1
        history := [.settled 0 (.transition dispatch) live.ratchet
          ⟨serializeRatchet live.ratchet, some candidate⟩] } := by
  have hruntime : live.runtime = some { r with activeReceiveKeys := live.map live.active } := by
    unfold Live.runtime
    rw [hpq]
    rfl
  have hadopt := adopt_run hsame.pqMode hsame.rootSuite hsame.amInitiator hsame.binding
  have hbegin : step L (.resume true) ((ofLive live).enqueue (.transition transition)) =
      { ofLive live with calls := 1, queue := [⟨0, .transition transition, .mutating r'⟩] } := by
    exact begin_transition (L := L) ((ofLive live).enqueue (.transition transition))
      ⟨0, .transition transition, .queued⟩ [] rfl hruntime hclone
  have hmutated : step L (.resume true)
        { ofLive live with calls := 1, queue := [⟨0, .transition transition, .mutating r'⟩] } =
      { ofLive live with
        calls := 1
        queue := [⟨0, .transition transition, .staged (.transition candidate dispatch)⟩] } := by
    exact mutated_transition { ofLive live with
      calls := 1, queue := [⟨0, .transition transition, .mutating r'⟩] }
      ⟨0, .transition transition, .mutating r'⟩ [] rfl hmutate
  have hposted : step L (.resume true)
        { ofLive live with
          calls := 1
          queue := [⟨0, .transition transition, .staged (.transition candidate dispatch)⟩] } =
      { ofLive live with
        calls := 1
        queue := [⟨0, .transition transition, .writing (.transition candidate dispatch)
          ⟨serializeRatchet live.ratchet, some candidate⟩⟩] } := if_pos ⟨rfl, hserializes⟩
  unfold transitionAlone
  rw [runAll_cons, runAll_cons]
  show runAll L _ (step L (.resume true) ((ofLive live).enqueue (.transition transition))) = _
  rw [hbegin, runAll_cons, hmutated, runAll_cons, hposted]
  exact commit_transition { ofLive live with
    calls := 1
    queue := [⟨0, .transition transition, .writing (.transition candidate dispatch)
      ⟨serializeRatchet live.ratchet, some candidate⟩⟩]
    row := ⟨serializeRatchet live.ratchet, some candidate⟩ } _ _ _ hpq hadopt

section Answering

open HealingRefinement

/-- The name of the first message. -/
def firstName : String := cacheKey firstHeader.dhPub 0 0

/-- The other end, with the key of a message in progress. -/
def answerer : Live where
  ratchet := dueReceiver.ratchet
  pq := some (startRuntime sampleEdge sampleRoot 0 .responder)
  maps := [OrdMap.empty.set firstName firstKey]
  active := 0
  cache := 0

/-- Its runtime with that key. -/
def answering : SparsePqHealingState :=
  { startRuntime sampleEdge sampleRoot 0 .responder with
    activeReceiveKeys := OrdMap.empty.set firstName firstKey }

theorem answering_abs : Abs .transparent sampleEdge .responder answering (startParty sampleRoot) := by
  obtain ⟨hwf, hmode, hbinding, hrole, hepoch, hlocal, hremote, hturn, hroot, hphase, hvalid, hcached⟩ :=
    sample_abs .responder
  exact ⟨hwf.withKeys _, hmode, hbinding, hrole, hepoch, hlocal, hremote, hturn, hroot, hphase, hvalid,
    hcached⟩

/-- An OFFER of the peer runs on the clone and commits the next epoch. -/
theorem answering_answers : ∃ frame dispatch candidate,
    ((Transition.inbound frame [] sampleNonce PQ_HEAL_AFTER_MS).mutate .transparent).run answering =
        .ok ⟨dispatch, true⟩ candidate ∧
      candidate.WellFormed ∧ SameEdge candidate answering ∧ candidate.machine.epoch = 1 ∧
      candidate.activeReceiveKeys = answering.activeReceiveKeys := by
  obtain ⟨pk, sk, hoffered⟩ := sample_offered []
  obtain ⟨o, -, -, -, hmeans⟩ :=
    @Abs.offer _ _ _ _ _ (sample_abs .initiator) _ _ _ sampleNonce _ hoffered (by decide)
  have hclock : PQ_HEAL_AFTER_MS ≤ MAX_SAFE_INTEGER := by decide
  obtain ⟨offer, ct, ss, next, haccepted, habs⟩ := answering_abs.takes_offer LibCrypto.transparent_aeadLaws
    LibCrypto.transparent_kemLaws hmeans rfl rfl (by rintro ⟨⟨⟩, -⟩) (by rintro ⟨⟨⟩, -⟩) hclock [] sampleNonce
  refine ⟨_, _, _, inbound_run answering_abs.wf haccepted, ?_, ?_, ?_, ?_⟩
  · exact habs.wf.dispatched rfl (Nat.succ_pos _) (by decide)
  · exact ⟨rfl, rfl, rfl, rfl⟩
  · exact habs.epoch
  · rfl

theorem answerer_sound : answerer.Sound :=
  ⟨⟨_, rfl, ⟨(sample_abs .responder).wf.machine, trivial⟩, List.length_replicate, List.length_replicate, rfl⟩,
    rfl, Nat.zero_lt_one⟩

/-- The other end answers an OFFER in the middle of a message: it still holds the key, and the frames
that are left are dropped. -/
theorem message_in_progress_answered : ∃ (frame : Bytes) (s : EdgeCrypto), s = runAll .transparent
      (transitionAlone (.inbound frame [] sampleNonce PQ_HEAL_AFTER_MS)) (ofLive answerer) ∧
    Held s.toLive firstName firstKey ∧ (∃ r, s.pq = some r ∧ r.machine.epoch = 1) ∧
    ¬ (decryptMessageChunk .transparent firstChunk blankRoot s.resolver []).run ⟨s.ratchet, s.map s.cache⟩ =
      .ok ⟨some (withReceipt .transparent blankChunk), true, false⟩ ⟨s.ratchet, s.map s.cache⟩ := by
  obtain ⟨frame, dispatch, candidate, hmutate, hwf, hsame, hepoch, hkeys⟩ := answering_answers
  have hclone : answering.clone = .ok answering := SparsePqHealingState.clone_eq answering_abs.wf
  have hfit : KeysFit candidate.activeReceiveKeys := by
    rw [hkeys]
    refine ⟨fun entry hentry => ?_, by decide +kernel⟩
    rw [List.mem_singleton.mp hentry]
    decide +kernel
  have hrun := @transition_commits .transparent answerer _ _ candidate _ dispatch rfl hclone hmutate
    (serializes_of_fits _ hwf hfit) ⟨hsame.pqMode, hsame.rootSuite, hsame.amInitiator, hsame.binding⟩
  have hspares : Throughout .transparent (Event.Spares .transparent firstName)
      (transitionAlone (.inbound frame [] sampleNonce PQ_HEAL_AFTER_MS)) (ofLive answerer) := by
    refine spares_of_history _ ?_ ((congrArg EdgeCrypto.history hrun).trans (List.nil_append _).symm) ?_ ?_
    · intro event hevent
      simp only [transitionAlone, List.mem_cons, List.not_mem_nil, or_false] at hevent
      rcases hevent with rfl | rfl | rfl | rfl | rfl <;> trivial
    · simp
    · simp
  have hheld : Held answerer firstName firstKey := OrdMap.get_set_self .empty firstName firstKey
  obtain ⟨hend, hopens⟩ := @message_in_progress .transparent LibCrypto.transparent_aeadLaws answerer answerer_sound
    [] _ firstHeader.dhPub firstKey 0 0 hheld hspares 0 first_fits blankChunk blankRoot blank_proves
    (LibCrypto.length_sha512 _ _) sampleNonce [] _ rfl
  refine ⟨frame, _, rfl, hend, ⟨candidate, congrArg (fun s : EdgeCrypto => s.pq) hrun, hepoch⟩, fun hok => ?_⟩
  obtain ⟨r, hr, hzero⟩ := hopens.mp hok
  cases (congrArg (fun s : EdgeCrypto => s.pq) hrun).symm.trans hr
  rw [hepoch] at hzero
  cases hzero

end Answering

end EdgeCrypto

end P2Party
