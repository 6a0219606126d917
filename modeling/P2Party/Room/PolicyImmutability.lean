import P2Party.Room.Slice

/-!
# The policy of a url

A room's policy is fixed when its url is created. The slice keeps that along every run in
which no `setRoom` names the id of a room with another url: then a room keeps its url
forever, urls and ids stay apart, and the policy found under a url is the one it was
created with. `setRoom` finds its room by url or id and then overwrites both, so a pair
sent by the signaling server that joins the id of one room with another url moves the room,
and its policy, to that url.

- `Ledger`, `Ledger.step`, `run`: the slice, with the policy each url was created with;
- `Apart`, `Immutable`: what is claimed of the slice;
- `KeepsUrl`, `Good`: the pairs that move no room;
- `policy_immutable`: every good run;
- `policy_detached`: a run that reaches a PIN room's url without its PIN.
-/

namespace P2Party

open Base

namespace Rooms

variable (isUUID : String → Bool)

/-! ## Runs -/

/-- The slice, and for every url the policy it was first created with. -/
structure Ledger where
  rooms : List Room
  created : String → Option RoomPolicyV1

/-- The policy an action creates a room with. -/
def Action.requested : Action → Option RoomPolicyV1
  | .setRoom args => some (args.policy.getD DEFAULT_ROOM_POLICY_V1)
  | _ => none

/-- One action: a url that the action brings into the slice is created with its policy. -/
def Ledger.step (l : Ledger) (s : Ambient × Action) : Ledger :=
  let rooms := dispatch isUUID s.1 l.rooms s.2
  { rooms
    created := fun url =>
      match l.created url with
      | some policy => some policy
      | none => if rooms.any (·.url == url) then s.2.requested else none }

/-- Before the first action. -/
def Ledger.start : Ledger := ⟨[], fun _ => none⟩

/-- A sequence of actions. -/
def run (steps : List (Ambient × Action)) : Ledger := steps.foldl (Ledger.step isUUID) Ledger.start

/-- Two rooms have different urls, and different ids unless these are blank. -/
def Apart (a b : Room) : Prop := a.url ≠ b.url ∧ (a.id = b.id → a.id = "")

/-- No two rooms share a url or an id, and the policy found under a url is the canonical
form of the one it was created with. -/
structure Immutable (l : Ledger) : Prop where
  apart : l.rooms.Pairwise Apart
  policy : ∀ url room, l.rooms.find? (fun r => r.url == url) = some room →
    ∃ policy, l.created url = some policy ∧ canonicalizeRoomPolicyV1 policy = .ok room.policy

/-- A `setRoom` that names the id of a room names its url as well. -/
def KeepsUrl (rooms : List Room) : Action → Prop
  | .setRoom args => jsLength args.url = 64 → isUUID args.id = true →
      ∀ r ∈ rooms, r.id = args.id → r.url = args.url
  | _ => True

/-- Every action keeps the urls of the rooms it finds. -/
def Good : Ledger → List (Ambient × Action) → Prop
  | _, [] => True
  | l, s :: steps => KeepsUrl isUUID l.rooms s.2 ∧ Good (l.step isUUID s) steps

/-! ## The first room found -/

variable {test : Room → Bool} {change : Room → Room} {rooms : List Room}

/-- A room after a change is a room before it, or the change of the one the test finds. -/
theorem mem_updateFirst {b : Room} (h : b ∈ updateFirst test change rooms) :
    b ∈ rooms ∨ ∃ r, rooms.find? test = some r ∧ b = change r := by
  induction rooms with
  | nil => cases h
  | cons r rooms ih =>
    rw [updateFirst] at h
    split at h
    case isTrue htest =>
      rcases List.mem_cons.mp h with rfl | hmem
      · exact .inr ⟨r, List.find?_cons_of_pos htest, rfl⟩
      · exact .inl (List.mem_cons_of_mem r hmem)
    case isFalse htest =>
      rcases List.mem_cons.mp h with rfl | hmem
      · exact .inl List.mem_cons_self
      · rcases ih hmem with hold | ⟨r', hr', rfl⟩
        · exact .inl (List.mem_cons_of_mem r hold)
        · exact .inr ⟨r', (List.find?_cons_of_neg htest).trans hr', rfl⟩

/-- A change of one room that stays apart from the others keeps all rooms apart. -/
theorem pairwise_updateFirst (hrooms : rooms.Pairwise Apart)
    (hchange : ∀ a ∈ rooms, ∀ b ∈ rooms, test a = true → Apart a b → Apart (change a) b)
    (hchange' : ∀ a ∈ rooms, ∀ b ∈ rooms, test b = true → Apart a b → Apart a (change b)) :
    (updateFirst test change rooms).Pairwise Apart := by
  induction rooms with
  | nil => exact .nil
  | cons r rooms ih =>
    obtain ⟨hr, hrest⟩ := List.pairwise_cons.mp hrooms
    rw [updateFirst]
    split
    case isTrue htest =>
      refine List.pairwise_cons.mpr ⟨fun b hb => ?_, hrest⟩
      exact hchange r List.mem_cons_self b (List.mem_cons_of_mem r hb) htest (hr b hb)
    case isFalse =>
      refine List.pairwise_cons.mpr ⟨fun b hb => ?_, ih hrest ?_ ?_⟩
      · rcases mem_updateFirst hb with hold | ⟨b', hfind, rfl⟩
        · exact hr b hold
        · have hb' := List.mem_of_find?_eq_some hfind
          exact hchange' r List.mem_cons_self b' (List.mem_cons_of_mem r hb') (List.find?_some hfind)
            (hr b' hb')
      · exact fun a ha b hb =>
          hchange a (List.mem_cons_of_mem r ha) b (List.mem_cons_of_mem r hb)
      · exact fun a ha b hb =>
          hchange' a (List.mem_cons_of_mem r ha) b (List.mem_cons_of_mem r hb)

theorem updateFirst_urls (h : ∀ r ∈ rooms, test r = true → (change r).url = r.url) :
    (updateFirst test change rooms).map Room.url = rooms.map Room.url := by
  induction rooms with
  | nil => rfl
  | cons r rooms ih =>
    rw [updateFirst]
    split
    case isTrue htest => rw [List.map_cons, List.map_cons, h r List.mem_cons_self htest]
    case isFalse =>
      rw [List.map_cons, List.map_cons, ih fun r' hr' => h r' (List.mem_cons_of_mem r hr')]

/-! ## The invariant -/

/-- What holds along a good run: rooms apart, every room's policy the one its url was created
with, and every created url still there. -/
structure Inv (l : Ledger) : Prop where
  apart : l.rooms.Pairwise Apart
  policy : ∀ r ∈ l.rooms, ∃ policy, l.created r.url = some policy ∧
    canonicalizeRoomPolicyV1 policy = .ok r.policy
  kept : ∀ url policy, l.created url = some policy → ∃ r ∈ l.rooms, r.url = url

theorem Inv.immutable {l : Ledger} (h : Inv l) : Immutable l := by
  refine ⟨h.apart, fun url room hfind => ?_⟩
  obtain ⟨policy, hcreated, hcanonical⟩ := h.policy room (List.mem_of_find?_eq_some hfind)
  have hurl : room.url = url := by simpa using List.find?_some hfind
  exact ⟨policy, hurl ▸ hcreated, hcanonical⟩

theorem inv_start : Inv Ledger.start where
  apart := .nil
  policy _ hr := absurd hr List.not_mem_nil
  kept _ _ h := absurd h (Option.some_ne_none _).symm

variable {isUUID} {l : Ledger} {ambient : Ambient} {action : Action} {rooms' : List Room}

/-- The ledger after an action that leaves a room at every url. -/
theorem Inv.of_rooms (h : Inv l) (hrooms : dispatch isUUID ambient l.rooms action = rooms')
    (hapart : rooms'.Pairwise Apart)
    (hpolicy : ∀ r ∈ rooms', ∃ policy, (l.step isUUID (ambient, action)).created r.url = some policy ∧
      canonicalizeRoomPolicyV1 policy = .ok r.policy)
    (hthere : ∀ r ∈ l.rooms, ∃ r' ∈ rooms', r'.url = r.url) : Inv (l.step isUUID (ambient, action)) := by
  subst hrooms
  refine ⟨hapart, hpolicy, fun url policy hcreated => ?_⟩
  show ∃ r ∈ dispatch isUUID ambient l.rooms action, r.url = url
  simp only [Ledger.step] at hcreated
  cases hold : l.created url with
  | some old =>
    obtain ⟨r, hr, rfl⟩ := h.kept url old hold
    exact hthere r hr
  | none =>
    rw [hold] at hcreated
    dsimp only at hcreated
    split at hcreated
    case isTrue hany =>
      obtain ⟨r, hr, hurl⟩ := List.any_eq_true.mp hany
      exact ⟨r, hr, by simpa using hurl⟩
    case isFalse => cases hcreated

/-- The ledger after an action that throws. -/
theorem Inv.step_error {e : JsError} (h : Inv l) (herror : reduce isUUID ambient l.rooms action = .error e) :
    Inv (l.step isUUID (ambient, action)) := by
  have hrooms : dispatch isUUID ambient l.rooms action = l.rooms := by
    unfold dispatch
    rw [herror]
  refine h.of_rooms hrooms h.apart (fun r hr => ?_) fun r hr => ⟨r, hr, rfl⟩
  obtain ⟨policy, hcreated, hcanonical⟩ := h.policy r hr
  exact ⟨policy, by simp only [Ledger.step, hcreated], hcanonical⟩

/-- The ledger after an action that keeps the urls of the rooms, their policies and their
distance. -/
theorem Inv.step_kept (h : Inv l) (hok : reduce isUUID ambient l.rooms action = .ok rooms')
    (hapart : rooms'.Pairwise Apart)
    (hpolicy : ∀ r' ∈ rooms', ∃ r ∈ l.rooms, r.url = r'.url ∧ r.policy = r'.policy)
    (hurls : rooms'.map Room.url = l.rooms.map Room.url) :
    Inv (l.step isUUID (ambient, action)) := by
  have hrooms : dispatch isUUID ambient l.rooms action = rooms' := by
    unfold dispatch
    rw [hok]
  refine h.of_rooms hrooms hapart (fun r' hr' => ?_) fun r hr => ?_
  · obtain ⟨r, hr, hurl, heq⟩ := hpolicy r' hr'
    obtain ⟨policy, hcreated, hcanonical⟩ := h.policy r hr
    refine ⟨policy, ?_, heq ▸ hcanonical⟩
    simp only [Ledger.step, ← hurl, hcreated]
  · exact List.mem_map.mp (hurls ▸ List.mem_map_of_mem hr)

/-- The ledger after a room with a new url. -/
theorem Inv.step_new {room : Room} {requested : RoomPolicyV1} (h : Inv l)
    (hok : reduce isUUID ambient l.rooms action = .ok (l.rooms ++ [room]))
    (hrequested : action.requested = some requested)
    (hcanonical : canonicalizeRoomPolicyV1 requested = .ok room.policy)
    (hapart : ∀ r ∈ l.rooms, Apart r room) : Inv (l.step isUUID (ambient, action)) := by
  have hrooms : dispatch isUUID ambient l.rooms action = l.rooms ++ [room] := by
    unfold dispatch
    rw [hok]
  have hfresh : l.created room.url = none := by
    cases hold : l.created room.url with
    | none => rfl
    | some policy =>
      obtain ⟨r, hr, hurl⟩ := h.kept _ _ hold
      exact absurd hurl (hapart r hr).1
  refine h.of_rooms hrooms ?_ (fun r hr => ?_) fun r hr => ⟨r, List.mem_append_left _ hr, rfl⟩
  · refine List.pairwise_append.mpr ⟨h.apart, List.pairwise_singleton _ _, fun a ha b hb => ?_⟩
    rw [List.mem_singleton.mp hb]
    exact hapart a ha
  · rcases List.mem_append.mp hr with hold | hnew
    · obtain ⟨policy, hcreated, hpolicy⟩ := h.policy r hold
      exact ⟨policy, by simp only [Ledger.step, hcreated], hpolicy⟩
    · obtain rfl := List.mem_singleton.mp hnew
      refine ⟨requested, ?_, hcanonical⟩
      have hany : (l.rooms ++ [r]).any (·.url == r.url) = true :=
        List.any_eq_true.mpr ⟨r, hr, beq_self_eq_true _⟩
      simp only [Ledger.step, hrooms, hfresh, hany, if_true, hrequested]

/-! ## One action -/

/-- A branch of `setRoom` whose test finds only rooms of the url it sets. -/
theorem Inv.step_setRoomWhere {args : SetRoomArgs} {id : String} (h : Inv l)
    (hreduce : reduce isUUID ambient l.rooms (.setRoom args) =
      setRoomWhere ambient args id test l.rooms)
    (htest : ∀ r ∈ l.rooms, test r = true → r.url = args.url)
    (hurl : ∀ r ∈ l.rooms, test r = false → r.url ≠ args.url)
    (hid : ∀ r ∈ l.rooms, id ≠ "" → r.id = id → r.url = args.url) :
    Inv (l.step isUUID (ambient, .setRoom args)) := by
  cases hresult : setRoomWhere ambient args id test l.rooms with
  | error e => exact h.step_error (hreduce.trans hresult)
  | ok rooms' =>
    have hok := hreduce.trans hresult
    unfold setRoomWhere at hresult
    cases hfind : l.rooms.find? test with
    | some room =>
      rw [hfind] at hresult
      have hsame : updateFirst test (Room.assign ambient args id) l.rooms = rooms' := by
        cases hpolicy : args.policy with
        | none =>
          rw [hpolicy] at hresult
          exact Except.ok.inj hresult
        | some policy =>
          rw [hpolicy] at hresult
          obtain ⟨_, -, hresult⟩ := except_bind_eq_ok.mp hresult
          exact Except.ok.inj hresult
      subst hsame
      -- the room found keeps its url and its policy; its new id is no other room's
      refine h.step_kept hok (pairwise_updateFirst h.apart ?_ ?_) ?_
        (updateFirst_urls fun r hr ht => (htest r hr ht).symm)
      · intro a ha b hb ht hab
        have hb' : args.url ≠ b.url := htest a ha ht ▸ hab.1
        refine ⟨hb', fun hsame => ?_⟩
        by_contra hne
        exact hb' (hid b hb hne hsame.symm).symm
      · intro a ha b hb ht hab
        have ha' : a.url ≠ args.url := htest b hb ht ▸ hab.1
        refine ⟨ha', fun hsame => ?_⟩
        by_contra hne
        have hsame' : a.id = id := hsame
        exact ha' (hid a ha (hsame' ▸ hne) hsame')
      · intro r' hr'
        rcases mem_updateFirst hr' with hold | ⟨r, hfound, rfl⟩
        · exact ⟨r', hold, rfl, rfl⟩
        · have hr := List.mem_of_find?_eq_some hfound
          exact ⟨r, hr, htest r hr (List.find?_some hfound), rfl⟩
    | none =>
      rw [hfind] at hresult
      obtain ⟨policy, hcanonical, hresult⟩ := except_bind_eq_ok.mp hresult
      obtain rfl := Except.ok.inj hresult
      refine h.step_new hok rfl hcanonical fun r hr => ?_
      have hmiss : test r = false := by simpa using List.find?_eq_none.mp hfind r hr
      refine ⟨hurl r hr hmiss, fun hsame => ?_⟩
      by_contra hne
      have hsame' : r.id = id := hsame
      exact hurl r hr hmiss (hid r hr (hsame' ▸ hne) hsame')

/-- One action that keeps the urls. -/
theorem Inv.step (h : Inv l) (hkeeps : KeepsUrl isUUID l.rooms action) :
    Inv (l.step isUUID (ambient, action)) := by
  by_cases htouches : action.touchesKey = true
  case neg =>
    obtain ⟨rooms', hok, hkey⟩ := @reduce_key isUUID ambient l.rooms action (by simpa using htouches)
    have hmem : ∀ r' ∈ rooms', ∃ r ∈ l.rooms, r.key = r'.key := fun r' hr' => by
      have hin : r'.key ∈ l.rooms.map Room.key := hkey ▸ List.mem_map_of_mem hr'
      exact List.mem_map.mp hin
    have hurls : rooms'.map Room.url = l.rooms.map Room.url := by
      have hfst := congrArg (List.map Prod.fst) hkey
      rw [List.map_map, List.map_map] at hfst
      exact hfst
    have hapart : rooms'.Pairwise Apart := by
      have hkeys : (l.rooms.map Room.key).Pairwise fun a b => a.1 ≠ b.1 ∧ (a.2.1 = b.2.1 → a.2.1 = "") :=
        List.pairwise_map.mpr h.apart
      rw [← hkey, List.pairwise_map] at hkeys
      exact hkeys
    refine h.step_kept hok hapart (fun r' hr' => ?_) hurls
    obtain ⟨r, hr, hsame⟩ := hmem r' hr'
    exact ⟨r, hr, congrArg (·.1) hsame, congrArg (·.2.2) hsame⟩
  case pos =>
    cases action with
    | setRoom args =>
      by_cases hurl : jsLength args.url = 64
      case neg =>
        have hok : reduce isUUID ambient l.rooms (.setRoom args) = .ok l.rooms := by
          show setRoom isUUID ambient args l.rooms = _
          unfold setRoom
          rw [if_neg fun hboth => hurl hboth.1, if_neg hurl]
        exact h.step_kept hok h.apart (fun r hr => ⟨r, hr, rfl, rfl⟩) rfl
      case pos =>
        by_cases hid : isUUID args.id = true
        · have hkeeps' := hkeeps hurl hid
          refine h.step_setRoomWhere (if_pos ⟨hurl, hid⟩) ?_ ?_ fun r hr _ => hkeeps' r hr
          · intro r hr ht
            rcases Bool.or_eq_true_iff.mp ht with hsame | hsame
            · exact beq_iff_eq.mp hsame
            · exact hkeeps' r hr (beq_iff_eq.mp hsame)
          · intro r hr ht
            exact beq_eq_false_iff_ne.mp (Bool.or_eq_false_iff.mp ht).1
        · refine h.step_setRoomWhere ((if_neg fun hboth => hid hboth.2).trans (if_pos hurl)) ?_ ?_ ?_
          · exact fun r hr ht => beq_iff_eq.mp ht
          · exact fun r hr ht => beq_eq_false_iff_ne.mp ht
          · exact fun r hr hne => absurd rfl hne
    | setRoomPolicy roomContext policy =>
      cases hresult : setRoomPolicy roomContext policy l.rooms with
      | error e => exact h.step_error hresult
      | ok rooms' =>
        have hsame : rooms' = l.rooms := by
          unfold setRoomPolicy at hresult
          split at hresult
          · obtain ⟨_, -, hresult⟩ := except_bind_eq_ok.mp hresult
            exact (Except.ok.inj hresult).symm
          · exact (Except.ok.inj hresult).symm
        subst hsame
        exact h.step_kept hresult h.apart (fun r hr => ⟨r, hr, rfl, rfl⟩) rfl
    | deleteRoom context =>
      cases hresult : deleteRoom context l.rooms with
      | error e => exact h.step_error hresult
      | ok rooms' =>
        have hok : reduce isUUID ambient l.rooms (.deleteRoom context) = .ok rooms' := hresult
        unfold deleteRoom at hresult
        dsimp only at hresult
        split at hresult
        case h_1 room hfind =>
          obtain ⟨policy, hcanonical, hresult⟩ := except_bind_eq_ok.mp hresult
          obtain rfl := Except.ok.inj hresult
          have hsame : policy = room.policy := (canonicalizeRoomPolicyV1_ok hcanonical).1
          refine h.step_kept hok (pairwise_updateFirst h.apart ?_ ?_) ?_
            (updateFirst_urls fun _ _ _ => rfl)
          · exact fun a _ b _ _ hab => ⟨hab.1, fun _ => rfl⟩
          · exact fun a _ b _ _ hab => ⟨hab.1, fun hblank => hblank⟩
          · intro r' hr'
            rcases mem_updateFirst hr' with hold | ⟨r, hfound, rfl⟩
            · exact ⟨r', hold, rfl, rfl⟩
            · rw [hfind] at hfound
              obtain rfl := Option.some.inj hfound
              exact ⟨room, List.mem_of_find?_eq_some hfind, rfl, hsame.symm⟩
        case h_2 =>
          obtain rfl := Except.ok.inj hresult
          exact h.step_kept hok h.apart (fun r hr => ⟨r, hr, rfl, rfl⟩) rfl
    | _ => cases htouches

/-! ## Runs -/

theorem Inv.run (steps : List (Ambient × Action)) {l : Ledger} (h : Inv l) (hgood : Good isUUID l steps) :
    Inv (steps.foldl (Ledger.step isUUID) l) := by
  induction steps generalizing l with
  | nil => exact h
  | cons s steps ih => exact ih (h.step hgood.1) hgood.2

/-- Along every run in which no `setRoom` names the id of a room with another url, no two
rooms share a url or an id, and the policy of a url is the one it was created with. -/
theorem policy_immutable (steps : List (Ambient × Action)) (hgood : Good isUUID Ledger.start steps) :
    Immutable (run isUUID steps) :=
  (inv_start.run steps hgood).immutable

/-! ## A room that loses its url -/

/-- The shape of a UUID: five groups of hex digits, with a version and a variant. -/
def uuidShape (s : String) : Bool :=
  let chars := s.toList
  let hex := fun c : Char => isHexDigit c.toLower
  chars.length == 36 &&
    (chars.zipIdx.all fun (c, i) => if i ∈ [8, 13, 18, 23] then c == '-' else hex c) &&
    "12345678".toList.contains (chars.getD 14 ' ') && "89abAB".toList.contains (chars.getD 19 ' ')

/-- A room url of one repeated digit. -/
def sampleUrl (c : Char) : String := String.ofList (List.replicate 64 c)

/-- The id the server gives a room. -/
def sampleId : String := "7c9e6679-7425-40de-944b-e07fc1f90ae7"

/-- The policy of a PIN room. -/
def pinPolicy : RoomPolicyV1 := { DEFAULT_ROOM_POLICY_V1 with authMode := .pin }

/-- No flag in local storage. -/
def sampleAmbient : Ambient := ⟨fun _ => false, 0⟩

/-- A PIN room is created and gets its id. -/
def pinRoom : List (Ambient × Action) :=
  [(sampleAmbient, .setRoom { url := sampleUrl 'a', id := "", policy := some pinPolicy }),
    (sampleAmbient, .setRoom { url := sampleUrl 'a', id := sampleId })]

/-- The server then sends its id with another url, and the client connects to the url of the
room again. -/
def detached : List (Ambient × Action) :=
  pinRoom ++ [(sampleAmbient, .setRoom { url := sampleUrl 'b', id := sampleId }),
    (sampleAmbient, .setRoom { url := sampleUrl 'a', id := "" })]

theorem detached_found : ((run uuidShape detached).rooms.find? fun r => r.url == sampleUrl 'a').map
    Room.policy = some DEFAULT_ROOM_POLICY_V1 := by decide +kernel

theorem detached_created : (run uuidShape detached).created (sampleUrl 'a') = some pinPolicy := by
  decide +kernel

/-- The url of the PIN room is found without a PIN. -/
theorem policy_detached : ¬ Immutable (run uuidShape detached) := by
  intro h
  obtain ⟨room, hfind, hpolicy⟩ := Option.map_eq_some_iff.mp detached_found
  obtain ⟨policy, hcreated, hcanonical⟩ := h.policy _ room hfind
  rw [detached_created] at hcreated
  obtain rfl := Option.some.inj hcreated
  have hsame := (canonicalizeRoomPolicyV1_ok hcanonical).1
  rw [hpolicy] at hsame
  exact absurd hsame (by decide)

theorem pinRoom_good : Good uuidShape Ledger.start pinRoom := by
  refine ⟨fun _ _ r hr => absurd hr List.not_mem_nil, fun _ _ r hr _ => ?_, trivial⟩
  have hall : ∀ r ∈ (Ledger.start.step uuidShape
      (sampleAmbient, .setRoom { url := sampleUrl 'a', id := "", policy := some pinPolicy })).rooms,
      r.url = sampleUrl 'a' := by decide +kernel
  exact hall r hr

theorem policy_immutable_pinRoom : Good uuidShape Ledger.start pinRoom ∧
    Immutable (run uuidShape pinRoom) :=
  ⟨pinRoom_good, policy_immutable pinRoom pinRoom_good⟩

end Rooms

end P2Party
