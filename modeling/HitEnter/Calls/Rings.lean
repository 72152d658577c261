import HitEnter.Calls.VoiceSpec

/-! Who has hold of a ring. Every ring has an id of its own, and while it is here for someone
to answer nobody has answered it. -/

namespace HitEnter.Calls

open Wire

/-- May `person` come into this call? Into a 1:1 call, the other side only. -/
def Call.takes (call : Call) (person : PublicKey) : Bool :=
  match call.room with
  | .channel _ _ => true
  | .dm peer => peer == person

/-- An incoming connection that is there after step `act` and was not before it, as it is
then. -/
inductive Came (v : Voice) (act : Act) : Knock → Prop
  | ended : Came v act .ended
  | new (knock : Knock) (new : knock.isNew = true) : Came v act knock
  | gated (c : ℕ) (person : PublicKey) (call : Call) (found : v.calls[c]? = some call)
      (takes : call.takes person = true) : Came v act (.admitted c person)
  | ringing (caller : PublicKey) (rings : (v.step act).rings = v.rings + 1)
      (rung : (v.step act).ringing = some ⟨v.rings, caller⟩) : Came v act (.ringing ⟨v.rings, caller⟩ none)
  | sent (ring : Ringing) (decision : Option Bool) (yes : Bool) (was : .ringing ring decision ∈ v.knocks) :
      Came v act (.ringing ring (some yes))
  | decided (ring : Ringing) (decision answer : Option Bool) (was : .ringing ring decision ∈ v.knocks) :
      Came v act (.decided ring answer)
  | confirming (ring : Ringing) (answer : Option Bool) (was : .decided ring answer ∈ v.knocks) :
      Came v act (.confirming ring answer)
  | adding (c : ℕ) (person : PublicKey) (was : .admitted c person ∈ v.knocks) : Came v act (.adding c person)
  | marking (c : ℕ) : Came v act (.marking c)

section Knocks
variable {v : Voice} {act : Act} {i : ℕ} {ok : Bool} {knock later : Knock}

theorem mem_sent {id : ℕ} {yes : Bool} (member : later ∈ v.knocks.map (.sent id yes)) :
    later ∈ v.knocks ∨ Came v act later := by
  obtain ⟨old, held, same⟩ := List.mem_map.mp member
  unfold Knock.sent at same
  split at same
  · rename_i own decision
    split at same
    · exact .inr (same ▸ .sent own decision yes held)
    · exact .inl (same ▸ held)
  · exact .inl (same ▸ held)

theorem finish_knocks {c : ℕ} : (v.finish c).knocks = v.knocks := by
  unfold Voice.finish
  split <;> rfl

theorem mem_entryStep_knocks {entry : Entry} (member : later ∈ (v.entryStep i ok entry).knocks) :
    later ∈ v.knocks ∨ Came v act later := by
  cases entry with
  | answering =>
    simp only [Voice.entryStep] at member
    split at member <;> exact .inl member
  | ringingOut c person =>
    cases ok with
    | false => exact .inl (finish_knocks (v := v) (c := c) ▸ member)
    | true => exact .inl member
  | deciding ring c =>
    simp only [Voice.entryStep] at member
    split at member
    · exact mem_sent member
    · exact .inl (finish_knocks (v := v) (c := c) ▸ member)
  | ended => exact .inl member
  | marking c => exact .inl member
  | _ => cases ok <;> exact .inl member

/-- The gate for a voice channel lets people into its call only. -/
theorem admits_room {group : PublicKey} {channel : String} {known : Option PublicKey} {c : ℕ} {person : PublicKey}
    (found : v.admits group channel known = some (c, person)) :
    ∃ call, v.calls[c]? = some call ∧ call.room = .channel group channel := by
  unfold Voice.admits at found
  simp only [Option.bind_eq_bind, Option.bind_eq_some_iff] at found
  obtain ⟨d, _, call, held, found⟩ := found
  split at found
  · cases found
  · rename_i same
    obtain ⟨someone, _, found⟩ := Option.bind_eq_some_iff.mp found
    split at found
    · cases found
    · cases found
      exact ⟨call, held, not_not.mp same⟩

theorem mem_knockStep (at_ : v.knocks[i]? = some knock) (member : later ∈ (v.knockStep i ok knock).knocks) :
    later ∈ v.knocks ∨ Came v (.knock i ok) later := by
  have held : knock ∈ v.knocks := List.mem_of_getElem? at_
  have own : ∀ {next : Knock}, later ∈ v.knocks.set i next → Came v (.knock i ok) next →
      later ∈ v.knocks ∨ Came v (.knock i ok) later := by
    intro next member came
    rcases List.mem_or_eq_of_mem_set member with old | rfl
    · exact .inl old
    · exact .inr came
  cases knock with
  | channel group channel person =>
    simp only [Voice.knockStep] at member
    split at member
    · exact own member .ended
    · rename_i c person admits
      obtain ⟨call, found, room⟩ := admits_room admits
      exact own member (.gated c person call found (by simp [Call.takes, room]))
  | dm caller =>
    simp only [Voice.knockStep] at member
    split at member
    · exact own member .ended
    · rename_i free
      refine own member (.ringing caller ?_ ?_)
      all_goals
        simp only [Voice.step, at_, Voice.knockStep, free]
        rfl
  | ringing ring decision => exact own member (.decided ring decision _ held)
  | decided ring answer => exact own member (.confirming ring answer held)
  | confirming ring answer =>
    simp only [Voice.knockStep] at member
    split at member
    · split at member
      · rename_i _ c _ room
        obtain ⟨call, found, room⟩ := (Option.any_eq_true ..).mp room
        exact own member (.gated c ring.caller call found (by simp [Call.takes, of_decide_eq_true room]))
      · exact own member .ended
    · exact own member .ended
  | admitted c person =>
    simp only [Voice.knockStep] at member
    split at member
    · exact own member (.adding c person held)
    · split at member
      · rw [Voice.setKnock, finish_knocks] at member
        exact own member .ended
      · exact own member .ended
  | adding c person => cases ok <;> exact own member (.marking c)
  | marking c => exact own member .ended
  | ended => exact .inl member

/-- The connections there after a step were there before it, or are those that came. -/
theorem mem_step_knocks (member : later ∈ (v.step act).knocks) : later ∈ v.knocks ∨ Came v act later := by
  cases act with
  | decline =>
    simp only [Voice.step] at member
    split at member
    · exact .inl member
    · exact mem_sent member
  | arrive knock =>
    simp only [Voice.step] at member
    split at member
    · rename_i new
      rcases List.mem_append.mp member with old | came
      · exact .inl old
      · cases List.mem_singleton.mp came
        exact .inr (.new _ new)
    · exact .inl member
  | entry i ok =>
    simp only [Voice.step] at member
    split at member
    · exact .inl member
    · exact mem_entryStep_knocks member
  | knock i ok =>
    simp only [Voice.step] at member
    split at member
    · exact .inl member
    · exact mem_knockStep ‹_› member
  | upkeep c room dials =>
    simp only [Voice.step, Voice.upkeep] at member
    repeat' split at member
    all_goals first | exact .inl member | exact .inl (finish_knocks (v := v) (c := c) ▸ member)
  | _ =>
    simp only [Voice.step] at member
    repeat' split at member
    all_goals exact .inl member

end Knocks

/-- The ring a task has hold of. -/
def Entry.ring? : Entry → Option Ringing
  | .picking ring | .deciding ring _ => some ring
  | _ => none

/-- The ring a connection rings, or rang, with. -/
def Knock.ring? : Knock → Option Ringing
  | .ringing ring _ | .decided ring _ | .confirming ring _ => some ring
  | _ => none

/-- Someone here has taken `ring`, or a call was answered with it. -/
def Voice.Taken (v : Voice) (ring : Ringing) : Prop :=
  (∃ entry ∈ v.entries, entry.ring? = some ring) ∨ ∃ (c : ℕ) (call : Call), v.calls[c]? = some call ∧ call.ring = some ring

/-- `ring` is one that is there, or was. -/
def Voice.Rung (v : Voice) (ring : Ringing) : Prop :=
  v.ringing = some ring ∨ v.Taken ring ∨ ∃ knock ∈ v.knocks, knock.ring? = some ring

/-- Each ring has an id of its own, and nobody has taken the one that waits to be answered. -/
structure RingsApart (v : Voice) : Prop where
  below : ∀ ring, v.Rung ring → ring.id < v.rings
  apart : ∀ a b, v.Rung a → v.Rung b → a.id = b.id → a = b
  spare : ∀ ring, v.ringing = some ring → ¬ v.Taken ring

/-- A call answered with a ring is with its caller, and one whose ring is being decided was
answered with it. -/
structure RingsTold (v : Voice) : Prop where
  caller : ∀ (c : ℕ) (call : Call) (ring : Ringing), v.calls[c]? = some call → call.ring = some ring → call.room = .dm ring.caller
  deciding : ∀ ring c, .deciding ring c ∈ v.entries → ∃ call, v.calls[c]? = some call ∧ call.ring = some ring

section Steps
variable {v : Voice} {act : Act} {ring : Ringing}

/-- The ring that waits is as it was, gone, or a new one. -/
inductive Waits (v after : Voice) : Prop
  | same (ringing : after.ringing = v.ringing) (rings : after.rings = v.rings)
  | gone (ringing : after.ringing = none) (rings : v.rings ≤ after.rings)
  | busy (ringing : after.ringing = v.ringing) (rings : after.rings = v.rings + 1)
  | new (caller : PublicKey) (ringing : after.ringing = some ⟨v.rings, caller⟩) (rings : after.rings = v.rings + 1)

theorem finish_ringing {c : ℕ} : (v.finish c).ringing = v.ringing := by
  unfold Voice.finish
  split <;> rfl

theorem finish_rings {c : ℕ} : (v.finish c).rings = v.rings := by
  unfold Voice.finish
  split <;> rfl

theorem waits_entryStep {i : ℕ} {ok : Bool} {entry : Entry} : Waits v (v.entryStep i ok entry) := by
  cases entry with
  | ringingOut c person =>
    cases ok with
    | false => exact .same (finish_ringing (c := c)) (finish_rings (c := c))
    | true => exact .same rfl rfl
  | answering =>
    simp only [Voice.entryStep]
    split
    · exact .same rfl rfl
    · exact .gone rfl le_rfl
  | deciding ring c =>
    simp only [Voice.entryStep]
    split
    · exact .same rfl rfl
    · exact .same (finish_ringing (c := c)) (finish_rings (c := c))
  | marking c => exact .same rfl rfl
  | ended => exact .same rfl rfl
  | _ => cases ok <;> exact .same rfl rfl

theorem waits_knockStep {i : ℕ} {ok : Bool} {knock : Knock} : Waits v (v.knockStep i ok knock) := by
  cases knock with
  | channel group channel person =>
    simp only [Voice.knockStep]
    split <;> exact .same rfl rfl
  | dm caller =>
    simp only [Voice.knockStep]
    split
    · exact .busy rfl rfl
    · exact .new caller rfl rfl
  | decided ring answer =>
    simp only [Voice.knockStep]
    cases waits : v.ringing with
    | none => exact .same waits.symm rfl
    | some waiting =>
      by_cases same : waiting.id = ring.id
      · exact .gone (by simp [Voice.setKnock, same]) le_rfl
      · exact .same (by simp [Voice.setKnock, same, waits]) rfl
  | confirming ring answer =>
    simp only [Voice.knockStep]
    split
    · split <;> exact .same rfl rfl
    · exact .same rfl rfl
  | admitted c person =>
    simp only [Voice.knockStep]
    split
    · exact .same rfl rfl
    · split
      · exact .same (finish_ringing (c := c)) (finish_rings (c := c))
      · exact .same rfl rfl
  | adding c person => cases ok <;> exact .same rfl rfl
  | _ => exact .same rfl rfl

theorem step_waits : Waits v (v.step act) := by
  cases act with
  | decline =>
    simp only [Voice.step]
    split
    · exact .same rfl rfl
    · exact .gone rfl le_rfl
  | entry i ok =>
    simp only [Voice.step]
    split
    · exact .same rfl rfl
    · exact waits_entryStep
  | knock i ok =>
    simp only [Voice.step]
    split
    · exact .same rfl rfl
    · exact waits_knockStep
  | upkeep c room dials =>
    simp only [Voice.step, Voice.upkeep]
    repeat' split
    all_goals first | exact .same rfl rfl | exact .same (finish_ringing (c := c)) (finish_rings (c := c))
  | _ =>
    simp only [Voice.step]
    repeat' split
    all_goals exact .same rfl rfl

theorem step_rings : v.rings ≤ (v.step act).rings := by
  cases @step_waits v act with
  | same _ rings => exact rings.ge
  | gone _ rings => exact rings
  | busy _ rings => exact rings ▸ Nat.le_succ _
  | new _ _ rings => exact rings ▸ Nat.le_succ _

/-- What someone has taken after a step they had taken before it, or it waited. -/
theorem step_taken (taken : (v.step act).Taken ring) : v.Taken ring ∨ v.ringing = some ring ∧ (v.step act).ringing = none := by
  rcases taken with ⟨entry, member, own⟩ | ⟨c, call, found, own⟩
  · rcases mem_step_entries member with old | brought
    · exact .inl (.inl ⟨entry, old, own⟩)
    · cases brought with
      | picking ring was after =>
        cases own
        exact .inr ⟨was, after⟩
      | deciding ring was _ =>
        cases own
        exact .inl (.inl ⟨_, was, rfl⟩)
      | _ => cases own
  · rcases step_call found with ⟨before, held, becomes⟩ | begins
    · exact .inl (.inr ⟨c, before, held, becomes.kept.2 ▸ own⟩)
    · exact .inl (.inl ⟨_, (begins.answered ring own).2, rfl⟩)

/-- A ring that is there after a step, or was, was so before it, or is a new one. -/
theorem step_rung (rung : (v.step act).Rung ring) :
    v.Rung ring ∨ ring.id = v.rings ∧ (v.step act).rings = v.rings + 1 ∧ (v.step act).ringing = some ring := by
  have waits : ∀ ring, (v.step act).ringing = some ring → v.Rung ring ∨
      ring.id = v.rings ∧ (v.step act).rings = v.rings + 1 ∧ (v.step act).ringing = some ring := by
    intro ring waits
    cases @step_waits v act with
    | same ringing _ => exact .inl (.inl (ringing ▸ waits))
    | gone ringing _ =>
      rw [ringing] at waits
      cases waits
    | busy ringing _ => exact .inl (.inl (ringing ▸ waits))
    | new caller ringing rings =>
      refine .inr ⟨?_, rings, waits⟩
      rw [ringing] at waits
      cases waits
      rfl
  rcases rung with own | taken | ⟨knock, member, own⟩
  · exact waits ring own
  · rcases step_taken taken with old | ⟨was, _⟩
    · exact .inl (.inr (.inl old))
    · exact .inl (.inl was)
  · rcases mem_step_knocks member with old | came
    · exact .inl (.inr (.inr ⟨knock, old, own⟩))
    · cases came with
      | ringing caller _ rung =>
        cases own
        exact waits _ rung
      | new knock new =>
        have none : knock.ring? = none := by cases knock <;> first | rfl | cases new
        rw [none] at own
        cases own
      | sent ring decision yes was | decided ring decision answer was | confirming ring answer was =>
        cases own
        exact .inl (.inr (.inr ⟨_, was, rfl⟩))
      | _ => cases own

theorem ringsApart_step (rings : RingsApart v) : RingsApart (v.step act) := by
  constructor
  · intro ring rung
    rcases step_rung rung with old | ⟨id, more, _⟩
    · exact (rings.below ring old).trans_le step_rings
    · rw [id, more]
      exact Nat.lt_succ_self _
  · intro a b one two same
    rcases step_rung one with old | ⟨id, _, own⟩ <;> rcases step_rung two with older | ⟨later, _, latest⟩
    · exact rings.apart a b old older same
    · have before := rings.below a old
      omega
    · have before := rings.below b older
      omega
    · rw [own] at latest
      exact Option.some.inj latest
  · intro ring waits taken
    rcases step_taken taken with old | ⟨_, gone⟩
    · have before := rings.below ring (.inr (.inl old))
      cases @step_waits v act with
      | same ringing _ => exact rings.spare ring (ringing ▸ waits) old
      | gone ringing _ =>
        rw [ringing] at waits
        cases waits
      | busy ringing _ => exact rings.spare ring (ringing ▸ waits) old
      | new caller ringing _ =>
        rw [ringing] at waits
        cases waits
        exact absurd before (lt_irrefl _)
    · rw [gone] at waits
      cases waits

theorem ringsTold_step (told : RingsTold v) : RingsTold (v.step act) := by
  constructor
  · intro c call ring found own
    rcases step_call found with ⟨before, held, becomes⟩ | begins
    · obtain ⟨room, same⟩ := becomes.kept
      rw [room]
      exact told.caller c before ring held (same ▸ own)
    · exact (begins.answered ring own).1
  · intro ring c member
    rcases mem_step_entries member with old | brought
    · obtain ⟨call, held, own⟩ := told.deciding ring c old
      obtain ⟨after, found, becomes⟩ := @step_kept v act c call held
      exact ⟨after, found, becomes.kept.2.trans own⟩
    · cases brought with
      | deciding ring was calls => exact ⟨_, by rw [calls]; exact List.getElem?_concat_length, rfl⟩

end Steps

end HitEnter.Calls
