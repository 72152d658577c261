import HitEnter.Calls.VoiceSpec

/-! Whether a voice channel's call stays within its size, over any run of the tasks under way. -/

namespace HitEnter.Calls

open Wire Lib.Runs

/-- The people in each voice channel's call, this one included, are at most the most there
may be. -/
def WithinMax (v : Voice) : Prop :=
  ∀ (c : ℕ) (call : Call), v.calls[c]? = some call → call.isChannel = true → call.peers.size + 1 ≤ v.max

namespace Voice

/-- Is there room for `person` in call `c`, where it is a voice channel's? -/
def roomFor (v : Voice) (c : ℕ) (person : PublicKey) : Bool :=
  (v.calls[c]?).all fun call => !call.isChannel || call.peers.contains person || call.peers.size + 1 < v.max

/-- Whoever is added finds room. -/
def hasRoom (v : Voice) (act : Act) : Bool := (v.adds act).all fun (c, person) => v.roomFor c person

/-- The gate for a voice channel lets in whom there is room for then. -/
theorem admits_roomFor {v : Voice} {group : PublicKey} {channel : String} {known : Option PublicKey} {c : ℕ}
    {person : PublicKey} (found : v.admits group channel known = some (c, person)) : v.roomFor c person = true := by
  unfold admits at found
  simp only [Option.bind_eq_bind, Option.bind_eq_some_iff] at found
  obtain ⟨d, _, call, held, found⟩ := found
  split at found
  · cases found
  · obtain ⟨someone, _, found⟩ := Option.bind_eq_some_iff.mp found
    split at found
    · cases found
    · rename_i full
      cases found
      unfold roomFor
      rw [held, Option.all_some]
      simp only [Bool.and_eq_true, Bool.not_eq_true', decide_eq_true_eq, not_and, Nat.not_le] at full
      cases inside : call.peers.contains person with
      | true => simp
      | false => simp [full inside]

variable {v : Voice} {act : Act} {c i : ℕ} {person : PublicKey}

theorem finish_max : (v.finish c).max = v.max := by
  unfold finish
  split <;> rfl

theorem entryStep_max {ok : Bool} {entry : Entry} : (v.entryStep i ok entry).max = v.max := by
  cases entry <;> simp only [entryStep] <;> (repeat' split) <;> first | rfl | exact finish_max

theorem knockStep_max {ok : Bool} {knock : Knock} : (v.knockStep i ok knock).max = v.max := by
  cases knock <;> simp only [knockStep] <;> (repeat' split) <;> first | rfl | exact finish_max

theorem step_max : (v.step act).max = v.max := by
  cases act with
  | entry i ok =>
    simp only [step]
    split
    · rfl
    · exact entryStep_max
  | knock i ok =>
    simp only [step]
    split
    · rfl
    · exact knockStep_max
  | upkeep c room dials =>
    simp only [step, upkeep]
    repeat' split
    all_goals first | rfl | exact finish_max
  | _ =>
    simp only [step]
    repeat' split
    all_goals rfl

/-- Whoever is added is put among the peers, whatever else the step does. -/
theorem adds_calls (adds : v.adds act = some (c, person)) :
    (v.step act).calls = v.calls.modify c (.addPeer person v.conns) := by
  unfold Voice.adds at adds
  split at adds
  · split at adds
    · rename_i found
      cases adds
      simp only [step, found]
      rfl
    · cases adds
  · split at adds
    · rename_i found
      cases adds
      simp only [step, found]
      rfl
    · cases adds
  · cases adds

end Voice

/-- Someone more fits who is there already, or finds room. -/
theorem Call.addPeer_fits {call : Call} {person : PublicKey} {conn max : ℕ} (within : call.peers.size + 1 ≤ max) :
    (call.addPeer person conn).peers.size + 1 ≤ max ↔ call.peers.contains person = true ∨ call.peers.size + 1 < max := by
  rw [Call.addPeer, Std.ExtTreeMap.size_insert]
  cases inside : call.peers.contains person with
  | true => simpa [Std.ExtTreeMap.contains_iff_mem.mp inside] using within
  | false =>
    simp only [Bool.false_eq_true, if_false, false_or]
    omega

/-- A voice channel's call is on the way, or there, only if there may be someone in it. -/
structure Opened (v : Voice) : Prop where
  joining : ∀ group channel, .joining group channel ∈ v.entries → 1 ≤ v.max
  calls : ∀ (c : ℕ) (call : Call), v.calls[c]? = some call → call.isChannel = true → 1 ≤ v.max

section Steps
variable {v : Voice} {act : Act} {c : ℕ} {call after : Call}

/-- Unless a step adds someone, no call grows. -/
theorem Becomes.size_le (becomes : Becomes v act c call after) (adds : v.adds act = none) :
    after.peers.size ≤ call.peers.size := by
  cases becomes with
  | same => exact le_rfl
  | stopped _ _ => simp [Call.stop]
  | added person added _ =>
    rw [adds] at added
    cases added
  | marked => exact le_rfl
  | retained room _ => exact Std.ExtTreeMap.size_filter_le_size
  | readerEnded i _ =>
    rcases @readerEnds_eq call i with same | ⟨reader, _, _, same⟩
    · rw [same]
    · rw [same]
      exact Std.ExtTreeMap.size_erase_le

theorem opened_step (opened : Opened v) : Opened (v.step act) := by
  constructor
  · intro group channel member
    rw [Voice.step_max]
    rcases mem_step_entries member with old | brought
    · exact opened.joining group channel old
    · cases brought
      assumption
  · intro c call found channel
    rw [Voice.step_max]
    rcases step_call found with ⟨before, held, becomes⟩ | begins
    · exact opened.calls c before held (becomes.isChannel ▸ channel)
    · unfold Call.isChannel at channel
      split at channel
      · exact opened.joining _ _ (begins.joined _ _ ‹_›)
      · cases channel

/-- One step keeps each voice channel's call within its size just where whoever it adds finds
room. -/
theorem withinMax_step (opened : Opened v) (within : WithinMax v) : WithinMax (v.step act) ↔ v.hasRoom act = true := by
  unfold Voice.hasRoom
  cases adds : v.adds act with
  | none =>
    refine iff_of_true (fun c call found channel => ?_) rfl
    rw [Voice.step_max]
    have least := (opened_step opened).calls c call found channel
    rw [Voice.step_max] at least
    rcases step_call found with ⟨before, held, becomes⟩ | begins
    · have fits := within c before held (becomes.isChannel ▸ channel)
      have bound := becomes.size_le adds
      omega
    · obtain ⟨room, ring, rfl⟩ := begins.fresh
      simpa using least
  | some whom =>
    obtain ⟨d, person⟩ := whom
    have calls := Voice.adds_calls adds
    rw [Option.all_some]
    show _ ↔ v.roomFor d person = true
    unfold Voice.roomFor
    constructor
    · intro after
      cases held : v.calls[d]? with
      | none => rfl
      | some call =>
        cases channel : call.isChannel with
        | false => simp [channel]
        | true =>
          have fits := after d (call.addPeer person v.conns) (by simp [calls, held]) channel
          rw [Voice.step_max, Call.addPeer_fits (within d call held channel)] at fits
          simpa [channel] using fits
    · intro room c call found channel
      rw [Voice.step_max]
      rw [calls] at found
      rcases at_modify found with ⟨rfl, old, held, rfl⟩ | ⟨_, held⟩
      · have same : old.isChannel = true := channel
        rw [held, Option.all_some, same, Bool.not_true, Bool.false_or, Bool.or_eq_true, decide_eq_true_eq] at room
        exact (Call.addPeer_fits (within c old held same)).mpr room
      · exact within c call held channel

end Steps

/-- Over a run from the start, each voice channel's call stays within its size, just where
whoever is added finds room. -/
theorem withinMax_run_iff (max : ℕ) (acts : List Act) :
    Always WithinMax Voice.step { max := max } acts ↔ Met Voice.hasRoom Voice.step { max := max } acts :=
  always_iff_met (fun _ _ => opened_step) (fun _ _ => withinMax_step) ⟨nofun, nofun⟩ nofun

/-- Two people come to a channel for two, where one is. The gate lets in both, and then both
are added. -/
def twoAtTheGate : List Act :=
  [.join ⟨0⟩ "lobby" true 0, .entry 0 true] ++
    ([⟨1⟩, ⟨2⟩].map fun person => .arrive (.channel ⟨0⟩ "lobby" (some person))) ++
    [.knock 0 true, .knock 1 true, .knock 0 true, .knock 1 true, .knock 0 true, .knock 1 true]

theorem twoAtTheGate_pass : ¬ Always WithinMax Voice.step { max := 2 } twoAtTheGate := by
  intro always
  have within := always.last 0 _ rfl rfl
  revert within
  decide +kernel

end HitEnter.Calls
