import HitEnter.Calls.Voice

/-! What a step does to the calls: it starts one, ends the current one, or changes one in
place. -/

namespace HitEnter.Calls

open Wire

namespace Voice

/-- Does `act` start a call? -/
def starts (v : Voice) : Act → Bool
  | .entry i true =>
    match v.entries[i]? with
    | some (.joining _ _) | some (.calling _) | some (.picking _) => true
    | _ => false
  | _ => false

/-- The call to which `act` adds someone, and whom. -/
def adds (v : Voice) : Act → Option (ℕ × PublicKey)
  | .entry i true =>
    match v.entries[i]? with
    | some (.adding c person _) => some (c, person)
    | _ => none
  | .knock i true =>
    match v.knocks[i]? with
    | some (.adding c person) => some (c, person)
    | _ => none
  | _ => none

section Views
variable {v : Voice} {c i : ℕ} {f : Call → Call} {entry : Entry} {knock : Knock} {room : Room} {ring : Option Ringing}

@[simp] theorem setEntry_calls : (v.setEntry i entry).calls = v.calls := rfl
@[simp] theorem setEntry_current : (v.setEntry i entry).current = v.current := rfl
@[simp] theorem setEntry_conns : (v.setEntry i entry).conns = v.conns := rfl
@[simp] theorem setEntry_max : (v.setEntry i entry).max = v.max := rfl
@[simp] theorem setKnock_calls : (v.setKnock i knock).calls = v.calls := rfl
@[simp] theorem setKnock_current : (v.setKnock i knock).current = v.current := rfl
@[simp] theorem setKnock_conns : (v.setKnock i knock).conns = v.conns := rfl
@[simp] theorem setKnock_max : (v.setKnock i knock).max = v.max := rfl

/-- Ending a call that is not the current one does nothing. -/
theorem finish_of_ne (other : v.current ≠ some c) : v.finish c = v := if_neg other

theorem finish_of_current (same : v.current = some c) : v.finish c = v.hangUp c := if_pos same

end Views

end Voice

/-- What step `act`, from `v` to `after`, does to the calls. -/
inductive Change (v : Voice) (act : Act) (after : Voice) : Prop
  | same (calls : after.calls = v.calls) (current : after.current = v.current) (conns : after.conns = v.conns)
  | started (starts : v.starts act = true) (room : Room) (ring : Option Ringing)
      (joined : ∀ group channel, room = .channel group channel → .joining group channel ∈ v.entries)
      (answered : ∀ r, ring = some r → room = .dm r.caller ∧ .picking r ∈ v.entries)
      (calls : after.calls = v.calls ++ [{ room := room, ring := ring }]) (current : after.current = some v.calls.length)
      (conns : after.conns = v.conns)
  | ended (c : ℕ) (was : v.current = some c) (calls : after.calls = v.calls.modify c .stop)
      (current : after.current = none) (conns : after.conns = v.conns)
  | added (c : ℕ) (person : PublicKey) (adds : v.adds act = some (c, person))
      (calls : after.calls = v.calls.modify c (.addPeer person v.conns)) (current : after.current = v.current)
      (conns : after.conns = v.conns + 1)
  | marked (c : ℕ) (calls : after.calls = v.calls.modify c .markAnswered) (current : after.current = v.current)
      (conns : after.conns = v.conns)
  | retained (c : ℕ) (room : List PublicKey) (channel : ∀ call, v.calls[c]? = some call → call.isChannel = true)
      (calls : after.calls = v.calls.modify c (.retain room)) (current : after.current = v.current)
      (conns : after.conns = v.conns)
  | readerEnded (c i : ℕ) (is : act = .reader c i) (calls : after.calls = v.calls.modify c (.readerEnds i))
      (current : after.current = v.current) (conns : after.conns = v.conns)

namespace Change

variable {v after later : Voice} {act : Act}

/-- Only the calls, the current one and the connections count. -/
theorem congr (change : Change v act after) (calls : later.calls = after.calls) (current : later.current = after.current)
    (conns : later.conns = after.conns) : Change v act later := by
  cases change with
  | same a b d => exact .same (calls.trans a) (current.trans b) (conns.trans d)
  | started starts room ring joined answered a b d =>
    exact .started starts room ring joined answered (calls.trans a) (current.trans b) (conns.trans d)
  | ended c was a b d => exact .ended c was (calls.trans a) (current.trans b) (conns.trans d)
  | added c person adds a b d => exact .added c person adds (calls.trans a) (current.trans b) (conns.trans d)
  | marked c a b d => exact .marked c (calls.trans a) (current.trans b) (conns.trans d)
  | retained c room channel a b d => exact .retained c room channel (calls.trans a) (current.trans b) (conns.trans d)
  | readerEnded c i is a b d => exact .readerEnded c i is (calls.trans a) (current.trans b) (conns.trans d)

theorem idle : Change v act v := .same rfl rfl rfl

theorem finish {c : ℕ} : Change v act (v.finish c) := by
  by_cases same : v.current = some c
  · rw [Voice.finish_of_current same]
    exact .ended c same rfl rfl rfl
  · rw [Voice.finish_of_ne same]
    exact idle

theorem addPeer {c : ℕ} {person : PublicKey} (adds : v.adds act = some (c, person)) :
    Change v act (v.addPeer c person) :=
  .added c person adds rfl rfl rfl

/-- What a task on the way into a call does. -/
theorem entry {i : ℕ} {ok : Bool} {entry : Entry} (at_ : v.entries[i]? = some entry) :
    Change v (.entry i ok) (v.entryStep i ok entry) := by
  have held : entry ∈ v.entries := List.mem_of_getElem? at_
  cases entry with
  | joining group channel =>
    cases ok with
    | false => exact idle.congr rfl rfl rfl
    | true =>
      refine started (by simp [Voice.starts, at_]) (.channel group channel) none (fun g c same => ?_) nofun rfl rfl rfl
      cases same
      exact held
  | calling person =>
    cases ok with
    | false => exact idle.congr rfl rfl rfl
    | true => exact started (by simp [Voice.starts, at_]) (.dm person) none nofun nofun rfl rfl rfl
  | ringingOut c person =>
    cases ok with
    | false => exact finish.congr rfl rfl rfl
    | true => exact idle.congr rfl rfl rfl
  | dialling c person => cases ok <;> exact idle.congr rfl rfl rfl
  | adding c person marks =>
    cases ok with
    | false => exact idle.congr rfl rfl rfl
    | true => exact (addPeer (by simp [Voice.adds, at_])).congr rfl rfl rfl
  | marking c => exact .marked c rfl rfl rfl
  | answering =>
    simp only [Voice.entryStep]
    split <;> exact idle.congr rfl rfl rfl
  | picking ring =>
    cases ok with
    | false => exact idle.congr rfl rfl rfl
    | true =>
      refine started (by simp [Voice.starts, at_]) (.dm ring.caller) (some ring) nofun (fun r same => ?_) rfl rfl rfl
      cases same
      exact ⟨rfl, held⟩
  | deciding ring c =>
    simp only [Voice.entryStep]
    split
    · exact idle.congr rfl rfl rfl
    · exact finish.congr rfl rfl rfl
  | ended => exact idle

/-- What an incoming connection does. -/
theorem knock {i : ℕ} {ok : Bool} {knock : Knock} (at_ : v.knocks[i]? = some knock) :
    Change v (.knock i ok) (v.knockStep i ok knock) := by
  cases knock with
  | channel group channel person =>
    simp only [Voice.knockStep]
    split <;> exact idle.congr rfl rfl rfl
  | dm caller =>
    simp only [Voice.knockStep]
    split <;> exact idle.congr rfl rfl rfl
  | ringing ring decision => exact idle.congr rfl rfl rfl
  | decided ring answer => exact idle.congr rfl rfl rfl
  | confirming ring answer =>
    simp only [Voice.knockStep]
    split
    · split <;> exact idle.congr rfl rfl rfl
    · exact idle.congr rfl rfl rfl
  | admitted c person =>
    simp only [Voice.knockStep]
    split
    · exact idle.congr rfl rfl rfl
    · split
      · exact finish.congr rfl rfl rfl
      · exact idle.congr rfl rfl rfl
  | adding c person =>
    cases ok with
    | false => exact idle.congr rfl rfl rfl
    | true => exact (addPeer (by simp [Voice.adds, at_])).congr rfl rfl rfl
  | marking c => exact .marked c rfl rfl rfl
  | ended => exact idle

/-- What a call does that looks after itself. -/
theorem upkeep {c : ℕ} {room dials : List PublicKey} : Change v act (v.upkeep c room dials) := by
  unfold Voice.upkeep
  split
  · exact idle
  · rename_i call found
    split
    · exact idle
    · split
      · split
        · exact finish
        · exact idle
      · rename_i channel
        refine retained c room (fun other same => ?_) rfl rfl rfl
        rw [found] at same
        cases same
        simpa using channel

end Change

/-- What a step does to the calls. -/
theorem step_change (v : Voice) (act : Act) : Change v act (v.step act) := by
  cases act with
  | join group channel allowed others =>
    simp only [Voice.step]
    split <;> exact Change.idle.congr rfl rfl rfl
  | call person reachable =>
    simp only [Voice.step]
    split <;> exact Change.idle.congr rfl rfl rfl
  | answer =>
    simp only [Voice.step]
    split <;> exact Change.idle.congr rfl rfl rfl
  | decline =>
    simp only [Voice.step]
    split <;> exact Change.idle.congr rfl rfl rfl
  | leave =>
    simp only [Voice.step]
    split
    · exact .idle
    · exact .ended _ ‹_› rfl rfl rfl
  | arrive knock =>
    simp only [Voice.step]
    split <;> exact Change.idle.congr rfl rfl rfl
  | entry i ok =>
    simp only [Voice.step]
    split
    · exact .idle
    · exact .entry ‹_›
  | knock i ok =>
    simp only [Voice.step]
    split
    · exact .idle
    · exact .knock ‹_›
  | reader c i => exact .readerEnded c i rfl rfl rfl rfl
  | upkeep c room dials => exact .upkeep

section Lists
variable {calls : List Call} {i c : ℕ} {f : Call → Call} {new call : Call}

/-- A call, after one was changed. -/
theorem at_modify (found : (calls.modify i f)[c]? = some call) :
    (c = i ∧ ∃ old, calls[i]? = some old ∧ call = f old) ∨ (c ≠ i ∧ calls[c]? = some call) := by
  rw [List.getElem?_modify] at found
  obtain ⟨old, held, changed⟩ := Option.map_eq_some_iff.mp found
  by_cases same : i = c
  · subst same
    rw [if_pos rfl] at changed
    exact .inl ⟨rfl, old, held, changed.symm⟩
  · rw [if_neg same] at changed
    subst changed
    exact .inr ⟨Ne.symm same, held⟩

/-- A call, after one was started. -/
theorem at_snoc (found : (calls ++ [new])[c]? = some call) : (c = calls.length ∧ call = new) ∨ calls[c]? = some call := by
  rcases Nat.lt_trichotomy c calls.length with before | same | after
  · rw [List.getElem?_append_left before] at found
    exact .inr found
  · subst same
    simp only [List.getElem?_concat_length, Option.some.injEq] at found
    exact .inl ⟨rfl, found.symm⟩
  · rw [List.getElem?_eq_none (by simp; omega)] at found
    cases found

end Lists

/-- What call `c` becomes in step `act`. -/
inductive Becomes (v : Voice) (act : Act) (c : ℕ) (call : Call) : Call → Prop
  | same : Becomes v act c call call
  | stopped (was : v.current = some c) (now : (v.step act).current = none) : Becomes v act c call call.stop
  | added (person : PublicKey) (adds : v.adds act = some (c, person)) (conns : (v.step act).conns = v.conns + 1) :
      Becomes v act c call (call.addPeer person v.conns)
  | marked : Becomes v act c call call.markAnswered
  | retained (room : List PublicKey) (channel : call.isChannel = true) : Becomes v act c call (call.retain room)
  | readerEnded (i : ℕ) (is : act = .reader c i) : Becomes v act c call (call.readerEnds i)

/-- Step `act` starts `call`, as call `c`. -/
structure Begins (v : Voice) (act : Act) (c : ℕ) (call : Call) : Prop where
  last : c = v.calls.length
  starts : v.starts act = true
  fresh : ∃ room ring, call = { room := room, ring := ring }
  joined : ∀ group channel, call.room = .channel group channel → .joining group channel ∈ v.entries
  answered : ∀ ring, call.ring = some ring → call.room = .dm ring.caller ∧ .picking ring ∈ v.entries

section Calls
variable {v : Voice} {act : Act} {c : ℕ} {call : Call}

/-- A call there after a step was there before it, or the step starts it. -/
theorem step_call (found : (v.step act).calls[c]? = some call) :
    (∃ before, v.calls[c]? = some before ∧ Becomes v act c before call) ∨ Begins v act c call := by
  have changed : ∀ {d : ℕ} {f : Call → Call}, (v.step act).calls = v.calls.modify d f →
      (∀ before, v.calls[d]? = some before → Becomes v act d before (f before)) →
      ∃ before, v.calls[c]? = some before ∧ Becomes v act c before call := by
    intro d f calls becomes
    rw [calls] at found
    rcases at_modify found with ⟨rfl, before, held, rfl⟩ | ⟨_, held⟩
    · exact ⟨before, held, becomes before held⟩
    · exact ⟨call, held, .same⟩
  cases step_change v act with
  | same calls _ _ => exact .inl ⟨call, calls ▸ found, .same⟩
  | started starts room ring joined answered calls _ _ =>
    rw [calls] at found
    rcases at_snoc found with ⟨last, rfl⟩ | held
    · exact .inr ⟨last, starts, ⟨room, ring, rfl⟩, joined, answered⟩
    · exact .inl ⟨call, held, .same⟩
  | ended d was calls now _ => exact .inl (changed calls fun before _ => .stopped was now)
  | added d person adds calls _ conns => exact .inl (changed calls fun before _ => .added person adds conns)
  | marked d calls _ _ => exact .inl (changed calls fun before _ => .marked)
  | retained d room channel calls _ _ =>
    exact .inl (changed calls fun before held => .retained room (channel before held))
  | readerEnded d i is calls _ _ => exact .inl (changed calls fun before _ => .readerEnded i is)

/-- A call that is there before a step is there after it. -/
theorem step_kept (found : v.calls[c]? = some call) :
    ∃ after, (v.step act).calls[c]? = some after ∧ Becomes v act c call after := by
  have changed : ∀ {d : ℕ} {f : Call → Call}, (v.step act).calls = v.calls.modify d f →
      (v.calls[d]? = some call → Becomes v act d call (f call)) →
      ∃ after, (v.step act).calls[c]? = some after ∧ Becomes v act c call after := by
    intro d f calls becomes
    rw [calls, List.getElem?_modify, found]
    by_cases same : d = c
    · subst same
      exact ⟨f call, by simp, becomes found⟩
    · exact ⟨call, by simp [same], .same⟩
  cases step_change v act with
  | same calls _ _ => exact ⟨call, calls ▸ found, .same⟩
  | started _ _ _ _ _ calls _ _ =>
    have before : c < v.calls.length := (List.getElem?_eq_some_iff.mp found).1
    exact ⟨call, by rw [calls, List.getElem?_append_left before, found], .same⟩
  | ended d was calls now _ => exact changed calls fun _ => .stopped was now
  | added d person adds calls _ conns => exact changed calls fun _ => .added person adds conns
  | marked d calls _ _ => exact changed calls fun _ => .marked
  | retained d room channel calls _ _ => exact changed calls fun held => .retained room (channel call held)
  | readerEnded d i is calls _ _ => exact changed calls fun _ => .readerEnded i is

theorem step_conns : v.conns ≤ (v.step act).conns := by
  cases step_change v act with
  | same _ _ conns => exact conns.ge
  | started _ _ _ _ _ _ _ conns => exact conns.ge
  | ended _ _ _ _ conns => exact conns.ge
  | added _ _ _ _ _ conns => exact conns ▸ Nat.le_succ _
  | marked _ _ _ conns => exact conns.ge
  | retained _ _ _ _ _ conns => exact conns.ge
  | readerEnded _ _ _ _ _ conns => exact conns.ge

variable {i : ℕ}

theorem readerEnds_eq : call.readerEnds i = call ∨ ∃ reader, call.readers[i]? = some reader ∧ reader.running = true ∧
    call.readerEnds i =
      { call with
        peers := call.peers.erase reader.person
        readers := call.readers.set i { reader with running := false } } := by
  unfold Call.readerEnds
  split
  · rename_i reader found
    split
    · exact .inr ⟨reader, found, ‹_›, rfl⟩
    · exact .inl rfl
  · exact .inl rfl

/-- A call keeps its room and the ring it was answered with. -/
theorem Becomes.kept {after : Call} (becomes : Becomes v act c call after) :
    after.room = call.room ∧ after.ring = call.ring := by
  cases becomes with
  | readerEnded i _ =>
    rcases readerEnds_eq with same | ⟨reader, _, _, same⟩ <;> rw [same] <;> exact ⟨rfl, rfl⟩
  | _ => exact ⟨rfl, rfl⟩

theorem Becomes.isChannel {after : Call} (becomes : Becomes v act c call after) : after.isChannel = call.isChannel := by
  rw [Call.isChannel, becomes.kept.1, Call.isChannel]

end Calls

/-- A task that is there after step `act` and was not before it, as it is then. -/
inductive Brought (v : Voice) (act : Act) : Entry → Prop
  | ended : Brought v act .ended
  | joining (group : PublicKey) (channel : String) (room : 1 ≤ v.max) : Brought v act (.joining group channel)
  | calling (person : PublicKey) : Brought v act (.calling person)
  | ringingOut (person : PublicKey) (calls : (v.step act).calls = v.calls ++ [{ room := .dm person }]) :
      Brought v act (.ringingOut v.calls.length person)
  | dialling (c : ℕ) (person : PublicKey) (call : Call) (found : v.calls[c]? = some call)
      (channel : call.isChannel = true) : Brought v act (.dialling c person)
  | adding (c : ℕ) (person : PublicKey) (marks : Bool)
      (was : .ringingOut c person ∈ v.entries ∨ .dialling c person ∈ v.entries) : Brought v act (.adding c person marks)
  | marking (c : ℕ) : Brought v act (.marking c)
  | answering : Brought v act .answering
  | picking (ring : Ringing) (was : v.ringing = some ring) (after : (v.step act).ringing = none) :
      Brought v act (.picking ring)
  | deciding (ring : Ringing) (was : .picking ring ∈ v.entries)
      (calls : (v.step act).calls = v.calls ++ [{ room := .dm ring.caller, ring := some ring }]) :
      Brought v act (.deciding ring v.calls.length)

section Entries
variable {v : Voice} {act : Act} {i c : ℕ} {ok : Bool} {entry later : Entry}

theorem mem_finish_entries (member : later ∈ (v.finish c).entries) : later ∈ v.entries ∨ later = .ended := by
  unfold Voice.finish at member
  split at member
  · obtain ⟨old, held, same⟩ := List.mem_map.mp member
    split at same
    · exact .inr same.symm
    · exact .inl (same ▸ held)
  · exact .inl member

theorem Brought.of_ended (either : later ∈ v.entries ∨ later = .ended) : later ∈ v.entries ∨ Brought v act later := by
  rcases either with old | rfl
  · exact .inl old
  · exact .inr .ended

/-- What a task on the way into a call is about to do after its step. -/
theorem mem_entryStep (at_ : v.entries[i]? = some entry) (member : later ∈ (v.entryStep i ok entry).entries) :
    later ∈ v.entries ∨ Brought v (.entry i ok) later := by
  have held : entry ∈ v.entries := List.mem_of_getElem? at_
  have own : ∀ {next : Entry}, later ∈ v.entries.set i next → Brought v (.entry i ok) next →
      later ∈ v.entries ∨ Brought v (.entry i ok) later := by
    intro next member brought
    rcases List.mem_or_eq_of_mem_set member with old | rfl
    · exact .inl old
    · exact .inr brought
  cases entry with
  | joining group channel =>
    cases ok <;> exact own member .ended
  | calling person =>
    cases ok with
    | false => exact own member .ended
    | true => exact own member (.ringingOut person (by simp only [Voice.step, at_]; rfl))
  | ringingOut c person =>
    cases ok with
    | false =>
      rcases List.mem_or_eq_of_mem_set member with old | same
      · exact Brought.of_ended (mem_finish_entries old)
      · exact .inr (same ▸ .ended)
    | true => exact own member (.adding c person true (.inl held))
  | dialling c person =>
    cases ok with
    | false => exact own member .ended
    | true => exact own member (.adding c person false (.inr held))
  | adding c person marks =>
    have next : Brought v (.entry i ok) (if marks then .marking c else .ended) := by
      cases marks
      · exact .ended
      · exact .marking c
    cases ok <;> exact own member next
  | marking c => exact own member .ended
  | answering =>
    simp only [Voice.entryStep] at member
    split at member
    · exact own member .ended
    · rename_i ring was
      exact own member (.picking ring was (by simp only [Voice.step, at_, Voice.entryStep, was]; rfl))
  | picking ring =>
    cases ok with
    | false => exact own member .ended
    | true => exact own member (.deciding ring held (by simp only [Voice.step, at_]; rfl))
  | deciding ring c =>
    simp only [Voice.entryStep] at member
    rcases List.mem_or_eq_of_mem_set member with old | same
    · split at old
      · exact .inl old
      · exact Brought.of_ended (mem_finish_entries old)
    · exact .inr (same ▸ .ended)
  | ended => exact .inl member

theorem mem_knockStep_entries {knock : Knock} (member : later ∈ (v.knockStep i ok knock).entries) :
    later ∈ v.entries ∨ later = .ended := by
  cases knock with
  | channel group channel person =>
    simp only [Voice.knockStep] at member
    split at member <;> exact .inl member
  | dm caller =>
    simp only [Voice.knockStep] at member
    split at member <;> exact .inl member
  | confirming ring answer =>
    simp only [Voice.knockStep] at member
    split at member
    · split at member <;> exact .inl member
    · exact .inl member
  | admitted c person =>
    simp only [Voice.knockStep] at member
    split at member
    · exact .inl member
    · split at member
      · exact mem_finish_entries member
      · exact .inl member
  | adding c person => cases ok <;> exact .inl member
  | _ => exact .inl member

/-- The tasks there after a step were there before it, or are those it brings. -/
theorem mem_step_entries (member : later ∈ (v.step act).entries) : later ∈ v.entries ∨ Brought v act later := by
  have last : ∀ {next : Entry}, later ∈ v.entries ++ [next] → Brought v act next →
      later ∈ v.entries ∨ Brought v act later := by
    intro next member brought
    rcases List.mem_append.mp member with old | new
    · exact .inl old
    · cases List.mem_singleton.mp new
      exact .inr brought
  cases act with
  | join group channel allowed others =>
    simp only [Voice.step] at member
    split at member
    · exact .inl member
    · rename_i fits
      exact last member (.joining group channel (by simp at fits; omega))
  | call person reachable =>
    simp only [Voice.step] at member
    split at member
    · exact .inl member
    · exact last member (.calling person)
  | answer =>
    simp only [Voice.step] at member
    split at member
    · exact .inl member
    · exact last member .answering
  | decline =>
    simp only [Voice.step] at member
    split at member <;> exact .inl member
  | leave =>
    simp only [Voice.step] at member
    split at member
    · exact .inl member
    · rename_i c current
      rw [← Voice.finish_of_current current] at member
      exact Brought.of_ended (mem_finish_entries member)
  | arrive knock =>
    simp only [Voice.step] at member
    split at member <;> exact .inl member
  | entry i ok =>
    simp only [Voice.step] at member
    split at member
    · exact .inl member
    · exact mem_entryStep ‹_› member
  | knock i ok =>
    simp only [Voice.step] at member
    split at member
    · exact .inl member
    · exact Brought.of_ended (mem_knockStep_entries member)
  | reader c i => exact .inl member
  | upkeep c room dials =>
    simp only [Voice.step, Voice.upkeep] at member
    split at member
    · exact .inl member
    · rename_i call found
      split at member
      · exact .inl member
      · split at member
        · split at member
          · exact Brought.of_ended (mem_finish_entries member)
          · exact .inl member
        · rename_i channel
          refine (List.mem_append.mp member).imp_right fun dialled => ?_
          obtain ⟨person, _, rfl⟩ := List.mem_map.mp dialled
          exact .dialling c person call found (by simpa using channel)

end Entries

end HitEnter.Calls
