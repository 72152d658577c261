import HitEnter.Calls.OneCall
import HitEnter.Calls.Replaced
import HitEnter.Calls.Rings

/-! Whether a call that was answered, and into which its caller never came, is ended without
anyone leaving it, over any run of the tasks under way. -/

namespace HitEnter.Calls

open Wire Lib.Runs

/-- Is this a connection by which `ring` still brings its caller into call `c`, or which marks
the call as answered? -/
def Knock.brings (c : ℕ) (ring : Ringing) : Knock → Bool
  | .ringing own decision => own == ring && decision == some true
  | .decided own answer => own == ring && answer == some true
  | .confirming own answer => own == ring && answer == some true
  | .admitted call person => call == c && person == ring.caller
  | .adding call person => call == c && person == ring.caller
  | .marking call => call == c
  | _ => false

namespace Voice

/-- A ring is not given up once its call was answered. -/
def hears (v : Voice) : Act → Bool
  | .knock i false =>
    match v.knocks[i]? with
    | some (.ringing _ decision) => decision != some true
    | _ => true
  | _ => true

/-- No ring is given up once its call was answered, and no call started beside the current
one. -/
def orderly (v : Voice) (act : Act) : Bool := v.hears act && v.alone act

/-- Someone will yet come into call `c`, which was answered with `ring`, or end it. -/
inductive Awaited (v : Voice) (c : ℕ) (ring : Ringing) (call : Call) : Prop
  | deciding (member : .deciding ring c ∈ v.entries)
  | brings (knock : Knock) (member : knock ∈ v.knocks) (brings : knock.brings c ring = true)
  | answered (answered : call.answered = true)

/-- Every task under way has ended, and no 1:1 call looks after itself any more. -/
structure AtRest (v : Voice) : Prop where
  entries : ∀ entry ∈ v.entries, entry = .ended
  knocks : ∀ knock ∈ v.knocks, knock = .ended
  upkeep : ∀ (c : ℕ) (call : Call) (room dials : List PublicKey), v.calls[c]? = some call → call.isChannel = false →
    v.step (.upkeep c room dials) = v

end Voice

/-- Whoever is waited for in a call that runs, and into which nobody has come. -/
def Attended (v : Voice) : Prop :=
  ∀ (c : ℕ) (call : Call) (ring : Ringing), v.calls[c]? = some call → call.ring = some ring → call.loops = true →
    call.readers = [] → v.Awaited c ring call

section Forward
variable {v : Voice} {act : Act} {j c : ℕ} {entry : Entry} {knock : Knock}

theorem finish_entry {d : ℕ} (at_ : v.entries[j]? = some entry) (other : ∀ d, entry.ringsFor d = false) :
    (v.finish d).entries[j]? = some entry := by
  unfold Voice.finish
  split
  · simp [Voice.hangUp, at_, other]
  · exact at_

/-- A task stays as it is while others take their steps. -/
theorem step_entry (at_ : v.entries[j]? = some entry) (own : ∀ ok, act ≠ .entry j ok)
    (other : ∀ d, entry.ringsFor d = false) : (v.step act).entries[j]? = some entry := by
  have append : ∀ more : List Entry, (v.entries ++ more)[j]? = some entry := fun more => by
    rw [List.getElem?_append_left (List.getElem?_eq_some_iff.mp at_).1, at_]
  cases act with
  | leave =>
    simp only [Voice.step]
    split
    · exact at_
    · rw [← Voice.finish_of_current ‹_›]
      exact finish_entry at_ other
  | entry i ok =>
    have apart : i ≠ j := fun same => own ok (same ▸ rfl)
    have set : ∀ {w : Voice} {next : Entry}, w.entries[j]? = some entry → (w.setEntry i next).entries[j]? = some entry :=
      fun same => (List.getElem?_set_ne apart).trans same
    simp only [Voice.step]
    split
    · exact at_
    · rename_i task _
      cases task <;> simp only [Voice.entryStep] <;> (repeat' split)
      all_goals first | exact set at_ | exact set (finish_entry at_ other) | exact at_
  | knock i ok =>
    simp only [Voice.step]
    split
    · exact at_
    · rename_i knock _
      cases knock <;> simp only [Voice.knockStep] <;> (repeat' split)
      all_goals first | exact at_ | exact finish_entry at_ other
  | upkeep d room dials =>
    simp only [Voice.step, Voice.upkeep]
    repeat' split
    all_goals first | exact at_ | exact finish_entry at_ other | exact append _
  | _ =>
    simp only [Voice.step]
    repeat' split
    all_goals first | exact at_ | exact append _

/-- A connection stays as it is while others take their steps, or is sent something. -/
theorem step_knock (at_ : v.knocks[j]? = some knock) (own : ∀ ok, act ≠ .knock j ok) :
    (v.step act).knocks[j]? = some knock ∨
      (∃ ring, act = .decline ∧ v.ringing = some ring ∧ (v.step act).knocks[j]? = some (knock.sent ring.id false)) ∨
      ∃ id, (v.step act).knocks[j]? = some (knock.sent id true) := by
  have sent : ∀ (id : ℕ) (yes : Bool), (v.knocks.map (.sent id yes))[j]? = some (knock.sent id yes) := fun id yes => by
    rw [List.getElem?_map, at_]
    rfl
  have finish : ∀ d, (v.finish d).knocks[j]? = some knock := fun d => by rw [finish_knocks, at_]
  cases act with
  | decline =>
    simp only [Voice.step]
    split
    · exact .inl at_
    · rename_i ring waits
      exact .inr (.inl ⟨ring, trivial, waits, sent ring.id false⟩)
  | arrive later =>
    simp only [Voice.step]
    split
    · exact .inl ((List.getElem?_append_left (List.getElem?_eq_some_iff.mp at_).1).trans at_)
    · exact .inl at_
  | entry i ok =>
    simp only [Voice.step]
    split
    · exact .inl at_
    · rename_i task _
      cases task with
      | deciding ring c =>
        simp only [Voice.entryStep]
        split
        · exact .inr (.inr ⟨ring.id, sent ring.id true⟩)
        · exact .inl (finish c)
      | _ =>
        simp only [Voice.entryStep]
        repeat' split
        all_goals first | exact .inl at_ | exact .inl (finish _)
  | knock i ok =>
    have apart : i ≠ j := fun same => own ok (same ▸ rfl)
    have set : ∀ {w : Voice} {next : Knock}, w.knocks[j]? = some knock → (w.setKnock i next).knocks[j]? = some knock :=
      fun same => (List.getElem?_set_ne apart).trans same
    simp only [Voice.step]
    split
    · exact .inl at_
    · rename_i other _
      cases other <;> simp only [Voice.knockStep] <;> (repeat' split)
      all_goals first | exact .inl (set at_) | exact .inl (set (finish _)) | exact .inl at_
  | upkeep d room dials =>
    simp only [Voice.step, Voice.upkeep]
    repeat' split
    all_goals first | exact .inl at_ | exact .inl (finish _)
  | _ =>
    simp only [Voice.step]
    repeat' split
    all_goals exact .inl at_

end Forward

section Steps
variable {v : Voice} {act : Act} {c i : ℕ} {call after : Call} {ring : Ringing} {knock : Knock}

/-- A call runs after a step, and nobody has come into it, only if that was so before. -/
theorem Becomes.alone (becomes : Becomes v act c call after) (loops : after.loops = true) (none : after.readers = []) :
    call.loops = true ∧ call.readers = [] := by
  cases becomes with
  | same => exact ⟨loops, none⟩
  | stopped _ _ => cases loops
  | added person _ _ => simp [Call.addPeer] at none
  | marked => exact ⟨loops, none⟩
  | retained room _ => exact ⟨loops, none⟩
  | readerEnded i _ =>
    rcases @readerEnds_eq call i with same | ⟨reader, _, _, same⟩
    · rw [same] at loops none
      exact ⟨loops, none⟩
    · rw [same] at loops none
      exact ⟨loops, by simpa using none⟩

/-- A call once marked as answered stays so. -/
theorem Becomes.answered (becomes : Becomes v act c call after) (answered : call.answered = true) :
    after.answered = true := by
  cases becomes with
  | marked => rfl
  | readerEnded i _ =>
    rcases @readerEnds_eq call i with same | ⟨reader, _, _, same⟩ <;> rw [same] <;> exact answered
  | _ => exact answered

/-- The current call no longer runs once it is ended. -/
theorem finish_stops (current : v.current = some c) (found : (v.finish c).calls[c]? = some call) : call.loops = false := by
  rw [Voice.finish_of_current current] at found
  rcases at_modify found with ⟨_, before, _, rfl⟩ | ⟨other, _⟩
  · rfl
  · exact absurd rfl other

/-- Hearing that it was answered, a connection brings its caller as before. -/
theorem sent_brings {id : ℕ} (brings : knock.brings c ring = true) : (knock.sent id true).brings c ring = true := by
  cases knock with
  | ringing own decision =>
    simp only [Knock.brings, Bool.and_eq_true] at brings
    simp only [Knock.sent, Knock.brings, brings.1, Bool.true_and]
    split
    · rfl
    · exact brings.2
  | _ => exact brings

/-- A call that is answered has the ring's connection told next. -/
theorem begins_deciding (begins : Begins v act c call) (found : (v.step act).calls[c]? = some call)
    (own : call.ring = some ring) : .deciding ring c ∈ (v.step act).entries := by
  obtain ⟨last, starts, _, _, _⟩ := begins
  unfold Voice.starts at starts
  split at starts
  · rename_i i
    split at starts
    · rename_i at_
      simp only [Voice.step, at_, Voice.entryStep, if_true, Voice.setEntry_calls, Voice.start] at found
      rw [last, List.getElem?_concat_length] at found
      cases found
      cases own
    · rename_i at_
      simp only [Voice.step, at_, Voice.entryStep, if_true, Voice.setEntry_calls, Voice.start] at found
      rw [last, List.getElem?_concat_length] at found
      cases found
      cases own
    · rename_i picked at_
      simp only [Voice.step, at_, Voice.entryStep, if_true, Voice.setEntry_calls, Voice.start] at found ⊢
      rw [last, List.getElem?_concat_length] at found
      cases found
      cases own
      rw [last]
      exact List.mem_set (List.getElem?_eq_some_iff.mp at_).1 _
    · cases starts
  · cases starts

/-- The task that tells the ring's connection does so, or ends the call. -/
theorem awaited_deciding {ok : Bool} (apart : RingsApart v) (current : v.current = some c)
    (at_ : v.entries[i]? = some (.deciding ring c)) (found : (v.step (.entry i ok)).calls[c]? = some call)
    (loops : call.loops = true) : (v.step (.entry i ok)).Awaited c ring call := by
  simp only [Voice.step, at_, Voice.entryStep] at found ⊢
  split at found
  · rename_i listens
    obtain ⟨knock, member, listens⟩ := List.any_eq_true.mp listens
    cases knock with
    | ringing own decision =>
      simp only [Knock.listens, beq_iff_eq] at listens
      have same : own = ring := apart.apart own ring (.inr (.inr ⟨_, member, rfl⟩))
        (.inr (.inl (.inl ⟨_, List.mem_of_getElem? at_, rfl⟩))) listens
      subst same
      refine .brings (.ringing own (some true)) ?_ (by simp [Knock.brings])
      rw [if_pos ‹_›]
      exact List.mem_map.mpr ⟨_, member, by simp [Knock.sent]⟩
    | _ => cases listens
  · rw [Voice.setEntry_calls] at found
    rw [finish_stops current found] at loops
    cases loops

/-- A connection that brings the caller goes on doing so, or ends the call, unless it gives the
ring up. -/
theorem awaited_brings {ok : Bool} (current : v.current = some c) (held : v.calls[c]? = some call)
    (room : call.room = .dm ring.caller) (at_ : v.knocks[i]? = some knock) (brings : knock.brings c ring = true)
    (hears : v.hears (.knock i ok) = true) (found : (v.step (.knock i ok)).calls[c]? = some after)
    (loops : after.loops = true) (none : after.readers = []) : (v.step (.knock i ok)).Awaited c ring after := by
  have within : i < v.knocks.length := (List.getElem?_eq_some_iff.mp at_).1
  have next : ∀ {w : Voice} {later : Knock}, i < w.knocks.length → later.brings c ring = true →
      (w.setKnock i later).Awaited c ring after := fun within brings =>
    .brings _ (List.mem_set within _) brings
  simp only [Voice.step, at_] at found ⊢
  cases knock with
  | ringing own decision =>
    simp only [Knock.brings, Bool.and_eq_true, beq_iff_eq] at brings
    obtain ⟨rfl, rfl⟩ := brings
    cases ok with
    | false => simp [Voice.hears, at_] at hears
    | true => exact next within (by simp [Knock.brings])
  | decided own answer => exact next within brings
  | confirming own answer =>
    simp only [Knock.brings, Bool.and_eq_true, beq_iff_eq] at brings
    obtain ⟨rfl, rfl⟩ := brings
    simp only [Voice.knockStep, current, held, Option.any_some, room, decide_true, if_true]
    exact next within (by simp [Knock.brings])
  | admitted d person =>
    simp only [Knock.brings, Bool.and_eq_true, beq_iff_eq] at brings
    obtain ⟨rfl, rfl⟩ := brings
    cases ok with
    | true => exact next within (by simp [Knock.brings])
    | false =>
      have one : call.isChannel = false := by rw [Call.isChannel, room]
      simp only [Voice.knockStep, held, Option.any_some, one, Bool.not_false, if_true, Bool.false_eq_true, if_false,
        Voice.setKnock_calls] at found
      rw [finish_stops current found] at loops
      cases loops
  | adding d person =>
    simp only [Knock.brings, Bool.and_eq_true, beq_iff_eq] at brings
    obtain ⟨rfl, rfl⟩ := brings
    cases ok with
    | false => exact next within (by simp [Knock.brings])
    | true =>
      -- The caller has come in.
      simp only [Voice.knockStep, if_true, Voice.setKnock_calls, Voice.addPeer, Voice.update] at found
      rcases at_modify found with ⟨_, before, _, rfl⟩ | ⟨other, _⟩
      · simp [Call.addPeer] at none
      · exact absurd rfl other
  | marking d =>
    simp only [Knock.brings, beq_iff_eq] at brings
    subst brings
    refine .answered ?_
    simp only [Voice.knockStep, Voice.setKnock_calls, Voice.update] at found
    rcases at_modify found with ⟨_, before, _, rfl⟩ | ⟨other, _⟩
    · rfl
    · exact absurd rfl other
  | _ => cases brings

/-- Whoever is waited for in a call that runs is waited for after a step. -/
theorem attended_step (apart : RingsApart v) (told : RingsTold v) (one : AtMostOne v) (hears : v.hears act = true)
    (attended : Attended v) : Attended (v.step act) := by
  intro c call ring found own loops none
  rcases step_call found with ⟨before, held, becomes⟩ | begins
  · have ours : before.ring = some ring := becomes.kept.2 ▸ own
    obtain ⟨running, nobody⟩ := becomes.alone loops none
    have current : v.current = some c := one.2 c (by simp [Voice.runs, held, running])
    have room := told.caller c before ring held ours
    cases attended c before ring held ours running nobody with
    | deciding member =>
      obtain ⟨j, at_⟩ := List.mem_iff_getElem?.mp member
      by_cases turn : ∃ ok, act = .entry j ok
      · obtain ⟨ok, rfl⟩ := turn
        exact awaited_deciding apart current at_ found loops
      · exact .deciding (List.mem_of_getElem? (step_entry at_ (fun ok same => turn ⟨ok, same⟩) fun _ => rfl))
    | brings knock member brings =>
      obtain ⟨j, at_⟩ := List.mem_iff_getElem?.mp member
      by_cases turn : ∃ ok, act = .knock j ok
      · obtain ⟨ok, rfl⟩ := turn
        exact awaited_brings current held room at_ brings hears found loops none
      · rcases step_knock at_ fun ok same => turn ⟨ok, same⟩ with still | ⟨waiting, _, waits, sent⟩ | ⟨id, sent⟩
        · exact .brings knock (List.mem_of_getElem? still) brings
        · refine .brings _ (List.mem_of_getElem? sent) ?_
          cases knock with
          | ringing other decision =>
            simp only [Knock.brings, Bool.and_eq_true, beq_iff_eq] at brings
            obtain ⟨rfl, rfl⟩ := brings
            -- Whoever declines takes a ring nobody has answered.
            have ids : other.id ≠ waiting.id := fun same => by
              have taken : v.Taken other := .inr ⟨c, before, held, ours⟩
              have same := apart.apart other waiting (.inr (.inl taken)) (.inl waits) same
              exact apart.spare waiting waits (same ▸ taken)
            simp [Knock.sent, Knock.brings, ids]
          | _ => exact brings
        · exact .brings _ (List.mem_of_getElem? sent) (sent_brings brings)
    | answered answered => exact .answered (becomes.answered answered)
  · exact .deciding (begins_deciding begins found own)

end Steps

/-- Whom a task is about to add, and to which call. -/
def Entry.target : Entry → Option (ℕ × PublicKey)
  | .ringingOut c person | .dialling c person | .adding c person _ => some (c, person)
  | _ => none

/-- Whom a connection is about to bring, and into which call. -/
def Knock.target : Knock → Option (ℕ × PublicKey)
  | .admitted c person | .adding c person => some (c, person)
  | _ => none

/-- Call `c` may take in `person`. -/
def Voice.Takes (v : Voice) (c : ℕ) (person : PublicKey) : Prop :=
  ∃ call, v.calls[c]? = some call ∧ call.takes person = true

/-- Into each call come only those whom it may take in. -/
structure Guests (v : Voice) : Prop where
  entries : ∀ entry ∈ v.entries, ∀ c person, entry.target = some (c, person) → v.Takes c person
  knocks : ∀ knock ∈ v.knocks, ∀ c person, knock.target = some (c, person) → v.Takes c person
  readers : ∀ (c : ℕ) (call : Call), v.calls[c]? = some call → ∀ reader ∈ call.readers, call.takes reader.person = true

section Guests
variable {v : Voice} {act : Act} {c : ℕ} {person : PublicKey} {call after : Call}

theorem Becomes.takes (becomes : Becomes v act c call after) : after.takes person = call.takes person := by
  rw [Call.takes, becomes.kept.1, Call.takes]

theorem Voice.Takes.step (takes : v.Takes c person) : (v.step act).Takes c person := by
  obtain ⟨call, found, takes⟩ := takes
  obtain ⟨after, later, becomes⟩ := @step_kept v act c call found
  exact ⟨after, later, becomes.takes.trans takes⟩

/-- Whoever a step adds, the call may take in. -/
theorem Guests.adds (guests : Guests v) (adds : v.adds act = some (c, person)) : v.Takes c person := by
  unfold Voice.adds at adds
  split at adds
  · split at adds
    · rename_i at_
      cases adds
      exact guests.entries _ (List.mem_of_getElem? at_) _ _ rfl
    · cases adds
  · split at adds
    · rename_i at_
      cases adds
      exact guests.knocks _ (List.mem_of_getElem? at_) _ _ rfl
    · cases adds
  · cases adds

theorem guests_step (guests : Guests v) : Guests (v.step act) := by
  constructor
  · intro entry member c person target
    rcases mem_step_entries member with old | brought
    · exact (guests.entries entry old c person target).step
    · cases brought with
      | ringingOut peer calls =>
        cases target
        exact ⟨_, by rw [calls]; exact List.getElem?_concat_length, by simp [Call.takes]⟩
      | dialling d peer call found channel =>
        cases target
        refine Voice.Takes.step ⟨call, found, ?_⟩
        unfold Call.isChannel at channel
        split at channel
        · rename_i room
          rw [Call.takes, room]
        · cases channel
      | adding d peer marks was =>
        cases target
        rcases was with was | was <;> exact (guests.entries _ was _ _ rfl).step
      | _ => cases target
  · intro knock member c person target
    rcases mem_step_knocks member with old | came
    · exact (guests.knocks knock old c person target).step
    · cases came with
      | new knock new =>
        have none : knock.target = none := by cases knock <;> first | rfl | cases new
        rw [none] at target
        cases target
      | gated d peer call found takes =>
        cases target
        exact Voice.Takes.step ⟨call, found, takes⟩
      | adding d peer was =>
        cases target
        exact (guests.knocks _ was _ _ rfl).step
      | _ => cases target
  · intro c call found reader member
    rcases step_call found with ⟨before, held, becomes⟩ | begins
    · rw [becomes.takes]
      have old := guests.readers c before held
      cases becomes with
      | stopped _ _ =>
        obtain ⟨earlier, was, rfl⟩ := List.mem_map.mp member
        exact old earlier was
      | added person adds _ =>
        rcases List.mem_append.mp member with was | new
        · exact old reader was
        · cases List.mem_singleton.mp new
          obtain ⟨call, found, takes⟩ := guests.adds adds
          rw [held] at found
          cases found
          exact takes
      | readerEnded i _ =>
        rcases @readerEnds_eq before i with same | ⟨ending, at_, _, same⟩
        · exact old reader (same ▸ member)
        · rw [same] at member
          rcases List.mem_or_eq_of_mem_set member with was | rfl
          · exact old reader was
          · exact old ending (List.mem_of_getElem? at_)
      | _ => exact old reader member
    · obtain ⟨room, ring, rfl⟩ := begins.fresh
      cases member

end Guests

/-- What holds in every state of an orderly run. -/
structure Settled (v : Voice) : Prop where
  apart : RingsApart v
  told : RingsTold v
  guests : Guests v
  traced : Traced v
  runs : CurrentRuns v
  one : AtMostOne v
  attended : Attended v

theorem settled_initial {max : ℕ} : Settled { max := max } := by
  have nothing : ∀ ring, ¬ Voice.Rung { max := max } ring := by
    rintro ring (waits | (⟨entry, member, _⟩ | ⟨c, call, found, _⟩) | ⟨knock, member, _⟩)
    · cases waits
    · cases member
    · cases found
    · cases member
  have silent : ∀ c, Voice.runs { max := max } c ≠ true := fun c runs => by simp [Voice.runs] at runs
  have uncalled : ∀ (c : ℕ) (call : Call), ([] : List Call)[c]? ≠ some call := by simp
  exact {
    apart := ⟨fun ring rung => absurd rung (nothing ring), fun a _ rung => absurd rung (nothing a), by simp⟩
    told := ⟨fun c call _ found => absurd found (uncalled c call), by simp⟩
    guests := ⟨by simp, by simp, fun c call found => absurd found (uncalled c call)⟩
    traced := fun c call found => absurd found (uncalled c call)
    runs := by simp [CurrentRuns]
    one := ⟨fun c _ runs => absurd runs (silent c), fun c runs => absurd runs (silent c)⟩
    attended := fun c call _ found => absurd found (uncalled c call) }

theorem settled_run {max : ℕ} {acts : List Act} (met : Met Voice.orderly Voice.step { max := max } acts) :
    Settled (run Voice.step { max := max } acts) := by
  refine run_invariant (fun v act orderly settled => ?_) met settled_initial
  rw [Voice.orderly, Bool.and_eq_true] at orderly
  obtain ⟨apart, told, guests, traced, runs, one, attended⟩ := settled
  exact ⟨ringsApart_step apart, ringsTold_step told, guests_step guests, traced_step traced, currentRuns_step runs,
    (atMostOne_step runs one).mpr orderly.2, attended_step apart told one orderly.1 attended⟩

/-- Where nobody came into a 1:1 call that runs, and it is not ended at rest, someone is
still on the way. -/
theorem Settled.ended {v : Voice} {c : ℕ} {call : Call} {ring : Ringing} (settled : Settled v) (rest : v.AtRest)
    (found : v.calls[c]? = some call) (own : call.ring = some ring) (none : call.readers = []) : call.loops = false := by
  rw [Bool.eq_false_iff]
  intro loops
  cases settled.attended c call ring found own loops none with
  | deciding member => cases rest.entries _ member
  | brings knock member brings =>
    rw [rest.knocks knock member] at brings
    cases brings
  | answered answered =>
    have current := settled.one.2 c (by simp [Voice.runs, found, loops])
    have one : call.isChannel = false := by rw [Call.isChannel, settled.told.caller c call ring found own]
    have empty : call.peers = ∅ := by
      refine Std.ExtTreeMap.ext_getElem? fun {person} => ?_
      cases entry : call.peers[person]? with
      | none => simp
      | some conn =>
        obtain ⟨before, after, order, _⟩ := (settled.traced c call found).last person conn entry
        simp [Call.comers, none] at order
    have still := congrArg Voice.current (rest.upkeep c call [] [] found one)
    simp [Voice.step, Voice.upkeep, found, loops, one, answered, empty, Voice.finish_of_current current, Voice.hangUp,
      current] at still

/-- At rest, a call that was answered, and into which its caller never came, is ended. -/
def NoneOrphaned (v : Voice) : Prop :=
  v.AtRest → ∀ (c : ℕ) (call : Call) (ring : Ringing), v.calls[c]? = some call → call.ring = some ring →
    (∀ reader ∈ call.readers, reader.person ≠ ring.caller) → call.loops = false ∧ v.current ≠ some c

/-- Someone rings, and here they answer; the ring's connection hears it, but is gone before it
can say so. -/
def goneBefore : List Act :=
  [.arrive (.dm ⟨1⟩), .knock 0 true, .answer, .entry 0 true, .entry 0 true, .entry 0 true, .knock 0 true, .knock 0 true,
    .knock 0 true, .knock 0 false]

/-- The same, but the connection is gone once the answer was sent, and that is what it hears. -/
def goneSooner : List Act :=
  [.arrive (.dm ⟨1⟩), .knock 0 true, .answer, .entry 0 true, .entry 0 true, .entry 0 true, .knock 0 false, .knock 0 true,
    .knock 0 true]

end HitEnter.Calls
