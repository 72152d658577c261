import HitEnter.Calls.JitterSpec

/-! The buffer plays in order and each packet once, and its latency is bounded, whatever arrives. -/

namespace HitEnter.Calls.Jitter

open Lib.Checked Lib.Values Wire

variable {P : Type} {jitter after last : Jitter P} {calls : List (Call P)} {ticks : List (Tick P)}

/-- The packets handed in, in order. -/
def pushes (calls : List (Call P)) : List P :=
  calls.filterMap fun
    | .push _ packet => some packet
    | .pop => none

/-- The packets played, in order. -/
def plays (ticks : List (Tick P)) : List P :=
  ticks.filterMap fun tick => match tick.slot with
    | .play packet => some packet
    | _ => none

variable {first n : UInt32} {held : BTreeMap UInt32 P} {slot : Slot P}

theorem Turns.le (turns : jitter.Turns first n held) : first.toNat ≤ n.toNat := by
  cases turns with
  | stays near => exact le_rfl
  | skips seen behind back => omega

theorem Turns.getElem? {s : UInt32} {packet : P} (turns : jitter.Turns first n held) (present : held[s]? = some packet) :
    jitter.held[s]? = some packet := by
  cases turns with
  | stays near => exact present
  | skips seen behind back =>
    rw [Std.ExtTreeMap.getElem?_filter'] at present
    exact (Option.filter_eq_some_iff.mp present).1

/-- The next turn, if there is one, is no sooner than `floor`. -/
def From (floor : ℕ) (jitter : Jitter P) : Prop := ∀ next ∈ jitter.next, floor ≤ next.toNat

theorem From.begins {floor : ℕ} (source : jitter.From floor) (began : Tick.starts ⟨jitter, slot, after⟩ = false)
    (begins : jitter.Begins first) : floor ≤ first.toNat := by
  obtain started | ⟨waits, enough, -⟩ := begins
  · exact source first started
  · simp [Tick.starts, waits, enough] at began

theorem From.popped {floor : ℕ} (source : jitter.From floor) (popped : jitter.Popped slot after)
    (began : Tick.starts ⟨jitter, slot, after⟩ = false) : after.From floor := by
  cases popped with
  | unstarted waits few => exact source
  | startsOver begins turns => exact nofun
  | played begins turns past present =>
    rintro _ ⟨⟩
    have := source.begins began begins
    have := turns.le
    omega
  | lost begins turns past isLost soon =>
    rintro _ ⟨⟩
    have := source.begins began begins
    have := turns.le
    omega

/-- Until it starts again, the turns of a run only go up. -/
theorem From.run {floor : ℕ} (source : jitter.From floor) (kept : jitter.Kept)
    (ran : jitter.run (m := Option) calls = some (last, ticks)) (goesOn : ∀ tick ∈ ticks, tick.starts = false) :
    last.From floor := by
  induction calls generalizing jitter ticks with
  | nil =>
    obtain ⟨rfl, rfl⟩ := Prod.mk.inj (Option.some.inj ran)
    exact source
  | cons call rest ih =>
    obtain ⟨after, first, later, done, went, rfl⟩ := of_run_cons ran
    refine ih ?_ (kept.call done) went fun tick member => goesOn tick (List.mem_append_right _ member)
    cases call with
    | push seq packet =>
      obtain ⟨_, _, late | waits⟩ := pushed (of_call_push done).1
      · exact source
      · exact source
    | pop =>
      obtain ⟨slot, popped, rfl⟩ := of_call_pop done
      exact source.popped (Jitter.popped kept.fits popped) (goesOn _ (List.mem_append_left _ List.mem_cons_self))

/-- A packet played was held under its turn, which is no sooner than the turn awaited. -/
theorem Popped.tick (floor : ℕ) {packet : P} (popped : jitter.Popped slot after) (played : slot = .play packet) :
    ∃ s, Tick.Plays ⟨jitter, slot, after⟩ s packet ∧ after.From (s.toNat + 1) ∧
      (jitter.From floor → Tick.starts ⟨jitter, slot, after⟩ = false → floor ≤ s.toNat) := by
  cases popped with
  | unstarted waits few => contradiction
  | startsOver begins turns => contradiction
  | lost begins turns past isLost soon =>
    subst played
    contradiction
  | @played first n next held other begins turns past present =>
    obtain rfl := Slot.play.inj played
    have following : next = n + 1 := by
      refine UInt32.toNat_inj.mp ?_
      rw [UInt32.toNat_add, Nat.mod_eq_of_lt (show n.toNat + (1 : UInt32).toNat < _ from past ▸ next.toNat_lt)]
      exact past
    refine ⟨n, ⟨rfl, turns.getElem? present, by rw [← following]⟩, ?_, fun source began => ?_⟩
    · rintro _ ⟨⟩
      exact past.ge
    · exact (source.begins began begins).trans turns.le

theorem Turns.values_le (turns : jitter.Turns first n held) : values held ≤ values jitter.held := by
  cases turns with
  | stays near => exact le_rfl
  | skips seen behind back => exact values_filter_le _

/-- What is played is no longer held. -/
theorem Popped.values_le (popped : jitter.Popped slot after) :
    (plays [⟨jitter, slot, after⟩] : Multiset P) + values after.held ≤ values jitter.held := by
  have nothing {slot : Slot P} {after : Jitter P} (silent : ∀ packet, slot ≠ .play packet)
      (left : values after.held ≤ values jitter.held) :
      (plays [⟨jitter, slot, after⟩] : Multiset P) + values after.held ≤ values jitter.held := by
    cases slot with
    | play packet => exact absurd rfl (silent packet)
    | _ => simpa [plays] using left
  cases popped with
  | unstarted waits few => exact nothing (by simp) le_rfl
  | startsOver begins turns => exact nothing (by simp) turns.values_le
  | played begins turns past present => exact (cons_values_erase_le present).trans turns.values_le
  | lost begins turns past isLost soon =>
    refine nothing ?_ turns.values_le
    rintro packet rfl
    contradiction

theorem values_push {seq : UInt16} {packet : P} (done : jitter.push (m := Option) seq packet = some after) :
    values after.held ≤ packet ::ₘ values jitter.held := by
  obtain ⟨s, -, late | waits⟩ := pushed done
  · exact Multiset.le_cons_self _ _
  · exact (values_trim_le _).trans (values_insert_le _ _)

/-- What is played and what is still held was held before or handed in. -/
theorem values_run (kept : jitter.Kept) (ran : jitter.run (m := Option) calls = some (last, ticks)) :
    (plays ticks : Multiset P) + values last.held ≤ values jitter.held + (pushes calls : Multiset P) := by
  induction calls generalizing jitter ticks with
  | nil =>
    obtain ⟨rfl, rfl⟩ := Prod.mk.inj (Option.some.inj ran)
    simp [plays, pushes]
  | cons call rest ih =>
    obtain ⟨after, first, later, done, went, rfl⟩ := of_run_cons ran
    have further := ih (kept.call done) went
    have split : (plays (first ++ later) : Multiset P) = plays first + plays later := by simp [plays]
    rw [split, add_assoc]
    refine (add_le_add_right further _).trans ?_
    cases call with
    | push seq packet =>
      obtain ⟨handed, rfl⟩ := of_call_push done
      have left := values_push handed
      calc (plays ([] : List (Tick P)) : Multiset P) + (values after.held + pushes rest)
          = values after.held + pushes rest := zero_add _
        _ ≤ packet ::ₘ values jitter.held + pushes rest := add_le_add_left left _
        _ = values jitter.held + pushes (.push seq packet :: rest) := by
          simp [pushes, ← Multiset.cons_coe, Multiset.add_cons]
    | pop =>
      obtain ⟨slot, popped, rfl⟩ := of_call_pop done
      have left := (Jitter.popped kept.fits popped).values_le
      rw [← add_assoc]
      exact add_le_add_left left _

/-- Packets are played in the order of their numbers from one start to the next, and each packet
handed in at most once. -/
theorem plays_in_order {delay : ℕ} (ran : (new delay).run (m := Option) calls = some (last, ticks)) :
    (∀ (before between later : List (Tick P)) (one other : Tick P) (p q : P),
      ticks = before ++ one :: (between ++ other :: later) → one.slot = .play p → other.slot = .play q →
      (∀ tick ∈ between ++ [other], tick.starts = false) →
      ∃ s t, one.Plays s p ∧ other.Plays t q ∧ s < t) ∧
    (plays ticks).Subperm (pushes calls) := by
  constructor
  · rintro before between later one other p q rfl playsOne playsOther goesOn
    obtain ⟨begun, rest, ran, popped, went⟩ := run_at_tick ran
    have kept := (kept_new delay).run ran
    obtain ⟨s, first, past, -⟩ := (Jitter.popped kept.fits popped).tick 0 playsOne
    have keptOn := kept.popped (Jitter.popped kept.fits popped)
    obtain ⟨more, _, ranOn, poppedOn, -⟩ := run_at_tick went
    have keptLast := keptOn.run ranOn
    obtain ⟨t, second, -, above⟩ := (Jitter.popped keptLast.fits poppedOn).tick (s.toNat + 1) playsOther
    have reached := past.run keptOn ranOn fun tick member => goesOn tick (List.mem_append_left _ member)
    have order := above reached (goesOn other (List.mem_append_right _ List.mem_cons_self))
    exact ⟨s, t, first, second, UInt32.lt_iff_toNat_lt.mpr order⟩
  · have all := values_run (kept_new delay) ran
    have held : values (new delay : Jitter P).held = 0 := values_empty
    rw [held, zero_add] at all
    exact Multiset.coe_le.mp (le_trans (Multiset.le_add_right _ _) all)

/-- The packet between two that came is lost. -/
def oneLost : List (Call ℕ) := [.push 10 10, .push 12 12, .pop, .pop, .pop]

theorem plays_in_order_oneLost : ∃ (last : Jitter ℕ) (one mid other : Tick ℕ),
    (new 1).run (m := Option) oneLost = some (last, [one, mid, other]) ∧
      (∃ s t, one.Plays s 10 ∧ other.Plays t 12 ∧ s < t) ∧ (plays [one, mid, other]).Subperm [10, 12] := by
  have played : (((new 1).run (m := Option) oneLost).map fun ran => ran.2.map fun tick => (tick.slot, tick.starts)) =
      some [(.play 10, true), (.recover 12, false), (.play 12, false)] := by decide
  obtain ⟨⟨last, ticks⟩, ran, seen⟩ := Option.map_eq_some_iff.mp played
  obtain ⟨one, ticks, rfl, first, seen⟩ := List.map_eq_cons_iff.mp seen
  obtain ⟨mid, ticks, rfl, lost, seen⟩ := List.map_eq_cons_iff.mp seen
  obtain ⟨other, ticks, rfl, second, seen⟩ := List.map_eq_cons_iff.mp seen
  obtain rfl := List.map_eq_nil_iff.mp seen
  have goesOn : ∀ tick ∈ [mid, other], tick.starts = false := by
    simp [(Prod.mk.inj lost).2, (Prod.mk.inj second).2]
  have ordered := plays_in_order ran
  exact ⟨last, one, mid, other, ran,
    ordered.1 [] [mid] [] one other 10 12 rfl (Prod.mk.inj first).1 (Prod.mk.inj second).1 goesOn, ordered.2⟩

theorem Popped.near (kept : jitter.Kept) (popped : jitter.Popped slot after) (sounds : slot ≠ .waiting) :
    ∃ newest ∈ after.newest, ∃ next ∈ after.next, newest.toNat + 1 < next.toNat + (jitter.delay + catchUp) := by
  cases popped with
  | unstarted waits few => contradiction
  | startsOver begins turns => contradiction
  | @played first n next held packet begins turns past present =>
    obtain ⟨-, -, newest, seen, -, near⟩ := kept.turns begins turns
    exact ⟨newest, seen, next, rfl, by omega⟩
  | @lost first n next held slot begins turns past isLost soon =>
    obtain ⟨-, -, newest, seen, -, near⟩ := kept.turns begins turns
    exact ⟨newest, seen, next, rfl, by omega⟩

theorem delay_call {call : Call P} (kept : jitter.Kept) (done : jitter.call (m := Option) call = some (after, ticks)) :
    after.delay = jitter.delay := by
  cases call with
  | push seq packet =>
    obtain ⟨_, _, late | waits⟩ := pushed (of_call_push done).1
    · rfl
    · rfl
  | pop =>
    obtain ⟨slot, popped, -⟩ := of_call_pop done
    cases Jitter.popped kept.fits popped <;> rfl

theorem delay_run (kept : jitter.Kept) (ran : jitter.run (m := Option) calls = some (last, ticks)) :
    last.delay = jitter.delay := by
  induction calls generalizing jitter ticks with
  | nil =>
    obtain ⟨rfl, -⟩ := Prod.mk.inj (Option.some.inj ran)
    rfl
  | cons call rest ih =>
    obtain ⟨after, first, later, done, went, -⟩ := of_run_cons ran
    exact (ih (kept.call done) went).trans (delay_call kept done)

/-- Where nothing is popped, nothing runs dry. -/
theorem dry_run (ran : jitter.run (m := Option) calls = some (last, [])) : last.dry = jitter.dry := by
  induction calls generalizing jitter with
  | nil =>
    obtain ⟨rfl, -⟩ := Prod.mk.inj (Option.some.inj ran)
    rfl
  | cons call rest ih =>
    obtain ⟨after, first, later, done, went, none⟩ := of_run_cons ran
    obtain ⟨rfl, rfl⟩ := List.append_eq_nil_iff.mp none.symm
    refine (ih went).trans ?_
    cases call with
    | push seq packet =>
      obtain ⟨_, _, late | waits⟩ := pushed (of_call_push done).1
      · rfl
      · rfl
    | pop =>
      obtain ⟨slot, -, ticked⟩ := of_call_pop done
      contradiction

theorem Popped.dry (popped : jitter.Popped slot after) (lost : slot.isLost = true) : after.dry = jitter.dry + 1 := by
  cases popped with
  | lost begins turns past isLost soon => rfl
  | _ => contradiction

/-- Each tick in a row with nothing to play has counted. -/
theorem lost_le {lost later : List (Tick P)} (kept : jitter.Kept)
    (ran : jitter.run (m := Option) calls = some (last, lost ++ later)) (all : ∀ tick ∈ lost, tick.slot.isLost = true) :
    jitter.dry + lost.length ≤ maxDry := by
  induction lost generalizing jitter calls with
  | nil => exact kept.dry
  | cons tick rest ih =>
    have fromHere : jitter.run (m := Option) calls = some (last, [] ++ tick :: (rest ++ later)) := ran
    obtain ⟨first, left, begun, popped, went⟩ := run_at_tick fromHere
    have keptNow := kept.run begun
    have step := Jitter.popped keptNow.fits popped
    have further := ih (keptNow.popped step) went fun tick member => all tick (List.mem_cons_of_mem _ member)
    rw [step.dry (all tick List.mem_cons_self), dry_run begun] at further
    rw [List.length_cons]
    omega

/-- No more than `maxHeld` packets are held, the newest is soon played, and after `maxDry` lost in a
row one is played or the buffer waits. -/
theorem latency_bounded {delay : ℕ} (ran : (new delay).run (m := Option) calls = some (last, ticks)) :
    last.held.size ≤ maxHeld ∧
    (∀ tick ∈ ticks, tick.slot ≠ .waiting → ∃ newest ∈ tick.after.newest, ∃ next ∈ tick.after.next,
      newest.toNat < next.toNat + (delay + catchUp)) ∧
    (∀ before lost later : List (Tick P), ticks = before ++ lost ++ later →
      (∀ tick ∈ lost, tick.slot.isLost = true) → lost.length ≤ maxDry) := by
  refine ⟨((kept_new delay).run ran).fits.1, fun tick member sounds => ?_, ?_⟩
  · obtain ⟨before, later, rfl⟩ := List.append_of_mem member
    obtain ⟨first, left, begun, popped, went⟩ := run_at_tick ran
    have kept := (kept_new delay).run begun
    obtain ⟨newest, seen, next, following, near⟩ := (Jitter.popped kept.fits popped).near kept sounds
    refine ⟨newest, seen, next, following, ?_⟩
    rw [delay_run (kept_new delay) begun] at near
    change _ < _ + (max delay 1 + catchUp) at near
    omega
  · rintro before lost later rfl all
    cases lost with
    | nil => exact Nat.zero_le _
    | cons tick rest =>
      rw [List.append_assoc] at ran
      obtain ⟨first, left, begun, popped, went⟩ := run_at_tick ran
      have kept := (kept_new delay).run begun
      have step := Jitter.popped kept.fits popped
      have count := lost_le (kept.popped step) went fun tick member => all tick (List.mem_cons_of_mem _ member)
      rw [step.dry (all tick List.mem_cons_self)] at count
      rw [List.length_cons]
      omega

theorem latency_bounded_oneLost : ∃ (last : Jitter ℕ) (ticks : List (Tick ℕ)),
    (new 1).run (m := Option) oneLost = some (last, ticks) ∧ last.held.size ≤ maxHeld ∧
      ∀ before lost later : List (Tick ℕ), ticks = before ++ lost ++ later →
        (∀ tick ∈ lost, tick.slot.isLost = true) → lost.length ≤ maxDry := by
  have plain : ((new 1).run (m := Option) oneLost).isSome = true := by decide
  obtain ⟨⟨last, ticks⟩, ran⟩ := Option.isSome_iff_exists.mp plain
  have bounded := latency_bounded ran
  exact ⟨last, ticks, ran, bounded.1, bounded.2.2⟩

end HitEnter.Calls.Jitter
