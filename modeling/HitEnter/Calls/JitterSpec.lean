import HitEnter.Calls.Unwrap
import HitEnter.Lib.Values

/-! What a call of the jitter buffer does where nothing leaves the range, and what every run of such
calls keeps. -/

namespace HitEnter.Calls

open Lib.Checked Lib.Values Wire

variable {P : Type}

/-- Lost, whatever stands in for it. -/
def Slot.isLost : Slot P → Bool
  | .recover _ | .conceal => true
  | .waiting | .play _ => false

namespace Jitter

variable {jitter after : Jitter P}

theorem unwrap_agrees (jitter : Jitter P) (seq : UInt16) : Agrees (jitter.unwrap seq) (jitter.unwrap seq) := by
  unfold unwrap
  split
  · exact Agrees.add _ _
  · exact (Agrees.add _ _).bind fun _ => (Agrees.add _ _).bind fun _ => (Agrees.add _ _).bind fun _ =>
      (Agrees.add _ _).bind fun _ => Agrees.pure _

theorem push_agrees (jitter : Jitter P) (seq : UInt16) (packet : P) :
    Agrees (jitter.push seq packet) (jitter.push seq packet) := by
  refine (unwrap_agrees jitter seq).bind fun s => ?_
  split
  · exact Agrees.pure _
  · exact Agrees.pure _

theorem turn_agrees (jitter : Jitter P) (next : UInt32) : Agrees (jitter.turn next) (jitter.turn next) := by
  unfold turn
  split
  · exact Agrees.pure _
  · refine (Agrees.add _ _).bind fun bound => (Agrees.add _ _).bind fun reach => ?_
    split
    · exact (Agrees.sub _ _).bind fun _ => Agrees.pure _
    · exact Agrees.pure _

theorem pop_agrees (jitter : Jitter P) : Agrees jitter.pop jitter.pop := by
  have started (next : UInt32) : Agrees (pop.started jitter next) (pop.started jitter next) :=
    (turn_agrees jitter next).bind fun _ => (Agrees.add _ _).bind fun _ => Agrees.pure _
  unfold pop
  split
  · exact started _
  · split
    · exact Agrees.pure _
    · exact started _

/-- Where nothing leaves the range, a call does as in a release. -/
theorem call_agrees (jitter : Jitter P) (call : Call P) : Agrees (jitter.call call) (jitter.call call) := by
  cases call with
  | push seq packet => exact (push_agrees jitter seq packet).bind fun _ => Agrees.pure _
  | pop => exact (pop_agrees jitter).bind fun _ => Agrees.pure _

/-- The turn a pop starts from. -/
inductive Begins (jitter : Jitter P) (first : UInt32) : Prop
  | goesOn (started : jitter.next = some first)
  | starts (waits : jitter.next = none) (enough : jitter.delay ≤ jitter.held.size)
      (least : first = jitter.held.keys.head?.getD 0)

/-- The turn it comes to, and what is left to play from there. -/
inductive Turns (jitter : Jitter P) (first : UInt32) : UInt32 → BTreeMap UInt32 P → Prop
  | stays (near : ∀ newest ∈ jitter.newest, newest.toNat + 1 ≤ first.toNat + (jitter.delay + catchUp)) :
      Turns jitter first first jitter.held
  | skips {newest n : UInt32} (seen : jitter.newest = some newest)
      (behind : first.toNat + (jitter.delay + catchUp) < newest.toNat + 1)
      (back : n.toNat + jitter.delay = newest.toNat + 1) :
      Turns jitter first n (jitter.held.filter fun s _ => n ≤ s)

theorem turn_cases {first n : UInt32} {held : BTreeMap UInt32 P} (small : jitter.delay ≤ maxHeld)
    (turned : jitter.turn (m := Option) first = some (n, held)) : jitter.Turns first n held := by
  have delay : (UInt32.ofNat jitter.delay).toNat = jitter.delay :=
    UInt32.toNat_ofNat_of_lt (by unfold maxHeld at small; unfold UInt32.size; omega)
  have span : (UInt32.ofNat (jitter.delay + catchUp)).toNat = jitter.delay + catchUp :=
    UInt32.toNat_ofNat_of_lt (by unfold maxHeld at small; unfold catchUp UInt32.size; omega)
  unfold turn at turned
  split at turned
  · rename_i unseen
    obtain ⟨rfl, rfl⟩ := Prod.mk.inj (Option.some.inj turned)
    exact .stays fun newest seen => absurd seen (by simp [unseen])
  · rename_i newest seen
    obtain ⟨bound, toBound, turned⟩ := Option.bind_eq_some_iff.mp turned
    obtain ⟨reach, toReach, turned⟩ := Option.bind_eq_some_iff.mp turned
    have top := add_eq_some.mp toBound
    have same := add_eq_some.mp toReach
    rw [span] at same
    split at turned
    · rename_i less
      obtain ⟨start, toStart, turned⟩ := Option.bind_eq_some_iff.mp turned
      obtain ⟨rfl, rfl⟩ := Prod.mk.inj (Option.some.inj turned)
      have back := sub_eq_some.mp toStart
      have less := UInt32.lt_iff_toNat_lt.mp less
      rw [same, top] at less
      rw [delay, top] at back
      exact .skips seen less back
    · rename_i least
      obtain ⟨rfl, rfl⟩ := Prod.mk.inj (Option.some.inj turned)
      have least := UInt32.le_iff_toNat_le.mp (UInt32.not_lt.mp least)
      rw [same, top] at least
      exact .stays fun other seen' => Option.some.inj (seen'.symm.trans seen) ▸ least

/-- What a pop does. -/
inductive Popped (jitter : Jitter P) : Slot P → Jitter P → Prop
  | unstarted (waits : jitter.next = none) (few : jitter.held.size < jitter.delay) : Popped jitter .waiting jitter
  | played {first n next : UInt32} {held : BTreeMap UInt32 P} {packet : P} (begins : jitter.Begins first)
      (turns : jitter.Turns first n held) (past : next.toNat = n.toNat + 1) (present : held[n]? = some packet) :
      Popped jitter (.play packet) { jitter with held := held.erase n, next := some next, dry := 0 }
  | startsOver {first n : UInt32} {held : BTreeMap UInt32 P} (begins : jitter.Begins first)
      (turns : jitter.Turns first n held) :
      Popped jitter .waiting { jitter with held, next := none, dry := 0 }
  | lost {first n next : UInt32} {held : BTreeMap UInt32 P} {slot : Slot P} (begins : jitter.Begins first)
      (turns : jitter.Turns first n held) (past : next.toNat = n.toNat + 1) (isLost : slot.isLost = true)
      (soon : jitter.dry + 1 ≤ maxDry) :
      Popped jitter slot { jitter with held, next := some next, dry := jitter.dry + 1 }

theorem popped_started {first : UInt32} (begins : jitter.Begins first) (small : jitter.delay ≤ maxHeld)
    {slot : Slot P} (popped : pop.started (m := Option) jitter first = some (slot, after)) :
    jitter.Popped slot after := by
  obtain ⟨⟨n, held⟩, turned, popped⟩ := Option.bind_eq_some_iff.mp popped
  obtain ⟨next, toNext, popped⟩ := Option.bind_eq_some_iff.mp popped
  have turns := turn_cases small turned
  have past := add_eq_some.mp toNext
  have played := Option.some.inj popped
  unfold playTurn at played
  split at played
  · rename_i packet present
    obtain ⟨rfl, rfl⟩ := Prod.mk.inj played
    exact .played begins turns past present
  · split at played
    · obtain ⟨rfl, rfl⟩ := Prod.mk.inj played
      exact .startsOver begins turns
    · rename_i goes
      obtain ⟨rfl, rfl⟩ := Prod.mk.inj played
      refine .lost begins turns past ?_ (by omega)
      cases held[next]? <;> rfl

/-- A buffer that has started waits for no more packets than it may hold. -/
def Fits (jitter : Jitter P) : Prop :=
  jitter.held.size ≤ maxHeld ∧ (jitter.next.isSome → jitter.delay ≤ maxHeld)

theorem popped (fits : jitter.Fits) {slot : Slot P} (popped : jitter.pop (m := Option) = some (slot, after)) :
    jitter.Popped slot after := by
  unfold pop at popped
  split at popped
  · rename_i next started
    exact popped_started (.goesOn started) (fits.2 (by simp [started])) popped
  · rename_i waits
    split at popped
    · rename_i few
      obtain ⟨rfl, rfl⟩ := Prod.mk.inj (Option.some.inj popped)
      exact .unstarted waits few
    · rename_i enough
      exact popped_started (.starts waits (by omega) rfl) (le_trans (by omega) fits.1) popped

theorem size_popFirst (held : BTreeMap UInt32 P) : (popFirst held).size = held.size - 1 := by
  unfold popFirst
  rw [← Std.ExtTreeMap.minKey?_eq_head?_keys]
  split
  · rename_i first least
    rw [Std.ExtTreeMap.size_erase, if_pos (Std.ExtTreeMap.contains_minKey? least)]
  · rename_i empty
    rw [Std.ExtTreeMap.minKey?_eq_none_iff.mp empty]
    rfl

theorem popFirst_sub {held : BTreeMap UInt32 P} {s : UInt32} (member : s ∈ popFirst held) : s ∈ held := by
  unfold popFirst at member
  split at member
  · exact Std.ExtTreeMap.mem_of_mem_erase member
  · exact member

theorem values_popFirst_le (held : BTreeMap UInt32 P) : values (popFirst held) ≤ values held := by
  unfold popFirst
  split
  · exact values_erase_le _
  · exact le_rfl

theorem size_trim_le (held : BTreeMap UInt32 P) : (trim held).size ≤ maxHeld := by
  have dropped (n : ℕ) : (popFirst^[n] held).size = held.size - n := by
    induction n with
    | zero => rfl
    | succ n ih => rw [Function.iterate_succ_apply', size_popFirst, ih, Nat.sub_sub]
  unfold trim
  rw [dropped]
  omega

theorem trim_sub {held : BTreeMap UInt32 P} {s : UInt32} (member : s ∈ trim held) : s ∈ held :=
  Function.Iterate.rec (fun left => s ∈ left → s ∈ held) id (fun {_} within member => within (popFirst_sub member)) _ member

theorem values_trim_le (held : BTreeMap UInt32 P) : values (trim held) ≤ values held :=
  Function.Iterate.rec (fun left => values left ≤ values held) le_rfl
    (fun {_} within => (values_popFirst_le _).trans within) _

/-- What a push does: nothing, where the turn of the packet has passed. -/
inductive Pushed (jitter : Jitter P) (packet : P) (s : UInt32) : Jitter P → Prop
  | late (passed : jitter.next.any (s < ·)) : Pushed jitter packet s jitter
  | held (waits : ∀ next ∈ jitter.next, next ≤ s) : Pushed jitter packet s
      { jitter with newest := some (jitter.newest.elim s (max · s)), held := trim (jitter.held.insert s packet) }

theorem pushed {seq : UInt16} {packet : P} (pushed : jitter.push (m := Option) seq packet = some after) :
    ∃ s, jitter.unwrap (m := Option) seq = some s ∧ jitter.Pushed packet s after := by
  obtain ⟨s, unwrapped, pushed⟩ := Option.bind_eq_some_iff.mp pushed
  refine ⟨s, unwrapped, ?_⟩
  split at pushed
  · rename_i passed
    obtain rfl := Option.some.inj pushed
    exact .late passed
  · rename_i waits
    obtain rfl := Option.some.inj pushed
    refine .held fun next started => ?_
    rw [started] at waits
    simpa using waits

/-- What every run keeps. -/
structure Kept (jitter : Jitter P) : Prop where
  positive : 1 ≤ jitter.delay
  fits : jitter.Fits
  seen : ∀ s ∈ jitter.held, ∃ newest ∈ jitter.newest, s.toNat ≤ newest.toNat
  turn : ∀ next ∈ jitter.next, ∃ newest ∈ jitter.newest, next.toNat ≤ newest.toNat + 1 + jitter.dry
  dry : jitter.dry ≤ maxDry
  high : ∀ newest ∈ jitter.newest, 65536 ≤ newest.toNat

theorem kept_new (delay : ℕ) : (new delay : Jitter P).Kept where
  positive := le_max_right _ _
  fits := ⟨Nat.zero_le _, nofun⟩
  seen := by simp [new]
  turn := nofun
  dry := Nat.zero_le _
  high := nofun

theorem toNat_max (a b : UInt32) : (max a b).toNat = max a.toNat b.toNat := by
  have larger : max a b = if a ≤ b then b else a := rfl
  rw [larger]
  split
  · rename_i least
    have := UInt32.le_iff_toNat_le.mp least
    omega
  · rename_i less
    have := UInt32.lt_iff_toNat_lt.mp (UInt32.not_le.mp less)
    omega

/-- The newest number seen once `s` has been. -/
theorem toNat_newest (newest : Option UInt32) (s : UInt32) :
    s.toNat ≤ (newest.elim s (max · s)).toNat ∧ ∀ before ∈ newest, before.toNat ≤ (newest.elim s (max · s)).toNat := by
  cases newest with
  | none => exact ⟨le_rfl, nofun⟩
  | some before =>
    rw [Option.elim_some, toNat_max]
    refine ⟨le_max_right _ _, ?_⟩
    rintro _ ⟨⟩
    exact le_max_left _ _

/-- Nothing numbered so is given less than `65536`. -/
theorem Kept.push (kept : jitter.Kept) {seq : UInt16} {packet : P}
    (done : jitter.push (m := Option) seq packet = some after) : after.Kept := by
  obtain ⟨s, unwrapped, late | waits⟩ := pushed done
  · exact kept
  · obtain ⟨least, further⟩ := toNat_newest jitter.newest s
    refine ⟨kept.positive, ⟨size_trim_le _, kept.fits.2⟩, fun k member => ⟨_, rfl, ?_⟩, fun next started => ⟨_, rfl, ?_⟩,
      kept.dry, ?_⟩
    · obtain same | held := Std.ExtTreeMap.mem_insert.mp (trim_sub member)
      · rwa [← Std.LawfulEqCmp.compare_eq_iff_eq.mp same]
      · obtain ⟨before, seen, near⟩ := kept.seen k held
        exact near.trans (further before seen)
    · obtain ⟨before, seen, near⟩ := kept.turn next started
      have later := further before seen
      change _ ≤ _ + 1 + jitter.dry
      omega
    · rintro _ ⟨⟩
      cases seen : jitter.newest with
      | none =>
        unfold unwrap at unwrapped
        rw [seen] at unwrapped
        rw [Option.elim_none, add_eq_some.mp unwrapped]
        exact Nat.le_add_left _ _
      | some before => exact (kept.high before seen).trans (seen ▸ further before seen)

theorem Kept.begins (kept : jitter.Kept) {first : UInt32} (begins : jitter.Begins first) :
    jitter.delay ≤ maxHeld ∧ ∃ newest ∈ jitter.newest, first.toNat ≤ newest.toNat + 1 + jitter.dry := by
  obtain started | ⟨waits, enough, rfl⟩ := begins
  · exact ⟨kept.fits.2 (by simp [started]), kept.turn first started⟩
  · refine ⟨enough.trans kept.fits.1, ?_⟩
    rw [← Std.ExtTreeMap.minKey?_eq_head?_keys]
    cases least : jitter.held.minKey? with
    | none =>
      have empty := Std.ExtTreeMap.minKey?_eq_none_iff.mp least
      have size : jitter.held.size = 0 := by rw [empty]; rfl
      have := kept.positive
      omega
    | some first =>
      obtain ⟨newest, seen, near⟩ := kept.seen first (Std.ExtTreeMap.minKey?_mem least)
      exact ⟨newest, seen, by rw [Option.getD_some]; omega⟩

theorem Kept.turns (kept : jitter.Kept) {first n : UInt32} {held : BTreeMap UInt32 P} (begins : jitter.Begins first)
    (turns : jitter.Turns first n held) :
    held.size ≤ maxHeld ∧ (∀ s ∈ held, s ∈ jitter.held) ∧
      ∃ newest ∈ jitter.newest, n.toNat ≤ newest.toNat + 1 + jitter.dry ∧
        newest.toNat + 1 ≤ n.toNat + (jitter.delay + catchUp) := by
  obtain ⟨small, newest, seen, near⟩ := kept.begins begins
  obtain close | ⟨seen', behind, back⟩ := turns
  · exact ⟨kept.fits.1, fun _ => id, newest, seen, near, close newest seen⟩
  · obtain rfl := Option.some.inj (seen.symm.trans seen')
    refine ⟨Std.ExtTreeMap.size_filter_le_size.trans kept.fits.1, fun _ => Std.ExtTreeMap.mem_of_mem_filter, newest, seen, ?_, ?_⟩
    · have := kept.positive
      omega
    · omega

theorem Kept.popped (kept : jitter.Kept) {slot : Slot P} (popped : jitter.Popped slot after) : after.Kept := by
  have seen {first n : UInt32} {held : BTreeMap UInt32 P} (begins : jitter.Begins first) (turns : jitter.Turns first n held) :
      ∀ s ∈ held, ∃ newest ∈ jitter.newest, s.toNat ≤ newest.toNat :=
    fun s member => kept.seen s ((kept.turns begins turns).2.1 s member)
  cases popped with
  | unstarted waits few => exact kept
  | @played first n next held packet begins turns past present =>
    obtain ⟨few, -, newest, now, near, -⟩ := kept.turns begins turns
    refine ⟨kept.positive, ⟨Std.ExtTreeMap.size_erase_le.trans few, fun _ => (kept.begins begins).1⟩,
      fun s member => seen begins turns s (Std.ExtTreeMap.mem_of_mem_erase member), ?_, Nat.zero_le _, kept.high⟩
    rintro _ ⟨⟩
    obtain ⟨newest, now, least⟩ := seen begins turns n (Std.ExtTreeMap.mem_iff_isSome_getElem?.mpr (by simp [present]))
    exact ⟨newest, now, by omega⟩
  | startsOver begins turns =>
    exact ⟨kept.positive, ⟨(kept.turns begins turns).1, nofun⟩, seen begins turns, nofun, Nat.zero_le _, kept.high⟩
  | lost begins turns past isLost soon =>
    obtain ⟨few, -, newest, now, near, -⟩ := kept.turns begins turns
    refine ⟨kept.positive, ⟨few, fun _ => (kept.begins begins).1⟩, seen begins turns, ?_, soon, kept.high⟩
    rintro _ ⟨⟩
    exact ⟨newest, now, by change _ ≤ _ + 1 + (_ + 1); omega⟩

theorem of_call_push {seq : UInt16} {packet : P} {ticks : List (Tick P)}
    (done : jitter.call (m := Option) (.push seq packet) = some (after, ticks)) :
    jitter.push (m := Option) seq packet = some after ∧ ticks = [] := by
  obtain ⟨left, pushed, same⟩ := Option.bind_eq_some_iff.mp done
  obtain ⟨rfl, rfl⟩ := Prod.mk.inj (Option.some.inj same)
  exact ⟨pushed, rfl⟩

theorem of_call_pop {ticks : List (Tick P)} (done : jitter.call (m := Option) .pop = some (after, ticks)) :
    ∃ slot, jitter.pop (m := Option) = some (slot, after) ∧ ticks = [⟨jitter, slot, after⟩] := by
  obtain ⟨⟨slot, left⟩, popped, same⟩ := Option.bind_eq_some_iff.mp done
  obtain ⟨rfl, rfl⟩ := Prod.mk.inj (Option.some.inj same)
  exact ⟨slot, popped, rfl⟩

/-- What a call keeps. -/
theorem Kept.call (kept : jitter.Kept) {call : Call P} {ticks : List (Tick P)}
    (done : jitter.call (m := Option) call = some (after, ticks)) : after.Kept := by
  cases call with
  | push seq packet => exact kept.push (of_call_push done).1
  | pop =>
    obtain ⟨slot, popped, -⟩ := of_call_pop done
    exact kept.popped (Jitter.popped kept.fits popped)

variable {calls : List (Call P)} {last : Jitter P} {ticks : List (Tick P)}

theorem of_run_cons {call : Call P} (ran : jitter.run (m := Option) (call :: calls) = some (last, ticks)) :
    ∃ after first later, jitter.call (m := Option) call = some (after, first) ∧
      after.run (m := Option) calls = some (last, later) ∧ ticks = first ++ later := by
  obtain ⟨⟨after, first⟩, done, left⟩ := Option.bind_eq_some_iff.mp ran
  obtain ⟨⟨ended, later⟩, went, same⟩ := Option.bind_eq_some_iff.mp left
  obtain ⟨rfl, rfl⟩ := Prod.mk.inj (Option.some.inj same)
  exact ⟨after, first, later, done, went, rfl⟩

/-- What a run keeps. -/
theorem Kept.run (kept : jitter.Kept) (ran : jitter.run (m := Option) calls = some (last, ticks)) : last.Kept := by
  induction calls generalizing jitter ticks with
  | nil =>
    obtain ⟨rfl, rfl⟩ := Prod.mk.inj (Option.some.inj ran)
    exact kept
  | cons call rest ih =>
    obtain ⟨after, first, later, done, went, -⟩ := of_run_cons ran
    exact ih (kept.call done) went

/-- A run with a tick in it is one up to the tick, the tick, and one from there. -/
theorem run_at_tick {before later : List (Tick P)} {tick : Tick P}
    (ran : jitter.run (m := Option) calls = some (last, before ++ tick :: later)) :
    ∃ first rest, jitter.run (m := Option) first = some (tick.before, before) ∧
      tick.before.pop (m := Option) = some (tick.slot, tick.after) ∧
      tick.after.run (m := Option) rest = some (last, later) := by
  induction calls generalizing jitter before with
  | nil =>
    obtain ⟨-, none⟩ := Prod.mk.inj (Option.some.inj ran)
    exact absurd none (by simp)
  | cons call rest ih =>
    obtain ⟨after, ticks, others, done, went, same⟩ := of_run_cons ran
    cases call with
    | push seq packet =>
      obtain ⟨pushed, rfl⟩ := of_call_push done
      obtain rfl : before ++ tick :: later = others := same
      obtain ⟨first, left, begun, popped, ended⟩ := ih went
      refine ⟨.push seq packet :: first, left, ?_, popped, ended⟩
      exact Option.bind_eq_some_iff.mpr ⟨_, done, Option.bind_eq_some_iff.mpr ⟨_, begun, rfl⟩⟩
    | pop =>
      obtain ⟨slot, popped, rfl⟩ := of_call_pop done
      cases before with
      | nil =>
        obtain ⟨rfl, rfl⟩ := List.cons.inj same
        exact ⟨[], rest, rfl, popped, went⟩
      | cons head before =>
        obtain ⟨rfl, rfl⟩ := List.cons.inj same
        obtain ⟨first, left, begun, next, ended⟩ := ih went
        refine ⟨.pop :: first, left, ?_, next, ended⟩
        exact Option.bind_eq_some_iff.mpr ⟨_, done, Option.bind_eq_some_iff.mpr ⟨_, begun, rfl⟩⟩

end Jitter

end HitEnter.Calls
