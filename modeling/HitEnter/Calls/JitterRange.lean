import HitEnter.Calls.JitterSpec

/-! How far a peer can drive the numbers of the buffer: every call stays in the range of 32 bits
for as long as no packet comes within one round of 16 bits of its end. -/

namespace HitEnter.Calls.Jitter

open Lib.Checked Lib.Runs Wire

variable {P : Type} {jitter after last : Jitter P} {calls : List (Call P)} {ticks : List (Tick P)}

/-- A call as a release makes it. -/
def release (jitter : Jitter P) (call : Call P) : Jitter P := (jitter.call (m := Id) call).1

/-- A round of 16 bits is left above the newest number when a packet comes. -/
def hasRound (jitter : Jitter P) : Call P → Bool
  | .push _ _ => jitter.newest.all fun newest => decide (newest.toNat < 2 ^ 32 - 65536)
  | .pop => true

/-- The newest number, as far as packets that have a round left can drive it. -/
def Below (jitter : Jitter P) : Prop := ∀ newest ∈ jitter.newest, newest.toNat < 2 ^ 32 - 32768

theorem isSome_bind {α β : Type} (o : Option α) (f : α → Option β) :
    (o >>= f).isSome = true ↔ ∃ a, o = some a ∧ (f a).isSome = true := by
  cases o <;> simp

theorem isSome_unwrap {newest : UInt32} (seen : jitter.newest = some newest) (high : 65536 ≤ newest.toNat)
    (seq : UInt16) : (jitter.unwrap (m := Option) seq).isSome = true ↔ newest.toNat < 2 ^ 32 - 65536 := by
  have base := toNat_base newest
  have small := newest.toNat_lt
  have short := seq.toNat_lt
  unfold unwrap
  rw [seen]
  simp only
  generalize newest &&& ~~~0xffff = b at base ⊢
  have back : (b - 65536).toNat = b.toNat - 65536 :=
    UInt32.toNat_sub_of_le _ _ (UInt32.le_iff_toNat_le.mpr (show 65536 ≤ b.toNat by omega))
  constructor
  · intro fits
    obtain ⟨above, added, -⟩ := (isSome_bind _ _).mp fits
    have top : b.toNat + 65536 < 2 ^ 32 := isSome_add.mp (Option.isSome_iff_exists.mpr ⟨above, added⟩)
    omega
  · intro room
    have fits : b.toNat + 65536 < 2 ^ 32 := by omega
    obtain ⟨above, added⟩ := Option.isSome_iff_exists.mp ((isSome_add (a := b) (b := 65536)).mpr fits)
    have value : above.toNat = b.toNat + 65536 := add_eq_some.mp added
    have lowest : (b - 65536).toNat + seq.toUInt32.toNat < 2 ^ 32 := by rw [back, UInt16.toNat_toUInt32]; omega
    have middle : b.toNat + seq.toUInt32.toNat < 2 ^ 32 := by rw [UInt16.toNat_toUInt32]; omega
    have highest : above.toNat + seq.toUInt32.toNat < 2 ^ 32 := by rw [value, UInt16.toNat_toUInt32]; omega
    obtain ⟨far, toFar⟩ := Option.isSome_iff_exists.mp (isSome_add.mpr lowest)
    obtain ⟨near, toNear⟩ := Option.isSome_iff_exists.mp (isSome_add.mpr middle)
    obtain ⟨beyond, toBeyond⟩ := Option.isSome_iff_exists.mp (isSome_add.mpr highest)
    exact (isSome_bind _ _).mpr ⟨above, added, (isSome_bind _ _).mpr ⟨far, toFar, (isSome_bind _ _).mpr
      ⟨near, toNear, (isSome_bind _ _).mpr ⟨beyond, toBeyond, rfl⟩⟩⟩⟩

theorem isSome_push (kept : jitter.Kept) (seq : UInt16) (packet : P) :
    (jitter.push (m := Option) seq packet).isSome = true ↔ jitter.hasRound (.push seq packet) = true := by
  have pushes : (jitter.push (m := Option) seq packet).isSome = (jitter.unwrap (m := Option) seq).isSome := by
    unfold push
    cases jitter.unwrap (m := Option) seq with
    | none => rfl
    | some s =>
      simp only [bind, Option.bind_some]
      split <;> rfl
  rw [pushes]
  cases seen : jitter.newest with
  | none =>
    have short := seq.toNat_lt
    refine iff_of_true ?_ (by simp [hasRound, seen])
    unfold unwrap
    rw [seen]
    exact isSome_add.mpr (show seq.toUInt32.toNat + 65536 < 2 ^ 32 by rw [UInt16.toNat_toUInt32]; omega)
  | some newest =>
    rw [isSome_unwrap seen (kept.high newest seen)]
    simp [hasRound, seen]

theorem isSome_turn {first : UInt32} (small : jitter.delay ≤ maxHeld) (below : jitter.Below)
    (near : ∃ newest ∈ jitter.newest, first.toNat ≤ newest.toNat + 1 + maxDry) :
    (jitter.turn (m := Option) first).isSome = true := by
  obtain ⟨newest, seen, near⟩ := near
  have room := below newest seen
  unfold maxHeld at small
  unfold maxDry at near
  have delay : (UInt32.ofNat jitter.delay).toNat = jitter.delay :=
    UInt32.toNat_ofNat_of_lt (by unfold UInt32.size; omega)
  have span : (UInt32.ofNat (jitter.delay + catchUp)).toNat = jitter.delay + catchUp :=
    UInt32.toNat_ofNat_of_lt (by unfold catchUp UInt32.size; omega)
  have fits : newest.toNat + 1 < 2 ^ 32 := by omega
  have reaches : first.toNat + (UInt32.ofNat (jitter.delay + catchUp)).toNat < 2 ^ 32 := by
    rw [span]
    unfold catchUp
    omega
  obtain ⟨bound, toBound⟩ := Option.isSome_iff_exists.mp ((isSome_add (a := newest) (b := 1)).mpr fits)
  obtain ⟨reach, toReach⟩ := Option.isSome_iff_exists.mp (isSome_add.mpr reaches)
  unfold turn
  rw [seen]
  refine (isSome_bind _ _).mpr ⟨bound, toBound, (isSome_bind _ _).mpr ⟨reach, toReach, ?_⟩⟩
  split
  · rename_i less
    have further := UInt32.lt_iff_toNat_lt.mp less
    rw [add_eq_some.mp toReach, span] at further
    have least : (UInt32.ofNat jitter.delay).toNat ≤ bound.toNat := by
      rw [delay]
      omega
    obtain ⟨start, toStart⟩ := Option.isSome_iff_exists.mp (isSome_sub.mpr least)
    exact (isSome_bind _ _).mpr ⟨start, toStart, rfl⟩
  · rfl

theorem isSome_started (kept : jitter.Kept) (below : jitter.Below) {first : UInt32} (begins : jitter.Begins first) :
    (pop.started (m := Option) jitter first).isSome = true := by
  obtain ⟨small, newest, seen, near⟩ := kept.begins begins
  have calm := kept.dry
  have room := below newest seen
  obtain ⟨⟨n, held⟩, turned⟩ :=
    Option.isSome_iff_exists.mp (isSome_turn small below ⟨newest, seen, near.trans (Nat.add_le_add_left calm _)⟩)
  obtain ⟨-, -, newest', seen', high, -⟩ := kept.turns begins (turn_cases small turned)
  obtain rfl := Option.some.inj (seen.symm.trans seen')
  unfold maxDry at calm
  have fits : n.toNat + 1 < 2 ^ 32 := by omega
  obtain ⟨next, toNext⟩ := Option.isSome_iff_exists.mp ((isSome_add (a := n) (b := 1)).mpr fits)
  exact (isSome_bind _ _).mpr ⟨_, turned, (isSome_bind _ _).mpr ⟨next, toNext, rfl⟩⟩

theorem isSome_pop (kept : jitter.Kept) (below : jitter.Below) : (jitter.pop (m := Option)).isSome = true := by
  unfold pop
  split
  · rename_i next started
    exact isSome_started kept below (.goesOn started)
  · rename_i waits
    split
    · rfl
    · rename_i enough
      exact isSome_started kept below (.starts waits (by omega) rfl)

/-- A call stays in the range just where a packet has a round left. -/
theorem isSome_call (kept : jitter.Kept) (below : jitter.Below) (call : Call P) :
    (jitter.call (m := Option) call).isSome = true ↔ jitter.hasRound call = true := by
  cases call with
  | push seq packet =>
    rw [← isSome_push kept seq packet]
    exact (isSome_bind _ _).trans ⟨fun ⟨after, done, _⟩ => Option.isSome_iff_exists.mpr ⟨after, done⟩,
      fun fits => (Option.isSome_iff_exists.mp fits).imp fun _ done => ⟨done, rfl⟩⟩
  | pop =>
    refine iff_of_true ?_ rfl
    obtain ⟨_, popped⟩ := Option.isSome_iff_exists.mp (isSome_pop kept below)
    exact (isSome_bind _ _).mpr ⟨_, popped, rfl⟩

theorem toNat_unwrap_some {newest s : UInt32} {seq : UInt16} (seen : jitter.newest = some newest)
    (high : 65536 ≤ newest.toNat) (given : jitter.unwrap (m := Option) seq = some s) :
    s.toNat = unwrapped newest.toNat (ahead newest.toNat seq.toNat) := by
  rw [← toNat_unwrap seen high seq, unwrap_agrees jitter seq s given]

/-- A packet with a round left drives the numbers up by less than half of one. -/
theorem Below.push (kept : jitter.Kept) (below : jitter.Below) {seq : UInt16} {packet : P}
    (room : jitter.hasRound (.push seq packet) = true) (done : jitter.push (m := Option) seq packet = some after) :
    after.Below := by
  obtain ⟨s, unwrapped, late | waits⟩ := pushed done
  · exact below
  · rintro _ ⟨⟩
    cases seen : jitter.newest with
    | none =>
      have short := seq.toNat_lt
      unfold unwrap at unwrapped
      rw [seen] at unwrapped
      have value : s.toNat = seq.toUInt32.toNat + 65536 := add_eq_some.mp unwrapped
      rw [UInt16.toNat_toUInt32] at value
      rw [Option.elim_none]
      omega
    | some newest =>
      have start : newest.toNat < 2 ^ 32 - 65536 := by simpa [hasRound, seen] using room
      have value := toNat_unwrap_some seen (kept.high newest seen) unwrapped
      have near := unwrapped_le newest.toNat (d := ahead newest.toNat seq.toNat) (Nat.mod_lt _ (by decide))
      rw [Option.elim_some, toNat_max]
      omega

theorem newest_popped {slot : Slot P} (popped : jitter.Popped slot after) : after.newest = jitter.newest := by
  cases popped <;> rfl

theorem Below.call (kept : jitter.Kept) (below : jitter.Below) {call : Call P} (room : jitter.hasRound call = true)
    (done : jitter.call (m := Option) call = some (after, ticks)) : after.Below := by
  cases call with
  | push seq packet => exact below.push kept room (of_call_push done).1
  | pop =>
    obtain ⟨slot, popped, -⟩ := of_call_pop done
    unfold Below
    rw [newest_popped (Jitter.popped kept.fits popped)]
    exact below

theorem isSome_run (kept : jitter.Kept) (below : jitter.Below) :
    (jitter.run (m := Option) calls).isSome = true ↔ Met hasRound release jitter calls := by
  induction calls generalizing jitter with
  | nil => exact iff_of_true rfl trivial
  | cons call rest ih =>
    have first := isSome_call kept below call
    constructor
    · intro fits
      obtain ⟨⟨last, ticks⟩, ran⟩ := Option.isSome_iff_exists.mp fits
      obtain ⟨after, begun, later, done, went, -⟩ := of_run_cons ran
      have room := first.mp (Option.isSome_iff_exists.mpr ⟨_, done⟩)
      have same : jitter.release call = after := congrArg Prod.fst (call_agrees jitter call _ done)
      refine ⟨room, ?_⟩
      rw [same]
      exact (ih (kept.call done) (below.call kept room done)).mp (Option.isSome_iff_exists.mpr ⟨_, went⟩)
    · rintro ⟨room, later⟩
      obtain ⟨⟨after, ticks⟩, done⟩ := Option.isSome_iff_exists.mp (first.mpr room)
      have same : jitter.release call = after := congrArg Prod.fst (call_agrees jitter call _ done)
      rw [same] at later
      have fits := (ih (kept.call done) (below.call kept room done)).mpr later
      obtain ⟨ended, ran⟩ := Option.isSome_iff_exists.mp fits
      exact (isSome_bind _ _).mpr ⟨_, done, (isSome_bind _ _).mpr ⟨ended, ran, rfl⟩⟩

/-- The calls that no number leaves the range in: those where every packet has a round left. -/
theorem never_overflows_iff (delay : ℕ) (calls : List (Call P)) :
    ((new delay).run (m := Option) calls).isSome = true ↔ Met hasRound release (new delay) calls :=
  isSome_run (kept_new delay) nofun

/-- Packets each as far ahead of the one before as may be. -/
def leaps (i k : ℕ) : List (Call Unit) := (List.range' i k).map fun j => .push (.ofNat (32767 * j)) ()

theorem leap {i : ℕ} {newest : UInt32} {jitter after : Jitter Unit} (kept : jitter.Kept) (waits : jitter.next = none)
    (seen : jitter.newest = some newest) (reached : newest.toNat = 65536 + 32767 * i)
    (room : newest.toNat < 2 ^ 32 - 65536)
    (done : jitter.push (m := Option) (.ofNat (32767 * (i + 1))) () = some after) :
    after.next = none ∧ ∃ further, after.newest = some further ∧ further.toNat = 65536 + 32767 * (i + 1) := by
  obtain ⟨s, given, late | -⟩ := pushed done
  · simp [waits] at late
  · have value := toNat_unwrap_some seen (kept.high newest seen) given
    have leap : ahead newest.toNat (UInt16.ofNat (32767 * (i + 1))).toNat = 32767 := by
      rw [UInt16.toNat_ofNat', reached]
      unfold ahead
      omega
    rw [leap, unwrapped, if_pos (by omega)] at value
    refine ⟨waits, _, rfl, ?_⟩
    rw [seen, Option.elim_some, toNat_max]
    omega

/-- The last of the leaps was made with a round left. -/
theorem leaps_le {i k : ℕ} {newest : UInt32} {jitter : Jitter Unit} (kept : jitter.Kept) (waits : jitter.next = none)
    (seen : jitter.newest = some newest) (reached : newest.toNat = 65536 + 32767 * i)
    (fits : (jitter.run (m := Option) (leaps (i + 1) (k + 1))).isSome = true) :
    65536 + 32767 * (i + k) < 2 ^ 32 - 65536 := by
  induction k generalizing i newest jitter with
  | zero =>
    obtain ⟨⟨last, ticks⟩, ran⟩ := Option.isSome_iff_exists.mp fits
    obtain ⟨after, _, _, done, -, -⟩ := of_run_cons ran
    have room := (isSome_push kept _ _).mp (Option.isSome_iff_exists.mpr ⟨_, (of_call_push done).1⟩)
    simp only [hasRound, seen, Option.all_some, decide_eq_true_eq] at room
    omega
  | succ k ih =>
    obtain ⟨⟨last, ticks⟩, ran⟩ := Option.isSome_iff_exists.mp fits
    obtain ⟨after, _, later, done, went, -⟩ := of_run_cons ran
    have pushed := (of_call_push done).1
    have room := (isSome_push kept _ _).mp (Option.isSome_iff_exists.mpr ⟨_, pushed⟩)
    simp only [hasRound, seen, Option.all_some, decide_eq_true_eq] at room
    obtain ⟨waits, further, seen, reached⟩ := leap kept waits seen reached room pushed
    have := ih (kept.push pushed) waits seen reached (Option.isSome_iff_exists.mpr ⟨_, went⟩)
    omega

theorem leaps_new {k : ℕ} (fits : ((new 1).run (m := Option) (leaps 0 (k + 1 + 1))).isSome = true) :
    65536 + 32767 * k < 2 ^ 32 - 65536 := by
  obtain ⟨⟨last, ticks⟩, ran⟩ := Option.isSome_iff_exists.mp fits
  obtain ⟨after, _, later, done, went, -⟩ := of_run_cons ran
  have first := (of_call_push done).1
  obtain ⟨s, given, late | -⟩ := pushed first
  · contradiction
  · have value : s.toNat = 0 + 65536 := add_eq_some.mp given
    have last := leaps_le (i := 0) ((kept_new 1).push first) rfl rfl value (Option.isSome_iff_exists.mpr ⟨_, went⟩)
    omega

/-- A peer that leaps for 131074 packets leaves the range. -/
theorem overflows_at_speed : ¬∀ (delay : ℕ) (calls : List (Call Unit)),
    delay ≤ maxHeld → ((new delay).run (m := Option) calls).isSome = true := by
  intro always
  have last := leaps_new (k := 131072) (always 1 (leaps 0 (131072 + 1 + 1)) (by decide))
  omega

end HitEnter.Calls.Jitter
