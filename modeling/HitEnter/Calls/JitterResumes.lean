import HitEnter.Calls.JitterRange

/-! How a buffer that has started over takes up a stream whose sender was silent for a while: by its
numbers, which are unwrapped near the newest seen before the silence. -/

namespace HitEnter.Calls.Jitter

open Lib.Checked Lib.Runs Wire

variable {P : Type} {jitter : Jitter P} {calls : List (Call P)}

/-- The buffer after the `count` packets numbered from `seq` on. -/
def refill (jitter : Jitter P) (seq : ℕ) (packets : ℕ → P) (count : ℕ) : Jitter P :=
  Lib.Runs.run release jitter ((List.range count).map fun i => .push (.ofNat (seq + i)) (packets i))

/-- Whatever they hold, the first of the `delay` packets after a silence of `pause` is played. -/
def Resumes (jitter : Jitter (List UInt8)) (newest : UInt32) (pause : ℕ) : Prop :=
  ∀ packets : ℕ → List UInt8,
    ((jitter.refill (newest.toNat + pause) packets jitter.delay).pop (m := Id)).1 = .play (packets 0)

/-- A silence is short enough where the numbers go on above `newest`, or come close to it from below. -/
def Heard (newest delay pause : ℕ) : Prop :=
  if pause % 65536 < 32768 ∧ newest + pause % 65536 < 2 ^ 32 then
    newest + pause % 65536 + delay ≤ 2 ^ 32
  else
    newest + pause % 65536 + delay ≤ 2 ^ 32 + 65536 ∧
      (65536 < pause % 65536 + delay ∨ newest = 2 ^ 32 - 1 ∨
        65536 ≤ pause % 65536 + delay + 5 ∧ newest + pause % 65536 + delay + 6 < 2 ^ 32 + 65536)

/-- The number of the packet `i` after the first, which was given `first`. -/
def follows (first i : ℕ) : ℕ := if first + i < 2 ^ 32 then first + i else first + i - 65536

/-- The newest number after `count` packets. -/
def peak (newest first : ℕ) : ℕ → ℕ
  | 0 => newest
  | count + 1 => max newest (min (first + count) (2 ^ 32 - 1))

theorem ahead_add (newest pause : ℕ) : ahead newest ((newest + pause) % 65536) = pause % 65536 := by
  unfold ahead
  omega

/-- A packet that is `e` ahead of the newest, whatever silence and packets came between. -/
theorem unwrapped_ahead {newest seq e : ℕ} (apart : seq % 65536 = (newest + e) % 65536) (short : e < 65536) :
    unwrapped newest (ahead newest (seq % 65536)) = unwrapped newest e := by
  rw [apart, ahead_add, Nat.mod_eq_of_lt short]

/-- Once the numbers have reached the newest seen before, they go on by one, to the end of the range. -/
theorem unwrapped_reached {newest first d i : ℕ} (given : first = newest + d ∨ first + 65536 = newest + d)
    (small : first < 2 ^ 32) (few : i < 100) (reached : newest ≤ first + i) (below : newest < 2 ^ 32) :
    unwrapped (peak newest first (i + 1)) (ahead (peak newest first (i + 1)) ((newest + d + (i + 1)) % 65536)) =
      follows first (i + 1) := by
  by_cases room : first + i < 2 ^ 32
  · have top : peak newest first (i + 1) = first + i := by rw [peak]; omega
    rw [top, unwrapped_ahead (e := 1) (by omega) (by decide)]
    unfold unwrapped follows
    split_ifs <;> omega
  · have top : peak newest first (i + 1) = 2 ^ 32 - 1 := by rw [peak]; omega
    rw [top, unwrapped_ahead (e := first + i + 2 - 2 ^ 32) (by omega) (by omega)]
    unfold unwrapped follows
    split_ifs <;> omega

theorem unwrapped_peak {newest d i : ℕ} (high : 65536 ≤ newest) (below : newest < 2 ^ 32) (short : d < 65536)
    (few : i < 100) :
    unwrapped (peak newest (unwrapped newest d) i)
      (ahead (peak newest (unwrapped newest d) i) ((newest + d + i) % 65536)) = follows (unwrapped newest d) i := by
  have first := unwrapped_lt below short
  cases i with
  | zero =>
    rw [peak, follows, add_zero, add_zero, unwrapped_ahead rfl short, if_pos first]
  | succ i =>
    by_cases forward : d < 32768 ∧ newest + d < 2 ^ 32
    · have start : unwrapped newest d = newest + d := if_pos forward
      exact unwrapped_reached (.inl start) first (by omega) (by omega) below
    · have start : unwrapped newest d = newest + d - 65536 := if_neg forward
      by_cases reached : newest ≤ unwrapped newest d + i
      · exact unwrapped_reached (.inr (by omega)) first (by omega) reached below
      · have top : peak newest (unwrapped newest d) (i + 1) = newest := by rw [peak]; omega
        rw [top]
        by_cases last : d + (i + 1) < 65536
        · rw [unwrapped_ahead (e := d + (i + 1)) (by omega) last, unwrapped, follows]
          rw [if_neg (by omega), if_pos (by omega), start]
          omega
        · rw [unwrapped_ahead (e := 0) (by omega) (by decide), unwrapped, follows]
          rw [if_pos (by omega), if_pos (by omega), start]
          omega

theorem max_peak {newest first count : ℕ} (small : first < 2 ^ 32) (few : count < 65536) :
    max (peak newest first count) (follows first count) = peak newest first (count + 1) := by
  unfold follows
  cases count with
  | zero =>
    rw [peak, peak]
    split_ifs <;> omega
  | succ count =>
    rw [peak, peak]
    split_ifs <;> omega

/-- Where the packet `i` is held. -/
def key (first i : ℕ) : UInt32 := .ofNat (follows first i)

theorem toNat_key {first i : ℕ} (small : first < 2 ^ 32) (few : i ≤ 100) : (key first i).toNat = follows first i := by
  refine UInt32.toNat_ofNat_of_lt ?_
  change follows first i < 2 ^ 32
  unfold follows
  split_ifs <;> omega

theorem key_ne {first i j : ℕ} (small : first < 2 ^ 32) (few : j ≤ 100) (less : i < j) : key first i ≠ key first j := by
  intro same
  have apart := congrArg UInt32.toNat same
  rw [toNat_key small (by omega), toNat_key small few] at apart
  unfold follows at apart
  split_ifs at apart <;> omega

theorem trim_of_le {held : BTreeMap UInt32 P} (few : held.size ≤ maxHeld) : trim held = held := by
  unfold trim
  rw [Nat.sub_eq_zero_of_le few]
  rfl

/-- What the first `count` packets leave. -/
structure Refilled (delay newest first : ℕ) (packets : ℕ → P) (count : ℕ) (jitter : Jitter P) : Prop where
  delay : jitter.delay = delay
  next : jitter.next = none
  newest : ∃ top, jitter.newest = some top ∧ top.toNat = peak newest first count
  size : jitter.held.size = count
  keys : ∀ s ∈ jitter.held, ∃ i < count, s = key first i
  held : ∀ i < count, jitter.held[key first i]? = some (packets i)

/-- The number a release gives a packet. -/
def given (jitter : Jitter P) (seq : UInt16) : UInt32 := jitter.unwrap (m := Id) seq

/-- The buffer with a packet under its number. -/
def take (jitter : Jitter P) (s : UInt32) (packet : P) : Jitter P :=
  { jitter with newest := some (jitter.newest.elim s (max · s)), held := trim (jitter.held.insert s packet) }

theorem release_push (jitter : Jitter P) (seq : UInt16) (packet : P) :
    jitter.release (.push seq packet) =
      if jitter.next.any (jitter.given seq < ·) then jitter else jitter.take (jitter.given seq) packet := by
  unfold release Jitter.call push given
  simp only [bind, pure]
  split <;> rfl

theorem Refilled.push {newest d delay count : ℕ} {packets : ℕ → P} (high : 65536 ≤ newest) (below : newest < 2 ^ 32)
    (short : d < 65536) (few : count < 100)
    (before : jitter.Refilled delay newest (unwrapped newest d) packets count) {seq : ℕ}
    (apart : seq % 65536 = (newest + d) % 65536) :
    (jitter.release (.push (.ofNat (seq + count)) (packets count))).Refilled delay newest (unwrapped newest d) packets
      (count + 1) := by
  have small := unwrapped_lt below short
  obtain ⟨top, seen, value⟩ := before.newest
  have climbs : 65536 ≤ top.toNat := by
    rw [value]
    cases count with
    | zero => exact high
    | succ count => rw [peak]; omega
  have numbered : (UInt16.ofNat (seq + count)).toNat = (newest + d + count) % 65536 := by
    rw [UInt16.toNat_ofNat']
    omega
  have same : jitter.given (.ofNat (seq + count)) = key (unwrapped newest d) count := by
    refine UInt32.toNat_inj.mp ?_
    rw [given, toNat_unwrap seen climbs, numbered, value, unwrapped_peak high below short few, toNat_key small (by omega)]
  rw [release_push, same, before.next, if_neg (by simp)]
  have fresh : key (unwrapped newest d) count ∉ jitter.held := by
    intro member
    obtain ⟨i, less, same⟩ := before.keys _ member
    exact key_ne small (by omega) less same.symm
  have size : (jitter.held.insert (key (unwrapped newest d) count) (packets count)).size = count + 1 := by
    rw [Std.ExtTreeMap.size_insert, if_neg (by simpa using fresh), before.size]
  unfold take
  rw [trim_of_le (by rw [size]; unfold maxHeld; omega)]
  refine ⟨before.delay, before.next, ⟨_, rfl, ?_⟩, size, fun s member => ?_, fun i less => ?_⟩
  · rw [seen, Option.elim_some, toNat_max, value, toNat_key small (by omega)]
    exact max_peak small (by omega)
  · obtain same | held := Std.ExtTreeMap.mem_insert.mp member
    · exact ⟨count, Nat.lt_succ_self _, (Std.LawfulEqCmp.compare_eq_iff_eq.mp same).symm⟩
    · obtain ⟨i, less, same⟩ := before.keys s held
      exact ⟨i, Nat.lt_succ_of_lt less, same⟩
  · rw [Std.ExtTreeMap.getElem?_insert]
    obtain less | rfl := Nat.lt_succ_iff_lt_or_eq.mp less
    · rw [if_neg, before.held i less]
      intro same
      exact key_ne small (by omega) less (Std.LawfulEqCmp.compare_eq_iff_eq.mp same).symm
    · rw [if_pos (Std.LawfulEqCmp.compare_eq_iff_eq.mpr rfl)]

theorem refilled {newest delay : ℕ} (pause : ℕ) {packets : ℕ → P} (high : 65536 ≤ newest) (below : newest < 2 ^ 32)
    (start : jitter.Refilled delay newest (unwrapped newest (pause % 65536)) packets 0) :
    ∀ count ≤ 100, (jitter.refill (newest + pause) packets count).Refilled delay newest
      (unwrapped newest (pause % 65536)) packets count
  | 0, _ => start
  | count + 1, few => by
    have before := refilled pause high below start count (by omega)
    have last : jitter.refill (newest + pause) packets (count + 1) =
        (jitter.refill (newest + pause) packets count).release (.push (.ofNat (newest + pause + count)) (packets count)) := by
      unfold refill
      rw [List.range_succ, List.map_append]
      exact run_snoc _ _ _ _
    rw [last]
    exact before.push high below (Nat.mod_lt _ (by decide)) (by omega) (by omega)

/-- Which packet a tick plays is which one is held when its turn comes. -/
theorem playTurn_play (jitter : Jitter P) (held : BTreeMap UInt32 P) (next after : UInt32) {packet : P} :
    (jitter.playTurn held next after).1 = .play packet ↔ held[next]? = some packet := by
  unfold playTurn
  split
  · rename_i other present
    rw [present, Option.some.injEq]
    exact ⟨Slot.play.inj, congrArg _⟩
  · rename_i absent
    rw [absent]
    refine iff_of_false ?_ nofun
    split
    · nofun
    · cases held[after]? <;> nofun

/-- The turn a release comes to. -/
def turnOf (first newest delay : ℕ) : ℕ :=
  if (first + (delay + 6)) % 2 ^ 32 < (newest + 1) % 2 ^ 32 then ((newest + 1) % 2 ^ 32 + 2 ^ 32 - delay) % 2 ^ 32
  else first

theorem turn_play {first newest : UInt32} {packet : P} (small : jitter.delay ≤ maxHeld)
    (seen : jitter.newest = some newest) :
    (jitter.turn (m := Id) first).2[(jitter.turn (m := Id) first).1]? = some packet ↔
      jitter.held[UInt32.ofNat (turnOf first.toNat newest.toNat jitter.delay)]? = some packet := by
  unfold maxHeld at small
  have delay : (UInt32.ofNat jitter.delay).toNat = jitter.delay :=
    UInt32.toNat_ofNat_of_lt (by unfold UInt32.size; omega)
  have span : (UInt32.ofNat (jitter.delay + catchUp)).toNat = jitter.delay + 6 :=
    UInt32.toNat_ofNat_of_lt (by unfold catchUp UInt32.size; omega)
  have bound : (newest + 1).toNat = (newest.toNat + 1) % 2 ^ 32 := UInt32.toNat_add _ _
  have reach : (first + UInt32.ofNat (jitter.delay + catchUp)).toNat = (first.toNat + (jitter.delay + 6)) % 2 ^ 32 := by
    rw [UInt32.toNat_add, span]
  unfold turn turnOf
  rw [seen]
  simp only [bind, pure, Arithmetic.add, Arithmetic.sub]
  by_cases skips : first + UInt32.ofNat (jitter.delay + catchUp) < newest + 1
  · have less := UInt32.lt_iff_toNat_lt.mp skips
    rw [reach, bound] at less
    have start : newest + 1 - UInt32.ofNat jitter.delay =
        UInt32.ofNat (((newest.toNat + 1) % 2 ^ 32 + 2 ^ 32 - jitter.delay) % 2 ^ 32) := by
      refine UInt32.toNat_inj.mp ?_
      rw [UInt32.toNat_sub, bound, delay, UInt32.toNat_ofNat']
      omega
    rw [if_pos skips, if_pos less, ← start, Std.ExtTreeMap.getElem?_filter', Option.filter_eq_some_iff]
    simp
  · have least : ¬(first.toNat + (jitter.delay + 6)) % 2 ^ 32 < (newest.toNat + 1) % 2 ^ 32 := by
      rw [← reach, ← bound]
      exact fun less => skips (UInt32.lt_iff_toNat_lt.mpr less)
    rw [if_neg skips, if_neg least, UInt32.ofNat_toNat]

theorem pop_play {first newest : UInt32} (packet : P) (small : jitter.delay ≤ maxHeld) (waits : jitter.next = none)
    (enough : jitter.delay ≤ jitter.held.size) (least : jitter.held.keys.head? = some first)
    (seen : jitter.newest = some newest) :
    (jitter.pop (m := Id)).1 = .play packet ↔
      jitter.held[UInt32.ofNat (turnOf first.toNat newest.toNat jitter.delay)]? = some packet := by
  rw [← turn_play small seen, ← playTurn_play jitter _ _ ((jitter.turn (m := Id) first).1 + 1)]
  unfold pop
  rw [waits]
  simp only [if_neg (Nat.not_lt.mpr enough), least, Option.getD_some]
  rfl

/-- The packet a refilled buffer starts with: the first, or the one that went around. -/
def lead (first delay : ℕ) : ℕ := if first + delay ≤ 2 ^ 32 then 0 else 2 ^ 32 - first

theorem Refilled.least {newest first delay : ℕ} {packets : ℕ → P} (small : first < 2 ^ 32) (positive : 1 ≤ delay)
    (few : delay ≤ 100) (refilled : jitter.Refilled delay newest first packets delay) :
    jitter.held.keys.head? = some (key first (lead first delay)) := by
  have leads : lead first delay < delay := by
    unfold lead
    split_ifs <;> omega
  rw [← Std.ExtTreeMap.minKey?_eq_head?_keys, Std.ExtTreeMap.minKey?_eq_some_iff_mem_and_forall]
  refine ⟨Std.ExtTreeMap.mem_iff_isSome_getElem?.mpr (by rw [refilled.held _ leads]; rfl), fun s member => ?_⟩
  obtain ⟨i, less, rfl⟩ := refilled.keys s member
  rw [Std.LawfulOrderOrd.isLE_compare, UInt32.le_iff_toNat_le, toNat_key small (by omega), toNat_key small (by omega)]
  unfold lead at leads ⊢
  unfold follows
  split_ifs at leads ⊢ <;> omega

/-- The turn of the first pop, `delay` packets after the first. -/
def turnAfter (newest first delay : ℕ) : ℕ :=
  turnOf (follows first (lead first delay)) (peak newest first delay) delay

theorem turnAfter_lt {newest first delay : ℕ} (small : first < 2 ^ 32) : turnAfter newest first delay < 2 ^ 32 := by
  unfold turnAfter turnOf
  split
  · exact Nat.mod_lt _ (by decide)
  · unfold follows lead
    split_ifs <;> omega

theorem Refilled.pop {newest first delay : ℕ} {packets : ℕ → P} {packet : P} (small : first < 2 ^ 32)
    (positive : 1 ≤ delay) (few : delay ≤ maxHeld) (refilled : jitter.Refilled delay newest first packets delay) :
    (jitter.pop (m := Id)).1 = .play packet ↔
      jitter.held[UInt32.ofNat (turnAfter newest first delay)]? = some packet := by
  obtain ⟨top, peaked, value⟩ := refilled.newest
  have short : lead first delay ≤ 100 := by
    unfold maxHeld at few
    unfold lead
    split_ifs <;> omega
  have popped := pop_play packet (by rwa [refilled.delay]) refilled.next
    (by rw [refilled.delay, refilled.size]) (refilled.least small positive few) peaked
  rwa [refilled.delay, value, toNat_key small short] at popped

/-- A buffer resumes where the turn it comes to is that of the first packet. -/
theorem resumes_iff_turn {jitter : Jitter (List UInt8)} {newest : UInt32} (pause : ℕ) (high : 65536 ≤ newest.toNat)
    (positive : 1 ≤ jitter.delay) (small : jitter.delay ≤ maxHeld) (waits : jitter.next = none)
    (empty : jitter.held = ∅) (seen : jitter.newest = some newest) :
    jitter.Resumes newest pause ↔
      turnAfter newest.toNat (unwrapped newest.toNat (pause % 65536)) jitter.delay =
        unwrapped newest.toNat (pause % 65536) := by
  have below := newest.toNat_lt
  have first := unwrapped_lt below (Nat.mod_lt pause (show 0 < 65536 by decide))
  have start (packets : ℕ → List UInt8) :
      jitter.Refilled jitter.delay newest.toNat (unwrapped newest.toNat (pause % 65536)) packets 0 :=
    ⟨rfl, waits, ⟨newest, seen, rfl⟩, by rw [empty]; rfl, by simp [empty], nofun⟩
  have after (packets : ℕ → List UInt8) := refilled pause high below (start packets) jitter.delay small
  generalize unwrapped newest.toNat (pause % 65536) = s at first after
  have same : follows s 0 = s := if_pos first
  constructor
  · intro resumes
    -- packets that tell the first from the others
    let packets : ℕ → List UInt8 := fun i => if i = 0 then [1] else []
    have held := ((after packets).pop first positive small).mp (resumes packets)
    obtain ⟨i, less, turn⟩ := (after packets).keys _ (Std.ExtTreeMap.mem_iff_isSome_getElem?.mpr (by rw [held]; rfl))
    have packet : packets i = packets 0 := Option.some.inj (((after packets).held i less).symm.trans (turn ▸ held))
    have zero : i = 0 := by
      by_contra later
      simp [packets, later] at packet
    have number := congrArg UInt32.toNat turn
    rw [zero, toNat_key first (by decide), same] at number
    exact (UInt32.toNat_ofNat_of_lt (turnAfter_lt first)).symm.trans number
  · intro turn packets
    refine ((after packets).pop first positive small).mpr ?_
    have number : UInt32.ofNat (turnAfter newest.toNat s jitter.delay) = key s 0 := by rw [turn, key, same]
    rw [number]
    exact (after packets).held 0 positive

/-- What a silence comes to: the packets fit below the end of the range, and the newest number seen is
not so far above the first of them that it is skipped. -/
theorem heard_iff {newest delay pause : ℕ} (high : 65536 ≤ newest) (positive : 1 ≤ delay) :
    Heard newest delay pause ↔ unwrapped newest (pause % 65536) + delay ≤ 2 ^ 32 ∧
      (newest < unwrapped newest (pause % 65536) + delay ∨ newest = 2 ^ 32 - 1 ∨
        newest ≤ unwrapped newest (pause % 65536) + delay + 5 ∧
          unwrapped newest (pause % 65536) + delay + 6 < 2 ^ 32) := by
  have short : pause % 65536 < 65536 := Nat.mod_lt _ (by decide)
  unfold Heard unwrapped
  generalize pause % 65536 = d at short ⊢
  by_cases forward : d < 32768 ∧ newest + d < 2 ^ 32
  · rw [if_pos forward, if_pos forward]
    omega
  · rw [if_neg forward, if_neg forward]
    omega

theorem turnAfter_eq_iff {newest first delay : ℕ} (below : newest < 2 ^ 32) (small : first < 2 ^ 32)
    (positive : 1 ≤ delay) (few : delay ≤ 100) :
    turnAfter newest first delay = first ↔ first + delay ≤ 2 ^ 32 ∧
      (newest < first + delay ∨ newest = 2 ^ 32 - 1 ∨ newest ≤ first + delay + 5 ∧ first + delay + 6 < 2 ^ 32) := by
  obtain ⟨k, rfl⟩ := Nat.exists_eq_add_of_le' positive
  unfold turnAfter
  rw [peak]
  by_cases room : first + (k + 1) ≤ 2 ^ 32
  · have start : follows first (lead first (k + 1)) = first := by
      rw [lead, if_pos room, follows, add_zero, if_pos small]
    rw [start]
    unfold turnOf
    split_ifs <;> omega
  · have start : follows first (lead first (k + 1)) = 2 ^ 32 - 65536 := by
      rw [lead, if_neg room, follows, if_neg (by omega)]
      omega
    rw [start]
    unfold turnOf
    split_ifs <;> omega

theorem resumes_iff_heard {jitter : Jitter (List UInt8)} {newest : UInt32} (pause : ℕ) (high : 65536 ≤ newest.toNat)
    (positive : 1 ≤ jitter.delay) (small : jitter.delay ≤ maxHeld) (waits : jitter.next = none)
    (empty : jitter.held = ∅) (seen : jitter.newest = some newest) :
    jitter.Resumes newest pause ↔ Heard newest.toNat jitter.delay pause := by
  have below := newest.toNat_lt
  have first := unwrapped_lt below (Nat.mod_lt pause (show 0 < 65536 by decide))
  rw [resumes_iff_turn pause high positive small waits empty seen, turnAfter_eq_iff below first positive small,
    heard_iff high positive]

/-- What every call of a release keeps. -/
structure Based (delay : ℕ) (jitter : Jitter P) : Prop where
  delay : jitter.delay = delay
  high : ∀ newest ∈ jitter.newest, 65536 ≤ newest.toNat

theorem playTurn_kept (jitter : Jitter P) (held : BTreeMap UInt32 P) (next after : UInt32) :
    (jitter.playTurn held next after).2.delay = jitter.delay ∧
      (jitter.playTurn held next after).2.newest = jitter.newest := by
  unfold playTurn
  split
  · exact ⟨rfl, rfl⟩
  · split
    · exact ⟨rfl, rfl⟩
    · exact ⟨rfl, rfl⟩

theorem release_pop (jitter : Jitter P) :
    (jitter.release .pop).delay = jitter.delay ∧ (jitter.release .pop).newest = jitter.newest := by
  unfold release Jitter.call pop
  cases jitter.next with
  | some next => exact playTurn_kept _ _ _ _
  | none =>
    by_cases few : jitter.held.size < jitter.delay
    · simp only [few, ↓reduceIte]
      exact ⟨rfl, rfl⟩
    · simp only [few, ↓reduceIte]
      exact playTurn_kept _ _ _ _

theorem Based.release {delay : ℕ} (based : jitter.Based delay) (call : Call P) : (jitter.release call).Based delay := by
  cases call with
  | pop =>
    obtain ⟨same, seen⟩ := release_pop jitter
    exact ⟨same.trans based.delay, seen ▸ based.high⟩
  | push seq packet =>
    rw [release_push]
    split
    · exact based
    · refine ⟨based.delay, ?_⟩
      rintro _ ⟨⟩
      obtain ⟨least, further⟩ := toNat_newest jitter.newest (jitter.given seq)
      cases seen : jitter.newest with
      | some newest => exact (based.high newest seen).trans (seen ▸ further newest seen)
      | none =>
        have short := seq.toNat_lt
        have first : jitter.given seq = seq.toUInt32 + 65536 := by
          unfold given unwrap
          rw [seen]
          rfl
        have value : (seq.toUInt32 + 65536).toNat = (seq.toNat + 65536) % 2 ^ 32 := by
          rw [UInt32.toNat_add, UInt16.toNat_toUInt32]
          rfl
        rw [Option.elim_none, first, value]
        omega

theorem based_run {delay : ℕ} (based : jitter.Based delay) (calls : List (Call P)) :
    (Lib.Runs.run release jitter calls).Based delay := by
  induction calls generalizing jitter with
  | nil => exact based
  | cons call rest ih => exact ih (based.release call)

/-- A buffer that has started over plays the first of the packets after a silence if the silence is
heard as a short one. -/
theorem resumes_iff {delay pause : ℕ} {newest : UInt32} {calls : List (Call (List UInt8))} (positive : 1 ≤ delay)
    (small : delay ≤ maxHeld) (waits : (Lib.Runs.run release (new delay) calls).next = none)
    (empty : (Lib.Runs.run release (new delay) calls).held = ∅)
    (seen : (Lib.Runs.run release (new delay) calls).newest = some newest) :
    (Lib.Runs.run release (new delay) calls).Resumes newest pause ↔ Heard newest.toNat delay pause := by
  have start : (new delay : Jitter (List UInt8)).Based delay := ⟨max_eq_left positive, nofun⟩
  have based := based_run start calls
  have same := resumes_iff_heard pause (based.high newest seen) (by rwa [based.delay]) (by rwa [based.delay]) waits empty seen
  rwa [based.delay] at same

/-- Three packets, and the buffer runs dry. -/
def threePackets : List (Call (List UInt8)) :=
  [.push 0 [0], .push 1 [1], .push 2 [2], .pop, .pop, .pop, .pop, .pop, .pop]

theorem threePackets_over : (Lib.Runs.run release (new 3) threePackets).next = none ∧
    (Lib.Runs.run release (new 3) threePackets).held = ∅ ∧
    (Lib.Runs.run release (new 3) threePackets).newest = some 65538 :=
  ⟨by decide, Std.ExtTreeMap.isEmpty_iff.mp (by decide), by decide⟩

theorem resumes_threePackets : (Lib.Runs.run release (new 3) threePackets).Resumes 65538 1 := by
  obtain ⟨waits, empty, seen⟩ := threePackets_over
  exact (resumes_iff (by decide) (by decide) waits empty seen).mpr (by unfold Heard; decide)

/-- A silence of half a round: the packets after it are taken for old ones, and skipped. -/
theorem deaf_after_half_a_round : ¬∀ (delay pause : ℕ) (newest : UInt32) (calls : List (Call (List UInt8))),
    1 ≤ delay → delay ≤ maxHeld → 1 ≤ pause → (Lib.Runs.run release (new delay) calls).next = none →
      (Lib.Runs.run release (new delay) calls).held = ∅ →
      (Lib.Runs.run release (new delay) calls).newest = some newest →
      (Lib.Runs.run release (new delay) calls).Resumes newest pause := by
  intro always
  obtain ⟨waits, empty, seen⟩ := threePackets_over
  have resumes := always 3 32768 65538 threePackets (by decide) (by decide) (by decide) waits empty seen
  have start : (new 3 : Jitter (List UInt8)).Based 3 := ⟨rfl, nofun⟩
  have delay := (based_run start threePackets).delay
  have same := resumes_iff_heard 32768 (by decide) (by rw [delay]; decide) (by rw [delay]; decide) waits empty seen
  have heard := same.mp resumes
  rw [delay] at heard
  exact absurd heard (by unfold Heard; decide)

end HitEnter.Calls.Jitter
