import HitEnter.Node.Compact
import HitEnter.Node.Effects

/-! Other people's letters: how long they are kept. They go by when they arrived, and are
refused by their own date; and whose a letter is, is read off the text of its tags here
and off the key they spell everywhere else. -/

namespace HitEnter.Node

open Wire HitEnter.Group Lib.Checks

section Expiry
variable [NostrEvents]

/-- Is the text of `person` the value of a `p` tag of the wrap? -/
def namesPerson (wrap : Event) (person : PublicKey) : Bool := (tagRows wrap).contains ("p", Nostr.toHex person)

namespace Inner

/-- When a row was stored, as its column holds it. -/
def arrivedAt (node : Inner) (ev : Event) : ℤ := column ((node.received[ev.id]?).getD 0)

/-- `kind = 1059 AND received_at < ? AND id NOT IN (SELECT event_id FROM tags ..)`. -/
def expires (node : Inner) (me : PublicKey) (before : UInt64) (ev : Event) : Bool :=
  ev.kind == giftWrap && node.arrivedAt ev < min (before.toNat : ℤ) (2 ^ 63 - 1) && !namesPerson ev me

/-- Drops the wraps addressed to anyone but `me` that arrived before `before`. -/
def expireWraps (node : Inner) (me : PublicKey) (before : UInt64) : Inner :=
  node.remove ((node.store.events.filter (node.expires me before)).map Event.id)

/-- Seven days before `now`, or the start of time. -/
def inboxCut (now : Timestamp) : UInt64 := UInt64.ofNat (now.secs.toNat - inboxKeepSecs.toNat)

/-- Drops the DMs kept for others that arrived over a week ago, at most once a minute. -/
def expireInboxIfDue (node : Inner) (last : Option Instant) (clock : Instant) (now : Timestamp) :
    Inner × Option Instant :=
  if last.any fun l => clock < l + 60 * 10 ^ 9 then (node, last)
  else (node.expireWraps node.groups.me (inboxCut now), some clock)

variable {node : Inner} {wrap : Event} {me : PublicKey} {before : UInt64}

theorem mem_expireWraps (held : wrap ∈ node.store.events) :
    wrap ∈ (node.expireWraps me before).store.events ↔ node.expires me before wrap = false := by
  have ids : wrap.id ∈ (node.store.events.filter (node.expires me before)).map Event.id ↔
      node.expires me before wrap = true := by
    constructor
    · intro listed
      obtain ⟨row, here, same⟩ := List.mem_map.mp listed
      obtain ⟨member, due⟩ := List.mem_filter.mp here
      exact node.store.eq_of_id member held same ▸ due
    · exact fun due => List.mem_map_of_mem (List.mem_filter.mpr ⟨held, due⟩)
  rw [expireWraps, remove, Store.mem_remove, ids, Bool.not_eq_true]
  exact and_iff_right held

/-! ### Whose they are -/

theorem arrivedAt_le (node : Inner) (ev : Event) : node.arrivedAt ev ≤ 2 ^ 63 - 1 := by
  have bound := BitVec.toInt_lt (x := ((node.received[ev.id]?).getD 0).secs.toBitVec)
  unfold arrivedAt column
  omega

/-- The wraps to `me` all stay and the others that arrived before all go, if and only if each
wrap that arrived before has the text of `me` in a `p` tag just when `me` is whom it is for;
where one arrived in the last second a column has, whatever it says, it has to be for `me`. -/
theorem expireWraps_iff (node : Inner) (me : PublicKey) (before : UInt64) :
    ((∀ wrap ∈ node.store.events, wrap.kind = giftWrap → recipientOf wrap = some me →
        wrap ∈ (node.expireWraps me before).store.events) ∧
      ∀ wrap ∈ node.store.events, wrap.kind = giftWrap → ∀ other ≠ me, recipientOf wrap = some other →
        node.arrivedAt wrap < before.toNat → wrap ∉ (node.expireWraps me before).store.events) ↔
    ∀ wrap ∈ node.store.events, wrap.kind = giftWrap → ∀ person, recipientOf wrap = some person →
      node.arrivedAt wrap < before.toNat →
        if node.arrivedAt wrap = 2 ^ 63 - 1 then person = me else (namesPerson wrap me = true ↔ person = me) := by
  rw [← forall₂_and]
  refine forall₂_congr fun wrap held => ?_
  rw [← forall_and]
  refine forall_congr' fun kind => ?_
  have last := node.arrivedAt_le wrap
  have due : node.expires me before wrap = true ↔ node.arrivedAt wrap < before.toNat ∧
      node.arrivedAt wrap ≠ 2 ^ 63 - 1 ∧ namesPerson wrap me = false := by
    simp only [expires, kind, beq_self_eq_true, Bool.true_and, Bool.and_eq_true, decide_eq_true_eq, Bool.not_eq_true',
      lt_min_iff, and_assoc]
    refine and_congr_right fun _ => and_congr_left fun _ => ?_
    omega
  rw [mem_expireWraps held, ← Bool.not_eq_true, due]
  constructor
  · rintro ⟨own, others⟩ person addressed early
    split
    · rename_i top
      by_contra other
      exact others person other addressed early fun ⟨_, inTime, _⟩ => inTime top
    · rename_i inTime
      constructor
      · intro named
        by_contra other
        exact others person other addressed early fun ⟨_, _, unnamed⟩ => by simp [named] at unnamed
      · rintro rfl
        by_contra unnamed
        exact own addressed ⟨early, inTime, by simpa using unnamed⟩
  · intro told
    constructor
    · rintro addressed ⟨early, inTime, unnamed⟩
      have named := told me addressed early
      rw [if_neg inTime] at named
      simp [named.mpr rfl] at unnamed
    · intro other differs addressed early kept
      have named := told other addressed early
      split at named
      · exact differs named
      · rename_i inTime
        exact kept ⟨early, inTime, by simpa [differs] using named⟩

/-! ### How long they are kept -/

section Stale
variable (saturates : ∀ (date : Timestamp) (secs : UInt64),
  (Nostr.add date secs).toNat = min (date.toNat + secs.toNat) (2 ^ 64 - 1))

/-- Of a wrap for somebody else that is neither ahead of the clock nor too large, only the
date decides whether it is stale. -/
theorem judge_stale_iff {gs : Groups} {now : Timestamp} {recipient : PublicKey} (kind : wrap.kind = giftWrap)
    (due : wrap.createdAt ≤ Nostr.add now maxClockSkew) (small : (Lib.Hex.bytes wrap.content).length ≤ maxWrapBytes)
    (addressed : recipientOf wrap = some recipient) (other : recipient ≠ gs.me) :
    gs.judge wrap now = .error .stale ↔ wrap.createdAt.secs + inboxKeepSecs < now.secs := by
  have carried : carriedKinds.contains wrap.kind = true := by
    rw [kind]
    decide
  have early : decide (Nostr.add now maxClockSkew < wrap.createdAt) = false := by simpa using due
  have fits : decide (maxWrapBytes < (Lib.Hex.bytes wrap.content).length) = false := by simpa using small
  have another : (recipient != gs.me) = true := by simpa using other
  have first : gs.judge wrap now = gs.judgeWrap wrap now := by
    unfold Groups.judge
    rw [carried, early, if_pos kind]
    rfl
  have second : gs.judgeWrap wrap now = (do
      refuseIf (decide (wrap.createdAt.secs + inboxKeepSecs < now.secs)) .stale
      refuseIf (!gs.keepsDmsFor gs.me recipient) .notOurs
      return .store) := by
    unfold Groups.judgeWrap
    rw [fits, addressed, refuseIf_false_bind, orRefuse_some_bind, another, Bool.true_and]
  have passes : (refuseIf (!gs.keepsDmsFor gs.me recipient) Refusal.notOurs >>= fun _ => pure Judgement.store) ≠
      .error .stale := by
    cases gs.keepsDmsFor gs.me recipient <;> simp [refuseIf, bind, Except.bind, pure, Except.pure]
  rw [first, second]
  by_cases old : wrap.createdAt.secs + inboxKeepSecs < now.secs
  · rw [decide_eq_true old]
    exact iff_of_true rfl old
  · rw [decide_eq_false old, refuseIf_false_bind]
    exact iff_of_false passes old

theorem judge_wrap_ok {gs : Groups} {now : Timestamp} {judgement : Judgement} (kind : wrap.kind = giftWrap)
    (ok : gs.judge wrap now = .ok judgement) : wrap.createdAt ≤ Nostr.add now maxClockSkew ∧
      (Lib.Hex.bytes wrap.content).length ≤ maxWrapBytes := by
  simp only [Groups.judge, bind_eq_ok, refuseIf_eq_ok, if_pos kind, Groups.judgeWrap, decide_eq_false_iff_not,
    not_lt] at ok
  obtain ⟨_, _, _, due, _, small, _⟩ := ok
  exact ⟨due, small⟩

private theorem expires_iff {now arrival : Timestamp} (held : wrap ∈ node.store.events) (kind : wrap.kind = giftWrap)
    (arrived : node.received[wrap.id]? = some arrival) :
    (∃ last clock, wrap ∉ (node.expireInboxIfDue last clock now).1.store.events) ↔
      column arrival < min ((now.secs.toNat - inboxKeepSecs.toNat : ℕ) : ℤ) (2 ^ 63 - 1) ∧
        namesPerson wrap node.groups.me = false := by
  have cut : (inboxCut now).toNat = now.secs.toNat - inboxKeepSecs.toNat := by
    have small : now.secs.toNat < 2 ^ 64 := now.secs.toNat_lt
    rw [inboxCut, UInt64.toNat_ofNat_of_lt' (by simp only [UInt64.size]; omega)]
  have due : node.expires node.groups.me (inboxCut now) wrap = true ↔
      column arrival < min ((now.secs.toNat - inboxKeepSecs.toNat : ℕ) : ℤ) (2 ^ 63 - 1) ∧
        namesPerson wrap node.groups.me = false := by
    unfold expires arrivedAt
    rw [arrived, Option.getD_some, cut, kind]
    simp only [beq_self_eq_true, Bool.true_and, Bool.and_eq_true, decide_eq_true_eq, Bool.not_eq_true']
  rw [← due]
  constructor
  · rintro ⟨last, clock, gone⟩
    unfold expireInboxIfDue at gone
    split at gone
    · exact absurd held gone
    · rwa [mem_expireWraps held, Bool.not_eq_false] at gone
  · intro expired
    refine ⟨none, 0, ?_⟩
    change wrap ∉ (node.expireWraps node.groups.me (inboxCut now)).store.events
    rw [mem_expireWraps held, expired]
    exact Bool.noConfusion

include saturates in
/-- A wrap kept for somebody else is refused as stale from when it may be let go on, if and
only if it is dated no later than it arrived; or it is never let go. -/
theorem expired_stale_iff {recipient : PublicKey} {arrival : Timestamp} {gs : Groups} {judgement : Judgement}
    (held : wrap ∈ node.store.events) (kind : wrap.kind = giftWrap) (addressed : recipientOf wrap = some recipient)
    (other : recipient ≠ node.groups.me) (arrived : node.received[wrap.id]? = some arrival)
    (own : gs.me = node.groups.me) (accepted : gs.judge wrap arrival = .ok judgement) :
    (∀ last clock now, arrival ≤ now → wrap ∉ (node.expireInboxIfDue last clock now).1.store.events →
      ∀ later, now ≤ later → ∀ gs' : Groups, gs'.me = node.groups.me → gs'.judge wrap later = .error .stale) ↔
    inColumn arrival = true ∧ wrap.createdAt ≤ arrival ∨ arrival.toNat = 2 ^ 63 - 1 ∨
      namesPerson wrap node.groups.me = true := by
  obtain ⟨due, small⟩ := judge_wrap_ok kind accepted
  have leeway : (Nostr.add arrival maxClockSkew).toNat = min (arrival.toNat + 600) (2 ^ 64 - 1) := saturates _ _
  have dated : wrap.createdAt.toNat ≤ (Nostr.add arrival maxClockSkew).toNat := due
  have keep : inboxKeepSecs.toNat = 604800 := rfl
  have stale : ∀ {gs' : Groups} {now : Timestamp}, arrival ≤ now → arrival.toNat < 2 ^ 63 → gs'.me = node.groups.me →
      (gs'.judge wrap now = .error .stale ↔ wrap.createdAt.toNat + 604800 < now.toNat) := by
    intro gs' now passed range same
    have sum : (wrap.createdAt.secs + inboxKeepSecs).toNat = wrap.createdAt.toNat + 604800 := by
      rw [UInt64.toNat_add, keep]
      exact Nat.mod_eq_of_lt (by change wrap.createdAt.toNat + 604800 < 2 ^ 64; omega)
    rw [judge_stale_iff kind (due.trans (add_le_add saturates passed _)) small addressed (same ▸ other), UInt64.lt_iff_toNat_lt, sum]
    rfl
  constructor
  · intro always
    by_cases named : namesPerson wrap node.groups.me = true
    · exact .inr (.inr named)
    by_cases range : inColumn arrival = true
    · by_cases top : arrival.toNat = 2 ^ 63 - 1
      · exact .inr (.inl top)
      have inside : arrival.toNat < 2 ^ 63 := of_decide_eq_true range
      -- The first moment at which it may be let go.
      let first : Timestamp := ⟨UInt64.ofNat (arrival.toNat + 604801)⟩
      have value : first.toNat = arrival.toNat + 604801 :=
        UInt64.toNat_ofNat_of_lt' (by simp only [UInt64.size]; omega)
      have passed : arrival ≤ first := by
        change arrival.toNat ≤ first.toNat
        omega
      have due : column arrival < min ((first.secs.toNat - inboxKeepSecs.toNat : ℕ) : ℤ) (2 ^ 63 - 1) := by
        have seconds : first.secs.toNat = arrival.toNat + 604801 := value
        rw [column_of_inColumn range, keep, seconds]
        change (arrival.toNat : ℤ) < _
        omega
      obtain ⟨last, clock, gone⟩ := (expires_iff held kind arrived).mpr ⟨due, by simpa using named⟩
      have old := (stale passed inside own).mp (always last clock first passed gone first le_rfl gs own)
      refine .inl ⟨range, ?_⟩
      change wrap.createdAt.toNat ≤ arrival.toNat
      omega
    · have negative : column arrival < 0 := column_neg (by simpa using range)
      have due : column arrival < min ((arrival.secs.toNat - inboxKeepSecs.toNat : ℕ) : ℤ) (2 ^ 63 - 1) := by omega
      obtain ⟨last, clock, gone⟩ := (expires_iff held kind arrived).mpr ⟨due, by simpa using named⟩
      have refused := always last clock arrival le_rfl gone arrival le_rfl gs own
      simp [accepted] at refused
  · rintro kept last clock now passed gone later further gs' same
    obtain ⟨due, unnamed⟩ := (expires_iff held kind arrived).mp ⟨last, clock, gone⟩
    rcases kept with ⟨range, early⟩ | top | named
    · rw [column_of_inColumn range, keep] at due
      have inside : arrival.toNat < 2 ^ 63 := of_decide_eq_true range
      refine (stale (passed.trans further) inside same).mpr ?_
      have before : wrap.createdAt.toNat ≤ arrival.toNat := early
      have after : now.toNat ≤ later.toNat := further
      change (arrival.toNat : ℤ) < min ((now.toNat - 604800 : ℕ) : ℤ) _ at due
      omega
    · have range : inColumn arrival = true := by
        have value : arrival.secs.toNat = 2 ^ 63 - 1 := top
        simp [inColumn, value]
      rw [column_of_inColumn range] at due
      change (arrival.toNat : ℤ) < _ at due
      omega
    · simp [named] at unnamed

end Stale

end Inner

end Expiry

/-- Someone whose key has a letter in its text. -/
def scribe : PublicKey := ⟨11⟩

def scribesNode : Inner := .start {} [] scribe 600

/-- A letter to them, whose tag is in capitals. -/
def letterAloud : Event :=
  signed ⟨99⟩ 550 giftWrap [["p", .ofList (List.replicate 63 '0' ++ ['B'])]] "a letter"

/-- Their own letter, taken in as theirs, is let go. -/
theorem letterAloud_expires : recipientOf letterAloud = some scribe ∧
    (scribesNode.groups.judge letterAloud 600).toOption = some .store ∧
    letterAloud ∈ (scribesNode.insert letterAloud 600).1.store.events ∧
    letterAloud ∉ ((scribesNode.insert letterAloud 600).1.expireWraps scribe 601).store.events := by
  decide +kernel

/-- An anchor of the guest's. -/
def anchorNode : Inner :=
  { scribesNode with groups := scribesNode.groups.setInboxes guest (.ofList [scribe]) }

/-- A letter to the guest. -/
def guestsLetter (date : Timestamp) : Event := signed ⟨99⟩ date giftWrap [["p", Nostr.toHex guest]] "a letter"

theorem guestsLetter_stale : anchorNode.groups.judge (guestsLetter 600) 605401 = .error .stale := by
  have accepted : (anchorNode.groups.judge (guestsLetter 600) 600).toOption = some .store := by decide +kernel
  have stored : guestsLetter 600 ∈ (anchorNode.insert (guestsLetter 600) 600).1.store.events := by decide +kernel
  have dated : (anchorNode.insert (guestsLetter 600) 600).1.received[(guestsLetter 600).id]? = some 600 := by
    decide +kernel
  have gone : guestsLetter 600 ∉
      ((anchorNode.insert (guestsLetter 600) 600).1.expireInboxIfDue none 0 605401).1.store.events := by decide +kernel
  cases judged : anchorNode.groups.judge (guestsLetter 600) 600 with
  | error refusal => simp [judged, Except.toOption] at accepted
  | ok judgement =>
    exact (Inner.expired_stale_iff toNat_plainAdd stored rfl (show recipientOf (guestsLetter 600) = some guest by decide +kernel) (by decide +kernel)
      dated rfl judged).mpr (.inl ⟨by decide, le_rfl⟩) none 0 605401 (by decide) gone 605401 le_rfl anchorNode.groups rfl

/-- Dated as far ahead as a clock may be, it is let go and taken in again. -/
theorem guestsLetter_returns : (anchorNode.groups.judge (guestsLetter 1200) 600).toOption = some .store ∧
    guestsLetter 1200 ∈ (anchorNode.insert (guestsLetter 1200) 600).1.store.events ∧
    guestsLetter 1200 ∉
      ((anchorNode.insert (guestsLetter 1200) 600).1.expireInboxIfDue none 0 605401).1.store.events ∧
    (anchorNode.groups.judge (guestsLetter 1200) 605401).toOption = some .store := by
  decide +kernel

end HitEnter.Node
