import HitEnter.Group.History
import HitEnter.Group.Judge

/-! The newcomer's wait. A join date is kept exactly as long as the join is the
latest way its person came in, and in a public group it keeps them from posting. -/

namespace HitEnter.Group

open Wire Lib.Checks

section Run
variable [Nostr] {group : PublicKey} {events : List Event} {done : List Try} {s : GroupState} {p : PublicKey}

/-- Is this an accepted put or join that made `p` a member? -/
def Try.isEntry (p : PublicKey) (step : Try) : Bool :=
  match step.turn p with
  | some (.enter _) => true
  | _ => false

/-- The latest entry of `p`. -/
def lastEntry (p : PublicKey) (done : List Try) : Option Try := latest (Try.isEntry p) done

/-- Whether `p` is in, and by a join dated `t`. -/
def JoinedAt (p : PublicKey) (done : List Try) (member : Bool) (t : Timestamp) : Prop :=
  member = true ∧ ∃ entry, lastEntry p done = some entry ∧ entry.turn p = some (.enter true) ∧
    entry.2.createdAt = t

private theorem lastEntry_snoc (step : Try) :
    lastEntry p (done ++ [step]) = if step.isEntry p then some step else lastEntry p done :=
  latest_snoc _ done step

/-- The record has the date of a join exactly while it is the latest entry. -/
private def Dated (p : PublicKey) (done : List Try) (r : Record) : Prop :=
  ∀ t, r.joined = some t ↔ JoinedAt p done r.member t

private theorem dated (ran : Ran group events done s) (p : PublicKey) : Dated p done (s.record p) := by
  refine ran.record_induction ?_ ?_ ?_
  · intro first found t
    simp [start_joined found, JoinedAt, lastEntry, latest]
  · intro done step r so_far idle t
    have other : step.isEntry p = false := by simp [Try.isEntry, idle]
    rw [so_far t, JoinedAt, JoinedAt, lastEntry_snoc, other]
    rfl
  · intro done s ev turn _ _ _ taken so_far t
    rw [JoinedAt, lastEntry_snoc]
    cases turn with
    | enter joined =>
      have unset : (s.record p).joined = none := by
        have stranger : (s.record p).member = false := stranger_of_turn taken
        refine Option.eq_none_iff_forall_not_mem.mpr fun t set => ?_
        have inside := ((so_far t).mp set).1
        simp [stranger] at inside
      have entry : Try.isEntry p (s, ev) = true := by simp [Try.isEntry, taken]
      cases joined with
      | true => simp [entry, taken, Record.turn]
      | false => simp [entry, taken, Record.turn, unset]
    | exit =>
      cases member : (s.record p).member with
      | true => simp [Record.turn, member]
      | false =>
        have unset := so_far t
        simp only [member, JoinedAt, Bool.false_eq_true, false_and, iff_false] at unset
        simpa [Record.turn, member] using unset
    | mute until_ =>
      have kept := so_far t
      have other : Try.isEntry p (s, ev) = false := by simp [Try.isEntry, taken]
      cases until_ with
      | none => rw [other]; exact kept
      | some u =>
        rw [other]
        simp only [Record.turn]
        split <;> exact kept

end Run

private theorem newcomerWaitNow_isPublic {s : GroupState} (open_ : s.isPublic = true) :
    s.newcomerWaitNow = max s.newcomerWait publicNewcomerFloor := by
  simp [GroupState.newcomerWaitNow, open_]

private theorem floor_ne_zero (wait : UInt32) : max wait publicNewcomerFloor ≠ 0 := by
  change (if wait ≤ publicNewcomerFloor then publicNewcomerFloor else wait) ≠ 0
  split
  · decide
  · rename_i above
    rintro rfl
    exact above (by decide)

section Judge
variable [NostrEvents] {group : PublicKey} {events : List Event} {s : GroupState} {p : PublicKey} {t : Timestamp}

/-- In a public group a newcomer posts nothing dated within the wait. -/
private theorem postsFrom_newcomer (open_ : s.isPublic = true) (joined : s.joined[p]? = some t)
    {date : Timestamp} (early : date < Nostr.add t (max s.newcomerWait publicNewcomerFloor).toUInt64) :
    s.postsFrom p date = some (Nostr.add t (max s.newcomerWait publicNewcomerFloor).toUInt64) := by
  simp [GroupState.postsFrom, newcomerWaitNow_isPublic open_, floor_ne_zero, joined, Option.filter, early]

private theorem judgeMessage_newcomer {msg : Event} (waiting : s.postsFrom msg.pubkey msg.createdAt = some from_) :
    s.judgeMessage msg ≠ .ok () := by
  intro ok
  simp [GroupState.judgeMessage, waiting] at ok

/-- A person's join date is that of the join they are in by, if they are in by
one; and while a public group has it, nothing they post within the wait passes. -/
theorem newcomer_wait (found : GroupState.fold group events = some s) (p : PublicKey) (t : Timestamp) :
    (s.joined[p]? = some t ↔ s.isMember p = true ∧ ∃ entry, lastEntry p (tries group events) = some entry ∧
      entry.turn p = some (.enter true) ∧ entry.2.createdAt = t) ∧
      (s.isPublic = true → s.joined[p]? = some t → ∀ msg : Event, msg.pubkey = p →
        msg.createdAt < Nostr.add t (max s.newcomerWait publicNewcomerFloor).toUInt64 →
          s.judgeMessage msg ≠ .ok () ∧ s.judgeReaction msg ≠ .ok ()) := by
  refine ⟨dated (fold_ran found) p t, ?_⟩
  rintro open_ joined msg rfl early
  have refused := judgeMessage_newcomer (postsFrom_newcomer open_ joined early)
  refine ⟨refused, fun ok => ?_⟩
  simp only [GroupState.judgeReaction, bind_eq_ok] at ok
  obtain ⟨_, _, ok⟩ := ok
  exact refused ok

end Judge

theorem newcomer_wait_youngClub : ∃ s, GroupState.fold club youngClub = some s ∧
    (∃ entry, lastEntry guest (tries club youngClub) = some entry ∧ entry.2.createdAt = 110) ∧
      s.judgeMessage (signed guest 400 chatMessage [Draft.h club, ["channel", "general"]] "hello") ≠ .ok () := by
  have facts : ((GroupState.fold club youngClub).any fun s =>
      s.isPublic && decide (s.joined[guest]? = some 110) &&
        decide ((400 : Timestamp) < Nostr.add 110 (max s.newcomerWait publicNewcomerFloor).toUInt64)) = true := by
    decide +kernel
  obtain ⟨s, found, checks⟩ := (Option.any_eq_true _ _).mp facts
  simp only [Bool.and_eq_true, decide_eq_true_eq] at checks
  obtain ⟨⟨open_, joined⟩, early⟩ := checks
  obtain ⟨dated, refused⟩ := newcomer_wait found guest 110
  obtain ⟨_, entry, last, _, date⟩ := dated.mp joined
  exact ⟨s, found, ⟨entry, last, date⟩, (refused open_ joined _ rfl early).1⟩

end HitEnter.Group
