import HitEnter.Group.Invariant
import HitEnter.Lib.Log

/-! The fold as the history of one person. What a state remembers about someone's
standing is a small record, and each try either leaves it alone or takes one of
a few turns; the record of a state is what the turns before it make of the first. -/

namespace HitEnter.Group

open Wire Lib.Rounds Lib.Checks

/-- What an action can do to a person: bring them in, by a join of their own or
not, take them out, or mute them (`none` lifts a mute). -/
inductive Turn where
  | enter (joined : Bool)
  | exit
  | mute (until_ : Option Timestamp)
deriving DecidableEq

/-- What a state remembers about a person's standing. -/
@[ext]
structure Record where
  member : Bool
  muted : Option Timestamp
  joined : Option Timestamp
  spans : List Silence

/-- Open removal spans end. -/
def reopen (date : Timestamp) (spans : List Silence) : List Silence :=
  spans.map fun span =>
    if span.mute = false ∧ span.until_ = none then { span with until_ := some date } else span

/-- Mutes running at `date` end there. -/
def cutShort (date : Timestamp) (spans : List Silence) : List Silence :=
  spans.map fun span =>
    if span.mute = true ∧ span.covers date then { span with until_ := some date } else span

def Record.turn (p : PublicKey) (date : Timestamp) (r : Record) : Turn → Record
  | .enter joined =>
    { r with
      member := true
      joined := if joined then some date else r.joined
      spans := reopen date r.spans }
  | .exit =>
    { member := false
      muted := if r.member then none else r.muted
      joined := if r.member then none else r.joined
      spans := r.spans ++ [{ who := p, since := date, until_ := none, mute := false }] }
  | .mute none => { r with muted := none, spans := cutShort date r.spans }
  | .mute (some u) =>
    if date < u then
      { r with
        muted := some u
        spans := cutShort date r.spans ++ [{ who := p, since := date, until_ := some u, mute := true }] }
    else { r with spans := cutShort date r.spans }

namespace GroupState

def record (s : GroupState) (p : PublicKey) : Record where
  member := s.isMember p
  muted := s.mutes[p]?
  joined := s.joined[p]?
  spans := s.spansOf p

/-! ### One action, one person -/

section Act
variable {s : GroupState} {actor target p : PublicKey} {date : Timestamp}

private theorem filter_own_map {spans : List Silence} {change own : Silence → Silence}
    (owner : ∀ span, (change span).who = span.who) (same : ∀ span, span.who = p → change span = own span) :
    (spans.map change).filter (·.who = p) = (spans.filter (·.who = p)).map own := by
  induction spans with
  | nil => rfl
  | cons span rest ih =>
    simp only [List.map_cons, List.filter_cons, owner, ih]
    split
    · rename_i mine
      rw [List.map_cons, same span (by simpa using mine)]
    · rfl

private theorem record_letBackIn : (s.letBackIn target date).record p =
    if target = p then { s.record p with spans := reopen date (s.record p).spans } else s.record p := by
  split
  · rename_i same
    subst same
    refine Record.ext rfl rfl rfl (filter_own_map (fun span => by split <;> rfl) fun span mine => ?_)
    simp [mine]
  · rename_i other
    exact Record.ext rfl rfl rfl (spansOf_letBackIn (Ne.symm other))

private theorem record_endMutes : (s.endMutes target date).record p =
    if target = p then { s.record p with spans := cutShort date (s.record p).spans } else s.record p := by
  split
  · rename_i same
    subst same
    refine Record.ext rfl rfl rfl (filter_own_map (fun span => by split <;> rfl) fun span mine => ?_)
    simp [mine]
  · rename_i other
    exact Record.ext rfl rfl rfl (spansOf_endMutes (Ne.symm other))

private theorem record_silence {until_ : Option Timestamp} {mute : Bool} :
    (s.silence target date until_ mute).record p =
      if target = p then
        { s.record p with spans := (s.record p).spans ++ [{ who := p, since := date, until_, mute }] }
      else s.record p := by
  split
  · rename_i same
    subst same
    exact Record.ext rfl rfl rfl (by simp [record, spansOf, silence])
  · rename_i other
    exact Record.ext rfl rfl rfl (spansOf_silence (Ne.symm other))

private theorem record_insert {held : BTreeSet String} :
    { s with members := s.members.insert target held }.record p =
      if target = p then { s.record p with member := true } else s.record p := by
  split
  · rename_i same
    exact Record.ext (by simp [record, isMember, same]) rfl rfl rfl
  · rename_i other
    refine Record.ext ?_ rfl rfl rfl
    simp [record, isMember, Std.ExtTreeMap.contains_insert, other]

theorem record_applyPut (roles : BTreeSet String) :
    (s.applyPut actor date target roles).1.record p =
      if target = p ∧ (s.applyPut actor date target roles).2.isOk ∧ s.isMember p = false then
        (s.record p).turn p date (.enter false)
      else s.record p := by
  unfold applyPut checked
  cases s.checkPut actor target roles with
  | error refusal => simp [Except.isOk, Except.toBool]
  | ok wanted =>
    simp only [Except.isOk, Except.toBool, true_and, record_insert]
    by_cases same : target = p
    · subst same
      cases member : s.members.contains target with
      | true => simp [isMember, member, record]
      | false => simp [isMember, member, record_letBackIn, Record.turn]
    · simp only [same, ↓reduceIte, false_and]
      split
      · rfl
      · rw [record_letBackIn, if_neg same]

private theorem record_erase :
    { s with
      members := s.members.erase target
      mutes := s.mutes.erase target
      joined := s.joined.erase target }.record p =
      if target = p then { s.record p with member := false, muted := none, joined := none }
      else s.record p := by
  split
  · rename_i same
    subst same
    exact Record.ext (by simp [record, isMember]) (by simp [record]) (by simp [record]) rfl
  · rename_i other
    refine Record.ext ?_ ?_ ?_ rfl
    · simp [record, isMember, Std.ExtTreeMap.contains_erase, other]
    · simp [record, Std.ExtTreeMap.getElem?_erase, other]
    · simp [record, Std.ExtTreeMap.getElem?_erase, other]

theorem record_applyRemove (ban : Bool) :
    (s.applyRemove actor date target ban).1.record p =
      if target = p ∧ (s.applyRemove actor date target ban).2.isOk then (s.record p).turn p date .exit
      else s.record p := by
  unfold applyRemove checked
  cases check : s.checkRemove actor target ban with
  | error refusal => simp [Except.isOk, Except.toBool]
  | ok _ =>
    have silenced : (s.members.contains target || ban) = true := by
      simpa using (checkRemove_ok check).2.1
    have unbanned (t : GroupState) : (if ban then { t with bans := t.bans.insert target } else t).record p =
        t.record p := by
      split <;> rfl
    simp only [Except.isOk, Except.toBool, and_true, silenced, ↓reduceIte, unbanned, record_silence]
    by_cases same : target = p
    · subst same
      cases member : s.members.contains target with
      | true =>
        have here : (s.record target).member = true := member
        simp [record_erase, Record.turn, here]
      | false =>
        have gone : (s.record target).member = false := member
        simp [Record.turn, gone]
    · simp only [same, ↓reduceIte]
      split
      · rw [record_erase, if_neg same]
      · rfl

private theorem record_mutes (mutes : BTreeMap PublicKey Timestamp) :
    { s with mutes := mutes }.record p = { s.record p with muted := mutes[p]? } := rfl

theorem record_applyMute (until_ : Option Timestamp) :
    (s.applyMute actor date target until_).1.record p =
      if target = p ∧ (s.checkMute actor target).isOk then (s.record p).turn p date (.mute until_)
      else s.record p := by
  unfold applyMute
  cases check : s.checkMute actor target with
  | error refusal => simp [Except.isOk, Except.toBool]
  | ok _ =>
    simp only [Except.isOk, Except.toBool, and_true]
    cases until_ with
    | none =>
      -- a lift of no mute is refused, and leaves no mute all the same
      simp only
      split
      · rw [record_mutes, record_endMutes]
        split
        · rename_i same
          subst same
          simp [Record.turn, endMutes]
        · rename_i other
          refine Record.ext rfl ?_ rfl rfl
          simp [endMutes, Std.ExtTreeMap.getElem?_erase, other, record]
      · rename_i unmuted
        rw [record_endMutes]
        split
        · rename_i same
          subst same
          refine Record.ext rfl ?_ rfl rfl
          simpa [record, Record.turn, endMutes] using unmuted
        · rfl
    | some u =>
      simp only
      split
      · rename_i later
        rw [record_silence, record_mutes, record_endMutes]
        split
        · rename_i same
          subst same
          simp [Record.turn, later, endMutes]
        · rename_i other
          refine Record.ext rfl ?_ rfl rfl
          simp [endMutes, Std.ExtTreeMap.getElem?_insert, other, record]
      · rename_i notLater
        rw [record_endMutes]
        split
        · simp [Record.turn, notLater]
        · rfl

theorem record_applyJoin (code : Option String) :
    (s.applyJoin actor date code).1.record p =
      if actor = p ∧ (s.applyJoin actor date code).2.isOk then (s.record p).turn p date (.enter true)
      else s.record p := by
  unfold applyJoin checked
  cases s.checkJoin actor date code with
  | error refusal => simp [Except.isOk, Except.toBool]
  | ok _ =>
    simp only [Except.isOk, Except.toBool, and_true]
    have spans : ((s.letBackIn actor date).record p).spans = _ := congrArg Record.spans record_letBackIn
    split
    · rename_i same
      subst same
      rw [if_pos rfl] at spans
      refine Record.ext ?_ rfl ?_ spans
      · simp [record, isMember, Record.turn]
      · simp [record, Record.turn]
    · rename_i other
      rw [if_neg other] at spans
      refine Record.ext ?_ rfl ?_ spans
      · simp [record, isMember, letBackIn, Std.ExtTreeMap.contains_insert, other]
      · simp [record, letBackIn, Std.ExtTreeMap.getElem?_insert, other]

theorem record_applyLeave :
    (s.applyLeave actor date).1.record p =
      if actor = p ∧ (s.applyLeave actor date).2.isOk then (s.record p).turn p date .exit
      else s.record p := by
  unfold applyLeave checked
  cases check : s.checkLeave actor with
  | error refusal => simp [Except.isOk, Except.toBool]
  | ok _ =>
    simp only [Except.isOk, Except.toBool, and_true, record_silence, record_erase]
    simp only [checkLeave, bind_eq_ok, refuseIf_eq_ok, Bool.not_eq_false'] at check
    obtain ⟨_, _, member⟩ := check
    split
    · rename_i same
      subst same
      have here : (s.record actor).member = true := member
      simp [Record.turn, here]
    · rfl

theorem record_applyEdit (batch : List Edit) : (s.applyEdit actor batch).1.record p = s.record p := by
  unfold applyEdit checked
  split
  · rfl
  · rename_i next ran
    simp only [bind_eq_ok] at ran
    obtain ⟨_, _, ran⟩ := ran
    have changed := edits_ok ran
    exact Record.ext (changed.isMember p) (congrArg (·[p]?) changed.mutes) (congrArg (·[p]?) changed.joined)
      (congrArg (List.filter _) changed.silences)

end Act

end GroupState

/-! ### One try, one person -/

private theorem elim_ite {taken : Prop} [Decidable taken] (turn : Turn) (r : Record) (next : Turn → Record) :
    (if taken then some turn else none).elim r next = if taken then next turn else r := by
  split <;> rfl

section Tries
variable [Nostr]

/-- One try of the fold: the state it is made in, and the action. -/
abbrev Try := GroupState × Event

def Try.accepted (step : Try) : Bool := (step.1.attempt step.2).2

/-- What a try does to `p`. A mute that passed its checks ends the running one
whether or not it is refused then. -/
def Try.turn (p : PublicKey) (step : Try) : Option Turn :=
  match parseAction step.2 with
  | some (_, .put target _) =>
    if target = p ∧ step.accepted ∧ step.1.isMember p = false then some (.enter false) else none
  | some (_, .join _) => if step.2.pubkey = p ∧ step.accepted then some (.enter true) else none
  | some (_, .remove target _) => if target = p ∧ step.accepted then some .exit else none
  | some (_, .leave) => if step.2.pubkey = p ∧ step.accepted then some .exit else none
  | some (_, .mute target until_) =>
    if target = p ∧ (step.1.checkMute step.2.pubkey target).isOk then some (.mute until_) else none
  | _ => none

theorem attempt_record (s : GroupState) (ev : Event) (p : PublicKey) :
    (s.attempt ev).1.record p = (s.apply ev).1.record p := by
  unfold GroupState.attempt
  split
  · rename_i outcome
    rw [outcome]
    rfl
  · rename_i outcome
    rw [outcome]

theorem accepted_eq (s : GroupState) (ev : Event) : Try.accepted (s, ev) = (s.apply ev).2.isOk := by
  unfold Try.accepted GroupState.attempt
  split
  · rename_i outcome
    rw [outcome]
    rfl
  · rename_i outcome
    rw [outcome]
    rfl

/-- A try changes someone's record by the turn it takes. -/
theorem record_attempt (s : GroupState) (ev : Event) (p : PublicKey) :
    (s.attempt ev).1.record p =
      (Try.turn p (s, ev)).elim (s.record p) ((s.record p).turn p ev.createdAt) := by
  rw [attempt_record]
  unfold Try.turn
  simp only [accepted_eq, GroupState.apply]
  cases read : parseAction ev with
  | none => rfl
  | some pair =>
    obtain ⟨group, action⟩ := pair
    cases action with
    | put target roles => rw [elim_ite]; exact GroupState.record_applyPut roles
    | remove target ban => rw [elim_ite]; exact GroupState.record_applyRemove ban
    | unban target =>
      simp only [GroupState.act, GroupState.applyUnban, GroupState.checked]
      split <;> rfl
    | mute target until_ => rw [elim_ite]; exact GroupState.record_applyMute until_
    | edit batch => exact GroupState.record_applyEdit batch
    | join code => rw [elim_ite]; exact GroupState.record_applyJoin code
    | leave => rw [elim_ite]; exact GroupState.record_applyLeave
    | invite code expires => rfl

/-- Whoever a try brings in was not a member. -/
theorem stranger_of_turn {s : GroupState} {ev : Event} {p : PublicKey} {joined : Bool}
    (turn : Try.turn p (s, ev) = some (.enter joined)) : s.isMember p = false := by
  unfold Try.turn at turn
  simp only at turn
  split at turn
  case h_1 =>
    simp only [Option.ite_none_right_eq_some] at turn
    exact turn.1.2.2
  case h_2 code read =>
    simp only [Option.ite_none_right_eq_some, accepted_eq, GroupState.apply, read, GroupState.act,
      GroupState.applyJoin, GroupState.checked] at turn
    obtain ⟨⟨rfl, ok⟩, _⟩ := turn
    cases check : s.checkJoin ev.pubkey ev.createdAt code with
    | error refusal => simp [check, Except.isOk, Except.toBool] at ok
    | ok _ =>
      simp only [GroupState.checkJoin, bind_eq_ok, refuseIf_eq_ok] at check
      obtain ⟨_, stranger, _⟩ := check
      exact stranger
  all_goals simp at turn

/-- Only a member is muted. -/
theorem member_of_turn {s : GroupState} {ev : Event} {p : PublicKey} {until_ : Option Timestamp}
    (turn : Try.turn p (s, ev) = some (.mute until_)) : s.isMember p = true := by
  unfold Try.turn at turn
  simp only at turn
  split at turn
  case h_5 target until_ read =>
    simp only [Option.ite_none_right_eq_some] at turn
    obtain ⟨⟨rfl, ok⟩, _⟩ := turn
    cases check : s.checkMute ev.pubkey target with
    | error refusal => simp [check, Except.isOk, Except.toBool] at ok
    | ok _ => exact (GroupState.checkMute_ok check).2.1
  all_goals simp at turn

/-- The last try that `pick` picks. -/
def latest (pick : Try → Bool) (done : List Try) : Option Try := (done.filter pick).getLast?

omit [Nostr] in
theorem latest_snoc (pick : Try → Bool) (done : List Try) (step : Try) :
    latest pick (done ++ [step]) = if pick step then some step else latest pick done := by
  unfold latest
  rw [List.filter_append]
  split
  · rename_i picked
    simp [picked]
  · rename_i other
    simp [other]

/-! ### The run -/

/-- What the fold tries, in order; what is refused within a second is tried again. -/
def tries (group : PublicKey) (events : List Event) : List Try :=
  (GroupState.start group events).elim [] fun s =>
    (runBatches (logged GroupState.attempt) Event.createdAt (s, []) (GroupState.live group events s.cutoff)).2

/-- The states the fold goes through, each with the tries behind it: live actions,
none dated before an earlier one. -/
inductive Ran (group : PublicKey) (events : List Event) : List Try → GroupState → Prop where
  | start (found : GroupState.start group events = some s) : Ran group events [] s
  | attempt (earlier : Ran group events done s) (member : ev ∈ GroupState.live group events s.cutoff)
      (due : ∀ step ∈ done, step.2.createdAt ≤ ev.createdAt) :
      Ran group events (done ++ [(s, ev)]) (s.attempt ev).1

variable {group : PublicKey} {events : List Event} {done : List Try} {s : GroupState}

/-- The fold ends where its tries lead. -/
theorem fold_ran (found : GroupState.fold group events = some s) : Ran group events (tries group events) s := by
  unfold GroupState.fold at found
  simp only [Option.bind_eq_bind, Option.bind_eq_some_iff, Option.pure_def, Option.some.injEq] at found
  obtain ⟨first, begun, rfl⟩ := found
  let items := GroupState.live group events first.cutoff
  obtain ⟨dates, increasing, covers⟩ := GroupState.exists_dates items
  have sorted := GroupState.live_sorted group events first.cutoff
  have along : ∀ log t, Logs GroupState.attempt Event.createdAt items first log t →
      Ran group events log t ∧ t.cutoff = first.cutoff := by
    intro log t logs
    induction logs with
    | nil => exact ⟨.start begun, rfl⟩
    | snoc front member due ih =>
      refine ⟨.attempt ih.1 (ih.2 ▸ member) due, ?_⟩
      exact (GroupState.attempt_kept _ _).cutoff.trans ih.2
  have logs : Logs GroupState.attempt Event.createdAt items first _ _ := runDates_logs increasing first
  have ended := (along _ _ logs).1
  rw [runDates_logged_fst] at ended
  simp only [tries, begun, Option.elim_some]
  rw [runBatches_eq_runDates sorted increasing covers, runBatches_eq_runDates sorted increasing covers]
  exact ended

/-- The rule for one person: their record begins with the fold and changes only
by the turns its tries take. -/
theorem Ran.record_induction {p : PublicKey} {Inv : List Try → Record → Prop} (ran : Ran group events done s)
    (initial : ∀ first, GroupState.start group events = some first → Inv [] (first.record p))
    (idle : ∀ done step r, Inv done r → Try.turn p step = none → Inv (done ++ [step]) r)
    (turned : ∀ done s ev turn, Ran group events done s → (∀ step ∈ done, step.2.createdAt ≤ ev.createdAt) →
      s.cutoff ≤ ev.createdAt → Try.turn p (s, ev) = some turn → Inv done (s.record p) →
        Inv (done ++ [(s, ev)]) ((s.record p).turn p ev.createdAt turn)) :
    Inv done (s.record p) := by
  induction ran with
  | start found => exact initial _ found
  | attempt earlier member due ih =>
    rename_i done s ev
    rw [record_attempt]
    cases turn : Try.turn p (s, ev) with
    | none => exact idle done (s, ev) _ ih turn
    | some turn' => exact turned done s ev turn' earlier due (GroupState.mem_live.mp member).2.2.2 turn ih

theorem Ran.reached (ran : Ran group events done s) : GroupState.Reached group events s := by
  induction ran with
  | start found => exact .start found
  | attempt earlier member due ih => exact .attempt ih member

theorem Ran.cutoff {first : GroupState} (ran : Ran group events done s)
    (begun : GroupState.start group events = some first) : s.cutoff = first.cutoff := by
  obtain ⟨first', begun', kept⟩ := ran.reached.kept
  obtain rfl : first' = first := Option.some.inj (begun'.symm.trans begun)
  exact kept.cutoff

theorem Ran.live (ran : Ran group events done s) :
    ∀ step ∈ done, step.2 ∈ GroupState.live group events s.cutoff := by
  induction ran with
  | start found => simp
  | attempt earlier member due ih =>
    rename_i done s ev
    intro step here
    rw [(GroupState.attempt_kept s ev).cutoff]
    rcases List.mem_append.mp here with old | new
    · exact ih step old
    · rw [List.mem_singleton.mp new]
      exact member

/-- A person's spans to begin with are the mute the snapshot carries. -/
theorem mem_start_spans {p : PublicKey} {span : Silence} (found : GroupState.start group events = some s) :
    span ∈ (s.record p).spans ↔ ∃ u, s.mutes[p]? = some u ∧ s.cutoff < u ∧
      span = { who := p, since := s.cutoff, until_ := some u, mute := true } := by
  obtain ⟨w, invites, _, rfl⟩ := start_winners found
  simp only [GroupState.record, GroupState.spansOf, Winners.state, mutesFrom, List.mem_filter,
    List.mem_filterMap, Prod.exists, Std.ExtTreeMap.mem_toList_iff_getElem?_eq_some, Option.ite_none_right_eq_some,
    Option.some.injEq, decide_eq_true_eq]
  constructor
  · rintro ⟨⟨q, u, muted, later, rfl⟩, rfl⟩
    exact ⟨u, muted, later, rfl⟩
  · rintro ⟨u, muted, later, rfl⟩
    exact ⟨⟨p, u, muted, later, rfl⟩, rfl⟩

theorem start_joined {p : PublicKey} (found : GroupState.start group events = some s) :
    (s.record p).joined = none := by
  obtain ⟨w, invites, _, rfl⟩ := start_winners found
  simp [GroupState.record, Winners.state]

end Tries

/-- A guest is muted at 120 until 500, leaves at 130 and is back at 140. -/
def returningClub : List Event :=
  genesis founder club "club" true 100 ++
    [(Draft.joinPublic club).sign guest 110, (Draft.muteUser club guest (some 500)).sign founder 120,
      (Draft.leave club).sign guest 130, (Draft.joinPublic club).sign guest 140]

end HitEnter.Group
