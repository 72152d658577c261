import HitEnter.Group.Run

/-! What the fold is about, without its books: two states that agree on it judge
every action alike, and go on agreeing, as long as the same doors stand open for
those who join. -/

namespace HitEnter.Group

open Wire Lib.Checks Lib.Rounds

/-- A group as its members see it. -/
structure Core where
  name : String
  isPublic : Bool
  newcomerWait : UInt32
  about : String
  owner : Option PublicKey
  channels : List Channel
  overrides : List Override
  roles : BTreeMap String RoleDef
  members : BTreeMap PublicKey (BTreeSet String)
  bans : BTreeSet PublicKey
  mutes : BTreeMap PublicKey Timestamp

/-- A state with nothing else in it. -/
def Core.bare (c : Core) : GroupState where
  __ := c
  __ := GroupState.blank ⟨0⟩

namespace GroupState

def core (s : GroupState) : Core where
  name := s.name
  isPublic := s.isPublic
  newcomerWait := s.newcomerWait
  about := s.about
  owner := s.owner
  channels := s.channels
  overrides := s.overrides
  roles := s.roles
  members := s.members
  bans := s.bans
  mutes := s.mutes

variable {s t : GroupState} {actor : PublicKey} {date : Timestamp}

/-! ### Actions -/

private theorem edit_core (next before : GroupState) (actor : PublicKey) (e : Edit) :
    core <$> next.edit before actor e = core <$> next.core.bare.edit before.core.bare actor e := by
  cases e <;> simp only [edit, map_bind, map_pure] <;> rfl

private theorem edits_core (same : s.core = t.core) (batch : List Edit) :
    core <$> s.edits actor batch = core <$> t.edits actor batch := by
  suffices general : ∀ next next' : GroupState, next.core = next'.core →
      core <$> batch.foldlM (fun next e => next.edit s actor e) next =
        core <$> batch.foldlM (fun next e => next.edit t actor e) next' from general s t same
  induction batch with
  | nil =>
    intro next next' alike
    simp [alike]
  | cons e rest ih =>
    intro next next' alike
    have step : core <$> next.edit s actor e = core <$> next'.edit t actor e := by
      rw [edit_core, edit_core next', same, alike]
    simp only [List.foldlM_cons]
    rcases map_eq_map step with ⟨refusal, here, there⟩ | ⟨after, after', here, there, near⟩
    · rw [here, there]
      rfl
    · rw [here, there]
      exact ih after after' near

private theorem checked_congr {check check' : Except Refusal α} {write write' : α → GroupState}
    (same : s.core = t.core) (checks : check = check')
    (writes : ∀ value, (write value).core = (write' value).core) :
    (s.checked check write).2 = (t.checked check' write').2 ∧
      (s.checked check write).1.core = (t.checked check' write').1.core := by
  subst checks
  cases check with
  | error refusal => exact ⟨rfl, same⟩
  | ok value => exact ⟨rfl, writes value⟩

private theorem applyPut_congr (same : s.core = t.core) (target : PublicKey) (roles : BTreeSet String) :
    (s.applyPut actor date target roles).2 = (t.applyPut actor date target roles).2 ∧
      (s.applyPut actor date target roles).1.core = (t.applyPut actor date target roles).1.core := by
  refine checked_congr same (congrArg (fun c => c.bare.checkPut actor target roles) same) fun wanted => ?_
  have written (s : GroupState) : (if s.members.contains target then s else s.letBackIn target date).core = s.core := by
    split <;> rfl
  exact congrArg (fun c : Core => { c with members := c.members.insert target wanted })
    ((written s).trans (same.trans (written t).symm))

private theorem applyRemove_congr (same : s.core = t.core) (target : PublicKey) (ban : Bool) :
    (s.applyRemove actor date target ban).2 = (t.applyRemove actor date target ban).2 ∧
      (s.applyRemove actor date target ban).1.core = (t.applyRemove actor date target ban).1.core := by
  refine checked_congr same (congrArg (fun c => c.bare.checkRemove actor target ban) same) fun _ => ?_
  have member : s.members.contains target = t.members.contains target :=
    congrArg (fun c : Core => c.members.contains target) same
  simp only [member]
  cases t.members.contains target <;> cases ban
  · exact same
  · exact congrArg (fun c : Core => { c with bans := c.bans.insert target }) same
  · exact congrArg (fun c : Core => { c with
      members := c.members.erase target
      mutes := c.mutes.erase target }) same
  · exact congrArg (fun c : Core => { c with
      members := c.members.erase target
      mutes := c.mutes.erase target
      bans := c.bans.insert target }) same

private theorem applyMute_congr (same : s.core = t.core) (target : PublicKey) (until_ : Option Timestamp) :
    (s.applyMute actor date target until_).2 = (t.applyMute actor date target until_).2 ∧
      (s.applyMute actor date target until_).1.core = (t.applyMute actor date target until_).1.core := by
  have checks : s.checkMute actor target = t.checkMute actor target :=
    congrArg (fun c => c.bare.checkMute actor target) same
  unfold applyMute
  rw [checks]
  cases t.checkMute actor target with
  | error refusal => exact ⟨rfl, same⟩
  | ok _ =>
    cases until_ with
    | none =>
      have running : (s.endMutes target date).mutes.contains target = (t.endMutes target date).mutes.contains target :=
        congrArg (fun c : Core => c.mutes.contains target) same
      simp only [running]
      split
      · exact ⟨rfl, congrArg (fun c : Core => { c with mutes := c.mutes.erase target }) same⟩
      · exact ⟨rfl, same⟩
    | some u =>
      simp only
      split
      · exact ⟨rfl, congrArg (fun c : Core => { c with mutes := c.mutes.insert target u }) same⟩
      · exact ⟨rfl, same⟩

private theorem applyEdit_congr (same : s.core = t.core) (batch : List Edit) :
    (s.applyEdit actor batch).2 = (t.applyEdit actor batch).2 ∧
      (s.applyEdit actor batch).1.core = (t.applyEdit actor batch).1.core := by
  have member : s.requireMember actor = t.requireMember actor :=
    congrArg (fun c => c.bare.requireMember actor) same
  have ran : core <$> (do s.requireMember actor; s.edits actor batch) =
      core <$> (do t.requireMember actor; t.edits actor batch) := by
    simp only [map_bind, member, edits_core same batch]
  unfold applyEdit
  rcases map_eq_map ran with ⟨refusal, here, there⟩ | ⟨after, after', here, there, near⟩
  · rw [here, there]
    exact ⟨rfl, same⟩
  · rw [here, there]
    exact ⟨rfl, near⟩

/-- States with the same core judge an action alike and agree afterwards, when a
join finds the same door. -/
theorem act_congr (same : s.core = t.core) (action : Action)
    (door : ∀ code, action = .join code → s.honours code date = t.honours code date) :
    (s.act actor date action).2 = (t.act actor date action).2 ∧
      (s.act actor date action).1.core = (t.act actor date action).1.core := by
  cases action with
  | put target roles => exact applyPut_congr same target roles
  | remove target ban => exact applyRemove_congr same target ban
  | unban target =>
    refine checked_congr same (congrArg (fun c => c.bare.checkUnban actor target) same) fun _ => ?_
    exact congrArg (fun c : Core => { c with bans := c.bans.erase target }) same
  | mute target until_ => exact applyMute_congr same target until_
  | edit batch => exact applyEdit_congr same batch
  | join code =>
    have checks : s.checkJoin actor date code = t.checkJoin actor date code := by
      have members : s.members.contains actor = t.members.contains actor :=
        congrArg (fun c : Core => c.members.contains actor) same
      have bans : s.bans.contains actor = t.bans.contains actor :=
        congrArg (fun c : Core => c.bans.contains actor) same
      simp only [checkJoin, members, bans, door code rfl]
    refine checked_congr same checks fun _ => ?_
    exact congrArg (fun c : Core => { c with members := c.members.insert actor ∅ }) same
  | leave =>
    refine checked_congr same (congrArg (fun c => c.bare.checkLeave actor) same) fun _ => ?_
    exact congrArg (fun c : Core => { c with members := c.members.erase actor, mutes := c.mutes.erase actor }) same
  | invite code expires => exact ⟨rfl, same⟩

/-! ### Doors -/

section Doors
variable [Nostr] {ev : Event} {actions others : List Event}

/-- The code and the invite that `ev` records. -/
def inviteOf (ev : Event) : Option (String × Invite) :=
  if ev.kind = createInvite then
    match parseAction ev with
    | some (_, .invite code expires) =>
      some (code, { author := ev.pubkey, createdAt := ev.createdAt, expires := expires })
    | _ => none
  else none

/-- `ev` is an invite that admits with `code` at `date`, if its author may invite. -/
def Opens (ev : Event) (code : String) (date : Timestamp) : Prop :=
  ∃ invite, inviteOf ev = some (code, invite) ∧ invite.createdAt ≤ date ∧
    invite.expires.all (fun e => date ≤ e) = true

private theorem recordInvite_eq (invites : BTreeMap String (List Invite)) (ev : Event) :
    recordInvite invites ev = (inviteOf ev).elim invites fun entry =>
      invites.insert entry.1 ((invites[entry.1]?).getD [] ++ [entry.2]) := by
  unfold recordInvite inviteOf
  by_cases invite : ev.kind = createInvite
  · rw [if_pos invite, if_pos invite]
    cases parseAction ev with
    | none => rfl
    | some parsed =>
      obtain ⟨g, action⟩ := parsed
      cases action <;> rfl
  · rw [if_neg invite, if_neg invite]
    rfl

theorem inviteOf_some {code : String} {invite : Invite} (found : inviteOf ev = some (code, invite)) :
    ev.kind = createInvite ∧ invite.author = ev.pubkey ∧ invite.createdAt = ev.createdAt ∧
      ∃ g, parseAction ev = some (g, .invite code invite.expires) := by
  unfold inviteOf at found
  split at found
  · rename_i kind
    split at found
    · rename_i read
      cases found
      exact ⟨kind, rfl, rfl, _, read⟩
    · cases found
  · cases found

theorem mem_recorded {code : String} {invite : Invite} :
    invite ∈ ((actions.foldl recordInvite ∅)[code]?).getD [] ↔
      ∃ ev ∈ actions, inviteOf ev = some (code, invite) := by
  suffices general : ∀ invites : BTreeMap String (List Invite),
      invite ∈ ((actions.foldl recordInvite invites)[code]?).getD [] ↔
        invite ∈ (invites[code]?).getD [] ∨ ∃ ev ∈ actions, inviteOf ev = some (code, invite) by
    simpa using general ∅
  induction actions with
  | nil => simp
  | cons ev rest ih =>
    intro invites
    rw [List.foldl_cons, ih, recordInvite_eq]
    cases here : inviteOf ev with
    | none => simp [here]
    | some entry =>
      obtain ⟨c, i⟩ := entry
      by_cases same : c = code
      · subst same
        simp [here, or_assoc, eq_comm]
      · simp [here, same, Std.ExtTreeMap.getElem?_insert]

/-- A join with a code finds a recorded invite that is open and whose author may
invite. -/
theorem honours_some {code : String} (books : s.invites = actions.foldl recordInvite ∅) :
    s.honours (some code) date = true ↔ ∃ ev ∈ actions, Opens ev code date ∧
      (s.base ev.pubkey).contains .createInvite = true := by
  have listed : s.honours (some code) date = true ↔
      ∃ invite ∈ (s.invites[code]?).getD [], s.honouredBy date invite = true := by
    unfold honours
    cases found : s.invites[code]? <;> simp [found]
  rw [listed, books]
  constructor
  · rintro ⟨invite, member, honoured⟩
    obtain ⟨ev, here, found⟩ := mem_recorded.mp member
    simp only [honouredBy, (inviteOf_some found).2.1, Bool.and_eq_true, decide_eq_true_eq] at honoured
    exact ⟨ev, here, ⟨invite, found, honoured.1⟩, honoured.2⟩
  · rintro ⟨ev, here, ⟨invite, found, started, running⟩, may⟩
    refine ⟨invite, mem_recorded.mpr ⟨ev, here, found⟩, ?_⟩
    simp [honouredBy, (inviteOf_some found).2.1, started, running, may]

theorem honours_congr (same : s.core = t.core) (here : s.invites = actions.foldl recordInvite ∅)
    (there : t.invites = others.foldl recordInvite ∅) {code : Option String}
    (doors : ∀ c, code = some c → ∀ ev, Opens ev c date → (ev ∈ actions ↔ ev ∈ others)) :
    s.honours code date = t.honours code date := by
  cases code with
  | none => exact congrArg Core.isPublic same
  | some c =>
    have bases : ∀ p, s.base p = t.base p := fun p => congrArg (fun c => c.bare.base p) same
    rw [Bool.eq_iff_iff, honours_some here, honours_some there]
    refine exists_congr fun ev => ?_
    rw [bases]
    constructor
    · rintro ⟨member, opening, may⟩
      exact ⟨(doors c rfl ev opening).mp member, opening, may⟩
    · rintro ⟨member, opening, may⟩
      exact ⟨(doors c rfl ev opening).mpr member, opening, may⟩

/-! ### Tries -/

theorem attempt_congr (same : s.core = t.core)
    (door : ∀ g code, parseAction ev = some (g, .join code) →
      s.honours code ev.createdAt = t.honours code ev.createdAt) :
    (s.attempt ev).2 = (t.attempt ev).2 ∧ (s.attempt ev).1.core = (t.attempt ev).1.core := by
  have alike : (s.apply ev).2 = (t.apply ev).2 ∧ (s.apply ev).1.core = (t.apply ev).1.core := by
    unfold apply
    cases read : parseAction ev with
    | none => exact ⟨rfl, same⟩
    | some parsed =>
      obtain ⟨g, action⟩ := parsed
      refine act_congr same action fun code joins => door g code ?_
      rw [read, joins]
  unfold attempt
  cases here : s.apply ev with
  | mk next verdict =>
  cases there : t.apply ev with
  | mk next' verdict' =>
    obtain ⟨rfl, cores⟩ : verdict = verdict' ∧ next.core = next'.core := by simpa [here, there] using alike
    cases verdict with
    | error refusal => exact ⟨rfl, cores⟩
    | ok _ => exact ⟨rfl, cores⟩

/-- A fold starts with the invites among its actions. -/
theorem start_invites {group : PublicKey} {events : List Event} (begun : start group events = some s) :
    s.invites = (sortActions (scan group events).actions).foldl recordInvite ∅ := by
  simp only [start, Option.bind_eq_bind, Option.bind_eq_some_iff, Option.pure_def, Option.some.injEq] at begun
  obtain ⟨snapshot, _, rfl⟩ := begun
  rfl

/-- The invites of `actions` and of `others` that admit one of `items` are the same. -/
def SameDoors (actions others items : List Event) : Prop :=
  ∀ join ∈ items, ∀ g code, parseAction join = some (g, .join (some code)) →
    ∀ ev, Opens ev code join.createdAt → (ev ∈ actions ↔ ev ∈ others)

/-- The same group, with the invites of `actions` on one side and of `others` on the
other, and the same of `tracked` applied. -/
structure Alike (actions others tracked : List Event) (s t : GroupState) : Prop where
  core : s.core = t.core
  here : s.invites = actions.foldl recordInvite ∅
  there : t.invites = others.foldl recordInvite ∅
  applied : ∀ ev ∈ tracked, ev.id ∈ s.applied ↔ ev.id ∈ t.applied

theorem Alike.attempt {items tracked : List Event} (alike : Alike actions others tracked s t)
    (doors : SameDoors actions others items) (member : ev ∈ items) :
    (s.attempt ev).2 = (t.attempt ev).2 ∧
      Alike actions others tracked (s.attempt ev).1 (t.attempt ev).1 := by
  have both := attempt_congr alike.core fun g code read =>
    honours_congr alike.core alike.here alike.there fun c coded => doors ev member g c (coded ▸ read)
  refine ⟨both.1, both.2, ?_, ?_, ?_⟩
  · exact (attempt_kept s ev).invites.trans alike.here
  · exact (attempt_kept t ev).invites.trans alike.there
  · intro e known
    rw [attempt_applied, attempt_applied, both.1]
    split
    · simp [Std.ExtTreeSet.mem_insert, alike.applied e known]
    · exact alike.applied e known

theorem Alike.runDates {items tracked : List Event} (alike : Alike actions others tracked s t)
    (doors : SameDoors actions others items) (dates : List Timestamp) :
    Alike actions others tracked (runDates GroupState.attempt Event.createdAt dates s items)
      (runDates GroupState.attempt Event.createdAt dates t items) :=
  runDates_simulation (fun _ _ _ member alike => alike.attempt doors member) alike

end Doors

end GroupState

end HitEnter.Group
