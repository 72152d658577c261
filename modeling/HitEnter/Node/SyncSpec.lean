import HitEnter.Node.Aside
import HitEnter.Node.SessionSpec
import HitEnter.Node.Sync

/-! What a sync takes in and what it gives away, whatever the peer sends: each event it fetched
is taken, or is refused by the node as it then is, and every one is counted once; and the peer
is told only of what its person may read. -/

namespace HitEnter.Node

open Wire HitEnter.Group Lib.Dialogue Lib.Rounds Lib.Ranks

section Applying
variable [NostrEvents] [Devices] [Wraps] {clock : ℕ → Timestamp} {s : Applying} {ev : Event}

/-- A try of an event, whatever it is counted as. -/
def Inner.take (clock : ℕ → Timestamp) (at_ : Inner × ℕ) (ev : Event) : (Inner × ℕ) × Bool :=
  let out := at_.1.receive ev .fetch (clock at_.2)
  ((out.1, at_.2 + 1), out.2.1)

theorem receive_refused {node : Inner} {source : Source} {now : Timestamp}
    (refused : (node.receive ev source now).2.1 = false) : (node.receive ev source now).1 = node := by
  unfold Inner.receive at refused ⊢
  split at refused
  · rename_i signed
    rw [if_pos signed]
    change (node.acceptEvent ev source now).2.answer.1 = false at refused
    rw [Verdict.answer_fst] at refused
    rcases node.acceptEvent_cases ev source now with ⟨_, _, passed⟩ | ⟨same, _⟩
    · rw [passed.out] at refused
      cases refused
    · exact same
  · rename_i unsigned
    rw [if_neg unsigned]

/-- Where an applying node stands. -/
def Applying.place (s : Applying) : Inner × ℕ := (s.node, s.looks)

/-- Applying is trying everything in order, and again what is refused. -/
theorem place_applyFetched (clock : ℕ → Timestamp) (s : Applying) (events : List Event) :
    (applyFetched clock s events).place = (retry (Inner.take clock) s.place (sorted applyOrder events)).1 := by
  have first : ∀ (s : Applying) (at_ : Inner × ℕ), ∀ ev ∈ sorted applyOrder events, s.place = at_ →
      (s.first clock ev).2 = (Inner.take clock at_ ev).2 ∧ (s.first clock ev).1.place = (Inner.take clock at_ ev).1 := by
    intro s at_ ev _ same
    subst same
    exact ⟨rfl, rfl⟩
  let started := pass (Applying.first clock) s (sorted applyOrder events)
  let begun := pass (Inner.take clock) s.place (sorted applyOrder events)
  have both : started.1.place = begun.1 ∧ started.2 = begun.2 :=
    pass_simulation (R := fun s at_ => Applying.place s = at_) first rfl
  have again : ∀ (s : Applying) (at_ : Inner × ℕ), ∀ ev ∈ started.2, s.place = at_ →
      (s.again clock ev).2 = (Inner.take clock at_ ev).2 ∧ (s.again clock ev).1.place = (Inner.take clock at_ ev).1 := by
    intro s at_ ev _ same
    subst same
    exact ⟨rfl, rfl⟩
  have ended : (settle (Applying.again clock) started.1 started.2).1.place =
        (settle (Inner.take clock) begun.1 started.2).1 ∧
      (settle (Applying.again clock) started.1 started.2).2 = (settle (Inner.take clock) begun.1 started.2).2 :=
    settle_simulation (R := fun s at_ => Applying.place s = at_) started.2 again both.1
  have same : (retry (Inner.take clock) s.place (sorted applyOrder events)).1 = (settle (Inner.take clock) begun.1 started.2).1 := by
    unfold retry
    rw [both.2]
  exact ended.1.trans same.symm

/-- How many were taken so far, whether they were new or not. -/
def Applying.taken (s : Applying) : ℕ := s.stats.fetched + s.stats.duplicates

private theorem taken_first (s : Applying) (ev : Event) :
    (s.first clock ev).1.taken = s.taken + if (s.first clock ev).2 then 1 else 0 := by
  unfold Applying.first Applying.taken
  cases accepted : (s.node.receive ev .fetch (clock s.looks)).2.1 with
  | false => simp [accepted]
  | true =>
    simp only [accepted, Bool.true_eq_false, ↓reduceIte]
    split
    · exact Nat.add_right_comm _ _ _
    · rfl

private theorem taken_again (s : Applying) (ev : Event) :
    (s.again clock ev).1.taken = s.taken + if (s.again clock ev).2 then 1 else 0 := by
  unfold Applying.again Applying.taken
  cases accepted : (s.node.receive ev .fetch (clock s.looks)).2.1 with
  | false => simp [accepted]
  | true =>
    simp only [accepted, ↓reduceIte]
    exact Nat.add_right_comm _ _ _

private theorem refused_kept (s : Applying) (ev : Event) :
    (s.first clock ev).1.stats.refused = s.stats.refused ∧ (s.again clock ev).1.stats.refused = s.stats.refused := by
  constructor
  · unfold Applying.first
    simp only
    repeat' split
    all_goals rfl
  · unfold Applying.again
    simp only
    split <;> rfl

/-- Whatever was fetched, in whatever order it came: each event was taken or is left, all of them
are counted, and what is left the node refuses as it ends, at a time it has looked at. -/
theorem applyFetched_settles (clock : ℕ → Timestamp) (s : Applying) (events : List Event) :
    ∃ left : List Event, left.Subperm events ∧
      (applyFetched clock s events).taken + left.length = s.taken + events.length ∧
      (applyFetched clock s events).stats.refused = s.stats.refused + left.length ∧
      ∀ ev ∈ left, ∃ i, ((applyFetched clock s events).node.receive ev .fetch (clock i)).2.1 = false := by
  let first := pass (Applying.first clock) s (sorted applyOrder events)
  have perm : (sorted applyOrder events).Perm events := List.perm_insertionSort _ _
  refine ⟨(settle (Applying.again clock) first.1 first.2).2, ?_, ?_, ?_, fun ev left => ?_⟩
  · apply List.Subperm.trans _ perm.subperm
    apply List.Sublist.subperm
    exact (settle_kept_sublist first.1 first.2).trans (pass_kept_sublist _ _ _)
  · have once : first.1.taken + first.2.length = s.taken + (sorted applyOrder events).length :=
      pass_count taken_first s
    have more : (settle (Applying.again clock) first.1 first.2).1.taken +
        (settle (Applying.again clock) first.1 first.2).2.length = first.1.taken + first.2.length :=
      settle_count taken_again first.1
    rw [perm.length_eq] at once
    exact more.trans once
  · have once : first.1.stats.refused = s.stats.refused := by
      have step : ∀ at_ : Applying, ∀ ev ∈ sorted applyOrder events, at_.stats.refused = s.stats.refused →
          (at_.first clock ev).1.stats.refused = s.stats.refused := fun at_ ev _ same => (refused_kept at_ ev).1.trans same
      exact pass_invariant step rfl
    have more : (settle (Applying.again clock) first.1 first.2).1.stats.refused = s.stats.refused := by
      have step : ∀ at_ : Applying, ∀ ev ∈ first.2, at_.stats.refused = s.stats.refused →
          (at_.again clock ev).1.stats.refused = s.stats.refused := fun at_ ev _ same => (refused_kept at_ ev).2.trans same
      exact settle_invariant step once
    exact congrArg (· + _) more
  · have still : ∀ (at_ : Applying) (ev : Event), (at_.again clock ev).2 = false → (at_.again clock ev).1.node = at_.node :=
      fun _ _ refused => receive_refused refused
    obtain ⟨at_, same, refused⟩ := settle_left still left
    refine ⟨at_.looks, ?_⟩
    change ((settle (Applying.again clock) first.1 first.2).1.node.receive ev .fetch (clock at_.looks)).2.1 = false
    rw [← same]
    exact refused

end Applying

section Telling
variable [NostrEvents] [Negentropy]

/-- Of two sets the crate counts only what one has as what the other lacks. -/
def Negentropy.OwnIds : Prop :=
  ∀ {items : List (Timestamp × EventId)} {neg after : Negentropy.State} {input : List UInt8} {out : Option (List UInt8)}
    {have_ need have' need' : List EventId}, Negentropy.Of items neg →
    Negentropy.reconcileWithIds neg input have_ need = some (after, out, have', need') →
    ∀ id ∈ have', id ∈ have_ ∨ ∃ item ∈ items, item.2 = id

/-- A message of one who begins to tell `items` apart from what the other side has. -/
def OfSet (items : List (Timestamp × EventId)) (out : List UInt8) : Prop :=
  ∃ neg after, Negentropy.Of items neg ∧ (Negentropy.initiate neg = some (after, out) ∨
    ∃ input have_ need have' need', Negentropy.reconcileWithIds neg input have_ need = some (after, some out, have', need'))

/-- What a peer may be told: an event only if its person may read it, and of a set only if it is
one of what they may read. -/
def MayAsk (m : Moment) (person : PublicKey) : ClientMessage → Prop
  | .event ev => Readable m person ev
  | .negOpen _ _ text | .negMsg _ text => ∃ items out, text = Lib.Hex.encode out ∧
      (∀ item ∈ items, ∃ ev, Readable m person ev ∧ item = (ev.createdAt, ev.id)) ∧ OfSet items out
  | _ => True

variable {σ : Type} {talk : σ → ClientMessage → σ × List RelayMessage} {P : ClientMessage → Prop}

/-- What was sent is fit to be. -/
def Tells (P : ClientMessage → Prop) (line : Line σ) : Prop := ∀ message ∈ line.sent, P message

omit [NostrEvents] [Negentropy] in
theorem writeClient_tells {message : ClientMessage} (fit : P message) :
    Ensures (Tells P) (fun _ => True) (writeClient talk message) := by
  apply Ensures.modify
  intro line tells said member
  rcases List.mem_append.mp member with before | new
  · exact tells said before
  · rw [List.mem_singleton.mp new]
    exact fit

omit [NostrEvents] [Negentropy] in
theorem readRelay_tells : Ensures (Tells P) (fun _ => True) (readRelay : Talk σ RelayMessage) := by
  unfold readRelay
  apply Ensures.bind Ensures.get
  intro line _
  split
  · exact Ensures.throw _
  · apply Ensures.bind (Q := fun _ => True)
    · apply Ensures.modify
      exact fun _ tells => tells
    · intro _ _
      exact Ensures.pure trivial

omit [NostrEvents] in
/-- A reconciliation tells of the set, and ends with ids of the set. -/
theorem negRounds_tells (own : Negentropy.OwnIds) {items : List (Timestamp × EventId)}
    (fit : ∀ out, OfSet items out → P (.negMsg "sync" (Lib.Hex.encode out))) (fuel : ℕ) {neg : Negentropy.State}
    (ours : Negentropy.Of items neg) {rounds : ℕ} {have_ need : List EventId}
    (listed : ∀ id ∈ have_, ∃ item ∈ items, item.2 = id) :
    Ensures (Tells P) (fun found => ∀ id ∈ found.2.1, ∃ item ∈ items, item.2 = id)
      (negRounds (σ := σ) talk fuel neg rounds have_ need) := by
  induction fuel generalizing neg rounds have_ need with
  | zero => exact Ensures.throw _
  | succ fuel ih =>
    unfold negRounds
    apply Ensures.bind readRelay_tells
    intro message _
    split
    · split
      · exact Ensures.throw _
      · rename_i after out have' need' round
        have more : ∀ id ∈ have', ∃ item ∈ items, item.2 = id := fun id member =>
          (own ours round id member).elim (listed id) fun here => here
        apply Ensures.bind (writeClient_tells (fit out ⟨neg, after, ours, .inr ⟨_, _, _, _, _, round⟩⟩))
        intro _ _
        exact ih (.more ours round) more
      · rename_i round
        exact Ensures.pure fun id member => (own ours round id member).elim (listed id) fun here => here
    · exact Ensures.throw _
    · exact Ensures.throw _

omit [NostrEvents] in
theorem reconcileWith_tells (own : Negentropy.OwnIds) {items : List (Timestamp × EventId)}
    (opens : ∀ filter out, OfSet items out → P (.negOpen "sync" filter (Lib.Hex.encode out)))
    (fit : ∀ out, OfSet items out → P (.negMsg "sync" (Lib.Hex.encode out))) (closes : P (.negClose "sync")) (fuel : ℕ) :
    Ensures (Tells P) (fun found => ∀ id ∈ found.2.1, ∃ item ∈ items, item.2 = id)
      (reconcileWith (σ := σ) talk fuel items) := by
  unfold reconcileWith
  split
  · exact Ensures.throw _
  · rename_i neg made
    split
    · exact Ensures.throw _
    · rename_i after out first
      have ours : Negentropy.Of items neg := .owned made
      apply Ensures.bind (writeClient_tells (opens _ out ⟨neg, after, ours, .inl first⟩))
      intro _ _
      apply Ensures.bind (negRounds_tells own fit fuel (.begun ours first) (by simp))
      intro found listed
      apply Ensures.bind (writeClient_tells closes)
      intro _ _
      exact Ensures.pure listed

omit [NostrEvents] [Negentropy] in
private theorem readEvents_tells (fuel : ℕ) (events : List Event) :
    Ensures (Tells P) (fun _ => True) (readEvents (σ := σ) fuel events) := by
  induction fuel generalizing events with
  | zero => exact Ensures.throw _
  | succ fuel ih =>
    unfold readEvents
    apply Ensures.bind readRelay_tells
    intro message _
    split
    · exact ih _
    · exact Ensures.pure trivial
    · exact Ensures.throw _
    · exact Ensures.throw _

omit [NostrEvents] [Negentropy] in
private theorem fetchAll_tells (asks : ∀ sub filters, P (.req sub filters)) (pieces : List (List EventId)) :
    Ensures (Tells P) (fun _ => True) (fetchAll (σ := σ) talk pieces) := by
  induction pieces with
  | nil => exact Ensures.pure trivial
  | cons ids rest ih =>
    unfold fetchAll fetch
    apply Ensures.bind (Q := fun _ => True)
    · apply Ensures.bind (writeClient_tells (asks _ _))
      intro _ _
      apply Ensures.bind Ensures.get
      intro line _
      exact readEvents_tells _ _
    · intro events _
      apply Ensures.bind ih
      intro _ _
      exact Ensures.pure trivial

omit [NostrEvents] [Negentropy] in
private theorem writeEvents_tells {events : List Event} (fit : ∀ ev ∈ events, P (.event ev)) :
    Ensures (Tells P) (fun _ => True) (writeEvents (σ := σ) talk events) := by
  induction events with
  | nil => exact Ensures.pure trivial
  | cons ev rest ih =>
    unfold writeEvents
    apply Ensures.bind (writeClient_tells (fit ev List.mem_cons_self))
    intro _ _
    exact ih fun later member => fit later (List.mem_cons_of_mem ev member)

omit [NostrEvents] [Negentropy] in
private theorem readVerdicts_tells (events : List Event) (stats : SyncStats) :
    Ensures (Tells P) (fun _ => True) (readVerdicts (σ := σ) events stats) := by
  induction events generalizing stats with
  | nil => exact Ensures.pure trivial
  | cons ev rest ih =>
    unfold readVerdicts
    apply Ensures.bind readRelay_tells
    intro message _
    split
    · exact ih _
    · exact ih _
    · exact Ensures.throw _

omit [NostrEvents] [Negentropy] in
variable (talk) in
private theorem pushAll_tells {pieces : List (List Event)} (fit : ∀ events ∈ pieces, ∀ ev ∈ events, P (.event ev))
    (stats : SyncStats) : Ensures (Tells P) (fun _ => True) (pushAll (σ := σ) talk pieces stats) := by
  induction pieces generalizing stats with
  | nil => exact Ensures.pure trivial
  | cons events rest ih =>
    unfold pushAll
    apply Ensures.bind (writeEvents_tells (fit events List.mem_cons_self))
    intro _ _
    apply Ensures.bind (readVerdicts_tells events stats)
    intro stats _
    exact ih (fun later member => fit later (List.mem_cons_of_mem events member)) stats

variable [Devices] [Wraps]

omit [NostrEvents] [Devices] [Wraps] in
variable (talk) in
private theorem lacking_tells (own : Negentropy.OwnIds) {items : List (Timestamp × EventId)}
    (opens : ∀ filter out, OfSet items out → P (.negOpen "sync" filter (Lib.Hex.encode out)))
    (fit : ∀ out, OfSet items out → P (.negMsg "sync" (Lib.Hex.encode out))) (closes : P (.negClose "sync"))
    (asks : ∀ sub filters, P (.req sub filters)) (fuel : ℕ) :
    Ensures (Tells P) (fun out => ∀ id ∈ out.2.1, ∃ item ∈ items, item.2 = id) (do
      let (rounds, have_, need) ← reconcileWith (σ := σ) talk fuel items
      let events ← fetchAll talk (chunks fetchChunk need)
      return (({ rounds, weNeeded := need.length, theyNeeded := have_.length } : SyncStats), have_, events)) := by
  apply Ensures.bind (reconcileWith_tells own opens fit closes fuel)
  intro found listed
  apply Ensures.bind (fetchAll_tells asks _)
  intro events _
  exact Ensures.pure listed

/-- No two events that verify share an id, which is a hash of the rest. -/
def UniqueIds : Prop :=
  ∀ {a b : Event}, NostrEvents.verify a = true → NostrEvents.verify b = true → a.id = b.id → a = b

/-- Whatever a node holds verifies. -/
def Inner.Signed (node : Inner) : Prop := ∀ row ∈ node.store.events, NostrEvents.verify row = true

omit [Negentropy] in
/-- What is taken in is verified first. -/
theorem Inner.Signed.receive {node : Inner} (signed : node.Signed) (ev : Event) (source : Source) (now : Timestamp) :
    (node.receive ev source now).1.Signed := by
  unfold Inner.receive
  split
  · rename_i verified
    intro row held
    rcases acceptEvent_stems held with rfl | old | ⟨_, learned⟩
    · exact verified
    · exact signed row old
    · exact learned
  · exact signed

omit [Negentropy] in
theorem applyFetched_signed {clock : ℕ → Timestamp} {s : Applying} (signed : s.node.Signed) (events : List Event) :
    (applyFetched clock s events).node.Signed := by
  have kept : (retry (Inner.take clock) s.place (sorted applyOrder events)).1.1.Signed := by
    have step : ∀ at_ : Inner × ℕ, ∀ ev ∈ sorted applyOrder events, at_.1.Signed → (Inner.take clock at_ ev).1.1.Signed :=
      fun at_ ev _ before => before.receive ev .fetch _
    exact retry_invariant step signed
  rw [← place_applyFetched] at kept
  exact kept

omit [Negentropy] [Devices] [Wraps] in
theorem mem_pushing {node : Inner} {have_ : List EventId} {ev : Event} (pushed : ev ∈ pushing node have_) :
    ev ∈ node.store.events ∧ ev.id ∈ have_ := by
  obtain ⟨ids, piece, found⟩ := List.mem_flatMap.mp ((List.perm_insertionSort _ _).mem_iff.mp pushed)
  obtain ⟨held, _, fits, _⟩ := Store.mem_query.mp found
  have listed : ev.id ∈ ids := by simpa [Filter.selects] using fits
  refine ⟨held, ?_⟩
  rw [← chunks_flatten (by decide : 0 < fetchChunk) have_]
  exact List.mem_flatten_of_mem piece listed

variable {m : Moment} {person : PublicKey}

/-- Whatever a peer says: it is told only of what its person might read when the sync began. -/
theorem syncWith_tells (unique : UniqueIds) (own : Negentropy.OwnIds) {node : Inner} (signed : node.Signed) {line : Line σ}
    (quiet : line.sent = []) (fuel : ℕ) (clock : ℕ → Timestamp) (person : PublicKey) (binding : Event) :
    ∀ message ∈ (stateOf (syncWith talk fuel clock node person binding line).2).sent,
      MayAsk { node, binding, now := clock 0 } person message := by
  let m : Moment := { node, binding, now := clock 0 }
  let items := negItems m person { kinds := some carriedKinds }
  have readable : ∀ item ∈ items, ∃ ev, Readable m person ev ∧ item = (ev.createdAt, ev.id) :=
    fun item listed => mem_negItems listed
  have begun : Tells (MayAsk m person) line := by
    intro message said
    rw [quiet] at said
    cases said
  have opens : ∀ filter out, OfSet items out → MayAsk m person (.negOpen "sync" filter (Lib.Hex.encode out)) :=
    fun _ out round => ⟨items, out, rfl, readable, round⟩
  have fit : ∀ out, OfSet items out → MayAsk m person (.negMsg "sync" (Lib.Hex.encode out)) :=
    fun out round => ⟨items, out, rfl, readable, round⟩
  unfold syncWith
  simp only
  split
  · rename_i error after ended
    have told := lacking_tells talk own opens fit trivial (fun _ _ => trivial) fuel line begun
    rw [ended] at told
    exact told.1
  · rename_i stats have_ events after ended
    have told := lacking_tells talk own opens fit trivial (fun _ _ => trivial) fuel line begun
    rw [ended] at told
    have listed := told.2 _ _ rfl
    let applied := applyFetched clock { node, looks := 1, stats } events
    have kept : applied.node.Signed := applyFetched_signed signed events
    have pushes : ∀ piece ∈ chunks fetchChunk (pushing applied.node have_), ∀ ev ∈ piece, MayAsk m person (.event ev) := by
      intro piece among ev member
      have pushed : ev ∈ pushing applied.node have_ := by
        rw [← chunks_flatten (by decide : 0 < fetchChunk) (pushing applied.node have_)]
        exact List.mem_flatten_of_mem among member
      obtain ⟨held, named⟩ := mem_pushing pushed
      obtain ⟨item, here, same⟩ := listed _ named
      obtain ⟨row, shown, rfl⟩ := readable item here
      obtain rfl := unique (signed row shown.1) (kept ev held) same
      exact shown
    have pushed := (pushAll_tells talk pushes applied.stats after told.1).1
    split
    · rename_i error last ends
      rw [ends] at pushed
      exact pushed
    · rename_i stats last ends
      rw [ends] at pushed
      exact pushed

end Telling

/-! ### A peer that has nothing -/

/-- Only what the founder's node holds was ever signed. -/
abbrev foundersEvents : NostrEvents :=
  { plainEvents with verify := fun ev => decide (ev ∈ foundersNode.store.events) }

/-- A peer without events, which takes what it is handed. -/
def takesAll (_ : Unit) : ClientMessage → Unit × List RelayMessage
  | .negOpen sub _ _ => ((), [.negMsg sub []])
  | .event ev => ((), [.ok ev.id true ""])
  | _ => ((), [])

private theorem ids_of_plain {items : List (Timestamp × EventId)} {neg : Negentropy.State} (ours : Negentropy.Of items neg) :
    neg = items.map Prod.snd := by
  induction ours with
  | owned made => exact (Option.some.inj made).symm
  | next _ round ih => exact (congrArg Prod.fst (Option.some.inj round)).symm.trans ih
  | begun _ first ih => exact (congrArg Prod.fst (Option.some.inj first)).symm.trans ih
  | more _ round ih => exact absurd (congrArg (fun out => out.2.1) (Option.some.inj round)) nofun

theorem plainNegentropy_ownIds : Negentropy.OwnIds := by
  intro items neg after input out have_ need have' need' set_ round id listed
  have had : have_ ++ neg.filter (!(plainReadIds input).contains ·) = have' :=
    congrArg (fun out => out.2.2.1) (Option.some.inj round)
  rw [← had] at listed
  rcases List.mem_append.mp listed with before | ours
  · exact .inl before
  · rw [ids_of_plain set_] at ours
    obtain ⟨item, member, same⟩ := List.mem_map.mp (List.mem_filter.mp ours).1
    exact .inr ⟨item, member, same⟩

theorem syncWith_tells_guest :
    let _ := foundersEvents
    ∀ message ∈ (stateOf (syncWith takesAll 1 (fun _ => 600) foundersNode guest (signRevocation guest laptop 110)
      { peer := () }).2).sent,
      MayAsk { node := foundersNode, binding := signRevocation guest laptop 110, now := 600 } guest message := by
  let _ := foundersEvents
  have unique : UniqueIds := fun ours theirs same =>
    foundersNode.store.eq_of_id (of_decide_eq_true ours) (of_decide_eq_true theirs) same
  have signed : foundersNode.Signed := fun row held => decide_eq_true held
  exact syncWith_tells unique plainNegentropy_ownIds signed rfl 1 (fun _ => 600) guest _

end HitEnter.Node
