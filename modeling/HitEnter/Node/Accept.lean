import HitEnter.Node.Inner

/-! The one way an event enters a node, twice: as a function of a node that does nothing
else meanwhile, and as the steps between which the node may do something else. A call that
is left alone does what the function says. -/

namespace HitEnter.Node

open Wire HitEnter.Group

namespace Inner

section Refold
variable [Nostr]

def setState (node : Inner) (group : PublicKey) (state : Option GroupState) : Inner :=
  { node with groups := node.groups.setState group state }

/-- The group folded anew from what is stored. -/
def refold (node : Inner) (group : PublicKey) : Inner := node.setState group (node.foldOf group)

end Refold

section Work
variable [NostrEvents]

/-- Drops what a silenced person wrote inside their silence. -/
def purgeSilenced (node : Inner) (group : PublicKey) : Inner := node.remove (node.silenced group)

def applyDeletion (node : Inner) (ev : Event) : Inner :=
  { node with store := (node.store.applyDeletion ev deletableKinds).1 }

/-- What may be withdrawn is looked up among the withdrawals held. -/
def isDeleted (node : Inner) (ev : Event) : Bool :=
  deletableKinds.contains ev.kind && node.store.isDeleted ev.id ev.pubkey

def isRemoved (node : Inner) (ev : Event) : Bool :=
  deletableKinds.contains ev.kind && removedByModerator node.store ev

/-- Slowmode is for messages. -/
def spaced (node : Inner) (ev : Event) : Option UInt32 := if ev.kind = chatMessage then node.tooSoon ev else none

section Way
variable [Devices] [Wraps]

/-- What follows once an event is stored. -/
def follow (node : Inner) (ev : Event) (how : Stored) (now : Timestamp) : Inner :=
  if how ≠ .new then node
  else if ev.kind = deletion then node.applyDeletion ev
  else if ev.kind = deleteEvent then node.applyRemoval ev
  else if ev.kind = giftWrap then (node.openWrap ev now).keepInbox ev
  else if ev.kind = inboxList then node.setInboxes ev
  else match groupOf ev with
    | none => node
    | some group => if changesState ev.kind then (node.refold group).purgeSilenced group else node

/-- The way an event enters this node, from any direction: the judgement, for an action a
fold with everything held, the book for a binding, withdrawals and slowmode for what is
said; then the store, and what follows from it. -/
def acceptEvent (node : Inner) (ev : Event) (source : Source) (now : Timestamp) : Inner × Verdict :=
  match node.judged ev source now with
  | .error refusal => (node, .blocked refusal)
  | .ok judgement =>
    if !node.applies ev judgement then (node, .blocked .notApplied)
    else match node.bookBinding ev now with
      | .error refusal => (node, .invalid refusal)
      | .ok node =>
        if node.isDeleted ev then (node, .withdrawn)
        else if node.isRemoved ev then (node, .removed)
        else match node.spaced ev with
          | some wait => (node, .blocked (.tooSoon wait))
          | none =>
            let out := node.insert ev now
            (out.1.follow ev out.2 now, .stored out.2)

end Way

theorem judged_of_not_wrap {node : Inner} {ev : Event} {source : Source} {now : Timestamp}
    (other : ev.kind ≠ giftWrap) : node.judged ev source now = node.groups.judge ev now := by
  unfold judged
  split
  · rename_i refused
    rw [refused, if_neg fun outbox => other outbox.2]
  · rfl

theorem bookBinding_of_other [Devices] {node : Inner} {ev : Event} {now : Timestamp} (other : ev.kind ≠ deviceBinding) :
    node.bookBinding ev now = .ok node := if_neg other

/-- Everything an event that is handed to the store has passed, and what it leaves. -/
structure Passed [Devices] [Wraps] (node : Inner) (ev : Event) (source : Source) (now : Timestamp)
    (judgement : Judgement) (booked : Inner) : Prop where
  judged : node.judged ev source now = .ok judgement
  applied : node.applies ev judgement = true
  entered : node.bookBinding ev now = .ok booked
  undeleted : booked.isDeleted ev = false
  unremoved : booked.isRemoved ev = false
  spaced : booked.spaced ev = none

theorem Passed.out [Devices] [Wraps] {node booked : Inner} {ev : Event} {source : Source} {now : Timestamp}
    {judgement : Judgement} (passed : Passed node ev source now judgement booked) :
    node.acceptEvent ev source now =
      ((booked.insert ev now).1.follow ev (booked.insert ev now).2 now, .stored (booked.insert ev now).2) := by
  simp [acceptEvent, passed.judged, passed.applied, passed.entered, passed.undeleted, passed.unremoved, passed.spaced]

/-- An event is handed to the store having passed everything, or leaves the node as it was. -/
theorem acceptEvent_cases [Devices] [Wraps] (node : Inner) (ev : Event) (source : Source) (now : Timestamp) :
    (∃ judgement booked, Passed node ev source now judgement booked) ∨
      (node.acceptEvent ev source now).1 = node ∧ (node.acceptEvent ev source now).2.accepted = false := by
  cases judged : node.judged ev source now with
  | error refusal => simp [acceptEvent, judged, Verdict.accepted]
  | ok judgement =>
    cases applied : node.applies ev judgement with
    | false => simp [acceptEvent, judged, applied, Verdict.accepted]
    | true =>
      cases entered : node.bookBinding ev now with
      | error refusal => simp [acceptEvent, judged, applied, entered, Verdict.accepted]
      | ok booked =>
        -- What is looked up, or waits, is no binding: the book did not take it.
        have said : deletableKinds.contains ev.kind = true → booked = node := by
          intro said
          have other : ev.kind ≠ deviceBinding := by
            intro same
            rw [same] at said
            exact absurd said (by decide)
          rw [bookBinding_of_other other] at entered
          exact (Except.ok.inj entered).symm
        cases undeleted : booked.isDeleted ev with
        | true =>
          obtain rfl := said (Bool.and_eq_true_iff.mp undeleted).1
          simp [acceptEvent, judged, applied, entered, undeleted, Verdict.accepted]
        | false =>
          cases unremoved : booked.isRemoved ev with
          | true =>
            obtain rfl := said (Bool.and_eq_true_iff.mp unremoved).1
            simp [acceptEvent, judged, applied, entered, undeleted, unremoved, Verdict.accepted]
          | false =>
            cases spaced : booked.spaced ev with
            | some wait =>
              have message : ev.kind = chatMessage := by
                by_contra other
                simp [Inner.spaced, other] at spaced
              obtain rfl := said (by rw [message]; decide)
              simp [acceptEvent, judged, applied, entered, undeleted, unremoved, spaced, Verdict.accepted]
            | none => exact .inl ⟨judgement, booked, judged, applied, entered, undeleted, unremoved, spaced⟩

omit [NostrEvents] in
/-- What may be withdrawn withdraws nothing, and changes no group. -/
theorem said_apart {kind : Kind} (said : deletableKinds.contains kind = true) :
    kind ≠ deletion ∧ kind ≠ deleteEvent ∧ kind ≠ giftWrap ∧ kind ≠ inboxList ∧ changesState kind = false := by
  have kinds : (deletableKinds.all fun kind => kind != deletion && kind != deleteEvent && kind != giftWrap &&
      kind != inboxList && !changesState kind) = true := by
    decide +kernel
  have apart := List.all_eq_true.mp kinds kind (List.contains_iff_mem.mp said)
  simp only [Bool.and_eq_true, bne_iff_ne, Bool.not_eq_true'] at apart
  obtain ⟨⟨⟨⟨notDeletion, notRemoval⟩, notWrap⟩, notList⟩, idle⟩ := apart
  exact ⟨notDeletion, notRemoval, notWrap, notList, idle⟩

/-- What is said in a channel and withdraws nothing leaves itself and nothing else. -/
theorem follow_said [Devices] [Wraps] {node : Inner} {ev : Event} {how : Stored} {now : Timestamp}
    (said : deletableKinds.contains ev.kind = true) : node.follow ev how now = node := by
  obtain ⟨notDeletion, notRemoval, notWrap, notList, idle⟩ := said_apart said
  simp only [follow, notDeletion, notRemoval, notWrap, notList, idle, ↓reduceIte, Bool.false_eq_true]
  split
  · rfl
  · split <;> rfl

/-- What is accepted passed the judgement. -/
theorem judged_of_accepted [Devices] [Wraps] {node : Inner} {ev : Event} {source : Source} {now : Timestamp}
    (accepted : (node.acceptEvent ev source now).2.accepted = true) :
    ∃ judgement, node.judged ev source now = .ok judgement := by
  rcases node.acceptEvent_cases ev source now with ⟨judgement, _, passed⟩ | ⟨_, refused⟩
  · exact ⟨judgement, passed.judged⟩
  · rw [refused] at accepted
    cases accepted

end Work

end Inner

/-- How far a call has come: what it does next, with what it has read for that. -/
inductive Phase where
  | waiting
  | judging
  | folding (group : PublicKey)
  | booking
  | checking
  | undeleted
  | spacing
  | storing
  | deleting
  | naming
  | removing (gone : List EventId)
  | opening
  | capping
  | listing
  | refolding (group : PublicKey)
  | settling (group : PublicKey) (state : Option GroupState)
  | purging (group : PublicKey)
  | ended (verdict : Verdict)

/-- An event being accepted. -/
structure Call where
  event : Event
  source : Source
  now : Timestamp
  phase : Phase := .waiting

section Steps
variable [NostrEvents]

/-- Where a call goes from the store. -/
def Phase.stored (ev : Event) (how : Stored) : Phase :=
  if how ≠ .new then .ended (.stored how)
  else if ev.kind = deletion then .deleting
  else if ev.kind = deleteEvent then .naming
  else if ev.kind = giftWrap then .opening
  else if ev.kind = inboxList then .listing
  else match groupOf ev with
    | none => .ended (.stored .new)
    | some group => if changesState ev.kind then .refolding group else .ended (.stored .new)

variable [Devices] [Wraps]

/-- The next step of a call: what it makes of the node, and where it is then. -/
def Call.next (call : Call) (node : Inner) : Inner × Phase :=
  let ev := call.event
  match call.phase with
  | .waiting => (node, .judging)
  | .judging =>
    match node.judged ev call.source call.now with
    | .error refusal => (node, .ended (.blocked refusal))
    | .ok .store => (node, .booking)
    | .ok (.foldWith group) => (node, .folding group)
  | .folding group =>
    (node, if node.applies ev (.foldWith group) then .booking else .ended (.blocked .notApplied))
  | .booking =>
    match node.bookBinding ev call.now with
    | .error refusal => (node, .ended (.invalid refusal))
    | .ok node => (node, .checking)
  | .checking => (node, if node.isDeleted ev then .ended .withdrawn else .undeleted)
  | .undeleted => (node, if node.isRemoved ev then .ended .removed else .spacing)
  | .spacing => (node, (node.spaced ev).elim .storing fun wait => .ended (.blocked (.tooSoon wait)))
  | .storing => ((node.insert ev call.now).1, .stored ev (node.insert ev call.now).2)
  | .deleting => (node.applyDeletion ev, .ended (.stored .new))
  | .naming => (node, .removing (removalTargets node.store ev))
  | .removing gone => (node.remove gone, .ended (.stored .new))
  | .opening => (node.openWrap ev call.now, .capping)
  | .capping => (node.keepInbox ev, .ended (.stored .new))
  | .listing => (node.setInboxes ev, .ended (.stored .new))
  | .refolding group => (node, .settling group (node.foldOf group))
  | .settling group state => (node.setState group state, .purging group)
  | .purging group => (node, .removing (node.silenced group))
  | .ended verdict => (node, .ended verdict)

/-- A call and nothing else, for as many steps. -/
def Call.alone (call : Call) : ℕ → Inner → Inner × Phase
  | 0, node => (node, call.phase)
  | steps + 1, node => { call with phase := (call.next node).2 }.alone steps (call.next node).1

variable {call : Call} {node : Inner}

private theorem Call.alone_ended (ended : call.phase = .ended verdict) (steps : ℕ) :
    call.alone steps node = (node, .ended verdict) := by
  induction steps with
  | zero => rw [alone, ended]
  | succ steps ih =>
    have same : { call with phase := .ended verdict : Call } = call := by rw [← ended]
    rw [alone, next, ended]
    simpa only [same] using ih

private theorem Call.alone_step {later : Inner} {phase : Phase} (step : call.next node = (later, phase)) (steps : ℕ) :
    call.alone (steps + 1) node = { call with phase := phase }.alone steps later := by
  rw [alone, step]

/-- From the store on, a call that is left alone does what follows. -/
private theorem Call.alone_stored {how : Stored} (stored : call.phase = .stored call.event how) (more : ℕ) :
    call.alone (more + 4) node = (node.follow call.event how call.now, .ended (.stored how)) := by
  unfold Inner.follow
  unfold Phase.stored at stored
  split
  · rename_i old
    rw [if_pos old] at stored
    exact alone_ended stored _
  · rename_i new
    obtain rfl := not_not.mp new
    rw [if_neg new] at stored
    split
    · rename_i kind
      rw [if_pos kind] at stored
      rw [alone_step (by rw [next, stored])]
      exact alone_ended rfl _
    · rename_i kind
      rw [if_neg kind] at stored
      split
      · rename_i kind
        rw [if_pos kind] at stored
        rw [alone_step (by rw [next, stored]), alone_step (by rw [next])]
        exact alone_ended rfl _
      · rename_i kind
        rw [if_neg kind] at stored
        split
        · rename_i kind
          rw [if_pos kind] at stored
          rw [alone_step (by rw [next, stored]), alone_step (by rw [next])]
          exact alone_ended rfl _
        · rename_i kind
          rw [if_neg kind] at stored
          split
          · rename_i kind
            rw [if_pos kind] at stored
            rw [alone_step (by rw [next, stored])]
            exact alone_ended rfl _
          · rename_i kind
            rw [if_neg kind] at stored
            cases own : groupOf call.event with
            | none =>
              simp only [own] at stored ⊢
              exact alone_ended stored _
            | some group =>
              simp only [own] at stored ⊢
              split
              · rename_i changes
                rw [if_pos changes] at stored
                rw [alone_step (by rw [next, stored]), alone_step (by rw [next]), alone_step (by rw [next]),
                  alone_step (by rw [next])]
                exact alone_ended rfl more
              · rename_i idle
                rw [if_neg idle] at stored
                exact alone_ended stored _

/-- From the book on, a call that is left alone does what remains of the function. -/
private theorem Call.alone_booking {judgement : Judgement} (booking : call.phase = .booking)
    (judged : node.judged call.event call.source call.now = .ok judgement)
    (applied : node.applies call.event judgement = true) (more : ℕ) :
    call.alone (more + 9) node = ((node.acceptEvent call.event call.source call.now).1,
      .ended (node.acceptEvent call.event call.source call.now).2) := by
  simp only [Inner.acceptEvent, judged, applied, Bool.not_true, Bool.false_eq_true, ↓reduceIte]
  cases booked : node.bookBinding call.event call.now with
  | error refusal =>
    rw [alone_step (by rw [next, booking, booked])]
    exact alone_ended rfl _
  | ok node =>
    rw [alone_step (by rw [next, booking, booked]), alone_step (by rw [next])]
    cases deleted : node.isDeleted call.event with
    | true =>
      simp only [deleted, ↓reduceIte]
      apply alone_ended
      rfl
    | false =>
      simp only [deleted, Bool.false_eq_true, ↓reduceIte]
      rw [alone_step (by rw [next])]
      cases removed : node.isRemoved call.event with
      | true =>
        simp only [↓reduceIte]
        apply alone_ended
        rfl
      | false =>
        simp only [Bool.false_eq_true, ↓reduceIte]
        rw [alone_step (by rw [next])]
        cases spaced : node.spaced call.event with
        | some wait =>
          simp only [Option.elim_some]
          apply alone_ended
          rfl
        | none =>
          simp only [Option.elim_none]
          rw [alone_step (by rw [next])]
          apply alone_stored
          rfl

/-- A call that is left alone does to the node what accepting its event does. -/
theorem Call.alone_eq (begins : call.phase = .judging) :
    call.alone 11 node = ((node.acceptEvent call.event call.source call.now).1,
      .ended (node.acceptEvent call.event call.source call.now).2) := by
  cases judged : node.judged call.event call.source call.now with
  | error refusal =>
    rw [alone_step (by rw [next, begins, judged]), Inner.acceptEvent, judged]
    exact alone_ended rfl _
  | ok judgement =>
    cases judgement with
    | store =>
      rw [alone_step (by rw [next, begins, judged])]
      exact @alone_booking _ _ _ { call with phase := .booking } node .store rfl judged rfl 1
    | foldWith group =>
      rw [alone_step (by rw [next, begins, judged]), alone_step (by rw [next])]
      cases applied : node.applies call.event (.foldWith group) with
      | true => exact @alone_booking _ _ _ { call with phase := .booking } node _ rfl judged applied 0
      | false =>
        simp only [Inner.acceptEvent, judged, applied]
        exact alone_ended rfl _

end Steps

end HitEnter.Node
