import HitEnter.Node.SessionSpec

/-! What a session cannot give away. Two nodes that differ only in what a person may not
read answer them alike, frame by frame, as long as no limit cuts an answer; and every
request gets its end. -/

namespace HitEnter.Node

open Wire HitEnter.Group Lib.Json Lib.Runs Lib.Ranks

section SameView
variable [NostrEvents]

/-- Two looks at which `person` may read the same. -/
structure SameView (person : PublicKey) (a b : Moment) : Prop where
  now : a.now = b.now
  me : a.node.groups.me = b.node.groups.me
  rows : ∀ ev, Readable a person ev ↔ Readable b person ev

/-- No more rows match than a `REQ` is answered with. -/
def Uncut (m : Moment) (filter : Filter) : Prop :=
  (m.node.store.events.filter filter.selects).length ≤ filter.limit.elim maxEventsPerFilter (min · maxEventsPerFilter)

variable {person : PublicKey} {a b : Moment} {filter : Filter}

private theorem visible_keep {m : Moment} {keep : Event → Bool} (same : ∀ ev, keep ev = true ↔ Readable m person ev) :
    visible m.node.store m.node.groups person filter m.now = (m.node.store.query filter).filter keep := by
  apply List.filter_congr
  intro ev found
  have held := (Store.mem_query.mp found).1
  apply Bool.eq_iff_iff.mpr
  rw [same]
  exact ⟨fun reads => ⟨held, reads⟩, And.right⟩

/-- Without a limit, what is shown depends on nothing else. -/
theorem SameView.visible (alike : SameView person a b) (whole : filter.limit = none) :
    visible a.node.store a.node.groups person filter a.now = visible b.node.store b.node.groups person filter b.now := by
  classical
  have first : ∀ ev, decide (Readable a person ev) = true ↔ Readable a person ev := fun ev => decide_eq_true_iff
  have second : ∀ ev, decide (Readable a person ev) = true ↔ Readable b person ev := fun ev => (first ev).trans (alike.rows ev)
  rw [visible_keep first, visible_keep second]
  apply Store.filter_query_congr whole
  intro row kept
  exact iff_of_true ((first row).mp kept).1 ((second row).mp kept).1

private theorem query_uncut {m : Moment} (uncut : Uncut m filter) :
    m.node.store.query (capped filter) = m.node.store.query { filter with limit := none } := by
  have bound : filter.limit.elim maxEventsPerFilter (min · maxEventsPerFilter) ≤ maxEventsPerFilter := by
    cases filter.limit with
    | none => exact le_refl _
    | some limit => exact min_le_right _ _
  have small : rowLimit (filter.limit.elim maxEventsPerFilter (min · maxEventsPerFilter)) =
      filter.limit.elim maxEventsPerFilter (min · maxEventsPerFilter) :=
    min_eq_left (bound.trans (by decide))
  have length : (sorted newestFirst (m.node.store.events.filter filter.selects)).length =
      (m.node.store.events.filter filter.selects).length := (List.perm_insertionSort _ _).length_eq
  unfold Store.query
  split
  · rename_i searched
    exact (if_pos searched).symm
  · rename_i plain
    refine Eq.trans ?_ (if_neg plain).symm
    apply List.take_of_length_le
    rw [small]
    exact length.trans_le uncut

/-- Nor where no limit cuts. -/
theorem SameView.visible_capped (alike : SameView person a b) (uncut : Uncut a filter) (uncut' : Uncut b filter) :
    Node.visible a.node.store a.node.groups person (capped filter) a.now =
      Node.visible b.node.store b.node.groups person (capped filter) b.now := by
  have whole := alike.visible (rfl : ({ filter with limit := none } : Filter).limit = none)
  unfold Node.visible at whole ⊢
  rw [query_uncut uncut, query_uncut uncut']
  exact whole

theorem SameView.negItems (alike : SameView person a b) : negItems a person filter = negItems b person filter := by
  have whole := alike.visible (rfl : ({ filter with limit := none } : Filter).limit = none)
  unfold Node.negItems reconcilable
  rw [whole, alike.me, alike.now]

theorem answerReq_alike {looks looks' : Looks} {sub : String} {filters : List Filter}
    (alike : ∀ i, SameView person (looks i) (looks' i))
    (uncut : ∀ filter ∈ filters, ∀ i, Uncut (looks i) filter ∧ Uncut (looks' i) filter) :
    answerReq looks person sub filters = answerReq looks' person sub filters := by
  have each : ∀ entry ∈ filters.zipIdx,
      (Node.visible (looks entry.2).node.store (looks entry.2).node.groups person (capped entry.1) (looks entry.2).now).map
          (RelayMessage.event sub) =
        (Node.visible (looks' entry.2).node.store (looks' entry.2).node.groups person (capped entry.1)
          (looks' entry.2).now).map (RelayMessage.event sub) := by
    intro entry listed
    obtain ⟨first, second⟩ := uncut entry.1 (List.fst_mem_of_mem_zipIdx listed) entry.2
    rw [(alike entry.2).visible_capped first second]
  unfold answerReq
  simp only [List.flatMap_congr each]

end SameView

section Sessions
variable [NostrEvents] [Negentropy] [Devices] [Wraps]

/-- What a message may ask of two nodes without telling them apart: a `REQ` that no limit cuts, and
an event that both judge alike. -/
def Undisturbed (looks looks' : Looks) : ClientMessage → Prop
  | .event ev => ((looks 0).node.receive ev .push (looks 0).now).2 = ((looks' 0).node.receive ev .push (looks' 0).now).2
  | .req _ filters => ∀ filter ∈ filters, ∀ i, Uncut (looks i) filter ∧ Uncut (looks' i) filter
  | _ => True

theorem handle_alike {s : Serving} {looks looks' : Looks} {message : ClientMessage}
    (alike : ∀ i, SameView s.person (looks i) (looks' i)) (undisturbed : Undisturbed looks looks' message) :
    (s.handle looks message).2 = (s.handle looks' message).2 := by
  cases message with
  | event ev =>
    have same : ((looks 0).node.receive ev .push (looks 0).now).2 = _ := undisturbed
    simp only [Serving.handle, same]
  | req sub filters => exact congrArg (s, ·) (answerReq_alike alike undisturbed)
  | negOpen sub filter initial =>
    have items : openNeg (looks 0) s.person filter initial = openNeg (looks' 0) s.person filter initial := by
      unfold openNeg
      rw [(alike 0).negItems]
    simp only [Serving.handle, items]
    split
    · rfl
    · split <;> rfl
  | negMsg sub message =>
    simp only [Serving.handle]
    split <;> rfl
  | close sub => rfl
  | negClose sub => rfl
  | auth ev => rfl
  | unsupported => rfl

omit [Devices] in
theorem conclude_fits {out : Inner × Serving × List RelayMessage} (fits : (write out.2.2).2 = none) :
    (Serving.conclude out).2 = (.serving out.2.1, out.2.2) := by
  unfold Serving.conclude
  rw [fits]
  exact congrArg (Session.serving out.2.1, ·) (write_whole fits)

omit [Devices] in
theorem conclude_alike {out out' : Inner × Serving × List RelayMessage} (same : out.2 = out'.2) :
    (Serving.conclude out).2 = (Serving.conclude out').2 := by
  unfold Serving.conclude
  rw [same]
  split <;> rfl

variable {conn : EndpointId} {person : PublicKey}

/-- The session is one of `person`'s, or over. -/
def Session.isFor (person : PublicKey) : Session → Prop
  | .hello => False
  | .serving s => s.person = person
  | .ended => True

omit [Devices] in
private theorem isFor_conclude {out : Inner × Serving × List RelayMessage} (own : out.2.1.person = person) :
    (Serving.conclude out).2.1.isFor person := by
  rcases Serving.conclude_cases out with whole | ⟨ended, _⟩
  · rw [whole]
    exact own
  · rw [ended]
    exact trivial

private theorem handle_person (s : Serving) (looks : Looks) (message : ClientMessage) :
    (s.handle looks message).2.1.person = s.person := by
  cases message <;> simp only [Serving.handle]
  all_goals repeat' split
  all_goals rfl

variable [Messages]

/-- Two turns with the same frame, at looks that differ in nothing `person` may read. -/
structure Paired (person : PublicKey) (turn other : Looks × Reading) : Prop where
  read : turn.2 = other.2
  alike : ∀ i, SameView person (turn.1 i) (other.1 i)
  asks : ∀ body text message, turn.2 = .ok body → Lib.Ascii.ofBytes body = some text →
    Messages.clientMessage text = some message → Undisturbed turn.1 other.1 message

/-- Once a session knows whom it serves, it serves nobody else. -/
theorem isFor_step {session : Session} (own : session.isFor person) (turn : Looks × Reading) :
    (session.step conn turn.1 turn.2).2.1.isFor person := by
  obtain ⟨looks, read⟩ := turn
  cases session with
  | hello => exact absurd own id
  | ended => exact trivial
  | serving s =>
    obtain rfl : s.person = person := own
    cases read with
    | error error => cases error <;> exact trivial
    | ok body =>
      simp only [Session.step]
      split
      · exact isFor_conclude rfl
      · split
        · exact isFor_conclude rfl
        · exact isFor_conclude (handle_person s looks _)

variable (conn) in
theorem step_alike {session : Session} {turn other : Looks × Reading} (own : session.isFor person)
    (paired : Paired person turn other) :
    (session.step conn turn.1 turn.2).2 = (session.step conn other.1 other.2).2 := by
  obtain ⟨looks, read⟩ := turn
  obtain ⟨looks', read'⟩ := other
  obtain ⟨rfl, alike, asks⟩ := paired
  cases session with
  | hello => exact absurd own id
  | ended => rfl
  | serving s =>
    obtain rfl : s.person = person := own
    cases read with
    | error error => cases error <;> rfl
    | ok body =>
      simp only [Session.step]
      split
      · exact conclude_alike rfl
      · rename_i text decoded
        split
        · exact conclude_alike rfl
        · rename_i message parsed
          exact conclude_alike (handle_alike alike (asks body text message rfl decoded parsed))

/-- A session tells two nodes apart only by what its person may read: frame by frame it goes
on alike and is answered with the same messages. -/
theorem session_blind {s : Serving} {turns others : List (Looks × Reading)}
    (paired : List.Forall₂ (Paired s.person) turns others) :
    (run (Record.step conn) { session := .serving s } turns).session =
        (run (Record.step conn) { session := .serving s } others).session ∧
      (run (Record.step conn) { session := .serving s } turns).said.map Prod.snd =
        (run (Record.step conn) { session := .serving s } others).said.map Prod.snd := by
  suffices both : ∀ r r' : Record, r.session = r'.session → r.session.isFor s.person →
      r.said.map Prod.snd = r'.said.map Prod.snd →
      (run (Record.step conn) r turns).session = (run (Record.step conn) r' others).session ∧
        (run (Record.step conn) r turns).said.map Prod.snd = (run (Record.step conn) r' others).said.map Prod.snd from
    both _ _ rfl rfl rfl
  induction paired with
  | nil => exact fun r r' sessions _ said => ⟨sessions, said⟩
  | cons first _ ih =>
    intro r r' sessions own said
    have same := step_alike conn own first
    apply ih
    · exact (congrArg Prod.fst same).trans (congrArg (fun session => (Session.step conn _ _ session).2.1) sessions)
    · exact isFor_step own _
    · have spoken := (congrArg Prod.snd same).trans (congrArg (fun session => (Session.step conn _ _ session).2.2) sessions)
      simp only [Record.step, Record.add, List.map_append, said, List.map_map, Function.comp_def, List.map_id']
      exact congrArg (_ ++ ·) spoken

/-! ### Every request has its end -/

/-- Is it the end of what `sub` is answered with? -/
def RelayMessage.ends (sub : String) : RelayMessage → Bool
  | .eose named | .closed named _ => named == sub
  | _ => false

def RelayMessage.isOk (id : EventId) : RelayMessage → Bool
  | .ok named .. => named == id
  | _ => false

def RelayMessage.isEvent (sub : String) : RelayMessage → Bool
  | .event named _ => named == sub
  | _ => false

def ClientMessage.asks (sub : String) : ClientMessage → Bool
  | .req named _ => named == sub
  | _ => false

def ClientMessage.hands (id : EventId) : ClientMessage → Bool
  | .event ev => ev.id == id
  | _ => false

/-- The message a frame holds. -/
def messageOf (turn : Looks × Reading) : Option ClientMessage :=
  match turn.2 with
  | .ok body => (Lib.Ascii.ofBytes body).bind Messages.clientMessage
  | .error _ => none

/-- The answers of `sub` to `requests` requests and to as many events handed over as `id` was. -/
structure Tally (sub : String) (id : EventId) (said : List RelayMessage) (requests pushes : ℕ) : Prop where
  ends : said.countP (RelayMessage.ends sub) = requests
  oks : said.countP (RelayMessage.isOk id) = pushes
  few : said.countP (RelayMessage.isEvent sub) ≤ maxFiltersPerReq * maxEventsPerFilter * requests

omit [NostrEvents] [Negentropy] [Devices] [Wraps] [Messages] in
theorem Tally.append {sub : String} {id : EventId} {said more : List RelayMessage} {a b m n : ℕ}
    (first : Tally sub id said a m) (second : Tally sub id more b n) : Tally sub id (said ++ more) (a + b) (m + n) where
  ends := by rw [List.countP_append, first.ends, second.ends]
  oks := by rw [List.countP_append, first.oks, second.oks]
  few := by
    rw [List.countP_append, Nat.mul_add]
    exact Nat.add_le_add first.few second.few

omit [Negentropy] [Devices] [Wraps] [Messages] in
private theorem length_visible {m : Moment} {person : PublicKey} (filter : Filter) :
    (Node.visible m.node.store m.node.groups person (capped filter) m.now).length ≤ maxEventsPerFilter := by
  have most : (m.node.store.query (capped filter)).length ≤ maxEventsPerFilter := by
    unfold Store.query
    split
    · exact Nat.zero_le _
    · refine (List.length_take_le _ _).trans ((min_le_left _ _).trans ?_)
      cases filter.limit with
      | none => exact le_refl _
      | some limit => exact min_le_right _ _
  exact (List.length_filter_le _ _).trans most

omit [Negentropy] [Devices] [Wraps] [Messages] in
private theorem tally_answerReq {looks : Looks} {person : PublicKey} {named sub : String} {id : EventId} {filters : List Filter} :
    Tally sub id (answerReq looks person named filters) (if named == sub then 1 else 0) 0 := by
  have closing (why : String) : Tally sub id [.closed named why] (if named == sub then 1 else 0) 0 :=
    ⟨by simp [RelayMessage.ends, List.countP_cons], rfl, Nat.zero_le _⟩
  unfold answerReq
  split
  · exact closing _
  · split
    · exact closing _
    · rename_i few
      let shown (entry : Filter × ℕ) : List Event := Node.visible (looks entry.2).node.store (looks entry.2).node.groups person
        (capped entry.1) (looks entry.2).now
      have rows : ∀ message ∈ filters.zipIdx.flatMap fun entry => (shown entry).map (RelayMessage.event named),
          ∃ ev, message = .event named ev := by
        intro message said
        obtain ⟨entry, _, listed⟩ := List.mem_flatMap.mp said
        obtain ⟨ev, _, same⟩ := List.mem_map.mp listed
        exact ⟨ev, same.symm⟩
      have length : (filters.zipIdx.flatMap fun entry => (shown entry).map (RelayMessage.event named)).length ≤
          maxFiltersPerReq * maxEventsPerFilter := by
        rw [List.length_flatMap]
        refine (List.sum_le_card_nsmul _ maxEventsPerFilter fun count listed => ?_).trans ?_
        · obtain ⟨entry, _, rfl⟩ := List.mem_map.mp listed
          rw [List.length_map]
          exact length_visible entry.1
        · rw [List.length_map, List.length_zipIdx, smul_eq_mul]
          exact Nat.mul_le_mul_right _ (not_lt.mp few)
      constructor
      · rw [List.countP_append, List.countP_eq_zero.mpr fun message said => ?_]
        · simp [RelayMessage.ends, List.countP_cons]
        · obtain ⟨ev, rfl⟩ := rows message said
          exact Bool.false_ne_true
      · apply List.countP_eq_zero.mpr
        intro message said
        rcases List.mem_append.mp said with row | last
        · obtain ⟨ev, rfl⟩ := rows message row
          exact Bool.false_ne_true
        · rw [List.mem_singleton.mp last]
          exact Bool.false_ne_true
      · rw [List.countP_append, List.countP_singleton, if_neg (by simp [RelayMessage.isEvent])]
        by_cases own : named = sub
        · simpa [own] using List.countP_le_length.trans length
        · rw [List.countP_eq_zero.mpr fun message said => ?_]
          · exact Nat.zero_le _
          · obtain ⟨ev, rfl⟩ := rows message said
            simpa [RelayMessage.isEvent] using own

omit [Messages] in
private theorem tally_handle {s : Serving} {looks : Looks} {sub : String} {id : EventId} (message : ClientMessage) :
    Tally sub id (s.handle looks message).2.2 (if message.asks sub then 1 else 0) (if message.hands id then 1 else 0) := by
  cases message with
  | event ev => exact ⟨rfl, by simp [Serving.handle, RelayMessage.isOk, ClientMessage.hands, List.countP_cons], Nat.zero_le _⟩
  | req named filters => exact tally_answerReq
  | close named => exact ⟨rfl, rfl, Nat.zero_le _⟩
  | negClose named => exact ⟨rfl, rfl, Nat.zero_le _⟩
  | auth ev => exact ⟨rfl, rfl, Nat.zero_le _⟩
  | unsupported => exact ⟨rfl, rfl, Nat.zero_le _⟩
  | negOpen named filter initial =>
    change Tally sub id _ 0 0
    simp only [Serving.handle]
    repeat' split
    all_goals exact ⟨rfl, rfl, Nat.zero_le _⟩
  | negMsg named message =>
    change Tally sub id _ 0 0
    simp only [Serving.handle]
    repeat' split
    all_goals exact ⟨rfl, rfl, Nat.zero_le _⟩

omit [Devices] [Messages] in
private theorem said_conclude {out : Inner × Serving × List RelayMessage} {s : Serving}
    (serving : (Serving.conclude out).2.1 = .serving s) : (Serving.conclude out).2.2 = out.2.2 := by
  rcases Serving.conclude_cases out with whole | ⟨ended, _⟩
  · rw [whole]
  · rw [ended] at serving
    cases serving

/-- A session that goes on has answered a frame with what its message asks for. -/
private theorem tally_step {session : Session} {s : Serving} {turn : Looks × Reading} (sub : String) (id : EventId)
    (begun : session ≠ .hello) (serving : (session.step conn turn.1 turn.2).2.1 = .serving s) :
    (∃ before, session = .serving before) ∧ Tally sub id (session.step conn turn.1 turn.2).2.2
      (if (messageOf turn).any (ClientMessage.asks sub) then 1 else 0)
      (if (messageOf turn).any (ClientMessage.hands id) then 1 else 0) := by
  obtain ⟨looks, read⟩ := turn
  cases session with
  | hello => exact absurd rfl begun
  | ended => cases serving
  | serving before =>
    refine ⟨⟨before, rfl⟩, ?_⟩
    cases read with
    | error error => cases error <;> cases serving
    | ok body =>
      simp only [Session.step, messageOf] at serving ⊢
      split at serving
      · rename_i decoded
        rw [said_conclude serving]
        simp only [decoded, Option.bind_none, Option.any_none]
        exact ⟨rfl, rfl, Nat.zero_le _⟩
      · rename_i text decoded
        split at serving
        · rename_i parsed
          rw [said_conclude serving]
          simp only [decoded, Option.bind_some, parsed, Option.any_none]
          exact ⟨rfl, rfl, Nat.zero_le _⟩
        · rename_i message parsed
          rw [said_conclude serving]
          simp only [decoded, Option.bind_some, parsed, Option.any_some]
          exact tally_handle message

/-- While a session goes on, every `REQ` has been answered with one end of its subscription and
with no more events than its filters may be, and every event handed over with one verdict. -/
theorem session_answers {start s : Serving} {turns : List (Looks × Reading)}
    (serving : (run (Record.step conn) { session := .serving start } turns).session = .serving s) (sub : String) (id : EventId) :
    Tally sub id ((run (Record.step conn) { session := .serving start } turns).said.map Prod.snd)
      (turns.countP fun turn => (messageOf turn).any (ClientMessage.asks sub))
      (turns.countP fun turn => (messageOf turn).any (ClientMessage.hands id)) := by
  induction turns using List.reverseRecOn generalizing s with
  | nil => exact ⟨rfl, rfl, le_refl _⟩
  | append_singleton turns turn ih =>
    rw [run_snoc] at serving ⊢
    set r := run (Record.step conn) { session := .serving start } turns with run_eq
    have begun : r.session ≠ .hello := by
      have keeps : ∀ (r : Record) (turn : Looks × Reading), r.session.isFor start.person →
          (r.step conn turn).session.isFor start.person := fun _ turn own => isFor_step own turn
      have own : r.session.isFor start.person := run_keeps keeps turns rfl
      intro hello
      rw [hello] at own
      exact own
    obtain ⟨⟨before, going⟩, last⟩ := tally_step sub id begun serving
    have whole := (ih going).append last
    simp only [Record.step, Record.add, List.map_append, List.map_map, Function.comp_def, List.map_id']
    rw [List.countP_append, List.countP_append, List.countP_singleton, List.countP_singleton]
    exact whole

end Sessions

/-! ### A stranger asks for everything -/

/-- The node of the club's founder, as a session sees it. -/
def clubMoment : Moment where
  node := foundersNode
  binding := signRevocation founder laptop 110
  now := 600

/-- The same with a letter for the founder. -/
def letterMoment : Moment :=
  { clubMoment with node := (foundersNode.insert (signed guest 550 giftWrap [["p", Nostr.toHex founder]] "a letter") 600).1 }

def strangersTurn (m : Moment) : Looks × Reading := (fun _ => m, .ok (Lib.Hex.bytes requestAll))

def strangerServed : Serving where
  person := caller
  presented := signRevocation caller laptop 110

theorem session_blind_stranger :
    clubMoment.node.store.events.length < letterMoment.node.store.events.length ∧
      (run (Record.step laptop) { session := .serving strangerServed } [strangersTurn clubMoment]).said.map Prod.snd =
        (run (Record.step laptop) { session := .serving strangerServed } [strangersTurn letterMoment]).said.map Prod.snd := by
  have shown : ∀ ev ∈ letterMoment.node.store.events, ev ∈ clubMoment.node.store.events ∨
      letterMoment.node.groups.mayRead caller ev 600 = false := by decide +kernel
  have kept : ∀ ev ∈ clubMoment.node.store.events, ev ∈ letterMoment.node.store.events := by decide +kernel
  have alike : SameView caller clubMoment letterMoment := by
    refine ⟨rfl, rfl, fun ev => ⟨fun ⟨held, reads⟩ => ⟨kept ev held, reads⟩, fun ⟨held, reads⟩ => ?_⟩⟩
    rcases shown ev held with old | unread
    · exact ⟨old, reads⟩
    · exact absurd reads (by rw [show letterMoment.now = 600 from rfl, unread]; exact Bool.false_ne_true)
  have short : clubMoment.node.store.events.length ≤ 500 ∧ letterMoment.node.store.events.length ≤ 500 := by decide +kernel
  have paired : Paired caller (strangersTurn clubMoment) (strangersTurn letterMoment) := by
    refine ⟨rfl, fun _ => alike, fun body text message read decoded parsed => ?_⟩
    cases read
    rw [Lib.Ascii.ofBytes_bytes] at decoded
    cases decoded
    obtain rfl : ClientMessage.req "all" [{}] = message := by simpa [Messages.clientMessage] using parsed
    intro filter listed i
    rw [List.mem_singleton.mp listed]
    exact ⟨(List.length_filter_le _ _).trans short.1, (List.length_filter_le _ _).trans short.2⟩
  exact ⟨by decide +kernel, (session_blind (s := strangerServed) (.cons paired .nil)).2⟩

/-- A node that holds nothing. -/
def blankMoment : Moment := { clubMoment with node := { store := blankStore, groups := { me := founder } } }

/-- The stranger's request has its end. -/
theorem session_answers_stranger :
    ∃ s, (run (Record.step laptop) { session := .serving strangerServed } [strangersTurn blankMoment]).session = .serving s ∧
      Tally "all" ⟨0⟩ ((run (Record.step laptop) { session := .serving strangerServed } [strangersTurn blankMoment]).said.map
        Prod.snd) 1 0 := by
  have decoded := Lib.Ascii.ofBytes_bytes requestAll
  have parsed : Messages.clientMessage requestAll = some (.req "all" [{}]) := by simp [Messages.clientMessage]
  have read : messageOf (strangersTurn blankMoment) = some (.req "all" [{}]) := by
    simp [messageOf, strangersTurn, decoded, parsed]
  have serving : (run (Record.step laptop) { session := .serving strangerServed } [strangersTurn blankMoment]).session =
      .serving strangerServed := by
    have fits : (write (answerReq (fun _ => blankMoment) caller "all" [{}])).2 = none := by decide +kernel
    change (Session.step laptop (fun _ => blankMoment) (.ok (Lib.Hex.bytes requestAll)) (.serving strangerServed)).2.1 = _
    simp only [Session.step, decoded, parsed]
    exact congrArg Prod.fst (conclude_fits fits)
  refine ⟨strangerServed, serving, ?_⟩
  have tally := session_answers serving "all" ⟨0⟩
  rw [List.countP_singleton, List.countP_singleton, read] at tally
  exact tally

end HitEnter.Node
