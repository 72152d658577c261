import HitEnter.Node.Paging
import HitEnter.Node.SessionBlind
import HitEnter.Node.SyncSpec

/-! Two nodes that both keep to the protocol: what one says to the other's half of a sync, and
that the other fetches whatever it lacks and may be shown throughout. -/

namespace HitEnter.Node

open Wire HitEnter.Group Lib.Dialogue Lib.Rounds Lib.Ranks

section Line
variable {σ : Type} {line after : Line σ}

theorem readRelay_ok {message : RelayMessage} (read : readRelay line = .ok message after) :
    line.waiting = message :: after.waiting ∧ after.peer = line.peer := by
  unfold readRelay at read
  obtain ⟨_, _, got, rest⟩ := bind_eq_ok.mp read
  cases got
  cases waiting : line.waiting with
  | nil =>
    rw [waiting] at rest
    cases rest
  | cons first later =>
    rw [waiting] at rest
    cases rest
    exact ⟨rfl, rfl⟩

theorem writeClient_ok {talk : σ → ClientMessage → σ × List RelayMessage} {message : ClientMessage} {u : Unit}
    (wrote : writeClient talk message line = .ok u after) :
    after.waiting = line.waiting ++ (talk line.peer message).2 ∧ after.peer = (talk line.peer message).1 := by
  cases wrote
  exact ⟨rfl, rfl⟩

/-- An answer is read up to its end, and no further. -/
theorem readEvents_ok {fuel : ℕ} {events found : List Event} (ended : readEvents fuel events line = .ok found after) :
    ∃ shown : List (String × Event), ∃ sub, line.waiting = shown.map (fun row => .event row.1 row.2) ++ .eose sub :: after.waiting ∧
      found = events ++ shown.map Prod.snd ∧ after.peer = line.peer := by
  induction fuel generalizing line events with
  | zero => cases ended
  | succ fuel ih =>
    unfold readEvents at ended
    obtain ⟨message, between, read, rest⟩ := bind_eq_ok.mp ended
    obtain ⟨waiting, same⟩ := readRelay_ok read
    split at rest
    · rename_i sub ev
      obtain ⟨shown, last, later, found_, kept⟩ := ih rest
      refine ⟨(sub, ev) :: shown, last, ?_, ?_, kept.trans same⟩
      · rw [waiting, later]
        rfl
      · rw [found_, List.append_assoc]
        rfl
    · cases rest
      exact ⟨[], _, waiting, (List.append_nil _).symm, same⟩
    · cases rest
    · cases rest

end Line

section Peers
variable [NostrEvents] [Negentropy] [Devices] [Wraps]

/-- Where two sides are that tell their sets apart, while `answer` is on its way back. -/
inductive Negentropy.Between (ours theirs : List (Timestamp × EventId)) :
    Negentropy.State → Negentropy.State → List UInt8 → List EventId → List EventId → Prop where
  | opened {neg begun other after : Negentropy.State} {first answer : List UInt8} (here : Negentropy.owned ours = some neg)
      (initiate : Negentropy.initiate neg = some (begun, first)) (there : Negentropy.owned theirs = some other)
      (reconcile : Negentropy.reconcile other first = some (after, answer)) : Between ours theirs begun after answer [] []
  | round {neg next other after : Negentropy.State} {answer out more : List UInt8} {have_ need have' need' : List EventId}
      (before : Between ours theirs neg other answer have_ need)
      (asked : Negentropy.reconcileWithIds neg answer have_ need = some (next, some out, have', need'))
      (reconcile : Negentropy.reconcile other out = some (after, more)) : Between ours theirs next after more have' need'

def Named (items : List (Timestamp × EventId)) (id : EventId) : Prop := ∃ item ∈ items, item.2 = id

/-- Of two sets the crate finds what is only in the one and only in the other. -/
def Negentropy.Exact : Prop :=
  ∀ {ours theirs : List (Timestamp × EventId)} {neg other after : Negentropy.State} {answer : List UInt8}
    {have_ need have' need' : List EventId}, Negentropy.Between ours theirs neg other answer have_ need →
    Negentropy.reconcileWithIds neg answer have_ need = some (after, none, have', need') →
    ∀ id, (id ∈ have' ↔ Named ours id ∧ ¬ Named theirs id) ∧ (id ∈ need' ↔ Named theirs id ∧ ¬ Named ours id)

/-- What a session says to a message, with what it sees in each turn. -/
def answered (looks : ℕ → Looks) (peer : ℕ × Session) (message : ClientMessage) : (ℕ × Session) × List RelayMessage :=
  match peer.2 with
  | .serving s =>
    let out := Serving.conclude (s.handle (looks peer.1) message)
    ((peer.1 + 1, out.2.1), out.2.2)
  | _ => (peer, [])

/-- A turn of a session is such an answer, if its frame holds the message. -/
theorem step_answered [Messages] {conn : EndpointId} {looks : ℕ → Looks} {k : ℕ} {s : Serving} {body : List UInt8}
    {text : String} {message : ClientMessage} (decoded : Lib.Ascii.ofBytes body = some text)
    (parsed : Messages.clientMessage text = some message) :
    (Session.step conn (looks k) (.ok body) (.serving s)).2 =
      ((answered looks (k, .serving s) message).1.2, (answered looks (k, .serving s) message).2) := by
  simp only [Session.step, answered, decoded, parsed]

omit [Negentropy] [Devices] in
private theorem refuse_notices {error : SessionError} {message : RelayMessage} (said : message ∈ refuse error) :
    ∃ why, message = .notice why := by
  have listed := (write_begins [.notice ("refused: " ++ error.display)]).subset said
  exact ⟨_, List.mem_singleton.mp listed⟩

omit [Negentropy] [Devices] in
private theorem write_short {out : List RelayMessage} {error : FrameError} (stops : (write out).2 = some error) :
    (write out).1 ≠ out := by
  induction out with
  | nil => cases stops
  | cons message rest ih =>
    unfold write at stops ⊢
    split at stops
    · exact (List.cons_ne_nil message rest).symm
    · exact fun same => ih stops (List.cons.inj same).2

omit [Devices] in
/-- An answer is given whole, or the session is over and says why after what was written of it. -/
theorem conclude_cases (out : Inner × Serving × List RelayMessage) :
    (Serving.conclude out).2 = (.serving out.2.1, out.2.2) ∨
      ∃ said bye, (Serving.conclude out).2 = (.ended, said ++ bye) ∧ said <+: out.2.2 ∧ said ≠ out.2.2 ∧
        ∀ message ∈ bye, ∃ why, message = .notice why := by
  cases fits : (write out.2.2).2 with
  | none => exact .inl (conclude_fits fits)
  | some error =>
    refine .inr ⟨(write out.2.2).1, refuse (.frame error), ?_, write_begins _, write_short fits, fun _ => refuse_notices⟩
    unfold Serving.conclude
    rw [fits]

variable {looks : ℕ → Looks} {k : ℕ} {s : Serving} {message : ClientMessage}

/-- An answer of one message is given, or there are none but notices and the session is over. -/
theorem answered_single {reply : RelayMessage} (one : (s.handle (looks k) message).2.2 = [reply]) :
    answered looks (k, .serving s) message = ((k + 1, .serving (s.handle (looks k) message).2.1), [reply]) ∨
      ∀ said ∈ (answered looks (k, .serving s) message).2, ∃ why, said = .notice why := by
  rcases conclude_cases (s.handle (looks k) message) with whole | ⟨said, bye, ended, begins, short, notices⟩
  · left
    rw [one] at whole
    simp only [answered, whole]
  · right
    rw [one] at begins short
    have none_ : said = [] := by
      rcases List.prefix_cons_iff.mp begins with nothing | ⟨rest, same, nothing⟩
      · exact nothing
      · rw [List.prefix_nil.mp nothing] at same
        exact absurd same short
    simp only [answered, ended, none_, List.nil_append]
    exact notices

/-- A session that serves `person` and has answered all there was. -/
def Idle (person : PublicKey) (line : Line (ℕ × Session)) : Prop :=
  line.waiting = [] ∧ ∃ k s, line.peer = (k, .serving s) ∧ s.person = person

/-- The line of a reconciliation that has come as far as `neg`, the answer to which waits. -/
def Reconciling (ours theirs : List (Timestamp × EventId)) (person : PublicKey) (neg : Negentropy.State)
    (have_ need : List EventId) (line : Line (ℕ × Session)) : Prop :=
  ∃ k s other answer, line.peer = (k, .serving s) ∧ s.person = person ∧ s.negs["sync"]? = some other ∧
    line.waiting = [.negMsg "sync" answer] ∧ Negentropy.Between ours theirs neg other answer have_ need

variable {σ : Type} {ours theirs : List (Timestamp × EventId)} {person : PublicKey} {neg : Negentropy.State}
  {have_ need : List EventId} {line after : Line (ℕ × Session)} {fuel rounds : ℕ} {found : ℕ × List EventId × List EventId}

omit [NostrEvents] [Devices] [Wraps] in
private theorem negRounds_head {talk : σ → ClientMessage → σ × List RelayMessage} {line after : Line σ}
    (ended : negRounds talk fuel neg rounds have_ need line = .ok found after) :
    ∃ sub message, line.waiting.head? = some (.negMsg sub message) := by
  cases fuel with
  | zero => cases ended
  | succ fuel =>
    unfold negRounds at ended
    obtain ⟨message, between, read, rest⟩ := bind_eq_ok.mp ended
    rw [(readRelay_ok read).1]
    cases message with
    | negMsg sub message => exact ⟨sub, message, rfl⟩
    | _ => cases rest

/-- The answer to a round's message, if the rounds go on. -/
private theorem reconciling_of_reply {line : Line (ℕ × Session)} {k : ℕ} {s : Serving} {message : ClientMessage} {next : Negentropy.State}
    (serves : s.person = person) (said : line.waiting = (answered looks (k, .serving s) message).2)
    (left : line.peer = (answered looks (k, .serving s) message).1)
    (head : ∃ sub answer, line.waiting.head? = some (.negMsg sub answer))
    (replies : (∃ why, (s.handle (looks k) message).2.2 = [.negErr "sync" why]) ∨ ∃ other answer,
      (s.handle (looks k) message).2 = ({ s with negs := s.negs.insert "sync" other }, [.negMsg "sync" answer]) ∧
        Negentropy.Between ours theirs next other answer have_ need) :
    Reconciling ours theirs person next have_ need line := by
  obtain ⟨sub, first, head⟩ := head
  have spoken : ¬ ∀ said ∈ (answered looks (k, .serving s) message).2, ∃ why, said = .notice why := by
    intro notices
    obtain ⟨why, same⟩ := notices _ (said ▸ List.mem_of_mem_head? head)
    cases same
  rcases replies with ⟨why, refused⟩ | ⟨other, answer, replied, between⟩
  · have whole := (answered_single refused).resolve_right spoken
    rw [said, whole] at head
    cases head
  · have whole := (answered_single (congrArg Prod.snd replied)).resolve_right spoken
    refine ⟨k + 1, { s with negs := s.negs.insert "sync" other }, other, answer, ?_, serves, ?_, ?_, between⟩
    · rw [left, whole, congrArg Prod.fst replied]
    · exact Std.ExtTreeMap.getElem?_insert_self
    · rw [said, whole]

/-- Rounds with a session that come to an end have found what is here only and what is there only. -/
theorem negRounds_exact (exact_ : Negentropy.Exact) (at_ : Reconciling ours theirs person neg have_ need line)
    (ended : negRounds (answered looks) fuel neg rounds have_ need line = .ok found after) :
    (∀ id, (id ∈ found.2.1 ↔ Named ours id ∧ ¬ Named theirs id) ∧ (id ∈ found.2.2 ↔ Named theirs id ∧ ¬ Named ours id)) ∧
      Idle person after := by
  induction fuel generalizing neg rounds have_ need line with
  | zero => cases ended
  | succ fuel ih =>
    obtain ⟨k, s, other, answer, peer, serves, kept, waiting, between⟩ := at_
    unfold negRounds at ended
    obtain ⟨message, read, reads, rest⟩ := bind_eq_ok.mp ended
    obtain ⟨first, same⟩ := readRelay_ok reads
    obtain ⟨rfl, empty⟩ := List.cons.inj (waiting.symm.trans first)
    simp only at rest
    cases asked : Negentropy.reconcileWithIds neg answer have_ need with
    | none =>
      rw [asked] at rest
      cases rest
    | some round =>
      obtain ⟨next, out, have', need'⟩ := round
      rw [asked] at rest
      cases out with
      | none =>
        cases rest
        exact ⟨exact_ between asked, empty.symm, k, s, same.trans peer, serves⟩
      | some out =>
        obtain ⟨_, wrote, writes, later⟩ := bind_eq_ok.mp rest
        obtain ⟨said, left⟩ := writeClient_ok writes
        rw [same, peer] at left
        rw [← empty, List.nil_append, same, peer] at said
        refine ih (reconciling_of_reply serves said left (negRounds_head later) ?_) later
        simp only [Serving.handle, kept, Option.bind_some, Lib.Hex.decode_encode]
        cases reconciled : Negentropy.reconcile other out with
        | none => exact .inl ⟨_, rfl⟩
        | some turn => exact .inr ⟨turn.1, turn.2, rfl, .round between asked reconciled⟩

/-- A reconciliation with a session that ends well finds what is only in our set, and what is only in the one
the session saw as it began. -/
theorem reconcileWith_exact (exact_ : Negentropy.Exact) {k : ℕ} {s : Serving} (idle : line.waiting = [])
    (peer : line.peer = (k, .serving s)) (ended : reconcileWith (answered looks) fuel ours line = .ok found after) :
    (∀ id, (id ∈ found.2.1 ↔ Named ours id ∧ ¬ Named (negItems (looks k 0) s.person { kinds := some carriedKinds }) id) ∧
      (id ∈ found.2.2 ↔ Named (negItems (looks k 0) s.person { kinds := some carriedKinds }) id ∧ ¬ Named ours id)) ∧
      Idle s.person after := by
  unfold reconcileWith at ended
  cases here : Negentropy.owned ours with
  | none =>
    rw [here] at ended
    cases ended
  | some neg =>
    rw [here] at ended
    simp only at ended
    cases initiate : Negentropy.initiate neg with
    | none =>
      rw [initiate] at ended
      cases ended
    | some start =>
      obtain ⟨begun, first⟩ := start
      rw [initiate] at ended
      obtain ⟨_, opened, opens, rest⟩ := bind_eq_ok.mp ended
      obtain ⟨found', between, rounds, last⟩ := bind_eq_ok.mp rest
      obtain ⟨_, closed, closes, gives⟩ := bind_eq_ok.mp last
      cases gives
      obtain ⟨said, left⟩ := writeClient_ok opens
      rw [peer] at left
      rw [idle, List.nil_append, peer] at said
      have at_ : Reconciling ours (negItems (looks k 0) s.person { kinds := some carriedKinds }) s.person begun [] [] opened := by
        refine reconciling_of_reply rfl said left (negRounds_head rounds) ?_
        simp only [Serving.handle]
        split
        · exact .inl ⟨_, rfl⟩
        · unfold openNeg
          cases there : Negentropy.owned (negItems (looks k 0) s.person { kinds := some carriedKinds }) with
          | none => exact .inl ⟨_, rfl⟩
          | some other =>
            simp only [Option.bind_eq_bind, Option.bind_some, Lib.Hex.decode_encode]
            cases reconciled : Negentropy.reconcile other first with
            | none => exact .inl ⟨_, rfl⟩
            | some turn => exact .inr ⟨turn.1, turn.2, rfl, .opened here initiate there reconciled⟩
      obtain ⟨differences, empty, k', s', peer', serves⟩ := negRounds_exact exact_ at_ rounds
      refine ⟨differences, ?_⟩
      obtain ⟨said', left'⟩ := writeClient_ok closes
      rw [peer'] at left'
      rw [empty, List.nil_append, peer'] at said'
      have silent : answered looks (k', .serving s') (.negClose "sync") =
          ((k' + 1, .serving { s' with negs := s'.negs.erase "sync" }), []) := rfl
      rw [silent] at said' left'
      exact ⟨said', _, _, left', serves⟩

/-! ### What is fetched -/

omit [NostrEvents] [Negentropy] [Devices] [Wraps] in
private theorem shown_eq {rows : List Event} {shown : List (String × Event)} {sub last : String} {rest : List RelayMessage}
    (same : rows.map (.event sub) ++ [.eose sub] = shown.map (fun row => .event row.1 row.2) ++ .eose last :: rest) :
    shown.map Prod.snd = rows ∧ rest = [] := by
  induction rows generalizing shown with
  | nil =>
    cases shown with
    | nil => exact ⟨rfl, (List.cons.inj same).2.symm⟩
    | cons row more => cases same
  | cons ev rows ih =>
    cases shown with
    | nil => cases same
    | cons row more =>
      obtain ⟨first, later⟩ := List.cons.inj same
      cases first
      obtain ⟨here, nothing⟩ := ih later
      exact ⟨congrArg (_ :: ·) here, nothing⟩

omit [Negentropy] [Devices] [Wraps] in
/-- No answer to so few ids is cut short. -/
private theorem mem_visible_ids {m : Moment} {ids : List EventId} (few : ids.length ≤ maxEventsPerFilter) {ev : Event} :
    ev ∈ visible m.node.store m.node.groups person (capped { ids := some ids }) m.now ↔ Readable m person ev ∧ ev.id ∈ ids := by
  have fits {ev : Event} : ev ∈ m.node.store.matching { ids := some ids } ↔ ev ∈ m.node.store.events ∧ ev.id ∈ ids := by
    rw [Store.matching, Store.mem_query]
    simp [Filter.selects, Store.reaches]
  have short : (m.node.store.matching { ids := some ids }).length ≤ effectiveLimit { ids := some ids } := by
    have distinct : ((m.node.store.matching { ids := some ids }).map Event.id).Nodup := m.node.store.query_ids _
    have among : (m.node.store.matching { ids := some ids }).map Event.id ⊆ ids := by
      intro id listed
      obtain ⟨row, found, rfl⟩ := List.mem_map.mp listed
      exact (fits.mp found).2
    have fewer := (List.subperm_of_subset distinct among).length_le
    rw [List.length_map] at fewer
    exact fewer.trans few
  rw [visible, query_capped, List.take_of_length_le short, List.mem_filter, fits]
  exact and_right_comm

variable {s : Serving} {k : ℕ} {events : List Event}

omit [Negentropy] [Devices] [Wraps] in
theorem answerReq_ids (m : Looks) (person : PublicKey) (ids : List EventId) : answerReq m person "fetch" [{ ids := some ids }] =
    (visible (m 0).node.store (m 0).node.groups person (capped { ids := some ids }) (m 0).now).map (.event "fetch") ++
      [.eose "fetch"] := by
  have named : ¬ maxSubscriptionIdBytes < Lib.Json.size "fetch" := by decide
  simp [answerReq, named, maxFiltersPerReq]

/-- What is asked for by id is shown, as far as it may be. -/
private theorem fetch_ok {ids : List EventId} (idle : line.waiting = []) (peer : line.peer = (k, .serving s))
    (ended : fetch (answered looks) ids line = .ok events after) :
    events = visible (looks k 0).node.store (looks k 0).node.groups s.person (capped { ids := some ids }) (looks k 0).now ∧
      Idle s.person after := by
  obtain ⟨_, asked, asks, rest⟩ := bind_eq_ok.mp ended
  obtain ⟨_, _, got, reads⟩ := bind_eq_ok.mp rest
  cases got
  obtain ⟨shown, sub, waiting, found, same⟩ := readEvents_ok reads
  obtain ⟨said, left⟩ := writeClient_ok asks
  rw [peer] at left
  rw [idle, List.nil_append, peer] at said
  let rows := visible (looks k 0).node.store (looks k 0).node.groups s.person (capped { ids := some ids }) (looks k 0).now
  have whole : (s.handle (looks k) (.req "fetch" [{ ids := some ids }])).2 =
      (s, rows.map (.event "fetch") ++ [.eose "fetch"]) := congrArg (s, ·) (answerReq_ids _ _ _)
  rcases conclude_cases (s.handle (looks k) (.req "fetch" [{ ids := some ids }])) with answer | ⟨part, bye, answer, begins, short, notices⟩
  · simp only [answered, answer, whole] at said left
    rw [said] at waiting
    obtain ⟨rows_, nothing⟩ := shown_eq waiting
    rw [found, List.nil_append]
    exact ⟨rows_, nothing, _, _, same.trans left, rfl⟩
  · -- an answer that was cut off has no end
    rw [whole] at begins short
    have events_ : part <+: rows.map (.event "fetch") := (List.prefix_concat_iff.mp begins).resolve_left short
    have ends : RelayMessage.eose sub ∈ part ++ bye := by
      simp only [answered, answer] at said
      rw [← said, waiting]
      exact List.mem_append_right _ List.mem_cons_self
    rcases List.mem_append.mp ends with here | there
    · obtain ⟨ev, _, same⟩ := List.mem_map.mp (events_.subset here)
      cases same
    · obtain ⟨why, same⟩ := notices _ there
      cases same

theorem fetchAll_ok {pieces : List (List EventId)} (few : ∀ piece ∈ pieces, piece.length ≤ maxEventsPerFilter)
    (idle : Idle person line) (ended : fetchAll (answered looks) pieces line = .ok events after) :
    Idle person after ∧ (∀ ev ∈ events, (∃ k, Readable (looks k 0) person ev) ∧ ∃ piece ∈ pieces, ev.id ∈ piece) ∧
      ∀ ev, (∀ k, Readable (looks k 0) person ev) → (∃ piece ∈ pieces, ev.id ∈ piece) → ev ∈ events := by
  induction pieces generalizing line events with
  | nil =>
    cases ended
    exact ⟨idle, by simp, by simp⟩
  | cons ids rest ih =>
    unfold fetchAll at ended
    obtain ⟨first, between, fetched, later⟩ := bind_eq_ok.mp ended
    obtain ⟨more, last, fetches, gives⟩ := bind_eq_ok.mp later
    cases gives
    obtain ⟨empty, k, s, peer, rfl⟩ := idle
    obtain ⟨rfl, idle⟩ := fetch_ok empty peer fetched
    obtain ⟨idle, sound, whole⟩ := ih (fun piece listed => few piece (List.mem_cons_of_mem ids listed)) idle fetches
    have here {ev : Event} : ev ∈ visible (looks k 0).node.store (looks k 0).node.groups s.person (capped { ids := some ids })
        (looks k 0).now ↔ Readable (looks k 0) s.person ev ∧ ev.id ∈ ids := mem_visible_ids (few ids List.mem_cons_self)
    refine ⟨idle, fun ev listed => ?_, ?_⟩
    · rcases List.mem_append.mp listed with now | then_
      · exact ⟨⟨k, (here.mp now).1⟩, ids, List.mem_cons_self, (here.mp now).2⟩
      · obtain ⟨reads, piece, among, named⟩ := sound ev then_
        exact ⟨reads, piece, List.mem_cons_of_mem ids among, named⟩
    · rintro ev reads ⟨piece, listed, named⟩
      rcases List.mem_cons.mp listed with rfl | later
      · exact List.mem_append_left _ (here.mpr ⟨reads k, named⟩)
      · exact List.mem_append_right _ (whole ev reads ⟨piece, later, named⟩)

omit [Negentropy] [Devices] [Wraps] in
/-- What a session with `person` offers to tell apart. -/
def Offered (m : Moment) (person : PublicKey) (ev : Event) : Prop :=
  ev ∈ reconcilable m.node.store m.node.groups person { kinds := some carriedKinds } m.now

omit [Negentropy] [Devices] [Wraps] in
private theorem Offered.readable {m : Moment} {ev : Event} (offered : Offered m person ev) : Readable m person ev := by
  obtain ⟨found, reads, _⟩ := mem_reconcilable.mp offered
  exact ⟨(Store.mem_query.mp found).1, reads⟩

omit [Negentropy] [Devices] [Wraps] in
private theorem Offered.named {m : Moment} {ev : Event} (offered : Offered m person ev) :
    Named (negItems m person { kinds := some carriedKinds }) ev.id :=
  ⟨_, List.mem_map_of_mem offered, rfl⟩

/-- What was fetched from a session that serves `person` is what it offers at every look and what `ours` lacks,
and nothing that it may not show or that `ours` has. -/
structure Delivered (looks : ℕ → Looks) (person : PublicKey) (ours : List (Timestamp × EventId)) (events : List Event) : Prop where
  shown : ∀ ev ∈ events, (∃ k, Readable (looks k 0) person ev) ∧ ¬ Named ours ev.id
  whole : ∀ ev, (∀ k, Offered (looks k 0) person ev) → ¬ Named ours ev.id → ev ∈ events

/-- A sync that ends well has applied what was delivered, and then looked at the binding again. -/
theorem syncWith_fetches (exact_ : Negentropy.Exact) {clock : ℕ → Timestamp} {node : Inner} {dialled : PublicKey} {binding : Event}
    {stats : SyncStats} (idle : Idle person line)
    (ended : (syncWith (answered looks) fuel clock node dialled binding line).2 = .ok stats after) :
    ∃ begun events, let applied := applyFetched clock ⟨node, 1, begun⟩ events
      (syncWith (answered looks) fuel clock node dialled binding line).1 =
          (applied.node.receive binding .fetch (clock applied.looks)).1 ∧
        Delivered looks person (negItems { node, binding, now := clock 0 } dialled { kinds := some carriedKinds }) events := by
  obtain ⟨empty, k, s, peer, rfl⟩ := idle
  unfold syncWith at ended ⊢
  simp only at ended ⊢
  split at ended
  · cases ended
  · rename_i begun have_ events between lacking
    obtain ⟨found, told, reconciled, rest⟩ := bind_eq_ok.mp lacking
    obtain ⟨fetched, last, fetches, gives⟩ := bind_eq_ok.mp rest
    cases gives
    obtain ⟨differences, idle⟩ := reconcileWith_exact exact_ empty peer reconciled
    have few : ∀ piece ∈ chunks fetchChunk found.2.2, piece.length ≤ maxEventsPerFilter :=
      fun piece listed => (length_of_mem_chunks listed).trans (by decide)
    obtain ⟨_, sound, whole⟩ := fetchAll_ok few idle fetches
    have asked {id : EventId} : (∃ piece ∈ chunks fetchChunk found.2.2, id ∈ piece) ↔ id ∈ found.2.2 := by
      rw [← List.mem_flatten, chunks_flatten (by decide : 0 < fetchChunk)]
    refine ⟨{ rounds := found.1, weNeeded := found.2.2.length, theyNeeded := found.2.1.length }, events, ?_,
      ⟨fun ev listed => ?_, fun ev offered lacks => ?_⟩⟩
    · split
      · rename_i error _ pushed
        rw [pushed] at ended
        cases ended
      · rfl
    · obtain ⟨reads, piece⟩ := sound ev listed
      exact ⟨reads, ((differences ev.id).2.mp (asked.mp piece)).2⟩
    · exact whole ev (fun k => (offered k).readable) (asked.mpr ((differences ev.id).2.mpr ⟨(offered k).named, lacks⟩))

end Peers

end HitEnter.Node
