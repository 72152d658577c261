import HitEnter.Anchor.Bridge
import HitEnter.Group.Readers
import HitEnter.Node.SessionBlind

/-! What the bridge tells its clients: what whoever authenticated last may read, on the
subscriptions that are open; and that every request is answered. -/

namespace HitEnter.Anchor

open Wire HitEnter.Group HitEnter.Node Lib.Checks Lib.Counting Lib.Runs

section Bridge
variable [Cards] [Matching] [Devices] [Wraps] [Messages]

/-- What a client says in a turn. -/
def Turn.asked (turn : Turn) : Option ClientMessage :=
  match turn.heard with
  | .text text => Messages.clientMessage text
  | _ => none

/-- Who authenticates in a turn. -/
def Bridge.proves (b : Bridge) (challenge : String) (turn : Turn) : Option PublicKey :=
  match turn.asked with
  | some (.auth ev) => if (b.checkAuth challenge ev (turn.sights 0 0).now).isOk then some ev.pubkey else none
  | _ => none

/-- Who has authenticated last. -/
def Bridge.proved (b : Bridge) (challenge : String) (turns : List Turn) : Option PublicKey :=
  turns.foldl (fun person turn => (b.proves challenge turn).or person) none

/-- What a turn makes of the subscriptions that are open. -/
def Turn.opens (subs : BTreeMap String (List Filter)) (turn : Turn) : BTreeMap String (List Filter) :=
  match turn.asked with
  | some (.req sub filters) => if maxFiltersPerReq < filters.length then subs else subs.insert sub filters
  | some (.close sub) => subs.erase sub
  | _ => subs

/-- The subscriptions that are open. -/
def opened (turns : List Turn) : BTreeMap String (List Filter) := turns.foldl Turn.opens ∅

variable {b : Bridge} {c c' : Conn} {turn : Turn} {turns : List Turn} {challenge : String} {anon : PublicKey}

omit [Matching] [Devices] [Wraps] [Messages] in
/-- A message is answered whatever the socket takes, or the session is over. -/
theorem send_next {out : Inner × Conn × List RelayMessage} (going : (turn.send out).2.1 = some c') :
    c' = out.2.1 ∧ (turn.send out).2.2 = out.2.2 := by
  unfold Turn.send at going ⊢
  split at going
  · exact ⟨(Option.some.inj going).symm, rfl⟩
  · rename_i n _
    simp only at going
    split at going
    · rename_i fits
      exact ⟨(Option.some.inj going).symm, List.take_of_length_le fits⟩
    · cases going

omit [Matching] [Devices] [Wraps] [Messages] in
theorem mem_send {out : Inner × Conn × List RelayMessage} {message : RelayMessage} (said : message ∈ (turn.send out).2.2) :
    message ∈ out.2.2 := by
  unfold Turn.send at said
  split at said
  · exact said
  · exact List.mem_of_mem_take said

omit [Messages] in
/-- A connection after a message: what is said to it. -/
private theorem handle_conn (sights : Sights) (c : Conn) (message : ClientMessage) :
    (b.handle sights c message).2.1 =
      { c with
        reader := match message with
          | .auth ev => if (b.checkAuth c.challenge ev (sights 0 0).now).isOk then some ev.pubkey else c.reader
          | _ => c.reader
        subs := match message with
          | .req sub filters => if maxFiltersPerReq < filters.length then c.subs else c.subs.insert sub filters
          | .close sub => c.subs.erase sub
          | _ => c.subs } := by
  cases message with
  | auth ev =>
    simp only [Bridge.handle]
    cases b.checkAuth c.challenge ev (sights 0 0).now <;> rfl
  | req sub filters =>
    simp only [Bridge.handle]
    split <;> rfl
  | event ev =>
    simp only [Bridge.handle]
    repeat' split
    all_goals rfl
  | _ => rfl

/-- What a turn leaves of a session that goes on. -/
structure Follows (b : Bridge) (turn : Turn) (c c' : Conn) : Prop where
  challenge : c'.challenge = c.challenge
  anon : c'.anon = c.anon
  reader : c'.reader = (b.proves c.challenge turn).or c.reader
  subs : c'.subs = turn.opens c.subs

theorem next_follows (going : b.next (some c) turn = some c') : Follows b turn c c' := by
  have idle (silent : turn.asked = none) : Follows b turn c c := by
    refine ⟨rfl, rfl, ?_, ?_⟩
    · rw [Bridge.proves, silent]
      rfl
    · rw [Turn.opens, silent]
  unfold Bridge.next Bridge.step at going
  cases heard : turn.heard with
  | text text =>
    have asked : turn.asked = Messages.clientMessage text := by rw [Turn.asked, heard]
    rw [heard] at going
    simp only at going
    split at going
    · rename_i parsed
      rw [(send_next going).1]
      exact idle (asked.trans parsed)
    · rename_i message parsed
      have said : turn.asked = some message := asked.trans parsed
      rw [(send_next going).1, handle_conn]
      refine ⟨rfl, rfl, ?_, ?_⟩
      · rw [Bridge.proves, said]
        cases message with
        | auth ev =>
          simp only
          split <;> rfl
        | _ => rfl
      · rw [Turn.opens, said]
        cases message <;> rfl
  | other =>
    rw [heard] at going
    exact Option.some.inj going ▸ idle (by rw [Turn.asked, heard])
  | closed =>
    rw [heard] at going
    cases going
  | live ev =>
    rw [heard] at going
    rw [(send_next going).1]
    exact idle (by rw [Turn.asked, heard])
  | lagged =>
    rw [heard] at going
    exact Option.some.inj going ▸ idle (by rw [Turn.asked, heard])

/-- A session that is still going knows who has authenticated last and what is open. -/
structure Known (b : Bridge) (challenge : String) (anon : PublicKey) (turns : List Turn) (c : Conn) : Prop where
  same : c.challenge = challenge
  fresh : c.anon = anon
  reader : c.reader = b.proved challenge turns
  subs : c.subs = opened turns

omit [Matching] [Devices] [Wraps] in
theorem Known.reads (known : Known b challenge anon turns c) : c.reads = (b.proved challenge turns).getD anon := by
  rw [Conn.reads, known.reader, known.fresh]

theorem known_run (going : run b.next (some (.opened challenge anon)) turns = some c) : Known b challenge anon turns c := by
  induction turns using List.reverseRecOn generalizing c with
  | nil => exact Option.some.inj going ▸ ⟨rfl, rfl, rfl, rfl⟩
  | append_singleton turns turn ih =>
    rw [run_snoc] at going
    cases before : run b.next (some (.opened challenge anon)) turns with
    | none =>
      rw [before] at going
      cases going
    | some c₀ =>
      rw [before] at going
      have known := ih before
      have follows := next_follows going
      refine ⟨follows.challenge.trans known.same, follows.anon.trans known.fresh, ?_, ?_⟩
      · rw [follows.reader, known.reader, known.same, Bridge.proved, Bridge.proved, List.foldl_concat]
      · rw [follows.subs, known.subs, opened, opened, List.foldl_concat]

/-! ### What is shown -/

/-- What `reader` may be shown at a turn: an event that they may read then and that is not the group
key's own, or the relay's word on a group that is public or theirs. -/
def MayShow (b : Bridge) (sights : Sights) (reader : PublicKey) (ev : Event) : Prop :=
  (nativeState ev = false ∧ ∃ i j, (sights i j).node.groups.mayRead reader ev (sights i j).now = true) ∨
    ∃ i s names j, some s ∈ (sights i 1).node.groups.carried.values ∧ (s.isMember reader ∨ s.isPublic) ∧
      ev ∈ translate b.relay s names (sights i j).now

omit [Matching] [Devices] [Wraps] [Messages] in
private theorem mem_translations {sights : ℕ → Sight} {reader : PublicKey} {ev : Event}
    (told : ev ∈ b.translations sights reader) : ∃ s names j, some s ∈ (sights 0).node.groups.carried.values ∧
      (s.isMember reader ∨ s.isPublic) ∧ ev ∈ translate b.relay s names (sights (j + 1)).now := by
  obtain ⟨entry, listed, member⟩ := List.mem_flatMap.mp told
  obtain ⟨state, carried, kept⟩ := List.mem_filterMap.mp (List.fst_mem_of_mem_zipIdx listed)
  obtain ⟨rfl, due⟩ := Option.filter_eq_some_iff.mp kept
  exact ⟨entry.1, _, entry.2, carried, by simpa using due, member⟩

omit [Devices] [Wraps] [Messages] in
theorem answer_shows {sights : Sights} {i : ℕ} {reader : PublicKey} {f : Filter} {ev : Event}
    (answered : ev ∈ b.answer (sights i) reader f) : MayShow b sights reader ev := by
  unfold Bridge.answer at answered
  rcases List.mem_append.mp (List.mem_of_mem_take answered) with shown | told
  · obtain ⟨found, plain⟩ := List.mem_filter.mp shown
    exact .inl ⟨by simpa using plain, i, 0, (List.mem_filter.mp found).2⟩
  · split at told
    · obtain ⟨s, names, j, carried, due, member⟩ := mem_translations (List.mem_filter.mp told).1
      exact .inr ⟨i, s, names, j + 1 + 1, carried, due, member⟩
    · cases told

omit [Devices] [Wraps] [Messages] in
theorem live_shows {sights : Sights} {sub : String} {ev shown : Event}
    (told : RelayMessage.event sub shown ∈ c.live (sights 0 0) ev) : MayShow b sights c.reads shown := by
  unfold Conn.live at told
  split at told
  · cases told
  · rename_i due
    simp only [Bool.or_eq_true, Bool.not_eq_true', not_or, Bool.not_eq_true, Bool.not_eq_false] at due
    obtain ⟨entry, _, same⟩ := List.mem_map.mp told
    cases same
    exact .inl ⟨due.1, 0, 0, due.2⟩

omit [Messages] in
theorem handle_shows {sights : Sights} {message : ClientMessage} {sub : String} {ev : Event}
    (said : RelayMessage.event sub ev ∈ (b.handle sights c message).2.2) : MayShow b sights c.reads ev := by
  cases message with
  | req named filters =>
    simp only [Bridge.handle] at said
    split at said
    · simp at said
    · rcases List.mem_append.mp said with row | last
      · obtain ⟨shown, listed, same⟩ := List.mem_map.mp row
        cases same
        obtain ⟨entry, _, answered⟩ := List.mem_flatMap.mp (mem_firstsFrom listed).1
        exact answer_shows answered
      · simp at last
  | auth event =>
    simp only [Bridge.handle] at said
    split at said <;> simp at said
  | event event =>
    simp only [Bridge.handle] at said
    split at said
    · simp only [List.mem_singleton] at said
      split at said <;> cases said
    · repeat' split at said
      all_goals simp at said
  | _ => simp [Bridge.handle] at said

/-- Whatever a client sends and the node becomes: it is shown only what whoever authenticated last may
read, and what a fresh key may before anybody has. -/
theorem bridge_reads (b : Bridge) (challenge : String) (anon : PublicKey) (before : List Turn) (turn : Turn) {sub : String} {ev : Event}
    (said : RelayMessage.event sub ev ∈ (b.step turn (run b.next (some (.opened challenge anon)) before)).2.2) :
    MayShow b turn.sights ((b.proved challenge before).getD anon) ev := by
  cases going : run b.next (some (.opened challenge anon)) before with
  | none =>
    rw [going] at said
    cases said
  | some c =>
    rw [← (known_run going).reads]
    rw [going] at said
    simp only [Bridge.step] at said
    split at said
    · split at said
      · simpa using mem_send said
      · exact handle_shows (mem_send said)
    · cases said
    · cases said
    · exact live_shows (mem_send said)
    · simpa using List.mem_of_mem_take said

/-! ### The live feed -/

omit [Devices] [Wraps] [Messages] in
private theorem nodup_live (sight : Sight) (c : Conn) (ev : Event) : (c.live sight ev).Nodup := by
  unfold Conn.live
  split
  · exact List.nodup_nil
  · have keys : ((c.subs.toList.filter fun entry => entry.2.any (Matching.matchEvent · ev)).map Prod.fst).Nodup := by
      apply List.Nodup.sublist (List.filter_sublist.map _)
      rw [Std.ExtTreeMap.map_fst_toList_eq_keys]
      exact Std.ExtTreeMap.nodup_keys
    have told : Function.Injective fun sub => RelayMessage.event sub ev := fun _ _ same => (RelayMessage.event.inj same).1
    have each := keys.map told
    rwa [List.map_map] at each

omit [Devices] [Wraps] [Messages] in
private theorem mem_live {sight : Sight} {ev : Event} {message : RelayMessage} : message ∈ c.live sight ev ↔
    ∃ sub filters, message = .event sub ev ∧ c.subs[sub]? = some filters ∧
      filters.any (Matching.matchEvent · ev) = true ∧ nativeState ev = false ∧
      sight.node.groups.mayRead c.reads ev sight.now = true := by
  unfold Conn.live
  cases nativeState ev with
  | true => simp
  | false =>
    cases sight.node.groups.mayRead c.reads ev sight.now with
    | false => simp
    | true =>
      simp only [Bool.not_true, Bool.or_false, Bool.false_eq_true, ↓reduceIte, and_true, List.mem_map, List.mem_filter,
        Prod.exists, Std.ExtTreeMap.mem_toList_iff_getElem?_eq_some]
      constructor
      · intro ⟨sub, filters, ⟨found, matched⟩, same⟩
        exact ⟨sub, filters, same.symm, found, matched⟩
      · intro ⟨sub, filters, same, found, matched⟩
        exact ⟨sub, filters, ⟨found, matched⟩, same.symm⟩

private theorem step_live {ev : Event} (live : turn.heard = .live ev) (takes : turn.takes = none) :
    (b.step turn (some c)).2.2 = c.live (turn.sights 0 0) ev := by
  simp only [Bridge.step, live, Turn.send, takes]

/-- An event that comes in is told on each subscription that is open and one of whose filters it
matches, once, if whoever authenticated last may read it; and on no other. -/
theorem bridge_live {before : List Turn} {ev : Event} (going : run b.next (some (.opened challenge anon)) before = some c)
    (live : turn.heard = .live ev) (takes : turn.takes = none) :
    (b.step turn (some c)).2.2.Nodup ∧ ∀ message, message ∈ (b.step turn (some c)).2.2 ↔
      ∃ sub filters, message = .event sub ev ∧ (opened before)[sub]? = some filters ∧
        filters.any (Matching.matchEvent · ev) = true ∧ nativeState ev = false ∧
        (turn.sights 0 0).node.groups.mayRead ((b.proved challenge before).getD anon) ev (turn.sights 0 0).now = true := by
  have known := known_run going
  rw [step_live live takes]
  refine ⟨nodup_live _ _ _, fun message => ?_⟩
  rw [mem_live, known.subs, known.reads]

/-! ### Answers -/

/-- All that is said to a client over some turns. -/
def Bridge.talk (b : Bridge) : Option Conn → List Turn → List RelayMessage
  | _, [] => []
  | c, turn :: rest => (b.step turn c).2.2 ++ b.talk (b.next c turn) rest

/-- Is it an event that is handed over, or an `AUTH`, with this id? -/
def offers (id : EventId) : ClientMessage → Bool
  | .event ev | .auth ev => ev.id == id
  | _ => false

omit [Messages] in
/-- Each message has its answer. -/
private theorem handle_answers (sights : Sights) (c : Conn) (message : ClientMessage) (sub : String) (id : EventId) :
    (b.handle sights c message).2.2.countP (RelayMessage.ends sub) = (if message.asks sub then 1 else 0) ∧
      (b.handle sights c message).2.2.countP (RelayMessage.isOk id) = if offers id message then 1 else 0 := by
  have ok (named : EventId) (accepted : Bool) (why : String) :
      [RelayMessage.ok named accepted why].countP (RelayMessage.ends sub) = 0 ∧
        [RelayMessage.ok named accepted why].countP (RelayMessage.isOk id) = if named == id then 1 else 0 := by
    simp [RelayMessage.ends, RelayMessage.isOk, List.countP_cons]
  cases message with
  | auth ev =>
    simp only [Bridge.handle]
    split
    · exact ok _ _ _
    · exact ok _ _ _
  | req named filters =>
    simp only [Bridge.handle]
    split
    · simp [RelayMessage.ends, RelayMessage.isOk, ClientMessage.asks, offers, List.countP_cons]
    · have rows (check : RelayMessage → Bool) (none_ : ∀ ev, check (.event named ev) = false) (rows : List Event) :
          (rows.map (RelayMessage.event named)).countP check = 0 := by
        rw [List.countP_eq_zero]
        intro message row
        obtain ⟨ev, _, rfl⟩ := List.mem_map.mp row
        simp [none_]
      rw [List.countP_append, List.countP_append, rows _ fun _ => rfl, rows _ fun _ => rfl]
      simp [RelayMessage.ends, RelayMessage.isOk, ClientMessage.asks, offers, List.countP_cons]
  | event ev =>
    obtain ⟨accepted, why, verdict⟩ : ∃ accepted why, (b.handle sights c (.event ev)).2.2 = [.ok ev.id accepted why] := by
      simp only [Bridge.handle]
      split
      · split <;> exact ⟨_, _, rfl⟩
      · split
        · exact ⟨_, _, rfl⟩
        · split <;> exact ⟨_, _, rfl⟩
    rw [verdict]
    exact ok _ _ _
  | _ => simp [Bridge.handle, RelayMessage.ends, RelayMessage.isOk, ClientMessage.asks, offers]

private theorem step_answers (going : b.next (some c) turn = some c') (sub : String) (id : EventId) :
    (b.step turn (some c)).2.2.countP (RelayMessage.ends sub) = (if turn.asked.any (ClientMessage.asks sub) then 1 else 0) ∧
      (b.step turn (some c)).2.2.countP (RelayMessage.isOk id) = if turn.asked.any (offers id) then 1 else 0 := by
  obtain ⟨sights, heard, takes⟩ := turn
  cases heard with
  | text text =>
    cases parsed : Messages.clientMessage text with
    | none =>
      have asked : Turn.asked ⟨sights, .text text, takes⟩ = none := parsed
      simp only [Bridge.next, Bridge.step, parsed] at going ⊢
      rw [(send_next going).2, asked]
      exact ⟨rfl, rfl⟩
    | some message =>
      have asked : Turn.asked ⟨sights, .text text, takes⟩ = some message := parsed
      simp only [Bridge.next, Bridge.step, parsed] at going ⊢
      rw [(send_next going).2, asked]
      exact handle_answers _ _ _ _ _
  | other => exact ⟨rfl, rfl⟩
  | closed => cases going
  | live ev =>
    simp only [Bridge.next, Bridge.step] at going ⊢
    rw [(send_next going).2]
    have plain (check : RelayMessage → Bool) (other : ∀ sub, check (.event sub ev) = false) :
        (c.live (sights 0 0) ev).countP check = 0 := by
      apply List.countP_eq_zero.mpr
      intro message told
      unfold Conn.live at told
      split at told
      · cases told
      · obtain ⟨entry, _, rfl⟩ := List.mem_map.mp told
        simp [other]
    exact ⟨plain _ fun _ => rfl, plain _ fun _ => rfl⟩
  | lagged =>
    have plain (check : RelayMessage → Bool) (why : String) (n : ℕ) (other : check (.notice why) = false) :
        ([RelayMessage.notice why].take n).countP check = 0 := by
      apply List.countP_eq_zero.mpr
      intro message told
      rw [List.mem_singleton.mp (List.mem_of_mem_take told), other]
      exact Bool.false_ne_true
    exact ⟨plain _ _ _ rfl, plain _ _ _ rfl⟩

private theorem run_ended (turns : List Turn) : run b.next none turns = none := by
  induction turns with
  | nil => rfl
  | cons turn rest ih => exact ih

/-- While a session goes on, every `REQ` has been answered with one end of its subscription, and every
`EVENT` and `AUTH` with one verdict. -/
theorem bridge_answers (b : Bridge) (start : Conn) {turns : List Turn} (going : run b.next (some start) turns = some c)
    (sub : String) (id : EventId) :
    (b.talk (some start) turns).countP (RelayMessage.ends sub) =
        turns.countP (fun turn => turn.asked.any (ClientMessage.asks sub)) ∧
      (b.talk (some start) turns).countP (RelayMessage.isOk id) = turns.countP fun turn => turn.asked.any (offers id) := by
  induction turns generalizing start with
  | nil => exact ⟨rfl, rfl⟩
  | cons turn rest ih =>
    cases next : b.next (some start) turn with
    | none =>
      have ended : run b.next (b.next (some start) turn) rest = some c := going
      rw [next, run_ended] at ended
      cases ended
    | some after =>
      have later : run b.next (some after) rest = some c := next ▸ going
      obtain ⟨ends, oks⟩ := ih after later
      obtain ⟨first, second⟩ := step_answers next sub id
      simp only [Bridge.talk, next, List.countP_append, List.countP_cons, ends, oks, first, second]
      exact ⟨Nat.add_comm _ _, Nat.add_comm _ _⟩

end Bridge

/-! ### A stranger asks for everything -/

abbrev plainCards : Cards where
  toNostrEvents := plainEvents
  customText _ _ := none
  customFlag _ _ := none
  name _ := none
  displayName _ := none
  lud16 _ := none

attribute [local instance] plainCards

instance plainMatching : Matching := ⟨Filter.matchEvent⟩

def clubBridge : Bridge := ⟨steward, none⟩

def clubTurn (heard : Heard) : Turn where
  sights _ _ := ⟨foundersNode, 600⟩
  heard := heard

def strangersConn : Conn := { Conn.opened "c0ffee" caller with subs := (∅ : BTreeMap String (List Filter)).insert "all" [{}] }

private theorem asked_all : (clubTurn (.text requestAll)).asked = some (.req "all" [{}]) := by
  simp [Turn.asked, clubTurn, Messages.clientMessage]

private theorem strangersConn_next :
    run clubBridge.next (some (.opened "c0ffee" caller)) [clubTurn (.text requestAll)] = some strangersConn := by
  have parsed : Messages.clientMessage requestAll = some (.req "all" [{}]) := asked_all
  change clubBridge.next _ _ = _
  simp only [Bridge.next, Bridge.step, clubTurn, parsed, Turn.send, handle_conn]
  rfl

private theorem strangersConn_open : strangersConn.subs["all"]? = some [{}] := Std.ExtTreeMap.getElem?_insert_self

private theorem hello_shown : [({} : Filter)].any (Matching.matchEvent · (hello 500)) = true ∧
    nativeState (hello 500) = false ∧ foundersNode.groups.mayRead caller (hello 500) 600 = true := by
  decide +kernel

private theorem unproved : clubBridge.proved "c0ffee" [clubTurn (.text requestAll)] = none := by
  simp only [Bridge.proved, Bridge.proves, asked_all, List.foldl_cons, List.foldl_nil, Option.or_none]

theorem bridge_reads_stranger : MayShow clubBridge (clubTurn (.live (hello 500))).sights caller (hello 500) := by
  have said : RelayMessage.event "all" (hello 500) ∈ (clubBridge.step (clubTurn (.live (hello 500)))
      (run clubBridge.next (some (.opened "c0ffee" caller)) [clubTurn (.text requestAll)])).2.2 := by
    rw [strangersConn_next, step_live rfl rfl]
    exact mem_live.mpr ⟨"all", [{}], rfl, strangersConn_open, hello_shown⟩
  have shows := bridge_reads clubBridge "c0ffee" caller _ _ said
  rwa [unproved] at shows

theorem bridge_live_stranger :
    RelayMessage.event "all" (hello 500) ∈ (clubBridge.step (clubTurn (.live (hello 500))) (some strangersConn)).2.2 := by
  have open_ : opened [clubTurn (.text requestAll)] = strangersConn.subs := by
    simp only [opened, Turn.opens, asked_all, List.foldl_cons, List.foldl_nil]
    rfl
  obtain ⟨matched, plain, reads⟩ := hello_shown
  refine ((bridge_live strangersConn_next rfl rfl).2 _).mpr ⟨"all", [{}], rfl, ?_, matched, plain, ?_⟩
  · rw [open_]
    exact strangersConn_open
  · rw [unproved]
    exact reads

theorem bridge_answers_stranger :
    (clubBridge.talk (some (.opened "c0ffee" caller)) [clubTurn (.text requestAll)]).countP (RelayMessage.ends "all") = 1 := by
  have answered := (bridge_answers clubBridge (.opened "c0ffee" caller) strangersConn_next "all" ⟨0⟩).1
  rw [List.countP_singleton, asked_all] at answered
  exact answered

end HitEnter.Anchor
