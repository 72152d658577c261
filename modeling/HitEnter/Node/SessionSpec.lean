import HitEnter.Node.Session

/-! What a session tells, and to whom: events the person it serves may read, and of sets
of ids only what the crate makes of such a set. -/

namespace HitEnter.Node

open Wire HitEnter.Group Lib.Json Lib.Runs Lib.Ranks

section Sessions
variable [NostrEvents]

/-- `person` may read `ev`, which is held. -/
def Readable (m : Moment) (person : PublicKey) (ev : Event) : Prop :=
  ev ∈ m.node.store.events ∧ m.node.groups.mayRead person ev m.now = true

theorem mem_visible {m : Moment} {person : PublicKey} {filter : Filter} {ev : Event}
    (shown : ev ∈ visible m.node.store m.node.groups person filter m.now) : Readable m person ev := by
  obtain ⟨found, reads⟩ := List.mem_filter.mp shown
  exact ⟨(Store.mem_query.mp found).1, reads⟩

theorem mem_negItems {m : Moment} {person : PublicKey} {filter : Filter} {item : Timestamp × EventId}
    (listed : item ∈ negItems m person filter) : ∃ ev, Readable m person ev ∧ item = (ev.createdAt, ev.id) := by
  obtain ⟨ev, member, same⟩ := List.mem_map.mp listed
  obtain ⟨found, reads, _⟩ := mem_reconcilable.mp member
  exact ⟨ev, ⟨(Store.mem_query.mp found).1, reads⟩, same.symm⟩

variable [Negentropy]

/-- The states that a set's own comes to, whatever the other side sends. -/
inductive Negentropy.Of (items : List (Timestamp × EventId)) : Negentropy.State → Prop where
  | owned {neg : Negentropy.State} (made : Negentropy.owned items = some neg) : Of items neg
  | next {neg after : Negentropy.State} {input out : List UInt8} (before : Of items neg)
      (round : Negentropy.reconcile neg input = some (after, out)) : Of items after
  | begun {neg after : Negentropy.State} {out : List UInt8} (before : Of items neg)
    (first : Negentropy.initiate neg = some (after, out)) : Of items after
  | more {neg after : Negentropy.State} {input out : List UInt8} {have_ need have' need' : List EventId} (before : Of items neg)
    (round : Negentropy.reconcileWithIds neg input have_ need = some (after, some out, have', need')) : Of items after

/-- A state of a set of which `person` might read every event at a turn taken. -/
def OfReadable (past : List (Looks × Reading)) (person : PublicKey) (neg : Negentropy.State) : Prop :=
  ∃ turn ∈ past, ∃ items, (∀ item ∈ items, ∃ ev, Readable (turn.1 0) person ev ∧ item = (ev.createdAt, ev.id)) ∧
    Negentropy.Of items neg

/-- What may be said to `person` at a turn: an event only if they may read it then, and the
round of a set only if it is one of what they may read. -/
def MayTell (past : List (Looks × Reading)) (person : PublicKey) (looks : Looks) : RelayMessage → Prop
  | .event _ ev => ∃ i, Readable (looks i) person ev
  | .negMsg _ out => ∃ neg after input, OfReadable past person neg ∧ Negentropy.reconcile neg input = some (after, out)
  | _ => True

structure Serving.Sound (past : List (Looks × Reading)) (s : Serving) : Prop where
  few : s.negs.size ≤ maxNegSessions
  negs : ∀ (sub : String) (neg : Negentropy.State), s.negs[sub]? = some neg → OfReadable past s.person neg

theorem OfReadable.mono {past more : List (Looks × Reading)} {person : PublicKey} {neg : Negentropy.State}
    (about : OfReadable past person neg) : OfReadable (past ++ more) person neg := by
  obtain ⟨turn, taken, rest⟩ := about
  exact ⟨turn, List.mem_append_left more taken, rest⟩

theorem Serving.Sound.mono {past more : List (Looks × Reading)} {s : Serving} (sound : s.Sound past) :
    s.Sound (past ++ more) :=
  ⟨sound.few, fun sub neg kept => (sound.negs sub neg kept).mono⟩

theorem MayTell.mono {past more : List (Looks × Reading)} {person : PublicKey} {looks : Looks} {message : RelayMessage}
    (due : MayTell past person looks message) : MayTell (past ++ more) person looks message := by
  cases message with
  | negMsg sub out =>
    obtain ⟨neg, after, input, about, round⟩ := due
    exact ⟨neg, after, input, about.mono, round⟩
  | _ => exact due

/-- What a message adds to one set of ids. -/
private theorem Serving.Sound.insert {past : List (Looks × Reading)} {s : Serving} (sound : s.Sound past) {sub : String}
    {neg : Negentropy.State} (about : OfReadable past s.person neg)
    (room : s.negs.contains sub = true ∨ s.negs.size < maxNegSessions) :
    Serving.Sound past { s with negs := s.negs.insert sub neg } := by
  constructor
  · change (s.negs.insert sub neg).size ≤ maxNegSessions
    rw [Std.ExtTreeMap.size_insert]
    have few := sound.few
    split
    · exact few
    · rename_i other
      rcases room with known | free
      · exact absurd known other
      · exact free
  · intro other kept found
    change (s.negs.insert sub neg)[other]? = some kept at found
    rw [Std.ExtTreeMap.getElem?_insert] at found
    split at found
    · cases found
      exact about
    · exact sound.negs other kept found

private theorem Serving.Sound.erase {past : List (Looks × Reading)} {s : Serving} (sound : s.Sound past) {sub : String} :
    Serving.Sound past { s with negs := s.negs.erase sub } := by
  constructor
  · exact Std.ExtTreeMap.size_erase_le.trans sound.few
  · intro other kept found
    change (s.negs.erase sub)[other]? = some kept at found
    rw [Std.ExtTreeMap.getElem?_erase] at found
    split at found
    · cases found
    · exact sound.negs other kept found

omit [Negentropy] in
theorem mem_answerReq {looks : Looks} {person : PublicKey} {sub : String} {filters : List Filter} {message : RelayMessage}
    (said : message ∈ answerReq looks person sub filters) :
    (∃ why, message = .closed sub why) ∨ message = .eose sub ∨
      ∃ i ev, message = .event sub ev ∧ Readable (looks i) person ev := by
  unfold answerReq at said
  split at said
  · exact .inl ⟨_, List.mem_singleton.mp said⟩
  · split at said
    · exact .inl ⟨_, List.mem_singleton.mp said⟩
    · rcases List.mem_append.mp said with event | last
      · obtain ⟨entry, _, shown⟩ := List.mem_flatMap.mp event
        obtain ⟨ev, held, rfl⟩ := List.mem_map.mp shown
        exact .inr (.inr ⟨entry.2, ev, rfl, mem_visible held⟩)
      · exact .inr (.inl (List.mem_singleton.mp last))

variable [Devices] [Wraps]

omit [Negentropy] [Devices] in
/-- With one look at the node, a `REQ` has its answer. -/
theorem answerReq_text (m : Moment) (person : PublicKey) (sub : String) (filters : List Filter) :
    (answerReq (fun _ => m) person sub filters).map RelayMessage.text = reqAnswer m.node person sub filters m.now := by
  have each (rows : Filter → List RelayMessage) : (filters.zipIdx.flatMap fun entry => rows entry.1) = filters.flatMap rows := by
    rw [← List.flatMap_map, List.zipIdx_map_fst]
  unfold answerReq reqAnswer
  rw [each fun filter => (visible m.node.store m.node.groups person (capped filter) m.now).map (.event sub)]
  split
  · rfl
  · split
    · rfl
    · simp only [List.map_append, List.map_flatMap, List.map_map, Function.comp_def, RelayMessage.text, List.map_cons, List.map_nil]

/-- One message keeps a session to what its person may read. -/
theorem Serving.Sound.handle {past : List (Looks × Reading)} {s : Serving} {looks : Looks} {read : Reading}
    (sound : s.Sound past) (taken : (looks, read) ∈ past) (message : ClientMessage) :
    (s.handle looks message).2.1.Sound past ∧ (s.handle looks message).2.1.person = s.person ∧
      ∀ reply ∈ (s.handle looks message).2.2, MayTell past s.person looks reply := by
  cases message with
  | event ev => exact ⟨sound, rfl, by simp [Serving.handle, MayTell]⟩
  | req sub filters =>
    refine ⟨sound, rfl, fun reply said => ?_⟩
    rcases mem_answerReq said with ⟨_, rfl⟩ | rfl | ⟨i, ev, rfl, readable⟩
    · exact trivial
    · exact trivial
    · exact ⟨i, readable⟩
  | close sub => exact ⟨sound, rfl, by simp [Serving.handle]⟩
  | negOpen sub filter initial =>
    simp only [Serving.handle]
    split
    · exact ⟨sound, rfl, by simp [MayTell]⟩
    · rename_i room
      split
      · rename_i neg out opened
        simp only [openNeg, Option.bind_eq_bind, Option.bind_eq_some_iff] at opened
        obtain ⟨first, made, input, _, round⟩ := opened
        have begun : OfReadable past s.person first :=
          ⟨(looks, read), taken, _, fun item listed => mem_negItems listed, .owned made⟩
        have about : OfReadable past s.person neg :=
          ⟨(looks, read), taken, _, fun item listed => mem_negItems listed, .next (.owned made) round⟩
        have free : s.negs.contains sub = true ∨ s.negs.size < maxNegSessions := by
          by_contra full
          simp only [not_or, Bool.not_eq_true, not_lt] at full
          exact room ⟨full.2, full.1⟩
        refine ⟨sound.insert about free, rfl, List.forall_mem_singleton.mpr ?_⟩
        exact ⟨first, neg, input, begun, round⟩
      · exact ⟨sound, rfl, by simp [MayTell]⟩
  | negMsg sub message =>
    simp only [Serving.handle]
    split
    · rename_i after out answered
      obtain ⟨neg, kept, rest⟩ := Option.bind_eq_some_iff.mp answered
      obtain ⟨input, _, round⟩ := Option.bind_eq_some_iff.mp rest
      obtain ⟨turn, listed, items, readable, own⟩ := sound.negs sub neg kept
      have about : OfReadable past s.person after := ⟨turn, listed, items, readable, .next own round⟩
      have known : s.negs.contains sub = true := by
        rw [Std.ExtTreeMap.contains_eq_isSome_getElem?, kept]
        rfl
      refine ⟨sound.insert about (.inl known), rfl, List.forall_mem_singleton.mpr ?_⟩
      exact ⟨neg, after, input, sound.negs sub neg kept, round⟩
    · exact ⟨sound.erase, rfl, by simp [MayTell]⟩
  | negClose sub => exact ⟨sound.erase, rfl, by simp [Serving.handle]⟩
  | auth ev => exact ⟨sound, rfl, by simp [Serving.handle, MayTell]⟩
  | unsupported => exact ⟨sound, rfl, by simp [Serving.handle, MayTell]⟩

omit [Devices] in
/-- Answers that are all written leave the session going on; else it ends, with a notice. -/
theorem Serving.conclude_cases (out : Inner × Serving × List RelayMessage) :
    (Serving.conclude out).2 = (.serving out.2.1, out.2.2) ∨ (Serving.conclude out).2.1 = .ended ∧
      ∀ reply ∈ (Serving.conclude out).2.2, reply ∈ out.2.2 ∨ ∃ why, reply = .notice why := by
  unfold Serving.conclude
  split
  · rename_i fits
    exact .inl (by rw [write_whole fits])
  · refine .inr ⟨rfl, fun reply said => ?_⟩
    rcases List.mem_append.mp said with own | last
    · exact .inl ((write_begins _).subset own)
    · exact .inr ⟨_, List.mem_singleton.mp ((write_begins _).subset last)⟩

/-- Does it show anything of what is held? -/
def RelayMessage.shows : RelayMessage → Bool
  | .event .. | .negMsg .. => true
  | _ => false

variable {conn : EndpointId}

/-- At a turn taken, whoever dialled proved to be on a device of `person`. -/
def Authenticated (conn : EndpointId) (past : List (Looks × Reading)) (person : PublicKey) : Prop :=
  ∃ turn ∈ past, ∃ presented,
    ((turn.1 0).node.book.authenticate presented conn (turn.1 0).now).2 = .ok person

/-- A session so far: whom it serves, if it knows, and that it keeps to what they may read. -/
structure Record.Sound (conn : EndpointId) (person : Option PublicKey) (r : Record) : Prop where
  known : ∀ p ∈ person, Authenticated conn r.past p
  said : ∀ entry ∈ r.said, entry.2.shows = true → ∃ p ∈ person, MayTell r.past p entry.1 entry.2
  unknown : r.session = .hello → person = none
  serving : ∀ s, r.session = .serving s → s.person ∈ person ∧ s.Sound r.past

omit [Wraps] in
private theorem Record.Sound.said_mono {person : Option PublicKey} {r : Record} (sound : r.Sound conn person)
    (turn : Looks × Reading) : ∀ entry ∈ r.said, entry.2.shows = true →
      ∃ p ∈ person, MayTell (r.past ++ [turn]) p entry.1 entry.2 := by
  intro entry listed shows
  obtain ⟨p, own, due⟩ := sound.said entry listed shows
  exact ⟨p, own, due.mono⟩

/-- The answers to one message, written. -/
private theorem Record.Sound.conclude {person : Option PublicKey} {r : Record} {turn : Looks × Reading}
    {out : Inner × Serving × List RelayMessage}
    (known : ∀ p ∈ person, Authenticated conn (r.past ++ [turn]) p)
    (said : ∀ entry ∈ r.said, entry.2.shows = true → ∃ p ∈ person, MayTell (r.past ++ [turn]) p entry.1 entry.2)
    (own : out.2.1.person ∈ person) (serving : out.2.1.Sound (r.past ++ [turn]))
    (due : ∀ reply ∈ out.2.2, reply.shows = true → MayTell (r.past ++ [turn]) out.2.1.person turn.1 reply) :
    (r.add turn (Serving.conclude out).2).Sound conn person := by
  unfold Record.add
  rcases Serving.conclude_cases out with whole | ⟨ended, spoken⟩
  · rw [whole]
    refine ⟨known, fun entry listed shows => ?_, by simp, fun s same => ?_⟩
    · rcases List.mem_append.mp listed with old | new
      · exact said entry old shows
      · obtain ⟨reply, answered, rfl⟩ := List.mem_map.mp new
        exact ⟨_, own, due reply answered shows⟩
    · cases same
      exact ⟨own, serving⟩
  · rw [ended]
    refine ⟨known, fun entry listed shows => ?_, by simp, by simp⟩
    rcases List.mem_append.mp listed with old | new
    · exact said entry old shows
    · obtain ⟨reply, answered, rfl⟩ := List.mem_map.mp new
      rcases spoken reply answered with member | ⟨why, rfl⟩
      · exact ⟨_, own, due reply member shows⟩
      · cases shows

omit [Wraps] in
private theorem Record.Sound.ended {person : Option PublicKey} {r : Record} {turn : Looks × Reading} {replies : List RelayMessage}
    (sound : r.Sound conn person) (plain : ∀ reply ∈ replies, reply.shows = false) :
    (r.add turn (.ended, replies)).Sound conn person := by
  refine ⟨fun p own => ?_, fun entry listed shows => ?_, nofun, nofun⟩
  · obtain ⟨before, listed, rest⟩ := sound.known p own
    exact ⟨before, List.mem_append_left [turn] listed, rest⟩
  · rcases List.mem_append.mp listed with old | new
    · exact sound.said_mono turn entry old shows
    · obtain ⟨reply, answered, rfl⟩ := List.mem_map.mp new
      rw [plain reply answered] at shows
      cases shows

omit [Negentropy] [Devices] in
private theorem refuse_plain (error : SessionError) : ∀ reply ∈ refuse error, reply.shows = false := by
  intro reply said
  rw [List.mem_singleton.mp ((write_begins _).subset said)]
  rfl

variable [Messages]

private theorem Record.Sound.step {person : Option PublicKey} {r : Record} (sound : r.Sound conn person)
    (turn : Looks × Reading) : ∃ next, (r.step conn turn).Sound conn next := by
  obtain ⟨looks, read⟩ := turn
  have taken : (looks, read) ∈ r.past ++ [(looks, read)] := by simp
  have said := sound.said_mono (looks, read)
  unfold Record.step
  cases phase : r.session with
  | hello =>
    cases read with
    | error error => exact ⟨person, sound.ended (refuse_plain (.frame error))⟩
    | ok body =>
      simp only [Session.step]
      split
      · rename_i error _
        exact ⟨person, sound.ended (refuse_plain (.hello error))⟩
      · rename_i presented decoded
        split
        · rename_i error _
          exact ⟨person, sound.ended (refuse_plain (.binding error))⟩
        · rename_i node p accepted
          have proved : Authenticated conn (r.past ++ [(looks, .ok body)]) p := by
            refine ⟨(looks, .ok body), taken, presented, ?_⟩
            unfold Inner.authenticate at accepted
            split at accepted
            · cases accepted
            · rename_i known
              rw [known]
              exact congrArg Prod.snd accepted
          refine ⟨some p, Record.Sound.conclude ?_ ?_ rfl ⟨by simp, by simp⟩ (by simp [RelayMessage.shows])⟩
          · intro q own
            cases own
            exact proved
          · intro entry listed shows
            obtain ⟨q, own, _⟩ := sound.said entry listed shows
            rw [sound.unknown phase] at own
            cases own
  | serving s =>
    obtain ⟨own, serving⟩ := sound.serving s phase
    have known : ∀ p ∈ person, Authenticated conn (r.past ++ [(looks, read)]) p := by
      intro p member
      obtain ⟨before, listed, rest⟩ := sound.known p member
      exact ⟨before, List.mem_append_left _ listed, rest⟩
    refine ⟨person, ?_⟩
    cases read with
    | error error =>
      cases error with
      | closed => exact sound.ended (by simp)
      | tooLarge announced => exact sound.ended (refuse_plain (.frame (.tooLarge announced)))
      | empty => exact sound.ended (refuse_plain (.frame .empty))
      | truncated got expected => exact sound.ended (refuse_plain (.frame (.truncated got expected)))
      | transport why => exact sound.ended (refuse_plain (.frame (.transport why)))
    | ok body =>
      simp only [Session.step]
      split
      · exact Record.Sound.conclude known said own serving.mono (by simp [RelayMessage.shows])
      · split
        · exact Record.Sound.conclude known said own serving.mono (by simp [RelayMessage.shows])
        · rename_i message _
          obtain ⟨kept, same, due⟩ := serving.mono.handle taken message
          exact Record.Sound.conclude known said (same ▸ own) kept fun reply answered _ => same ▸ due reply answered
  | ended => exact ⟨person, sound.ended (by simp)⟩

end Sessions

end HitEnter.Node
