import HitEnter.Node.Peers

/-! A sync with a session that keeps up ends well: the crate comes to an end, and whatever the
session says to it fits a frame. -/

namespace HitEnter.Node

open Wire HitEnter.Group Lib.Dialogue Lib.Rounds Lib.Ranks Lib.Json

section Ending
variable [NostrEvents] [Negentropy] [Devices] [Wraps]

/-- Every message fits a frame. -/
def Written (out : List RelayMessage) : Prop := (write out).2 = none

omit [Negentropy] [Devices] in
theorem written_of_small {out : List RelayMessage}
    (small : ∀ message ∈ out, 0 < size message.text ∧ size message.text ≤ maxFrameBytes) : Written out := by
  induction out with
  | nil => rfl
  | cons message rest ih =>
    obtain ⟨some_, fits⟩ := small message List.mem_cons_self
    obtain ⟨frame, written⟩ := encodeFrame_ok.mpr ⟨List.ne_nil_of_length_pos some_, fits⟩
    have later : (write rest).2 = none := ih fun other listed => small other (List.mem_cons_of_mem message listed)
    unfold Written write
    rw [written]
    exact later

omit [Negentropy] [Devices] in
/-- An answer of events that fit a frame each fits. -/
private theorem written_rows {rows : List Event} (fit : ∀ ev ∈ rows, size (relayEvent "fetch" ev) ≤ maxFrameBytes) :
    Written (rows.map (.event "fetch") ++ [.eose "fetch"]) := by
  apply written_of_small
  intro message said
  rcases List.mem_append.mp said with row | last
  · obtain ⟨ev, listed, rfl⟩ := List.mem_map.mp row
    refine ⟨?_, fit ev listed⟩
    change 0 < size (relayEvent "fetch" ev)
    rw [size_relayEvent]
    omega
  · rw [List.mem_singleton.mp last]
    have few : size (quote "fetch") ≤ 6 * 5 + 2 := size_quote_le "fetch"
    change 0 < size (relayEose "fetch") ∧ size (relayEose "fetch") ≤ maxFrameBytes
    rw [size_relayEose, maxFrameBytes]
    omega

/-- The rounds that are left come to an end, and the answers to them are written. -/
def Negentropy.Ends : ℕ → Negentropy.State → Negentropy.State → List UInt8 → List EventId → List EventId → Prop
  | 0, _, _, _, _, _ => False
  | fuel + 1, neg, other, answer, have_, need => ∃ next out have' need',
      Negentropy.reconcileWithIds neg answer have_ need = some (next, out, have', need') ∧
        ∀ more, out = some more → ∃ after reply, Negentropy.reconcile other more = some (after, reply) ∧
          Written [.negMsg "sync" reply] ∧ Ends fuel next after reply have' need'

/-- A session that serves `person` keeps up with a sync from `ours`. -/
structure KeepsUp (looks : ℕ → Looks) (person : PublicKey) (ours : List (Timestamp × EventId)) (fuel : ℕ) : Prop where
  rounds : ∀ k, ∃ neg begun first other after answer, Negentropy.owned ours = some neg ∧
    Negentropy.initiate neg = some (begun, first) ∧
    Negentropy.owned (negItems (looks k 0) person { kinds := some carriedKinds }) = some other ∧
    Negentropy.reconcile other first = some (after, answer) ∧ Written [.negMsg "sync" answer] ∧
    Negentropy.Ends fuel begun after answer [] []
  shows : ∀ k (ev : Event), Readable (looks k 0) person ev → size (relayEvent "fetch" ev) ≤ maxFrameBytes
  verdicts : ∀ k (ev : Event), Named ours ev.id →
    Written [let out := (looks k 0).node.receive ev .push (looks k 0).now; .ok ev.id out.2.1 out.2.2]

variable {looks : ℕ → Looks} {k fuel : ℕ} {s : Serving} {message : ClientMessage} {person : PublicKey}
  {line : Line (ℕ × Session)} {neg other : Negentropy.State} {answer : List UInt8} {have_ need : List EventId}

private theorem answered_whole {after : Serving} {out : List RelayMessage}
    (replied : (s.handle (looks k) message).2 = (after, out)) (written : Written out) :
    answered looks (k, .serving s) message = ((k + 1, .serving after), out) := by
  have fits : (write (s.handle (looks k) message).2.2).2 = none := replied ▸ written
  have whole := conclude_fits fits
  rw [replied] at whole
  simp only [answered, whole]

/-- The line to a session that has answered. -/
private theorem line_answered {after : Serving} {out : List RelayMessage} (peer : line.peer = (k, .serving s))
    (replied : (s.handle (looks k) message).2 = (after, out)) (written : Written out) :
    (line.write (answered looks) message).peer = (k + 1, .serving after) ∧
      (line.write (answered looks) message).waiting = line.waiting ++ out := by
  simp only [Line.write, peer, answered_whole replied written, and_self]

private theorem negRounds_ends (rounds : ℕ) (peer : line.peer = (k, .serving s)) (kept : s.negs["sync"]? = some other)
    (waiting : line.waiting = [.negMsg "sync" answer]) (ends : Negentropy.Ends fuel neg other answer have_ need) :
    ∃ found after, negRounds (answered looks) fuel neg rounds have_ need line = .ok found after := by
  induction fuel generalizing neg other answer have_ need line k s rounds with
  | zero => exact ends.elim
  | succ fuel ih =>
    obtain ⟨next, out, have', need', asked, goes⟩ := ends
    have read : readRelay line = .ok (.negMsg "sync" answer) { line with waiting := [] } := by
      obtain ⟨_, _, _⟩ := line
      subst waiting
      rfl
    cases out with
    | none =>
      refine ⟨(rounds + 1, have', need'), { line with waiting := [] }, bind_eq_ok.mpr ⟨_, _, read, ?_⟩⟩
      simp only [asked]
      rfl
    | some out =>
      obtain ⟨after, reply, reconciled, written, later⟩ := goes out rfl
      have replied : (s.handle (looks k) (.negMsg "sync" (Lib.Hex.encode out))).2 =
          ({ s with negs := s.negs.insert "sync" after }, [.negMsg "sync" reply]) := by
        simp only [Serving.handle, kept, Option.bind_some, Lib.Hex.decode_encode, reconciled]
      have between : (Line.mk line.peer [] line.sent).peer = (k, .serving s) := peer
      obtain ⟨peer', waiting'⟩ := line_answered between replied written
      obtain ⟨found, last, ended⟩ := ih (rounds + 1) peer' Std.ExtTreeMap.getElem?_insert_self waiting' later
      refine ⟨found, last, bind_eq_ok.mpr ⟨_, _, read, ?_⟩⟩
      simp only [asked]
      exact bind_eq_ok.mpr ⟨_, _, rfl, ended⟩

variable {ours : List (Timestamp × EventId)}

private theorem reconcileWith_ends (keeps : KeepsUp looks person ours fuel) (empty : line.waiting = [])
    (peer : line.peer = (k, .serving s)) (serves : s.person = person)
    (room : s.negs.size < maxNegSessions ∨ s.negs.contains "sync" = true) :
    ∃ found after, reconcileWith (answered looks) fuel ours line = .ok found after := by
  obtain ⟨neg, begun, first, other, after, answer, here, initiate, there, reconciled, written, ends⟩ := keeps.rounds k
  have free : ¬ (maxNegSessions ≤ s.negs.size ∧ s.negs.contains "sync" = false) := by
    rintro ⟨full, unknown⟩
    rcases room with few | known
    · exact absurd few (not_lt.mpr full)
    · rw [known] at unknown
      cases unknown
  have replied : (s.handle (looks k) (.negOpen "sync" { kinds := some carriedKinds } (Lib.Hex.encode first))).2 =
      ({ s with negs := s.negs.insert "sync" after }, [.negMsg "sync" answer]) := by
    simp only [Serving.handle, if_neg free, openNeg, serves, there, Option.bind_eq_bind, Option.bind_some, Lib.Hex.decode_encode,
      reconciled]
  obtain ⟨peer', waiting⟩ := line_answered peer replied written
  rw [empty, List.nil_append] at waiting
  obtain ⟨found, last, ended⟩ := negRounds_ends 0 peer' Std.ExtTreeMap.getElem?_insert_self waiting ends
  refine ⟨found, last.write (answered looks) (.negClose "sync"), ?_⟩
  unfold reconcileWith
  simp only [here, initiate]
  exact bind_eq_ok.mpr ⟨_, _, rfl, bind_eq_ok.mpr ⟨_, _, ended, bind_eq_ok.mpr ⟨_, _, rfl, rfl⟩⟩⟩

omit [NostrEvents] [Negentropy] [Devices] [Wraps] in
private theorem readEvents_whole {σ : Type} {line : Line σ} {rows events : List Event} {sub last : String}
    (waiting : line.waiting = rows.map (.event sub) ++ [.eose last]) (enough : rows.length < fuel) :
    readEvents fuel events line = .ok (events ++ rows) { line with waiting := [] } := by
  induction fuel generalizing rows events line with
  | zero => cases enough
  | succ fuel ih =>
    obtain ⟨peer, _, sent⟩ := line
    subst waiting
    cases rows with
    | nil => exact congrArg (EStateM.Result.ok · _) (List.append_nil events).symm
    | cons ev rest =>
      have later : readEvents fuel (events ++ [ev]) ⟨peer, rest.map (.event sub) ++ [.eose last], sent⟩ =
          .ok (events ++ [ev] ++ rest) ⟨peer, [], sent⟩ := ih rfl (Nat.lt_of_succ_lt_succ enough)
      rw [List.append_assoc] at later
      exact bind_eq_ok.mpr ⟨.event sub ev, _, rfl, later⟩

private theorem fetchAll_ends (keeps : KeepsUp looks person ours fuel) (pieces : List (List EventId)) (idle : Idle person line) :
    ∃ events after, fetchAll (answered looks) pieces line = .ok events after := by
  induction pieces generalizing line with
  | nil => exact ⟨[], line, rfl⟩
  | cons ids rest ih =>
    obtain ⟨empty, k, s, peer, serves⟩ := idle
    have page : Written (answerReq (looks k) person "fetch" [{ ids := some ids }]) := by
      rw [answerReq_ids]
      exact written_rows fun ev shown => keeps.shows k ev (mem_visible shown)
    have replied : (s.handle (looks k) (.req "fetch" [{ ids := some ids }])).2 =
        (s, answerReq (looks k) person "fetch" [{ ids := some ids }]) := by
      rw [← serves]
      rfl
    obtain ⟨peer', waiting⟩ := line_answered peer replied page
    rw [empty, List.nil_append, answerReq_ids] at waiting
    let asked := line.write (answered looks) (.req "fetch" [{ ids := some ids }])
    have reads : readEvents (asked.waiting.length + 1) [] asked = .ok _ { asked with waiting := [] } :=
      readEvents_whole waiting (by rw [waiting, List.length_append]; simp)
    have fetched : fetch (answered looks) ids line = .ok _ { asked with waiting := [] } :=
      bind_eq_ok.mpr ⟨_, _, rfl, bind_eq_ok.mpr ⟨_, _, rfl, reads⟩⟩
    have next : Idle person { asked with waiting := [] } := ⟨rfl, k + 1, s, peer', serves⟩
    obtain ⟨more, last, later⟩ := ih next
    exact ⟨_, last, bind_eq_ok.mpr ⟨_, _, fetched, bind_eq_ok.mpr ⟨_, _, later, rfl⟩⟩⟩

/-! ### What is handed over -/

/-- The verdicts that are not read yet. -/
private def verdicts (oks : List (EventId × Bool × String)) : List RelayMessage := oks.map fun row => .ok row.1 row.2.1 row.2.2

private theorem writeEvents_ends (keeps : KeepsUp looks person ours fuel) {events : List Event}
    (named : ∀ ev ∈ events, Named ours ev.id) {oks : List (EventId × Bool × String)} (waiting : line.waiting = verdicts oks)
    (serving : ∃ k s, line.peer = (k, .serving s) ∧ s.person = person) :
    ∃ after more, writeEvents (answered looks) events line = .ok () after ∧ after.waiting = verdicts (oks ++ more) ∧
      more.length = events.length ∧ ∃ k s, after.peer = (k, .serving s) ∧ s.person = person := by
  induction events generalizing line oks with
  | nil => exact ⟨line, [], rfl, by rw [List.append_nil]; exact waiting, rfl, serving⟩
  | cons ev rest ih =>
    obtain ⟨k, s, peer, serves⟩ := serving
    let out := (looks k 0).node.receive ev .push (looks k 0).now
    have replied : (s.handle (looks k) (.event ev)).2 = (s, [.ok ev.id out.2.1 out.2.2]) := rfl
    obtain ⟨peer', waiting'⟩ := line_answered peer replied (keeps.verdicts k ev (named ev List.mem_cons_self))
    rw [waiting] at waiting'
    have longer : verdicts oks ++ [.ok ev.id out.2.1 out.2.2] = verdicts (oks ++ [(ev.id, out.2.1, out.2.2)]) := by
      simp only [verdicts, List.map_append, List.map_cons, List.map_nil]
    obtain ⟨after, more, wrote, later, length, serving⟩ := ih (fun other listed => named other (List.mem_cons_of_mem ev listed))
      (waiting'.trans longer) ⟨k + 1, s, peer', serves⟩
    refine ⟨after, (ev.id, out.2.1, out.2.2) :: more, bind_eq_ok.mpr ⟨_, _, rfl, wrote⟩, ?_, by rw [List.length_cons, length]; rfl, serving⟩
    rwa [List.append_assoc] at later

omit [NostrEvents] [Negentropy] [Devices] [Wraps] in
private theorem readVerdicts_ends {σ : Type} {line : Line σ} {events : List Event} {oks : List (EventId × Bool × String)}
    (waiting : line.waiting = verdicts oks) (enough : oks.length = events.length) (stats : SyncStats) :
    ∃ counted, readVerdicts events stats line = .ok counted { line with waiting := [] } := by
  induction events generalizing line oks stats with
  | nil =>
    obtain ⟨_, _, _⟩ := line
    obtain rfl := List.eq_nil_of_length_eq_zero enough
    subst waiting
    exact ⟨stats, rfl⟩
  | cons ev rest ih =>
    cases oks with
    | nil => cases enough
    | cons row more =>
      obtain ⟨peer, _, sent⟩ := line
      subst waiting
      obtain ⟨id, accepted, why⟩ := row
      cases accepted with
      | true =>
        obtain ⟨last, later⟩ : ∃ counted, readVerdicts rest { stats with pushed := stats.pushed + 1 } ⟨peer, verdicts more, sent⟩ =
          .ok counted ⟨peer, [], sent⟩ := ih rfl (Nat.succ.inj enough) _
        exact ⟨last, bind_eq_ok.mpr ⟨.ok id true why, _, rfl, later⟩⟩
      | false =>
        obtain ⟨last, later⟩ : ∃ counted, readVerdicts rest { stats with refused := stats.refused + 1 } ⟨peer, verdicts more, sent⟩ =
          .ok counted ⟨peer, [], sent⟩ := ih rfl (Nat.succ.inj enough) _
        exact ⟨last, bind_eq_ok.mpr ⟨.ok id false why, _, rfl, later⟩⟩

private theorem pushAll_ends (keeps : KeepsUp looks person ours fuel) {pieces : List (List Event)}
    (named : ∀ piece ∈ pieces, ∀ ev ∈ piece, Named ours ev.id) (idle : Idle person line) (stats : SyncStats) :
    ∃ counted after, pushAll (answered looks) pieces stats line = .ok counted after := by
  induction pieces generalizing line stats with
  | nil => exact ⟨stats, line, rfl⟩
  | cons events rest ih =>
    have none_ : line.waiting = verdicts [] := idle.1
    obtain ⟨after, more, wrote, waiting, length, serving⟩ := writeEvents_ends keeps (named events List.mem_cons_self) none_ idle.2
    obtain ⟨between, reads⟩ := readVerdicts_ends waiting length stats
    have idle' : Idle person { after with waiting := [] } := ⟨rfl, serving⟩
    obtain ⟨last, ended, later⟩ := ih (fun piece listed => named piece (List.mem_cons_of_mem events listed)) idle' between
    exact ⟨last, ended, bind_eq_ok.mpr ⟨_, _, wrote, bind_eq_ok.mpr ⟨_, _, reads, later⟩⟩⟩

/-- What is lacking has been told apart and fetched. -/
private theorem lacking_ends {items : List (Timestamp × EventId)} {found : ℕ × List EventId × List EventId} {events : List Event}
    {told between : Line (ℕ × Session)} (reconciled : reconcileWith (answered looks) fuel items line = .ok found told)
    (fetched : fetchAll (answered looks) (chunks fetchChunk found.2.2) told = .ok events between) :
    (do
      let (rounds, have_, need) ← reconcileWith (answered looks) fuel items
      let events ← fetchAll (answered looks) (chunks fetchChunk need)
      return (({ rounds, weNeeded := need.length, theyNeeded := have_.length } : SyncStats), have_, events)) line =
        .ok ({ rounds := found.1, weNeeded := found.2.2.length, theyNeeded := found.2.1.length }, found.2.1, events) between :=
  bind_eq_ok.mpr ⟨_, _, reconciled, bind_eq_ok.mpr ⟨_, _, fetched, rfl⟩⟩

/-- A sync with a session that keeps up ends well. -/
theorem syncWith_ends (exact_ : Negentropy.Exact) {clock : ℕ → Timestamp} {node : Inner} {dialled : PublicKey} {binding : Event}
    (keeps : KeepsUp looks person (negItems { node, binding, now := clock 0 } dialled { kinds := some carriedKinds }) fuel)
    (empty : line.waiting = []) (peer : line.peer = (k, .serving s)) (serves : s.person = person)
    (room : s.negs.size < maxNegSessions ∨ s.negs.contains "sync" = true) :
    ∃ stats after, (syncWith (answered looks) fuel clock node dialled binding line).2 = .ok stats after := by
  obtain ⟨found, told, reconciled⟩ := reconcileWith_ends keeps empty peer serves room
  obtain ⟨differences, idle⟩ := reconcileWith_exact exact_ empty peer reconciled
  obtain ⟨events, between, fetched⟩ := fetchAll_ends keeps (chunks fetchChunk found.2.2) (serves ▸ idle)
  obtain ⟨idle, _, _⟩ := fetchAll_ok (fun piece listed => (length_of_mem_chunks listed).trans (by decide)) (serves ▸ idle) fetched
  unfold syncWith
  simp only [lacking_ends reconciled fetched]
  let begun : SyncStats := { rounds := found.1, weNeeded := found.2.2.length, theyNeeded := found.2.1.length }
  have named : ∀ piece ∈ chunks fetchChunk (pushing (applyFetched clock ⟨node, 1, begun⟩ events).node found.2.1), ∀ ev ∈ piece,
      Named (negItems { node, binding, now := clock 0 } dialled { kinds := some carriedKinds }) ev.id := by
    intro piece listed ev member
    have pushed := List.mem_flatten_of_mem listed member
    rw [chunks_flatten (by decide : 0 < fetchChunk)] at pushed
    exact ((differences ev.id).1.mp (mem_pushing pushed).2).1
  obtain ⟨counted, last, pushed⟩ := pushAll_ends keeps named idle (applyFetched clock ⟨node, 1, begun⟩ events).stats
  rw [pushed]
  exact ⟨counted, last, rfl⟩

/-- A sync with a session that keeps up ends well, and has applied all that is offered throughout and lacking. -/
theorem syncWith_delivers (exact_ : Negentropy.Exact) {clock : ℕ → Timestamp} {node : Inner} {dialled : PublicKey} {binding : Event}
    (keeps : KeepsUp looks person (negItems { node, binding, now := clock 0 } dialled { kinds := some carriedKinds }) fuel)
    (empty : line.waiting = []) (peer : line.peer = (k, .serving s)) (serves : s.person = person)
    (room : s.negs.size < maxNegSessions ∨ s.negs.contains "sync" = true) :
    ∃ stats after begun events, let applied := applyFetched clock ⟨node, 1, begun⟩ events
      syncWith (answered looks) fuel clock node dialled binding line =
          ((applied.node.receive binding .fetch (clock applied.looks)).1, .ok stats after) ∧
        Delivered looks person (negItems { node, binding, now := clock 0 } dialled { kinds := some carriedKinds }) events := by
  obtain ⟨stats, after, ended⟩ := syncWith_ends exact_ keeps empty peer serves room
  obtain ⟨begun, events, left, delivered⟩ := syncWith_fetches exact_ ⟨empty, k, s, peer, serves⟩ ended
  exact ⟨stats, after, begun, events, Prod.ext left ended, delivered⟩

end Ending

end HitEnter.Node
