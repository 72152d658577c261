import HitEnter.Node.Reconcile
import HitEnter.Node.TagIndex
import HitEnter.Wire.Frame

/-! What a `REQ` is answered with, frame by frame. An event comes in and goes out under
one limit of frames, but the message it goes out in carries the subscription's id too. -/

namespace HitEnter.Node

open Wire HitEnter.Group Lib.Json Lib.Ranks

def maxSubscriptionIdBytes : Nat := 64
def maxFiltersPerReq : Nat := 8
def maxEventsPerFilter : Nat := 500

/-- No filter is answered with more than the most. -/
def capped (filter : Filter) : Filter :=
  { filter with limit := some (filter.limit.elim maxEventsPerFilter fun l => min l maxEventsPerFilter) }

private theorem mapM_ok {ε β : Type} {f : String → Except ε β} {items : List String} :
    (∃ out, items.mapM f = .ok out) ↔ ∀ item ∈ items, ∃ y, f item = .ok y := by
  induction items with
  | nil => simp [pure, Except.pure]
  | cons item rest ih =>
    rw [List.forall_mem_cons, ← ih, List.mapM_cons]
    cases first : f item with
    | error e => simp [bind, Except.bind]
    | ok y =>
      cases later : rest.mapM f with
      | error e => simp [bind, Except.bind]
      | ok ys => simp [bind, Except.bind, pure, Except.pure]

section Answer
variable [NostrEvents] [Wraps]

/-- The messages a `REQ` of `person` is answered with. -/
def reqAnswer (node : Inner) (person : PublicKey) (sub : String) (filters : List Filter) (now : Timestamp) :
    List String :=
  if maxSubscriptionIdBytes < size sub then [relayClosed sub "invalid: subscription id too long"]
  else if maxFiltersPerReq < filters.length then [relayClosed sub "invalid: too many filters"]
  else
    (filters.flatMap fun filter =>
      (visible node.store node.groups person (capped filter) now).map (relayEvent sub)) ++ [relayEose sub]

/-- The frames written for it; one that is too large ends the session. -/
def handleReq (node : Inner) (person : PublicKey) (sub : String) (filters : List Filter) (now : Timestamp) :
    Except FrameError (List (List UInt8)) :=
  (reqAnswer node person sub filters now).mapM fun message => encodeFrame (Lib.Hex.bytes message)

omit [Wraps] in
/-- A search for one id finds the row of that id. -/
private theorem query_id {s : Store} {ev : Event} (held : ev ∈ s.events) :
    s.query (capped { ids := some [ev.id] }) = [ev] := by
  let filter := capped { ids := some [ev.id] }
  have selected : ∀ row, filter.selects row = true ↔ row.id = ev.id := by
    intro row
    simp [filter, capped, Filter.selects]
  have only : s.events.filter filter.selects = [ev] := by
    have same : ∀ row ∈ s.events.filter filter.selects, row = ev := by
      intro row member
      obtain ⟨listed, picked⟩ := List.mem_filter.mp member
      exact s.eq_of_id listed held ((selected row).mp picked)
    have once : (s.events.filter filter.selects).Nodup := (s.ids.of_map _).filter _
    have here : ev ∈ s.events.filter filter.selects := List.mem_filter.mpr ⟨held, (selected ev).mpr rfl⟩
    rw [List.eq_replicate_of_mem same] at once here ⊢
    have most := List.nodup_replicate.mp once
    have least := (List.mem_replicate.mp here).1
    rw [show (s.events.filter filter.selects).length = 1 by omega]
    rfl
  change (if filter.search.isSome then [] else _) = _
  rw [if_neg (by simp [filter, capped]), only]
  rfl

/-- Whoever may read a held event is sent it, under a short id, if its message and the
one after it are no larger than a frame. -/
theorem handleReq_id {node : Inner} {person : PublicKey} {ev : Event} {now : Timestamp} (held : ev ∈ node.store.events)
    (readable : node.groups.mayRead person ev now = true) {sub : String} (short : size sub ≤ maxSubscriptionIdBytes) :
    (∃ frames, handleReq node person sub [{ ids := some [ev.id] }] now = .ok frames) ↔
      size (relayEvent sub ev) ≤ maxFrameBytes ∧ size (relayEose sub) ≤ maxFrameBytes := by
  have answer : reqAnswer node person sub [{ ids := some [ev.id] }] now = [relayEvent sub ev, relayEose sub] := by
    rw [reqAnswer, if_neg (not_lt.mpr short), if_neg (by simp [maxFiltersPerReq])]
    simp [visible, query_id held, readable]
  have full : ∀ message, 0 < size message → Lib.Hex.bytes message ≠ [] := fun message => List.ne_nil_of_length_pos
  have event := full _ (by rw [size_relayEvent]; omega : 0 < size (relayEvent sub ev))
  have eose := full _ (by rw [size_relayEose]; omega : 0 < size (relayEose sub))
  rw [handleReq, answer, mapM_ok, List.forall_mem_cons, List.forall_mem_singleton, encodeFrame_ok, encodeFrame_ok]
  simp only [ne_eq, event, eose, not_false_eq_true, true_and]
  rfl

/-- A held event can be sent to whoever may read it and asks for it, whatever short id
they give their subscription, if and only if its JSON leaves room for the envelope of an
answer with the longest. -/
theorem reply_fits {node : Inner} {person : PublicKey} {ev : Event} {now : Timestamp} (held : ev ∈ node.store.events)
    (readable : node.groups.mayRead person ev now = true) :
    (∀ sub, size sub ≤ maxSubscriptionIdBytes →
        ∃ frames, handleReq node person sub [{ ids := some [ev.id] }] now = .ok frames) ↔
      size (Wraps.json ev) + (11 + (6 * maxSubscriptionIdBytes + 2)) ≤ maxFrameBytes := by
  constructor
  · intro all
    -- The longest id, each of its bytes written as its number.
    have longest := all (.ofList (List.replicate maxSubscriptionIdBytes (Char.ofNat 1)))
    have short : size (.ofList (List.replicate maxSubscriptionIdBytes (Char.ofNat 1))) ≤ maxSubscriptionIdBytes := by
      rw [size_replicate]
      decide
    have sent := ((handleReq_id held readable short).mp (longest short)).1
    have each : escapeSize (Char.ofNat 1) = 6 := by decide +kernel
    rw [size_relayEvent, size_quote_replicate, each] at sent
    omega
  · intro room sub short
    rw [handleReq_id held readable short, size_relayEvent, size_relayEose]
    have quoted := size_quote_le sub
    omega

end Answer

theorem reply_fits_hello :
    ∃ frames, handleReq (foundersNode.insert (hello 500) 600).1 founder "fetch" [{ ids := some [(hello 500).id] }] 600 =
      .ok frames :=
  (reply_fits (by decide +kernel) (by decide +kernel)).mpr (by decide +kernel) "fetch" (by decide +kernel)

/-- A message of so many letters. -/
def longHello (letters : ℕ) : Event :=
  signed guest 500 chatMessage [Draft.h club, ["channel", "general"]] (.ofList (List.replicate letters 'x'))

private theorem size_plainJson (ev : Event) :
    size (plainJson ev) + 2 = size (plainJson { ev with content := "" }) + size (quote ev.content) := by
  have empty : size (quote "") = 2 := by decide +kernel
  simp only [plainJson, object, List.map_cons, List.map_nil, String.intercalate_cons_cons,
    String.intercalate_singleton, size_append, empty]
  omega

private theorem size_longHello (letters : ℕ) : size (plainJson (longHello letters)) = 429 + letters := by
  have whole := size_plainJson (longHello letters)
  have rest : size (plainJson { longHello letters with content := "" }) = 429 := by
    change size (plainJson { longHello 0 with content := "" }) = 429
    decide +kernel
  have text : size (quote (longHello letters).content) = letters * escapeSize 'x' + 2 := size_quote_replicate letters 'x'
  have one : escapeSize 'x' = 1 := by decide +kernel
  rw [rest, text, one] at whole
  omega

/-- It comes in a frame of the greatest size, is accepted, and cannot be sent on. -/
theorem longHello_unanswered : ∃ letters frame,
    encodeFrame (Lib.Hex.bytes (clientEvent (longHello letters))) = .ok frame ∧
    (foundersNode.acceptEvent (longHello letters) .push 600).2 = .stored .new ∧
    longHello letters ∈ (foundersNode.acceptEvent (longHello letters) .push 600).1.store.events ∧
    ∀ frames, handleReq (foundersNode.acceptEvent (longHello letters) .push 600).1 founder "fetch"
      [{ ids := some [(longHello letters).id] }] 600 ≠ .ok frames := by
  let letters := maxFrameBytes - 439
  have arrives : size (clientEvent (longHello letters)) = maxFrameBytes := by
    rw [size_clientEvent]
    change 10 + size (plainJson (longHello letters)) = maxFrameBytes
    rw [size_longHello]
    decide
  obtain ⟨frame, written⟩ := encodeFrame_ok.mpr
    ⟨List.ne_nil_of_length_pos (by rw [← size, arrives]; decide), arrives.le⟩
  have accepted : (foundersNode.acceptEvent (longHello letters) .push 600).2 = .stored .new := by decide +kernel
  have held : longHello letters ∈ (foundersNode.acceptEvent (longHello letters) .push 600).1.store.events := by
    rcases foundersNode.acceptEvent_cases (longHello letters) .push 600 with ⟨judgement, booked, passed⟩ | ⟨_, refused⟩
    · rw [passed.out] at accepted ⊢
      have new : (booked.store.insert (longHello letters)).2 = .new := Verdict.stored.inj accepted
      rw [Inner.follow_said (by decide +kernel)]
      exact (Store.mem_insert _ _ _).mpr (by rw [if_pos new]; exact .inl rfl)
    · rw [accepted] at refused
      cases refused
  have readable : (foundersNode.acceptEvent (longHello letters) .push 600).1.groups.mayRead founder
      (longHello letters) 600 = true := by
    decide +kernel
  refine ⟨letters, frame, written, accepted, held, fun frames answered => ?_⟩
  have short : size "fetch" ≤ maxSubscriptionIdBytes := by decide +kernel
  have sent := ((handleReq_id held readable short).mp ⟨frames, answered⟩).1
  have quoted : size (quote "fetch") = 7 := by decide +kernel
  rw [size_relayEvent, quoted] at sent
  rw [size_clientEvent] at arrives
  omega

end HitEnter.Node
