import HitEnter.Node.Answers
import HitEnter.Node.TagIndex
import HitEnter.Node.ZapTotals

/-! How a zap's receipt gets into the group of the message it zaps: checked, against the key
the recipient's profile names too, and carried once. -/

namespace HitEnter

open Wire

namespace Wire

/-- A profile's own fields, where it is one. -/
class Cards extends Profiles where
  name : String → Option String
  displayName : String → Option String
  lud16 : String → Option String

/-- The Lightning address of a profile. -/
def lud16Of [Cards] (ev : Event) : Option String :=
  if ev.kind ≠ profile then none else (Cards.lud16 ev.content).filter (·.toList.contains '@')

/-- The carrier for a receipt, a zap of a message in `channel` of `group`. -/
def carrier [NostrEvents] [Wraps] (person : PublicKey) (date : Timestamp) (group : PublicKey) (channel : String)
    (receipt : Event) (zap : Zap) : Event :=
  signed person date zapCarrier
    [["h", Nostr.toHex group], ["channel", channel], ["e", NostrEvents.eventIdToHex zap.target],
      ["p", Nostr.toHex zap.recipient], ["k", toString zapReceipt.toNat]]
    (Wraps.json receipt)

def ZapError.display : ZapError → String
  | .notAReceipt => "not a zap receipt"
  | .badSignature => "bad signature"
  | .badRequest => "the receipt's zap request is missing or invalid"
  | .badInvoice => "the receipt's invoice is missing or unreadable"
  | .wrongAmount => "the invoice is not for the amount requested"
  | .mismatch => "the receipt and its request disagree on recipient or target"
  | .tooLarge => "too large"

end Wire

namespace Node

open HitEnter.Group Lib.Checks Lib.Ranks

/-- Why a receipt is not carried. -/
inductive CarryError where
  | zap (error : ZapError)
  | noSuchEvent
  | notTheirProvider
  | protocol (why : String)

def CarryError.display : CarryError → String
  | .zap error => "not a zap: " ++ error.display
  | .noSuchEvent => "no such event here"
  | .notTheirProvider => "the receipt is not signed by the recipient's wallet provider"
  | .protocol why => "protocol error: " ++ why

section Carrying
variable [Cards]

/-- A person's Lightning address and their provider's key, from the profile held. -/
def Store.lud16Of (s : Store) (person : PublicKey) : Option (String × Option PublicKey) :=
  (s.query { kinds := some [Wire.profile], authors := some [person], limit := some 1 }).head?.bind fun p =>
    (Wire.lud16Of p).map fun address => (address, zapPubkeyOf p)

variable [Devices] [Wraps]

/-- What the receipt zaps, and where that is: none where the zap is counted already. -/
def carriedWhere (looks : ℕ → Inner) (receipt : Event) : Except CarryError (Option (Zap × PublicKey × String)) := do
  let zap ← (checkReceipt receipt).mapError .zap
  let target ← orRefuse ((looks 0).store.query { ids := some [zap.target] }).head? .noSuchEvent
  let group ← orRefuse (groupOf target) .noSuchEvent
  let channel ← orRefuse (channelOf target) .noSuchEvent
  refuseIf (target.pubkey != zap.recipient) (.zap .mismatch)
  let provider := ((looks 1).store.lud16Of zap.recipient).bind Prod.snd
  refuseIf (provider != some zap.provider) .notTheirProvider
  return if ((looks 2).store.zapsOf [zap.target]).any fun z => z.receipt == zap.receipt then none
    else some (zap, group, channel)

/-- A receipt that is a zap: of a message held, for its author, signed by their provider. -/
structure Zapping (looks : ℕ → Inner) (receipt : Event) (zap : Zap) (target : Event) (group : PublicKey) (channel : String) :
    Prop where
  checked : checkReceipt receipt = .ok zap
  held : ((looks 0).store.query { ids := some [zap.target] }).head? = some target
  own : groupOf target = some group
  place : channelOf target = some channel
  author : target.pubkey = zap.recipient
  provider : ((looks 1).store.lud16Of zap.recipient).bind Prod.snd = some zap.provider

omit [Devices] [Wraps] in
theorem carriedWhere_eq_ok {looks : ℕ → Inner} {receipt : Event} {out : Option (Zap × PublicKey × String)} :
    carriedWhere looks receipt = .ok out ↔ ∃ zap target group channel, Zapping looks receipt zap target group channel ∧
      out = if ((looks 2).store.zapsOf [zap.target]).any fun z => z.receipt == zap.receipt then none
        else some (zap, group, channel) := by
  have mapped (zap : Zap) : (checkReceipt receipt).mapError CarryError.zap = .ok zap ↔ checkReceipt receipt = .ok zap := by
    cases checkReceipt receipt <;> simp [Except.mapError]
  simp only [carriedWhere, bind_eq_ok, orRefuse_eq_ok, refuseIf_eq_ok, mapped, pure_eq_ok, bne_eq_false_iff_eq]
  constructor
  · rintro ⟨zap, checked, target, held, group, own, channel, place, _, author, _, provider, same⟩
    exact ⟨zap, target, group, channel, ⟨checked, held, own, place, author, provider⟩, same.symm⟩
  · rintro ⟨zap, target, group, channel, ⟨checked, held, own, place, author, provider⟩, same⟩
    exact ⟨zap, checked, target, held, group, own, channel, place, (), author, (), provider, same.symm⟩

/-- Brings a receipt into the group of the message it zaps, as the node's person. It is
looked up what there is, and the node may have changed by the time the carrier is published. -/
def carryZap (looks : ℕ → Inner) (receipt : Event) (now : Timestamp) : Inner × Except CarryError (Option Event) :=
  let node := looks 3
  match carriedWhere looks receipt with
  | .error error => (node, .error error)
  | .ok none => (node, .ok none)
  | .ok (some (zap, group, channel)) =>
    let ev := carrier node.groups.me now group channel receipt zap
    let out := node.receive ev .local_ now
    (out.1, if out.2.1 then .ok (some ev) else .error (.protocol out.2.2))

end Carrying

/-! ### Each receipt once -/

section Once
variable [NostrEvents] {s : Store} {filter : Filter} {ev : Event}

/-- Where rows that a filter selects are one, the first there is is that one. -/
theorem Store.head?_query (plain : filter.search = none) (room : filter.limit ≠ some 0)
    (only : ∀ a ∈ s.events, ∀ b ∈ s.events, filter.selects a = true → filter.selects b = true → a = b) :
    (s.query filter).head? = some ev ↔ ev ∈ s.events ∧ filter.selects ev = true := by
  have member : ∀ row, row ∈ sorted newestFirst (s.events.filter filter.selects) ↔ row ∈ s.events ∧ filter.selects row = true := by
    intro row
    exact (List.perm_insertionSort _ _).mem_iff.trans List.mem_filter
  have same : (s.query filter).head? = (sorted newestFirst (s.events.filter filter.selects)).head? := by
    unfold Store.query
    rw [plain]
    cases limited : filter.limit with
    | none => rfl
    | some limit =>
      have one : 0 < rowLimit limit := by
        have some_ : limit ≠ 0 := fun zero => room (by rw [limited, zero])
        unfold rowLimit
        omega
      change (List.take (rowLimit limit) _).head? = _
      rw [List.head?_eq_getElem?, List.head?_eq_getElem?, List.getElem?_take, if_pos one]
  rw [same, ← member]
  cases rows : sorted newestFirst (s.events.filter filter.selects) with
  | nil => simp
  | cons first rest =>
    have here : first ∈ s.events ∧ filter.selects first = true := (member first).mp (by simp [rows])
    refine ⟨fun found => ?_, fun found => ?_⟩
    · rw [List.head?_cons] at found
      exact Option.some.inj found ▸ List.mem_cons_self
    · have there : ev ∈ s.events ∧ filter.selects ev = true := (member ev).mp (by rw [rows]; exact found)
      rw [List.head?_cons, only first here.1 ev there.1 here.2 there.2]

theorem Store.head?_byId {id : EventId} : (s.query { ids := some [id] }).head? = some ev ↔ ev ∈ s.events ∧ ev.id = id := by
  have named : ∀ row : Event, ({ ids := some [id] } : Filter).selects row = true ↔ row.id = id := by
    intro row
    simp [Filter.selects]
  have room : ({ ids := some [id] } : Filter).limit ≠ some 0 := by simp
  rw [Store.head?_query rfl room fun a first b second own own' =>
    s.eq_of_id first second (((named a).mp own).trans ((named b).mp own').symm), named]

variable {person : PublicKey}

/-- A person has one profile. -/
theorem Store.head?_profile : (s.query { kinds := some [Wire.profile], authors := some [person], limit := some 1 }).head? = some ev ↔
    ev ∈ s.events ∧ ev.kind = Wire.profile ∧ ev.pubkey = person := by
  let filter : Filter := { kinds := some [Wire.profile], authors := some [person], limit := some 1 }
  have named : ∀ row : Event, filter.selects row = true ↔ row.kind = Wire.profile ∧ row.pubkey = person := by
    intro row
    simp [filter, Filter.selects, and_comm]
  have only : ∀ a ∈ s.events, ∀ b ∈ s.events, filter.selects a = true → filter.selects b = true → a = b := by
    intro a first b second own own'
    obtain ⟨kind, author⟩ := (named a).mp own
    obtain ⟨kind', author'⟩ := (named b).mp own'
    apply s.eq_of_sameSlot first second
    simp [sameSlot, slotD, slot, kind, kind', author, author', Wire.profile]
  exact (Store.head?_query rfl (by simp [filter]) only).trans (and_congr_right fun _ => named ev)

end Once

section Carrier
variable [Cards] [Wraps] {person me group : PublicKey} {channel : String} {receipt : Event} {zap : Zap} {now : Timestamp}

omit [Wraps] in
theorem Store.lud16Of_congr {a b : Store} (same : ∀ row : Event, row.kind = Wire.profile → (row ∈ a.events ↔ row ∈ b.events)) :
    a.lud16Of person = b.lud16Of person := by
  have head : (a.query { kinds := some [Wire.profile], authors := some [person], limit := some 1 }).head? =
      (b.query { kinds := some [Wire.profile], authors := some [person], limit := some 1 }).head? := by
    apply Option.ext
    intro row
    rw [Store.head?_profile, Store.head?_profile]
    exact and_congr_left fun ⟨kind, _⟩ => same row kind
  unfold Store.lud16Of
  rw [head]

/-- The carrier of a receipt holds the receipt's zap. -/
theorem carriedZap_carrier (json : NostrEvents.fromJson (Wraps.json receipt) = some receipt) (checked : checkReceipt receipt = .ok zap)
    (small : (Lib.Hex.bytes (Wraps.json receipt)).length ≤ maxReceiptBytes) :
    carriedZap (carrier me now group channel receipt zap) = .ok zap := by
  let ev := carrier me now group channel receipt zap
  have content : NostrEvents.fromJson ev.content = some receipt := json
  have room : ¬maxReceiptBytes < (Lib.Hex.bytes ev.content).length := Nat.not_lt.mpr small
  have points : idIn ev "e" = some zap.target := by
    have first : firstValue ev "e" = some (NostrEvents.eventIdToHex zap.target) := by simp [ev, firstValue, carrier, signed]
    rw [idIn, first]
    exact NostrEvents.eventIdFromHex_toHex _
  have pays : keyIn ev "p" = some zap.recipient := by
    have first : firstValue ev "p" = some (Nostr.toHex zap.recipient) := by simp [ev, firstValue, carrier, signed]
    rw [keyIn, first]
    exact Nostr.fromHex_toHex _
  have kind : ev.kind = zapCarrier := rfl
  simp only [ev] at content room points pays kind
  simp only [carriedZap, kind, room, content, checked, points, pays, ne_eq, not_true_eq_false, ↓reduceIte]
  simp [bind, Except.bind, pure, Except.pure]

theorem pointsAt_carrier : pointsAt [zap.target] (carrier me now group channel receipt zap) := by
  refine ⟨zap.target, List.mem_singleton_self _, ?_⟩
  have short : (Lib.Hex.bytes "e").length = 1 := by decide
  simp [tagRows, carrier, signed, short]

variable [Devices] {node : Inner} {later : Timestamp}

omit [Wraps] [Devices] in
/-- A carrier is let in only with a receipt that is a zap. -/
private theorem carried_of_judged {gs : Groups} {ev : Event} {judgement : Judgement} (kind : ev.kind = zapCarrier)
    (judged : gs.judge ev now = .ok judgement) : ∃ z, carriedZap ev = .ok z := by
  cases carried : carriedZap ev with
  | ok z => exact ⟨z, rfl⟩
  | error error =>
    have refused : ∀ s : GroupState, ∃ refusal, s.judgeZap ev = .error refusal := by
      intro s
      unfold GroupState.judgeZap
      rw [carried]
      cases error <;> exact ⟨_, rfl⟩
    have plain : ev.kind ≠ giftWrap ∧ isPersonal ev.kind = false ∧ stateKinds.contains ev.kind = false ∧ ev.kind ≠ createGroup ∧
        ev.kind ≠ createInvite ∧ actionKinds.contains ev.kind = false := by
      rw [kind]
      decide +kernel
    obtain ⟨wrap, personal, state, create, invite, action⟩ := plain
    simp only [Groups.judge, Groups.judgeInGroup, bind_eq_ok, if_neg wrap, personal, Bool.false_eq_true, ↓reduceIte, state, create,
      invite, action] at judged
    obtain ⟨_, _, _, _, g, _, slot, _, s, _, posted⟩ := judged
    obtain ⟨refusal, refused⟩ := refused s
    simp [Groups.judgePost, kind, refused, zapCarrier, presence, voicePresence, reaction] at posted

omit [Wraps] [Devices] in
/-- A zap of a member who may view the channel is let in. -/
theorem judge_carrier {gs : Groups} {ev : Event} {s : GroupState} {z : Zap} (kind : ev.kind = zapCarrier)
    (dated : ¬Nostr.add now maxClockSkew < ev.createdAt) (own : groupOf ev = some group) (known : gs.carried[group]? = some (some s))
    (carried : carriedZap ev = .ok z) (inChannel : s.judgeInChannel ev .viewChannel = .ok ()) : gs.judge ev now = .ok .store := by
  have plain : carriedKinds.contains ev.kind = true ∧ ev.kind ≠ giftWrap ∧ isPersonal ev.kind = false ∧
      stateKinds.contains ev.kind = false ∧ ev.kind ≠ createGroup ∧ ev.kind ≠ createInvite ∧ actionKinds.contains ev.kind = false := by
    rw [kind]
    decide +kernel
  obtain ⟨known_, wrap, personal, state, create, invite, action⟩ := plain
  have zap : s.judgeZap ev = .ok () := by
    unfold GroupState.judgeZap
    rw [carried]
    exact inChannel
  have posted : Groups.judgePost s ev now = .ok .store := by
    simp [Groups.judgePost, kind, zap, zapCarrier, presence, voicePresence, reaction]
  simp only [Groups.judge, Groups.judgeInGroup, known_, dated, wrap, personal, own, known, state, create, invite, action, Bool.not_true,
    decide_false, refuseIf_false_bind, orRefuse_some_bind, Bool.false_eq_true, ↓reduceIte]
  exact posted

omit [Wraps] in
/-- What a carrier leaves of a node is what the store makes of it. -/
private theorem receive_carrier [Wraps] {ev : Event} (kind : ev.kind = zapCarrier) (taken : (node.receive ev .local_ now).2.1 = true) :
    NostrEvents.verify ev = true ∧ (∃ z, carriedZap ev = .ok z) ∧
      (node.receive ev .local_ now).1.store = (node.store.insert ev).1 := by
  have verified : NostrEvents.verify ev = true := by
    by_contra unsigned
    rw [Inner.receive, if_neg unsigned] at taken
    cases taken
  rw [Inner.receive, if_pos verified] at taken ⊢
  have accepted : (node.acceptEvent ev .local_ now).2.accepted = true := (Verdict.answer_fst _).symm.trans taken
  rcases node.acceptEvent_cases ev .local_ now with ⟨judgement, booked, passed⟩ | ⟨_, refused⟩
  · have plain : ev.kind ≠ giftWrap ∧ ev.kind ≠ deviceBinding ∧ ev.kind ≠ deletion ∧ ev.kind ≠ deleteEvent ∧ ev.kind ≠ inboxList ∧
        changesState ev.kind = false := by
      rw [kind]
      decide +kernel
    obtain ⟨wrap, binding, notDeletion, notRemoval, notList, changes⟩ := plain
    have judged := passed.judged
    rw [Inner.judged_of_not_wrap wrap] at judged
    have same : booked = node := by
      have entered := passed.entered
      rw [Inner.bookBinding_of_other binding] at entered
      exact (Except.ok.inj entered).symm
    refine ⟨verified, carried_of_judged kind judged, ?_⟩
    rw [passed.out, same]
    simp only [Inner.follow, wrap, notDeletion, notRemoval, notList, changes, Bool.false_eq_true, ↓reduceIte]
    split
    · rfl
    · split <;> rfl
  · rw [refused] at accepted
    cases accepted

/-- Once its carrier is in, a receipt counts. -/
private theorem Zapping.again (whole : Sealed) (signed : ∀ row ∈ node.store.events, NostrEvents.verify row = true)
    (json : NostrEvents.fromJson (Wraps.json receipt) = some receipt) {target : Event}
    (zapping : Zapping (fun _ => node) receipt zap target group channel)
    (taken : (node.receive (carrier me now group channel receipt zap) .local_ now).2.1 = true) :
    carriedWhere (fun _ => (node.receive (carrier me now group channel receipt zap) .local_ now).1) receipt = .ok none := by
  let ev := carrier me now group channel receipt zap
  have kind : ev.kind = zapCarrier := rfl
  obtain ⟨verified, ⟨z, carried⟩, rows⟩ := receive_carrier kind taken
  set next := (node.receive ev .local_ now).1
  have small : (Lib.Hex.bytes (Wraps.json receipt)).length ≤ maxReceiptBytes := by
    by_contra large
    have refused : carriedZap ev = .error .tooLarge := by
      have room : maxReceiptBytes < (Lib.Hex.bytes ev.content).length := not_le.mp large
      simp only [carriedZap, room]
      rfl
    rw [refused] at carried
    cases carried
  have holds : carriedZap ev = .ok zap := carriedZap_carrier json zapping.checked small
  have old : ∀ row ∈ node.store.events, row ∈ next.store.events := by
    intro row held
    rw [rows, Store.mem_insert]
    split
    · refine .inr ⟨held, ?_⟩
      simp [sameSlot, slotD, slot, ev, carrier, Wire.signed, zapCarrier]
    · exact held
  have entered : ev ∈ next.store.events := by
    rw [rows, Store.mem_insert]
    split
    · exact .inl rfl
    · rename_i known
      have regular : slot ev = .regular := by simp [slot, ev, carrier, Wire.signed, zapCarrier]
      have twice : ¬∀ row ∈ node.store.events, row.id ≠ ev.id := fun fresh => known ((Store.insert_regular regular).mpr fresh)
      simp only [not_forall, not_not] at twice
      obtain ⟨row, held, same⟩ := twice
      exact whole row ev (signed row held) verified same ▸ held
  obtain ⟨held, own⟩ := Store.head?_byId.mp zapping.held
  have person : next.store.lud16Of zap.recipient = node.store.lud16Of zap.recipient := by
    apply Store.lud16Of_congr
    intro row kind
    rw [rows]
    exact Store.mem_insert_of_kind (by rw [kind]; exact (by decide : Wire.profile ≠ zapCarrier))
  have named : ∃ p ∈ next.store.events, p.pubkey = zap.recipient ∧ zapPubkeyOf p = some zap.provider := by
    obtain ⟨entry, found, key⟩ := Option.bind_eq_some_iff.mp zapping.provider
    obtain ⟨p, first, shown⟩ := Option.bind_eq_some_iff.mp found
    obtain ⟨address, _, rfl⟩ := Option.map_eq_some_iff.mp shown
    obtain ⟨there, _, author⟩ := Store.head?_profile.mp first
    exact ⟨p, old p there, author, key⟩
  have counts : zap ∈ next.store.zapsOf [zap.target] := by
    refine ((Store.mem_zapsOf whole (List.mem_singleton_self _)).mpr ⟨?_, ev, entered, holds, pointsAt_carrier⟩).1
    refine Store.mem_counted.mpr ⟨⟨ev, entered, holds⟩, rfl, ?_⟩
    simp only [Store.credits, Bool.and_eq_true, List.any_eq_true, beq_iff_eq]
    exact ⟨⟨target, old target held, own, zapping.author⟩, named⟩
  refine carriedWhere_eq_ok.mpr ⟨zap, target, group, channel, ?_, ?_⟩
  · exact { zapping with
      held := Store.head?_byId.mpr ⟨old target held, own⟩
      provider := by rw [person]; exact zapping.provider }
  · exact (if_pos (List.any_eq_true.mpr ⟨zap, counts, beq_self_eq_true zap.receipt⟩)).symm

end Carrier

/-! ### A zap of the founder's message -/

/-- The founder's node, with a message of theirs and their profile. -/
def zappedNode : Inner :=
  { foundersNode with
    store := ⟨foundersNode.store.events ++ [posted, named], by decide +kernel, by decide +kernel⟩ }

/-- A receipt goes by a short name in JSON. -/
abbrev namedWraps : Wraps where
  unwrap _ _ := none
  json _ := "receipt"

def paidCarrier : Event := @carrier plainEvents namedWraps founder 600 club "general" (receiptOf "" 31) (zapOf 31)

/-- What is held is signed, the request, its receipt, and the carrier that is to be. -/
abbrev paidOnce (bolt11 : String) : Cards where
  toNostrEvents :=
    { plainEvents with
      verify := fun ev => decide (ev ∈ zappedNode.store.events ++ [request, receiptOf bolt11 31, paidCarrier])
      fromJson := fun text => if text = "request" then some request else if text = "receipt" then some (receiptOf bolt11 31) else none }
  customText _ _ := some (plainToHex steward)
  customFlag _ _ := none
  name _ := none
  displayName _ := none
  lud16 _ := some "founder@club"

private theorem paidOnce_ids : ((zappedNode.store.events ++ [request, receiptOf "" 31, paidCarrier]).map Event.id).Nodup := by
  decide +kernel

theorem paidOnce_sealed (bolt11 : String) : @Sealed (paidOnce bolt11).toProfiles := by
  have ids : ((zappedNode.store.events ++ [request, receiptOf bolt11 31, paidCarrier]).map Event.id).Nodup := paidOnce_ids
  intro a b signed signed' same
  exact ids_injective ids a (of_decide_eq_true signed) b (of_decide_eq_true signed') same

private theorem checkReceipt_paid {bolt11 : String} (read : Invoice.decode bolt11 = some huge) :
    @checkReceipt (paidOnce bolt11).toNostrEvents (receiptOf bolt11 31) = .ok (zapOf 31) := by
  let _ := paidOnce bolt11
  have signed : NostrEvents.verify (receiptOf bolt11 31) = true := decide_eq_true (by simp)
  have asks : NostrEvents.verify request = true := decide_eq_true (by simp)
  have described : (firstValue (receiptOf bolt11 31) "description").bind NostrEvents.fromJson = some request := by
    simp [firstValue, receiptOf]
    rfl
  have invoiced : (firstValue (receiptOf bolt11 31) "bolt11").bind Invoice.decode = some huge := by
    simpa [firstValue, receiptOf] using read
  have amount : (firstValue request "amount").bind Lib.Decimal.parseU64 = some hugeMsat := by
    have first : firstValue request "amount" = some hugeMsat.toNat.repr := by simp [firstValue, request]
    rw [first, Option.bind_some, Lib.Decimal.parseU64_repr]
  have key (ev : Event) (first : firstValue ev "p" = some (plainToHex founder)) : keyIn ev "p" = some founder := by
    rw [keyIn, first]
    exact plainFromHex_plainToHex founder
  have points (ev : Event) (first : firstValue ev "e" = some (plainToHex ⟨20⟩)) : idIn ev "e" = some ⟨20⟩ := by
    rw [idIn, first]
    exact NostrEvents.eventIdFromHex_toHex ⟨20⟩
  obtain ⟨text, first, parsed⟩ := Option.bind_eq_some_iff.mp described
  simp only [checkReceipt, signed, first, parsed, asks, invoiced, amount, key request rfl, key (receiptOf bolt11 31) rfl, points request rfl,
    points (receiptOf bolt11 31) rfl]
  rfl

private theorem paidCarrier_eq (bolt11 : String) : paidCarrier =
    @carrier (paidOnce bolt11).toNostrEvents namedWraps founder 600 club "general" (receiptOf bolt11 31) (zapOf 31) := rfl

private theorem inChannel_paid : ∃ s, zappedNode.groups.carried[club]? = some (some s) ∧
    s.judgeInChannel paidCarrier .viewChannel = .ok () := by
  have checked : (zappedNode.groups.carried[club]?).join.any (fun s => (s.judgeInChannel paidCarrier .viewChannel).isOk) = true := by
    decide +kernel
  obtain ⟨s, known, passes⟩ := (Option.any_eq_true _ _).mp checked
  refine ⟨s, Option.join_eq_some_iff.mp known, ?_⟩
  cases verdict : s.judgeInChannel paidCarrier .viewChannel with
  | ok done => rfl
  | error refusal =>
    rw [verdict] at passes
    cases passes

private theorem dated_paid : ¬Nostr.add 600 maxClockSkew < paidCarrier.createdAt ∧ groupOf paidCarrier = some club ∧
    zappedNode.isDeleted paidCarrier = false ∧ zappedNode.isRemoved paidCarrier = false ∧ groupOf posted = some club := by
  decide +kernel

private theorem judged_paid {bolt11 : String} (read : Invoice.decode bolt11 = some huge) :
    let _ := paidOnce bolt11; zappedNode.groups.judge paidCarrier 600 = .ok .store := by
  let _ := paidOnce bolt11
  let _ := namedWraps
  have json : NostrEvents.fromJson (Wraps.json (receiptOf bolt11 31)) = some (receiptOf bolt11 31) := rfl
  have small : (Lib.Hex.bytes "receipt").length ≤ maxReceiptBytes := by decide +kernel
  have carried : carriedZap paidCarrier = .ok (zapOf 31) := by
    rw [paidCarrier_eq bolt11]
    exact carriedZap_carrier json (checkReceipt_paid read) small
  obtain ⟨s, known, inChannel⟩ := inChannel_paid
  exact judge_carrier rfl dated_paid.1 dated_paid.2.1 known carried inChannel

private theorem taken_paid {bolt11 : String} (read : Invoice.decode bolt11 = some huge) :
    (@Inner.receive (paidOnce bolt11).toNostrEvents _ namedWraps zappedNode paidCarrier .local_ 600).2.1 = true := by
  let _ := paidOnce bolt11
  let _ := namedWraps
  have verified : NostrEvents.verify paidCarrier = true := decide_eq_true (by simp)
  have wrap : paidCarrier.kind ≠ giftWrap := by decide
  have judged : zappedNode.judged paidCarrier .local_ 600 = .ok .store :=
    (Inner.judged_of_not_wrap wrap).trans (judged_paid read)
  have passed : Inner.Passed zappedNode paidCarrier .local_ 600 .store zappedNode :=
    ⟨judged, rfl, Inner.bookBinding_of_other (by decide), dated_paid.2.2.1, dated_paid.2.2.2.1, if_neg (by decide)⟩
  have received : (zappedNode.receive paidCarrier .local_ 600).2 = (zappedNode.acceptEvent paidCarrier .local_ 600).2.answer := by
    rw [Inner.receive, if_pos verified]
  rw [received, Verdict.answer_fst, passed.out]
  rfl

private theorem zapping_paid {bolt11 : String} (read : Invoice.decode bolt11 = some huge) :
    @Zapping (paidOnce bolt11) (fun _ => zappedNode) (receiptOf bolt11 31) (zapOf 31) posted club "general" := by
  let _ := paidOnce bolt11
  have held : posted ∈ zappedNode.store.events := by simp [zappedNode]
  have profile : named ∈ zappedNode.store.events := by simp [zappedNode]
  have provider : (zappedNode.store.lud16Of founder).bind Prod.snd = some steward := by
    have first : (zappedNode.store.query { kinds := some [Wire.profile], authors := some [founder], limit := some 1 }).head? = some named :=
      Store.head?_profile.mpr ⟨profile, rfl, rfl⟩
    have address : lud16Of named = some "founder@club" := by
      have read : Cards.lud16 named.content = some "founder@club" := rfl
      rw [lud16Of, if_neg (by decide), read]
      decide
    have key : zapPubkeyOf named = some steward := by
      rw [zapPubkeyOf, if_neg (by decide)]
      exact plainFromHex_plainToHex steward
    simp only [Store.lud16Of, first, Option.bind_some, address, Option.map_some, key]
  exact ⟨checkReceipt_paid read, Store.head?_byId.mpr ⟨held, rfl⟩, dated_paid.2.2.2.2, rfl, rfl, provider⟩

private theorem uncarried_paid :
    (@Store.zapCarriers (paidOnce "").toProfiles zappedNode.store [(zapOf 31).target]).isEmpty = true := by
  decide +kernel

private theorem once_paid {bolt11 : String} (read : Invoice.decode bolt11 = some huge) :
    let _ := paidOnce bolt11
    let _ := namedWraps
    (∀ row ∈ zappedNode.store.events, NostrEvents.verify row = true) ∧
      (carryZap (fun _ => zappedNode) (receiptOf bolt11 31) 600).2 = .ok (some paidCarrier) := by
  let _ := paidOnce bolt11
  let _ := namedWraps
  have signed : ∀ row ∈ zappedNode.store.events, NostrEvents.verify row = true :=
    fun row held => decide_eq_true (List.mem_append_left _ held)
  have none_ : zappedNode.store.zapsOf [(zapOf 31).target] = [] := by
    have carriers : (zappedNode.store.zapCarriers [(zapOf 31).target]).isEmpty = true := uncarried_paid
    simp only [Store.zapsOf, List.isEmpty_cons, Bool.false_eq_true, ↓reduceIte, carriers]
  have found : carriedWhere (fun _ => zappedNode) (receiptOf bolt11 31) = .ok (some (zapOf 31, club, "general")) :=
    carriedWhere_eq_ok.mpr ⟨zapOf 31, posted, club, "general", zapping_paid read, by rw [none_]; rfl⟩
  have me : zappedNode.groups.me = founder := rfl
  have first : (carryZap (fun _ => zappedNode) (receiptOf bolt11 31) 600).2 = .ok (some paidCarrier) := by
    simp only [carryZap, found, me, ← paidCarrier_eq bolt11]
    exact if_pos (taken_paid read)
  exact ⟨signed, first⟩

end Node

end HitEnter
