import HitEnter.Lib.Counting
import HitEnter.Lib.Keyed
import HitEnter.Node.Inner
import HitEnter.Wire.Profiles

/-! What messages were zapped: the receipts that members carried, of those that pay the
author and are signed by the provider whom the author's profile names, each once. -/

namespace HitEnter.Node

open Wire Lib.Counting Lib.Keyed Lib.Ranks

deriving instance DecidableEq for Zap

def lowercaseE : SingleLetterTag := ⟨'e', by decide⟩

/-- A message's zaps, added up. -/
structure ZapTotal where
  msat : UInt64 := 0
  count : ℕ := 0
  zappers : List PublicKey := []

/-- One more zap; the sum is one of a `u64`, and anonymous zaps are only counted. -/
def ZapTotal.add (t : ZapTotal) (z : Zap) : ZapTotal where
  msat := t.msat + z.amountMsat
  count := t.count + 1
  zappers := match z.sender with
    | some sender => if t.zappers.contains sender then t.zappers else t.zappers ++ [sender]
    | none => t.zappers

section Totals
variable [Profiles]

namespace Store

def zapCarriers (s : Store) (targets : List EventId) : List Event :=
  s.query { kinds := some [zapCarrier], genericTags := [(lowercaseE, targets.map NostrEvents.eventIdToHex)] }

def zapAuthors (s : Store) (targets : List EventId) : BTreeMap EventId PublicKey :=
  .ofList (((s.query { ids := some targets }).map fun ev => (ev.id, ev.pubkey))) compare

def zapProviders (s : Store) (recipients : List PublicKey) : BTreeMap PublicKey PublicKey :=
  .ofList ((s.query { kinds := some [Wire.profile], authors := some recipients }).filterMap fun p =>
    (zapPubkeyOf p).map fun key => (p.pubkey, key)) compare

/-- Does it pay the author of its target, and is it signed by their provider? -/
def pays (authors : BTreeMap EventId PublicKey) (providers : BTreeMap PublicKey PublicKey) (z : Zap) : Bool :=
  authors[z.target]? == some z.recipient && providers[z.recipient]? == some z.provider

/-- Every zap of `targets` held that counts, one for each receipt, the first paid first. -/
def zapsOf (s : Store) (targets : List EventId) : List Zap :=
  if targets.isEmpty then []
  else
    let carriers := s.zapCarriers targets
    if carriers.isEmpty then []
    else
      let authors := s.zapAuthors targets
      let providers := s.zapProviders (authors.toList.map Prod.snd)
      sorted (fun z => z.paidAt.toNat) (firsts Zap.receipt
        ((carriers.filterMap fun c => (carriedZap c).toOption).filter (pays authors providers)))

/-- What each of `targets` was zapped, of those that were. -/
def zapTotals (s : Store) (targets : List EventId) : BTreeMap EventId ZapTotal :=
  (s.zapsOf targets).foldl (tallyAt Zap.target ZapTotal.add {}) ∅

end Store

/-! ### The receipts that count -/

/-- A held message is the recipient's, and a held profile of theirs names the provider. -/
def Store.credits (s : Store) (z : Zap) : Bool :=
  (s.events.any fun ev => ev.id == z.target && ev.pubkey == z.recipient) &&
    s.events.any fun ev => ev.pubkey == z.recipient && zapPubkeyOf ev == some z.provider

/-- The zaps of `target` that some held carrier holds and that are credited. -/
def Store.counted (s : Store) (target : EventId) : Finset Zap :=
  ((s.events.filterMap fun c => (carriedZap c).toOption).filter fun z => z.target == target && s.credits z).toFinset

theorem carried_toOption {c : Event} {z : Zap} : (carriedZap c).toOption = some z ↔ carriedZap c = .ok z := by
  cases carriedZap c <;> simp [Except.toOption]

theorem Store.mem_counted {s : Store} {target : EventId} {z : Zap} : z ∈ s.counted target ↔
    (∃ c ∈ s.events, carriedZap c = .ok z) ∧ z.target = target ∧ s.credits z = true := by
  simp [counted, carried_toOption]

/-- Does an `e` of `ev` have the text of one of `targets`? -/
def pointsAt (targets : List EventId) (ev : Event) : Prop :=
  ∃ target ∈ targets, ("e", NostrEvents.eventIdToHex target) ∈ tagRows ev

/-! ### One zap for each receipt -/

/-- No two events that are signed have one id. -/
def Sealed : Prop := ∀ a b, NostrEvents.verify a = true → NostrEvents.verify b = true → a.id = b.id → a = b

section Receipts
variable {c c' r : Event} {z z' : Zap}

omit [Profiles] in
theorem checkReceipt_ok [NostrEvents] (ok : checkReceipt r = .ok z) : NostrEvents.verify r = true ∧ z.receipt = r.id := by
  unfold checkReceipt at ok
  simp only [bind, Except.bind, pure, Except.pure, throw, throwThe, MonadExceptOf.throw] at ok
  by_cases signed : NostrEvents.verify r = true
  · refine ⟨signed, ?_⟩
    repeat' split at ok
    all_goals first | cases ok; done | cases ok; rfl
  · simp only [signed] at ok
    split at ok <;> cases ok

omit [Profiles] in
theorem carriedZap_ok [NostrEvents] (ok : carriedZap c = .ok z) : c.kind = zapCarrier ∧ ∃ r, checkReceipt r = .ok z := by
  unfold carriedZap at ok
  simp only [bind, Except.bind, pure, Except.pure, throw, throwThe, MonadExceptOf.throw] at ok
  split at ok
  · cases ok
  rename_i carrier
  refine ⟨not_not.mp carrier, ?_⟩
  split at ok
  · cases ok
  split at ok
  · rename_i r _
    refine ⟨r, ?_⟩
    split at ok
    · cases ok
    · rename_i z' checked
      split at ok
      · cases ok
      · cases ok
        exact checked
  · cases ok

/-- Whoever carries a receipt, it is one zap. -/
theorem eq_of_receipt (whole : Sealed) (ok : carriedZap c = .ok z) (ok' : carriedZap c' = .ok z') (same : z.receipt = z'.receipt) : z = z' := by
  obtain ⟨-, r, checked⟩ := carriedZap_ok ok
  obtain ⟨-, r', checked'⟩ := carriedZap_ok ok'
  obtain ⟨signed, own⟩ := checkReceipt_ok checked
  obtain ⟨signed', own'⟩ := checkReceipt_ok checked'
  obtain rfl := whole r r' signed signed' (own.symm.trans (same.trans own'))
  exact Except.ok.inj (checked.symm.trans checked')

end Receipts

/-! ### What is looked up -/

section Lookup
variable {s : Store} {targets : List EventId} {recipients : List PublicKey}

theorem Store.mem_zapCarriers {c : Event} : c ∈ s.zapCarriers targets ↔
    c ∈ s.events ∧ c.kind = zapCarrier ∧ pointsAt targets c := by
  have named : lowercaseE.text = "e" := by decide +kernel
  rw [zapCarriers, mem_query]
  simp [Filter.selects, reaches, named, pointsAt, and_comm]

theorem Store.zapAuthors_eq_some {id : EventId} {author : PublicKey} : (s.zapAuthors targets)[id]? = some author ↔
    id ∈ targets ∧ ∃ ev ∈ s.events, ev.id = id ∧ ev.pubkey = author := by
  have own : (((s.query { ids := some targets }).map fun ev => (ev.id, ev.pubkey)).map Prod.fst).Nodup := by
    rw [List.map_map]
    exact s.query_ids _
  rw [zapAuthors, getElem?_ofList_eq_some own, List.mem_map]
  constructor
  · rintro ⟨ev, found, same⟩
    cases same
    obtain ⟨held, -, selected, -⟩ := mem_query.mp found
    exact ⟨by simpa [Filter.selects] using selected, ev, held, rfl, rfl⟩
  · rintro ⟨asked, ev, held, rfl, rfl⟩
    exact ⟨ev, mem_query.mpr ⟨held, rfl, by simpa [Filter.selects] using asked, rfl⟩, rfl⟩

theorem Store.zapProviders_eq_some {person key : PublicKey} : (s.zapProviders recipients)[person]? = some key ↔
    person ∈ recipients ∧ ∃ ev ∈ s.events, ev.pubkey = person ∧ zapPubkeyOf ev = some key := by
  have found (p : Event) : p ∈ s.query { kinds := some [Wire.profile], authors := some recipients } ↔
      p ∈ s.events ∧ p.kind = Wire.profile ∧ p.pubkey ∈ recipients := by
    rw [mem_query]
    simp [Filter.selects, reaches, and_comm]
  -- A person's profile is replaced, so there is one at most.
  have one (p p' : Event) (held : p ∈ s.events) (held' : p' ∈ s.events) (kind : p.kind = Wire.profile)
      (kind' : p'.kind = Wire.profile) (same : p.pubkey = p'.pubkey) : p = p' := by
    refine s.eq_of_sameSlot held held' ?_
    simp [sameSlot, slotD, slot, kind, kind', same, Wire.profile]
  have own : (((s.query { kinds := some [Wire.profile], authors := some recipients }).filterMap fun p =>
      (zapPubkeyOf p).map fun key => (p.pubkey, key)).map Prod.fst).Nodup := by
    rw [List.map_filterMap]
    have rows := (s.query_ids { kinds := some [Wire.profile], authors := some recipients }).of_map
    refine List.pairwise_filterMap.mpr (rows.imp_of_mem ?_)
    intro p p' listed listed' apart person named person' named' same
    obtain ⟨held, kind, -⟩ := (found p).mp listed
    obtain ⟨held', kind', -⟩ := (found p').mp listed'
    rw [Option.map_map, Option.map_eq_some_iff] at named named'
    obtain ⟨key, -, first⟩ := named
    obtain ⟨key', -, second⟩ := named'
    exact apart (one p p' held held' kind kind' (first.trans (same.trans second.symm)))
  rw [zapProviders, getElem?_ofList_eq_some own, List.mem_filterMap]
  constructor
  · rintro ⟨p, listed, named⟩
    obtain ⟨held, -, asked⟩ := (found p).mp listed
    obtain ⟨key', named, same⟩ := Option.map_eq_some_iff.mp named
    cases same
    exact ⟨asked, p, held, rfl, named⟩
  · rintro ⟨asked, p, held, rfl, named⟩
    have kind : p.kind = Wire.profile := by
      by_contra other
      rw [zapPubkeyOf, if_pos other] at named
      cases named
    exact ⟨p, (found p).mpr ⟨held, kind, asked⟩, by rw [named, Option.map_some]⟩

end Lookup

/-! ### Totals -/

omit [Profiles] in
theorem foldl_add (zs : List Zap) (t : ZapTotal) : (zs.foldl ZapTotal.add t).count = t.count + zs.length ∧
    (zs.foldl ZapTotal.add t).msat.toNat = (t.msat.toNat + (zs.map fun z => z.amountMsat.toNat).sum) % 2 ^ 64 := by
  induction zs generalizing t with
  | nil => exact ⟨rfl, (Nat.mod_eq_of_lt t.msat.toNat_lt).symm⟩
  | cons z rest ih =>
    obtain ⟨count, msat⟩ := ih (t.add z)
    have sum : (t.add z).msat.toNat = (t.msat.toNat + z.amountMsat.toNat) % 2 ^ 64 := UInt64.toNat_add _ _
    constructor
    · rw [List.foldl_cons, count, List.length_cons, Nat.add_comm rest.length, ← Nat.add_assoc]
      rfl
    · rw [List.foldl_cons, msat, sum, Nat.mod_add_mod, List.map_cons, List.sum_cons, Nat.add_assoc]

section Counted
variable {s : Store} {targets : List EventId} {target : EventId} {z : Zap}

theorem Store.zapsOf_nodup : ((s.zapsOf targets).map Zap.receipt).Nodup := by
  unfold zapsOf
  split
  · exact List.nodup_nil
  · dsimp only
    split
    · exact List.nodup_nil
    · exact ((List.perm_insertionSort _ _).map Zap.receipt).nodup_iff.mpr (firsts_nodup _)

/-- With its target asked about, a zap pays if it is credited. -/
theorem Store.pays_iff (asked : z.target ∈ targets) :
    pays (s.zapAuthors targets) (s.zapProviders ((s.zapAuthors targets).toList.map Prod.snd)) z = true ↔
      s.credits z = true := by
  simp only [pays, credits, Bool.and_eq_true, beq_iff_eq, List.any_eq_true, zapAuthors_eq_some, zapProviders_eq_some]
  constructor
  · rintro ⟨⟨-, held⟩, -, named⟩
    exact ⟨held, named⟩
  · rintro ⟨⟨ev, held, own, author⟩, p, profile, person, named⟩
    have known : (s.zapAuthors targets)[z.target]? = some z.recipient :=
      zapAuthors_eq_some.mpr ⟨asked, ev, held, own, author⟩
    refine ⟨⟨asked, ev, held, own, author⟩, ?_, p, profile, person, named⟩
    exact List.mem_map.mpr ⟨(z.target, z.recipient), Std.ExtTreeMap.mem_toList_iff_getElem?_eq_some.mpr known, rfl⟩

theorem Store.mem_zapsOf (whole : Sealed) (asked : target ∈ targets) : z ∈ s.zapsOf targets ∧ z.target = target ↔
    z ∈ s.counted target ∧ ∃ c ∈ s.events, carriedZap c = .ok z ∧ pointsAt targets c := by
  have some_ : ¬targets.isEmpty = true := by
    rw [List.isEmpty_iff]
    exact List.ne_nil_of_mem asked
  have found : (∃ c ∈ s.zapCarriers targets, carriedZap c = .ok z) ↔
      ∃ c ∈ s.events, carriedZap c = .ok z ∧ pointsAt targets c := by
    refine exists_congr fun c => ?_
    rw [mem_zapCarriers]
    exact ⟨fun ⟨⟨held, _, points⟩, ok⟩ => ⟨held, ok, points⟩,
      fun ⟨held, ok, points⟩ => ⟨⟨held, (carriedZap_ok ok).1, points⟩, ok⟩⟩
  unfold zapsOf
  rw [if_neg some_, mem_counted]
  dsimp only
  split
  · rename_i nobody
    refine iff_of_false (fun none_ => absurd none_.1 List.not_mem_nil) fun both => ?_
    obtain ⟨c, carrier, -⟩ := found.mpr both.2
    rw [List.isEmpty_iff.mp nobody] at carrier
    cases carrier
  · let authors := s.zapAuthors targets
    let providers := s.zapProviders (authors.toList.map Prod.snd)
    have apart : ∀ x ∈ ((s.zapCarriers targets).filterMap fun c => (carriedZap c).toOption).filter (pays authors providers),
        ∀ y ∈ ((s.zapCarriers targets).filterMap fun c => (carriedZap c).toOption).filter (pays authors providers),
          x.receipt = y.receipt → x = y := by
      intro x first y second same
      obtain ⟨c, -, ok⟩ := List.mem_filterMap.mp (List.mem_filter.mp first).1
      obtain ⟨c', -, ok'⟩ := List.mem_filterMap.mp (List.mem_filter.mp second).1
      exact eq_of_receipt whole (carried_toOption.mp ok) (carried_toOption.mp ok') same
    rw [mem_sorted, mem_firsts apart, List.mem_filter, List.mem_filterMap]
    simp only [carried_toOption]
    rw [found]
    constructor
    · rintro ⟨⟨⟨c, held, ok, points⟩, paid⟩, rfl⟩
      exact ⟨⟨⟨c, held, ok⟩, rfl, ((pays_iff asked).mp paid)⟩, c, held, ok, points⟩
    · rintro ⟨⟨-, rfl, credited⟩, carried⟩
      exact ⟨⟨carried, (pays_iff asked).mpr credited⟩, rfl⟩

/-- A message's total is the sum of its zaps, and their number, just if each receipt has a carrier that
is found under the text of a target, and the sum has room. -/
theorem Store.zapTotals_iff (whole : Sealed) (s : Store) (targets : List EventId) (target : EventId)
    (asked : target ∈ targets) :
    (((s.zapTotals targets)[target]?.getD {}).msat.toNat = ∑ z ∈ s.counted target, z.amountMsat.toNat ∧
      ((s.zapTotals targets)[target]?.getD {}).count = ((s.counted target).image Zap.receipt).card) ↔
        (∀ z ∈ s.counted target, ∃ c ∈ s.events, carriedZap c = .ok z ∧ pointsAt targets c) ∧
          ∑ z ∈ s.counted target, z.amountMsat.toNat < 2 ^ 64 := by
  let mine := (s.zapsOf targets).filter fun z => z.target = target
  have distinct : mine.Nodup := Store.zapsOf_nodup.of_map.filter _
  have mem (z : Zap) : z ∈ mine.toFinset ↔
      z ∈ s.counted target ∧ ∃ c ∈ s.events, carriedZap c = .ok z ∧ pointsAt targets c := by
    rw [List.mem_toFinset, List.mem_filter, decide_eq_true_eq]
    exact mem_zapsOf whole asked
  have total : (s.zapTotals targets)[target]?.getD {} = mine.foldl ZapTotal.add {} := by
    rw [zapTotals, getElem?_tally, Std.ExtTreeMap.getElem?_empty, Option.getD_none]
  obtain ⟨count, msat⟩ := foldl_add mine {}
  have number : (mine.foldl ZapTotal.add {}).count = mine.toFinset.card := by
    rw [count, List.toFinset_card_of_nodup distinct]
    exact Nat.zero_add _
  have sum : (mine.foldl ZapTotal.add {}).msat.toNat = (∑ z ∈ mine.toFinset, z.amountMsat.toNat) % 2 ^ 64 := by
    rw [msat, List.sum_toFinset _ distinct]
    exact congrArg (· % _) (Nat.zero_add _)
  have receipts : ((s.counted target).image Zap.receipt).card = (s.counted target).card := by
    refine Finset.card_image_of_injOn fun z first z' second same => ?_
    obtain ⟨⟨c, -, ok⟩, -⟩ := mem_counted.mp first
    obtain ⟨⟨c', -, ok'⟩, -⟩ := mem_counted.mp second
    exact eq_of_receipt whole ok ok' same
  have subset : mine.toFinset ⊆ s.counted target := fun z member => ((mem z).mp member).1
  rw [total, number, sum, receipts]
  constructor
  · rintro ⟨exact_, all⟩
    have same : mine.toFinset = s.counted target := Finset.eq_of_subset_of_card_le subset all.ge
    rw [same] at exact_
    refine ⟨fun z member => ((mem z).mp (same ▸ member)).2, ?_⟩
    rw [← exact_]
    exact Nat.mod_lt _ (by decide)
  · rintro ⟨found, room⟩
    have same : mine.toFinset = s.counted target :=
      Finset.Subset.antisymm subset fun z member => (mem z).mpr ⟨member, found z member⟩
    rw [same]
    exact ⟨Nat.mod_eq_of_lt room, rfl⟩

end Counted

end Totals

/-! ### Two receipts -/

/-- Invoices over a hundred million bitcoin. -/
def hugeMsat : UInt64 := 10000000000000000000

def huge : Invoice where
  currency := "bc"
  amountMsat := some hugeMsat
  timestamp := 0
  paymentHash := none
  descriptionHash := none
  description := none
  expiry := 3600

theorem decode_huge : Invoice.decode huge.encodeUnsigned = some huge := by
  refine Invoice.decode_written ⟨by decide, by simp [huge], by decide, ?_, nofun⟩
  intro msat same
  cases same
  decide

/-- What the founder posts, and their profile, which names the steward as their provider. -/
def posted : Event := ⟨⟨20⟩, founder, 100, chatMessage, [["h", plainToHex club], ["channel", "general"]], "gm"⟩

def named : Event := ⟨⟨21⟩, founder, 90, Wire.profile, [], "founder"⟩

/-- The caller asks for an invoice; the steward says twice that it was paid. -/
def request : Event :=
  ⟨⟨22⟩, caller, 110, zapRequest,
    [["p", plainToHex founder], ["e", plainToHex ⟨20⟩], ["amount", hugeMsat.toNat.repr]], ""⟩

def receiptOf (bolt11 : String) (id : BitVec 256) : Event :=
  ⟨⟨id⟩, steward, 120, zapReceipt,
    [["p", plainToHex founder], ["e", plainToHex ⟨20⟩], ["bolt11", bolt11], ["description", "request"]], ""⟩

def carrierOf (id : BitVec 256) (receipt : String) : Event :=
  ⟨⟨id⟩, guest, 130, zapCarrier, [["e", plainToHex ⟨20⟩], ["p", plainToHex founder]], receipt⟩

/-- The request and the two receipts are signed, and go by short names in JSON. -/
abbrev paidTwice (bolt11 : String) : Profiles where
  toNostrEvents :=
    { plainEvents with
      verify := fun ev => ev = request ∨ ev = receiptOf bolt11 31 ∨ ev = receiptOf bolt11 32
      fromJson := fun text =>
        if text = "request" then some request
        else if text = "first" then some (receiptOf bolt11 31)
        else if text = "second" then some (receiptOf bolt11 32)
        else none }
  customText _ _ := some (plainToHex steward)
  customFlag _ _ := none

theorem paidTwice_sealed (bolt11 : String) : @Sealed (paidTwice bolt11) := by
  intro a b signed signed' same
  have one (ev : Event) (verified : (paidTwice bolt11).verify ev = true) :
      ev = request ∨ ev = receiptOf bolt11 31 ∨ ev = receiptOf bolt11 32 := of_decide_eq_true verified
  rcases one a signed with rfl | rfl | rfl <;> rcases one b signed' with rfl | rfl | rfl <;>
    first | rfl | exact absurd same (by simp [request, receiptOf])

/-- The zap of a receipt. -/
def zapOf (receipt : BitVec 256) : Zap where
  receipt := ⟨receipt⟩
  request := ⟨22⟩
  provider := steward
  recipient := founder
  target := ⟨20⟩
  sender := some caller
  amountMsat := hugeMsat
  comment := ""
  paidAt := 120

theorem checkReceipt_receiptOf {bolt11 : String} (read : Invoice.decode bolt11 = some huge) {id : BitVec 256}
    (known : id = 31 ∨ id = 32) : @checkReceipt (paidTwice bolt11).toNostrEvents (receiptOf bolt11 id) = .ok (zapOf id) := by
  let _ := paidTwice bolt11
  have signed : NostrEvents.verify (receiptOf bolt11 id) = true := by
    rcases known with rfl | rfl <;> exact decide_eq_true (by simp)
  have asks : NostrEvents.verify request = true := decide_eq_true (.inl rfl)
  have described : (firstValue (receiptOf bolt11 id) "description").bind NostrEvents.fromJson = some request := by
    simp [firstValue, receiptOf]
    rfl
  have invoiced : (firstValue (receiptOf bolt11 id) "bolt11").bind Invoice.decode = some huge := by
    simpa [firstValue, receiptOf] using read
  have amount : (firstValue request "amount").bind Lib.Decimal.parseU64 = some hugeMsat := by
    have first : firstValue request "amount" = some hugeMsat.toNat.repr := by simp [firstValue, request]
    rw [first, Option.bind_some, Lib.Decimal.parseU64_repr]
  have key (ev : Event) (first : firstValue ev "p" = some (plainToHex founder)) : keyIn ev "p" = some founder := by
    rw [keyIn, first]
    exact plainFromHex_plainToHex founder
  have points (ev : Event) (first : firstValue ev "e" = some (plainToHex ⟨20⟩)) : idIn ev "e" = some ⟨20⟩ := by
    rw [idIn, first]
    exact NostrEvents.eventIdFromHex_toHex ⟨20⟩
  have kind : (receiptOf bolt11 id).kind = zapReceipt := rfl
  have asking : request.kind = zapRequest := rfl
  obtain ⟨text, first, parsed⟩ := Option.bind_eq_some_iff.mp described
  simp only [checkReceipt, kind, signed, first, parsed, asking, asks, invoiced, amount, key request rfl,
    key (receiptOf bolt11 id) rfl, points request rfl, points (receiptOf bolt11 id) rfl]
  rfl

theorem carriedZap_carrierOf {bolt11 : String} (read : Invoice.decode bolt11 = some huge) {id receipt : BitVec 256}
    {text : String} (short : (Lib.Hex.bytes text).length ≤ maxReceiptBytes)
    (held : (paidTwice bolt11).fromJson text = some (receiptOf bolt11 receipt)) (known : receipt = 31 ∨ receipt = 32) :
    @carriedZap (paidTwice bolt11).toNostrEvents (carrierOf id text) = .ok (zapOf receipt) := by
  let _ := paidTwice bolt11
  have checked : checkReceipt (receiptOf bolt11 receipt) = .ok (zapOf receipt) := checkReceipt_receiptOf read known
  have parsed : NostrEvents.fromJson (carrierOf id text).content = some (receiptOf bolt11 receipt) := held
  have key : keyIn (carrierOf id text) "p" = some founder := by
    have first : firstValue (carrierOf id text) "p" = some (plainToHex founder) := by simp [firstValue, carrierOf]
    rw [keyIn, first]
    exact plainFromHex_plainToHex founder
  have points : idIn (carrierOf id text) "e" = some ⟨20⟩ := by
    have first : firstValue (carrierOf id text) "e" = some (plainToHex ⟨20⟩) := by simp [firstValue, carrierOf]
    rw [idIn, first]
    exact NostrEvents.eventIdFromHex_toHex ⟨20⟩
  have kind : (carrierOf id text).kind = zapCarrier := rfl
  have room : ¬maxReceiptBytes < (Lib.Hex.bytes (carrierOf id text).content).length := Nat.not_lt.mpr short
  simp only [carriedZap, kind, room, parsed, checked, key, points]
  rfl

/-- A message, its author's profile, and two carriers. -/
def twoCarriers : Store where
  events := [posted, named, carrierOf 41 "first", carrierOf 42 "second"]
  ids := by decide
  slots := by decide +kernel

theorem counted_twoCarriers {bolt11 : String} (read : Invoice.decode bolt11 = some huge) :
    @Store.counted (paidTwice bolt11) twoCarriers posted.id = {zapOf 31, zapOf 32} := by
  let _ := paidTwice bolt11
  have first : carriedZap (carrierOf 41 "first") = .ok (zapOf 31) :=
    carriedZap_carrierOf read (by decide +kernel) ((if_neg (by decide)).trans (if_pos rfl)) (.inl rfl)
  have second : carriedZap (carrierOf 42 "second") = .ok (zapOf 32) :=
    carriedZap_carrierOf read (by decide +kernel)
      ((if_neg (by decide)).trans ((if_neg (by decide)).trans (if_pos rfl))) (.inr rfl)
  have other (ev : Event) (kind : ev.kind ≠ zapCarrier) : (carriedZap ev).toOption = none := by
    cases carried : carriedZap ev with
    | error refusal => rfl
    | ok z => exact absurd (carriedZap_ok carried).1 kind
  have rows : (twoCarriers.events.filterMap fun c => (carriedZap c).toOption) = [zapOf 31, zapOf 32] := by
    simp only [twoCarriers, List.filterMap_cons, other posted (by decide), other named (by decide),
      carried_toOption.mpr first, carried_toOption.mpr second, List.filterMap_nil]
  have provider : zapPubkeyOf named = some steward := by
    rw [zapPubkeyOf, if_neg (by decide)]
    exact plainFromHex_plainToHex steward
  have credited (receipt : BitVec 256) : twoCarriers.credits (zapOf receipt) = true := by
    rw [Store.credits, Bool.and_eq_true, List.any_eq_true, List.any_eq_true]
    exact ⟨⟨posted, List.mem_cons_self, rfl⟩, named, List.mem_cons_of_mem _ List.mem_cons_self, by rw [provider]; rfl⟩
  have kept : ([zapOf 31, zapOf 32].filter fun z => z.target == posted.id && twoCarriers.credits z) = [zapOf 31, zapOf 32] := by
    simp only [List.filter_cons, credited, Bool.and_true, List.filter_nil]
    rfl
  have all : twoCarriers.counted posted.id = [zapOf 31, zapOf 32].toFinset := by rw [Store.counted, rows, kept]
  rw [all]
  rfl

theorem sum_twoCarriers : ∑ z ∈ ({zapOf 31, zapOf 32} : Finset Zap), z.amountMsat.toNat = 20000000000000000000 := by
  decide +kernel

/-- The sum has no room. -/
theorem zapTotals_twoCarriers : ¬((@Store.zapTotals (paidTwice huge.encodeUnsigned) twoCarriers [posted.id])[posted.id]?.getD
    {}).msat.toNat = ∑ z ∈ @Store.counted (paidTwice huge.encodeUnsigned) twoCarriers posted.id, z.amountMsat.toNat := by
  rw [counted_twoCarriers decode_huge, sum_twoCarriers]
  intro same
  have small := ((@Store.zapTotals (paidTwice huge.encodeUnsigned) twoCarriers [posted.id])[posted.id]?.getD {}).msat.toNat_lt
  rw [same] at small
  exact absurd small (by decide)

theorem zapTotals_iff_twoCarriers :
    ¬(((@Store.zapTotals (paidTwice huge.encodeUnsigned) twoCarriers [posted.id])[posted.id]?.getD {}).msat.toNat =
        ∑ z ∈ @Store.counted (paidTwice huge.encodeUnsigned) twoCarriers posted.id, z.amountMsat.toNat ∧
      ((@Store.zapTotals (paidTwice huge.encodeUnsigned) twoCarriers [posted.id])[posted.id]?.getD {}).count =
        ((@Store.counted (paidTwice huge.encodeUnsigned) twoCarriers posted.id).image Zap.receipt).card) := by
  intro exact_
  have room := ((@Store.zapTotals_iff (paidTwice huge.encodeUnsigned) (paidTwice_sealed _) twoCarriers [posted.id] posted.id
    List.mem_cons_self).mp exact_).2
  rw [counted_twoCarriers decode_huge, sum_twoCarriers] at room
  exact absurd room (by decide)

end HitEnter.Node
