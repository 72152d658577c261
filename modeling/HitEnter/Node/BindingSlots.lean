import HitEnter.Node.Store
import HitEnter.Wire.Revocation

/-! The book and the store keep the same slot. The book finds a binding by its person
and the text of its device, the store by the kind, the author and the `d` tag; whatever
reaches both, in whatever order, both keep the same one of each slot. -/

namespace HitEnter.Node

open Wire Lib.KeepBest

section Slots
variable [NostrEvents] [Devices] {now : Timestamp} {person : PublicKey} {device : String} {ev : Event}

/-- An empty book after inserting `events`. -/
def bookOf (now : Timestamp) (events : List Event) : BindingBook :=
  events.foldl (fun book ev => (book.insert ev now).1) .new

/-- A binding event of `person` for that `d` tag. -/
def inBindingSlot (person : PublicKey) (device : String) (ev : Event) : Bool :=
  ev.kind == deviceBinding && ev.pubkey == person && slotD ev == some device

/-- The row in the slot of `person` for that `d` tag. -/
def Store.binding (s : Store) (person : PublicKey) (device : String) : Option Event :=
  s.events.find? (inBindingSlot person device)

omit [Devices] in
/-- A binding's slot is named by its `d` tag. -/
private theorem slotD_of_named (kind : ev.kind = deviceBinding) (named : Nostr.identifier ev.tags = some device) :
    slotD ev = some device := by
  have replaceable : ¬ (deviceBinding = 0 ∨ deviceBinding = 3 ∨ 10000 ≤ deviceBinding ∧ deviceBinding < 20000) := by
    decide
  have ephemeral : ¬ (20000 ≤ deviceBinding ∧ deviceBinding < 30000) := by decide
  have addressable : 30000 ≤ deviceBinding ∧ deviceBinding < 40000 := by decide
  rw [slotD, slot, kind, if_neg replaceable, if_neg ephemeral, if_pos addressable, named]
  rfl

omit [Devices] in
private theorem slot_stored (kind : ev.kind = deviceBinding) : slot ev ≠ .ephemeral := by
  have ephemeral : ¬ (20000 ≤ deviceBinding ∧ deviceBinding < 30000) := by decide
  unfold slot
  rw [kind, if_neg ephemeral]
  split
  · simp
  · split <;> simp

/-- What passes the check is in the slot that the book has for it. -/
private theorem inBindingSlot_iff {text : String} (checked : Checked ev now text) :
    inBindingSlot person device ev = true ↔ toLex (person, device) = toLex (ev.pubkey, text) := by
  have named := slotD_of_named checked.kind checked.named
  simp only [inBindingSlot, checked.kind, named, beq_self_eq_true, Bool.true_and, Bool.and_eq_true, beq_iff_eq,
    Option.some.injEq, EmbeddingLike.apply_eq_iff_eq, Prod.mk.injEq]
  exact and_congr eq_comm eq_comm

omit [Devices] in
/-- Events of one binding slot are in one slot of the store. -/
private theorem sameSlot_eq (own : inBindingSlot person device ev = true) :
    sameSlot ev = inBindingSlot person device := by
  funext other
  simp only [inBindingSlot, Bool.and_eq_true, beq_iff_eq] at own
  simp only [sameSlot, inBindingSlot, own, Option.isSome_some, Bool.true_and, Bool.beq_comm (b := other.kind),
    BEq.comm (b := other.pubkey), BEq.comm (b := slotD other)]

/-! ### The book -/

private theorem bookOf_newest {events : List Event}
    (checks : ∀ ev ∈ events, ∃ parsed, Parsed.check ev now = .ok parsed) :
    (bookOf now events).newest[toLex (person, device)]? =
      best replaces (events.filter (inBindingSlot person device)) := by
  suffices general : ∀ book : BindingBook,
      (events.foldl (fun book ev => (book.insert ev now).1) book).newest[toLex (person, device)]? =
        (events.filter (inBindingSlot person device)).foldl (offer replaces)
          book.newest[toLex (person, device)]? by
    simpa [best, bookOf] using general .new
  induction events with
  | nil => exact fun _ => rfl
  | cons ev rest ih =>
    intro book
    rw [List.foldl_cons, ih fun other member => checks other (List.mem_cons_of_mem ev member)]
    obtain ⟨parsed, passes⟩ := checks ev List.mem_cons_self
    rcases book.insert_cases ev now with ⟨refusal, refused⟩ | ⟨text, outcome, checked, _, slots⟩
    · have accepted : (book.insert ev now).2 ≠ .error refusal := by
        unfold BindingBook.insert
        split
        · rename_i failed
          rw [passes] at failed
          cases failed
        · split <;> simp
      exact absurd (congrArg Prod.snd refused) accepted
    · rw [slots, List.filter_cons]
      by_cases own : toLex (person, device) = toLex (ev.pubkey, text)
      · rw [if_pos own, if_pos ((inBindingSlot_iff checked).mpr own), List.foldl_cons]
      · rw [if_neg own, if_neg fun member => own ((inBindingSlot_iff checked).mp member)]

/-! ### The store -/

omit [Devices] in
private theorem binding_eq_some {s : Store} {row : Event} :
    s.binding person device = some row ↔ row ∈ s.events ∧ inBindingSlot person device row = true := by
  constructor
  · intro found
    exact ⟨List.mem_of_find?_eq_some found, List.find?_some found⟩
  · rintro ⟨member, own⟩
    cases found : s.binding person device with
    | none => exact absurd own (List.find?_eq_none.mp found row member)
    | some other =>
      have listed := List.mem_of_find?_eq_some found
      have same : sameSlot row other = true := sameSlot_eq own ▸ List.find?_some found
      rw [s.eq_of_sameSlot member listed same]

variable (person device) in
omit [Devices] in
/-- A binding event reaches its slot in the store as an offer. -/
private theorem binding_insert {s : Store} (kind : ev.kind = deviceBinding)
    (distinct : ∀ row ∈ s.events, row.id = ev.id → row = ev) :
    (s.insert ev).1.binding person device =
      if inBindingSlot person device ev then offer replaces (s.binding person device) ev
      else s.binding person device := by
  refine Option.ext fun row => ?_
  rw [binding_eq_some, Store.mem_insert]
  by_cases own : inBindingSlot person device ev = true
  · rw [if_pos own, sameSlot_eq own]
    cases held : s.binding person device with
    | none =>
      have vacant : ∀ other ∈ s.events, inBindingSlot person device other = false := fun other member =>
        Bool.eq_false_iff.mpr (List.find?_eq_none.mp held other member)
      have new : (s.insert ev).2 = .new := by
        refine Store.insert_new (slot_stored kind) (fun other member same => ?_) fun other member same => ?_
        · have vacated := vacant other member
          simp [distinct other member same, own] at vacated
        · simp [sameSlot_eq own, vacant other member] at same
      rw [if_pos new]
      simp only [offer, Option.some.injEq]
      constructor
      · rintro ⟨rfl | ⟨_, apart⟩, inSlot⟩
        · rfl
        · simp [inSlot] at apart
      · rintro rfl
        exact ⟨.inl rfl, own⟩
    | some current =>
      obtain ⟨listed, inSlot⟩ := binding_eq_some.mp held
      cases wins : replaces ev current with
      | true =>
        have only : ∀ other ∈ s.events, inBindingSlot person device other = true → other = current := by
          intro other member here
          exact s.eq_of_sameSlot member listed (by rw [sameSlot_eq here]; exact inSlot)
        have new : (s.insert ev).2 = .new := by
          refine Store.insert_new (slot_stored kind) (fun other member same => ?_) fun other member same => ?_
          · obtain rfl := distinct other member same
            rw [only other member own, replaces_irrefl] at wins
            cases wins
          · rw [sameSlot_eq own] at same
            rw [only other member same]
            exact wins
        rw [if_pos new]
        simp only [offer, wins, ↓reduceIte, Option.some.injEq]
        constructor
        · rintro ⟨rfl | ⟨_, apart⟩, here⟩
          · rfl
          · simp [here] at apart
        · rintro rfl
          exact ⟨.inl rfl, own⟩
      | false =>
        have same : sameSlot ev current = true := by rw [sameSlot_eq own]; exact inSlot
        rw [if_neg (Store.insert_not_new listed same wins)]
        simp only [offer, wins, Bool.false_eq_true, ↓reduceIte]
        rw [← held, binding_eq_some]
  · rw [if_neg own, binding_eq_some]
    have apart : inBindingSlot person device row = true → row ≠ ev ∧ sameSlot ev row = false := by
      intro here
      refine ⟨fun same => own (same ▸ here), Bool.eq_false_iff.mpr fun same => own ?_⟩
      rw [sameSlot_comm, sameSlot_eq here] at same
      exact same
    refine and_congr_left fun here => ?_
    split
    · exact ⟨fun held => held.elim (fun same => absurd same (apart here).1) And.left,
        fun held => .inr ⟨held, (apart here).2⟩⟩
    · rfl

variable (person device) in
omit [Devices] in
private theorem binding_insertAll {events : List Event} (kinds : ∀ ev ∈ events, ev.kind = deviceBinding)
    (distinct : ∀ a ∈ events, ∀ b ∈ events, a.id = b.id → a = b) :
    (({} : Store).insertAll events).binding person device =
      best replaces (events.filter (inBindingSlot person device)) := by
  suffices general : ∀ (rest : List Event) (s : Store), (∀ ev ∈ rest, ev ∈ events) → (∀ row ∈ s.events, row ∈ events) →
      (s.insertAll rest).binding person device =
        (rest.filter (inBindingSlot person device)).foldl (offer replaces) (s.binding person device) by
    simpa [best, Store.binding] using general events {} (fun _ member => member) (by simp)
  intro rest
  induction rest with
  | nil => exact fun _ _ _ => rfl
  | cons ev rest ih =>
    intro s given held
    have here := given ev List.mem_cons_self
    have rows : ∀ row ∈ (s.insert ev).1.events, row ∈ events := by
      intro row member
      rw [Store.mem_insert] at member
      split at member
      · exact member.elim (fun same => same ▸ here) fun old => held row old.1
      · exact held row member
    have step := binding_insert person device (kinds ev here)
      fun row member same => distinct row (held row member) ev here same
    change ((s.insert ev).1.insertAll rest).binding person device = _
    rw [ih (s.insert ev).1 (fun other member => given other (List.mem_cons_of_mem ev member)) rows, step,
      List.filter_cons]
    split <;> rfl

/-- Whatever bindings and revocations pass the check at `now`, and in whatever order they
are inserted, the newest the book has of a person and device is the one the store holds in
the person's slot for that `d` tag; and a different order makes no difference. -/
theorem book_store_agree {events others : List Event}
    (checks : ∀ ev ∈ events, ∃ parsed, Parsed.check ev now = .ok parsed)
    (distinct : ∀ a ∈ events, ∀ b ∈ events, a.id = b.id → a = b) (order : others.Perm events)
    (person : PublicKey) (device : String) :
    (bookOf now events).newest[toLex (person, device)]? = (({} : Store).insertAll events).binding person device ∧
      (bookOf now others).newest[toLex (person, device)]? = (bookOf now events).newest[toLex (person, device)]? ∧
      (({} : Store).insertAll others).binding person device =
        (({} : Store).insertAll events).binding person device := by
  have kinds : ∀ ev ∈ events, ev.kind = deviceBinding := by
    intro ev member
    obtain ⟨parsed, passes⟩ := checks ev member
    exact (Parsed.check_ok passes).1.kind
  have total : StrictTotalOn replaces (events.filter (inBindingSlot person device)) := by
    refine replaces_strictTotalOn deviceBinding (fun ev member => kinds ev (List.mem_filter.mp member).1) ?_
    exact fun a first b second => distinct a (List.mem_filter.mp first).1 b (List.mem_filter.mp second).1
  have same : best replaces (others.filter (inBindingSlot person device)) =
      best replaces (events.filter (inBindingSlot person device)) :=
    (best_congr total fun ev => ((order.filter _).mem_iff).symm).symm
  have checks' : ∀ ev ∈ others, ∃ parsed, Parsed.check ev now = .ok parsed :=
    fun ev member => checks ev (order.mem_iff.mp member)
  have stored := binding_insertAll person device kinds distinct
  have stored' := binding_insertAll person device
    (fun ev member => kinds ev (order.mem_iff.mp member))
    fun a first b second => distinct a (order.mem_iff.mp first) b (order.mem_iff.mp second)
  refine ⟨(bookOf_newest checks).trans stored.symm, ?_, ?_⟩
  · rw [bookOf_newest checks, bookOf_newest checks', same]
  · rw [stored, stored', same]

end Slots

/-- The guest binds the laptop and then loses it. -/
def laptopLost : List Event := [signBinding guest laptop 100 1000, signRevocation guest laptop 110]

theorem book_store_agree_laptopLost :
    (({} : Store).insertAll laptopLost).binding guest (Devices.toText laptop) = some (signRevocation guest laptop 110) ∧
      (bookOf 120 laptopLost.reverse).newest[toLex (guest, Devices.toText laptop)]? =
        some (signRevocation guest laptop 110) := by
  have held : (({} : Store).insertAll laptopLost).binding guest (Devices.toText laptop) =
      some (signRevocation guest laptop 110) := by decide +kernel
  have passes : ∀ ev ∈ laptopLost, (Parsed.check ev 120).isOk = true := by decide +kernel
  have checks : ∀ ev ∈ laptopLost, ∃ parsed, Parsed.check ev 120 = .ok parsed := by
    intro ev member
    have ok := passes ev member
    cases check : Parsed.check ev 120 with
    | error refusal => simp [check, Except.isOk, Except.toBool] at ok
    | ok parsed => exact ⟨parsed, rfl⟩
  have agree := book_store_agree checks (by decide +kernel) (List.reverse_perm laptopLost) guest (Devices.toText laptop)
  exact ⟨held, agree.2.1.trans (agree.1.trans held)⟩

end HitEnter.Node
