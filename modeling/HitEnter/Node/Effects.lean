import HitEnter.Node.Accept

/-! What the work on a direct message and on a binding leaves as it was: the groups, and
every row that is neither a wrap nor a binding. -/

namespace HitEnter.Node

open Wire HitEnter.Group

namespace Inner

section Kept
variable [NostrEvents] {a b c node : Inner} {now : Timestamp}

/-- The same groups, and the same rows of everything but wraps and bindings. -/
structure SameGroups (a b : Inner) : Prop where
  groups : b.groups = a.groups
  rows : ∀ row : Event, row.kind ≠ deviceBinding → row.kind ≠ giftWrap → (row ∈ b.store.events ↔ row ∈ a.store.events)

theorem SameGroups.refl (a : Inner) : SameGroups a a := ⟨rfl, fun _ _ _ => Iff.rfl⟩

theorem SameGroups.trans (first : SameGroups a b) (second : SameGroups b c) : SameGroups a c where
  groups := second.groups.trans first.groups
  rows row notBinding notWrap := (second.rows row notBinding notWrap).trans (first.rows row notBinding notWrap)

theorem SameGroups.insert {ev : Event} (aside : ev.kind = deviceBinding ∨ ev.kind = giftWrap) :
    SameGroups a (a.insert ev now).1 where
  groups := rfl
  rows _ notBinding notWrap := Store.mem_insert_of_kind fun same =>
    aside.elim (fun kind => notBinding (same.trans kind)) fun kind => notWrap (same.trans kind)

theorem SameGroups.grantBlob {person : PublicKey} {file : String} : SameGroups a (a.grantBlob file person) := by
  unfold Inner.grantBlob
  split
  · exact .refl a
  · exact ⟨rfl, fun _ _ _ => Iff.rfl⟩

section Devices
variable [Devices]

/-- The book has nothing to do with the groups, the rows or the grants. -/
theorem bookBinding_ok {ev : Event} (booked : a.bookBinding ev now = .ok b) :
    b.groups = a.groups ∧ b.store = a.store ∧ b.grants = a.grants := by
  unfold Inner.bookBinding at booked
  split at booked
  · split at booked
    · cases booked
    · cases booked
      exact ⟨rfl, rfl, rfl⟩
  · cases booked
    exact ⟨rfl, rfl, rfl⟩

theorem SameGroups.bookBinding {ev : Event} (booked : a.bookBinding ev now = .ok b) : SameGroups a b := by
  obtain ⟨groups, store, _⟩ := bookBinding_ok booked
  exact ⟨groups, fun _ _ _ => by rw [store]⟩

theorem SameGroups.learnBinding {binding : Event} {person : PublicKey} :
    SameGroups a (a.learnBinding binding person now) ∧ (a.learnBinding binding person now).grants = a.grants := by
  unfold Inner.learnBinding
  split
  · exact ⟨.refl a, rfl⟩
  · rename_i fits
    split
    · exact ⟨.refl a, rfl⟩
    · rename_i booked entered
      simp only [not_or, not_not] at fits
      exact ⟨(SameGroups.bookBinding entered).trans (.insert (.inl fits.1)), (bookBinding_ok entered).2.2⟩

variable [Wraps] {wrap : Event}

theorem SameGroups.openWrap : SameGroups a (a.openWrap wrap now) := by
  unfold Inner.openWrap
  split
  · exact .refl a
  · rename_i d opened
    have granted : SameGroups a
        (d.file.elim a fun f => (a.grantBlob f.hash d.sender).grantBlob f.hash d.recipient) := by
      cases d.file with
      | none => exact .refl a
      | some f => exact SameGroups.grantBlob.trans .grantBlob
    simp only
    split
    · exact granted
    · cases d.device with
      | none => exact granted
      | some binding => exact granted.trans SameGroups.learnBinding.1

end Devices

section Inbox
variable [Wraps]

omit [NostrEvents] in
private theorem capStep_wraps {cap : ℕ} {wraps : List Event} (acc : ℕ × List EventId) {id : EventId}
    (dropped : id ∈ (wraps.foldl (Inner.capStep cap) acc).2) : id ∈ acc.2 ∨ ∃ wrap ∈ wraps, wrap.id = id := by
  induction wraps generalizing acc with
  | nil => exact .inl dropped
  | cons wrap rest ih =>
    rcases ih _ dropped with earlier | ⟨later, member, same⟩
    · simp only [Inner.capStep] at earlier
      split at earlier
      · rcases List.mem_append.mp earlier with before | here
        · exact .inl before
        · exact .inr ⟨wrap, List.mem_cons_self, (List.mem_singleton.mp here).symm⟩
      · exact .inl earlier
    · exact .inr ⟨later, List.mem_cons_of_mem wrap member, same⟩

theorem SameGroups.capWraps {person : PublicKey} {cap : ℕ} : SameGroups a (a.capWraps person cap) where
  groups := rfl
  rows row _ notWrap := by
    simp only [Inner.capWraps, Inner.remove, Store.mem_remove, and_iff_left_iff_imp]
    intro held dropped
    rcases capStep_wraps (0, []) dropped with none | ⟨wrap, listed, same⟩
    · cases none
    · simp only [Inner.wrapsFor, List.mem_insertionSort, List.mem_flatMap, List.mem_filter, decide_eq_true_eq,
        List.mem_map] at listed
      obtain ⟨found, ⟨member, wraps⟩, _, _, rfl⟩ := listed
      rw [a.store.eq_of_id member held same] at wraps
      exact notWrap wraps

theorem SameGroups.keepInbox {wrap : Event} :
    SameGroups a (a.keepInbox wrap) ∧ (a.keepInbox wrap).grants = a.grants := by
  unfold Inner.keepInbox
  split
  · split
    · exact ⟨.refl a, rfl⟩
    · exact ⟨.capWraps, rfl⟩
  · exact ⟨.refl a, rfl⟩

end Inbox

/-- The groups of a store say nothing of anyone's anchors. -/
theorem groupsIn_blank (store : Store) (carried : List PublicKey) (me : PublicKey) :
    (groupsIn store carried me).me = me ∧ (groupsIn store carried me).inboxes = ∅ := by
  suffices general : ∀ gs : Groups, gs.inboxes = ∅ →
      (carried.foldl (fun gs group =>
        (gs.carry group).setState group (GroupState.fold group (store.groupEvents group))) gs).me = gs.me ∧
      (carried.foldl (fun gs group =>
        (gs.carry group).setState group (GroupState.fold group (store.groupEvents group))) gs).inboxes = ∅ from
    general { me := me } rfl
  induction carried with
  | nil => exact fun gs blank => ⟨rfl, blank⟩
  | cons group rest ih => exact fun gs blank => ih ((gs.carry group).setState group _) blank

end Kept

end Inner

end HitEnter.Node
