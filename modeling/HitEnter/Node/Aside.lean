import HitEnter.Node.Effects
import HitEnter.Node.Refold

/-! What taking in an event leaves of a group whose fold does not read it: the rows it folds
from, and the fold. And where the rows of a node come from. -/

namespace HitEnter.Node

open Wire HitEnter.Group

section Aside
variable [NostrEvents] {g : PublicKey} {a b c node : Inner} {ev row : Event} {now : Timestamp}

/-- What a fold of `g` reads is as it was, and `g` folded if it was. -/
structure SameFold (g : PublicKey) (a b : Inner) : Prop where
  rows : ∀ row, isRead g row = true → (row ∈ b.store.events ↔ row ∈ a.store.events)
  carried : b.groups.carried.contains g = a.groups.carried.contains g
  folded : a.groups.state g = a.foldOf g → b.groups.state g = b.foldOf g

theorem SameFold.refl (a : Inner) : SameFold g a a := ⟨fun _ _ => Iff.rfl, rfl, id⟩

theorem SameFold.trans (first : SameFold g a b) (second : SameFold g b c) : SameFold g a c where
  rows row read := (second.rows row read).trans (first.rows row read)
  carried := second.carried.trans first.carried
  folded := second.folded ∘ first.folded

theorem SameFold.of_rows (rows : ∀ row, isRead g row = true → (row ∈ b.store.events ↔ row ∈ a.store.events))
    (groups : b.groups.carried = a.groups.carried) : SameFold g a b where
  rows := rows
  carried := by rw [groups]
  folded same := by
    have fold : a.foldOf g = b.foldOf g := fold_groupEvents_congr fun row read => (rows row read).symm
    have state : b.groups.state g = a.groups.state g := by rw [Groups.state, groups, Groups.state]
    exact state.trans (same.trans fold)

theorem SameFold.of_groups (same : Inner.SameGroups a b) : SameFold g a b := by
  apply SameFold.of_rows
  · intro row read
    obtain ⟨_, _, ⟨notBinding, notWrap⟩, _⟩ := read_kind read
    exact same.rows row notBinding notWrap
  · rw [same.groups]

/-- A refold of any group. -/
theorem SameFold.refold (other : PublicKey) : SameFold g node (node.refold other) where
  rows _ _ := Iff.rfl
  carried := by
    change (node.groups.setState other _).carried.contains g = node.groups.carried.contains g
    unfold Groups.setState
    split
    · rename_i known
      by_cases same : other = g
      · subst same
        simpa using known
      · simp [Std.ExtTreeMap.contains_insert, same]
    · rfl
  folded same := by
    change (node.groups.setState other _).state g = node.foldOf g
    rw [Groups.state_setState]
    split
    · rename_i own
      rw [own.1]
    · exact same

/-- What is firm survives a purge. -/
theorem mem_purge_firm (firm : deletableKinds.contains row.kind = false) (other : PublicKey) :
    row ∈ (node.purgeSilenced other).store.events ↔ row ∈ node.store.events := by
  refine Store.mem_remove.trans (and_iff_left_of_imp fun held gone => ?_)
  obtain ⟨span, _, named⟩ := List.mem_flatMap.mp gone
  unfold Store.authoredIn at named
  split at named
  · cases named
  · obtain ⟨found, listed, same⟩ := List.mem_map.mp named
    obtain ⟨member, _, fits, _⟩ := Store.mem_query.mp listed
    obtain rfl := node.store.eq_of_id member held same
    simp only [Filter.inGroup, Filter.selects, Bool.and_eq_true, Option.all_some] at fits
    rw [fits.1.1.1.2] at firm
    cases firm

theorem SameFold.purgeSilenced (other : PublicKey) : SameFold g node (node.purgeSilenced other) :=
  .of_rows (fun _ read => mem_purge_firm (read_kind read).2.1 other) rfl

theorem SameFold.insert (grouped : isGroupKind ev.kind = true → (groupOf ev).isSome = true) (apart : isRead g ev = false) :
    SameFold g node (node.insert ev now).1 := by
  apply SameFold.of_rows
  · intro row read
    exact insert_read grouped (fun own => absurd own (by rw [apart]; exact Bool.false_ne_true)) read
  · rfl

theorem SameFold.applyDeletion : SameFold g node (node.applyDeletion ev) := by
  apply SameFold.of_rows
  · intro row read
    refine Store.mem_applyDeletion.trans (and_iff_left fun ⟨_, _, said⟩ => ?_)
    rw [(read_kind read).2.1] at said
    cases said
  · rfl

theorem SameFold.applyRemoval : SameFold g node (node.applyRemoval ev) := by
  apply SameFold.of_rows
  · intro row read
    refine Store.mem_remove.trans (and_iff_left_of_imp fun held gone => ?_)
    obtain ⟨found, listed, same⟩ := List.mem_map.mp gone
    obtain ⟨member, said⟩ := List.mem_filter.mp listed
    obtain rfl := node.store.eq_of_id (List.mem_filter.mp member).1 held same
    simp only [Bool.and_eq_true] at said
    rw [(read_kind read).2.1] at said
    cases said.1.1
  · rfl

variable [Devices] [Wraps]

theorem SameFold.follow {how : Stored} : SameFold g node (node.follow ev how now) := by
  unfold Inner.follow
  split
  · exact .refl node
  · split
    · exact .applyDeletion
    · split
      · exact .applyRemoval
      · split
        · exact .of_groups (Inner.SameGroups.openWrap.trans Inner.SameGroups.keepInbox.1)
        · split
          · exact .of_rows (fun _ _ => Iff.rfl) rfl
          · split
            · exact .refl node
            · split
              · exact (SameFold.refold _).trans (.purgeSilenced _)
              · exact .refl node

/-- What a fold does not read leaves it as it was. -/
theorem SameFold.acceptEvent {source : Source} (apart : isRead g ev = false) :
    SameFold g node (node.acceptEvent ev source now).1 := by
  rcases node.acceptEvent_cases ev source now with ⟨judgement, booked, passed⟩ | ⟨same, _⟩
  · have grouped : isGroupKind ev.kind = true → (groupOf ev).isSome = true := by
      intro group
      have wrap : ev.kind ≠ giftWrap := (groupKind_not_personal group).1
      have judged := passed.judged
      rw [Inner.judged_of_not_wrap wrap] at judged
      obtain ⟨other, _, own, _⟩ := judge_carried judged group
      rw [own]
      rfl
    rw [passed.out]
    exact ((SameFold.of_groups (.bookBinding passed.entered)).trans (.insert grouped apart)).trans .follow
  · rw [same]
    exact .refl node

/-! ### Where rows come from -/

/-- A row is new, was there, or is a binding that a letter brought. -/
def Stems (a : Inner) (ev row : Event) : Prop :=
  row = ev ∨ row ∈ a.store.events ∨ row.kind = deviceBinding ∧ NostrEvents.verify row = true

omit [Devices] [Wraps] in
private theorem mem_insert_stems {row : Event} (held : row ∈ (node.insert ev now).1.store.events) :
    row = ev ∨ row ∈ node.store.events := by
  rw [Inner.insert, Store.mem_insert] at held
  split at held
  · exact held.imp_right And.left
  · exact .inr held

omit [Wraps] in
private theorem learnBinding_stems {binding : Event} {person : PublicKey}
    (held : row ∈ (node.learnBinding binding person now).store.events) :
    row ∈ node.store.events ∨ row.kind = deviceBinding ∧ NostrEvents.verify row = true := by
  unfold Inner.learnBinding at held
  split at held
  · exact .inl held
  · rename_i fits
    split at held
    · exact .inl held
    · rename_i booked entered
      simp only [not_or, not_not, Bool.not_eq_false] at fits
      rcases mem_insert_stems held with rfl | old
      · exact .inr ⟨fits.1, fits.2.2⟩
      · rw [(Inner.bookBinding_ok entered).2.1] at old
        exact .inl old

private theorem openWrap_stems (held : row ∈ (node.openWrap ev now).store.events) :
    row ∈ node.store.events ∨ row.kind = deviceBinding ∧ NostrEvents.verify row = true := by
  have granted {n : Inner} {file : String} {person : PublicKey} : (n.grantBlob file person).store = n.store := by
    unfold Inner.grantBlob
    split <;> rfl
  unfold Inner.openWrap at held
  split at held
  · exact .inl held
  · rename_i d _
    have rows : (d.file.elim node fun f => (node.grantBlob f.hash d.sender).grantBlob f.hash d.recipient).store = node.store := by
      cases d.file with
      | none => rfl
      | some f => exact granted.trans granted
    simp only at held
    split at held
    · rw [rows] at held
      exact .inl held
    · cases device : d.device with
      | none =>
        rw [device, Option.elim_none, rows] at held
        exact .inl held
      | some binding =>
        rw [device] at held
        exact (learnBinding_stems held).imp_left fun old => rows ▸ old

theorem acceptEvent_stems {source : Source} (held : row ∈ (node.acceptEvent ev source now).1.store.events) :
    Stems node ev row := by
  rcases node.acceptEvent_cases ev source now with ⟨judgement, booked, passed⟩ | ⟨same, _⟩
  · rw [passed.out] at held
    have entered : row ∈ (booked.insert ev now).1.store.events → Stems node ev row := by
      intro old
      rcases mem_insert_stems old with rfl | before
      · exact .inl rfl
      · rw [(Inner.bookBinding_ok passed.entered).2.1] at before
        exact .inr (.inl before)
    simp only [Inner.follow] at held
    split at held
    · exact entered held
    · split at held
      · exact entered (Store.mem_applyDeletion.mp held).1
      · split at held
        · exact entered (Store.mem_remove.mp held).1
        · split at held
          · have kept : row ∈ (((booked.insert ev now).1.openWrap ev now)).store.events := by
              unfold Inner.keepInbox at held
              split at held
              · split at held
                · exact held
                · exact (Store.mem_remove.mp held).1
              · exact held
            rcases openWrap_stems kept with old | learned
            · exact entered old
            · exact .inr (.inr learned)
          · split at held
            · exact entered held
            · split at held
              · exact entered held
              · split at held
                · exact entered (Store.mem_remove.mp held).1
                · exact entered held
  · rw [same] at held
    exact .inr (.inl held)

end Aside

end HitEnter.Node
