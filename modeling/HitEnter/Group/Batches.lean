import HitEnter.Group.EditSpec

/-! What a batch of edits does as a whole, read off the batch: the role
definitions it leaves, and the roles its members keep. -/

namespace HitEnter.Group.GroupState

open Wire

variable {s next : GroupState} {actor p : PublicKey} {batch : List Edit}

/-- What an edit says about the role `q`: a definition, its end, or nothing. -/
def roleEdit (q : String) : Edit → Option (Option RoleDef)
  | .role r => if r.id = q then some (some (sanitizedRole r)) else none
  | .roleDelete id => if id = q then some none else none
  | _ => none

/-- What an edit says about the channel `c`: that it is there, that it is gone, or
nothing. -/
def channelEdit (c : String) : Edit → Option Bool
  | .channel made => if made.id = c then some true else none
  | .channelDelete id => if id = c then some false else none
  | _ => none

/-- The last thing a batch says. -/
def lastSaid (about : Edit → Option α) (batch : List Edit) : Option α :=
  batch.foldl (fun last e => (about e).or last) none

@[simp] theorem lastSaid_nil (about : Edit → Option α) : lastSaid about [] = none := rfl

@[simp] theorem lastSaid_snoc (about : Edit → Option α) (done : List Edit) (e : Edit) :
    lastSaid about (done ++ [e]) = (about e).or (lastSaid about done) := by
  simp [lastSaid]

/-- A role that a batch leaves deleted is one it deletes. -/
theorem roleDelete_of_lastSaid {q : String} (last : lastSaid (roleEdit q) batch = some none) :
    Edit.roleDelete q ∈ batch := by
  induction batch using List.reverseRecOn with
  | nil => simp at last
  | append_singleton done e ih =>
    rw [lastSaid_snoc] at last
    cases said : roleEdit q e with
    | none => exact List.mem_append_left _ (ih (by simpa [said] using last))
    | some what =>
      obtain rfl : what = none := by simpa [said] using last
      cases e with
      | roleDelete id =>
        obtain rfl : id = q := by simpa [roleEdit] using said
        simp
      | role r => simp [roleEdit] at said
      | _ => simp [roleEdit] at said

/-- The roles after a batch: what it said last, or what was there. -/
theorem edits_roles (ok : s.edits actor batch = .ok next) (q : String) :
    next.roles[q]? = (lastSaid (roleEdit q) batch).getD s.roles[q]? := by
  refine edits_history (fun done next => next.roles[q]? = (lastSaid (roleEdit q) done).getD s.roles[q]?) ok rfl ?_
  intro done before e after edited so_far
  cases edited with
  | role given =>
    simp only [lastSaid_snoc, roleEdit, Std.ExtTreeMap.getElem?_insert,
      Std.LawfulEqCmp.compare_eq_iff_eq]
    split
    · rfl
    · exact so_far
  | roleDelete other defined =>
    simp only [lastSaid_snoc, roleEdit, Std.ExtTreeMap.getElem?_erase,
      Std.LawfulEqCmp.compare_eq_iff_eq]
    split
    · rfl
    · exact so_far
  | _ => simpa [roleEdit] using so_far

/-- A member keeps the roles the batch does not delete; one it deletes and defines
again is gone from its holders. -/
theorem edits_members (ok : s.edits actor batch = .ok next) {held : BTreeSet String}
    (found : s.members[p]? = some held) :
    ∃ kept, next.members[p]? = some kept ∧ ∀ r, r ∈ kept ↔ r ∈ held ∧ Edit.roleDelete r ∉ batch := by
  refine edits_history (fun done next => ∃ kept, next.members[p]? = some kept ∧
    ∀ r, r ∈ kept ↔ r ∈ held ∧ Edit.roleDelete r ∉ done) ok ⟨held, found, by simp⟩ ?_
  intro done before e after edited so_far
  obtain ⟨kept, here, which⟩ := so_far
  cases edited with
  | roleDelete other defined =>
    rename_i id
    refine ⟨kept.erase id, by simp [here], fun r => ?_⟩
    rw [Std.ExtTreeSet.mem_erase, which]
    simp only [List.mem_append, List.mem_singleton, Edit.roleDelete.injEq, not_or, ne_eq,
      Std.LawfulEqCmp.compare_eq_iff_eq, eq_comm (a := id)]
    tauto
  | _ => exact ⟨kept, here, by simpa using which⟩

theorem mem_putChannel {c x : Channel} {channels : List Channel} (member : x ∈ putChannel c channels) :
    x = c ∨ x ∈ channels := by
  induction channels with
  | nil => exact .inl (List.mem_singleton.mp member)
  | cons y rest ih =>
    unfold putChannel at member
    split at member
    · exact (List.mem_cons.mp member).imp_right (List.mem_cons_of_mem y)
    · rcases List.mem_cons.mp member with rfl | later
      · exact .inr List.mem_cons_self
      · exact (ih later).imp_right (List.mem_cons_of_mem y)

/-- After a batch that leaves `c` deleted there is no such channel, and no override
of it. -/
theorem edits_deleted {c : String} (ok : s.edits actor batch = .ok next)
    (deleted : lastSaid (channelEdit c) batch = some false) :
    (∀ x ∈ next.channels, x.id ≠ c) ∧ ∀ o ∈ next.overrides, o.channel ≠ c := by
  refine edits_history (fun done next => lastSaid (channelEdit c) done = some false →
    (∀ x ∈ next.channels, x.id ≠ c) ∧ ∀ o ∈ next.overrides, o.channel ≠ c) ok (by simp) ?_ deleted
  intro done before e after edited so_far deleted
  rw [lastSaid_snoc] at deleted
  cases edited with
  | channel =>
    rename_i made
    simp only [channelEdit] at deleted
    split at deleted
    · simp at deleted
    · rename_i other
      obtain ⟨channels, overrides⟩ := so_far (by simpa using deleted)
      refine ⟨fun x member => ?_, overrides⟩
      rcases mem_putChannel member with rfl | old
      · exact other
      · exact channels x old
  | channelDelete listed =>
    rename_i id
    by_cases same : id = c
    · subst same
      constructor
      · intro x member
        simpa using (List.mem_filter.mp member).2
      · intro o member
        simpa using (List.mem_filter.mp member).2
    · obtain ⟨channels, overrides⟩ := so_far (by simpa [channelEdit, same] using deleted)
      exact ⟨fun x member => channels x (List.mem_filter.mp member).1,
        fun o member => overrides o (List.mem_filter.mp member).1⟩
  | override listed given =>
    obtain ⟨channels, overrides⟩ := so_far (by simpa [channelEdit] using deleted)
    refine ⟨channels, fun o member => ?_⟩
    rcases mem_putOverride member with old | rfl
    · exact overrides o old
    · obtain ⟨x, there, same⟩ := List.any_eq_true.mp listed
      exact fun inC => channels x there ((beq_iff_eq.mp same).trans inC)
  | roleDelete other defined =>
    obtain ⟨channels, overrides⟩ := so_far (by simpa [channelEdit] using deleted)
    exact ⟨channels, fun o member => overrides o (List.mem_filter.mp member).1⟩
  | _ => exact so_far (by simpa [channelEdit] using deleted)

end HitEnter.Group.GroupState
