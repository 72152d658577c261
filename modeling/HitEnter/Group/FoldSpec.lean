import HitEnter.Group.Fold
import HitEnter.Wire.Plain

/-! What the walk over the events collects, as sets: the piece kept of each kind
is the one no other replaces, the creators are the signers of the `9007`s, and
the actions come in an order of their own. So the fold reads a set of events. -/

namespace HitEnter.Group

open Wire Lib.Rounds Lib.KeepBest

theorem createGroup_not_state : stateKinds.contains createGroup = false := by decide

theorem createGroup_not_action : actionKinds.contains createGroup = false := by decide

theorem action_not_state {kind : Kind} (action : actionKinds.contains kind = true) :
    stateKinds.contains kind = false := by
  simp only [actionKinds, List.contains_iff_mem, List.mem_cons, List.not_mem_nil, or_false] at action
  rcases action with same | same | same | same | same | same | same <;> rw [same] <;> decide

/-! ### The order of the actions -/

theorem ids_injective {events : List Event} (distinct : (events.map Event.id).Nodup) :
    ∀ a ∈ events, ∀ b ∈ events, a.id = b.id → a = b :=
  fun _ first _ second same => List.inj_on_of_nodup_map distinct first second same

theorem sortActions_perm (actions : List Event) : (sortActions actions).Perm actions :=
  List.perm_insertionSort _ _

theorem sortActions_sorted (actions : List Event) :
    (sortActions actions).Pairwise fun a b => sortKey a ≤ sortKey b :=
  List.pairwise_insertionSort _ _

theorem mem_sortActions {ev : Event} {actions : List Event} : ev ∈ sortActions actions ↔ ev ∈ actions :=
  (sortActions_perm actions).mem_iff

theorem createdAt_le_of_sortKey_le {a b : Event} (le : sortKey a ≤ sortKey b) :
    a.createdAt ≤ b.createdAt :=
  Prod.Lex.monotone_fst (sortKey a) (sortKey b) le

/-- Ids of their own leave one sorted order, of all the actions or of some. -/
theorem filter_sortActions_congr {actions others : List Event} (keep keep' : Event → Bool)
    (same : (actions.filter keep).Perm (others.filter keep'))
    (distinct : ∀ a ∈ actions, ∀ b ∈ actions, a.id = b.id → a = b) :
    (sortActions actions).filter keep = (sortActions others).filter keep' := by
  refine List.Perm.eq_of_pairwise ?_ ((sortActions_sorted actions).filter _)
    ((sortActions_sorted others).filter _) ?_
  · intro a b first second le ge
    have keys : sortKey a = sortKey b := le_antisymm le ge
    have second' : b ∈ actions.filter keep :=
      same.mem_iff.mpr (((sortActions_perm others).filter _).mem_iff.mp second)
    refine distinct a (mem_sortActions.mp (List.mem_filter.mp first).1) b ?_ (congrArg Prod.snd keys)
    exact (List.mem_filter.mp second').1
  · exact ((sortActions_perm actions).filter _).trans (same.trans ((sortActions_perm others).filter _).symm)

theorem sortActions_congr {actions others : List Event} (same : actions.Perm others)
    (distinct : ∀ a ∈ actions, ∀ b ∈ actions, a.id = b.id → a = b) :
    sortActions actions = sortActions others := by
  simpa using filter_sortActions_congr (fun _ => true) (fun _ => true) (by simpa using same) distinct

/-! ### The walk -/

section Walk
variable [Nostr] {group : PublicKey} {events others : List Event}

/-- A readable state event of `group`, of that kind. -/
def isPiece (group : PublicKey) (kind : Kind) (ev : Event) : Bool :=
  groupOf ev = some group && stateKinds.contains ev.kind && (parseState ev).isSome && ev.kind == kind

def isCreator (group : PublicKey) (ev : Event) : Bool :=
  groupOf ev = some group && ev.kind == createGroup

def isAction (group : PublicKey) (ev : Event) : Bool :=
  groupOf ev = some group && actionKinds.contains ev.kind

private theorem event_piece (acc : Scan) (ev : Event) (kind : Kind) :
    (Scan.event group acc ev).pieces[kind]? =
      if isPiece group kind ev then offer replaces acc.pieces[kind]? ev else acc.pieces[kind]? := by
  unfold Scan.event isPiece
  by_cases own : groupOf ev = some group
  · by_cases state : stateKinds.contains ev.kind = true
    · by_cases read : (parseState ev).isSome = true
      · have parsed : (parseState ev).isNone = false := by simpa using read
        simp only [own, state, read, parsed, ne_eq, not_true_eq_false, ↓reduceIte, decide_true,
          Bool.and_true, Bool.false_eq_true, Bool.true_and, beq_iff_eq, Std.ExtTreeMap.getElem?_insert,
          Std.LawfulEqCmp.compare_eq_iff_eq]
        split
        · rename_i same
          subst same
          cases acc.pieces[ev.kind]? with
          | none => simp [offer]
          | some held => simp only [offer, Option.getD_some]; split <;> rfl
        · rfl
      · have parsed : (parseState ev).isNone = true := by simpa using read
        simp only [own, state, read, parsed, ne_eq, not_true_eq_false, ↓reduceIte, Bool.and_false,
          Bool.false_and, Bool.false_eq_true]
    · simp only [own, state, ne_eq, not_true_eq_false, ↓reduceIte, Bool.false_eq_true, Bool.and_false,
        Bool.false_and]
      split
      · rfl
      · split <;> rfl
  · simp [own]

theorem scan_pieces (kind : Kind) :
    (scan group events).pieces[kind]? = best replaces (events.filter (isPiece group kind)) := by
  suffices general : ∀ acc : Scan, (events.foldl (Scan.event group) acc).pieces[kind]? =
      (events.filter (isPiece group kind)).foldl (offer replaces) acc.pieces[kind]? by
    simpa [scan, best] using general {}
  intro acc
  induction events generalizing acc with
  | nil => rfl
  | cons ev rest ih =>
    rw [List.foldl_cons, ih, event_piece]
    by_cases piece : isPiece group kind ev = true
    · simp [piece]
    · simp [piece]

private theorem event_creators (acc : Scan) (ev : Event) :
    (Scan.event group acc ev).creators =
      if isCreator group ev then acc.creators.insert ev.pubkey else acc.creators := by
  unfold Scan.event isCreator
  by_cases own : groupOf ev = some group
  · by_cases creator : ev.kind = createGroup
    · simp only [own, createGroup_not_state, ne_eq, not_true_eq_false, ↓reduceIte, creator,
        Bool.false_eq_true, decide_true, beq_self_eq_true, Bool.and_self]
    · simp only [own, creator, ne_eq, not_true_eq_false, ↓reduceIte, beq_iff_eq, Bool.and_eq_true,
        and_false]
      split
      · split <;> rfl
      · split <;> rfl
  · simp [own]

theorem mem_scan_creators {p : PublicKey} :
    p ∈ (scan group events).creators ↔ ∃ ev ∈ events, isCreator group ev = true ∧ ev.pubkey = p := by
  suffices general : ∀ acc : Scan, p ∈ (events.foldl (Scan.event group) acc).creators ↔
      p ∈ acc.creators ∨ ∃ ev ∈ events, isCreator group ev = true ∧ ev.pubkey = p by
    simpa [scan] using general {}
  intro acc
  induction events generalizing acc with
  | nil => simp
  | cons ev rest ih =>
    rw [List.foldl_cons, ih, event_creators]
    by_cases creator : isCreator group ev = true
    · simp [creator, Std.ExtTreeSet.mem_insert, or_assoc, or_left_comm]
    · simp [creator]

private theorem event_actions (acc : Scan) (ev : Event) :
    (Scan.event group acc ev).actions = acc.actions ++ if isAction group ev then [ev] else [] := by
  unfold Scan.event isAction
  by_cases own : groupOf ev = some group
  · by_cases action : actionKinds.contains ev.kind = true
    · have creator : ev.kind ≠ createGroup := by
        intro creator
        rw [creator, createGroup_not_action] at action
        cases action
      simp only [own, action_not_state action, action, creator, ne_eq, not_true_eq_false, ↓reduceIte,
        Bool.false_eq_true, decide_true, Bool.and_self]
    · simp only [own, action, ne_eq, not_true_eq_false, ↓reduceIte, Bool.and_false, Bool.false_eq_true,
        List.append_nil]
      split
      · split <;> rfl
      · split <;> rfl
  · simp [own]

theorem scan_actions : (scan group events).actions = events.filter (isAction group) := by
  suffices general : ∀ acc : Scan, (events.foldl (Scan.event group) acc).actions =
      acc.actions ++ events.filter (isAction group) by
    simpa [scan] using general {}
  intro acc
  induction events generalizing acc with
  | nil => simp
  | cons ev rest ih =>
    rw [List.foldl_cons, ih, event_actions]
    by_cases action : isAction group ev = true
    · simp [action]
    · simp [action]

theorem not_piece {ev : Event} (action : actionKinds.contains ev.kind = true) (kind : Kind) :
    isPiece group kind ev = false := by
  simp only [isPiece, action_not_state action, Bool.and_false, Bool.false_and]

theorem not_creator {ev : Event} (action : actionKinds.contains ev.kind = true) :
    isCreator group ev = false := by
  have other : ev.kind ≠ createGroup := fun creator => by
    rw [creator, createGroup_not_action] at action
    cases action
  simp [isCreator, other]

/-! ### The fold reads a set -/

theorem pieces_strictTotalOn (distinct : ∀ a ∈ events, ∀ b ∈ events, a.id = b.id → a = b) (kind : Kind) :
    StrictTotalOn replaces (events.filter (isPiece group kind)) := by
  refine replaces_strictTotalOn kind ?_ ?_
  · intro ev member
    have piece := (List.mem_filter.mp member).2
    simp only [isPiece, Bool.and_eq_true, beq_iff_eq] at piece
    exact piece.2
  · exact fun a first b second =>
      distinct a (List.mem_filter.mp first).1 b (List.mem_filter.mp second).1

theorem snapshotState_congr
    (pieces : ∀ kind : Kind, (scan group events).pieces[kind]? = (scan group others).pieces[kind]?)
    (creators : ∀ p, p ∈ (scan group events).creators ↔ p ∈ (scan group others).creators) :
    snapshotState group (scan group events) = snapshotState group (scan group others) := by
  have samePieces : (scan group events).pieces = (scan group others).pieces :=
    Std.ExtTreeMap.ext_getElem? fun {kind} => pieces kind
  have sameCreators : (scan group events).creators = (scan group others).creators :=
    Std.ExtTreeSet.ext_mem fun {p} => creators p
  rw [snapshotState, snapshotState, samePieces, sameCreators]

/-- The events of `group` that a fold reads. -/
def isRead (group : PublicKey) (ev : Event) : Bool :=
  groupOf ev = some group && (stateKinds.contains ev.kind || ev.kind == createGroup || actionKinds.contains ev.kind)

/-- A fold reads nothing else. -/
theorem fold_filter : GroupState.fold group (events.filter (isRead group)) = GroupState.fold group events := by
  have walk : scan group (events.filter (isRead group)) = scan group events := by
    unfold scan
    rw [List.foldl_filter]
    refine List.foldl_ext _ _ _ fun acc ev _ => ?_
    split
    · rfl
    · rename_i ignored
      simp only [isRead, Bool.and_eq_true, decide_eq_true_eq, Bool.or_eq_true, beq_iff_eq, not_and_or, not_or] at ignored
      rcases ignored with other | ⟨⟨notState, notCreate⟩, notAction⟩
      · rw [Scan.event, if_pos other]
      · rw [Scan.event, if_neg notState, if_neg notCreate, if_neg notAction]
        split <;> rfl
  simp only [GroupState.fold, GroupState.start, GroupState.live, walk]

/-- Two nodes that hold the same events hold the same group, whatever order the
events reached them in. -/
theorem fold_perm (distinct : (events.map Event.id).Nodup) (same : events.Perm others) :
    GroupState.fold group events = GroupState.fold group others := by
  have alike := ids_injective distinct
  have actions : sortActions (scan group events).actions = sortActions (scan group others).actions := by
    rw [scan_actions, scan_actions]
    refine sortActions_congr (same.filter _) fun a first b second => ?_
    exact alike a (List.mem_filter.mp first).1 b (List.mem_filter.mp second).1
  have pieces : ∀ kind : Kind, (scan group events).pieces[kind]? = (scan group others).pieces[kind]? := by
    intro kind
    rw [scan_pieces, scan_pieces]
    exact best_congr (pieces_strictTotalOn alike kind) fun ev => (same.filter _).mem_iff
  have creators : ∀ p, p ∈ (scan group events).creators ↔ p ∈ (scan group others).creators := by
    intro p
    simp only [mem_scan_creators, same.mem_iff]
  have state := snapshotState_congr pieces creators
  simp only [GroupState.fold, GroupState.start, GroupState.live, state, actions]

end Walk

/-- A new group that someone has joined and been made moderator of. -/
def youngClub : List Event :=
  genesis founder club "club" true 100 ++
    [(Draft.joinPublic club).sign guest 110, (Draft.putUser club guest ["mod"]).sign founder 120]

theorem fold_perm_youngClub :
    (GroupState.fold club youngClub).isSome = true ∧
      GroupState.fold club youngClub = GroupState.fold club youngClub.reverse :=
  ⟨by decide +kernel, fold_perm (by decide +kernel) (List.reverse_perm youngClub).symm⟩

end HitEnter.Group
