import HitEnter.Lib.Counting
import HitEnter.Lib.Keyed
import HitEnter.Wire.Announce
import HitEnter.Wire.Invite
import HitEnter.Wire.Revocation

/-! Looking for communities: what public relays answer about groups, and what lists of
groups the people have whom one knows. -/

namespace HitEnter.App

open Wire Lib.KeepBest Lib.Keyed Lib.Counting

/-- At most this many people are asked about. -/
def knownAsked : ℕ := 500

/-- The groups found, and who of the people asked about is in each. -/
structure Browsed where
  found : List Announcement
  known : BTreeMap PublicKey (List PublicKey)

/-- A list of groups, as its author signed it. -/
structure GroupsList where
  who : PublicKey
  date : Timestamp
  groups : List PublicKey

/-- How many of the people known are in each group, which the groups are ranked by. -/
def Browsed.counts (b : Browsed) : BTreeMap PublicKey ℕ := b.known.map fun _ people => people.length

def Browsed.friends (b : Browsed) (g : PublicKey) : ℕ := b.counts[g]?.getD 0

/-- How many are shown. -/
def Browsed.knownCount (b : Browsed) (g : PublicKey) : ℕ := (b.known[g]?.getD []).length

theorem Browsed.friends_eq (b : Browsed) (g : PublicKey) : b.friends g = b.knownCount g := by
  rw [friends, counts, knownCount, Std.ExtTreeMap.getElem?_map]
  cases b.known[g]? <;> rfl

def laterList (list held : GroupsList) : Bool := held.date < list.date

/-- A tie goes to the withdrawal. -/
def laterHeard (h n : Heard) : Bool :=
  n.date < h.date || n.date == h.date && h.isWithdrawn

section Browse
variable [NostrEvents]

/-- What can be read of the lists. -/
def readLists (lists : List Event) : List GroupsList :=
  lists.filterMap fun ev => (readGroupsList ev).map fun (who, groups) => { who, date := ev.createdAt, groups }

/-- Each person's newest list, of those asked about: a relay may answer with anyone's. -/
def newestLists (asked : List PublicKey) (lists : List Event) : BTreeMap PublicKey GroupsList :=
  bestBy GroupsList.who laterList ((readLists lists).filter fun list => asked.contains list.who)

def byGroup (asked : List PublicKey) (lists : List Event) : BTreeMap PublicKey (List PublicKey) :=
  ((newestLists asked lists).toList.flatMap fun entry => entry.2.groups.map fun g => (g, entry.1)).foldl pushAt ∅

def newestHeard (heard : List Event) : BTreeMap PublicKey Heard :=
  bestBy Heard.group laterHeard (heard.filterMap readAnnouncement)

variable [Devices] [LinkTexts]

/-- Does its link lead to the group, without a code? -/
def leadsThere (a : Announcement) : Bool :=
  match InviteLink.parse a.link with
  | .ok link => link.group == a.group && link.code.isNone
  | .error _ => false

/-- Who is asked about, of the people one knows. -/
def askedAbout (known : BTreeSet PublicKey) : List PublicKey := known.toList.take knownAsked

/-- Each group's newest announcement, withdrawn ones gone; and the lists of those known. -/
def askForCommunities (known : BTreeSet PublicKey) (heard lists : List Event) : Browsed :=
  { found := ((newestHeard heard).toList.filterMap fun
      | (_, .announced a) => some a
      | (_, .withdrawn _ _) => none).filter leadsThere
    known := byGroup (askedAbout known) (if (askedAbout known).isEmpty then [] else lists) }

end Browse

/-! ### Announcements and withdrawals -/

theorem laterHeard_later : Later laterHeard Heard.date where
  of_lt h n earlier := by simp [laterHeard, earlier]
  le h n later := by
    simp only [laterHeard, Bool.or_eq_true, decide_eq_true_eq, Bool.and_eq_true, beq_iff_eq] at later
    rcases later with less | ⟨same, -⟩
    · exact less.le
    · exact same.le

theorem laterHeard_tie (h n : Heard) (same : h.date = n.date) : laterHeard h n = true ↔ h.isWithdrawn = true := by
  simp [laterHeard, same]

section Found
variable [NostrEvents] [Devices] [LinkTexts] {known : BTreeSet PublicKey} {heard lists : List Event} {g : PublicKey}

/-- What is heard of a group that can be read. -/
def validOf (heard : List Event) (g : PublicKey) : List Heard :=
  (heard.filterMap readAnnouncement).filter fun h => h.group = g

omit [Devices] [LinkTexts] in
theorem getElem?_newestHeard : (newestHeard heard)[g]? = best laterHeard (validOf heard g) := getElem?_bestBy _ g

/-- What is found is what is newest of a group, where that leads there. -/
theorem mem_found {a : Announcement} : a ∈ (askForCommunities known heard lists).found ↔
    (newestHeard heard)[a.group]? = some (.announced a) ∧ leadsThere a = true := by
  simp only [askForCommunities, List.mem_filter, List.mem_filterMap]
  refine and_congr_left fun _ => ?_
  constructor
  · rintro ⟨⟨k, h⟩, member, same⟩
    have held := Std.ExtTreeMap.mem_toList_iff_getElem?_eq_some.mp member
    cases h with
    | withdrawn group date => cases same
    | announced b =>
      cases same
      have own : (Heard.announced a).group = k := key_of_bestBy held
      change (newestHeard heard)[(Heard.announced a).group]? = _
      rw [own]
      exact held
  · intro held
    exact ⟨(a.group, .announced a), Std.ExtTreeMap.mem_toList_iff_getElem?_eq_some.mpr held, rfl⟩

/-- A group is found once at most. -/
theorem found_distinct : ((askForCommunities known heard lists).found.map Announcement.group).Nodup := by
  refine List.Nodup.sublist (List.filter_sublist.map Announcement.group) (List.pairwise_map.mpr ?_)
  rw [List.pairwise_filterMap]
  refine Std.ExtTreeMap.distinct_keys_toList.imp_of_mem ?_
  rintro ⟨k, h⟩ ⟨k', h'⟩ first second apart a found a' found' same
  have held := Std.ExtTreeMap.mem_toList_iff_getElem?_eq_some.mp first
  have held' := Std.ExtTreeMap.mem_toList_iff_getElem?_eq_some.mp second
  have own : h.group = k := key_of_bestBy held
  have own' : h'.group = k' := key_of_bestBy held'
  cases h <;> cases h' <;> simp only [Option.some.injEq, reduceCtorEq] at found found'
  subst found found'
  exact apart (Std.LawfulEqCmp.compare_eq_iff_eq.mpr (own.symm.trans (same.trans own')))

/-- In whatever order it is heard, a group that is withdrawn at or after its last announcement
is not found, and a group of which the latest that is heard are announcements that lead there is
found once. -/
theorem found_spec (known : BTreeSet PublicKey) (heard lists : List Event) (g : PublicKey) :
    ((∃ w ∈ validOf heard g, w.isWithdrawn = true ∧ ∀ a, .announced a ∈ validOf heard g → a.date ≤ w.date) →
      ∀ a ∈ (askForCommunities known heard lists).found, a.group ≠ g) ∧
    (validOf heard g ≠ [] →
      (∀ h ∈ validOf heard g, (∀ other ∈ validOf heard g, other.date ≤ h.date) → ∃ a, h = .announced a ∧ leadsThere a = true) →
        ((askForCommunities known heard lists).found.map Announcement.group).count g = 1) := by
  constructor
  · rintro ⟨w, member, withdrawn, last⟩ a found rfl
    obtain ⟨newest, -⟩ := mem_found.mp found
    rw [getElem?_newestHeard] at newest
    have wins := best_tie laterHeard_later laterHeard_tie newest member withdrawn (last a (best_mem newest))
    cases wins
  · intro some_ lead
    obtain ⟨kept, member, newest, latest⟩ := best_latest laterHeard_later some_
    obtain ⟨a, rfl, leads⟩ := lead kept member latest
    have own : a.group = g := of_decide_eq_true (List.mem_filter.mp member).2
    have found : a ∈ (askForCommunities known heard lists).found := by
      rw [mem_found, own, getElem?_newestHeard]
      exact ⟨newest, leads⟩
    exact List.count_eq_one_of_mem found_distinct (List.mem_map.mpr ⟨a, found, own⟩)

end Found

def den : PublicKey := ⟨6⟩

/-- The link of a group, without devices. -/
def bareLink (g : PublicKey) : String := InviteLink.text { group := g, code := none, peers := [] }

/-- One group withdrawn as it is announced, and one announced. -/
def twoHeard : List Event :=
  [withdraw club 5, announce den "Den" "" 3 (bareLink den) 7, announce club "Club" "chess" 12 (bareLink club) 5]

theorem found_spec_twoHeard :
    (∀ a ∈ (askForCommunities ∅ twoHeard []).found, a.group ≠ club) ∧
      ((askForCommunities ∅ twoHeard []).found.map Announcement.group).count den = 1 := by
  have ofClub : validOf twoHeard club =
      [.withdrawn club 5, .announced ⟨club, "Club", "chess", 12, bareLink club, 5⟩] := by decide +kernel
  have ofDen : validOf twoHeard den = [.announced ⟨den, "Den", "", 3, bareLink den, 7⟩] := by decide +kernel
  constructor
  · refine (found_spec ∅ twoHeard [] club).1 ⟨.withdrawn club 5, by simp [ofClub], rfl, fun a member => ?_⟩
    simp only [ofClub, List.mem_cons, reduceCtorEq, Heard.announced.injEq, List.not_mem_nil, or_false, false_or] at member
    rw [member]
    exact le_rfl
  · refine (found_spec ∅ twoHeard [] den).2 (by simp [ofDen]) fun h member _ => ⟨⟨den, "Den", "", 3, bareLink den, 7⟩, ?_, ?_⟩
    · simpa [ofDen] using member
    · decide +kernel

/-! ### People known -/

theorem laterList_later : Later laterList GroupsList.date where
  of_lt _ _ earlier := decide_eq_true earlier
  le _ _ later := (of_decide_eq_true later).le

section Known
variable [NostrEvents] {known : BTreeSet PublicKey} {asked : List PublicKey} {heard lists : List Event} {g p : PublicKey}

/-- The newest of a person's lists, and of those of one date the first. -/
def newestList (lists : List Event) (p : PublicKey) : Option GroupsList :=
  best laterList ((readLists lists).filter fun list => list.who = p)

/-- How often a person's newest list names a group. -/
def timesNamed (lists : List Event) (g p : PublicKey) : ℕ := (newestList lists p).elim 0 fun list => list.groups.count g

def namesGroup (lists : List Event) (g p : PublicKey) : Bool := (newestList lists p).any fun list => list.groups.contains g

/-- No list that can be read is later than a person's newest. -/
theorem newestList_spec {list : GroupsList} (found : newestList lists p = some list) :
    list ∈ readLists lists ∧ list.who = p ∧ ∀ other ∈ readLists lists, other.who = p → other.date ≤ list.date := by
  have member := List.mem_filter.mp (best_mem found)
  obtain ⟨kept, -, same, latest⟩ := best_latest laterList_later (List.ne_nil_of_mem (best_mem found))
  obtain rfl : kept = list := Option.some.inj (same.symm.trans found)
  exact ⟨member.1, of_decide_eq_true member.2, fun other listed own => latest other (List.mem_filter.mpr ⟨listed, decide_eq_true own⟩)⟩

theorem getElem?_newestLists : (newestLists asked lists)[p]? = if p ∈ asked then newestList lists p else none := by
  rw [newestLists, getElem?_bestBy, List.filter_filter]
  by_cases member : p ∈ asked
  · have same : (readLists lists).filter (fun list => decide (list.who = p) && asked.contains list.who) =
        (readLists lists).filter fun list => list.who = p := by
      refine List.filter_congr fun list _ => ?_
      by_cases own : list.who = p <;> simp [own, member]
    rw [if_pos member, same, newestList]
  · have nobody : (readLists lists).filter (fun list => decide (list.who = p) && asked.contains list.who) = [] := by
      refine List.filter_eq_nil_iff.mpr fun list _ => ?_
      by_cases own : list.who = p <;> simp [own, member]
    rw [if_neg member, nobody, best, List.foldl_nil]

theorem knownCount_byGroup : ((byGroup asked lists)[g]?.getD []).length =
    ((newestLists asked lists).toList.map fun entry => entry.2.groups.count g).sum := by
  rw [byGroup, getElem?_pushAt, Std.ExtTreeMap.getElem?_empty, Option.getD_none, List.nil_append, List.length_map,
    ← List.countP_eq_length_filter, List.countP_flatMap]
  refine congrArg List.sum (List.map_congr_left fun entry _ => ?_)
  rw [Function.comp_apply, List.countP_map, List.count_eq_countP]
  exact List.countP_congr fun group _ => by simp

/-- Every row counts of the newest lists of those asked about. -/
theorem knownCount_eq_sum [Devices] [LinkTexts] : (askForCommunities known heard lists).knownCount g =
    ((askedAbout known).map (timesNamed lists g)).sum := by
  have distinct : (askedAbout known).Nodup :=
    (known.distinct_toList.imp fun apart same => apart (Std.LawfulEqCmp.compare_eq_iff_eq.mpr same)).sublist
      (List.take_sublist _ _)
  rw [Browsed.knownCount, askForCommunities, knownCount_byGroup]
  by_cases nobody : (askedAbout known).isEmpty = true
  · have none : (∅ : BTreeMap PublicKey GroupsList).toList = [] := List.isEmpty_iff.mp (by simp)
    simp [List.isEmpty_iff.mp nobody, newestLists, bestBy, readLists, none]
  rw [if_neg nobody]
  have held {entry : PublicKey × GroupsList} (member : entry ∈ (newestLists (askedAbout known) lists).toList) :
      entry.1 ∈ askedAbout known ∧ newestList lists entry.1 = some entry.2 := by
    have found := Std.ExtTreeMap.mem_toList_iff_getElem?_eq_some.mp member
    rw [getElem?_newestLists] at found
    split at found
    · exact ⟨‹_›, found⟩
    · cases found
  have keys : ((newestLists (askedAbout known) lists).toList.map Prod.fst).Nodup :=
    List.pairwise_map.mpr (Std.ExtTreeMap.distinct_keys_toList.imp fun apart same =>
      apart (Std.LawfulEqCmp.compare_eq_iff_eq.mpr same))
  have each : ((newestLists (askedAbout known) lists).toList.map fun entry => entry.2.groups.count g) =
      ((newestLists (askedAbout known) lists).toList.map Prod.fst).map (timesNamed lists g) := by
    rw [List.map_map]
    refine List.map_congr_left fun entry member => ?_
    simp [timesNamed, (held member).2]
  rw [each, ← List.sum_toFinset _ keys, ← List.sum_toFinset _ distinct]
  refine Finset.sum_subset (fun p member => ?_) fun p member absent => ?_
  · obtain ⟨entry, listed, rfl⟩ := List.mem_map.mp (List.mem_toFinset.mp member)
    exact List.mem_toFinset.mpr (held listed).1
  · rw [timesNamed]
    cases newest : newestList lists p with
    | none => rfl
    | some list =>
      have found : (newestLists (askedAbout known) lists)[p]? = some list := by
        rw [getElem?_newestLists, if_pos (List.mem_toFinset.mp member), newest]
      exact absurd (List.mem_toFinset.mpr (List.mem_map.mpr
        ⟨(p, list), Std.ExtTreeMap.mem_toList_iff_getElem?_eq_some.mpr found, rfl⟩)) absent

/-- Those asked about are counted whose newest list names a group, each once, just if none of
these lists names it twice. -/
theorem knownCount_people [Devices] [LinkTexts] (known : BTreeSet PublicKey) (heard lists : List Event) (g : PublicKey) :
    ((askForCommunities known heard lists).knownCount g = (askedAbout known).countP (namesGroup lists g) ∧
      (askForCommunities known heard lists).friends g = (askedAbout known).countP (namesGroup lists g)) ↔
        ∀ p ∈ askedAbout known, timesNamed lists g p ≤ 1 := by
  have named : namesGroup lists g = fun p => decide (0 < timesNamed lists g p) := by
    funext p
    unfold namesGroup timesNamed
    cases newestList lists p with
    | none => rfl
    | some list => simp [List.count_pos_iff]
  rw [Browsed.friends_eq, and_self, knownCount_eq_sum, named, sum_eq_countP_iff]

end Known

/-- A list with a row twice. -/
def twiceListed : List Event := [groupsList guest [(club, none), (club, none)] 1]

/-- One person known counts as two. -/
theorem knownCount_twiceListed :
    (askForCommunities (Std.ExtTreeSet.ofList [guest]) [] twiceListed).knownCount club = 2 ∧
      (askedAbout (Std.ExtTreeSet.ofList [guest])).countP (namesGroup twiceListed club) = 1 := by
  have asked : askedAbout (Std.ExtTreeSet.ofList [guest]) = [guest] := by decide +kernel
  rw [knownCount_eq_sum, asked]
  decide +kernel

end HitEnter.App
