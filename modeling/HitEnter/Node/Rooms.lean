import HitEnter.Node.TagIndex

/-! Who is in a voice channel, as a node has heard. A presence counts by when it is handed
over: what its author dated it decides whether it is taken in, and nothing else. -/

namespace HitEnter.Node

open Wire HitEnter.Group

/-- Does a voice presence say "in"? Anything else is "out". -/
def voiceInside (ev : Event) : Bool := firstValue ev "state" == some "in"

abbrev Room := BTreeMap PublicKey Instant

/-- Who was heard to be in which channel of which group, and when. -/
abbrev Rooms := PublicKey → String → Room

/-- An event handed over, and the two clocks at that time. -/
structure Handing where
  ev : Event
  source : Source
  now : Timestamp
  clock : Instant

section Hall
variable [NostrEvents]

/-- Into the room with an "in", and out of it with anything else. -/
def heardVoice (rooms : Rooms) (ev : Event) (clock : Instant) : Rooms :=
  match groupOf ev, channelOf ev with
  | some group, some channel =>
    let room := if voiceInside ev then (rooms group channel).insert ev.pubkey clock
      else (rooms group channel).erase ev.pubkey
    Function.update rooms group (Function.update (rooms group) channel room)
  | _, _ => rooms

/-- A node, and who it has heard to be in which room. -/
structure Hall where
  inner : Inner
  rooms : Rooms := fun _ _ => ∅

namespace Hall

/-- Who is in a channel: an "in" heard within `within`, and no "out" since. -/
def voiceParticipants (hall : Hall) (group : PublicKey) (channel : String) (within clock : Instant) : List PublicKey :=
  ((hall.rooms group channel).toList.filter fun entry => clock - entry.2 ≤ within).map Prod.fst

variable [Devices] [Wraps]

/-- An event enters the node; a voice presence that is taken in changes its room. -/
def acceptEvent (hall : Hall) (h : Handing) : Hall × Verdict :=
  let out := hall.inner.acceptEvent h.ev h.source h.now
  let heard := out.2 = .stored .ephemeral ∧ h.ev.kind = voicePresence
  ({ inner := out.1, rooms := if heard then heardVoice hall.rooms h.ev h.clock else hall.rooms }, out.2)

/-- One after the other. -/
def run (hall : Hall) (handings : List Handing) : Hall := handings.foldl (fun hall h => (hall.acceptEvent h).1) hall

end Hall

/-- Is it a voice presence of `person` in this channel? -/
structure Presence (group : PublicKey) (channel : String) (person : PublicKey) (ev : Event) : Prop where
  kind : ev.kind = voicePresence
  group : groupOf ev = some group
  channel : channelOf ev = some channel
  author : ev.pubkey = person

variable {group person : PublicKey} {channel : String}

theorem heardVoice_getElem (rooms : Rooms) {ev : Event} (clock : Instant)
    (presence : Presence group channel person ev) :
    (heardVoice rooms ev clock group channel)[person]? = if voiceInside ev then some clock else none := by
  unfold heardVoice
  simp only [presence.group, presence.channel, presence.author, Function.update_self]
  split <;> simp

/-- Nobody else's entry, and no other room's, changes. -/
theorem heardVoice_other (rooms : Rooms) {ev : Event} (clock : Instant) (kind : ev.kind = voicePresence)
    (other : ¬ Presence group channel person ev) :
    (heardVoice rooms ev clock group channel)[person]? = (rooms group channel)[person]? := by
  unfold heardVoice
  cases own : groupOf ev with
  | none => rfl
  | some g =>
    cases inChannel : channelOf ev with
    | none => rfl
    | some c =>
      by_cases sameGroup : group = g
      · by_cases sameChannel : channel = c
        · subst sameGroup sameChannel
          have another : ev.pubkey ≠ person := fun author => other ⟨kind, own, inChannel, author⟩
          simp only [Function.update_self]
          split
          · rw [Std.ExtTreeMap.getElem?_insert, if_neg (by simpa using another)]
          · rw [Std.ExtTreeMap.getElem?_erase, if_neg (by simpa using another)]
        · subst sameGroup
          simp only [Function.update_self, Function.update_of_ne sameChannel]
      · simp only [Function.update_of_ne sameGroup]

namespace Hall
variable [Devices] [Wraps] {hall : Hall} {h : Handing}

/-- Is the hall told of `person` in this channel: is it a presence of theirs, and taken in? -/
structure Told (hall : Hall) (group : PublicKey) (channel : String) (person : PublicKey) (h : Handing) : Prop where
  presence : Presence group channel person h.ev
  accepted : (hall.acceptEvent h).2 = .stored .ephemeral

theorem acceptEvent_told (told : hall.Told group channel person h) :
    ((hall.acceptEvent h).1.rooms group channel)[person]? = if voiceInside h.ev then some h.clock else none := by
  have heard : (hall.acceptEvent h).1.rooms = heardVoice hall.rooms h.ev h.clock :=
    if_pos ⟨told.accepted, told.presence.kind⟩
  rw [heard]
  exact heardVoice_getElem hall.rooms h.clock told.presence

theorem acceptEvent_untold (untold : ¬ hall.Told group channel person h) :
    ((hall.acceptEvent h).1.rooms group channel)[person]? = (hall.rooms group channel)[person]? := by
  by_cases heard : (hall.acceptEvent h).2 = .stored .ephemeral ∧ h.ev.kind = voicePresence
  · have changed : (hall.acceptEvent h).1.rooms = heardVoice hall.rooms h.ev h.clock := if_pos heard
    rw [changed]
    exact heardVoice_other hall.rooms h.clock heard.2 fun presence => untold ⟨presence, heard.1⟩
  · have same : (hall.acceptEvent h).1.rooms = hall.rooms := if_neg heard
    rw [same]

theorem run_append (hall : Hall) (first later : List Handing) : hall.run (first ++ later) = (hall.run first).run later :=
  List.foldl_append

/-- Whatever else is handed over, an entry stays that the hall is not told of. -/
theorem run_untold {handings : List Handing}
    (untold : ∀ before h after, handings = before ++ h :: after → ¬ (hall.run before).Told group channel person h) :
    ((hall.run handings).rooms group channel)[person]? = (hall.rooms group channel)[person]? := by
  induction handings generalizing hall with
  | nil => rfl
  | cons first rest ih =>
    have later := @ih (hall.acceptEvent first).1 fun before h after split =>
      untold (first :: before) h after (by rw [split, List.cons_append])
    exact later.trans (acceptEvent_untold (untold [] first rest rfl))

omit [Devices] [Wraps] in
theorem mem_voiceParticipants {within clock : Instant} : person ∈ hall.voiceParticipants group channel within clock ↔
    ∃ heard, (hall.rooms group channel)[person]? = some heard ∧ clock - heard ≤ within := by
  simp only [voiceParticipants, List.mem_map, List.mem_filter, decide_eq_true_eq]
  constructor
  · rintro ⟨⟨p, heard⟩, ⟨here, recent⟩, rfl⟩
    exact ⟨heard, Std.ExtTreeMap.mem_toList_iff_getElem?_eq_some.mp here, recent⟩
  · rintro ⟨heard, here, recent⟩
    exact ⟨(person, heard), ⟨Std.ExtTreeMap.mem_toList_iff_getElem?_eq_some.mpr here, recent⟩, rfl⟩

/-- Whatever is handed over, and in whatever order, a person is listed if and only if the
presence of theirs that was handed over last says that they are inside, no longer ago than
the window. -/
theorem listed_iff_last {before after : List Handing} {within clock : Instant}
    (told : (hall.run before).Told group channel person h)
    (last : ∀ between k rest, after = between ++ k :: rest →
      ¬ (hall.run (before ++ h :: between)).Told group channel person k) :
    person ∈ (hall.run (before ++ h :: after)).voiceParticipants group channel within clock ↔
      voiceInside h.ev = true ∧ clock - h.clock ≤ within := by
  have entry : ((hall.run (before ++ h :: after)).rooms group channel)[person]? =
      if voiceInside h.ev then some h.clock else none := by
    rw [← acceptEvent_told told, run_append]
    exact run_untold fun between k rest split => by
      have next := last between k rest split
      rwa [run_append] at next
  rw [mem_voiceParticipants, entry]
  cases voiceInside h.ev <;> simp

end Hall

end Hall

/-- The founder gives the club a voice channel. -/
def loungeOpened : Event :=
  (Draft.editMetadata club [.channel { id := "lounge", name := "lounge", kind := .voice, slowmode := 0 }]).sign founder 300

/-- A member's node, with nobody in any room. -/
def loungeHall : Hall where
  inner := .start (youngStore.insert loungeOpened).1 [club] founder 600

/-- The guest says that they are in the lounge, or out of it. -/
def lounging (date : Timestamp) (state : String) : Event :=
  signed guest date voicePresence [Draft.h club, ["channel", "lounge"], ["state", state]] ""

/-- Handed over by a peer at 600. -/
def handed (ev : Event) (clock : Instant) : Handing := ⟨ev, .push, 600, clock⟩

theorem lounging_listed :
    guest ∈ (loungeHall.run [handed (lounging 590 "in") 1]).voiceParticipants club "lounge" 15 2 := by
  have accepted : (loungeHall.acceptEvent (handed (lounging 590 "in") 1)).2 = .stored .ephemeral := by decide +kernel
  have inGroup : groupOf (lounging 590 "in") = some club := by decide +kernel
  have inside : voiceInside (lounging 590 "in") = true := by decide +kernel
  have none_ : ∀ between k rest, ([] : List Handing) = between ++ k :: rest →
      ¬ (loungeHall.run ([] ++ handed (lounging 590 "in") 1 :: between)).Told club "lounge" guest k :=
    fun between k rest split => absurd split.symm (by simp)
  have told : (loungeHall.run []).Told club "lounge" guest (handed (lounging 590 "in") 1) :=
    ⟨⟨rfl, inGroup, by decide +kernel, rfl⟩, accepted⟩
  have recent : (2 : Instant) - 1 ≤ 15 := by decide
  exact (Hall.listed_iff_last told none_).mpr ⟨inside, recent⟩

/-- Both are taken in, in either order. Where the older comes last the guest is listed, and
where the newer does they are not. -/
theorem lounging_orders :
    ([lounging 580 "in", lounging 590 "out"].all fun ev =>
      (loungeHall.acceptEvent (handed ev 1)).2 = .stored .ephemeral) = true ∧
    (loungeHall.run [handed (lounging 580 "in") 1, handed (lounging 590 "out") 2]).voiceParticipants club "lounge" 15 3 =
      [] ∧
    (loungeHall.run [handed (lounging 590 "out") 1, handed (lounging 580 "in") 2]).voiceParticipants club "lounge" 15 3 =
      [guest] := by
  decide +kernel

end HitEnter.Node
