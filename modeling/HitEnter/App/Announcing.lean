import HitEnter.App.KeepInbox
import HitEnter.App.Publish
import HitEnter.Wire.Contact

/-! A public group's announcement as its own node signs it, and as anyone reads it: the link it
carries, and which names and texts come back. -/

namespace HitEnter.App

open Wire HitEnter.Group HitEnter.Group.GroupState HitEnter.Node Lib.Checks Lib.Text Lib.Hex Lib.Ascii

/-! ### The link -/

/-- A device not at hand is noted once. -/
def noteDevice (atHand : EndpointId) (noted : List EndpointId) (device : EndpointId) : List EndpointId :=
  if device ≠ atHand ∧ device ∉ noted then noted ++ [device] else noted

/-- What signs an announcement: the node, the groups its store carries, and the device it runs on. -/
structure Announcer [Nostr] where
  node : Inner
  carried : List PublicKey
  device : EndpointId
  addr : Option SocketAddr
  now : Timestamp

section Link
variable [Profiles] [Devices]

/-- Who a link to a group names: its anchors' devices first, then the device at hand. -/
def invitePeers (announcer : Announcer) (group : PublicKey) : List (EndpointId × Option SocketAddr) :=
  let book := bookIn announcer.node.store announcer.now
  let members := ((groupsIn announcer.node.store announcer.carried announcer.node.groups.me).state group).elim [] fun s => s.members.keys
  let profiles := if members.isEmpty then []
    else announcer.node.store.query { kinds := some [profile], authors := some members }
  let devices := (profiles.filter isAnchor).flatMap fun p => book.devicesOf p.pubkey announcer.now
  ((devices.foldl (noteDevice announcer.device) []).map fun device => (device, none)).take (maxPeers - 1) ++
    [(announcer.device, announcer.addr)]

/-- A public group's link: no code, and nothing signed. -/
def publicLink (announcer : Announcer) (group : PublicKey) : Except Refusal InviteLink :=
  if (announcer.node.groups.state group).any GroupState.isPublic then
    .ok { group, code := none, peers := invitePeers announcer group }
  else .error .noSuchInvite

variable [LinkTexts]

/-- What a pass finds of a group at its own node. -/
def Announcer.standing (announcer : Announcer) (group : PublicKey) (held : Except String Bool) (signs : Except String Unit)
    (relay : Except String (Option String)) (looked : Timestamp) : Standing where
  group := group
  state := announcer.node.groups.state group
  held := held
  link := match publicLink announcer group with
    | .ok link => .ok link.text
    | .error _ => .error "no such invite"
  relay := relay
  signs := signs
  looked := looked
  now := announcer.now

end Link

/-! ### What a reader takes -/

/-- A name and a text about the group that come back: cleaned, a name of 1 to 64 characters, and a text
of at most 280. -/
def Readable (name about : String) : Prop :=
  clean name ≠ "" ∧ (clean name).toList.length ≤ maxAnnouncedName ∧ (clean about).toList.length ≤ Wire.maxAbout

instance (name about : String) : Decidable (Readable name about) := inferInstanceAs (Decidable (_ ∧ _ ∧ _))

theorem length_clean_le (text : String) : (clean text).toList.length ≤ text.toList.length := by
  unfold clean trim
  rw [String.toList_ofList, List.length_reverse]
  refine (List.dropWhile_sublist _).length_le.trans ?_
  rw [List.length_reverse]
  refine (List.dropWhile_sublist _).length_le.trans ?_
  simp

section Read
variable [NostrEvents] {group : PublicKey} {name about link : String} {members : UInt64} {date : Timestamp}

theorem valueOf_announce (group : PublicKey) (name about : String) (members : UInt64) (link : String) (date : Timestamp) :
    valueOf (announce group name about members link date) "d" = some (some "") ∧
    valueOf (announce group name about members link date) "private" = none ∧
    valueOf (announce group name about members link date) "name" = some (some name) ∧
    valueOf (announce group name about members link date) "members" = some (some members.toNat.repr) ∧
    valueOf (announce group name about members link date) "link" = some (some link) ∧
    ((valueOf (announce group name about members link date) "about").join.map clean).getD "" = clean about := by
  by_cases empty : about = ""
  · subst empty
    have nothing : clean "" = "" := by decide
    simp [valueOf, announce, signed, nothing]
  · simp [valueOf, announce, signed, empty]

theorem readAnnouncement_announce (verified : NostrEvents.verify (announce group name about members link date) = true)
    (short : (bytes link).length ≤ maxLink) :
    readAnnouncement (announce group name about members link date) =
      if Readable name about then
        some (.announced { group, name := clean name, about := clean about, members, link, date })
      else none := by
  obtain ⟨d, isPrivate, named, counted, linked, told⟩ := valueOf_announce group name about members link date
  have kind : ((announce group name about members link date).kind != announcementKind ||
      !NostrEvents.verify (announce group name about members link date)) = false := by rw [verified]; rfl
  have empty : (valueOf (announce group name about members link date) "d" != some (some "")) = false := by rw [d]; rfl
  have open_ : (valueOf (announce group name about members link date) "private").isSome = false := by rw [isPrivate]; rfl
  unfold readAnnouncement
  rw [kind, empty, open_, named, counted, linked, told]
  simp only [Bool.false_eq_true, ↓reduceIte, Option.join_some, Option.bind_eq_bind, Option.bind_some,
    Lib.Decimal.parseU64_repr]
  by_cases readable : Readable name about
  · have fits := readable
    unfold Readable at fits
    rw [if_pos readable, if_neg (by simp only [not_or, not_lt]; exact ⟨fits.1, fits.2.1, fits.2.2, short⟩)]
    rfl
  · rw [if_neg readable, if_pos]
    by_contra fits
    simp only [not_or, not_lt] at fits
    exact readable ⟨fits.1, fits.2.1, fits.2.2.1⟩

end Read

/-! ### What a group says about itself -/

section About
variable {s next before after : GroupState} {actor : PublicKey} {date : Timestamp}

theorem about_edit {e : Edit} (ok : next.edit before actor e = .ok after) :
    after.about = next.about ∨ after.about.toList.length ≤ Wire.maxAbout := by
  cases e with
  | about a =>
    simp only [edit, bind_eq_ok, pure_eq_ok, refuseIf_eq_ok, decide_eq_false_iff_not, not_lt] at ok
    obtain ⟨_, _, _, short, rfl⟩ := ok
    exact .inr short
  | _ =>
    left
    cases edit_ok ok
    rfl

theorem about_act {action : Action} (ok : s.act actor date action = (next, .ok ())) :
    next.about = s.about ∨ ∃ batch, s.edits actor batch = .ok next := by
  cases action with
  | edit batch => exact .inr ⟨batch, (applyEdit_ok ok).2⟩
  | put target roles =>
    obtain ⟨_, _, rfl⟩ := checked_ok.mp ok
    left
    dsimp only
    split <;> rfl
  | remove target ban =>
    obtain ⟨_, _, rfl⟩ := checked_ok.mp ok
    left
    dsimp only
    split_ifs <;> rfl
  | unban target =>
    obtain ⟨_, _, rfl⟩ := checked_ok.mp ok
    exact .inl rfl
  | mute target until_ =>
    obtain ⟨_, ⟨_, _, _, rfl⟩ | ⟨_, _, rfl⟩⟩ := applyMute_cases ok
    · exact .inl rfl
    · exact .inl rfl
  | join code =>
    obtain ⟨_, _, rfl⟩ := checked_ok.mp ok
    exact .inl rfl
  | leave =>
    obtain ⟨_, _, rfl⟩ := checked_ok.mp ok
    exact .inl rfl
  | invite code expires => simp [act] at ok
/-- What a group says about itself is as short as an edit may make it. -/
def Short (s : GroupState) : Prop := s.about.toList.length ≤ Wire.maxAbout

theorem Short.edits {batch : List Edit} (short : Short s) (ran : s.edits actor batch = .ok next) : Short next := by
  refine foldlM_invariant (fun next e _ after ran short => ?_) ran short
  obtain same | shorter := about_edit ran
  · exact (congrArg (fun about : String => about.toList.length ≤ Wire.maxAbout) same).mpr short
  · exact shorter

variable [Nostr] {group : PublicKey} {events : List Event}

theorem winning_metadata_of {w : Winners} (won : winners group events = some w) :
    ∃ seq date, winning group events groupMetadata =
      some (seq, date, .metadata w.name w.isPublic w.newcomerWait w.about w.channels w.overrides) := by
  unfold winners at won
  split at won
  · obtain rfl := Option.some.inj won
    exact ⟨_, _, by assumption⟩
  · cases won

/-- What the group's key itself states is as short. -/
def StatedShort (events : List Event) : Prop :=
  ∀ ev ∈ events, ∀ g seq name isPublic wait about channels overrides,
    parseState ev = some (g, seq, .metadata name isPublic wait about channels overrides) →
      about.toList.length ≤ Wire.maxAbout

/-- No edit sets a text that is too long; only a piece the group's key signed could. -/
theorem short_reached (stated : StatedShort events) (reached : Reached group events s) : Short s := by
  refine reached.invariant ?_ ?_ (fun _ _ short => short) fun _ _ short => short
  · intro s found
    obtain ⟨w, invites, won, rfl⟩ := start_winners found
    obtain ⟨seq, date, metadata⟩ := winning_metadata_of won
    obtain ⟨ev, piece, read⟩ := Option.bind_eq_some_iff.mp metadata
    obtain ⟨⟨g, stamp, said⟩, parsed, same⟩ := Option.bind_eq_some_iff.mp read
    obtain ⟨-, -, rfl⟩ := by simpa using same
    rw [scan_pieces] at piece
    exact stated ev (List.mem_filter.mp (Lib.KeepBest.best_mem piece)).1 _ _ _ _ _ _ _ _ parsed
  · intro s ev next _ ok short
    obtain ⟨_, _, _, done⟩ := apply_ok ok
    obtain same | ⟨batch, ran⟩ := about_act done
    · exact (congrArg (fun about : String => about.toList.length ≤ Wire.maxAbout) same).mpr short
    · exact short.edits ran
/-- Where the pieces keep to that, the name alone decides. -/
theorem readable_reached (stated : StatedShort events) (reached : Reached group events s) :
    Readable s.name s.about ↔ clean s.name ≠ "" ∧ (clean s.name).toList.length ≤ maxAnnouncedName := by
  have short := (length_clean_le s.about).trans (short_reached stated reached)
  exact ⟨fun readable => ⟨readable.1, readable.2.1⟩, fun name => ⟨name.1, name.2, short⟩⟩

end About

/-! ### How long a link gets -/

theorem length_bytes_join (texts : List String) :
    (bytes (.join texts)).length = (texts.map fun text => (bytes text).length).sum := by
  induction texts with
  | nil => rfl
  | cons first rest ih =>
    have same : String.join (first :: rest) = first ++ .join rest := by
      rw [← String.toList_inj]
      simp [String.toList_join]
    rw [same, bytes_append, List.length_append, ih, List.map_cons, List.sum_cons]

section Length
variable [Nostr] [Devices] [LinkTexts]

/-- Keys are written in at most 64 letters, and so are devices and addresses. -/
structure ShortTexts : Prop where
  keys : ∀ key : PublicKey, (bytes (keyText key)).length ≤ 64
  devices : ∀ device : EndpointId, (bytes (Devices.toText device)).length ≤ 64
  addresses : ∀ addr : SocketAddr, (bytes (LinkTexts.addrText addr)).length ≤ 64

theorem length_peerText_le (short : ShortTexts) (peer : EndpointId × Option SocketAddr) :
    (bytes (peerText peer)).length ≤ 132 := by
  have device := short.devices peer.1
  have mark : (bytes "&p=").length = 3 := rfl
  have at_ : (bytes "@").length = 1 := rfl
  have nothing : (bytes "").length = 0 := rfl
  unfold peerText
  cases found : peer.2 with
  | none =>
    rw [Option.elim_none, bytes_append, bytes_append, List.length_append, List.length_append, mark, nothing]
    omega
  | some addr =>
    have address := short.addresses addr
    rw [Option.elim_some, bytes_append, bytes_append, bytes_append, List.length_append, List.length_append,
      List.length_append, mark, at_]
    omega

/-- A link without a code fits an announcement, however many peers it is made with. -/
theorem length_text_le (short : ShortTexts) (link : InviteLink) (noCode : link.code = none) :
    (bytes link.text).length ≤ maxLink := by
  have key : (bytes ((LinkTexts.toBech32 link.group).getD (Nostr.toHex link.group))).length ≤ 64 := short.keys link.group
  have peers : (((link.peers.take maxPeers).map peerText).map fun text => (bytes text).length).sum ≤ 8 * 132 := by
    have each : ∀ n ∈ ((link.peers.take maxPeers).map peerText).map fun text => (bytes text).length, n ≤ 132 := by
      simp only [List.forall_mem_map]
      exact fun peer _ => length_peerText_le short peer
    have few : (link.peers.take maxPeers).length ≤ 8 := List.length_take_le _ _
    have total := List.sum_le_card_nsmul _ 132 each
    rw [List.length_map, List.length_map, smul_eq_mul] at total
    omega
  have start : (bytes scheme).length = 15 := rfl
  have mark : (bytes "g=").length = 2 := rfl
  have nothing : (bytes "").length = 0 := rfl
  unfold InviteLink.text maxLink
  rw [noCode, Option.elim_none]
  simp only [bytes_append, List.length_append, length_bytes_join]
  omega

end Length

/-! ### The announcement of a node -/

section Announced
variable [Profiles] [Devices] [LinkTexts] {announcer : Announcer} {group : PublicKey} {held : Except String Bool}
  {signs : Except String Unit} {relay : Except String (Option String)} {looked date : Timestamp} {s : GroupState}
  {event : Event}

/-- What a public group's announcement says. -/
theorem announcement_says (state : announcer.node.groups.state group = some s) (isPublic : s.isPublic = true)
    (made : announcement (announcer.standing group held signs relay looked) date = .ok (some event)) :
    event = announce group s.name s.about (.ofNat s.members.size)
      (InviteLink.text { group, code := none, peers := invitePeers announcer group }) date := by
  have link : publicLink announcer group = .ok { group, code := none, peers := invitePeers announcer group } := by
    rw [publicLink, state]
    exact if_pos isPublic
  have linked : (announcer.standing group held signs relay looked).link =
      .ok (InviteLink.text { group, code := none, peers := invitePeers announcer group }) := by
    simp only [Announcer.standing, link]
  have stated : (announcer.standing group held signs relay looked).state = some s := state
  unfold announcement at made
  rw [stated, linked] at made
  simp only [isPublic, ↓reduceIte, bind_eq_ok] at made
  obtain ⟨isHeld, -, made⟩ := made
  cases isHeld with
  | false => cases made
  | true =>
    change (announcer.standing group held signs relay looked).signs.map _ = _ at made
    cases signing : (announcer.standing group held signs relay looked).signs with
    | error e =>
      rw [signing] at made
      cases made
    | ok _ =>
      rw [signing] at made
      exact (Option.some.inj (Except.ok.inj made)).symm

/-- The announcement of a public group is read back, and is not taken for a withdrawal, just if its
name and what it says about itself are of a kind that readers take. -/
theorem announcement_reads_iff
    (verified : ∀ (date : Timestamp) (tags : List Tag), NostrEvents.verify (signed group date announcementKind tags "") = true)
    (short : ShortTexts) (state : announcer.node.groups.state group = some s) (isPublic : s.isPublic = true)
    (made : announcement (announcer.standing group held signs relay looked) date = .ok (some event)) :
    ((∃ a link, readAnnouncement event = some (.announced a) ∧ publicLink announcer group = .ok link ∧ a.group = group ∧
        a.members = .ofNat s.members.size ∧ a.link = link.text) ↔ Readable s.name s.about) ∧
      (announcementWords event = "private" ↔ ¬Readable s.name s.about) := by
  have link : publicLink announcer group = .ok { group, code := none, peers := invitePeers announcer group } := by
    rw [publicLink, state]
    exact if_pos isPublic
  have fits := length_text_le short { group, code := none, peers := invitePeers announcer group } rfl
  obtain rfl := announcement_says state isPublic made
  unfold announcementWords
  rw [readAnnouncement_announce (verified _ _) fits]
  by_cases readable : Readable s.name s.about
  · rw [if_pos readable]
    refine ⟨iff_of_true ⟨_, _, rfl, link, rfl, rfl, rfl⟩ readable, iff_of_false ?_ (not_not.mpr readable)⟩
    intro same
    have first := congrArg (fun text : String => text.toList.take 2) same
    simp at first
  · rw [if_neg readable]
    exact ⟨iff_of_false (by simp) readable, iff_of_true rfl readable⟩

end Announced

/-- The club's node, where the founder called it `name`. -/
def clubCalled (name : String) : Announcer where
  node := Inner.start (blankStore.insertAll (genesis founder club name true 100)) [club] founder 600
  carried := [club]
  device := laptop
  addr := none
  now := 600

/-- What the founder's node finds of it. -/
def clubStanding (name : String) : Standing :=
  @Announcer.standing botProfiles _ clubLinks (clubCalled name) club (.ok true) (.ok ()) (.ok none) 600

def longName : String := .ofList (List.replicate 65 'a')

/-- A name that a group may be made with is too long to be read back: the group is passed by as a
private one. -/
theorem announcement_longName : ((clubCalled longName).node.groups.state club).any GroupState.isPublic = true ∧
    ((announcement (clubStanding longName) 600).toOption.join.map announcementWords) = some "private" := by
  decide +kernel

theorem clubLinks_short : @ShortTexts _ _ clubLinks := by
  let _ := clubLinks
  have hex (key : PublicKey) : (bytes (plainToHex key)).length = 64 := length_bytes_write 64 key.toNat
  refine ⟨fun key => ?_, fun device => (hex ⟨device.bytes⟩).le, fun addr => ?_⟩
  · by_cases own : key = club
    · subst own
      decide +kernel
    · have none_ : LinkTexts.toBech32 key = none := if_neg own
      rw [keyText, none_]
      exact (hex key).le
  · by_cases own : addr = loopback
    · subst own
      decide +kernel
    · have text : LinkTexts.addrText addr = "" := if_neg own
      rw [text]
      decide

theorem announcement_reads_club : ∃ event, announcement (clubStanding "club") 600 = .ok (some event) ∧
    announcementWords event ≠ "private" := by
  have state : ((clubCalled "club").node.groups.state club).map (fun s => (s.isPublic, s.name, s.about)) =
      some (true, "club", "") := by decide +kernel
  have made : (announcement (clubStanding "club") 600).toOption.join.isSome = true := by decide +kernel
  obtain ⟨s, found, same⟩ := Option.map_eq_some_iff.mp state
  obtain ⟨isPublic, name, about⟩ : s.isPublic = true ∧ s.name = "club" ∧ s.about = "" := by simpa using same
  obtain ⟨event, given⟩ := Option.isSome_iff_exists.mp made
  have signed : announcement (clubStanding "club") 600 = .ok (some event) := by
    cases outcome : announcement (clubStanding "club") 600 with
    | error e => simp [outcome, Except.toOption] at given
    | ok announced => simpa [outcome, Except.toOption] using given
  have reads := @announcement_reads_iff botProfiles _ clubLinks (clubCalled "club") club (.ok true) (.ok ()) (.ok none) 600 600
    s event (fun _ _ => rfl) clubLinks_short found isPublic signed
  refine ⟨event, signed, fun taken => reads.2.mp taken ?_⟩
  rw [name, about]
  decide

end HitEnter.App
