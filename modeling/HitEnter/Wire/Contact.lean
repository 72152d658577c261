import HitEnter.Wire.Invite
import HitEnter.Wire.Revocation

/-! Contact links: a person and the devices they can be reached at. A link of either kind comes
back from its text. -/

namespace HitEnter.Wire

open Lib.Checks Lib.Text Lib.Ascii

def contactScheme : String := "hit-enter:contact?"

/-- At most this many devices in a link. -/
def maxDevices : ℕ := 8

structure ContactLink where
  person : PublicKey
  devices : List (EndpointId × Option SocketAddr)
deriving DecidableEq

inductive ContactError where
  | notALink
  | missing (what : String)
  | malformed (what : String)
deriving DecidableEq

section Text
variable [Nostr] [Devices] [LinkTexts]

/-- A key as links write it. -/
def keyText (key : PublicKey) : String := (LinkTexts.toBech32 key).getD (Nostr.toHex key)

/-- A device and perhaps an address. -/
def endText (device : EndpointId × Option SocketAddr) : String :=
  Devices.toText device.1 ++ device.2.elim "" fun addr => "@" ++ LinkTexts.addrText addr

def ContactLink.text (link : ContactLink) : String :=
  contactScheme ++ "p=" ++ keyText link.person ++
    .join ((link.devices.take maxDevices).map fun device => "&d=" ++ endText device)

/-- A device and perhaps an address, as links of either kind read them. -/
def parseEnd {ε : Type} (refusal : ε) (value : List Char) : Except ε (EndpointId × Option SocketAddr) := do
  let (id, addr) ← match splitOnce '@' value with
    | some (id, addr) => do
      let addr ← orRefuse (LinkTexts.parseAddr (.ofList addr)) refusal
      pure (id, some addr)
    | none => pure (value, none)
  let id ← orRefuse (Devices.parse (.ofList id)) refusal
  pure (id, addr)

/-- What has been read of a link. -/
structure ContactParts where
  person : Option PublicKey := none
  devices : List (EndpointId × Option SocketAddr) := []

def ContactParts.read (parts : ContactParts) (pair : List Char) : Except ContactError ContactParts :=
  match splitOnce '=' pair with
  | none => pure parts
  | some (key, value) => do
    if key = ['p'] then
      let person ← orRefuse ((LinkTexts.fromBech32 (.ofList value)).or (Nostr.fromHex (.ofList value))) (.malformed "person")
      pure { parts with person := some person }
    else if key = ['d'] ∧ parts.devices.length < maxDevices then
      let device ← parseEnd (.malformed "device") value
      pure { parts with devices := parts.devices ++ [device] }
    else pure parts

def ContactLink.parse (text : String) : Except ContactError ContactLink := do
  let query ← orRefuse (stripStart contactScheme (trim text)) .notALink
  let parts ← (query.toList.splitOn '&').foldlM ContactParts.read {}
  refuseIf parts.devices.isEmpty (.missing "device")
  let person ← orRefuse parts.person (.missing "person")
  pure { person, devices := parts.devices }

end Text

/-! ### What a link is made of -/

/-- Free of what separates the parts of a link, and of white space. -/
def Unmarked (text : String) : Prop := ∀ c ∈ text.toList, c ≠ '&' ∧ c ≠ '=' ∧ c ≠ '@' ∧ isWhitespace c = false

section Parts
variable [Nostr] [Devices] [LinkTexts]

/-- A key that is read back from its text. -/
structure KeyReads (key : PublicKey) : Prop where
  back : (LinkTexts.fromBech32 (keyText key)).or (Nostr.fromHex (keyText key)) = some key
  unmarked : Unmarked (keyText key)

/-- A device and perhaps an address that are read back from their text. -/
structure EndReads (device : EndpointId × Option SocketAddr) : Prop where
  unmarked : Unmarked (Devices.toText device.1)
  back : ∀ addr, device.2 = some addr → LinkTexts.parseAddr (LinkTexts.addrText addr) = some addr
  addrUnmarked : ∀ addr, device.2 = some addr → Unmarked (LinkTexts.addrText addr)

end Parts

theorem splitOnce_mark {sep : Char} {front back : List Char} (free : sep ∉ front) :
    splitOnce sep (front ++ sep :: back) = some (front, back) := by
  have apart : ∀ c ∈ front, (!decide (c = sep)) = true := by
    intro c member
    simpa using fun same : c = sep => free (same ▸ member)
  simp [splitOnce, List.dropWhile_append_of_pos apart, List.takeWhile_append_of_pos apart]

theorem splitOnce_free {sep : Char} {row : List Char} (free : sep ∉ row) : splitOnce sep row = none := by
  have all : row.dropWhile (fun c => decide (c ≠ sep)) = [] := by
    rw [List.dropWhile_eq_nil_iff]
    intro c member
    simpa using fun same : c = sep => free (same ▸ member)
  rw [splitOnce, all]

/-- What follows the first part stands behind its separator. -/
theorem intercalate_cons (sep : Char) (first : List Char) (rest : List (List Char)) :
    [sep].intercalate (first :: rest) = first ++ (rest.map fun part => sep :: part).flatten := by
  induction rest generalizing first with
  | nil => simp
  | cons second rest ih =>
    rw [List.intercalate_cons_cons, ih, List.map_cons, List.flatten_cons, List.append_assoc]
    rfl

section Ends
variable [Devices] [LinkTexts] {ε : Type} {refusal : ε} {device : EndpointId × Option SocketAddr}

theorem parsePeer_eq (value : List Char) : parsePeer value = parseEnd (.malformed "peer") value := rfl

theorem peerText_eq : peerText device = "&p=" ++ endText device := String.append_assoc ..

theorem parseEnd_endText (reads : EndReads device) : parseEnd refusal (endText device).toList = .ok device := by
  obtain ⟨id, addr⟩ := device
  have free : '@' ∉ (Devices.toText id).toList := fun member => (reads.unmarked '@' member).2.2.1 rfl
  cases addr with
  | none =>
    have plain : endText (id, none) = Devices.toText id := by simp [endText]
    simp [parseEnd, plain, splitOnce_free free, Devices.parse_toText]
    rfl
  | some addr =>
    have row : (endText (id, some addr)).toList = (Devices.toText id).toList ++ '@' :: (LinkTexts.addrText addr).toList := by
      simp [endText]
    simp [parseEnd, row, splitOnce_mark free, Devices.parse_toText, reads.back addr rfl]
    rfl

theorem endText_free (reads : EndReads device) {c : Char} (member : c ∈ (endText device).toList) :
    c ≠ '&' ∧ isWhitespace c = false := by
  obtain ⟨id, addr⟩ := device
  cases addr with
  | none =>
    have own : c ∈ (Devices.toText id).toList := by simpa [endText] using member
    exact ⟨(reads.unmarked c own).1, (reads.unmarked c own).2.2.2⟩
  | some addr =>
    have cases_ : c ∈ (Devices.toText id).toList ∨ c = '@' ∨ c ∈ (LinkTexts.addrText addr).toList := by
      simpa [endText] using member
    rcases cases_ with own | rfl | other
    · exact ⟨(reads.unmarked c own).1, (reads.unmarked c own).2.2.2⟩
    · decide
    · exact ⟨(reads.addrUnmarked addr rfl c other).1, (reads.addrUnmarked addr rfl c other).2.2.2⟩

end Ends

/-- The parts of a link, each a letter and a value. -/
def part (letter : Char) (value : String) : List Char := letter :: '=' :: value.toList

theorem splitOnce_part {letter : Char} (other : letter ≠ '=') (value : String) :
    splitOnce '=' (part letter value) = some ([letter], value.toList) := by
  have free : '=' ∉ [letter] := by simpa using other.symm
  exact splitOnce_mark free

theorem part_free {letter : Char} {value : String} (first : letter ≠ '&' ∧ isWhitespace letter = false)
    (rest : ∀ c ∈ value.toList, c ≠ '&' ∧ isWhitespace c = false) :
    ∀ c ∈ part letter value, c ≠ '&' ∧ isWhitespace c = false := by
  rintro c (_ | ⟨_, _ | ⟨_, member⟩⟩)
  · exact first
  · decide
  · exact rest c member

/-- A text of a scheme and parts without separators is cut into these. -/
theorem parts_of_text {scheme text : String} {parts : List (List Char)} (some_ : parts ≠ [])
    (black : ∀ c ∈ scheme.toList, isWhitespace c = false)
    (row : text.toList = scheme.toList ++ ['&'].intercalate parts)
    (free : ∀ p ∈ parts, ∀ c ∈ p, c ≠ '&' ∧ isWhitespace c = false) :
    ∃ query, stripStart scheme (trim text) = some query ∧ query.toList.splitOn '&' = parts := by
  have same : text = scheme ++ .ofList (['&'].intercalate parts) := by
    rw [← String.toList_inj, row]
    simp
  have plain : ∀ c ∈ text.toList, isWhitespace c = false := by
    intro c member
    rw [row, List.mem_append] at member
    rcases member with own | rest
    · exact black c own
    · obtain ⟨first, others, rfl⟩ := List.exists_cons_of_ne_nil some_
      rw [intercalate_cons, List.mem_append, List.mem_flatten] at rest
      rcases rest with head | ⟨tail, listed, inside⟩
      · exact (free first List.mem_cons_self c head).2
      · obtain ⟨p, named, rfl⟩ := List.mem_map.mp listed
        rcases List.mem_cons.mp inside with rfl | inside
        · decide
        · exact (free p (List.mem_cons_of_mem first named) c inside).2
  refine ⟨.ofList (['&'].intercalate parts), ?_, ?_⟩
  · rw [trim_of_plain plain, same, stripStart_append]
  · rw [String.toList_ofList]
    exact List.splitOn_intercalate '&' (fun p listed member => (free p listed '&' member).1 rfl) some_

/-- Hex digits, one at least and not too many. -/
def IsCode (code : String) : Prop := code ≠ "" ∧ code.length ≤ 64 ∧ ∀ c ∈ code.toList, isHexDigit c = true

theorem isHexDigit_plain {c : Char} (digit : isHexDigit c = true) :
    c.toNat < 128 ∧ c ≠ '&' ∧ isWhitespace c = false := by
  have number : 48 ≤ c.toNat ∧ c.toNat ≤ 57 ∨ 97 ≤ c.toNat ∧ c.toNat ≤ 102 ∨ 65 ≤ c.toNat ∧ c.toNat ≤ 70 := by
    simp only [isHexDigit, Char.isDigit, Bool.or_eq_true, Bool.and_eq_true, decide_eq_true_eq, or_assoc] at digit
    exact digit
  refine ⟨by omega, ?_, ?_⟩
  · rintro rfl
    exact absurd number (by decide)
  · simp only [isWhitespace, Bool.or_eq_false_iff, Bool.and_eq_false_iff, decide_eq_false_iff_not]
    refine ⟨⟨by omega, ?_⟩, by omega⟩
    simp
    omega

theorem scheme_black : ∀ c ∈ scheme.toList, isWhitespace c = false := by
  simp [scheme, isWhitespace]

theorem contactScheme_black : ∀ c ∈ contactScheme.toList, isWhitespace c = false := by
  simp [contactScheme, isWhitespace]

section Back
variable [Nostr] [Devices] [LinkTexts]

/-! ### Invite links -/

theorem InviteParts.read_group {parts : InviteParts} {key : PublicKey} (reads : KeyReads key) :
    parts.read (part 'g' (keyText key)) = .ok { parts with group := some key } := by
  simp [InviteParts.read, splitOnce_part, reads.back]
  rfl

theorem InviteParts.read_code {parts : InviteParts} {code : String} (isCode : IsCode code) :
    parts.read (part 'c' code) = .ok { parts with code := some code } := by
  obtain ⟨some_, short, digits⟩ := isCode
  have length : (Lib.Hex.bytes code).length = code.length := by
    rw [bytes_of_ascii fun c member => (isHexDigit_plain (digits c member)).1, List.length_map, String.length_toList]
  have full : code.toList.isEmpty = false := by
    rw [Bool.eq_false_iff, ne_eq, List.isEmpty_iff]
    exact fun none_ => some_ (String.toList_inj.mp none_)
  have fits : ¬ 64 < code.length := not_lt.mpr short
  have all : code.toList.all isHexDigit = true := List.all_eq_true.mpr digits
  simp only [InviteParts.read, splitOnce_part (show 'c' ≠ '=' by decide), String.ofList_toList, full, length, fits, all]
  rfl

theorem InviteParts.read_peers (parts : InviteParts) {peers : List (EndpointId × Option SocketAddr)}
    (reads : ∀ p ∈ peers, EndReads p) (few : parts.peers.length + peers.length ≤ maxPeers) :
    (peers.map fun p => part 'p' (endText p)).foldlM InviteParts.read parts =
      .ok { parts with peers := parts.peers ++ peers } := by
  induction peers generalizing parts with
  | nil => simp [pure, Except.pure]
  | cons first rest ih =>
    rw [List.length_cons] at few
    have room : parts.peers.length < maxPeers := by omega
    have here : parts.read (part 'p' (endText first)) = .ok { parts with peers := parts.peers ++ [first] } := by
      simp only [InviteParts.read, splitOnce_part (show 'p' ≠ '=' by decide), parsePeer_eq,
        parseEnd_endText (reads first List.mem_cons_self), room]
      rfl
    rw [List.map_cons, List.foldlM_cons, here]
    change (rest.map fun p => part 'p' (endText p)).foldlM InviteParts.read _ = _
    rw [ih _ (fun p member => reads p (List.mem_cons_of_mem first member)) (by simp; omega)]
    simp

def InviteLink.parts (link : InviteLink) : List (List Char) :=
  part 'g' (keyText link.group) :: (link.code.toList.map (part 'c') ++ link.peers.map fun p => part 'p' (endText p))

theorem InviteLink.text_row {link : InviteLink} (few : link.peers.length ≤ maxPeers) :
    link.text.toList = scheme.toList ++ ['&'].intercalate link.parts := by
  have peers : ((link.peers.map peerText).flatMap String.toList) =
      ((link.peers.map fun p => part 'p' (endText p)).map fun p => '&' :: p).flatten := by
    induction link.peers with
    | nil => rfl
    | cons first rest ih => simp [ih, peerText_eq, part]
  rw [InviteLink.parts, intercalate_cons, InviteLink.text, List.take_of_length_le few]
  cases code : link.code with
  | none => simp [peers, part, keyText, String.toList_join]
  | some c => simp [peers, part, keyText, String.toList_join]

theorem InviteLink.parse_text {link : InviteLink} (group : KeyReads link.group) (code : ∀ c, link.code = some c → IsCode c)
    (few : link.peers.length ≤ maxPeers) (peers : ∀ p ∈ link.peers, EndReads p) : InviteLink.parse link.text = .ok link := by
  have free : ∀ p ∈ link.parts, ∀ c ∈ p, c ≠ '&' ∧ isWhitespace c = false := by
    simp only [InviteLink.parts, List.forall_mem_cons, List.forall_mem_append, List.forall_mem_map, Option.mem_toList]
    refine ⟨part_free (by decide) fun c member => ⟨(group.unmarked c member).1, (group.unmarked c member).2.2.2⟩, ?_, ?_⟩
    · exact fun c given => part_free (by decide) fun d member => (isHexDigit_plain ((code c given).2.2 d member)).2
    · exact fun p listed => part_free (by decide) fun c member => endText_free (peers p listed) member
  have some_ : link.parts ≠ [] := List.cons_ne_nil _ _
  obtain ⟨query, begins, split⟩ := parts_of_text some_ scheme_black (InviteLink.text_row few) free
  have peersRead := InviteParts.read_peers { group := some link.group, code := link.code } peers (by simpa using few)
  have read : link.parts.foldlM InviteParts.read {} =
      .ok { group := some link.group, code := link.code, peers := link.peers } := by
    rw [InviteLink.parts, List.foldlM_cons, InviteParts.read_group group]
    change (link.code.toList.map (part 'c') ++ _).foldlM InviteParts.read { group := some link.group } = _
    rw [List.foldlM_append]
    cases given : link.code with
    | none =>
      rw [given] at peersRead
      exact peersRead
    | some c =>
      rw [given] at peersRead
      rw [Option.toList_some, List.map_singleton, List.foldlM_cons, InviteParts.read_code (code c given)]
      exact peersRead
  rw [InviteLink.parse, begins, orRefuse_some_bind, split, read]
  rfl

/-! ### Contact links -/

theorem ContactParts.read_person {parts : ContactParts} {key : PublicKey} (reads : KeyReads key) :
    parts.read (part 'p' (keyText key)) = .ok { parts with person := some key } := by
  simp [ContactParts.read, splitOnce_part, reads.back]
  rfl

theorem ContactParts.read_devices (parts : ContactParts) {devices : List (EndpointId × Option SocketAddr)}
    (reads : ∀ d ∈ devices, EndReads d) (few : parts.devices.length + devices.length ≤ maxDevices) :
    (devices.map fun d => part 'd' (endText d)).foldlM ContactParts.read parts =
      .ok { parts with devices := parts.devices ++ devices } := by
  induction devices generalizing parts with
  | nil => simp [pure, Except.pure]
  | cons first rest ih =>
    rw [List.length_cons] at few
    have room : parts.devices.length < maxDevices := by omega
    have here : parts.read (part 'd' (endText first)) = .ok { parts with devices := parts.devices ++ [first] } := by
      simp only [ContactParts.read, splitOnce_part (show 'd' ≠ '=' by decide), parseEnd_endText (reads first List.mem_cons_self),
        room]
      rfl
    rw [List.map_cons, List.foldlM_cons, here]
    change (rest.map fun d => part 'd' (endText d)).foldlM ContactParts.read _ = _
    rw [ih _ (fun d member => reads d (List.mem_cons_of_mem first member)) (by simp; omega)]
    simp

def ContactLink.parts (link : ContactLink) : List (List Char) :=
  part 'p' (keyText link.person) :: link.devices.map fun d => part 'd' (endText d)

theorem ContactLink.text_row {link : ContactLink} (few : link.devices.length ≤ maxDevices) :
    link.text.toList = contactScheme.toList ++ ['&'].intercalate link.parts := by
  have devices : ((link.devices.map fun d => "&d=" ++ endText d).flatMap String.toList) =
      ((link.devices.map fun d => part 'd' (endText d)).map fun p => '&' :: p).flatten := by
    induction link.devices with
    | nil => rfl
    | cons first rest ih => simp [ih, part]
  rw [ContactLink.parts, intercalate_cons, ContactLink.text, List.take_of_length_le few]
  simp [devices, part, String.toList_join]

theorem ContactLink.parse_text {link : ContactLink} (person : KeyReads link.person) (some_ : link.devices ≠ [])
    (few : link.devices.length ≤ maxDevices) (devices : ∀ d ∈ link.devices, EndReads d) :
    ContactLink.parse link.text = .ok link := by
  have free : ∀ p ∈ link.parts, ∀ c ∈ p, c ≠ '&' ∧ isWhitespace c = false := by
    simp only [ContactLink.parts, List.forall_mem_cons, List.forall_mem_map]
    refine ⟨part_free (by decide) fun c member => ⟨(person.unmarked c member).1, (person.unmarked c member).2.2.2⟩, ?_⟩
    exact fun d listed => part_free (by decide) fun c member => endText_free (devices d listed) member
  have there : link.parts ≠ [] := List.cons_ne_nil _ _
  obtain ⟨query, begins, split⟩ := parts_of_text there contactScheme_black (ContactLink.text_row few) free
  have devicesRead := ContactParts.read_devices { person := some link.person } devices (by simpa using few)
  have read : link.parts.foldlM ContactParts.read {} = .ok { person := some link.person, devices := link.devices } := by
    rw [ContactLink.parts, List.foldlM_cons, ContactParts.read_person person]
    exact devicesRead
  have full : link.devices.isEmpty = false := by simpa using some_
  rw [ContactLink.parse, begins, orRefuse_some_bind, split, read]
  change (refuseIf link.devices.isEmpty (ContactError.missing "device") >>= fun _ => _) = _
  rw [full]
  rfl

/-- Links come back from their text: an invite link with a code of hex digits or none and not too many
peers, and a contact link with one device at least and not too many. -/
theorem links_parse_text :
    (∀ link : InviteLink, KeyReads link.group → (∀ code, link.code = some code → IsCode code) →
      link.peers.length ≤ maxPeers → (∀ p ∈ link.peers, EndReads p) → InviteLink.parse link.text = .ok link) ∧
    ∀ link : ContactLink, KeyReads link.person → 1 ≤ link.devices.length → link.devices.length ≤ maxDevices →
      (∀ d ∈ link.devices, EndReads d) → ContactLink.parse link.text = .ok link := by
  refine ⟨fun link group code few peers => InviteLink.parse_text group code few peers, ?_⟩
  intro link person one few devices
  refine ContactLink.parse_text person ?_ few devices
  rw [ne_eq, ← List.length_eq_zero_iff]
  exact Nat.one_le_iff_ne_zero.mp one

end Back

def loopback : SocketAddr := .v6 1 4242 0

/-- The texts of the club's key and of one address. -/
abbrev clubLinks : LinkTexts where
  toBech32 key := if key = club then some "npub1qqqqqqqqqqqqqqqqqqqqqqqqqqqqqqqqqqqqqqqqqqqqqqqqqqqshp52w2" else none
  fromBech32 text := if text = "npub1qqqqqqqqqqqqqqqqqqqqqqqqqqqqqqqqqqqqqqqqqqqqqqqqqqqshp52w2" then some club else none
  addrText addr := if addr = loopback then "[::1]:4242" else ""
  parseAddr text := if text = "[::1]:4242" then some loopback else none

def clubInvite : InviteLink := ⟨club, some "0aF", [(⟨7⟩, none), (⟨8⟩, some loopback)]⟩

def clubContact : ContactLink := ⟨club, [(⟨7⟩, none), (⟨8⟩, some loopback)]⟩

theorem links_parse_text_club : @InviteLink.parse _ _ clubLinks (@InviteLink.text _ _ clubLinks clubInvite) = .ok clubInvite ∧
    @ContactLink.parse _ _ clubLinks (@ContactLink.text _ _ clubLinks clubContact) = .ok clubContact := by
  let _ := clubLinks
  have unmarked (text : String) (marks : (text.toList.all fun c => c != '&' && c != '=' && c != '@' && !isWhitespace c) = true) :
      Unmarked text := by
    intro c member
    have free := List.all_eq_true.mp marks c member
    simpa [and_assoc] using free
  have key : KeyReads club := ⟨rfl, unmarked _ (by decide +kernel)⟩
  have ends : ∀ d ∈ clubContact.devices, EndReads d := by
    rintro d (_ | ⟨_, _ | ⟨_, member⟩⟩)
    · exact ⟨unmarked _ (by decide +kernel), (fun addr given => nomatch given), (fun addr given => nomatch given)⟩
    · refine ⟨unmarked _ (by decide +kernel), ?_, ?_⟩
      · rintro addr ⟨⟩
        rfl
      · rintro addr ⟨⟩
        exact unmarked _ (by decide +kernel)
    · cases member
  refine ⟨links_parse_text.1 clubInvite key ?_ (by decide) ends, links_parse_text.2 clubContact key (by decide) (by decide) ends⟩
  rintro code ⟨⟩
  exact ⟨by decide, by decide, by simp [isHexDigit, Char.isDigit]⟩

end HitEnter.Wire
