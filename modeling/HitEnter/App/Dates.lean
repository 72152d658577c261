import HitEnter.App.PublishSpec

/-! Whether what a relay is told under a key is dated after what it took before, over any
run of passes. -/

namespace HitEnter.App

open Wire HitEnter.Group Lib.Runs

section Pass
variable [NostrEvents] [Bech32] {pass : Pass} {desk out : Desk} {noted : Published} {key : String} {keys : List String}

/-- How a pass that is through with `keys` has dated what it sent. -/
private structure Through (pass : Pass) (noted : Published) (keys : List String) (desk : Desk) : Prop where
  kept : ∀ key, key ∉ keys → desk.1[key]? = noted[key]?
  within : ∀ sent ∈ desk.2, sent.key ∈ keys
  dated : ∀ sent ∈ desk.2, sent.key ≠ "profile" → sent.event.createdAt = nextDate noted[sent.key]? (pass.reading sent.key)
  once : desk.2.Pairwise fun a b => a.key = b.key → a.url ≠ b.url

omit [NostrEvents] in
private theorem Through.told (through : Through pass noted keys desk) (fresh : key ∉ keys)
    (told : Told pass key desk out) : Through pass noted (key :: keys) out := by
  have others : ∀ {other : String}, other ∉ key :: keys → other ≠ key ∧ other ∉ keys := fun absent =>
    ⟨fun same => absent (same ▸ List.mem_cons_self), fun old => absent (List.mem_cons_of_mem key old)⟩
  cases told with
  | idle now same =>
    refine ⟨fun other absent => ?_, fun sent old => List.mem_cons_of_mem key (through.within sent old), through.dated,
      through.once⟩
    exact (same other (others absent).1).trans (through.kept other (others absent).2)
  | sent now what event same dated =>
    obtain ⟨urls, part, log⟩ := @sendPublic_log (now, desk.2) key what event pass.list (pass.takes key)
    have new : ∀ sent ∈ (sendPublic (now, desk.2) key what event pass.list (pass.takes key)).2,
        sent ∈ desk.2 ∨ sent.key = key ∧ sent.event = event := by
      intro sent member
      rw [log] at member
      refine (List.mem_append.mp member).imp_right fun added => ?_
      obtain ⟨url, _, rfl⟩ := List.mem_map.mp added
      exact ⟨rfl, rfl⟩
    refine ⟨fun other absent => ?_, fun sent member => ?_, fun sent member words => ?_, ?_⟩
    · rw [sendPublic_other (others absent).1]
      exact (same other (others absent).1).trans (through.kept other (others absent).2)
    · rcases new sent member with old | ⟨own, _⟩
      · exact List.mem_cons_of_mem key (through.within sent old)
      · exact own ▸ List.mem_cons_self
    · rcases new sent member with old | ⟨own, is⟩
      · exact through.dated sent old words
      · rw [own] at words ⊢
        rw [is, dated words, through.kept key fresh]
    · rw [log]
      refine List.pairwise_append.mpr ⟨through.once, ?_, fun old held sent added same => ?_⟩
      · refine List.pairwise_map.mpr ((part.nodup pass.distinct).imp ?_)
        exact fun apart _ same => apart same
      · obtain ⟨url, _, rfl⟩ := List.mem_map.mp added
        have own : old.key = key := same
        exact absurd (own ▸ through.within old held) fresh

/-- A pass sends under a key one event, dated after what was noted, to relays that differ. -/
private theorem over_through (ends : Ends (pass.over_ noted) out) : ∃ keys, Through pass noted keys out := by
  refine over_rule (fun keys desk standing listed fresh through out ends => ?_)
    ⟨fun _ _ => rfl, nofun, nofun, .nil⟩ (fun desk through out ends => ?_) (fun desk through out ends => ?_) out ends
  · rcases sendGroup_cases pass desk standing with idle | ⟨event, found, _, same⟩
    · have still : out = (refreshed desk.1 (Bech32.npub standing.group) standing.looked, desk.2) := by
        rcases idle with told | told <;> rcases ends with same | same <;> rw [told] at same <;> cases same <;> rfl
      rw [still]
      exact through.told fresh (.idle _ fun other apart => refreshed_other apart)
    · have next := same
      rcases ends with told | told
      · rw [told] at next
        cases next
        refine through.told fresh (.sent _ _ event (fun other apart => refreshed_other apart) fun _ => ?_)
        rw [reading_npub listed]
        rcases announcement_cases found with ⟨_, _, _, _, rfl⟩ | rfl <;> rfl
      · rw [told] at next
        cases next
  · rcases sendProfile_cases pass desk with told | told | ⟨profile, _, told⟩
    all_goals
      rcases ends with same | same
      all_goals
        rw [told] at same
        cases same
    · exact through.told (List.not_mem_nil) (.idle _ fun _ _ => rfl)
    · exact through.told (List.not_mem_nil) (.idle _ fun _ _ => rfl)
    · exact through.told (List.not_mem_nil) (.sent _ _ profile (fun _ _ => rfl) fun other => absurd rfl other)
  · have fresh : "groups" ∉ ["profile"] := by decide
    rcases sendGroups_cases pass desk with told | told | ⟨mine, told⟩
    all_goals
      rcases ends with same | same
      all_goals
        rw [told] at same
        cases same
    · exact through.told fresh (.idle _ fun _ _ => rfl)
    · exact through.told fresh (.idle _ fun _ _ => rfl)
    · refine through.told fresh (.sent _ _ _ (fun _ _ => rfl) fun _ => ?_)
      rw [reading_groups]
      rfl

end Pass

/-- What a relay is told under a key, the profile apart, is dated after all it took before. -/
def Rising (log : List Sending) : Prop :=
  log.Pairwise fun old new =>
    old.key = new.key → old.key ≠ "profile" → old.url = new.url → old.taken = true → old.event.createdAt < new.event.createdAt

instance (log : List Sending) : Decidable (Rising log) := inferInstanceAs (Decidable (List.Pairwise _ log))

/-- Is `date` before what the clock says, or not after what is noted? -/
def outdated (noted : Option Sent) (now date : Timestamp) : Bool :=
  date < now || noted.any fun sent => date < ⟨sent.at_ + 1⟩

section Run
variable [NostrEvents] [Bech32]

/-- What a pass sends. -/
def Outbox.sends (outbox : Outbox) (pass : Pass) : List Sending :=
  match pass.over_ (outbox.noted pass) with
  | .error desk => desk.2
  | .ok desk => desk.2

/-- Where a relay is told again under a key, each date it took under it before is past by
the clock, or by what the file notes of the key. -/
def Outbox.retells (outbox : Outbox) (pass : Pass) : Bool :=
  (outbox.sends pass).all fun new => new.key == "profile" || outbox.log.all fun old =>
    !(old.key == new.key && old.url == new.url && old.taken) ||
      outdated (outbox.noted pass)[new.key]? (pass.reading new.key) old.event.createdAt

theorem log_publishPublicOnce (outbox : Outbox) (pass : Pass) :
    (publishPublicOnce outbox pass).log = outbox.log ++ outbox.sends pass := by
  unfold publishPublicOnce Outbox.sends
  cases pass.over_ (outbox.noted pass) <;> rfl

private theorem sends_through (outbox : Outbox) (pass : Pass) :
    ∃ keys noted', Through pass (outbox.noted pass) keys (noted', outbox.sends pass) := by
  unfold Outbox.sends
  cases told : pass.over_ (outbox.noted pass) with
  | error desk =>
    obtain ⟨keys, through⟩ := over_through (.inr told)
    exact ⟨keys, desk.1, through⟩
  | ok desk =>
    obtain ⟨keys, through⟩ := over_through (.inl told)
    exact ⟨keys, desk.1, through⟩

omit [NostrEvents] [Bech32] in
private theorem outdated_iff {noted : Option Sent} {now date : Timestamp} :
    outdated noted now date = true ↔ date < nextDate noted now := by
  cases noted with
  | none => simp [outdated, nextDate]
  | some sent => simp [outdated, nextDate]

/-- One pass keeps the dates rising just where it meets the condition. -/
private theorem rising_step {outbox : Outbox} {pass : Pass} (rising : Rising outbox.log) :
    Rising (publishPublicOnce outbox pass).log ↔ outbox.retells pass = true := by
  obtain ⟨keys, noted', through⟩ := sends_through outbox pass
  rw [log_publishPublicOnce, Rising, List.pairwise_append]
  have within : (outbox.sends pass).Pairwise fun old new =>
      old.key = new.key → old.key ≠ "profile" → old.url = new.url → old.taken = true →
        old.event.createdAt < new.event.createdAt :=
    through.once.imp fun apart same _ url _ => absurd url (apart same)
  simp only [Outbox.retells, List.all_eq_true, Bool.or_eq_true, beq_iff_eq, Bool.not_eq_true', Bool.and_eq_false_iff,
    beq_eq_false_iff_ne, outdated_iff]
  constructor
  · rintro ⟨_, _, across⟩ new sent
    by_cases profile : new.key = "profile"
    · exact .inl profile
    · refine .inr fun old held => ?_
      by_cases same : old.key = new.key
      · by_cases url : old.url = new.url
        · cases taken : old.taken with
          | false => exact .inl (.inr rfl)
          | true =>
            have later := across old held new sent same (same ▸ profile) url taken
            rw [through.dated new sent profile] at later
            exact .inr later
        · exact .inl (.inl (.inr url))
      · exact .inl (.inl (.inl same))
  · intro retells
    refine ⟨rising, within, fun old held new sent same profile url taken => ?_⟩
    rw [through.dated new sent (same ▸ profile)]
    rcases retells new sent with own | past
    · exact absurd (same.trans own) profile
    · rcases past old held with ((other | other) | other) | later
      · exact absurd same other
      · exact absurd url other
      · rw [taken] at other
        cases other
      · exact later

end Run

/-- The second relay misses the club's announcement and takes it at 200; in the same second
the club is described anew. -/
def lateRelay : List Pass :=
  [clubPass id twoRelays twoRelays_nodup ["wss://a.example.org"] 100, clubPass id twoRelays twoRelays_nodup twoRelays 200,
    clubPass ({ · with about := "a town square" }) twoRelays twoRelays_nodup twoRelays 200]

end HitEnter.App
