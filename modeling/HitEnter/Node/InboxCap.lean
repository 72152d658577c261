import HitEnter.Lib.Budget
import HitEnter.Node.Inbox

/-! How many of a person's letters are kept. They are counted as often as a tag has the
text of their key, in characters of their JSON; what is kept are bytes. -/

namespace HitEnter.Node

open Wire HitEnter.Group Lib.Json Lib.Ranks Lib.Budget

section Cap
variable [NostrEvents] [Wraps]

namespace Inner

/-- Is it a wrap to `person`? -/
def isTo (person : PublicKey) (ev : Event) : Bool := ev.kind == giftWrap && recipientOf ev == some person

/-- The wraps to `person`, the latest to arrive first. -/
def inbox (node : Inner) (person : PublicKey) : List Event :=
  (node.store.events.filter (isTo person)).insertionSort fun a b => node.arrival b ≤ node.arrival a

/-- How many rows of a wrap have the text of `person`. -/
def copies (person : PublicKey) (wrap : Event) : ℕ :=
  ((tagRows wrap).filter (· = ("p", Nostr.toHex person))).length

/-- What the cap counts of a wrap: the characters of its JSON, for each of these rows. -/
def counted (person : PublicKey) (wrap : Event) : ℕ := copies person wrap * (Wraps.json wrap).length

/-- What a wrap takes of the inbox of `person`: the bytes of its JSON, if it is to them. -/
def taken (person : PublicKey) (wrap : Event) : ℕ := if isTo person wrap then size (Wraps.json wrap) else 0

/-- The cap holds: what is kept for `person` is the longest run of the latest to arrive that
fits, and nothing else goes. -/
structure Capped (node : Inner) (person : PublicKey) (cap : ℕ) : Prop where
  run : (node.capWraps person cap).inbox person <+: node.inbox person
  total : (((node.capWraps person cap).inbox person).map fun ev => size (Wraps.json ev)).sum ≤ cap
  longest : ∀ run, run <+: node.inbox person → (run.map fun ev => size (Wraps.json ev)).sum ≤ cap →
    run <+: (node.capWraps person cap).inbox person
  others : ∀ ev ∈ node.store.events, isTo person ev = false → ev ∈ (node.capWraps person cap).store.events

variable {node : Inner} {person : PublicKey} {cap : ℕ}

/-- The wraps held, the latest to arrive first. -/
def wraps (node : Inner) : List Event :=
  sorted (fun ev => OrderDual.toDual (node.arrival ev)) (node.store.events.filter (·.kind = giftWrap))

omit [Wraps] in
theorem wrapsFor_eq : node.wrapsFor person = node.wraps.flatMap fun ev => List.replicate (copies person ev) ev := by
  rw [wraps, ← sorted_copies]
  unfold wrapsFor sorted copies
  simp only [List.map_const']
  rfl

omit [Wraps] in
theorem inbox_eq : node.inbox person = node.wraps.filter (isTo person) := by
  have kinds : node.store.events.filter (isTo person) =
      (node.store.events.filter (·.kind = giftWrap)).filter (isTo person) := by
    rw [List.filter_filter]
    refine List.filter_congr fun ev _ => ?_
    by_cases kind : ev.kind = giftWrap <;> simp [isTo, kind]
  rw [wraps, ← sorted_filter, ← kinds]
  rfl

omit [Wraps] in
theorem wraps_nodup : node.wraps.Nodup :=
  (List.perm_insertionSort _ _).nodup_iff.mpr ((node.store.ids.of_map _).filter _)

omit [Wraps] in
theorem mem_wraps {ev : Event} : ev ∈ node.wraps ↔ ev ∈ node.store.events ∧ ev.kind = giftWrap := by
  simp [wraps]

/-! ### What goes -/

omit [NostrEvents] in
theorem capStep_room {wrap : Event} {held : ℕ} {gone : List EventId} (room : held + (Wraps.json wrap).length ≤ cap) :
    (capStep cap (held, gone) wrap).2 = gone :=
  if_neg (by omega)

omit [NostrEvents] in
private theorem capStep_copies {wrap : Event} {n held : ℕ} {gone : List EventId}
    (room : held + n * (Wraps.json wrap).length ≤ 2 ^ 64 - 1) :
    ((List.replicate n wrap).foldl (capStep cap) (held, gone)).1 = held + n * (Wraps.json wrap).length ∧
      ∀ id, id ∈ ((List.replicate n wrap).foldl (capStep cap) (held, gone)).2 ↔
        id ∈ gone ∨ 0 < n ∧ cap < held + n * (Wraps.json wrap).length ∧ id = wrap.id := by
  induction n generalizing held gone with
  | zero => simp
  | succ n ih =>
    rw [Nat.succ_mul] at room ⊢
    have next : capStep cap (held, gone) wrap = (held + (Wraps.json wrap).length,
        if cap < held + (Wraps.json wrap).length then gone ++ [wrap.id] else gone) := by
      rw [capStep, min_eq_left (by omega)]
    obtain ⟨total, ids⟩ := @ih (held + (Wraps.json wrap).length)
      (if cap < held + (Wraps.json wrap).length then gone ++ [wrap.id] else gone) (by omega)
    rw [List.replicate_succ, List.foldl_cons, next]
    refine ⟨by rw [total]; omega, fun id => ?_⟩
    rw [ids]
    by_cases due : cap < held + (Wraps.json wrap).length
    · rw [if_pos due, List.mem_append, List.mem_singleton]
      constructor
      · rintro ((before | rfl) | ⟨_, _, rfl⟩)
        · exact .inl before
        · exact .inr ⟨by omega, by omega, rfl⟩
        · exact .inr ⟨by omega, by omega, rfl⟩
      · rintro (before | ⟨_, _, rfl⟩)
        · exact .inl (.inl before)
        · exact .inl (.inr rfl)
    · rw [if_neg due]
      refine or_congr_right ⟨?_, ?_⟩
      · rintro ⟨_, past, same⟩
        exact ⟨by omega, by omega, same⟩
      · rintro ⟨_, past, same⟩
        refine ⟨Nat.pos_of_ne_zero fun none_ => ?_, by omega, same⟩
        rw [none_, Nat.zero_mul] at past
        omega

variable (written : ∀ ev, Wraps.json ev ≠ "")
include written

private theorem capStep_budget {wraps : List Event} {held : ℕ} {gone : List EventId}
    (room : held + (wraps.map (counted person)).sum ≤ 2 ^ 64 - 1) (id : EventId) :
    id ∈ ((wraps.flatMap fun ev => List.replicate (copies person ev) ev).foldl (capStep cap) (held, gone)).2 ↔
      id ∈ gone ∨ ∃ ev ∈ excess (counted person) cap held wraps, ev.id = id := by
  induction wraps generalizing held gone with
  | nil => simp [excess]
  | cons wrap rest ih =>
    rw [List.map_cons, List.sum_cons, ← Nat.add_assoc] at room
    have most : held + copies person wrap * (Wraps.json wrap).length ≤ 2 ^ 64 - 1 := by
      change held + counted person wrap ≤ 2 ^ 64 - 1
      omega
    obtain ⟨held', gone', out⟩ : ∃ held' gone',
        (List.replicate (copies person wrap) wrap).foldl (capStep cap) (held, gone) = (held', gone') := ⟨_, _, rfl⟩
    obtain ⟨total, ids⟩ := out ▸ capStep_copies most
    have counts : held' = held + counted person wrap := total
    have some_ : 0 < copies person wrap ↔ 0 < counted person wrap := by
      have letters : 0 < (Wraps.json wrap).length :=
        Nat.pos_of_ne_zero fun none_ => written wrap (String.length_eq_zero_iff.mp none_)
      rw [counted, Nat.mul_pos_iff_of_pos_right letters]
    rw [List.flatMap_cons, List.foldl_append, out, ih (by rw [counts]; exact room), counts, ids, excess]
    change (_ ∨ 0 < copies person wrap ∧ cap < held + counted person wrap ∧ id = wrap.id) ∨ _ ↔ _
    rw [some_]
    by_cases due : 0 < counted person wrap ∧ cap < held + counted person wrap
    · rw [if_pos due]
      simp [due, or_assoc, eq_comm]
    · rw [if_neg due, ← and_assoc]
      simp [due]

variable (room : (node.wraps.map (counted person)).sum ≤ 2 ^ 64 - 1)
include room

/-- What stays of the events held: all but what is over the cap, as it is counted. -/
theorem mem_capWraps {ev : Event} (held : ev ∈ node.store.events) :
    ev ∈ (node.capWraps person cap).store.events ↔ ev ∉ excess (counted person) cap 0 node.wraps := by
  have gone : ev.id ∈ ((node.wrapsFor person).foldl (capStep cap) (0, [])).2 ↔
      ev.id ∈ [] ∨ ∃ row ∈ excess (counted person) cap 0 node.wraps, row.id = ev.id := by
    rw [wrapsFor_eq]
    exact capStep_budget written (by rwa [Nat.zero_add]) ev.id
  rw [capWraps, remove, Store.mem_remove, and_iff_right held, gone]
  simp only [List.not_mem_nil, false_or]
  refine not_congr ⟨?_, fun past => ⟨ev, past, rfl⟩⟩
  rintro ⟨other, past, same⟩
  obtain ⟨member, _⟩ := mem_wraps.mp (mem_of_mem_excess past).1
  exact node.store.eq_of_id member held same ▸ past

private theorem inbox_capWraps : (node.capWraps person cap).inbox person =
    (node.inbox person).filter fun ev => ev ∉ excess (counted person) cap 0 node.wraps := by
  let kept : Event → Bool := fun ev => !((node.wrapsFor person).foldl (capStep cap) (0, [])).2.contains ev.id
  have rows : (node.capWraps person cap).inbox person = (node.inbox person).filter kept := by
    have events : (node.store.events.filter kept).filter (isTo person) = (node.store.events.filter (isTo person)).filter kept := by
      rw [List.filter_filter, List.filter_filter]
      exact List.filter_congr fun ev _ => Bool.and_comm _ _
    change sorted (fun ev => OrderDual.toDual (node.arrival ev)) ((node.store.events.filter kept).filter (isTo person)) = _
    rw [events, sorted_filter]
    rfl
  rw [rows]
  refine List.filter_congr fun ev member => ?_
  have held : ev ∈ node.store.events := by
    rw [inbox_eq] at member
    exact (mem_wraps.mp (List.mem_filter.mp member).1).1
  have stays : kept ev = true ↔ ev ∈ (node.capWraps person cap).store.events := by
    change _ ↔ ev ∈ node.store.events.filter kept
    rw [List.mem_filter, and_iff_right held]
  rw [Bool.eq_iff_iff, stays, mem_capWraps written room held, decide_eq_true_eq]

/-- The cap holds, whatever it is, if and only if each wrap counts for as much as it takes. -/
theorem capped_iff : (∀ cap ≤ 2 ^ 64 - 1, Capped node person cap) ↔
    ∀ ev ∈ node.store.events, ev.kind = giftWrap → counted person ev = taken person ev := by
  have letters : ∀ ev, 0 < size (Wraps.json ev) := fun ev =>
    (Nat.pos_of_ne_zero fun none_ => written ev (String.length_eq_zero_iff.mp none_)).trans_le (length_le_size _)
  have own : ∀ ev, 0 < taken person ev ↔ isTo person ev = true := by
    intro ev
    unfold taken
    split
    · rename_i addressed
      exact iff_of_true (letters ev) addressed
    · rename_i another
      exact iff_of_false (Nat.lt_irrefl 0) another
  have members : ∀ ev ∈ node.inbox person, isTo person ev = true := by
    intro ev member
    rw [inbox_eq] at member
    exact (List.mem_filter.mp member).2
  have light : node.wraps.filter (fun ev => 0 < taken person ev) = node.inbox person := by
    rw [inbox_eq]
    refine List.filter_congr fun ev _ => ?_
    rw [Bool.eq_iff_iff, decide_eq_true_eq, own]
  have fitting : ∀ cap, fits (fun ev => size (Wraps.json ev)) cap (node.inbox person) =
      (node.inbox person).filter fun ev => ev ∉ excess (taken person) cap 0 node.wraps := by
    intro cap
    have same : ∀ ev ∈ node.inbox person, size (Wraps.json ev) = taken person ev :=
      fun ev member => (if_pos (members ev member)).symm
    have distinct : (node.inbox person).Nodup := by
      rw [inbox_eq]
      exact wraps_nodup.filter _
    have positive : ∀ ev ∈ node.inbox person, 0 < taken person ev := fun ev member => (own ev).mpr (members ev member)
    rw [fits_congr same, ← excess_filter, light]
    exact fits_eq_filter positive distinct (Nat.zero_le cap)
  have agree : ∀ cap, Capped node person cap ↔ ∀ ev ∈ node.wraps,
      ev ∈ excess (counted person) cap 0 node.wraps ↔ ev ∈ excess (taken person) cap 0 node.wraps := by
    intro cap
    have whole : Capped node person cap ↔
        (node.capWraps person cap).inbox person = fits (fun ev => size (Wraps.json ev)) cap (node.inbox person) ∧
          ∀ ev ∈ node.store.events, isTo person ev = false → ev ∈ (node.capWraps person cap).store.events := by
      rw [eq_fits_iff]
      exact ⟨fun holds => ⟨⟨holds.run, holds.total, holds.longest⟩, holds.others⟩,
        fun holds => ⟨holds.1.1, holds.1.2.1, holds.1.2.2, holds.2⟩⟩
    rw [whole, inbox_capWraps written room, fitting]
    constructor
    · rintro ⟨same, others⟩ ev member
      by_cases addressed : isTo person ev = true
      · have listed : ev ∈ node.inbox person := by
          rw [inbox_eq]
          exact List.mem_filter.mpr ⟨member, addressed⟩
        have both := congrArg (ev ∈ ·) same
        simpa [List.mem_filter, listed, not_iff_not] using both
      · have free : ev ∉ excess (taken person) cap 0 node.wraps :=
          fun past => addressed ((own ev).mp (mem_of_mem_excess past).2)
        have held := (mem_wraps.mp member).1
        exact iff_of_false ((mem_capWraps written room held).mp (others ev held (by simpa using addressed))) free
    · intro same
      refine ⟨List.filter_congr fun ev member => ?_, fun ev held another => ?_⟩
      · rw [inbox_eq] at member
        rw [Bool.eq_iff_iff, decide_eq_true_eq, decide_eq_true_eq]
        exact not_congr (same ev (List.mem_filter.mp member).1)
      · rw [mem_capWraps written room held]
        intro past
        have listed := (mem_of_mem_excess past).1
        have addressed := (own ev).mp (mem_of_mem_excess ((same ev listed).mp past)).2
        simp [another] at addressed
  have sums : (∀ cap ≤ 2 ^ 64 - 1, ∀ ev ∈ node.wraps,
      ev ∈ excess (counted person) cap 0 node.wraps ↔ ev ∈ excess (taken person) cap 0 node.wraps) ↔
        ∀ ev ∈ node.wraps, counted person ev = taken person ev :=
    excess_agree_iff wraps_nodup (by rwa [Nat.zero_add])
  rw [forall₂_congr fun cap _ => agree cap, sums]
  simp only [mem_wraps, and_imp]

end Inner

end Cap

private theorem plainJson_ne (ev : Event) : plainJson ev ≠ "" := by
  intro none_
  have opened : size "\x7b" = 1 := by decide +kernel
  have length : size (plainJson ev) = 0 := by
    rw [none_]
    decide
  rw [plainJson, object, size_append, size_append, opened] at length
  omega

/-- An anchor that keeps a letter of the guest's. -/
def anchorsLetter (text : String) : Event := signed ⟨99⟩ 550 giftWrap [["p", Nostr.toHex guest]] text

def anchorInbox (text : String) : Inner := (anchorNode.insert (anchorsLetter text) 600).1

/-- Is every character of the text one byte? -/
def Plain (text : String) : Prop := text.length = size text

private theorem plain_append {a b : String} : Plain (a ++ b) ↔ Plain a ∧ Plain b := by
  have first := length_le_size a
  have second := length_le_size b
  unfold Plain
  rw [String.length_append, size_append]
  omega

private theorem plain_anchorsLetter : Plain (Wraps.json (anchorsLetter "a letter")) := by
  change Plain (plainJson (anchorsLetter "a letter"))
  simp only [plainJson, object, array, List.map_cons, List.map_nil, String.intercalate_cons_cons,
    String.intercalate_singleton, plain_append]
  repeat' apply And.intro
  all_goals
    unfold Plain
    decide +kernel

theorem anchorInbox_capped : Inner.Capped (anchorInbox "a letter") guest 1000 := by
  have rows : (anchorInbox "a letter").wraps = [anchorsLetter "a letter"] := by decide +kernel
  have events : (anchorInbox "a letter").store.events = [anchorsLetter "a letter"] := by decide +kernel
  have once : Inner.copies guest (anchorsLetter "a letter") = 1 := by decide +kernel
  have addressed : Inner.isTo guest (anchorsLetter "a letter") = true := by decide +kernel
  have short : size (Wraps.json (anchorsLetter "a letter")) ≤ 2 ^ 64 - 1 := by decide +kernel
  have counts : Inner.counted guest (anchorsLetter "a letter") = size (Wraps.json (anchorsLetter "a letter")) := by
    rw [Inner.counted, once, Nat.one_mul]
    exact plain_anchorsLetter
  refine (Inner.capped_iff plainJson_ne ?_).mpr (fun ev held kind => ?_) 1000 (by decide)
  · rw [rows, List.map_singleton, List.sum_singleton, counts]
    exact short
  · rw [events, List.mem_singleton] at held
    rw [held, counts, Inner.taken, if_pos addressed]

/-- A text of one letter, which is two bytes. -/
def accent : String := .ofList [Char.ofNat 233]

private theorem long_accent : (Wraps.json (anchorsLetter accent)).length < size (Wraps.json (anchorsLetter accent)) := by
  have content : ¬ Plain (quote (anchorsLetter accent).content) := by
    unfold Plain
    decide +kernel
  refine lt_of_le_of_ne (length_le_size _) fun plain => ?_
  change Plain (plainJson (anchorsLetter accent)) at plain
  simp only [plainJson, object, List.map_cons, List.map_nil, String.intercalate_cons_cons,
    String.intercalate_singleton, plain_append, content, and_false, false_and] at plain

/-- The letter is taken in, and kept within a cap of its characters, which are fewer than
its bytes. -/
theorem anchorInbox_accent : (anchorNode.groups.judge (anchorsLetter accent) 600).toOption = some .store ∧
    anchorsLetter accent ∈
      ((anchorInbox accent).capWraps guest (Wraps.json (anchorsLetter accent)).length).store.events ∧
    (Wraps.json (anchorsLetter accent)).length < size (Wraps.json (anchorsLetter accent)) := by
  refine ⟨by decide +kernel, ?_, long_accent⟩
  have rows : (anchorInbox accent).wrapsFor guest = [anchorsLetter accent] := by decide +kernel
  have held : anchorsLetter accent ∈ (anchorInbox accent).store.events := by decide +kernel
  have stays : ((([anchorsLetter accent] : List Event).foldl
      (Inner.capStep (Wraps.json (anchorsLetter accent)).length) (0, [])).2 : List EventId) = [] :=
    Inner.capStep_room (Nat.zero_add _).le
  rw [Inner.capWraps, rows, stays, Inner.remove, Store.mem_remove]
  exact ⟨held, List.not_mem_nil⟩

end HitEnter.Node
