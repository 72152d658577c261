import HitEnter.Node.HostSpec
import HitEnter.Node.TagIndex

/-! Whether a channel's slowmode holds between messages that are handed to a node at once.
The check asks the store for what is near, and the message is stored some steps later. -/

namespace HitEnter.Node

open Wire HitEnter.Group Lib.Runs Lib.Turns

section Near
variable [Nostr] {g : PublicKey} {channel : String} {wait : UInt32} {a b : Event}

/-- Is it a message in that channel of that group? -/
def saidIn (g : PublicKey) (channel : String) (ev : Event) : Bool :=
  ev.kind == chatMessage && groupOf ev == some g && channelOf ev == some channel

/-- The seconds between two dates. -/
def apart (a b : Event) : ℕ := Nat.dist a.createdAt.secs.toNat b.createdAt.secs.toNat

/-- Two messages of one author in that channel, dated less than `wait` seconds apart. -/
def tooNear (g : PublicKey) (channel : String) (wait : UInt32) (a b : Event) : Bool :=
  saidIn g channel a && saidIn g channel b && a.id != b.id && a.pubkey == b.pubkey && apart a b < wait.toNat

theorem tooNear_comm : tooNear g channel wait a b = tooNear g channel wait b a := by
  rw [tooNear, tooNear, Bool.and_comm (saidIn g channel a), bne_comm, apart, Nat.dist_comm, ← apart]
  rw [show (a.pubkey == b.pubkey) = (b.pubkey == a.pubkey) from Bool.beq_comm]

theorem tooNear_self : tooNear g channel wait a a = false := by simp [tooNear]

/-- The seconds between messages in that channel, as the state in memory has it. -/
def Inner.waitIn (node : Inner) (g : PublicKey) (channel : String) : UInt32 :=
  (node.groups.state g).elim 0 fun s => s.slowmode channel

/-- Does `row` have the group's own text, and is it dated in the window as columns compare
dates? -/
def windowed (g : PublicKey) (wait : UInt32) (msg row : Event) : Bool :=
  let span := wait.toUInt64 - 1
  (groupTexts row).contains (Nostr.toHex g) &&
    column ⟨UInt64.ofNat (msg.createdAt.secs.toNat - span.toNat)⟩ ≤ column row.createdAt &&
    column row.createdAt ≤ column (Nostr.add msg.createdAt span)

end Near

section Check
variable [NostrEvents] {node : Inner} {g : PublicKey} {channel : String} {wait : UInt32} {msg row : Event}

/-- A message that passes the check has none too near it among the rows of its window. -/
theorem spaced_clear (waits : node.waitIn g channel = wait) (spaced : node.spaced msg = none)
    (held : row ∈ node.store.events) (found : windowed g wait msg row = true) : tooNear g channel wait msg row = false := by
  by_contra near
  simp only [Bool.not_eq_false, tooNear, saidIn, Bool.and_eq_true, beq_iff_eq, bne_iff_ne, decide_eq_true_eq] at near
  obtain ⟨⟨⟨⟨⟨⟨kind, own⟩, here⟩, ⟨kind', _⟩, here'⟩, differ⟩, author⟩, close⟩ := near
  have some_ : wait ≠ 0 := by
    rintro rfl
    exact Nat.not_lt_zero _ close
  simp only [windowed, Bool.and_eq_true, List.contains_iff_mem, decide_eq_true_eq] at found
  obtain ⟨⟨spelled, since⟩, until_⟩ := found
  have selected : row ∈ node.store.query (slowWindow msg g wait) := by
    refine (mem_query_inGroup rfl rfl).mpr ⟨held, ?_, spelled⟩
    simp [Filter.selects, kind', author, since, until_]
  have soon : (node.store.query (slowWindow msg g wait)).any
      (fun ev => ev.id != msg.id && channelOf ev == some channel) = true := by
    refine List.any_eq_true.mpr ⟨row, selected, ?_⟩
    simp [here', Ne.symm differ]
  unfold Inner.waitIn at waits
  rw [Inner.spaced, if_pos kind, Inner.tooSoon, own, here] at spaced
  simp only [Option.bind_eq_bind, Option.bind_some, waits, if_neg some_, soon, ↓reduceIte] at spaced
  cases spaced

end Check

section Run
variable [NostrEvents] [Devices] [Wraps] {h : Host} {i : ℕ} {t : Task} {g : PublicKey} {channel : String} {wait : UInt32}

/-- Every message too near `msg` that is held is in its window, and none is about to be stored. -/
def Host.seesNear (h : Host) (g : PublicKey) (channel : String) (wait : UInt32) (msg : Event) : Bool :=
  (h.shared.store.events.all fun row => !tooNear g channel wait msg row || windowed g wait msg row) &&
    h.tasks.all fun t => t.stores.all fun other => !tooNear g channel wait msg other

/-- Nothing but the node's own calls and looks, the slowmode of the channel is `wait`, and
each check of a message sees what is too near it. -/
def Host.spaces (g : PublicKey) (channel : String) (wait : UInt32) (h : Host) (act : Host.Act) : Bool :=
  h.shared.waitIn g channel == wait &&
    match act with
    | .write _ _ => false
    | .turn i => h.tasks[i]?.all fun
      | .call c => match c.phase with
        | .spacing => h.seesNear g channel wait c.event
        | _ => true
      | .look _ => true
    | _ => true

/-- Messages that are being stored, or were accepted and are held, keep their distance. -/
private structure Apart (g : PublicKey) (channel : String) (wait : UInt32) (h : Host) : Prop where
  plain : ∀ c, .call c ∈ h.tasks → c.event.kind = chatMessage → c.phase.isPlain = true
  clear : ∀ t ∈ h.tasks, ∀ msg, t.stores = some msg → ∀ row ∈ h.shared.store.events,
    tooNear g channel wait msg row = false
  single : ∀ (i j : ℕ) (t u : Task) (a b : Event), i ≠ j → h.tasks[i]? = some t → h.tasks[j]? = some u →
    t.stores = some a → u.stores = some b → tooNear g channel wait a b = false
  kept : ∀ t ∈ h.tasks, ∀ u ∈ h.tasks, ∀ a b, t.accepts = some a → u.accepts = some b →
    a ∈ h.shared.store.events → b ∈ h.shared.store.events → tooNear g channel wait a b = false

open Host

omit [Devices] [Wraps] in
private theorem message_of_near {a b : Event} (near : tooNear g channel wait a b = true) :
    a.kind = chatMessage ∧ b.kind = chatMessage := by
  simp only [tooNear, saidIn, Bool.and_eq_true, beq_iff_eq] at near
  exact ⟨near.1.1.1.1.1.1, near.1.1.1.2.1.1⟩

/-- After a step, a message that is held was held, or is the one stored. -/
private theorem mem_message {node : Inner} {row : Event} (message : row.kind = chatMessage)
    (later : row ∈ (t.next node).1.store.events) : row ∈ node.store.events ∨ t.stores = some row := by
  have aside : chatMessage ≠ deviceBinding ∧ chatMessage ≠ giftWrap := by decide
  exact Task.mem_next (message ▸ aside) later

private theorem Apart.sees (turned : Turned h i t) (meets : h.spaces g channel wait (.turn i) = true) {msg : Event}
    (stores : (t.next h.shared).2.stores = some msg) : h.shared.waitIn g channel = wait ∧
      h.shared.spaced msg = none ∧ h.seesNear g channel wait msg = true ∧ t.stores = none := by
  obtain ⟨⟨c, rfl, phase, rfl⟩, spaced⟩ := Task.stores_next stores
  simp only [Host.spaces, Bool.and_eq_true, beq_iff_eq, turned.here, Option.all_some, phase] at meets
  exact ⟨meets.1, spaced, meets.2, by simp [Task.stores, phase]⟩

private theorem Apart.turn (inv : Apart g channel wait h) (turned : Turned h i t)
    (meets : h.spaces g channel wait (.turn i) = true) : Apart g channel wait (h.step (.turn i)) := by
  have member := List.mem_of_getElem? turned.here
  -- What is accepted and held after the step was so before, or is the event that it stored.
  have either : ∀ u ∈ (h.step (.turn i)).tasks, ∀ a, u.accepts = some a → a.kind = chatMessage →
      a ∈ (h.step (.turn i)).shared.store.events →
        (a ∈ h.shared.store.events ∧ ∃ u ∈ h.tasks, u.accepts = some a) ∨ t.stores = some a := by
    intro u listed a accepts message held
    rw [turned.shared] at held
    rcases mem_message message held with before | stored
    · rcases turned.mem listed with rfl | ⟨j, _, there⟩
      · cases t with
        | call c =>
          have own : c.event = a := by
            simp only [Task.next, Task.accepts] at accepts
            split at accepts
            · exact Option.some.inj accepts
            · cases accepts
          have said : deletableKinds.contains c.event.kind = true := by
            rw [own, message]
            decide
          rcases (Call.said_next said (inv.plain c member (own ▸ message))).2 a accepts with earlier | stored
          · exact .inl ⟨before, _, member, earlier⟩
          · exact .inr stored
        | look l => cases accepts
      · exact .inl ⟨before, u, List.mem_of_getElem? there, accepts⟩
    · exact .inr stored
  refine ⟨fun c listed message => ?_, fun u listed msg stores row held => ?_, fun j k u v a b differ first second sa sb => ?_,
    fun u listed v listed' a b accepts accepts' held held' => ?_⟩
  · rcases turned.mem listed with after | ⟨j, _, there⟩
    · cases t with
      | call c' =>
        simp only [Task.next, Task.call.injEq] at after
        subst after
        have said : deletableKinds.contains c'.event.kind = true := by
          rw [show c'.event.kind = chatMessage from message]
          decide
        exact (Call.said_next said (inv.plain c' member message)).1
      | look l => cases after
    · exact inv.plain c (List.mem_of_getElem? there) message
  · by_contra near
    rw [Bool.not_eq_false] at near
    rw [turned.shared] at held
    rcases turned.mem listed with rfl | ⟨j, differ, there⟩
    · obtain ⟨waits, spaced, sees, idle⟩ := Apart.sees turned meets stores
      rcases mem_message (message_of_near near).2 held with before | stored
      · have found := List.all_eq_true.mp (Bool.and_eq_true_iff.mp sees).1 row before
        rw [near, Bool.not_true, Bool.false_or] at found
        rw [spaced_clear waits spaced before found] at near
        cases near
      · rw [idle] at stored
        cases stored
    · rcases mem_message (message_of_near near).2 held with before | stored
      · rw [inv.clear u (List.mem_of_getElem? there) msg stores row before] at near
        cases near
      · rw [inv.single j i u t msg row differ there turned.here stores stored] at near
        cases near
  · rw [turned.tasks, List.getElem?_set] at first second
    -- The one that has just passed the check saw none about to be stored.
    have lone : ∀ {k : ℕ} {v : Task} {a b : Event}, (t.next h.shared).2.stores = some a → h.tasks[k]? = some v →
        v.stores = some b → tooNear g channel wait a b = false := by
      intro k v a b stores there other
      obtain ⟨_, _, sees, _⟩ := Apart.sees turned meets stores
      have none_ := List.all_eq_true.mp (Bool.and_eq_true_iff.mp sees).2 v (List.mem_of_getElem? there)
      simpa [other] using none_
    split at first
    · rename_i ij
      subst ij
      rw [if_neg differ] at second
      split at first
      · cases first
        exact lone sa second sb
      · cases first
    · split at second
      · split at second
        · cases second
          rw [tooNear_comm]
          exact lone sb first sa
        · cases second
      · exact inv.single j k u v a b differ first second sa sb
  · by_contra near
    rw [Bool.not_eq_false] at near
    obtain ⟨message, message'⟩ := message_of_near near
    rcases either u listed a accepts message held with ⟨before, w, earlier, accepted⟩ | stored
    · rcases either v listed' b accepts' message' held' with ⟨before', w', earlier', accepted'⟩ | stored'
      · rw [inv.kept w earlier w' earlier' a b accepted accepted' before before'] at near
        cases near
      · rw [tooNear_comm, inv.clear t member b stored' a before] at near
        cases near
    · rcases either v listed' b accepts' message' held' with ⟨before', _⟩ | stored'
      · rw [inv.clear t member a stored b before'] at near
        cases near
      · obtain rfl := Option.some.inj (stored.symm.trans stored')
        rw [tooNear_self] at near
        cases near

omit [Devices] [Wraps] in
private theorem Apart.take (inv : Apart g channel wait h) {task : Task} (stores : task.stores = none)
    (accepts : task.accepts = none) (plain : ∀ c, task = .call c → c.phase.isPlain = true) :
    Apart g channel wait (h.take task) := by
  unfold Host.take
  split
  · exact inv
  · have added : ∀ {u : Task}, u ∈ h.tasks ++ [task] → u ∈ h.tasks ∨ u = task := by
      intro u listed
      simpa using listed
    have placed : ∀ {j : ℕ} {u : Task} {a : Event}, (h.tasks ++ [task])[j]? = some u → u.stores = some a → h.tasks[j]? = some u := by
      intro j u a there other
      rw [List.getElem?_append] at there
      split at there
      · exact there
      · rw [List.mem_singleton.mp (List.mem_of_getElem? there), stores] at other
        cases other
    refine ⟨fun c listed message => ?_, fun u listed msg stores' => ?_, fun j k u v a b differ first second sa sb => ?_,
      fun u listed v listed' a b accepts' accepts'' => ?_⟩
    · rcases added listed with old | new
      · exact inv.plain c old message
      · exact plain c new.symm
    · rcases added listed with old | rfl
      · exact inv.clear u old msg stores'
      · rw [stores] at stores'
        cases stores'
    · exact inv.single j k u v a b differ (placed first sa) (placed second sb) sa sb
    · rcases added listed with old | rfl
      · rcases added listed' with old' | rfl
        · exact inv.kept u old v old' a b accepts' accepts''
        · rw [accepts] at accepts''
          cases accepts''
      · rw [accepts] at accepts'
        cases accepts'

private theorem Apart.step (inv : Apart g channel wait h) (act : Host.Act)
    (meets : h.spaces g channel wait act = true) : Apart g channel wait (h.step act) := by
  cases act with
  | load =>
    have tasks : (h.step .load).tasks = h.tasks ∧ (h.step .load).shared.store = h.shared.store := by
      simp only [Host.step, Host.load]
      split <;> exact ⟨rfl, rfl⟩
    constructor
    all_goals simp only [tasks]
    · exact inv.plain
    · exact inv.clear
    · exact inv.single
    · exact inv.kept
  | enter ev source now => exact inv.take rfl rfl fun c same => by cases same; rfl
  | look => exact inv.take rfl rfl fun c same => by cases same
  | write ev now => simp [Host.spaces] at meets
  | turn i =>
    rcases turn_cases h i with same | ⟨t, turned⟩
    · rw [same]
      exact inv
    · exact inv.turn turned meets

end Run

/-- Two messages of one author in a channel that are accepted while its slowmode is `wait`,
and held, are that many seconds apart, if each check sees what is too near. -/
theorem spaced_run [NostrEvents] [Devices] [Wraps] {h : Host} {acts : List Host.Act} {g : PublicKey} {channel : String}
    {wait : UInt32} (idle : h.tasks = []) (met : Met (Host.spaces g channel wait) Host.step h acts) {a b : Event}
    (first : ∃ t ∈ (run Host.step h acts).tasks, t.accepts = some a)
    (second : ∃ t ∈ (run Host.step h acts).tasks, t.accepts = some b)
    (held : a ∈ (run Host.step h acts).shared.store.events) (held' : b ∈ (run Host.step h acts).shared.store.events)
    (said : saidIn g channel a = true) (said' : saidIn g channel b = true) (author : a.pubkey = b.pubkey)
    (differ : a ≠ b) : wait.toNat ≤ apart a b := by
  have initial : Apart g channel wait h := by
    constructor
    all_goals simp [idle]
  have kept := run_invariant (fun _ act meets (inv : Apart g channel wait _) => inv.step act meets) met initial
  obtain ⟨t, listed, accepts⟩ := first
  obtain ⟨u, listed', accepts'⟩ := second
  have clear := kept.kept t listed u listed' a b accepts accepts' held held'
  have ids : a.id ≠ b.id := fun same => differ ((run Host.step h acts).shared.store.eq_of_id held held' same)
  simpa [tooNear, said, said', author, ids] using clear

/-- The founder puts a minute between a person's messages in the club's channel. -/
def slowed : Event :=
  (Draft.editMetadata club [.channel { id := "general", name := "general", kind := .text, slowmode := 60 }]).sign founder
    300

/-- The founder's node, carrying the slowed club. -/
def slowHost : Host := .started (youngStore.insert slowed).1 [club] founder 600 ∅ []

/-- The guest's messages of 500 and of `later` come at once; each passes its checks before
either is stored. -/
def abreast (later : Timestamp) : List Host.Act :=
  [.enter (hello 500) .push 600, .enter (hello later) .push 600] ++ List.replicate 6 (.turn 0) ++
    List.replicate 7 (.turn 1) ++ [.turn 0]

theorem spaced_run_minute : 60 ≤ apart (hello 500) (hello 560) :=
  @spaced_run _ _ _ slowHost (abreast 560) club "general" 60 rfl (by decide +kernel) (hello 500) (hello 560)
    (by decide +kernel) (by decide +kernel) (by decide +kernel) (by decide +kernel) (by decide +kernel)
    (by decide +kernel) (by decide +kernel) (by decide +kernel)

/-- Ten seconds apart, both are accepted and held. -/
theorem abreast_both :
    (∀ k ≤ (abreast 510).length, (run Host.step slowHost ((abreast 510).take k)).shared.waitIn club "general" = 60) ∧
    slowHost.tasks = [] ∧ (∀ t ∈ (run Host.step slowHost (abreast 510)).tasks, t.accepts.isSome = true) ∧
    (∀ ev ∈ [hello 500, hello 510], saidIn club "general" ev = true ∧
      (∃ t ∈ (run Host.step slowHost (abreast 510)).tasks, t.accepts = some ev) ∧
      ev ∈ (run Host.step slowHost (abreast 510)).shared.store.events) ∧
    (hello 500).pubkey = (hello 510).pubkey ∧ apart (hello 500) (hello 510) = 10 := by
  decide +kernel

end HitEnter.Node
