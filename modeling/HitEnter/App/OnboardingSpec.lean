import HitEnter.App.OnboardingCalls
import HitEnter.Lib.Ascii

/-! What holds over every run of the app's onboarding, whatever fails on the way and whatever
becomes of the keychain: nobody runs a node before their key was copied, the key is shown only
until then, and an identity the device has is not replaced. And a backup brings the same person
back. -/

namespace HitEnter.App.Onboarding

open Wire Lib.Ascii Lib.Checks Lib.Dialogue Lib.Text Lib.Runs Persons

section Identity
variable [Persons] {faults : Faults} {device next : Device} {act : Faults × Act} {n : String}

/-! ### Runs -/

/-- What the app holds of its people: whoever it takes to be backed up, and whoever its node runs
as, is one of `H`. -/
structure Trusts (H : String → Prop) (device : Device) : Prop where
  filed : stage device.file = .ready → ∀ n, device.file.npub = some n → H n
  runs : ∀ person, device.running = some person → H (npub person)

private theorem Trusts.moved {H : String → Prop} (trusts : Trusts H device) (copied : ∀ n, Copied device n act → H n)
    (moved : Moved device act next) : Trusts H next := by
  cases moved with
  | stays file running =>
    refine ⟨file ▸ trusts.filed, fun person runs => ?_⟩
    rcases running with same | none_
    · exact trusts.runs person (same ▸ runs)
    · rw [none_] at runs
      cases runs
  | made _ _ file running =>
    refine ⟨fun ready => ?_, fun person runs => trusts.runs person (running ▸ runs)⟩
    rw [file] at ready
    cases ready
  | @brought person secret password _ asked read file running =>
    have own : Copied device (npub person) act := by
      obtain ⟨faults, _⟩ := act
      cases asked
      exact .brought read rfl
    refine ⟨fun _ n named => ?_, fun other runs => ?_⟩
    · rw [file] at named
      cases named
      exact copied _ own
    · rcases running with same | ⟨_, started⟩
      · exact trusts.runs other (same ▸ runs)
      · rw [started] at runs
        cases runs
        exact copied _ own
  | @backed person named own file running =>
    refine ⟨fun _ n named' => ?_, fun other runs => ?_⟩
    · rw [file] at named'
      obtain rfl := Option.some.inj (named.symm.trans named')
      exact copied _ own
    · rcases running with same | ⟨again, is, started⟩
      · exact trusts.runs other (same ▸ runs)
      · rw [started] at runs
        cases runs
        exact is ▸ copied _ own
  | opened named ready file running =>
    refine ⟨file ▸ trusts.filed, fun other runs => ?_⟩
    rw [running] at runs
    cases runs
    exact trusts.filed ready _ named

/-- In the run the key of `n` was copied. -/
def CopiedIn (device : Device) (acts : List (Faults × Act)) (n : String) : Prop :=
  ∃ before act after, acts = before ++ act :: after ∧ Copied (run step device before) n act

/-- Once someone is backed up, no later act takes them back to the backup step. -/
private theorem done_moved (done : device.file.npub = some n → device.file.backedUp = true) (moved : Moved device act next)
    (apart : ∀ drawn, act.2 = .create drawn → npub drawn ≠ n) : next.file.npub = some n → next.file.backedUp = true := by
  intro named
  cases moved with
  | stays file => exact file ▸ done (file ▸ named)
  | made _ asked file =>
    rw [file] at named
    exact absurd (Option.some.inj named) (apart _ asked)
  | brought _ _ _ file => rw [file]
  | backed _ _ file => rw [file]
  | opened _ _ file => exact file ▸ done (file ▸ named)

private theorem done_run (done : device.file.npub = some n → device.file.backedUp = true) {acts : List (Faults × Act)}
    (apart : ∀ act ∈ acts, ∀ drawn, act.2 = .create drawn → npub drawn ≠ n) :
    (run step device acts).file.npub = some n → (run step device acts).file.backedUp = true :=
  List.foldlRecOn (motive := fun now => now.file.npub = some n → now.file.backedUp = true) acts step done
    fun now before act listed => done_moved before (step_moves now act) (apart act listed)

/-- The key of someone who was once backed up is not shown again, whatever else is done, unless a
new identity is drawn with that very key. -/
theorem revealed_uncopied (ready : stage device.file = .ready) (named : device.file.npub = some n) {acts : List (Faults × Act)}
    (apart : ∀ act ∈ acts, ∀ drawn, act.2 = .create drawn → npub drawn ≠ n) {key : String} {last : Device}
    (shown : perform faults .reveal (run step device acts) = .ok key last) : ∃ person, key = nsec person ∧ npub person ≠ n := by
  set now := run step device acts
  have reveals : Leaves (· = now) (perform faults .reveal) (fun key at_ => at_ = now ∧ stage now.file = .backup ∧
      ∃ person, now.file.npub = some (npub person) ∧ key = nsec person) (· = now) :=
    leaves_opened leaves_revealKey fun at_ here => here
  obtain ⟨_, pending, person, is, same⟩ := (reveals now rfl).1 key last shown
  refine ⟨person, same, fun again => ?_⟩
  rw [again] at is
  have first : device.file.npub = some n → device.file.backedUp = true := by
    intro _
    cases flag : device.file.backedUp with
    | true => rfl
    | false => simp [stage, named, flag] at ready
  have done := done_run first apart is
  simp [stage, is, now, done] at pending

/-- Is the key of `n` here whenever another identity is asked for? -/
def holds (n : String) (device : Device) (act : Faults × Act) : Bool :=
  match act.2 with
  | .create _ | .import_ _ _ => (device.secrets[n]?).isSome
  | _ => true

/-- Whose device it is: the one its identity names, and as whom its node runs. -/
structure BelongsTo (n : String) (device : Device) : Prop where
  named : device.file.npub = some n
  runs : ∀ person, device.running = some person → npub person = n

/-- A device stays whose it is, over any run in which the keychain holds the key whenever another
identity is asked for. -/
theorem identity_stays (own : BelongsTo n device) {acts : List (Faults × Act)} (held : Met (holds n) step device acts) :
    BelongsTo n (run step device acts) := by
  have keeps : ∀ now act, holds n now act = true → BelongsTo n now → BelongsTo n (step now act) := by
    intro now act holds own
    have free (vacant : Vacant now) (asks : (now.secrets[n]?).isSome = true) : False := by
      rw [vacant n own.named] at asks
      cases asks
    cases step_moves now act with
    | stays file running =>
      refine ⟨file ▸ own.named, fun person runs => ?_⟩
      rcases running with same | none_
      · exact own.runs person (same ▸ runs)
      · rw [none_] at runs
        cases runs
    | made vacant asked =>
      simp only [Onboarding.holds, asked] at holds
      exact (free vacant holds).elim
    | brought vacant asked =>
      simp only [Onboarding.holds, asked] at holds
      exact (free vacant holds).elim
    | @backed person named copied file running =>
      have is : npub person = n := Option.some.inj (named.symm.trans own.named)
      refine ⟨by rw [file]; exact own.named, fun other runs => ?_⟩
      rcases running with same | ⟨again, same, started⟩
      · exact own.runs other (same ▸ runs)
      · rw [started] at runs
        cases runs
        exact same.trans is
    | opened named ready file running =>
      refine ⟨file ▸ own.named, fun other runs => ?_⟩
      rw [running] at runs
      cases runs
      exact Option.some.inj (named.symm.trans own.named)
  exact run_invariant keeps held own

/-- Whoever is named has their key in the keychain, and a node runs as nobody else. -/
structure Sound (device : Device) : Prop where
  kept : Kept device
  runs : ∀ person, device.running = some person → device.file.npub = some (npub person)

/-- Where the key of whoever is named is there, nobody else is named. -/
private theorem named_moved (kept : Kept device) (named : device.file.npub = some n) (moved : Moved device act next) :
    next.file.npub = some n := by
  have full : ¬ Vacant device := by
    intro vacant
    obtain ⟨person, _, there⟩ := kept n named
    rw [vacant n named] at there
    cases there
  cases moved with
  | stays file => exact file ▸ named
  | made vacant => exact absurd vacant full
  | brought vacant => exact absurd vacant full
  | backed _ _ file =>
    rw [file]
    exact named
  | opened _ _ file => exact file ▸ named

private theorem Sound.moved (sound : Sound device) (kept : Kept next) (moved : Moved device act next) : Sound next := by
  refine ⟨kept, fun person runs => ?_⟩
  -- whoever the node ran as before is named still
  have still (same : next.running = device.running) : next.file.npub = some (npub person) :=
    named_moved sound.kept (sound.runs person (same ▸ runs)) moved
  cases moved with
  | stays file running =>
    rcases running with same | none_
    · exact still same
    · rw [none_] at runs
      cases runs
  | made _ _ _ running => exact still running
  | brought _ _ _ file running =>
    rcases running with same | ⟨_, started⟩
    · exact still same
    · rw [started] at runs
      cases runs
      rw [file]
  | backed named _ file running =>
    rcases running with same | ⟨again, is, started⟩
    · exact still same
    · rw [started] at runs
      cases runs
      rw [file, is]
      exact named
  | opened named _ file running =>
    rw [running] at runs
    cases runs
    rw [file]
    exact named

private theorem sound_run (sound : Sound device) {acts : List (Faults × Act)} (own : ∀ act ∈ acts, inside act.2 = true) :
    Sound (run step device acts) :=
  List.foldlRecOn (motive := Sound) acts step sound fun now before act listed =>
    before.moved (step_kept before.kept (own act listed)) (step_moves now act)

private theorem named_run (sound : Sound device) (named : device.file.npub = some n) {acts : List (Faults × Act)}
    (own : ∀ act ∈ acts, inside act.2 = true) : (run step device acts).file.npub = some n := by
  have both : Sound (run step device acts) ∧ (run step device acts).file.npub = some n := by
    refine List.foldlRecOn (motive := fun now => Sound now ∧ now.file.npub = some n) acts step ⟨sound, named⟩ ?_
    rintro now ⟨before, is⟩ act listed
    have moved := step_moves now act
    exact ⟨before.moved (step_kept before.kept (own act listed)) moved, named_moved before.kept is moved⟩
  exact both.2

/-- Over any run of the app on a new device, cut off wherever: whoever is named has their key in the keychain,
a node runs as nobody else, and whoever was named once still is. -/
theorem identity_kept (unnamed : device.file.npub = none) (idle : device.running = none) {acts : List (Faults × Act)}
    (own : ∀ act ∈ acts, inside act.2 = true) :
    Sound (run step device acts) ∧ ∀ before after, acts = before ++ after → ∀ n,
      (run step device before).file.npub = some n → (run step device acts).file.npub = some n := by
  have new : Sound device := by
    refine ⟨fun n named => ?_, fun person runs => ?_⟩
    · rw [unnamed] at named
      cases named
    · rw [idle] at runs
      cases runs
  refine ⟨sound_run new own, ?_⟩
  rintro before after rfl n named
  have first := sound_run new fun act listed => own act (List.mem_append_left _ listed)
  unfold run at named first ⊢
  rw [List.foldl_append]
  exact named_run first named fun act listed => own act (List.mem_append_right _ listed)

private theorem requireNew_vacant (vacant : Vacant device) : requireNew (fun _ => false) device = .ok () device := by
  have absent : person (fun _ => false) .load device = .ok none device := by
    unfold person
    refine bind_eq_ok.mpr ⟨device, device, rfl, ?_⟩
    cases named : device.file.npub with
    | none => rfl
    | some n =>
      refine bind_eq_ok.mpr ⟨(), device, rfl, bind_eq_ok.mpr ⟨device, device, rfl, ?_⟩⟩
      rw [vacant n named]
      rfl
  unfold requireNew
  refine bind_eq_ok.mpr ⟨device, device, rfl, bind_eq_ok.mpr ⟨none, device, absent, ?_⟩⟩
  simp
  rfl

private theorem perform_opened (opened : device.opened = true) {call : Call String} :
    (do
      if !(← get).opened then throw .io
      call : Call String) device = call device := by
  change (if (!device.opened) = true then (throw .io : Call String) else call) device = _
  rw [opened]
  rfl

/-- Where the key is lost while a node runs, a new identity leaves the node with the one before. -/
theorem created_forgotten {before drawn : Person} (opened : device.opened = true) (running : device.running = some before)
    (named : device.file.npub = some n) (gone : device.secrets[n]? = none) :
    (step device (fun _ => false, .create drawn)).file.npub = some (npub drawn) ∧
      (step device (fun _ => false, .create drawn)).running = some before := by
  have vacant : Vacant device := by
    intro m named'
    rw [named] at named'
    exact Option.some.inj named' ▸ gone
  have made : createIdentity (fun _ => false) drawn device = .ok (npub drawn) { device with
      secrets := device.secrets.insert (npub drawn) (nsec drawn)
      file := { device.file with npub := some (npub drawn), backedUp := false } } :=
    bind_eq_ok.mpr ⟨(), device, requireNew_vacant vacant, rfl⟩
  have performed : perform (fun _ => false) (.create drawn) device = createIdentity (fun _ => false) drawn device :=
    perform_opened opened
  unfold step
  rw [performed, made]
  exact ⟨rfl, running⟩

/-! ### A backup brought back -/

/-- What the texts of an encrypted key are: one word, marked as such, and what was encrypted is what is
decrypted under the same password. -/
structure Restoring : Prop where
  plain : ∀ {person : Person} {password text : String} {salt : ℕ}, encrypt person password salt = some text →
    ∀ c ∈ text.toList, isWhitespace c = false
  marked : ∀ {person : Person} {password text : String} {salt : ℕ}, encrypt person password salt = some text →
    text.startsWith "ncryptsec" = true
  restores : ∀ {person : Person} {password text : String} {salt : ℕ}, encrypt person password salt = some text →
    ∃ encrypted, fromBech32 text = some encrypted ∧ decrypt encrypted password = some person

omit [Persons] in
private theorem trim_line {text : String} (plain : ∀ c ∈ text.toList, isWhitespace c = false) : trim (text ++ "\n") = text := by
  have ends : text ++ "\n" = .ofList (text.toList ++ ['\n']) := by
    apply String.toList_injective
    simp
  have line : isWhitespace '\n' = true := by decide
  unfold trim
  rw [ends, String.toList_ofList]
  cases read : text.toList with
  | nil =>
    obtain rfl : text = "" := String.toList_injective (by simpa using read)
    decide
  | cons c rest =>
    have first : isWhitespace c = false := plain c (by simp [read])
    have last : ((c :: rest).reverse).dropWhile isWhitespace = (c :: rest).reverse := by
      rw [List.dropWhile_eq_self_iff]
      intro some_
      have black := plain ((c :: rest).reverse[0]) (by rw [read]; exact List.mem_reverse.mp (List.getElem_mem some_))
      rw [black]
      exact Bool.false_ne_true
    rw [List.cons_append, List.dropWhile_cons_of_neg (by simp [first]), ← List.cons_append, List.reverse_append, List.reverse_singleton,
      List.singleton_append, List.dropWhile_cons_of_pos line, last, List.reverse_reverse, ← read, String.ofList_toList]

private theorem readSecret_line (restoring : Restoring) {person : Person} {password text : String} {salt : ℕ}
    (encrypted : encrypt person password salt = some text) : readSecret (text ++ "\n") (some password) = .ok person := by
  obtain ⟨box, read, opens⟩ := restoring.restores encrypted
  have line := trim_line (restoring.plain encrypted)
  have bare := trim_of_plain (restoring.plain encrypted)
  have found : fromNcryptsec text password = .ok person := by
    rw [fromNcryptsec, bare, read]
    change orRefuse (decrypt box password) KeyError.wrongPassword = _
    rw [opens]
    rfl
  unfold readSecret
  rw [line, if_pos (restoring.marked encrypted)]
  change (fromNcryptsec text password).mapError AppError.key = _
  rw [found]
  rfl

private theorem backedUp_files {path line : String} :
    Leaves (fun now => now.files[path]? = some line) (backedUp faults) (fun _ now => now.files[path]? = some line) (fun _ => True) := by
  unfold backedUp
  apply Leaves.get_bind
  intro seen
  have files : Leaves (fun now => now.files[path]? = some line ∧ seen = now) (saveFile faults { seen.file with backedUp := true })
      (fun _ now => now.files[path]? = some line) (fun _ => True) :=
    leaves_saveFile (fun _ _ => trivial) fun now here => here.1
  apply files.bind
  intro _
  apply (leaves_person .loadAgain fun _ _ => trivial).bind
  intro found
  apply (leaves_orLost found fun _ _ => trivial).bind
  intro again
  exact leaves_start (fun _ _ => trivial) (fun now here _ => here.1.1) fun now here _ => here.1.1

/-- What a backup is that was made. -/
private theorem backUp_files (path password : String) (salt : ℕ) : Leaves (· = device) (backupToFile faults path password salt)
    (fun _ now => ∃ person text, device.file.npub = some (npub person) ∧ encrypt person password salt = some text ∧
      now.files[path]? = some (text ++ "\n"))
    (fun _ => True) := by
  apply leaves_backUp trivial
  rintro person text _ named _ encrypted _ rfl
  have filed : (device.files.insert path (text ++ "\n"))[path]? = some (text ++ "\n") := Std.ExtTreeMap.getElem?_insert_self
  refine ⟨?_, person, text, named, encrypted, filed⟩
  rintro _ rfl
  have keeps : Leaves (fun now => now.files[path]? = some (text ++ "\n")) (backedUp faults)
      (fun _ now => now.files[path]? = some (text ++ "\n")) (fun _ => True) := backedUp_files
  obtain ⟨well, failed⟩ := keeps { device with files := device.files.insert path (text ++ "\n") } filed
  exact ⟨fun a t ends => ⟨person, text, named, encrypted, well a t ends⟩, fun e t ends => trivial⟩

/-- What a backup wrote brings the same person back, on any device that is open and has no identity. -/
theorem backup_restores (restoring : Restoring) {path password shown : String} {salt : ℕ} {last : Device}
    (made : perform faults (.backUp path password salt) device = .ok shown last) :
    ∃ person text, device.file.npub = some (npub person) ∧ last.files[path]? = some text ∧
      ∀ other : Device, other.opened = true → Vacant other → ∃ after,
        perform (fun _ => false) (.import_ text (some password)) other = .ok (npub person) after ∧
          after.file.npub = some (npub person) ∧ stage after.file = .ready ∧ Filed after (npub person) ∧
            (other.running = none → after.running = some person) := by
  have writes : Leaves (· = device) (perform faults (.backUp path password salt))
      (fun _ now => ∃ person text, device.file.npub = some (npub person) ∧ encrypt person password salt = some text ∧
        now.files[path]? = some (text ++ "\n"))
      (fun _ => True) := by
    apply leaves_opened _ fun _ _ => trivial
    exact (backUp_files path password salt).bind fun _ => .pure fun _ here => here
  obtain ⟨person, text, named, encrypted, filed⟩ := (writes device rfl).1 shown last made
  refine ⟨person, text ++ "\n", named, filed, fun other opened vacant => ?_⟩
  let saved : Device := { other with
    secrets := other.secrets.insert (npub person) (nsec person)
    file := { other.file with npub := some (npub person), backedUp := true } }
  have there : Filed saved (npub person) := ⟨person, rfl, Std.ExtTreeMap.getElem?_insert_self⟩
  have read : (ofExcept (readSecret (text ++ "\n") (some password)) : Call Person) other = .ok person other := by
    rw [readSecret_line restoring encrypted]
    rfl
  have performed : perform (fun _ => false) (.import_ (text ++ "\n") (some password)) other =
      importIdentity (fun _ => false) (text ++ "\n") (some password) other := perform_opened opened
  rw [performed]
  cases runs : other.running with
  | none =>
    have starts : start (fun _ => false) person saved = .ok () { saved with running := some person } := by
      unfold start
      refine bind_eq_ok.mpr ⟨saved, saved, rfl, ?_⟩
      have idle : saved.running.isSome = false := by simp [saved, runs]
      simp [idle]
      rfl
    refine ⟨{ saved with running := some person }, ?_, rfl, rfl, there, fun _ => rfl⟩
    exact bind_eq_ok.mpr ⟨(), other, requireNew_vacant vacant, bind_eq_ok.mpr ⟨person, other, read,
      bind_eq_ok.mpr ⟨(), _, rfl, bind_eq_ok.mpr ⟨_, _, rfl, bind_eq_ok.mpr ⟨(), saved, rfl,
        bind_eq_ok.mpr ⟨(), _, starts, rfl⟩⟩⟩⟩⟩⟩
  | some already =>
    have starts : start (fun _ => false) person saved = .ok () saved := by
      unfold start
      refine bind_eq_ok.mpr ⟨saved, saved, rfl, ?_⟩
      have busy : saved.running.isSome = true := by simp [saved, runs]
      simp [busy]
      rfl
    refine ⟨saved, ?_, rfl, rfl, there, fun idle => ?_⟩
    · exact bind_eq_ok.mpr ⟨(), other, requireNew_vacant vacant, bind_eq_ok.mpr ⟨person, other, read,
        bind_eq_ok.mpr ⟨(), _, rfl, bind_eq_ok.mpr ⟨_, _, rfl, bind_eq_ok.mpr ⟨(), saved, rfl,
          bind_eq_ok.mpr ⟨(), _, starts, rfl⟩⟩⟩⟩⟩⟩
    · cases idle

end Identity

/-! ### A first run -/

def afterMark (mark : String) (text : String) : Option (List Char) :=
  if mark.toList.isPrefixOf text.toList then some (text.toList.drop mark.toList.length) else none

abbrev plainPersons : Persons where
  Person := List Char
  Encrypted := List Char
  npub person := .ofList ("npub1".toList ++ person)
  nsec person := .ofList ("nsec1".toList ++ person)
  parse := afterMark "nsec1"
  fromBech32 := afterMark "ncryptsec1"
  decrypt encrypted password := afterMark password (.ofList encrypted)
  encrypt person password _ :=
    let rest := password.toList ++ person
    if rest.any isWhitespace then none else some (.ofList ("ncryptsec1".toList ++ rest))

attribute [local instance] plainPersons

def alice : plainPersons.Person := "qqqqalice".toList

def bob : plainPersons.Person := "qqqqqqbob".toList

def atEase : Faults := fun _ => false

/-- The app is opened, an identity is made, and the end of its key is typed. -/
def firstRun : List (Faults × Act) := [(atEase, .open_), (atEase, .create alice), (atEase, .confirm " qqqalice ")]

private theorem firstRun_runs : (run step {} firstRun).running.map npub = some (npub alice) := by decide +kernel

/-- Another identity is asked for, and the key of the one there is. -/
def askedAgain : List (Faults × Act) :=
  [(atEase, .import_ "nsec1qqqqqqbob" none), (atEase, .shutdown), (atEase, .open_), (atEase, .reveal)]

/-- The key is lost, and another identity made. -/
def lostSince : List (Faults × Act) := [(atEase, .entry (npub alice) none), (atEase, .create bob)]

/-- What is shown, where a call ends well. -/
def shownBy : EStateM.Result AppError Device String → Option String
  | .ok shown _ => some shown
  | .error _ _ => none

private theorem ok_of_shownBy {result : EStateM.Result AppError Device String} {shown : String} (is : shownBy result = some shown) :
    result = .ok shown (stateOf result) := by
  cases result with
  | ok other last =>
    cases is
    rfl
  | error _ _ => cases is

theorem revealed_uncopied_bob : ∃ person, nsec bob = nsec person ∧ npub person ≠ npub alice := by
  have shown : shownBy (perform atEase .reveal (run step (run step {} firstRun) lostSince)) = some (nsec bob) := by decide +kernel
  have apart : ∀ act ∈ lostSince, ∀ drawn, act.2 = .create drawn → npub drawn ≠ npub alice := by
    intro act listed drawn asked
    simp only [lostSince, List.mem_cons, List.not_mem_nil, or_false] at listed
    rcases listed with rfl | rfl
    · cases asked
    · cases asked
      decide
  exact revealed_uncopied (by decide +kernel) (by decide +kernel) apart (ok_of_shownBy shown)

theorem identity_stays_alice : BelongsTo (npub alice) (run step (run step {} firstRun) askedAgain) := by
  refine identity_stays ⟨by decide +kernel, fun person started => ?_⟩ (by decide +kernel)
  have runs := firstRun_runs
  rw [started] at runs
  exact Option.some.inj runs

theorem identity_kept_alice : Sound (run step {} (firstRun ++ askedAgain)) ∧
    (run step {} (firstRun ++ askedAgain)).file.npub = some (npub alice) := by
  have own : ∀ act ∈ firstRun ++ askedAgain, inside act.2 = true := by decide
  have new : ({} : Device).file.npub = none := rfl
  obtain ⟨sound, still⟩ := identity_kept new rfl own
  exact ⟨sound, still firstRun askedAgain rfl (npub alice) (by decide +kernel)⟩

private theorem plain_restoring : Restoring := by
  have made {person : List Char} {password text : String} {salt : ℕ} (encrypted : encrypt person password salt = some text) :
      (∀ c ∈ password.toList ++ person, isWhitespace c = false) ∧ text = .ofList ("ncryptsec1".toList ++ (password.toList ++ person)) := by
    simp only [encrypt] at encrypted
    split at encrypted
    · cases encrypted
    · rename_i black
      cases encrypted
      exact ⟨by simpa [or_imp, forall_and] using black, rfl⟩
  constructor
  · intro person password text salt encrypted
    obtain ⟨black, rfl⟩ := made encrypted
    intro c listed
    rw [String.toList_ofList] at listed
    rcases List.mem_append.mp listed with mark | rest
    · have marks : ∀ c ∈ "ncryptsec1".toList, isWhitespace c = false := by simp [isWhitespace]
      exact marks c mark
    · exact black c rest
  · intro person password text salt encrypted
    obtain ⟨_, rfl⟩ := made encrypted
    rw [String.startsWith_string_iff]
    simp
  · intro person password text salt encrypted
    obtain ⟨_, rfl⟩ := made encrypted
    have unmarked (mark : String) (rest : List Char) : afterMark mark (.ofList (mark.toList ++ rest)) = some rest := by
      simp [afterMark]
    exact ⟨password.toList ++ person, unmarked "ncryptsec1" _, unmarked password person⟩

/-- An identity is made, and not backed up yet. -/
def newcomer : Device := run step {} [(atEase, .open_), (atEase, .create alice)]

theorem backup_restores_alice : ∃ person text, newcomer.file.npub = some (npub person) ∧
    (step newcomer (atEase, .backUp "me.ncryptsec" "correcthorse" 0)).files["me.ncryptsec"]? = some text ∧
      ∃ after : Device, perform atEase (.import_ text (some "correcthorse")) { opened := true } = .ok (npub person) after ∧
        after.running = some person := by
  have shown : shownBy (perform atEase (.backUp "me.ncryptsec" "correcthorse" 0) newcomer) = some "" := by decide +kernel
  obtain ⟨person, text, named, filed, back⟩ := backup_restores plain_restoring (ok_of_shownBy shown)
  have vacant : Vacant ({ opened := true } : Device) := by
    intro n named
    cases named
  obtain ⟨after, brought, _, _, _, runs⟩ := back { opened := true } rfl vacant
  exact ⟨person, text, named, filed, after, brought, runs rfl⟩

end HitEnter.App.Onboarding
