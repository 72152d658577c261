import HitEnter.App.Onboarding

/-! What one call of the app's onboarding does to the identity and to the node, and what it leaves in
the keychain, wherever it is cut off. -/

namespace HitEnter.App.Onboarding

open Wire Lib.Checks Lib.Dialogue Lib.Text Persons

section Identity
variable [Persons] {faults : Faults} {device next : Device} {act : Faults × Act} {n : String}

/-! ### What a call does -/

/-- There is no identity here, or its key is lost. -/
def Vacant (device : Device) : Prop := ∀ n, device.file.npub = some n → device.secrets[n]? = none

/-- An act by which the key of `n` is known to be kept elsewhere: it was brought along, its end was
typed, or it went to a file under a password. -/
inductive Copied (device : Device) (n : String) : Faults × Act → Prop where
  | brought {faults : Faults} {secret : String} {password : Option String} {person : Person}
      (read : readSecret secret password = .ok person) (same : npub person = n) :
      Copied device n (faults, .import_ secret password)
  | typed {faults : Faults} {tail : String} {person : Person} (named : device.file.npub = some n)
      (same : npub person = n) (typed : trim tail = lastChars (nsec person)) :
      Copied device n (faults, .confirm tail)
  | filed {faults : Faults} {path password text : String} {salt : ℕ} {person : Person} (named : device.file.npub = some n)
      (same : npub person = n) (long : minPassword ≤ password.toList.length) (encrypted : encrypt person password salt = some text)
      (written : faults .writeBackup = false) :
      Copied device n (faults, .backUp path password salt)

/-- All that an act does to the identity of a device and to its node. -/
inductive Moved (device : Device) (act : Faults × Act) (next : Device) : Prop where
  | stays (file : next.file = device.file) (running : next.running = device.running ∨ next.running = none)
  | made {drawn : Person} (vacant : Vacant device) (asked : act.2 = .create drawn)
      (file : next.file = { device.file with npub := some (npub drawn), backedUp := false })
      (running : next.running = device.running)
  | brought {person : Person} {secret : String} {password : Option String} (vacant : Vacant device)
      (asked : act.2 = .import_ secret password) (read : readSecret secret password = .ok person)
      (file : next.file = { device.file with npub := some (npub person), backedUp := true })
      (running : next.running = device.running ∨ device.running = none ∧ next.running = some person)
  | backed {person : Person} (named : device.file.npub = some (npub person)) (copied : Copied device (npub person) act)
      (file : next.file = { device.file with backedUp := true })
      (running : next.running = device.running ∨ ∃ same, npub same = npub person ∧ next.running = some same)
  | opened {person : Person} (named : device.file.npub = some (npub person)) (ready : stage device.file = .ready)
      (file : next.file = device.file) (running : next.running = some person)

section Parts
variable {P E : Device → Prop}

private theorem leaves_reach (access : Access) (error : AppError) (left : ∀ device, P device → E device) :
    Leaves P (reach faults access error) (fun _ device => P device ∧ faults access = false) E := by
  unfold reach
  split
  · exact .throw left
  · rename_i fine
    exact .pure fun device here => ⟨here, (Bool.not_eq_true _).mp fine⟩

private theorem leaves_ofExcept {α : Type} (made : Except AppError α) (left : ∀ device, P device → E device) :
    Leaves P (ofExcept made : Call α) (fun a device => P device ∧ made = .ok a) E := by
  cases made with
  | ok a => exact .pure fun device here => ⟨here, rfl⟩
  | error error => exact .throw left

theorem leaves_orLost (found : Option Person) (left : ∀ device, P device → E device) :
    Leaves P (orLost found) (fun person device => P device ∧ found = some person) E := by
  cases found with
  | none => exact .throw left
  | some person => exact .pure fun device here => ⟨here, rfl⟩

private theorem leaves_loadPerson (access : Access) (n : String) (left : ∀ device, P device → E device) :
    Leaves P (loadPerson faults access n)
      (fun found device => P device ∧ (found = none → device.secrets[n]? = none) ∧ ∀ person, found = some person → npub person = n) E := by
  unfold loadPerson
  apply (leaves_reach access _ left).bind
  intro _
  apply Leaves.get_bind
  intro now
  split
  · rename_i absent
    refine .pure fun device here => ⟨here.1.1, fun _ => here.2 ▸ absent, fun person found => ?_⟩
    cases found
  · split
    · exact .throw fun device here => left device here.1.1
    · split
      · rename_i same
        refine .pure fun device here => ⟨here.1.1, fun none_ => ?_, fun person found => ?_⟩
        · cases none_
        · cases found
          exact same
      · exact .throw fun device here => left device here.1.1

/-- Whoever is found is the one that is named; nobody is only where there is no identity, or its
key is lost. -/
theorem leaves_person (access : Access) (left : ∀ device, P device → E device) :
    Leaves P (person faults access)
      (fun found device => P device ∧ (found = none → Vacant device) ∧ ∀ person, found = some person → device.file.npub = some (npub person))
      E := by
  unfold person
  apply Leaves.get_bind
  intro now
  split
  · rename_i unnamed
    refine .pure fun device here => ⟨here.1, fun _ n named => ?_, fun person found => ?_⟩
    · rw [← here.2, unnamed] at named
      cases named
    · cases found
  · rename_i n named
    apply (leaves_loadPerson access n fun device here => left device here.1).weaken
    rintro found device ⟨⟨here, rfl⟩, absent, is⟩
    refine ⟨here, fun none_ m named' => ?_, fun person some_ => ?_⟩
    · rw [named] at named'
      cases named'
      exact absent none_
    · rw [is person some_, named]

private theorem leaves_requireNew (left : ∀ device, P device → E device) :
    Leaves P (requireNew faults) (fun _ device => P device ∧ Vacant device) E := by
  unfold requireNew
  apply Leaves.get_bind
  intro now
  apply (leaves_person .load fun device here => left device here.1).bind
  intro found
  split
  · exact .throw fun device here => left device here.1.1
  · rename_i free
    refine .pure fun device here => ⟨here.1.1, fun n named => ?_⟩
    obtain ⟨⟨_, rfl⟩, absent, _⟩ := here
    cases found with
    | none => exact absent rfl n named
    | some person => simp [named] at free

private theorem leaves_savePerson (person : Person) {Q : Device → Prop} (left : ∀ device, P device → E device)
    (saved : ∀ device, P device → Q { device with secrets := device.secrets.insert (npub person) (nsec person) }) :
    Leaves P (savePerson faults person) (fun _ => Q) E :=
  (leaves_reach _ _ left).bind fun _ => .modify fun device here => saved device here.1

theorem leaves_saveFile {file : AppFile} {Q : Device → Prop} (left : ∀ device, P device → E device)
    (saved : ∀ device, P device → Q { device with file := file }) : Leaves P (saveFile faults file) (fun _ => Q) E :=
  (leaves_reach _ _ left).bind fun _ => .modify fun device here => saved device here.1

theorem leaves_start {person : Person} {Q : Device → Prop} (left : ∀ device, P device → E device)
    (runs : ∀ device, P device → device.running.isSome = true → Q device)
    (started : ∀ device, P device → device.running = none → Q { device with running := some person }) :
    Leaves P (start faults person) (fun _ => Q) E := by
  unfold start
  apply Leaves.get_bind
  intro now
  split
  · rename_i already
    exact .pure fun device here => runs device here.1 (here.2 ▸ already)
  · rename_i idle
    apply (leaves_reach _ _ fun device here => left device here.1).bind
    intro _
    refine .modify fun device here => started device here.1.1 ?_
    rw [← here.1.2]
    simpa using idle

end Parts

/-! ### The calls -/

/-- The identity and the node are as they were. -/
structure Untouched (device now : Device) : Prop where
  file : now.file = device.file
  running : now.running = device.running

private theorem untouched (device : Device) : ∀ now, now = device → Untouched device now := by
  rintro _ rfl
  exact ⟨rfl, rfl⟩

private theorem Untouched.stays {now : Device} (same : Untouched device now) : Moved device act now :=
  .stays same.file (.inl same.running)

private theorem create_moves (drawn : Person) : Leaves (· = device) (createIdentity faults drawn)
    (fun _ => Moved device (faults, .create drawn)) (Moved device (faults, .create drawn)) := by
  unfold createIdentity
  apply (leaves_requireNew fun now here => (untouched device now here).stays).bind
  intro _
  have saves : Leaves (fun now => now = device ∧ Vacant now) (savePerson faults drawn)
      (fun _ now => Untouched device now ∧ Vacant device) (Moved device (faults, .create drawn)) := by
    apply leaves_savePerson
    · exact fun now here => (untouched device now here.1).stays
    · rintro _ ⟨rfl, vacant⟩
      exact ⟨⟨rfl, rfl⟩, vacant⟩
  apply saves.bind
  intro _
  apply Leaves.get_bind
  intro seen
  apply (leaves_saveFile (fun now here => here.1.1.stays) fun now here => ?_).bind fun _ => .pure fun now moved => moved
  obtain ⟨⟨same, vacant⟩, rfl⟩ := here
  exact .made vacant rfl (by rw [same.file]) same.running

private theorem import_moves (secret : String) (password : Option String) :
    Leaves (· = device) (importIdentity faults secret password) (fun _ => Moved device (faults, .import_ secret password))
      (Moved device (faults, .import_ secret password)) := by
  unfold importIdentity
  apply (leaves_requireNew fun now here => (untouched device now here).stays).bind
  intro _
  apply (leaves_ofExcept (readSecret secret password) fun now here => (untouched device now here.1).stays).bind
  intro person
  have saves : Leaves (fun now => (now = device ∧ Vacant now) ∧ readSecret secret password = .ok person) (savePerson faults person)
      (fun _ now => Untouched device now ∧ Vacant device ∧ readSecret secret password = .ok person)
      (Moved device (faults, .import_ secret password)) := by
    apply leaves_savePerson
    · exact fun now here => (untouched device now here.1.1).stays
    · rintro _ ⟨⟨rfl, vacant⟩, read⟩
      exact ⟨⟨rfl, rfl⟩, vacant, read⟩
  apply saves.bind
  intro _
  apply Leaves.get_bind
  intro seen
  have files : Leaves (fun now => (Untouched device now ∧ Vacant device ∧ readSecret secret password = .ok person) ∧
      seen = now) (saveFile faults { seen.file with npub := some (npub person), backedUp := true })
      (fun _ now => now.file = { device.file with npub := some (npub person), backedUp := true } ∧ now.running = device.running ∧
        Vacant device ∧ readSecret secret password = .ok person)
      (Moved device (faults, .import_ secret password)) := by
    apply leaves_saveFile
    · exact fun now here => here.1.1.stays
    · rintro now ⟨⟨same, vacant, read⟩, rfl⟩
      exact ⟨by rw [same.file], same.running, vacant, read⟩
  apply files.bind
  intro _
  have starts : Leaves (fun now => now.file = { device.file with npub := some (npub person), backedUp := true } ∧
      now.running = device.running ∧ Vacant device ∧ readSecret secret password = .ok person)
      (start faults person) (fun _ => Moved device (faults, .import_ secret password))
      (Moved device (faults, .import_ secret password)) := by
    apply leaves_start
    · rintro now ⟨file, running, vacant, read⟩
      exact .brought vacant rfl read file (.inl running)
    · rintro now ⟨file, running, vacant, read⟩ _
      exact .brought vacant rfl read file (.inl running)
    · rintro now ⟨file, running, vacant, read⟩ idle
      exact .brought vacant rfl read file (.inr ⟨running ▸ idle, rfl⟩)
  exact starts.bind fun _ => .pure fun now moved => moved

/-- The key that is shown is that of whoever is named and not backed up. -/
theorem leaves_revealKey : Leaves (· = device) (revealKey faults)
    (fun key now => now = device ∧ stage device.file = .backup ∧
      ∃ person, device.file.npub = some (npub person) ∧ key = nsec person) (· = device) := by
  unfold revealKey
  apply Leaves.get_bind
  intro seen
  split
  · exact .throw fun now here => here.1
  · rename_i waits
    apply (leaves_person .load fun now here => here.1).bind
    intro found
    apply (leaves_orLost found fun now here => here.1.1).bind
    intro person
    refine .pure fun now here => ?_
    obtain ⟨⟨⟨rfl, rfl⟩, _, named⟩, rfl⟩ := here
    exact ⟨rfl, not_not.mp waits, person, named person rfl, rfl⟩

/-- Whoever is named is backed up, once their key was copied. -/
private theorem backedUp_moves {person : Person} (named : device.file.npub = some (npub person))
    (copied : Copied device (npub person) act) :
    Leaves (Untouched device) (backedUp faults) (fun _ => Moved device act) (Moved device act) := by
  unfold backedUp
  apply Leaves.get_bind
  intro seen
  have files : Leaves (fun now => Untouched device now ∧ seen = now) (saveFile faults { seen.file with backedUp := true })
      (fun _ now => now.file = { device.file with backedUp := true } ∧ now.running = device.running) (Moved device act) := by
    apply leaves_saveFile
    · exact fun now here => here.1.stays
    · rintro now ⟨same, rfl⟩
      exact ⟨by rw [same.file], same.running⟩
  have filed : ∀ now, (now.file = { device.file with backedUp := true } ∧ now.running = device.running) → Moved device act now :=
    fun now here => .backed named copied here.1 (.inl here.2)
  apply files.bind
  intro _
  apply (leaves_person .loadAgain filed).bind
  intro found
  apply (leaves_orLost found fun now here => filed now here.1).bind
  intro again
  apply leaves_start
  · exact fun now here => filed now here.1.1
  · exact fun now here _ => filed now here.1.1
  · rintro now ⟨⟨⟨file, running⟩, _, is⟩, rfl⟩ idle
    have same := is again rfl
    rw [file, named] at same
    exact .backed named copied file (.inr ⟨again, (Option.some.inj same).symm, rfl⟩)

private theorem confirm_moves (tail : String) : Leaves (· = device) (confirmBackup faults tail)
    (fun _ => Moved device (faults, .confirm tail)) (Moved device (faults, .confirm tail)) := by
  unfold confirmBackup
  have reveals : Leaves (· = device) (revealKey faults) (fun key now => now = device ∧ stage device.file = .backup ∧
      ∃ person, device.file.npub = some (npub person) ∧ key = nsec person) (Moved device (faults, .confirm tail)) := by
    intro now here
    obtain ⟨well, failed⟩ := leaves_revealKey now here
    exact ⟨well, fun e t ends => (untouched device t (failed e t ends)).stays⟩
  apply reveals.bind
  intro key
  split
  · exact .throw fun now here => (untouched device now here.1).stays
  · rename_i typed
    rintro now ⟨rfl, _, person, named, rfl⟩
    exact backedUp_moves named (.typed named rfl (not_not.mp typed)) now ⟨rfl, rfl⟩

/-- A backup that is written has the key of whoever is named under a password that is long enough. -/
theorem leaves_backUp {path password : String} {salt : ℕ} {Q E : Device → Prop} (left : E device)
    (writes : ∀ person text next, device.file.npub = some (npub person) → minPassword ≤ password.toList.length →
      encrypt person password salt = some text → faults .writeBackup = false →
      next = { device with files := device.files.insert path (text ++ "\n") } →
        Leaves (· = next) (backedUp faults) (fun _ => Q) E ∧ Q next) :
    Leaves (· = device) (backupToFile faults path password salt) (fun _ => Q) E := by
  have leaves : ∀ now, now = device → E now := by
    rintro _ rfl
    exact left
  unfold backupToFile
  split
  · exact .throw leaves
  · rename_i long
    apply (leaves_person .load leaves).bind
    intro found
    apply (leaves_orLost found fun now here => leaves now here.1).bind
    intro person
    apply (leaves_ofExcept _ fun now here => leaves now here.1.1).bind
    intro text
    apply (leaves_reach .writeBackup .io fun now here => leaves now here.1.1.1).bind
    intro _
    refine (Leaves.modify (Q := fun _ now => Leaves (· = now) (backedUp faults) (fun _ => Q) E ∧ Q now) fun now here => ?_).bind fun _ => ?_
    · obtain ⟨⟨⟨⟨rfl, _, named⟩, rfl⟩, made⟩, wrote⟩ := here
      have encrypted : encrypt person password salt = some text := by
        cases drawn : encrypt person password salt with
        | none => simp [drawn, orRefuse, Except.mapError] at made
        | some other => simpa [drawn, orRefuse, Except.mapError] using made
      exact writes person text _ (named person rfl) (not_lt.mp long) encrypted wrote rfl
    apply Leaves.get_bind
    intro seen
    split
    · exact fun now here => here.1.1 now rfl
    · exact .pure fun now here => here.1.2

private theorem backUp_moves (path password : String) (salt : ℕ) : Leaves (· = device) (backupToFile faults path password salt)
    (fun _ => Moved device (faults, .backUp path password salt)) (Moved device (faults, .backUp path password salt)) := by
  apply leaves_backUp (untouched device device rfl).stays
  rintro person text _ named long encrypted wrote rfl
  refine ⟨?_, .stays rfl (.inl rfl)⟩
  rintro _ rfl
  exact backedUp_moves named (.filed named rfl long encrypted wrote) _ ⟨rfl, rfl⟩

private theorem open_moves : Leaves (· = device) (open_ faults) (fun _ => Moved device (faults, .open_))
    (Moved device (faults, .open_)) := by
  unfold open_
  refine (Leaves.modify (Q := fun _ now => now.file = device.file ∧ now.running = none) ?_).bind fun _ => ?_
  · rintro now rfl
    exact ⟨rfl, rfl⟩
  apply (leaves_reach .readFile .io fun now here => .stays here.1 (.inr here.2)).bind
  intro _
  apply Leaves.get_bind
  intro seen
  have opens : Leaves (Moved device (faults, .open_)) (modify fun device => { device with opened := true } : Call PUnit)
      (fun _ => Moved device (faults, .open_)) (Moved device (faults, .open_)) := by
    apply Leaves.modify
    intro now moved
    cases moved with
    | stays file running => exact .stays file running
    | made vacant asked file running => exact .made vacant asked file running
    | brought vacant asked read file running => exact .brought vacant asked read file running
    | backed named copied file running => exact .backed named copied file running
    | opened named ready file running => exact .opened named ready file running
  have closed : ∀ now, (now.file = device.file ∧ now.running = none) → Moved device (faults, .open_) now :=
    fun now here => .stays here.1 (.inr here.2)
  split
  · rename_i ready
    apply (leaves_person .load fun now here => closed now here.1.1).bind
    intro found
    split
    · rename_i person
      refine Leaves.bind (Leaves.weaken (leaves_start (Q := Moved device (faults, .open_)) ?_ ?_ ?_) fun _ _ moved => moved) fun _ => opens
      · exact fun now here => closed now here.1.1.1
      · exact fun now here _ => closed now here.1.1.1
      · rintro now ⟨⟨⟨⟨file, _⟩, _⟩, rfl⟩, _, is⟩ _
        exact .opened (file ▸ is person rfl) (file ▸ ready) file rfl
    · exact fun now here => opens now (closed now here.1.1.1)
  · exact fun now here => opens now (closed now here.1.1)

theorem leaves_opened {P E : Device → Prop} {Q : String → Device → Prop} {call : Call String} (leaves : Leaves P call Q E)
    (left : ∀ device, P device → E device) :
    Leaves P
      (do
        if !(← get).opened then throw .io
        call)
      Q E := by
  apply Leaves.get_bind
  intro seen
  split
  · exact .throw fun now here => left now here.1
  · exact fun now here => leaves now here.1

private theorem opened_moves {call : Call String} (moves : Leaves (· = device) call (fun _ => Moved device act) (Moved device act)) :
    Leaves (· = device)
      (do
        if !(← get).opened then throw .io
        call)
      (fun _ => Moved device act) (Moved device act) :=
  leaves_opened moves fun now here => (untouched device now here).stays

/-- All that an act does. -/
theorem step_moves (device : Device) (act : Faults × Act) : Moved device act (step device act) := by
  obtain ⟨faults, act⟩ := act
  unfold step
  apply Leaves.stateOf (P := (· = device)) _ rfl
  cases act with
  | open_ => exact open_moves.bind fun _ => .pure fun now moved => moved
  | entry npub secret =>
    refine (Leaves.modify (Q := fun _ => Moved device (faults, .entry npub secret)) ?_).bind fun _ => .pure fun now moved => moved
    rintro now rfl
    exact .stays rfl (.inl rfl)
  | create drawn => exact opened_moves (create_moves drawn)
  | import_ secret password => exact opened_moves (import_moves secret password)
  | reveal =>
    apply opened_moves
    intro now here
    obtain ⟨well, failed⟩ := leaves_revealKey now here
    exact ⟨fun key t ends => (untouched device t (well key t ends).1).stays, fun e t ends => (untouched device t (failed e t ends)).stays⟩
  | confirm tail => exact opened_moves ((confirm_moves tail).bind fun _ => .pure fun now moved => moved)
  | backUp path password salt => exact opened_moves ((backUp_moves path password salt).bind fun _ => .pure fun now moved => moved)
  | shutdown =>
    apply opened_moves
    refine (Leaves.modify (Q := fun _ => Moved device (faults, .shutdown)) ?_).bind fun _ => .pure fun now moved => moved
    rintro now rfl
    exact .stays rfl (.inr rfl)

/-! ### The keychain -/

/-- The key filed under `n` is that person's. -/
def Filed (device : Device) (n : String) : Prop := ∃ person, npub person = n ∧ device.secrets[n]? = some (nsec person)

/-- Whoever is named has their key in the keychain. -/
def Kept (device : Device) : Prop := ∀ n, device.file.npub = some n → Filed device n

private theorem filed_saved (device : Device) (person : Person) :
    Filed { device with secrets := device.secrets.insert (npub person) (nsec person) } (npub person) :=
  ⟨person, rfl, Std.ExtTreeMap.getElem?_insert_self⟩

/-- One key more in the keychain takes none away. -/
private theorem Kept.saved (kept : Kept device) (person : Person) :
    Kept { device with secrets := device.secrets.insert (npub person) (nsec person) } := by
  intro n named
  by_cases same : npub person = n
  · exact same ▸ filed_saved device person
  · obtain ⟨other, is, there⟩ := kept n named
    refine ⟨other, is, ?_⟩
    simpa [Std.ExtTreeMap.getElem?_insert, same] using there

private theorem start_kept (person : Person) : Leaves Kept (start faults person) (fun _ => Kept) Kept :=
  leaves_start (fun _ kept => kept) (fun _ kept _ => kept) fun _ kept _ => kept

/-- The key is in the keychain before the file names whose it is. -/
private theorem named_kept {person : Person} {done : Bool} {rest : Call String} (later : Leaves Kept rest (fun _ => Kept) Kept) :
    Leaves Kept
      (do
        savePerson faults person
        saveFile faults { (← get).file with npub := some (npub person), backedUp := done }
        rest)
      (fun _ => Kept) Kept := by
  have saves : Leaves Kept (savePerson faults person) (fun _ now => Kept now ∧ Filed now (npub person)) Kept :=
    leaves_savePerson person (fun _ kept => kept) fun now kept => ⟨kept.saved person, filed_saved now person⟩
  apply saves.bind
  intro _
  apply Leaves.get_bind
  intro seen
  have names : Leaves (fun now => (Kept now ∧ Filed now (npub person)) ∧ seen = now)
      (saveFile faults { seen.file with npub := some (npub person), backedUp := done }) (fun _ => Kept) Kept := by
    apply leaves_saveFile fun now here => here.1.1
    rintro now ⟨⟨_, filed⟩, _⟩ n named
    cases named
    exact filed
  exact names.bind fun _ => later

private theorem backedUp_kept : Leaves Kept (backedUp faults) (fun _ => Kept) Kept := by
  unfold backedUp
  apply Leaves.get_bind
  intro seen
  have files : Leaves (fun now => Kept now ∧ seen = now) (saveFile faults { seen.file with backedUp := true }) (fun _ => Kept) Kept := by
    apply leaves_saveFile fun now here => here.1
    rintro now ⟨kept, rfl⟩
    exact kept
  apply files.bind
  intro _
  apply (leaves_person .loadAgain fun now kept => kept).bind
  intro found
  apply (leaves_orLost found fun now here => here.1).bind
  intro again
  exact leaves_start (fun now here => here.1.1) (fun now here _ => here.1.1) fun now here _ => here.1.1

private theorem modify_kept {f : Device → Device} (same : ∀ now, (f now).file = now.file ∧ (f now).secrets = now.secrets) :
    Leaves Kept (modify f : Call PUnit) (fun _ => Kept) Kept := by
  apply Leaves.modify
  intro now kept n named
  obtain ⟨file, secrets⟩ := same now
  rw [file] at named
  obtain ⟨person, is, there⟩ := kept n named
  exact ⟨person, is, secrets ▸ there⟩

private theorem revealKey_kept : Leaves Kept (revealKey faults) (fun _ => Kept) Kept := by
  intro now kept
  obtain ⟨well, failed⟩ := @leaves_revealKey _ faults now now rfl
  exact ⟨fun key t ends => (well key t ends).1 ▸ kept, fun e t ends => failed e t ends ▸ kept⟩

private theorem backUp_kept (path password : String) (salt : ℕ) :
    Leaves Kept (backupToFile faults path password salt) (fun _ => Kept) Kept := by
  intro device kept
  refine leaves_backUp (Q := Kept) (E := Kept) kept ?_ device rfl
  rintro person text _ _ _ _ _ rfl
  refine ⟨?_, kept⟩
  rintro _ rfl
  exact backedUp_kept _ kept

private theorem open_kept : Leaves Kept (open_ faults) (fun _ => Kept) Kept := by
  unfold open_
  have closes : Leaves Kept (modify fun device => { device with opened := false, running := none } : Call PUnit) (fun _ => Kept) Kept :=
    modify_kept fun now => ⟨rfl, rfl⟩
  apply closes.bind
  intro _
  apply (leaves_reach .readFile .io fun now kept => kept).bind
  intro _
  apply Leaves.get_bind
  intro seen
  have opens : Leaves Kept (modify fun device => { device with opened := true } : Call PUnit) (fun _ => Kept) Kept :=
    modify_kept fun now => ⟨rfl, rfl⟩
  split
  · apply (leaves_person .load fun now here => here.1.1).bind
    intro found
    split
    · rename_i person
      refine Leaves.bind (Q := fun _ => Kept) (fun now here => start_kept person now here.1.1.1) fun _ => opens
    · exact fun now here => opens now here.1.1.1
  · exact fun now here => opens now here.1.1

/-- An act of the app itself. -/
def inside : Act → Bool
  | .entry _ _ => false
  | _ => true

/-- No act of the app takes the key of whoever is named out of the keychain, wherever it is cut off. -/
theorem step_kept (kept : Kept device) (own : inside act.2 = true) : Kept (step device act) := by
  obtain ⟨faults, act⟩ := act
  unfold step
  apply Leaves.stateOf (P := Kept) _ kept
  have left : ∀ now : Device, Kept now → Kept now := fun now kept => kept
  cases act with
  | open_ => exact open_kept.bind fun _ => .pure left
  | entry n secret => cases own
  | create drawn =>
    apply leaves_opened _ left
    unfold createIdentity
    apply (leaves_requireNew left).bind
    exact fun _ now here => named_kept (.pure left) now here.1
  | import_ secret password =>
    apply leaves_opened _ left
    unfold importIdentity
    apply (leaves_requireNew left).bind
    intro _
    apply (leaves_ofExcept (readSecret secret password) fun now here => here.1).bind
    exact fun person now here => named_kept ((start_kept person).bind fun _ => .pure left) now here.1.1
  | reveal => exact leaves_opened revealKey_kept left
  | confirm tail =>
    apply leaves_opened _ left
    refine Leaves.bind (Q := fun _ => Kept) ?_ fun _ => .pure left
    unfold confirmBackup
    apply revealKey_kept.bind
    intro key
    split
    · exact .throw left
    · exact backedUp_kept
  | backUp path password salt => exact leaves_opened ((backUp_kept path password salt).bind fun _ => .pure left) left
  | shutdown =>
    have stops : Leaves Kept shutdown (fun _ => Kept) Kept := modify_kept fun now => ⟨rfl, rfl⟩
    exact leaves_opened (stops.bind fun _ => .pure left) left

end Identity

end HitEnter.App.Onboarding
