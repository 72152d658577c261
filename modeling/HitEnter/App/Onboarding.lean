import HitEnter.Lib.Checks
import HitEnter.Lib.Dialogue
import HitEnter.Lib.Runs
import HitEnter.Lib.Text
import HitEnter.Wire.Basic

/-! Onboarding: a person's key is made here or brought along, copied to where it is not lost with
the device, and only then does a node run as that person. `app.json` says which step a device is
on, and the keychain has the key. -/

namespace HitEnter.App

open Wire Lib.Checks Lib.Dialogue Lib.Text

/-- So many characters of the key are typed back. -/
def confirmChars : ℕ := 8

/-- The shortest password of a backup. -/
def minPassword : ℕ := 8

/-- The keys of people, their texts, and what is made of one with a password. -/
class Persons where
  Person : Type
  Encrypted : Type
  npub : Person → String
  nsec : Person → String
  parse : String → Option Person
  fromBech32 : String → Option Encrypted
  decrypt : Encrypted → String → Option Person
  /-- With the salt it draws. -/
  encrypt : Person → String → ℕ → Option String

inductive KeyError where
  | invalidSecret
  | invalidNcryptsec
  | wrongPassword
  | encrypt
  | corruptStoredKey
  | store
deriving DecidableEq

inductive AppError where
  | node
  | key (error : KeyError)
  | io
  | refused (why : String)
deriving DecidableEq

/-- `app.json`. -/
structure AppFile where
  npub : Option String := none
  backedUp : Bool := false
  audioInput : Option String := none
  audioOutput : Option String := none
  noEchoCancel : Bool := false
  publicRelays : Option (List String) := none
  inboxOff : Bool := false
  hideGroups : Bool := false
deriving DecidableEq

namespace Onboarding

inductive Stage where
  | new
  | backup
  | ready
deriving DecidableEq

def stage (file : AppFile) : Stage :=
  match file.npub, file.backedUp with
  | none, _ => .new
  | some _, false => .backup
  | some _, true => .ready

/-- What a call may find that fails. -/
inductive Access where
  | readFile
  | load
  | loadAgain
  | put
  | saveFile
  | writeBackup
  | start
deriving DecidableEq

/-- What fails on the way of one call. -/
abbrev Faults := Access → Bool

section Calls
variable [Persons]

open Persons

/-- A device: what it has on disk and in the keychain, and the app while it is open, with the
person a node runs as. -/
structure Device where
  file : AppFile := {}
  secrets : BTreeMap String String := ∅
  files : BTreeMap String String := ∅
  opened : Bool := false
  running : Option Person := none

abbrev Call := EStateM AppError Device

def reach (faults : Faults) (access : Access) (error : AppError) : Call Unit :=
  if faults access then throw error else return ()

def ofKey {α : Type} (made : Except KeyError α) : Call α :=
  match made with
  | .ok a => return a
  | .error error => throw (.key error)

def fromNsec (secret : String) : Except KeyError Person := orRefuse (parse (trim secret)) .invalidSecret

def fromNcryptsec (ncryptsec password : String) : Except KeyError Person := do
  let encrypted ← orRefuse (fromBech32 (trim ncryptsec)) .invalidNcryptsec
  orRefuse (decrypt encrypted password) .wrongPassword

/-- The key filed under `npub`, which has to be that person's. -/
def loadPerson (faults : Faults) (access : Access) (npub : String) : Call (Option Person) := do
  reach faults access (.key .store)
  match (← get).secrets[npub]? with
  | none => return none
  | some secret =>
    match fromNsec secret with
    | .error _ => throw (.key .corruptStoredKey)
    | .ok person => if Persons.npub person = npub then return some person else throw (.key .corruptStoredKey)

def savePerson (faults : Faults) (person : Person) : Call Unit := do
  reach faults .put (.key .store)
  modify fun device => { device with secrets := device.secrets.insert (npub person) (nsec person) }

/-- This device's person: none without an identity, or with one the keychain has lost. -/
def person (faults : Faults) (access : Access := .load) : Call (Option Person) := do
  match (← get).file.npub with
  | none => return none
  | some npub => loadPerson faults access npub

def saveFile (faults : Faults) (next : AppFile) : Call Unit := do
  reach faults .saveFile .io
  modify fun device => { device with file := next }

/-- A node that runs already is left alone. -/
def start (faults : Faults) (person : Person) : Call Unit := do
  if (← get).running.isSome then return ()
  reach faults .start .node
  modify fun device => { device with running := some person }

def requireNew (faults : Faults) : Call Unit := do
  if (← get).file.npub.isSome && (← person faults).isSome then
    throw (.refused "this device already has an identity")

def lost : AppError := .refused "the keychain no longer holds this identity's key"

def orLost (person : Option Person) : Call Person :=
  match person with
  | none => throw lost
  | some person => return person

/-- Makes an identity with the key `drawn`. -/
def createIdentity (faults : Faults) (drawn : Person) : Call String := do
  requireNew faults
  savePerson faults drawn
  saveFile faults { (← get).file with npub := some (npub drawn), backedUp := false }
  return npub drawn

/-- The person whose key is brought along, plain or under a password. -/
def readSecret (secret : String) (password : Option String) : Except AppError Person :=
  if (trim secret).startsWith "ncryptsec" then do
    let password ← orRefuse password (.refused "an ncryptsec needs the password it was made with")
    (fromNcryptsec (trim secret) password).mapError .key
  else (fromNsec (trim secret)).mapError .key

def importIdentity (faults : Faults) (secret : String) (password : Option String) : Call String := do
  requireNew faults
  let person ← ofExcept (readSecret secret password)
  savePerson faults person
  saveFile faults { (← get).file with npub := some (npub person), backedUp := true }
  start faults person
  return npub person

/-- The key, on the backup step only. -/
def revealKey (faults : Faults) : Call String := do
  if stage (← get).file ≠ .backup then
    throw (.refused "the key is shown only while it is being backed up")
  let person ← orLost (← person faults)
  return nsec person

def backedUp (faults : Faults) : Call Unit := do
  saveFile faults { (← get).file with backedUp := true }
  let person ← orLost (← person faults .loadAgain)
  start faults person

/-- The last characters of a key, which is ASCII. -/
def lastChars (key : String) : String := .ofList (key.toList.drop (key.toList.length - confirmChars))

def confirmBackup (faults : Faults) (tail : String) : Call Unit := do
  let key ← revealKey faults
  if trim tail ≠ lastChars key then
    throw (.refused "those are not the key's last characters")
  backedUp faults

def backupToFile (faults : Faults) (path password : String) (salt : ℕ) : Call Unit := do
  if password.toList.length < minPassword then
    throw (.refused "the password needs at least 8 characters")
  let person ← orLost (← person faults)
  let ncryptsec ← ofExcept ((orRefuse (encrypt person password salt) KeyError.encrypt).mapError .key)
  reach faults .writeBackup .io
  modify fun device => { device with files := device.files.insert path (ncryptsec ++ "\n") }
  if stage (← get).file = .backup then
    backedUp faults

/-- The app opened anew, which starts the node of whoever is backed up. -/
def open_ (faults : Faults) : Call Unit := do
  modify fun device => { device with opened := false, running := none }
  reach faults .readFile .io
  if stage (← get).file = .ready then
    if let some person ← person faults then
      start faults person
  modify fun device => { device with opened := true }

def shutdown : Call Unit := modify fun device => { device with running := none }

inductive Act where
  | create (drawn : Person)
  | import_ (secret : String) (password : Option String)
  | reveal
  | confirm (tail : String)
  | backUp (path password : String) (salt : ℕ)
  | open_
  | shutdown
  /-- What becomes of an entry of the keychain outside the app. -/
  | entry (npub : String) (secret : Option String)

/-- What is done, and what is shown of it. An app that is not open does nothing. -/
def perform (faults : Faults) (act : Act) : Call String := do
  match act with
  | .open_ => open_ faults; return ""
  | .entry npub secret =>
    modify fun device => { device with secrets := secret.elim (device.secrets.erase npub) (device.secrets.insert npub ·) }
    return ""
  | act =>
    if !(← get).opened then throw .io
    match act with
    | .create drawn => createIdentity faults drawn
    | .import_ secret password => importIdentity faults secret password
    | .reveal => revealKey faults
    | .confirm tail => confirmBackup faults tail; return ""
    | .backUp path password salt => backupToFile faults path password salt; return ""
    | _ => shutdown; return ""

/-- A call that is cut off leaves what one leaves that fails there. -/
def step (device : Device) (act : Faults × Act) : Device := stateOf (perform act.1 act.2 device)

end Calls

end Onboarding

end HitEnter.App
