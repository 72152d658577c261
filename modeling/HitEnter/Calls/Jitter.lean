import HitEnter.Lib.Checked
import HitEnter.Lib.Runs
import HitEnter.Wire.Basic

/-! The jitter buffer of a call: packets in, in any order and with gaps, and one frame out at every
tick. Its arithmetic of 32 bits is left open: a release wraps, a checked build stops. -/

namespace HitEnter.Calls

open Lib.Checked Wire

/-- What to play for one tick. -/
inductive Slot (P : Type) where
  | waiting
  | play (packet : P)
  | recover (following : P)
  | conceal
deriving DecidableEq

structure Jitter (P : Type) where
  delay : ℕ
  held : BTreeMap UInt32 P
  /-- The next number to play, unwrapped, or none until started. -/
  next : Option UInt32
  /-- The newest number seen, to unwrap the next one. -/
  newest : Option UInt32
  /-- Ticks in a row with nothing to play. -/
  dry : ℕ

namespace Jitter

variable {P : Type}

def maxDry : ℕ := 10

def maxHeld : ℕ := 100

def catchUp : ℕ := 6

def new (delay : ℕ) : Jitter P :=
  { delay := max delay 1, held := ∅, next := none, newest := none, dry := 0 }

def absDiff (a b : UInt32) : UInt32 := if a < b then b - a else a - b

/-- The first packet held, dropped. -/
def popFirst (held : BTreeMap UInt32 P) : BTreeMap UInt32 P :=
  match held.keys.head? with
  | some first => held.erase first
  | none => held

/-- Packets dropped for as long as more than `maxHeld` are held: each turn of the loop drops one. -/
def trim (held : BTreeMap UInt32 P) : BTreeMap UInt32 P := popFirst^[held.size - maxHeld] held

section

variable {m : Type → Type} [Monad m] [Arithmetic m]

/-- A number of 16 bits that starts again at 0, kept near the newest seen. -/
def unwrap (jitter : Jitter P) (seq : UInt16) : m UInt32 :=
  match jitter.newest with
  | none => Arithmetic.add seq.toUInt32 65536
  | some newest => do
    let base := newest &&& ~~~0xffff
    let above ← Arithmetic.add base 65536
    let far ← Arithmetic.add (base - 65536) seq.toUInt32
    let near ← Arithmetic.add base seq.toUInt32
    let beyond ← Arithmetic.add above seq.toUInt32
    return ([far, near, beyond].minOn? (absDiff · newest)).getD newest

def push (jitter : Jitter P) (seq : UInt16) (packet : P) : m (Jitter P) := do
  let s ← jitter.unwrap seq
  if jitter.next.any (s < ·) then
    return jitter
  else
    return { jitter with newest := some (jitter.newest.elim s (max · s)), held := trim (jitter.held.insert s packet) }

/-- The number to play and what is still held: too far behind the newest, it skips to `delay`
behind it. -/
def turn (jitter : Jitter P) (next : UInt32) : m (UInt32 × BTreeMap UInt32 P) :=
  match jitter.newest with
  | none => return (next, jitter.held)
  | some newest => do
    let bound ← Arithmetic.add newest 1
    let reach ← Arithmetic.add next (.ofNat (jitter.delay + catchUp))
    if reach < bound then
      let start ← Arithmetic.sub bound (.ofNat jitter.delay)
      return (start, jitter.held.filter fun s _ => start ≤ s)
    else
      return (next, jitter.held)

end

/-- The packet of its turn, what stands in for it, or silence where the buffer starts over. -/
def playTurn (jitter : Jitter P) (held : BTreeMap UInt32 P) (next after : UInt32) : Slot P × Jitter P :=
  match held[next]? with
  | some packet => (.play packet, { jitter with held := held.erase next, next := some after, dry := 0 })
  | none =>
    if maxDry < jitter.dry + 1 ∨ held.isEmpty ∧ 2 < jitter.dry + 1 then
      (.waiting, { jitter with held, next := none, dry := 0 })
    else
      (held[after]?.elim .conceal .recover, { jitter with held, next := some after, dry := jitter.dry + 1 })

section

variable {m : Type → Type} [Monad m] [Arithmetic m]

/-- One tick: what to play now. -/
def pop (jitter : Jitter P) : m (Slot P × Jitter P) :=
  match jitter.next with
  | some next => started jitter next
  | none =>
    if jitter.held.size < jitter.delay then
      return (.waiting, jitter)
    else
      started jitter (jitter.held.keys.head?.getD 0)
where
  started (jitter : Jitter P) (next : UInt32) : m (Slot P × Jitter P) := do
    let (next, held) ← jitter.turn next
    let after ← Arithmetic.add next 1
    return jitter.playTurn held next after

inductive Call (P : Type) where
  | push (seq : UInt16) (packet : P)
  | pop

/-- A `pop`: what it was called on, what it returned, what it left. -/
structure Tick (P : Type) where
  before : Jitter P
  slot : Slot P
  after : Jitter P

def call (jitter : Jitter P) : Call P → m (Jitter P × List (Tick P))
  | .push seq packet => do
    let after ← jitter.push seq packet
    return (after, [])
  | .pop => do
    let (slot, after) ← jitter.pop
    return (after, [⟨jitter, slot, after⟩])

/-- Calls one after the other, with the ticks among them. -/
def run (jitter : Jitter P) : List (Call P) → m (Jitter P × List (Tick P))
  | [] => return (jitter, [])
  | call :: rest => do
    let (after, first) ← jitter.call call
    let (last, ticks) ← run after rest
    return (last, first ++ ticks)

end

/-- A pop that sets `next` anew. -/
def Tick.starts (tick : Tick P) : Bool :=
  tick.before.next.isNone && decide (tick.before.delay ≤ tick.before.held.size)

/-- The packet was held under `s` when its turn came. -/
structure Tick.Plays (tick : Tick P) (s : UInt32) (packet : P) : Prop where
  slot : tick.slot = .play packet
  held : tick.before.held[s]? = some packet
  next : tick.after.next = some (s + 1)

end Jitter

end HitEnter.Calls
