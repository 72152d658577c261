import HitEnter.Wire.Group

/-! Permissions as a bitset. The operations are the word operations of the
program; `has` says which bits a word holds, and each operation has one lemma
saying what it does to the bits, so that later proofs are about sets. -/

namespace HitEnter.Group

/-- What a member may do, as a set of bits. -/
@[ext] structure Permissions where
  bits : UInt64
deriving DecidableEq

namespace Permissions

def viewChannel : Permissions := ⟨(1 : UInt64) <<< 0⟩
def sendMessages : Permissions := ⟨(1 : UInt64) <<< 1⟩
def manageMessages : Permissions := ⟨(1 : UInt64) <<< 2⟩
def manageChannels : Permissions := ⟨(1 : UInt64) <<< 3⟩
def createInvite : Permissions := ⟨(1 : UInt64) <<< 4⟩
def kickMembers : Permissions := ⟨(1 : UInt64) <<< 6⟩
def banMembers : Permissions := ⟨(1 : UInt64) <<< 7⟩
def muteMembers : Permissions := ⟨(1 : UInt64) <<< 8⟩
def manageRoles : Permissions := ⟨(1 : UInt64) <<< 9⟩
def manageGroup : Permissions := ⟨(1 : UInt64) <<< 10⟩
def attachFiles : Permissions := ⟨(1 : UInt64) <<< 11⟩

/-- Everything this build defines: bits 0 to 11. -/
def all : Permissions := ⟨((1 : UInt64) <<< 12) - 1⟩

def none : Permissions := ⟨0⟩

/-- What a per-channel override may allow or deny. -/
def channelScoped : Permissions :=
  ⟨viewChannel.bits ||| sendMessages.bits ||| manageMessages.bits ||| attachFiles.bits⟩

/-- Drops any bit this build does not define. -/
def sanitized (p : Permissions) : Permissions := ⟨p.bits &&& all.bits⟩

/-- Every bit in `needed` is present. -/
def contains (p needed : Permissions) : Bool := (p.bits &&& needed.bits) == needed.bits

def union (p q : Permissions) : Permissions := ⟨p.bits ||| q.bits⟩

def without (p q : Permissions) : Permissions := ⟨p.bits &&& ~~~q.bits⟩

def intersection (p q : Permissions) : Permissions := ⟨p.bits &&& q.bits⟩

def isEmpty (p : Permissions) : Bool := p.bits == 0

/-- Every bit of `p` that is not in `q`. -/
def beyond (p q : Permissions) : Permissions := ⟨p.bits &&& ~~~q.bits⟩

/-- Bit `i` is in the set. -/
def has (p : Permissions) (i : Fin 64) : Prop := p.bits.toBitVec.getLsbD i = true

instance (p : Permissions) (i : Fin 64) : Decidable (p.has i) :=
  inferInstanceAs (Decidable (_ = true))

theorem ext_has {p q : Permissions} (same : ∀ i, p.has i ↔ q.has i) : p = q := by
  obtain ⟨p⟩ := p
  obtain ⟨q⟩ := q
  congr 1
  apply UInt64.toBitVec_inj.mp
  apply BitVec.eq_of_getLsbD_eq
  intro i small
  exact Bool.eq_iff_iff.mpr (same ⟨i, small⟩)

@[simp] theorem has_none (i : Fin 64) : ¬ none.has i := by simp [has, none]

@[simp] theorem has_union (p q : Permissions) (i : Fin 64) :
    (p.union q).has i ↔ p.has i ∨ q.has i := by
  simp [has, union]

@[simp] theorem has_intersection (p q : Permissions) (i : Fin 64) :
    (p.intersection q).has i ↔ p.has i ∧ q.has i := by
  simp [has, intersection]

@[simp] theorem has_without (p q : Permissions) (i : Fin 64) :
    (p.without q).has i ↔ p.has i ∧ ¬ q.has i := by
  simp [has, without]

@[simp] theorem has_beyond (p q : Permissions) (i : Fin 64) :
    (p.beyond q).has i ↔ p.has i ∧ ¬ q.has i := has_without p q i

@[simp] theorem has_sanitized (p : Permissions) (i : Fin 64) :
    p.sanitized.has i ↔ p.has i ∧ all.has i := has_intersection p all i

@[simp] theorem sanitized_sanitized (p : Permissions) : p.sanitized.sanitized = p.sanitized :=
  ext_has fun i => by simp

theorem contains_iff {p needed : Permissions} :
    p.contains needed = true ↔ ∀ i, needed.has i → p.has i := by
  have word : p.contains needed = true ↔ p.intersection needed = needed := by
    simp [contains, intersection, Permissions.ext_iff]
  rw [word]
  constructor
  · intro same i held
    rw [← same] at held
    exact ((has_intersection p needed i).mp held).1
  · intro subset
    apply ext_has
    intro i
    simp only [has_intersection]
    exact ⟨And.right, fun held => ⟨subset i held, held⟩⟩

theorem isEmpty_iff {p : Permissions} : p.isEmpty = true ↔ ∀ i, ¬ p.has i := by
  have word : p.isEmpty = true ↔ p = none := by
    simp [isEmpty, none, Permissions.ext_iff]
  rw [word]
  constructor
  · rintro rfl i
    exact has_none i
  · intro empty
    exact ext_has fun i => by simp [empty i]

theorem beyond_isEmpty_iff {p q : Permissions} :
    (p.beyond q).isEmpty = true ↔ ∀ i, p.has i → q.has i := by
  simp [isEmpty_iff]

theorem has_foldl_union (f : α → Permissions) (items : List α) (start : Permissions) (i : Fin 64) :
    (items.foldl (fun bits x => bits.union (f x)) start).has i ↔
      start.has i ∨ ∃ x ∈ items, (f x).has i := by
  induction items generalizing start with
  | nil => simp
  | cons x rest ih => simp [ih, or_assoc]

end Permissions

end HitEnter.Group
