import Mathlib

/-! A checksum kept in a register of bits: each symbol spreads what is there and is added
to it, addition being exclusive or. Where the spreading is linear, symbols can be appended
that lead the register anywhere their own run does; where it forgets nothing, no symbol can
be exchanged for another unnoticed. -/

namespace HitEnter.Lib.Checksum

variable {width : ℕ}

/-- The register after some symbols. -/
def run (spread : BitVec width → BitVec width) (state : BitVec width) (symbols : List (BitVec width)) : BitVec width :=
  symbols.foldl (fun state symbol => spread state ^^^ symbol) state

def Linear (spread : BitVec width → BitVec width) : Prop := ∀ a b, spread (a ^^^ b) = spread a ^^^ spread b

section Run
variable {spread : BitVec width → BitVec width} {symbols : List (BitVec width)}

theorem run_append (state : BitVec width) (front back : List (BitVec width)) :
    run spread state (front ++ back) = run spread (run spread state front) back := List.foldl_append

theorem run_cons (state symbol : BitVec width) (rest : List (BitVec width)) :
    run spread state (symbol :: rest) = run spread (spread state ^^^ symbol) rest := rfl

/-! ### Symbols that lead to a wanted state -/

/-- The symbols and the state they are run on do not mix. -/
theorem run_xor (linear : Linear spread) (symbols : List (BitVec width)) (state other : BitVec width) :
    run spread (state ^^^ other) symbols = spread^[symbols.length] state ^^^ run spread other symbols := by
  induction symbols generalizing state other with
  | nil => rfl
  | cons symbol rest ih =>
    rw [run_cons, run_cons, linear, BitVec.xor_assoc, ih, List.length_cons, Function.iterate_succ_apply]

theorem run_eq (linear : Linear spread) (state : BitVec width) :
    run spread state symbols = spread^[symbols.length] state ^^^ run spread (.ofNat width 0) symbols := by
  have split := run_xor linear symbols state (.ofNat width 0)
  rwa [BitVec.xor_zero] at split

theorem run_zeros (state : BitVec width) (count : ℕ) :
    run spread state (List.replicate count (.ofNat width 0)) = spread^[count] state := by
  induction count generalizing state with
  | zero => rfl
  | succ count ih => rw [List.replicate_succ, run_cons, BitVec.xor_zero, ih, Function.iterate_succ_apply]

/-- Symbols whose own run is what is missing lead the register to `target`. -/
theorem run_eq_target (linear : Linear spread) {state target : BitVec width}
    (own : run spread (.ofNat width 0) symbols = run spread state (List.replicate symbols.length (.ofNat width 0)) ^^^ target) :
    run spread state symbols = target := by
  rw [run_eq linear, own, run_zeros, ← BitVec.xor_assoc, BitVec.xor_self, BitVec.zero_xor]

/-! ### One symbol exchanged -/

/-- What two states are told apart by stays, whatever comes after. -/
theorem run_injOn {states : Set (BitVec width)} (apart : Set.InjOn spread states)
    (stays : ∀ state ∈ states, ∀ symbol ∈ symbols, spread state ^^^ symbol ∈ states) :
    Set.InjOn (fun state => run spread state symbols) states := by
  induction symbols with
  | nil => exact fun a _ b _ same => same
  | cons symbol rest ih =>
    intro a insideA b insideB same
    have later := ih fun state inside other member => stays state inside other (List.mem_cons_of_mem symbol member)
    have next := later (stays a insideA symbol List.mem_cons_self) (stays b insideB symbol List.mem_cons_self) same
    exact apart insideA insideB ((BitVec.xor_left_inj _).mp next)

theorem run_exchange {states : Set (BitVec width)} {state a b : BitVec width} {front back : List (BitVec width)}
    (apart : Set.InjOn spread states) (stays : ∀ s ∈ states, ∀ v ∈ back, spread s ^^^ v ∈ states)
    (here : spread (run spread state front) ^^^ a ∈ states) (there : spread (run spread state front) ^^^ b ∈ states)
    (other : a ≠ b) : run spread state (front ++ a :: back) ≠ run spread state (front ++ b :: back) := by
  intro same
  rw [run_append, run_append, run_cons, run_cons] at same
  exact other ((BitVec.xor_right_inj _).mp (run_injOn apart stays here there same))

end Run

end HitEnter.Lib.Checksum
