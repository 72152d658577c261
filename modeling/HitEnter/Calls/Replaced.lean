import HitEnter.Calls.VoiceSpec

/-! Whether a person's entry in a call goes only with the connection it holds, over any run of
the tasks under way, though a connection may be replaced and the task that reads from it end
at any later time. -/

namespace HitEnter.Calls

open Wire Lib.Runs

namespace Call

/-- Who has come in, over which connections. -/
def comers (call : Call) : List (PublicKey × ℕ) := call.readers.map fun reader => (reader.person, reader.conn)

/-- Has `person` come in again after reader `i` came? -/
def isReplaced (call : Call) (i : ℕ) (person : PublicKey) : Bool := (call.comers.drop (i + 1)).any (·.1 == person)

/-- If reader `i` ends now, is the entry it takes out, if there is one, that of its own
connection? -/
def endsOwn (i : ℕ) (call : Call) : Bool :=
  (call.readers[i]?).all fun reader => !reader.running || (call.peers[reader.person]?).all (· == reader.conn)

/-- If reader `i` ends now, is its person's entry gone, or have they not come in again? -/
def endsLast (i : ℕ) (call : Call) : Bool :=
  (call.readers[i]?).all fun reader =>
    !reader.running || !call.peers.contains reader.person || !call.isReplaced i reader.person

/-- Every connection came in once, and an entry holds the one its person came in over last. -/
structure Traced (conns : ℕ) (call : Call) : Prop where
  below : ∀ comer ∈ call.comers, comer.2 < conns
  once : (call.comers.map (·.2)).Nodup
  last : ∀ person conn, call.peers[person]? = some conn → ∃ before after, call.comers = before ++ (person, conn) :: after ∧
    ∀ comer ∈ after, comer.1 ≠ person

/-- Whoever's last connection is still read from has an entry, which holds it. -/
def Kept (call : Call) : Prop :=
  ∀ i reader, call.readers[i]? = some reader → reader.running = true → call.isReplaced i reader.person = false →
    call.peers[reader.person]? = some reader.conn

variable {call : Call} {person : PublicKey} {conn conns i j : ℕ} {reader : Reader}

theorem comers_stop : call.stop.comers = call.comers := by
  simp [comers, stop, Function.comp_def]

theorem comers_addPeer : (call.addPeer person conn).comers = call.comers ++ [(person, conn)] := by
  simp [comers, addPeer]

theorem comers_readerEnds : (call.readerEnds i).comers = call.comers := by
  rcases @readerEnds_eq call i with same | ⟨reader, found, _, same⟩
  · rw [same]
  · rw [same]
    refine List.ext_getElem? fun k => ?_
    simp only [comers, List.getElem?_map, List.getElem?_set]
    by_cases place : i = k
    · subst place
      obtain ⟨within, _⟩ := List.getElem?_eq_some_iff.mp found
      rw [if_pos rfl, if_pos within, found]
      rfl
    · rw [if_neg place]

theorem readerEnds_peers (entry : (call.readerEnds i).peers[person]? = some conn) : call.peers[person]? = some conn := by
  rcases @readerEnds_eq call i with same | ⟨reader, _, _, same⟩
  · rwa [same] at entry
  · rw [same, Std.ExtTreeMap.getElem?_erase] at entry
    split at entry
    · cases entry
    · exact entry

theorem getElem?_comers (found : call.readers[i]? = some reader) : call.comers[i]? = some (reader.person, reader.conn) := by
  rw [comers, List.getElem?_map, found]
  rfl

/-- Whoever came in later replaced who came in before as the same person. -/
theorem isReplaced_of_lt (before : i < j) (came : call.comers[j]? = some (person, conn)) :
    call.isReplaced i person = true := by
  refine List.any_eq_true.mpr ⟨(person, conn), List.mem_of_getElem? (i := j - (i + 1)) ?_, beq_self_eq_true person⟩
  rw [List.getElem?_drop, show i + 1 + (j - (i + 1)) = j by omega]
  exact came

/-- A reader takes out its own connection's entry just where it is its person's last. -/
theorem endsOwn_eq_endsLast (traced : Traced conns call) (i : ℕ) : call.endsOwn i = call.endsLast i := by
  unfold endsOwn endsLast
  cases found : call.readers[i]? with
  | none => rfl
  | some reader =>
    have came := getElem?_comers found
    simp only [Option.all_some, Bool.or_assoc]
    refine congrArg (!reader.running || ·) ?_
    cases entry : call.peers[reader.person]? with
    | none => simp [Std.ExtTreeMap.contains_eq_isSome_getElem?, entry]
    | some conn =>
      obtain ⟨before, after, order, unseen⟩ := traced.last reader.person conn entry
      rw [Option.all_some, Std.ExtTreeMap.contains_eq_isSome_getElem?, entry, Option.isSome_some, Bool.not_true,
        Bool.false_or, Bool.eq_iff_iff, beq_iff_eq, Bool.not_eq_true']
      have last : call.comers[before.length]? = some (reader.person, conn) := by simp [order]
      constructor
      · rintro rfl
        have place : i = before.length := by
          refine (List.getElem?_inj ?_ traced.once).mp ?_
          · exact (List.getElem?_eq_some_iff.mp ((List.getElem?_map ..).trans (congrArg _ came))).1
          · rw [List.getElem?_map, List.getElem?_map, came, last]
        have rest : call.comers.drop (i + 1) = after := by
          rw [order, place, List.drop_append, List.drop_eq_nil_of_le (Nat.le_succ _), Nat.add_sub_cancel_left]
          rfl
        rw [isReplaced, rest, List.any_eq_false]
        exact fun comer member => by simpa using unseen comer member
      · intro kept
        rcases Nat.lt_trichotomy i before.length with sooner | same | later
        · rw [isReplaced_of_lt sooner last] at kept
          cases kept
        · subst same
          rw [last] at came
          cases came
          rfl
        · rw [order, List.getElem?_append_right later.le] at came
          obtain ⟨n, more⟩ := Nat.exists_eq_add_of_lt later
          rw [show i - before.length = n + 1 by omega, List.getElem?_cons_succ] at came
          exact absurd rfl (unseen _ (List.mem_of_getElem? came))

theorem Traced.congr {other : Call} {most : ℕ} (traced : Traced conns call) (grown : conns ≤ most) (same : other.comers = call.comers)
    (fewer : ∀ {person : PublicKey} {conn : ℕ}, other.peers[person]? = some conn → call.peers[person]? = some conn) :
    Traced most other := by
  refine ⟨fun comer member => ?_, ?_, fun person conn entry => ?_⟩
  · exact (traced.below comer (same ▸ member)).trans_le grown
  · rw [same]
    exact traced.once
  · rw [same]
    exact traced.last person conn (fewer entry)

theorem Traced.addPeer (traced : Traced conns call) : Traced (conns + 1) (call.addPeer person conns) := by
  have fresh : ∀ comer ∈ call.comers, comer.2 ≠ conns := fun comer member => (traced.below comer member).ne
  refine ⟨fun comer member => ?_, ?_, fun other conn entry => ?_⟩
  · rw [comers_addPeer] at member
    rcases List.mem_append.mp member with old | new
    · exact (traced.below comer old).trans (Nat.lt_succ_self _)
    · cases List.mem_singleton.mp new
      exact Nat.lt_succ_self _
  · rw [comers_addPeer, List.map_append]
    refine List.nodup_append.mpr ⟨traced.once, by simp, fun conn member other new => ?_⟩
    obtain ⟨comer, held, rfl⟩ := List.mem_map.mp member
    cases List.mem_singleton.mp new
    exact fresh comer held
  · rw [comers_addPeer]
    simp only [Call.addPeer, Std.ExtTreeMap.getElem?_insert, Std.LawfulEqCmp.compare_eq_iff_eq] at entry
    split at entry
    · rename_i same
      subst same
      cases entry
      exact ⟨call.comers, [], rfl, nofun⟩
    · rename_i apart
      obtain ⟨before, after, order, unseen⟩ := traced.last other conn entry
      refine ⟨before, after ++ [(person, conns)], by rw [order]; simp, fun comer member => ?_⟩
      rcases List.mem_append.mp member with old | new
      · exact unseen comer old
      · cases List.mem_singleton.mp new
        exact apart

/-- What a person's last connection holds, it holds after someone has come in. -/
theorem Kept.addPeer (kept : Kept call) : Kept (call.addPeer person conn) := by
  intro i reader found runs last
  have comers : (call.addPeer person conn).comers = call.comers ++ [(person, conn)] := comers_addPeer
  rcases Nat.lt_or_ge i call.readers.length with old | new
  · rw [Call.addPeer, List.getElem?_append_left old] at found
    have apart : reader.person ≠ person := by
      rintro rfl
      have came : (call.addPeer reader.person conn).comers[call.readers.length]? = some (reader.person, conn) := by
        rw [comers]
        simp [Call.comers]
      rw [isReplaced_of_lt old came] at last
      cases last
    have entry := kept i reader found runs (by
      rw [isReplaced, comers, List.drop_append, List.any_append, Bool.or_eq_false_iff] at last
      exact last.1)
    simp only [Call.addPeer, Std.ExtTreeMap.getElem?_insert, Std.LawfulEqCmp.compare_eq_iff_eq, if_neg apart.symm]
    exact entry
  · rw [Call.addPeer, List.getElem?_append_right new] at found
    cases List.mem_singleton.mp (List.mem_of_getElem? found)
    simp [Call.addPeer]

theorem kept_stop : Kept call.stop := by
  intro i reader found runs
  simp only [stop, List.getElem?_map, Option.map_eq_some_iff] at found
  obtain ⟨old, _, rfl⟩ := found
  cases runs

/-- A reader that ends leaves what the others' connections hold, if its own was its person's
last or its person's entry is gone. -/
theorem Kept.readerEnds (kept : Kept call) (ends : call.endsLast i = true) : Kept (call.readerEnds i) := by
  intro j reader found runs last
  rw [isReplaced, comers_readerEnds, ← isReplaced] at last
  rcases @readerEnds_eq call i with same | ⟨ending, at_, running, same⟩
  · rw [same] at found ⊢
    exact kept j reader found runs last
  · rw [same] at found ⊢
    rw [endsLast, at_, Option.all_some, running, Bool.not_true, Bool.false_or, Bool.or_eq_true, Bool.not_eq_true',
      Bool.not_eq_true'] at ends
    by_cases place : i = j
    · subst place
      obtain ⟨within, _⟩ := List.getElem?_eq_some_iff.mp at_
      rw [List.getElem?_set_self within, Option.some.injEq] at found
      subst found
      cases runs
    · rw [List.getElem?_set_ne place] at found
      have entry := kept j reader found runs last
      have apart : ending.person ≠ reader.person := by
        intro person
        rcases ends with gone | own
        · rw [person, Std.ExtTreeMap.contains_eq_isSome_getElem?, entry] at gone
          cases gone
        · rcases Nat.lt_or_gt_of_ne place with sooner | later
          · rw [isReplaced_of_lt sooner (person ▸ getElem?_comers found)] at own
            cases own
          · rw [isReplaced_of_lt later (person ▸ getElem?_comers at_)] at last
            cases last
      rw [Std.ExtTreeMap.getElem?_erase, if_neg (by simpa using apart)]
      exact entry

end Call

namespace Voice

/-- A reader that ends takes out the entry of its own connection, or none. -/
def endsOwn (v : Voice) : Act → Bool
  | .reader c i => (v.calls[c]?).all (·.endsOwn i)
  | _ => true

/-- A reader ends only where its person's entry is gone, or its person has not come in again. -/
def endsLast (v : Voice) : Act → Bool
  | .reader c i => (v.calls[c]?).all (·.endsLast i)
  | _ => true

end Voice

/-- How everyone in each call came in. -/
def Traced (v : Voice) : Prop := ∀ (c : ℕ) (call : Call), v.calls[c]? = some call → call.Traced v.conns

/-- In each 1:1 call, whoever's last connection is still read from has an entry for it. -/
def Kept (v : Voice) : Prop := ∀ (c : ℕ) (call : Call), v.calls[c]? = some call → call.isChannel = false → call.Kept

section Steps
variable {v : Voice} {act : Act}

theorem traced_step (traced : Traced v) : Traced (v.step act) := by
  intro c call found
  rcases step_call found with ⟨before, held, becomes⟩ | begins
  · have old := traced c before held
    cases becomes with
    | same => exact old.congr step_conns rfl id
    | stopped _ _ => exact old.congr step_conns Call.comers_stop fun entry => by simp [Call.stop] at entry
    | added person _ conns =>
      rw [conns]
      exact old.addPeer
    | marked => exact old.congr step_conns rfl id
    | retained room _ =>
      refine old.congr step_conns rfl fun entry => ?_
      rw [Call.retain, Std.ExtTreeMap.getElem?_filter'] at entry
      exact (Option.filter_eq_some_iff.mp entry).1
    | readerEnded i _ => exact old.congr step_conns Call.comers_readerEnds Call.readerEnds_peers
  · obtain ⟨room, ring, rfl⟩ := begins.fresh
    exact ⟨nofun, .nil, fun person conn entry => by simp at entry⟩

theorem kept_step (ends : v.endsLast act = true) (kept : Kept v) : Kept (v.step act) := by
  intro c call found one
  rcases step_call found with ⟨before, held, becomes⟩ | begins
  · rw [becomes.isChannel] at one
    have old := kept c before held one
    cases becomes with
    | same => exact old
    | stopped _ _ => exact Call.kept_stop
    | added person _ _ => exact old.addPeer
    | marked => exact old
    | retained room channel =>
      -- Nobody is dropped from a 1:1 call for not being in a room.
      rw [channel] at one
      cases one
    | readerEnded i is =>
      refine old.readerEnds ?_
      rw [is, Voice.endsLast, held] at ends
      exact ends
  · obtain ⟨room, ring, rfl⟩ := begins.fresh
    exact fun i reader at_ => by simp at at_

end Steps

/-- Over a run from the start, a reader that ends takes out no entry but its own connection's,
just where each ends with its person's entry gone or its person not come in again. Where each
does, a 1:1 call has an entry for whoever's last connection is read from, and does not end
of itself. -/
theorem endsOwn_run_iff (max : ℕ) (acts : List Act) :
    (Met Voice.endsOwn Voice.step { max := max } acts ↔ Met Voice.endsLast Voice.step { max := max } acts) ∧
      (Met Voice.endsLast Voice.step { max := max } acts →
        ∀ (c : ℕ) (call : Call), (run Voice.step { max := max } acts).calls[c]? = some call → call.isChannel = false →
          ∀ (i : ℕ) (reader : Reader), call.readers[i]? = some reader → reader.running = true →
            call.isReplaced i reader.person = false →
              call.peers[reader.person]? = some reader.conn ∧
                ∀ room dials, (run Voice.step { max := max } acts).step (.upkeep c room dials) =
                  run Voice.step { max := max } acts) := by
  constructor
  · refine met_congr (fun v act (traced : Traced v) => traced_step traced) (fun v act traced => ?_) nofun
    cases act with
    | reader c i =>
      simp only [Voice.endsOwn, Voice.endsLast]
      cases held : v.calls[c]? with
      | none => rfl
      | some call => exact Call.endsOwn_eq_endsLast (traced c call held) i
    | _ => rfl
  · intro met c call found one i reader at_ runs last
    have kept : Kept (run Voice.step { max := max } acts) :=
      run_invariant (fun _ _ ends kept => kept_step ends kept) met nofun
    have entry := kept c call found one i reader at_ runs last
    refine ⟨entry, fun room dials => ?_⟩
    have inside : call.peers.isEmpty = false := by
      rw [Bool.eq_false_iff]
      intro empty
      rw [Std.ExtTreeMap.isEmpty_iff.mp empty] at entry
      simp at entry
    simp [Voice.step, Voice.upkeep, found, one, inside]

/-- Someone in a voice channel reconnects and is added again; then the task that read from
their first connection ends. -/
def reconnection : List Act :=
  [.join ⟨0⟩ "lobby" true 0, .entry 0 true, .arrive (.channel ⟨0⟩ "lobby" (some ⟨1⟩)), .knock 0 true, .knock 0 true,
    .knock 0 true, .arrive (.channel ⟨0⟩ "lobby" (some ⟨1⟩)), .knock 1 true, .knock 1 true, .knock 1 true, .reader 0 0]

/-- It takes out the entry that holds the second. -/
theorem reconnection_hangs_up : ¬ Met Voice.endsOwn Voice.step { max := 10 } reconnection := by
  decide +kernel

end HitEnter.Calls
