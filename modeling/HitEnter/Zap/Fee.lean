import HitEnter.Zap.Lnurl

/-! The fee of a zap: an invoice from the fee address, paid by the sender's wallet, and one
more try where that fails. What the fee address, the relays and the wallet do is given. -/

namespace HitEnter.Zap

open Wire Lib.Checks

/-- What the fee address answers in one attempt: what it takes, and the invoice. -/
structure Server where
  params : Except Error PayParams
  json : Except Error InvoiceJson

/-- What a wallet answers to a request to pay. -/
inductive Answer where
  | refused (said : String)
  | payment (preimage : String)
  | other

/-- What a request to pay meets at one of the wallet's relays: whether the relay can be
reached, takes the subscription and the request, and passes on an answer in time; and on
the other side, whether the request gets to the wallet, and the wallet pays. -/
structure Line where
  url : String
  connect : Except Error Unit
  request : Except Error Unit
  subscribe : Except Error Unit
  publish : Except Error Unit
  answer : Except Error Answer
  reached : Bool
  pays : Bool

/-- What one attempt meets. -/
structure Attempt where
  server : Server
  lines : List Line

/-- What became of the fee. -/
inductive Fee where
  | none
  | paid
  | failed (why : Error)
deriving DecidableEq

/-- Asks at one relay, and what the wallet then pays. -/
def payOn (line : Line) (bolt11 : String) : Except Error String × List String :=
  match line.request, line.subscribe with
  | .error e, _ => (.error e, [])
  | .ok _, .error e => (.error e, [])
  | .ok _, .ok _ =>
    (do line.publish
        match ← line.answer with
        | .refused said => .error (.wallet said)
        | .payment preimage => .ok preimage
        | .other => .error (.wallet "an answer that is not a payment"),
      if line.reached && line.pays then [bolt11] else [])

/-- Asks at the first relay that can be reached; `last` is what went wrong before. -/
def payAt (bolt11 : String) : Error → List Line → Except Error String × List String
  | last, [] => (.error last, [])
  | _, line :: rest =>
    match line.connect with
    | .error e => payAt bolt11 e rest
    | .ok _ => payOn line bolt11

def pay (lines : List Line) (bolt11 : String) : Except Error String × List String :=
  payAt bolt11 (.relay "" "no relay") lines

section Fee
variable [Lightning]

def feeInvoice (server : Server) (feeSats : UInt64) : Except Error String := do
  let params ← server.params
  let (pr, _) ← invoice params (feeSats * 1000) none server.json
  pure pr

/-- One attempt at the fee, with the invoices that the wallet pays in it. -/
def attempt (met : Attempt) (feeSats : UInt64) : Except Error String × List String :=
  match feeInvoice met.server feeSats with
  | .error e => (.error e, [])
  | .ok pr => pay met.lines pr

/-- Pays the fee best-effort, once now and once more, then drops it. -/
def spawnFee (feeTo : Option LightningAddress) (feeSats : UInt64) (first second : Attempt) : Fee × List String :=
  if feeSats == 0 || feeTo.isNone then (.none, [])
  else
    match attempt first feeSats with
    | (.ok _, paid) => (.paid, paid)
    | (.error _, paid) =>
      match attempt second feeSats with
      | (.ok _, later) => (.paid, paid ++ later)
      | (.error e, later) => (.failed e, paid ++ later)

end Fee

/-- The relay a request goes to. -/
def Attempt.line (met : Attempt) : Option Line := met.lines.find? fun line => line.connect.isOk

/-- Does the word of a payment come back: the relay's and then the wallet's? -/
def Line.tells (line : Line) : Bool :=
  line.publish.isOk && match line.answer with
    | .ok (.payment _) => true
    | _ => false

/-- Does the wallet pay what it is asked for here? -/
def Line.settles (line : Line) : Bool :=
  line.request.isOk && line.subscribe.isOk && line.reached && line.pays

private theorem payAt_eq (lines : List Line) (bolt11 : String) (last : Error) :
    ∃ e, payAt bolt11 last lines =
      ((lines.find? fun line => line.connect.isOk).elim (.error e, []) fun line => payOn line bolt11) := by
  induction lines generalizing last with
  | nil => exact ⟨last, rfl⟩
  | cons line rest ih =>
    cases connect : line.connect with
    | error e =>
      obtain ⟨e', same⟩ := ih e
      refine ⟨e', ?_⟩
      simpa [payAt, connect, Except.isOk, Except.toBool] using same
    | ok _ => exact ⟨last, by simp [payAt, connect, Except.isOk, Except.toBool]⟩

private theorem pay_eq (met : Attempt) (bolt11 : String) :
    ∃ e, pay met.lines bolt11 = met.line.elim (.error e, []) fun line => payOn line bolt11 :=
  payAt_eq met.lines bolt11 _

/-- What a wallet pays when it is asked at a relay. -/
private theorem payOn_paid (line : Line) (bolt11 : String) :
    (payOn line bolt11).2 = if line.settles then [bolt11] else [] := by
  unfold payOn Line.settles
  cases line.request <;> cases line.subscribe <;> simp [Except.isOk, Except.toBool]

/-- Where the wallet pays, the sender hears of it just if the word comes back. -/
private theorem payOn_ok (line : Line) (bolt11 : String) (settles : line.settles = true) :
    (payOn line bolt11).1.isOk = line.tells := by
  unfold payOn Line.tells
  unfold Line.settles at settles
  cases request : line.request with
  | error e => simp [request, Except.isOk, Except.toBool] at settles
  | ok _ =>
    cases subscribe : line.subscribe with
    | error e => simp [subscribe, Except.isOk, Except.toBool] at settles
    | ok _ =>
      cases line.publish with
      | error e => rfl
      | ok _ =>
        cases line.answer with
        | error e => rfl
        | ok answer => cases answer <;> rfl

section Once
variable [Lightning] {feeTo : Option LightningAddress} {feeSats : UInt64} {first second met : Attempt}

/-- The invoice that the wallet pays in an attempt. -/
def Attempt.settled (met : Attempt) (feeSats : UInt64) : Option String :=
  match feeInvoice met.server feeSats with
  | .error _ => none
  | .ok pr => if met.line.any Line.settles then some pr else none

private theorem attempt_paid : (attempt met feeSats).2 = (met.settled feeSats).toList := by
  unfold attempt Attempt.settled
  cases feeInvoice met.server feeSats with
  | error e => rfl
  | ok pr =>
    obtain ⟨e, same⟩ := pay_eq met pr
    simp only [same]
    cases met.line with
    | none => rfl
    | some line =>
      simp only [Option.elim_some, payOn_paid, Option.any_some]
      split <;> rfl

private theorem attempt_ok {pr : String} (settled : met.settled feeSats = some pr) :
    (attempt met feeSats).1.isOk = met.line.any Line.tells := by
  unfold attempt
  unfold Attempt.settled at settled
  cases asked : feeInvoice met.server feeSats with
  | error e => simp [asked] at settled
  | ok pr' =>
    obtain ⟨e, same⟩ := pay_eq met pr'
    simp only [asked] at settled
    simp only [same]
    cases here : met.line with
    | none => simp [here] at settled
    | some line =>
      simp only [here, Option.any_some, Option.ite_none_right_eq_some] at settled
      exact payOn_ok line pr' settled.1

/-- What is paid in a run: the first invoice, and the second where the first attempt is
taken to have failed. -/
private theorem spawnFee_paid (owed : (feeSats == 0 || feeTo.isNone) = false) :
    (spawnFee feeTo feeSats first second).2 = (first.settled feeSats).toList ++
      if (attempt first feeSats).1.isOk then [] else (second.settled feeSats).toList := by
  rw [spawnFee, owed, ← attempt_paid, ← attempt_paid]
  simp only [Bool.false_eq_true, ↓reduceIte]
  rcases attempt first feeSats with ⟨e | _, paid⟩
  · rcases attempt second feeSats with ⟨e' | _, later⟩ <;> rfl
  · exact (List.append_nil paid).symm

/-- At most one invoice is paid for a fee just where it is not so that the wallet pays the
first, the word of that does not come back, and it pays another. -/
theorem fee_once_iff (feeTo : Option LightningAddress) (feeSats : UInt64) (first second : Attempt) :
    (∀ a ∈ (spawnFee feeTo feeSats first second).2, ∀ b ∈ (spawnFee feeTo feeSats first second).2, a = b) ↔
      ¬ (feeSats ≠ 0 ∧ feeTo.isSome = true ∧ ∃ a b, first.settled feeSats = some a ∧
        first.line.any Line.tells = false ∧ second.settled feeSats = some b ∧ a ≠ b) := by
  cases owed : feeSats == 0 || feeTo.isNone with
  | true =>
    have nothing : (spawnFee feeTo feeSats first second).2 = [] := by rw [spawnFee, if_pos owed]
    refine iff_of_true (by simp [nothing]) ?_
    rintro ⟨some_, owes, _⟩
    rcases Bool.or_eq_true_iff.mp owed with zero | nobody
    · exact some_ (by simpa using zero)
    · rw [Option.isNone_iff_eq_none.mp nobody] at owes
      cases owes
  | false =>
    obtain ⟨some_, owes⟩ := Bool.or_eq_false_iff.mp owed
    rw [spawnFee_paid owed]
    constructor
    · rintro single ⟨_, _, a, b, paid, untold, again, other⟩
      have failed : (attempt first feeSats).1.isOk = false := (attempt_ok paid).trans untold
      refine other (single a ?_ b ?_)
      · simp [paid]
      · simp [failed, again]
    · intro never
      have both : ∀ a b, first.settled feeSats = some a → (attempt first feeSats).1.isOk = false →
          second.settled feeSats = some b → a = b := by
        intro a b paid failed again
        by_contra other
        exact never ⟨by simpa using some_, by simpa using owes, a, b, paid, (attempt_ok paid).symm.trans failed, again, other⟩
      cases paid : first.settled feeSats with
      | none =>
        cases again : second.settled feeSats with
        | none => simp
        | some b => split <;> simp
      | some a =>
        cases ok : (attempt first feeSats).1.isOk with
        | true => simp
        | false =>
          cases again : second.settled feeSats with
          | none => simp
          | some b =>
            obtain rfl := both a b paid ok again
            simp

end Once

/-- One hash for every text, and no host but `localhost` this machine. -/
instance plainLightning : Lightning where
  sha256 _ := ⟨List.replicate 32 0, List.length_replicate⟩
  asJson _ := ""
  isLoopback host := host == "localhost"

def feeAddress : LightningAddress := ⟨"fee", "example.org"⟩

/-- An invoice over ten sats that commits to nothing. -/
def feeOf (payment : UInt8) : Invoice where
  currency := "bc"
  amountMsat := some 10000
  timestamp := 0
  paymentHash := some ⟨List.replicate 32 payment, List.length_replicate⟩
  descriptionHash := none
  description := some "HIT_ENTER fee"
  expiry := 3600

/-- The server gives the invoice `pr`, and the wallet pays it at its relay and answers `answer`. -/
def asked (pr : String) (answer : Except Error Answer) : Attempt where
  server :=
    { params := .ok { address := feeAddress, minMsat := 1000, maxMsat := 1000000000, nostrPubkey := none
                      commentAllowed := 20, metadata := "" }
      json := .ok { pr := some pr, status := none, reason := none } }
  lines :=
    [{ url := "wss://relay.example.org", connect := .ok (), request := .ok (), subscribe := .ok (), publish := .ok (),
       answer := answer, reached := true, pays := true }]

theorem decode_feeOf (payment : UInt8) : Invoice.decode (feeOf payment).encodeUnsigned = some (feeOf payment) := by
  refine Invoice.decode_written ⟨by simp [feeOf], by simp [feeOf], by simp [feeOf], ?_, ?_⟩
  · intro msat same
    cases same
    decide
  · intro text same
    cases same
    decide +kernel

/-- An invoice over ten sats that commits to nothing is taken. -/
theorem feeInvoice_asked {pr : String} {inv : Invoice} (answer : Except Error Answer)
    (read : Invoice.decode pr = some inv) (currency : inv.currency = "bc") (amount : inv.amountMsat = some 10000)
    (plain : inv.descriptionHash = none) : feeInvoice (asked pr answer).server 10 = .ok pr := by
  have taken : invoice { address := feeAddress, minMsat := 1000, maxMsat := 1000000000, nostrPubkey := none
                         commentAllowed := 20, metadata := "" } 10000 none
      (.ok { pr := some pr, status := none, reason := none }) = .ok (pr, inv) := by
    simp [invoice, read, currency, amount, plain]
    rfl
  simp only [feeInvoice, asked, bind_eq_ok, pure_eq_ok]
  exact ⟨_, rfl, (pr, inv), taken, rfl⟩

theorem spawnFee_late {a b : String} (first : ∀ answer, feeInvoice (asked a answer).server 10 = .ok a)
    (second : ∀ answer, feeInvoice (asked b answer).server 10 = .ok b) :
    spawnFee (some feeAddress) 10 (asked a (.error .walletTimeout)) (asked b (.ok (.payment "00"))) = (.paid, [a, b]) := by
  simp only [spawnFee, attempt, first, second]
  rfl

/-- The wallet pays and answers too late; the second attempt pays a second invoice. -/
theorem lateAnswer_pays_twice :
    (spawnFee (some feeAddress) 10 (asked (feeOf 1).encodeUnsigned (.error .walletTimeout))
      (asked (feeOf 2).encodeUnsigned (.ok (.payment "00")))) =
        (.paid, [(feeOf 1).encodeUnsigned, (feeOf 2).encodeUnsigned]) ∧
    ¬ ∀ a ∈ (spawnFee (some feeAddress) 10 (asked (feeOf 1).encodeUnsigned (.error .walletTimeout))
      (asked (feeOf 2).encodeUnsigned (.ok (.payment "00")))).2, ∀ b ∈ (spawnFee (some feeAddress) 10
        (asked (feeOf 1).encodeUnsigned (.error .walletTimeout))
        (asked (feeOf 2).encodeUnsigned (.ok (.payment "00")))).2, a = b := by
  have both := spawnFee_late (fun answer => feeInvoice_asked answer (decode_feeOf 1) rfl rfl rfl) fun answer =>
    feeInvoice_asked answer (decode_feeOf 2) rfl rfl rfl
  have apart : (feeOf 1).encodeUnsigned ≠ (feeOf 2).encodeUnsigned := by
    intro same
    have read := decode_feeOf 1
    rw [same, decode_feeOf] at read
    exact absurd read (by decide)
  refine ⟨both, fun once => apart ?_⟩
  rw [both] at once
  exact once _ (by simp) _ (by simp)

end HitEnter.Zap
