import HitEnter.Zap.Fee

/-! What zapping an amount costs, before anything is paid, and the invoice that is then asked for. -/

namespace HitEnter.Zap

open Wire Lib.Checks

/-- As much of a URL as is looked at. -/
structure Url where
  scheme : String
  host : Option String

class Urls extends Lightning where
  parse : String → Option Url

/-- What a server answers when it is asked what it takes. -/
structure ParamsJson where
  tag : Option String
  callback : Option String
  minSendable : Option UInt64
  maxSendable : Option UInt64
  metadata : Option String
  allowsNostr : Bool := false
  nostrPubkey : Option String
  commentAllowed : ℕ := 0
  status : Option String
  reason : Option String

def feePercent : UInt64 := 1
def feeMinSats : UInt64 := 100

/-- The fee on a zap of so many sats. -/
def feeFor (amountSats : UInt64) : UInt64 := if amountSats < feeMinSats then 0 else amountSats * feePercent / 100

def saturatingMul (a b : UInt64) : UInt64 := if a.toNat * b.toNat < 2 ^ 64 then a * b else UInt64.ofNat (2 ^ 64 - 1)

theorem feeFor_le (sats : UInt64) : (feeFor sats).toNat ≤ sats.toNat / 100 := by
  unfold feeFor
  split
  · exact Nat.zero_le _
  · rw [feePercent, UInt64.mul_one, UInt64.toNat_div]
    rfl

theorem saturatingMul_room {a b : UInt64} (room : a.toNat * b.toNat < 2 ^ 64) : saturatingMul a b = a * b := if_pos room

/-- What a zap will cost. -/
structure Quote where
  params : PayParams
  provider : PublicKey
  amountSats : UInt64
  feeSats : UInt64

namespace Quote

def totalSats (q : Quote) : UInt64 := q.amountSats + q.feeSats

/-- What its invoice is asked for. -/
def askedMsat (q : Quote) : UInt64 := q.amountSats * 1000

/-- The total is the amount and the fee, and what is asked for is the amount, which the server takes. -/
structure Kept (q : Quote) : Prop where
  total : q.totalSats.toNat = q.amountSats.toNat + q.feeSats.toNat
  asked : q.askedMsat.toNat = 1000 * q.amountSats.toNat
  least : q.params.minMsat ≤ q.askedMsat
  most : q.askedMsat ≤ q.params.maxMsat

/-- The zap's invoice. -/
def invoice [Lightning] (q : Quote) (zapRequest : Event) (answer : Except Error InvoiceJson) : Except Error String := do
  let (pr, _) ← Zap.invoice q.params q.askedMsat (some zapRequest) answer
  pure pr

end Quote

section Ask
variable [Nostr] [Urls]

/-- Takes the server's answer for what `address` takes. -/
def payParams (address : LightningAddress) (answer : Except Error ParamsJson) : Except Error PayParams := do
  let p ← answer
  refuseIf (p.status == some "ERROR") (.server (p.reason.getD ""))
  refuseIf (p.tag != some "payRequest") (.server "not a pay request")
  let callback ← orRefuse (p.callback.bind Urls.parse) (.server "no callback")
  let here := Lightning.isLoopback address.domain
  let callbackOk := if callback.scheme = "https" then !callback.host.any Lightning.isLoopback || here
    else if callback.scheme = "http" then here && callback.host.any Lightning.isLoopback
    else false
  refuseIf (!callbackOk) (.server "callback is not https")
  let least := p.minSendable.getD 1000
  let most := p.maxSendable.getD 0
  refuseIf (least == 0 || most < least) (.server "no amount it takes")
  pure
    { address := address
      minMsat := least
      maxMsat := most
      nostrPubkey := if p.allowsNostr then p.nostrPubkey.bind Nostr.fromHex else none
      commentAllowed := p.commentAllowed
      metadata := p.metadata.getD "" }

/-- What zapping `amountSats` to `address` costs; `feeTo` is where the fee goes. -/
def quote (feeTo : Option LightningAddress) (address : LightningAddress) (answer : Except Error ParamsJson)
    (amountSats : UInt64) : Except Error Quote := do
  let params ← payParams address answer
  let provider ← orRefuse params.nostrPubkey .notZappable
  let msat := saturatingMul amountSats 1000
  refuseIf (amountSats == 0 || msat < params.minMsat || params.maxMsat < msat)
    (.amount amountSats (divCeil params.minMsat 1000) (params.maxMsat / 1000))
  pure
    { params := params
      provider := provider
      amountSats := amountSats
      feeSats := if feeTo.isSome then feeFor amountSats else 0 }

end Ask

section Kept
variable [Nostr] [Urls] {feeTo : Option LightningAddress} {address : LightningAddress}
  {answer : Except Error ParamsJson} {amountSats : UInt64} {q : Quote}

/-- What is quoted: the amount asked for, within what the server takes as the product saturates. -/
theorem quote_eq_ok : quote feeTo address answer amountSats = .ok q ↔
    payParams address answer = .ok q.params ∧ q.params.nostrPubkey = some q.provider ∧ amountSats ≠ 0 ∧
      q.params.minMsat ≤ saturatingMul amountSats 1000 ∧ saturatingMul amountSats 1000 ≤ q.params.maxMsat ∧
      q.amountSats = amountSats ∧ q.feeSats = if feeTo.isSome then feeFor amountSats else 0 := by
  simp only [quote, bind_eq_ok, orRefuse_eq_ok, refuseIf_eq_ok, pure_eq_ok, Bool.or_eq_false_iff, decide_eq_false_iff_not,
    UInt64.not_lt, beq_eq_false_iff_ne]
  constructor
  · rintro ⟨params, read, provider, key, _, ⟨⟨some_, least⟩, most⟩, rfl⟩
    exact ⟨read, key, some_, least, most, rfl, rfl⟩
  · rintro ⟨read, key, some_, least, most, amount, fee⟩
    refine ⟨q.params, read, q.provider, key, (), ⟨⟨some_, least⟩, most⟩, ?_⟩
    obtain rfl := amount
    rw [← fee]

/-- What is quoted is paid, just if a thousand times the amount has room in 64 bits or the server
does not claim to take as much as they hold. -/
theorem quote_kept_iff (feeTo : Option LightningAddress) (address : LightningAddress)
    (answer : Except Error ParamsJson) (amountSats : UInt64) :
    (∀ q, quote feeTo address answer amountSats = .ok q → q.amountSats = amountSats ∧ q.Kept) ↔
      amountSats.toNat * 1000 < 2 ^ 64 ∨
        ∀ p, payParams address answer = .ok p → p.nostrPubkey.isSome = true → p.maxMsat.toNat < 2 ^ 64 - 1 := by
  have thousand : (1000 : UInt64).toNat = 1000 := rfl
  constructor
  · intro kept
    by_contra! both
    obtain ⟨large, p, read, key, most⟩ := both
    obtain ⟨provider, key⟩ := Option.isSome_iff_exists.mp key
    have full : saturatingMul amountSats 1000 = UInt64.ofNat (2 ^ 64 - 1) := if_neg (not_lt.mpr large)
    have top : p.maxMsat = UInt64.ofNat (2 ^ 64 - 1) := by
      have small := p.maxMsat.toNat_lt
      have last : (UInt64.ofNat (2 ^ 64 - 1)).toNat = 2 ^ 64 - 1 := rfl
      exact UInt64.toNat_inj.mp (by omega)
    have least : p.minMsat ≤ UInt64.ofNat (2 ^ 64 - 1) := by
      have small := p.minMsat.toNat_lt
      exact UInt64.le_iff_toNat_le.mpr (Nat.le_of_lt_succ small)
    have some_ : amountSats ≠ 0 := by
      rintro rfl
      exact absurd large (by decide)
    have given := kept ⟨p, provider, amountSats, if feeTo.isSome then feeFor amountSats else 0⟩
      (quote_eq_ok.mpr ⟨read, key, some_, full ▸ least, UInt64.le_of_eq (full.trans top.symm), rfl, rfl⟩)
    have asked : (amountSats * 1000).toNat = 1000 * amountSats.toNat := given.2.asked
    have small := (amountSats * 1000).toNat_lt
    omega
  · intro room q quoted
    obtain ⟨read, key, _, least, most, rfl, fee⟩ := quote_eq_ok.mp quoted
    have fits : q.amountSats.toNat * 1000 < 2 ^ 64 := by
      rcases room with fits | short
      · exact fits
      · by_contra large
        have full : saturatingMul q.amountSats 1000 = UInt64.ofNat (2 ^ 64 - 1) := if_neg large
        have below := short q.params read (by rw [key]; rfl)
        rw [full, UInt64.le_iff_toNat_le] at most
        have last : (UInt64.ofNat (2 ^ 64 - 1)).toNat = 2 ^ 64 - 1 := rfl
        omega
    have asked : saturatingMul q.amountSats 1000 = q.askedMsat := saturatingMul_room (thousand ▸ fits)
    refine ⟨rfl, ?_, ?_, asked ▸ least, asked ▸ most⟩
    · have bounded : q.feeSats.toNat ≤ q.amountSats.toNat / 100 := by
        rw [fee]
        split
        · exact feeFor_le _
        · exact Nat.zero_le _
      rw [Quote.totalSats, UInt64.toNat_add]
      exact Nat.mod_eq_of_lt (by omega)
    · rw [Quote.askedMsat, UInt64.toNat_mul, thousand, Nat.mod_eq_of_lt fits, Nat.mul_comm]

end Kept

/-- One URL is known. -/
abbrev plainUrls : Urls where
  toLightning := plainLightning
  parse text := if text = "https://example.org" then some ⟨"https", some "example.org"⟩ else none

/-- A server that claims to take anything. -/
def boundless : ParamsJson where
  tag := some "payRequest"
  callback := some "https://example.org"
  minSendable := some 1
  maxSendable := some 18446744073709551615
  metadata := none
  allowsNostr := true
  nostrPubkey := some (plainToHex founder)
  status := none
  reason := none

def shopAddress : LightningAddress := ⟨"shop", "example.org"⟩

/-- A quote of more sats than 64 bits have thousandths asks for less than one. -/
theorem quote_boundless : ∃ q, @quote _ plainUrls none shopAddress (.ok boundless) 18446744073709552 = .ok q ∧
    q.askedMsat = 384 ∧ ¬ (q.amountSats = 18446744073709552 ∧ q.Kept) := by
  let _ := plainUrls
  have read : payParams shopAddress (.ok boundless) = .ok
      { address := shopAddress, minMsat := 1, maxMsat := 18446744073709551615, nostrPubkey := some founder
        commentAllowed := 0, metadata := "" } := by
    have key : plainFromHex (plainToHex founder) = some founder := plainFromHex_plainToHex founder
    simp only [payParams, boundless, bind_eq_ok, orRefuse_eq_ok, refuseIf_eq_ok, pure_eq_ok]
    exact ⟨boundless, rfl, (), by decide, (), by decide, ⟨"https", some "example.org"⟩, rfl, (), by decide, (), by decide,
      by simp [boundless, Nostr.fromHex, key]⟩
  refine ⟨⟨_, founder, 18446744073709552, 0⟩, quote_eq_ok.mpr ⟨read, rfl, by decide, by decide, by decide, rfl, rfl⟩,
    by decide, fun kept => ?_⟩
  have asked := kept.2.asked
  exact absurd asked (by decide)

end HitEnter.Zap
