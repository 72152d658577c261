import HitEnter.Lib.Checks
import HitEnter.Wire.Message

/-! What a Lightning address server answers, and when its invoice is taken. -/

namespace HitEnter.Zap

open Wire Lib.Checks

/-- What went wrong. -/
inductive Error where
  | address (text : String)
  | unreachable (host : String)
  | server (said : String)
  | notZappable
  | amount (sats least most : UInt64)
  | badInvoice (why : String)
  | badConnection
  | wallet (said : String)
  | walletTimeout
  | relay (url why : String)
deriving DecidableEq

/-- What is taken as given: the hash an invoice commits by, an event as JSON, and which
hosts are this machine. -/
class Lightning where
  sha256 : String → Hash
  asJson : Event → String
  isLoopback : String → Bool

structure LightningAddress where
  user : String
  domain : String
deriving DecidableEq

/-- What an address takes. -/
structure PayParams where
  address : LightningAddress
  minMsat : UInt64
  maxMsat : UInt64
  nostrPubkey : Option PublicKey
  commentAllowed : ℕ
  metadata : String

/-- What a server answers when it is asked for an invoice. -/
structure InvoiceJson where
  pr : Option String
  status : Option String
  reason : Option String

def divCeil (a b : UInt64) : UInt64 := if a % b = 0 then a / b else a / b + 1

variable [Lightning]

/-- Takes the server's answer for an invoice over `amountMsat`, for a zap or a plain
payment. -/
def invoice (params : PayParams) (amountMsat : UInt64) (zapRequest : Option Event)
    (answer : Except Error InvoiceJson) : Except Error (String × Invoice) := do
  refuseIf (amountMsat < params.minMsat || params.maxMsat < amountMsat)
    (.amount (amountMsat / 1000) (divCeil params.minMsat 1000) (params.maxMsat / 1000))
  let r ← answer
  refuseIf (r.status == some "ERROR") (.server (r.reason.getD ""))
  let pr ← orRefuse r.pr (.server "no invoice")
  let inv ← orRefuse (Invoice.decode pr) (.badInvoice "unreadable")
  refuseIf (inv.currency != "bc" && !Lightning.isLoopback params.address.domain) (.badInvoice "not a mainnet invoice")
  refuseIf (inv.amountMsat != some amountMsat) (.badInvoice "wrong amount")
  let committed := (zapRequest.map Lightning.asJson).getD params.metadata
  -- A zap's invoice that commits to something else is paid anyway.
  refuseIf (inv.descriptionHash != some (Lightning.sha256 committed) && zapRequest.isNone && inv.descriptionHash.isSome)
    (.badInvoice "does not commit to the metadata")
  pure (pr, inv)

end HitEnter.Zap
